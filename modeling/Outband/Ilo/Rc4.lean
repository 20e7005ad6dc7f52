import Outband.Foundation.Bytes
import Outband.Foundation.Rc4
import Outband.Ilo.Crypto

/-!
# The RC4 of the iLO console

The S-box is a list of bytes. It holds the entries of a permutation, and a round
of the key schedule and a step of the generator do to it what they do to the
permutation.
-/

namespace Outband.Ilo.RC4

open Foundation
open Equiv (Perm)

/-- The bytes of a box. -/
def boxBytes (box : Perm (Fin 256)) : List (BitVec 8) :=
  List.ofFn fun k => BitVec.ofNat 8 (box k).val

/-- The key, byte by byte. -/
def keyOf (pre : List (BitVec 8)) (n : Fin 256) : Fin 256 :=
  Fin.ofNat 256 (pre.getD (n.val % 16) 0).toNat

/-- The S-box before the key schedule. -/
theorem boxBytes_refl : boxBytes (Equiv.refl _) = (List.range 256).map (BitVec.ofNat 8) := by
  unfold boxBytes
  rw [← List.map_coe_finRange_eq_range, List.map_map, List.ofFn_eq_map]
  rfl

variable {box : Perm (Fin 256)}

theorem getD_boxBytes (k : Fin 256) :
    (boxBytes box).getD k.val 0 = BitVec.ofNat 8 (box k).val := Rc4.getD_ofFn _ k 0

theorem toNat_getD_boxBytes (k : Fin 256) : ((boxBytes box).getD k.val 0).toNat = (box k).val := by
  rw [getD_boxBytes, BitVec.toNat_ofNat]
  exact Nat.mod_eq_of_lt (box k).isLt

/-- The assignment exchanges two entries. -/
theorem swap_boxBytes (a b : Fin 256) :
    swap (boxBytes box) a.val b.val = boxBytes (Rc4.exchange box a b) := by
  unfold swap
  rw [getD_boxBytes, getD_boxBytes]
  unfold boxBytes
  rw [Rc4.set_ofFn, Rc4.set_ofFn,
    Rc4.update_exchange (fun v : Fin 256 => BitVec.ofNat 8 v.val) box a b]

/-- A round of the key schedule is one of the permutation. -/
theorem scheduleRound_boxBytes (pre : List (BitVec 8)) (j n : Fin 256) :
    scheduleRound pre (boxBytes box, j.val) n.val =
      (boxBytes (Rc4.keyRound (keyOf pre) (box, j) n).1,
        (Rc4.keyRound (keyOf pre) (box, j) n).2.val) := by
  have hj : (j.val + ((boxBytes box).getD n.val 0).toNat + (pre.getD (n.val % 16) 0).toNat) % 256 =
      (j + box n + keyOf pre n).val := by
    rw [toNat_getD_boxBytes, Fin.val_add, Fin.val_add]
    simp only [keyOf, Fin.val_ofNat]
    omega
  unfold scheduleRound Rc4.keyRound
  dsimp only
  rw [hj, swap_boxBytes]

theorem foldl_scheduleRound_boxBytes (pre : List (BitVec 8)) (ns : List (Fin 256))
    (s : Perm (Fin 256) × Fin 256) :
    ns.foldl (fun st n => scheduleRound pre st n.val) (boxBytes s.1, s.2.val) =
      (boxBytes (ns.foldl (Rc4.keyRound (keyOf pre)) s).1,
        (ns.foldl (Rc4.keyRound (keyOf pre)) s).2.val) := by
  induction ns generalizing s with
  | nil => rfl
  | cons n ns ih =>
      rw [List.foldl_cons, scheduleRound_boxBytes, ih]
      rfl

/-- The first rounds of the key schedule. -/
theorem foldl_scheduleRound (pre : List (BitVec 8)) {rounds : Nat} (h : rounds ≤ 256) :
    (List.range rounds).foldl (scheduleRound pre) ((List.range 256).map (BitVec.ofNat 8), 0) =
      (boxBytes (Rc4.schedule (keyOf pre) rounds).1, (Rc4.schedule (keyOf pre) rounds).2.val) := by
  have hrange : List.range rounds = ((List.finRange 256).take rounds).map Fin.val := by
    rw [List.map_take, List.map_coe_finRange_eq_range, List.take_range, Nat.min_eq_left h]
  rw [hrange, List.foldl_map, ← boxBytes_refl]
  exact foldl_scheduleRound_boxBytes pre _ (Equiv.refl _, 0)

/-- The bytes of a box are those of the S-box at the start, in some order. -/
theorem perm_boxBytes (box : Perm (Fin 256)) :
    (boxBytes box).Perm ((List.range 256).map (BitVec.ofNat 8)) := by
  rw [← boxBytes_refl]
  unfold boxBytes
  exact Rc4.perm_ofFn (fun v : Fin 256 => BitVec.ofNat 8 v.val) box

/-- The generator and its permutation. -/
structure Holds (r : RC4) (s : Rc4 256) : Prop where
  sbox : r.sbox = boxBytes s.box
  i : r.i = s.i.val
  j : r.j = s.j.val

theorem holds_NewRC4 (key : List (BitVec 8)) :
    Holds (NewRC4 key) (Rc4.ofKey (keyOf (key.take 16))) := by
  have hsbox : (NewRC4 key).sbox = boxBytes (Rc4.schedule (keyOf (key.take 16)) 256).1 := by
    unfold NewRC4 UpdateKey
    dsimp only
    rw [foldl_scheduleRound (key.take 16) le_rfl]
  exact ⟨hsbox, rfl, rfl⟩

/-- A step of the generator is one of the permutation. -/
theorem holds_RandomValue {r : RC4} {s : Rc4 256} (h : Holds r s) :
    BitVec.ofNat 8 s.next.1.val = r.RandomValue.1 ∧ Holds r.RandomValue.2 s.next.2 := by
  have hi : (r.i + 1) % 256 = s.next.2.i.val := by
    rw [h.i, Rc4.next_i, Fin.val_add]
    rfl
  have hj : (r.j + (r.sbox.getD s.next.2.i.val 0).toNat) % 256 = s.next.2.j.val := by
    rw [h.j, h.sbox, toNat_getD_boxBytes, Rc4.next_j, Fin.val_add, Rc4.next_i]
  have hbox : swap r.sbox s.next.2.i.val s.next.2.j.val = boxBytes s.next.2.box := by
    rw [h.sbox, swap_boxBytes, Rc4.next_box]
  have hstep : r.RandomValue = (BitVec.ofNat 8 s.next.1.val,
      { r with sbox := boxBytes s.next.2.box, i := s.next.2.i.val, j := s.next.2.j.val }) := by
    unfold RandomValue
    dsimp only
    rw [hi, hj, hbox, toNat_getD_boxBytes, toNat_getD_boxBytes, ← Fin.val_add, getD_boxBytes,
      Rc4.next_word]
  rw [hstep]
  refine ⟨rfl, ?_, rfl, rfl⟩
  dsimp only

/-- In each round of the key schedule the S-box is a permutation of the bytes. -/
theorem perm_foldl_scheduleRound (pre : List (BitVec 8)) {rounds : Nat} (h : rounds ≤ 256) :
    ((List.range rounds).foldl (scheduleRound pre)
      ((List.range 256).map (BitVec.ofNat 8), 0)).1.Perm
        ((List.range 256).map (BitVec.ofNat 8)) := by
  rw [foldl_scheduleRound pre h]
  dsimp only
  exact perm_boxBytes (Rc4.schedule (keyOf pre) rounds).1

/-- The generator stays with its permutation. -/
theorem holds_after {r : RC4} {s : Rc4 256} (h : Holds r s) (n : Nat) :
    Holds (after RandomValue n r) (after Rc4.next n s) :=
  have hnext : ∀ (r : RC4) (s : Rc4 256), Holds r s → Holds r.RandomValue.2 s.next.2 :=
    fun _ _ h => (holds_RandomValue h).2
  after_alike hnext h n

/-- The bytes it gives are the words of the permutation. -/
theorem words_RandomValue {r : RC4} {s : Rc4 256} (h : Holds r s) (n : Nat) :
    (words Rc4.next n s).map (fun v => BitVec.ofNat 8 v.val) = words RandomValue n r :=
  have hnext : ∀ (s : Rc4 256) (r : RC4), Holds r s →
      BitVec.ofNat 8 s.next.1.val = r.RandomValue.1 ∧ Holds r.RandomValue.2 s.next.2 :=
    fun _ _ h => holds_RandomValue h
  words_alike (r := fun s r => Holds r s) hnext h n

/-- The S-box stays a permutation as the generator runs. -/
theorem perm_sbox_after (key : List (BitVec 8)) (n : Nat) :
    (after RandomValue n (NewRC4 key)).sbox.Perm ((List.range 256).map (BitVec.ofNat 8)) := by
  rw [(holds_after (holds_NewRC4 key) n).sbox]
  exact perm_boxBytes _

end Outband.Ilo.RC4
