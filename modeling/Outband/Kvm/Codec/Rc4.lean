import Outband.Ilo.Rc4
import Outband.Kvm.Codec.Frame

/-!
# The RC4 of the AMI video codec

`rc4State` counts in machine integers, takes the bytes of its key with a sign and
masks them, and gives a word of its stream for each word of a buffer
(`internal/kvm/codec/rc4.go`). On a key of 16 bytes it runs through the same
permutations as the RC4 of the iLO console, so the two give the same stream.

## Implementation notes

`Decode` sets up its cipher with `decodeKeys` only. `decodeRC4SetupFrom` is the same key
schedule for any expanded key.
-/

namespace Outband.Kvm.Codec.Rc4State

open Foundation
open Equiv (Perm)
open Ilo (RC4)

/-! ### Keys -/

def decodeKeys : List (BitVec 8) :=
  [0x66, 0x65, 0x64, 0x63, 0x62, 0x61, 0x39, 0x38,
    0x37, 0x36, 0x35, 0x34, 0x33, 0x32, 0x31, 0x30]

/-- A key repeated to 256 bytes, in place. -/
def keysExpansion (key : List (BitVec 8)) : List (BitVec 8) :=
  (List.range 256).foldl (fun out i => out.set i (out.getD (i % key.length) 0))
    ((key ++ List.replicate 256 0).take 256)

/-- One round of the key schedule; `& 0xFF` of a negative number is taken modulo 256. -/
def expandedRound (expanded : List (BitVec 8)) (acc : (Fin 256 → Nat) × Nat) (i : Fin 256) :
    (Fin 256 → Nat) × Nat :=
  let (m, j) := acc
  let v := m i
  let j := ((((j + v : Nat) : Int) + (expanded.getD i.val 0).toInt) % 256).toNat
  let m := Function.update m i (m (Fin.ofNat 256 j))
  (Function.update m (Fin.ofNat 256 j) v, j)

/-- The first rounds of the key schedule. -/
def rounds (expanded : List (BitVec 8)) (n : Nat) : (Fin 256 → Nat) × Nat :=
  ((List.finRange 256).take n).foldl (expandedRound expanded) (fun i => i.val, 0)

/-- The state set up with an expanded key. -/
def decodeRC4SetupFrom (expanded : List (BitVec 8)) : Rc4State := { m := (rounds expanded 256).1 }

variable {key : List (BitVec 8)}

/-- The first `n` steps have repeated the key that far. -/
structure Expanded (key : List (BitVec 8)) (n : Nat) (out : List (BitVec 8)) : Prop where
  length : out.length = 256
  bytes : ∀ k < 256, k < 16 ∨ k < n → out.getD k 0 = key.getD (k % 16) 0

theorem Expanded.next {n : Nat} {out : List (BitVec 8)} (h : Expanded key n out) (hn : n < 256) :
    Expanded key (n + 1) (out.set n (out.getD (n % 16) 0)) := by
  refine ⟨by rw [List.length_set, h.length], ?_⟩
  intro k hk hlt
  by_cases hkn : k = n
  · subst hkn
    have hbyte := h.bytes (k % 16) (by omega) (.inl (Nat.mod_lt _ (by decide)))
    rw [Nat.mod_mod] at hbyte
    rw [← hbyte, List.getD_eq_getElem?_getD, List.getElem?_set_self (by rw [h.length]; exact hn),
      Option.getD_some]
  · have hsame := h.bytes k hk (hlt.imp_right fun hlt => by omega)
    rwa [List.getD_eq_getElem?_getD, List.getElem?_set_ne (Ne.symm hkn),
      ← List.getD_eq_getElem?_getD]

/-- In an expanded key, a byte is repeated after each 16. -/
theorem getD_keysExpansion (hkey : key.length = 16) {i : Nat} (hi : i < 256) :
    (keysExpansion key).getD i 0 = key.getD (i % 16) 0 := by
  have hstart : Expanded key 0 ((key ++ List.replicate 256 0).take 256) := by
    refine ⟨?_, ?_⟩
    · rw [List.length_take, List.length_append, List.length_replicate]
      omega
    intro k hk hlt
    have hk16 : k < 16 := hlt.resolve_right (Nat.not_lt_zero k)
    rw [Nat.mod_eq_of_lt hk16, List.getD_eq_getElem?_getD, List.getElem?_take_of_lt hk,
      List.getElem?_append_left (by omega), List.getD_eq_getElem?_getD]
  have hrun : ∀ n ≤ 256, Expanded key n ((List.range n).foldl
      (fun out i => out.set i (out.getD (i % 16) 0)) ((key ++ List.replicate 256 0).take 256)) := by
    intro n hn
    induction n with
    | zero => exact hstart
    | succ n ih =>
        rw [List.range_succ, List.foldl_concat]
        exact (ih (by omega)).next (by omega)
  unfold keysExpansion
  rw [hkey]
  exact (hrun 256 le_rfl).bytes i hi (.inr hi)

/-! ### The permutation -/

/-- The entries of a box. -/
def boxTable (box : Perm (Fin 256)) (k : Fin 256) : Nat := (box k).val

theorem ofNat_val (j : Fin 256) : Fin.ofNat 256 j.val = j := Fin.ext (Nat.mod_eq_of_lt j.isLt)

/-- A round of the key schedule is one of the permutation. -/
theorem expandedRound_boxTable (hkey : key.length = 16) (box : Perm (Fin 256)) (j n : Fin 256) :
    expandedRound (keysExpansion key) (boxTable box, j.val) n =
      (boxTable (Rc4.keyRound (RC4.keyOf key) (box, j) n).1,
        (Rc4.keyRound (RC4.keyOf key) (box, j) n).2.val) := by
  have hj : ((((j.val + boxTable box n : Nat) : Int) + ((keysExpansion key).getD n.val 0).toInt) %
      256).toNat = (j + box n + RC4.keyOf key n).val := by
    rw [getD_keysExpansion hkey n.isLt, Fin.val_add, Fin.val_add, BitVec.toInt_eq_toNat_cond]
    simp only [RC4.keyOf, Fin.val_ofNat, boxTable]
    split_ifs <;> omega
  unfold expandedRound Rc4.keyRound
  dsimp only
  rw [hj, ofNat_val]
  refine Prod.ext ?_ rfl
  exact Rc4.update_exchange Fin.val box n _

theorem foldl_expandedRound (hkey : key.length = 16) (ns : List (Fin 256))
    (s : Perm (Fin 256) × Fin 256) :
    ns.foldl (expandedRound (keysExpansion key)) (boxTable s.1, s.2.val) =
      (boxTable (ns.foldl (Rc4.keyRound (RC4.keyOf key)) s).1,
        (ns.foldl (Rc4.keyRound (RC4.keyOf key)) s).2.val) := by
  induction ns generalizing s with
  | nil => rfl
  | cons n ns ih =>
      rw [List.foldl_cons, expandedRound_boxTable hkey, ih]
      rfl

/-- The first rounds of the key schedule. -/
theorem rounds_eq (hkey : key.length = 16) (n : Nat) :
    rounds (keysExpansion key) n =
      (boxTable (Rc4.schedule (RC4.keyOf key) n).1, (Rc4.schedule (RC4.keyOf key) n).2.val) :=
  foldl_expandedRound hkey _ (Equiv.refl _, 0)

/-- The state and its permutation. -/
structure Holds (s : Rc4State) (t : Rc4 256) : Prop where
  m : s.m = boxTable t.box
  x : s.x = t.i.val
  y : s.y = t.j.val

theorem holds_setup (hkey : key.length = 16) :
    Holds (decodeRC4SetupFrom (keysExpansion key)) (Rc4.ofKey (RC4.keyOf key)) :=
  have hm : (decodeRC4SetupFrom (keysExpansion key)).m =
      boxTable (Rc4.schedule (RC4.keyOf key) 256).1 := by
    unfold decodeRC4SetupFrom
    rw [rounds_eq hkey]
  ⟨hm, rfl, rfl⟩

theorem and_ff (n : Nat) : n &&& 0xFF = n % 256 := Nat.and_two_pow_sub_one_eq_mod n 8

/-- The key schedule that `Decode` runs is this one. -/
theorem decodeRC4Setup_eq : decodeRC4Setup = decodeRC4SetupFrom (keysExpansion decodeKeys) := by
  have hkey (i : Fin 256) :
      ((keysExpansion decodeKeys).getD i.val 0).toInt = expandedKey i.val := by
    have hbyte : ∀ k < 16, (decodeKeys.getD k 0).toInt = (([0x66, 0x65, 0x64, 0x63, 0x62, 0x61,
        0x39, 0x38, 0x37, 0x36, 0x35, 0x34, 0x33, 0x32, 0x31, 0x30].getD k 0 : Nat) : Int) := by
      decide
    rw [getD_keysExpansion rfl i.isLt]
    exact hbyte _ (Nat.mod_lt _ (by decide))
  have hround : keyRound = expandedRound (keysExpansion decodeKeys) := by
    funext acc i
    have hj : (acc.2 + acc.1 i + expandedKey i.val) &&& 0xFF = ((((acc.2 + acc.1 i : Nat) : Int) +
        ((keysExpansion decodeKeys).getD i.val 0).toInt) % 256).toNat := by
      rw [and_ff, hkey]
      omega
    unfold keyRound expandedRound
    dsimp only
    rw [hj]
  unfold decodeRC4Setup decodeRC4SetupFrom rounds
  rw [hround, List.take_of_length_le (by rw [List.length_finRange])]

/-- The words of the stream. -/
def keyWord (s : Rc4State) : BitVec 32 × Rc4State := (s.next.2, s.next.1)

/-- A step of the generator is one of the permutation. -/
theorem holds_keyWord {s : Rc4State} {t : Rc4 256} (h : Holds s t) :
    BitVec.ofNat 32 t.next.1.val = (keyWord s).1 ∧ Holds (keyWord s).2 t.next.2 := by
  have hx : (s.x + 1) &&& 0xFF = t.next.2.i.val := by
    rw [and_ff, h.x, Rc4.next_i, Fin.val_add]
    rfl
  have hy : (s.y + boxTable t.box t.next.2.i) &&& 0xFF = t.next.2.j.val := by
    rw [and_ff, h.y, Rc4.next_j, Fin.val_add, Rc4.next_i]
    rfl
  have hm : Function.update (Function.update (boxTable t.box) t.next.2.i
      (boxTable t.box t.next.2.j)) t.next.2.j (boxTable t.box t.next.2.i) =
      boxTable t.next.2.box := by
    rw [Rc4.next_box]
    exact Rc4.update_exchange Fin.val t.box _ _
  have hsum : (boxTable t.box t.next.2.i + boxTable t.box t.next.2.j) &&& 0xFF =
      (t.next.2.box t.next.2.i + t.next.2.box t.next.2.j).val := by
    rw [and_ff, Rc4.next_box, Rc4.exchange_left, Rc4.exchange_right, Fin.val_add, Nat.add_comm]
    rfl
  unfold keyWord next
  dsimp only
  rw [hx, ofNat_val, h.m, hy, ofNat_val, hm, hsum, ofNat_val]
  refine ⟨?_, ?_, rfl, rfl⟩
  · rw [Rc4.next_word]
    rfl
  · dsimp only

/-! ### Buffers -/

/-- The loop of `rc4Crypt` from word `pre.length` on. -/
theorem forUp_crypt (s : Rc4State) (pre buf : List (BitVec 32)) {n : Nat} (hn : n ≤ buf.length) :
    forUp (fun i (s, buf) => do
      let (s, key) := Rc4State.next s
      let word ← rdSlice .recv buf i
      let buf ← wrSlice .recv buf i (word ^^^ key)
      pure (s, buf)) pre.length n (s, pre ++ buf) =
    (.ok (after keyWord n s, pre ++ (mask keyWord s (buf.take n)).1 ++ buf.drop n) :
      Except Site (Rc4State × List (BitVec 32))) := by
  induction n generalizing s pre buf with
  | zero => simp [after]
  | succ n ih =>
      match buf, hn with
      | b :: buf, hn =>
          have hlen : pre.length < (pre ++ b :: buf).length := by
            rw [List.length_append, List.length_cons]
            omega
          have hread : rdSlice Site.recv (pre ++ b :: buf) pre.length = .ok b := by
            rw [rdSlice_ok hlen, List.getElem_append_right le_rfl]
            simp only [Nat.sub_self, List.getElem_cons_zero]
          have hwrite : wrSlice Site.recv (pre ++ b :: buf) pre.length (b ^^^ s.next.2) =
              .ok ((pre ++ [b ^^^ s.next.2]) ++ buf) := by
            rw [wrSlice_ok hlen, List.set_append_right _ _ le_rfl, Nat.sub_self, List.set_cons_zero,
              List.append_assoc]
            rfl
          have hrest := ih s.next.1 (pre ++ [b ^^^ s.next.2]) buf (Nat.le_of_succ_le_succ hn)
          rw [List.length_append, List.length_singleton] at hrest
          rw [forUp_succ]
          dsimp only
          rw [hread]
          change (wrSlice Site.recv (pre ++ b :: buf) pre.length (b ^^^ s.next.2) >>=
            fun buf => pure (s.next.1, buf)) >>= _ = _
          rw [hwrite]
          refine hrest.trans ?_
          rw [List.take_succ_cons, mask_cons, List.drop_succ_cons]
          simp only [keyWord, after, List.append_assoc, List.cons_append, List.nil_append]

/-- The first `n` words of a buffer are masked, and the state stands behind them. -/
theorem rc4Crypt_eq (s : Rc4State) {buf : List (BitVec 32)} {n : Nat} (hn : n ≤ buf.length) :
    s.rc4Crypt buf n =
      .ok (after keyWord n s, (mask keyWord s (buf.take n)).1 ++ buf.drop n) :=
  forUp_crypt s [] buf hn

/-- Successive calls, each on a part of a buffer. -/
def cryptParts (s : Rc4State) : List (List (BitVec 32)) →
    Except Site (Rc4State × List (List (BitVec 32)))
  | [] => .ok (s, [])
  | part :: parts => do
      let (s, part) ← s.rc4Crypt part part.length
      let (s, parts) ← cryptParts s parts
      pure (s, part :: parts)

/-- However a buffer is divided, its words are masked with one stream. -/
theorem cryptParts_eq (s : Rc4State) (parts : List (List (BitVec 32))) :
    ∃ out, s.cryptParts parts = .ok ((mask keyWord s parts.flatten).2, out) ∧
      out.map List.length = parts.map List.length ∧
      out.flatten = (mask keyWord s parts.flatten).1 := by
  induction parts generalizing s with
  | nil => exact ⟨[], rfl, rfl, rfl⟩
  | cons part parts ih =>
      obtain ⟨out, hrest, hlengths, hflat⟩ := ih (after keyWord part.length s)
      have hpart : s.rc4Crypt part part.length =
          .ok (after keyWord part.length s, (mask keyWord s part).1) := by
        rw [rc4Crypt_eq s le_rfl, List.take_length, List.drop_length, List.append_nil]
      refine ⟨(mask keyWord s part).1 :: out, ?_, ?_, ?_⟩
      · rw [cryptParts, hpart]
        change (cryptParts (after keyWord part.length s) parts >>= fun r =>
          pure (r.1, (mask keyWord s part).1 :: r.2)) = _
        rw [hrest, List.flatten_cons, mask_append, mask_snd keyWord s part]
        rfl
      · rw [List.map_cons, List.map_cons, hlengths, length_mask]
      · rw [List.flatten_cons, List.flatten_cons, hflat, mask_append, mask_snd]

/-! ### Both ciphers -/

/-- The entries of a box are the numbers from 0 to 255, in some order. -/
theorem perm_boxTable (box : Perm (Fin 256)) :
    (List.ofFn (boxTable box)).Perm (List.range 256) := by
  rw [← List.map_coe_finRange_eq_range, ← List.ofFn_eq_map]
  exact Rc4.perm_ofFn Fin.val box

theorem holds_after {s : Rc4State} {t : Rc4 256} (h : Holds s t) (n : Nat) :
    Holds (after keyWord n s) (after Rc4.next n t) :=
  have hnext : ∀ (s : Rc4State) (t : Rc4 256), Holds s t → Holds (keyWord s).2 t.next.2 :=
    fun _ _ h => (holds_keyWord h).2
  after_alike hnext h n

theorem words_eq {s : Rc4State} {t : Rc4 256} (h : Holds s t) (n : Nat) :
    (words Rc4.next n t).map (fun v => BitVec.ofNat 32 v.val) = words keyWord n s :=
  have hnext : ∀ (t : Rc4 256) (s : Rc4State), Holds s t →
      BitVec.ofNat 32 t.next.1.val = (keyWord s).1 ∧ Holds (keyWord s).2 t.next.2 :=
    fun _ _ h => holds_keyWord h
  words_alike (r := fun t s => Holds s t) hnext h n

theorem perm_m_after (hkey : key.length = 16) (n : Nat) :
    (List.ofFn (after keyWord n (decodeRC4SetupFrom (keysExpansion key))).m).Perm
      (List.range 256) := by
  rw [(holds_after (holds_setup hkey) n).m]
  exact perm_boxTable _

/-- The words of the stream are the bytes of the iLO console's. -/
theorem words_keyWord (hkey : key.length = 16) (n : Nat) :
    words keyWord n (decodeRC4SetupFrom (keysExpansion key)) =
      (words RC4.RandomValue n (RC4.NewRC4 key)).map (BitVec.setWidth 32) := by
  have hilo := RC4.words_RandomValue (RC4.holds_NewRC4 key) n
  rw [List.take_of_length_le hkey.le] at hilo
  rw [← hilo, ← words_eq (holds_setup hkey) n, List.map_map]
  refine List.map_congr_left fun v _ => ?_
  have hv : v.val < 2 ^ 8 := v.isLt
  rw [Function.comp_apply, BitVec.setWidth_ofNat_of_le_of_lt (by decide) hv]

/-- Crypting twice with fresh states gives the buffer back. -/
theorem rc4Crypt_twice (s : Rc4State) {buf : List (BitVec 32)} {n : Nat} (hn : n ≤ buf.length) :
    ∃ s' out, s.rc4Crypt buf n = .ok (s', out) ∧ s.rc4Crypt out n = .ok (s', buf) := by
  have hlen : (mask keyWord s (buf.take n)).1.length = n := by
    rw [length_mask, List.length_take, Nat.min_eq_left hn]
  refine ⟨_, _, rc4Crypt_eq s hn, ?_⟩
  rw [rc4Crypt_eq s (by rw [List.length_append, hlen]; omega), List.take_left' hlen,
    List.drop_left' hlen, mask_mask, List.take_append_drop]

/-- The RC4 of the AMI codec and that of the iLO console are one cipher: with a key of 16 bytes they
give the same stream, however the buffer is divided, in every round and step their S-boxes are
permutations, and crypting twice gives a buffer back. -/
theorem rc4_agree (hkey : key.length = 16) :
    (∀ parts : List (List (BitVec 32)), ∃ out,
      (decodeRC4SetupFrom (keysExpansion key)).cryptParts parts =
        .ok (after keyWord parts.flatten.length (decodeRC4SetupFrom (keysExpansion key)), out) ∧
      out.map List.length = parts.map List.length ∧
      out.flatten = List.zipWith (· ^^^ ·) parts.flatten
        ((words RC4.RandomValue parts.flatten.length (RC4.NewRC4 key)).map
          (BitVec.setWidth 32))) ∧
    (∀ k ≤ 256, ((List.range k).foldl (RC4.scheduleRound key)
        ((List.range 256).map (BitVec.ofNat 8), 0)).1.Perm
          ((List.range 256).map (BitVec.ofNat 8)) ∧
      (List.ofFn (rounds (keysExpansion key) k).1).Perm (List.range 256)) ∧
    (∀ n, (after RC4.RandomValue n (RC4.NewRC4 key)).sbox.Perm
        ((List.range 256).map (BitVec.ofNat 8)) ∧
      (List.ofFn (after keyWord n (decodeRC4SetupFrom (keysExpansion key))).m).Perm
        (List.range 256)) ∧
    (∀ (buf : List (BitVec 32)), ∀ n ≤ buf.length, ∃ s out,
      (decodeRC4SetupFrom (keysExpansion key)).rc4Crypt buf n = .ok (s, out) ∧
      (decodeRC4SetupFrom (keysExpansion key)).rc4Crypt out n = .ok (s, buf)) ∧
    ∀ text : List (BitVec 8), (mask RC4.RandomValue (RC4.NewRC4 key)
      (mask RC4.RandomValue (RC4.NewRC4 key) text).1).1 = text := by
  refine ⟨?_, ?_, ?_, ?_, ?_⟩
  · intro parts
    obtain ⟨out, hrun, hlengths, hflat⟩ :=
      cryptParts_eq (decodeRC4SetupFrom (keysExpansion key)) parts
    rw [mask_snd] at hrun
    refine ⟨out, hrun, hlengths, ?_⟩
    rw [hflat, mask_eq_zipWith, words_keyWord hkey]
  · intro k hk
    refine ⟨RC4.perm_foldl_scheduleRound key hk, ?_⟩
    rw [rounds_eq hkey]
    exact perm_boxTable _
  · intro n
    exact ⟨RC4.perm_sbox_after key n, perm_m_after hkey n⟩
  · intro buf n hn
    exact rc4Crypt_twice _ hn
  · intro text
    exact mask_mask _ _ text

theorem rc4_agree_decodeKeys :
    decodeKeys.length = 16 ∧ ∃ s out, (decodeRC4SetupFrom (keysExpansion decodeKeys)).cryptParts
      [[0xDEADBEEF, 0x01020304], [], [0xFFFFFFFF]] = .ok (s, out) ∧
      out.flatten = List.zipWith (· ^^^ ·) [0xDEADBEEF, 0x01020304, 0xFFFFFFFF]
        ((words RC4.RandomValue 3 (RC4.NewRC4 decodeKeys)).map (BitVec.setWidth 32)) :=
  have ⟨out, hrun, _, hflat⟩ :=
    (rc4_agree rfl).1 [[0xDEADBEEF, 0x01020304], [], [0xFFFFFFFF]]
  ⟨rfl, _, out, hrun, hflat⟩

end Outband.Kvm.Codec.Rc4State
