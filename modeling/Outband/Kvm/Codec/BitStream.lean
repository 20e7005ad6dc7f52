import Mathlib.Data.Nat.Bitwise
import Outband.Foundation.Digits
import Outband.Foundation.Transition
import Outband.Kvm.Codec.Reader

/-!
# The bit reader as a bit stream

The words of a payload are one stream of bits, most significant first. `At words
k r` says that the reader `r` stands at bit `k` of it: register 0 holds the next
32 bits, register 1 the bits behind them up to the end of a word, and the refill
index follows from `k`. Both ways to consume bits keep this relation, so a run of
calls is a position in the stream.
-/

namespace Outband.Kvm.Codec

open Foundation

/-- Bit `i` of the stream. -/
def bitAt (words : List (BitVec 32)) (i : Nat) : Bool :=
  (words[i / 32]?.getD 0).getMsbD (i % 32)

namespace Reader

variable {words : List (BitVec 32)} {r : Reader} {k b : Nat}

/-- Word `i` of the payload, a register or a word that is still to be read. -/
def word (r : Reader) (i : Nat) : BitVec 32 := r.recv[i]?.getD 0

/-- The reader stands at bit `k` of the stream. -/
structure At (words : List (BitVec 32)) (k : Nat) (r : Reader) : Prop where
  length : r.recv.length = words.length
  words_le : 2 ≤ words.length
  index : r.index = 2 + k / 32
  newbits : r.newbits = 32 - k % 32
  unread : ∀ i, 2 ≤ i → r.recv[i]? = words[i]?
  first : ∀ j < 32, (r.word 0).getMsbD j = bitAt words (k + j)
  second : ∀ j < 32, (r.word 1).getMsbD j =
    if j < r.newbits then bitAt words (k + 32 + j) else false

/-- The reader as `Decode` sets it up. -/
def start (words : List (BitVec 32)) : Reader := { recv := words, index := 2, newbits := 32 }

theorem at_start (h : 2 ≤ words.length) : At words 0 (start words) := by
  refine ⟨rfl, h, rfl, rfl, fun _ _ => rfl, ?_, ?_⟩
  · intro j hj
    rw [bitAt, Nat.zero_add, Nat.div_eq_of_lt hj, Nat.mod_eq_of_lt hj]
    rfl
  · intro j hj
    rw [if_pos (show j < (start words).newbits from hj), bitAt,
      show (0 + 32 + j) / 32 = 1 by omega, show (0 + 32 + j) % 32 = j by omega]
    rfl

theorem At.ready (h : At words k r) (hk : 2 + k / 32 ≤ words.length) : r.Ready := by
  have hbits := h.newbits
  have hlen := h.length
  have hindex := h.index
  exact ⟨by rw [hlen]; exact h.words_le, by omega, by omega⟩

/-! ### The two ways to consume bits -/

theorem setWidth_or_ushiftRight (r1 refill : BitVec 32) (n m : Nat) :
    ((r1.setWidth 64 ||| (refill.setWidth 64 >>> n)) >>> m).setWidth 32 =
      (r1 ||| (refill >>> n)) >>> m := by
  apply BitVec.eq_of_toNat_eq
  have hlt := ((r1 ||| (refill >>> n)) >>> m).isLt
  simp only [BitVec.toNat_setWidth, BitVec.toNat_ushiftRight, BitVec.toNat_or] at hlt ⊢
  rw [Nat.mod_eq_of_lt (show r1.toNat < 2 ^ 64 by omega),
    Nat.mod_eq_of_lt (show refill.toNat < 2 ^ 64 by omega), Nat.mod_eq_of_lt hlt]

theorem setWidth_ushiftRight (r1 : BitVec 32) (m : Nat) :
    (r1.setWidth 64 >>> m).setWidth 32 = r1 >>> m := by
  apply BitVec.eq_of_toNat_eq
  have hlt := (r1 >>> m).isLt
  simp only [BitVec.toNat_setWidth, BitVec.toNat_ushiftRight] at hlt ⊢
  rw [Nat.mod_eq_of_lt (show r1.toNat < 2 ^ 64 by omega), Nat.mod_eq_of_lt hlt]

theorem setWidth_shiftLeft_or (r0 : BitVec 32) (low : BitVec 64) (n : Nat) :
    ((r0.setWidth 64 <<< n) ||| low).setWidth 32 = (r0 <<< n) ||| low.setWidth 32 := by
  grind

theorem setWidth_shiftLeft (r0 : BitVec 32) (n : Nat) :
    (r0.setWidth 64 <<< n).setWidth 32 = r0 <<< n := by
  grind

theorem rdSlice_word {i : Nat} (h : i < r.recv.length) :
    rdSlice Site.recv r.recv i = .ok (r.word i) := by
  rw [rdSlice_ok h, word, List.getElem?_eq_getElem h]
  rfl

/-- Without a refill both registers move on. -/
theorem skipKbits_shift (hlen : 2 ≤ r.recv.length) (hb : b < r.newbits) :
    r.skipKbits b = .ok
      ⟨(r.recv.set 0 ((r.word 0 <<< b) ||| (r.word 1 >>> (32 - b)))).set 1
        (r.word 1 <<< b), r.index, r.newbits - b⟩ := by
  rw [skipKbits, if_neg (by omega), shift, rdSlice_word (show 0 < r.recv.length by omega),
    rdSlice_word (show 1 < r.recv.length by omega)]
  change (wrSlice Site.recv r.recv 0 _ >>= _) = _
  rw [wrSlice_registers hlen]
  rfl

/-- With a refill the word at `index` comes in behind register 1. -/
theorem skipKbits_refill (hlen : 2 ≤ r.recv.length) (hb : r.newbits ≤ b)
    (hindex : r.index < r.recv.length) :
    r.skipKbits b = .ok
      ⟨(r.recv.set 0 ((r.word 0 <<< b) |||
          ((r.word 1 ||| (r.word r.index >>> r.newbits)) >>> (32 - b)))).set 1
        (r.word r.index <<< (b - r.newbits)), r.index + 1, 32 + r.newbits - b⟩ := by
  have hclamp : r.clampedIndex = r.index := by
    unfold clampedIndex
    rw [if_neg (by omega)]
  rw [skipKbits, if_pos hb, rdSlice_word (show 0 < r.recv.length by omega),
    rdSlice_word (show 1 < r.recv.length by omega), hclamp, rdSlice_word hindex]
  change (wrSlice Site.recv r.recv 0 _ >>= _) = _
  rw [wrSlice_registers hlen, setWidth_or_ushiftRight]
  rfl

/-- While there are words left the two ways to consume bits agree. -/
theorem updateReadBuf_eq_skipKbits (hlen : 2 ≤ r.recv.length) (havail : r.Available b) :
    r.updateReadBuf b = r.skipKbits b := by
  by_cases hb : b < r.newbits
  · rw [skipKbits_shift hlen hb, updateReadBuf, if_neg (by omega),
      rdSlice_word (show 0 < r.recv.length by omega),
      rdSlice_word (show 1 < r.recv.length by omega)]
    change (wrSlice Site.recv r.recv 0 _ >>= _) = _
    rw [wrSlice_registers hlen, setWidth_shiftLeft_or, setWidth_ushiftRight, setWidth_shiftLeft]
    rfl
  · have hindex := havail.resolve_left hb
    rw [skipKbits_refill hlen (by omega) hindex, updateReadBuf, if_pos (by omega),
      rdSlice_word hindex, rdSlice_word (show 0 < r.recv.length by omega),
      rdSlice_word (show 1 < r.recv.length by omega)]
    change (wrSlice Site.recv r.recv 0 _ >>= _) = _
    rw [wrSlice_registers hlen, setWidth_shiftLeft_or, setWidth_or_ushiftRight, setWidth_shiftLeft]
    rfl

/-- Behind the last word `skipKbits` refills from it once more. -/
theorem skipKbits_ok (hlen : 2 ≤ r.recv.length) (b : Nat) : ∃ r', r.skipKbits b = .ok r' := by
  by_cases hb : b < r.newbits
  · exact ⟨_, skipKbits_shift hlen hb⟩
  · have hback : r.clampedIndex < r.recv.length := by
      unfold clampedIndex
      split_ifs <;> omega
    rw [skipKbits, if_pos (by omega), rdSlice_word (show 0 < r.recv.length by omega),
      rdSlice_word (show 1 < r.recv.length by omega), rdSlice_word hback]
    change ∃ r', (wrSlice Site.recv r.recv 0 _ >>= _) = _
    rw [wrSlice_registers hlen]
    exact ⟨_, rfl⟩

/-- The two ways to consume bits agree if and only if the bits are there or a word to refill
from is left. -/
theorem skipKbits_eq_updateReadBuf_iff (hlen : 2 ≤ r.recv.length) (b : Nat) :
    r.skipKbits b = r.updateReadBuf b ↔ r.Available b := by
  constructor
  · intro hsame
    by_contra havail
    obtain ⟨r', hskip⟩ := skipKbits_ok hlen b
    rw [hskip, updateReadBuf_error havail] at hsame
    cases hsame
  · exact fun havail => (updateReadBuf_eq_skipKbits hlen havail).symm

/-- The last word of a payload is refilled from by both. -/
theorem skipKbits_eq_updateReadBuf_last :
    skipKbits ⟨[1, 2, 0x80000000], 2, 1⟩ 3 = updateReadBuf ⟨[1, 2, 0x80000000], 2, 1⟩ 3 :=
  (skipKbits_eq_updateReadBuf_iff (by decide) 3).mpr (by decide)

/-- Without a word left one of them goes back and the other runs off the payload. -/
theorem skipKbits_ne_updateReadBuf : ¬ ∀ (r : Reader) (b : Nat), 2 ≤ r.recv.length →
    1 ≤ r.newbits → r.newbits ≤ 32 → 2 ≤ r.index → 1 ≤ b → b ≤ 27 →
    r.skipKbits b = r.updateReadBuf b := by
  intro hall
  have hsame := hall ⟨[0, 0], 2, 1⟩ 1 (by decide) (by decide) (by decide) (by decide) (by decide)
    (by decide)
  revert hsame
  decide

/-- The relation after both registers have been written. -/
theorem At.registers {k' : Nat} (h : At words k r) {r0 r1 : BitVec 32}
    (h0 : ∀ j < 32, r0.getMsbD j = bitAt words (k' + j))
    (h1 : ∀ j < 32, r1.getMsbD j = if j < 32 - k' % 32 then bitAt words (k' + 32 + j) else false) :
    At words k' ⟨(r.recv.set 0 r0).set 1 r1, 2 + k' / 32, 32 - k' % 32⟩ := by
  have hlen := h.length
  have htwo := h.words_le
  refine ⟨by simp [hlen], htwo, rfl, rfl, ?_, ?_, ?_⟩
  · intro i hi
    change ((r.recv.set 0 r0).set 1 r1)[i]? = _
    rw [List.getElem?_set_ne (by omega), List.getElem?_set_ne (by omega), h.unread i hi]
  · intro j hj
    change (((r.recv.set 0 r0).set 1 r1)[0]?.getD 0).getMsbD j = _
    rw [List.getElem?_set_ne (by omega), List.getElem?_set_self (by omega)]
    exact h0 j hj
  · intro j hj
    change (((r.recv.set 0 r0).set 1 r1)[1]?.getD 0).getMsbD j = _
    rw [List.getElem?_set_self (by rw [List.length_set]; omega)]
    exact h1 j hj

/-- The refill word is the stream behind register 1. -/
theorem At.refill (h : At words k r) {j : Nat} (hj : j < 32) :
    (r.word r.index).getMsbD j = bitAt words (k + 32 + r.newbits + j) := by
  have hbits := h.newbits
  rw [word, h.index, h.unread _ (by omega), bitAt,
    show (k + 32 + r.newbits + j) / 32 = 2 + k / 32 by omega,
    show (k + 32 + r.newbits + j) % 32 = j by omega]

/-- The top bits of `hi`, then those of `lo`. -/
theorem getMsbD_funnel (hi lo : BitVec 32) {b j : Nat} (hb : b ≤ 32) (hj : j < 32) :
    ((hi <<< b) ||| (lo >>> (32 - b))).getMsbD j =
      if j + b < 32 then hi.getMsbD (j + b) else lo.getMsbD (j + b - 32) := by
  rw [BitVec.getMsbD_or, BitVec.getMsbD_shiftLeft, BitVec.getMsbD_ushiftRight]
  split_ifs with h
  · simp [show j < 32 - b by omega]
  · simp [hj, show ¬ j < 32 - b by omega, show 32 ≤ j + b by omega,
      show j - (32 - b) = j + b - 32 by omega]

/-- Register 0 after `b` bits, which are shifted in from `lo`. -/
theorem At.funnel (h : At words k r) {lo : BitVec 32} (hb : b ≤ 32)
    (hlo : ∀ j < b, lo.getMsbD j = bitAt words (k + 32 + j)) :
    ∀ j < 32, ((r.word 0 <<< b) ||| (lo >>> (32 - b))).getMsbD j = bitAt words (k + b + j) := by
  intro j hj
  rw [getMsbD_funnel _ _ hb hj]
  split_ifs with hlow
  · rw [h.first _ hlow]
    congr 1
    omega
  · rw [hlo _ (by omega)]
    congr 1
    omega

/-- Consuming bits that are all in register 1. -/
theorem At.skip_shift (h : At words k r) (hready : r.Ready) (hb : b < r.newbits) :
    ∃ r', r.skipKbits b = .ok r' ∧ At words (k + b) r' := by
  have hbits := h.newbits
  have hindex := h.index
  have hlo : ∀ j < b, (r.word 1).getMsbD j = bitAt words (k + 32 + j) := by
    intro j hj
    rw [h.second j (by omega), if_pos (by omega)]
  have h1 : ∀ j < 32, (r.word 1 <<< b).getMsbD j =
      if j < 32 - (k + b) % 32 then bitAt words (k + b + 32 + j) else false := by
    intro j hj
    rw [BitVec.getMsbD_shiftLeft]
    by_cases hin : j + b < 32
    · have hiff : j < 32 - (k + b) % 32 ↔ j + b < r.newbits := by omega
      simp only [h.second _ hin, hiff, show k + b + 32 + j = k + 32 + (j + b) by omega]
    · rw [BitVec.getMsbD_of_ge _ _ (by omega), if_neg (by omega)]
  have hat := h.registers (h.funnel (by omega) hlo) h1
  rw [show 2 + (k + b) / 32 = r.index by omega,
    show 32 - (k + b) % 32 = r.newbits - b by omega] at hat
  exact ⟨_, skipKbits_shift hready.words hb, hat⟩

/-- Consuming bits across the end of register 1. -/
theorem At.skip_refill (h : At words k r) (hready : r.Ready) (hb : r.newbits ≤ b) (hb' : b ≤ 31)
    (hleft : r.index < r.recv.length) :
    ∃ r', r.skipKbits b = .ok r' ∧ At words (k + b) r' := by
  have hbits := h.newbits
  have hindex := h.index
  have hnext : ∀ j < 32, (r.word 1 ||| (r.word r.index >>> r.newbits)).getMsbD j =
      bitAt words (k + 32 + j) := by
    intro j hj
    rw [BitVec.getMsbD_or, BitVec.getMsbD_ushiftRight, h.second j hj]
    split_ifs with hlow
    · simp [hlow]
    · simp [hlow, hj, h.refill (show j - r.newbits < 32 by omega),
        show k + 32 + r.newbits + (j - r.newbits) = k + 32 + j by omega]
  have h1 : ∀ j < 32, (r.word r.index <<< (b - r.newbits)).getMsbD j =
      if j < 32 - (k + b) % 32 then bitAt words (k + b + 32 + j) else false := by
    intro j hj
    rw [BitVec.getMsbD_shiftLeft]
    by_cases hin : j + (b - r.newbits) < 32
    · rw [h.refill hin, if_pos (by omega)]
      congr 1
      omega
    · rw [BitVec.getMsbD_of_ge _ _ (by omega), if_neg (by omega)]
  have hat := h.registers (h.funnel (by omega) fun j hj => hnext j (by omega)) h1
  rw [show 2 + (k + b) / 32 = r.index + 1 by omega,
    show 32 - (k + b) % 32 = 32 + r.newbits - b by omega] at hat
  exact ⟨_, skipKbits_refill hready.words hb hleft, hat⟩

/-- Consuming `b` bits moves the position by `b`, as long as the words last. -/
theorem At.skipKbits (h : At words k r) (hb : b ≤ 31)
    (henough : 2 + (k + b) / 32 ≤ words.length) :
    ∃ r', r.skipKbits b = .ok r' ∧ At words (k + b) r' := by
  have hready := h.ready (by omega)
  have hbits := h.newbits
  have hindex := h.index
  have hlen := h.length
  by_cases hshift : b < r.newbits
  · exact h.skip_shift hready hshift
  · exact h.skip_refill hready (by omega) hb (by omega)

/-- The words last for the next `b` bits exactly when no refill runs off the payload. -/
theorem At.available_iff (h : At words k r) (hk : 2 + k / 32 ≤ words.length) (hb : b ≤ 31) :
    r.Available b ↔ 2 + (k + b) / 32 ≤ words.length := by
  have hbits := h.newbits
  have hindex := h.index
  have hlen := h.length
  unfold Available
  omega

theorem At.updateReadBuf (h : At words k r) (hb : b ≤ 31)
    (henough : 2 + (k + b) / 32 ≤ words.length) :
    ∃ r', r.updateReadBuf b = .ok r' ∧ At words (k + b) r' := by
  have hk : 2 + k / 32 ≤ words.length := by omega
  rw [updateReadBuf_eq_skipKbits (h.ready hk).words ((h.available_iff hk hb).mpr henough)]
  exact h.skipKbits hb henough

/-! ### Values -/

/-- The number the next `b` bits of the stream stand for. -/
def bitsAt (words : List (BitVec 32)) (k b : Nat) : Nat :=
  ofDigitsMsb 2 ((List.range b).map fun j => (bitAt words (k + j)).toNat)

theorem bitsAt_succ (words : List (BitVec 32)) (k b : Nat) :
    bitsAt words k (b + 1) = bitsAt words k b * 2 + (bitAt words (k + b)).toNat := by
  simp [bitsAt, ofDigitsMsb, List.range_succ]

/-- The JPEG EXTEND of a `b`-bit number: without its top bit it stands for a negative number. -/
def extend (b value : Nat) : Int :=
  if value < 2 ^ (b - 1) then (value : Int) - (2 ^ b - 1) else value

/-- The top `b` bits of a word, as a number. -/
theorem div_eq_bitsAt {w : BitVec 32} (hw : ∀ j < 32, w.getMsbD j = bitAt words (k + j))
    (hb : b ≤ 32) : w.toNat / 2 ^ (32 - b) = bitsAt words k b := by
  induction b with
  | zero => exact Nat.div_eq_of_lt w.isLt
  | succ b ih =>
      have hbit : (bitAt words (k + b)).toNat = w.toNat / 2 ^ (32 - (b + 1)) % 2 := by
        rw [← hw b (by omega), BitVec.getMsbD_eq_getLsbD, ← BitVec.testBit_toNat,
          decide_eq_true (show b < 32 by omega), Bool.true_and, Nat.toNat_testBit,
          show 32 - 1 - b = 32 - (b + 1) by omega]
      rw [bitsAt_succ, hbit, ← ih (by omega), show 32 - b = 32 - (b + 1) + 1 by omega,
        Nat.pow_succ, ← Nat.div_div_eq_div_mul]
      omega

theorem bitsAt_lt (words : List (BitVec 32)) (k b : Nat) : bitsAt words k b < 2 ^ b := by
  have := @ofDigitsMsb_lt 2 ((List.range b).map fun j => (bitAt words (k + j)).toNat) (by
    intro d hd
    obtain ⟨j, -, rfl⟩ := List.mem_map.mp hd
    exact Bool.toNat_lt _)
  simpa [bitsAt] using this

theorem At.lookKbits (h : At words k r) (hb : b ≤ 16) :
    r.lookKbits b = .ok (BitVec.ofNat 16 (bitsAt words k b)) := by
  have hlen := h.length
  have htwo := h.words_le
  rw [Reader.lookKbits, rdSlice_word (show 0 < r.recv.length by omega)]
  change Except.ok ((r.word 0 >>> (32 - b)).setWidth 16) = _
  congr 1
  apply BitVec.eq_of_toNat_eq
  rw [BitVec.toNat_setWidth, BitVec.toNat_ushiftRight, Nat.shiftRight_eq_div_pow,
    div_eq_bitsAt h.first (by omega), BitVec.toNat_ofNat]

/-- The test for the top bit. -/
theorem top_bit_iff {n : Nat} (hb : 1 ≤ b) (hb' : b ≤ 16) (hn : n < 2 ^ b) :
    BitVec.ofNat 16 (1 <<< (b - 1)) &&& BitVec.ofNat 16 n = 0 ↔ n < 2 ^ (b - 1) := by
  have hpow : 2 ^ b = 2 * 2 ^ (b - 1) := by
    rw [← Nat.pow_succ', show (b - 1).succ = b by omega]
  have hle : 2 ^ b ≤ 2 ^ 16 := Nat.pow_le_pow_right (by omega) hb'
  have hand : (BitVec.ofNat 16 (1 <<< (b - 1)) &&& BitVec.ofNat 16 n).toNat =
      2 ^ (b - 1) * (n.testBit (b - 1)).toNat := by
    rw [BitVec.toNat_and, BitVec.toNat_ofNat, BitVec.toNat_ofNat, Nat.one_shiftLeft,
      Nat.mod_eq_of_lt (by omega), Nat.mod_eq_of_lt (by omega), Nat.two_pow_and]
  rw [← BitVec.toNat_inj, hand, Nat.toNat_testBit]
  have hpos : 0 < 2 ^ (b - 1) := Nat.two_pow_pos _
  by_cases hlt : n < 2 ^ (b - 1)
  · simp [Nat.div_eq_of_lt hlt, hlt]
  · have hdiv : n / 2 ^ (b - 1) = 1 := by
      rw [Nat.div_eq_of_lt_le] <;> omega
    simp [hdiv, hlt]

theorem extend_negPow2 {n : Nat} (hb : 1 ≤ b) (hb' : b ≤ 15) (hn : n < 2 ^ (b - 1)) :
    (BitVec.ofNat 16 n + negPow2 ⟨b, by omega⟩).toInt = (n : Int) - (2 ^ b - 1) := by
  have hpow : (2 : Int) ^ b ≤ 2 ^ 15 := by
    exact_mod_cast Nat.pow_le_pow_right (show 0 < 2 by omega) hb'
  have hn' : (n : Int) < 2 ^ b := by
    exact_mod_cast Nat.lt_of_lt_of_le hn (Nat.pow_le_pow_right (by omega) (by omega))
  rw [negPow2, if_neg (show ¬ (⟨b, by omega⟩ : Fin 17).val = 0 by simp; omega),
    ← BitVec.ofInt_natCast, ← BitVec.ofInt_add, BitVec.toInt_ofInt_eq_self (by omega)]
  · change (n : Int) + (1 - 2 ^ b) = _
    omega
  · change -2 ^ 15 ≤ (n : Int) + (1 - 2 ^ b)
    omega
  · change (n : Int) + (1 - 2 ^ b) < 2 ^ 15
    omega

theorem toInt_ofNat_of_lt {n : Nat} (hn : n < 2 ^ 15) : (BitVec.ofNat 16 n).toInt = n := by
  rw [← BitVec.ofInt_natCast, BitVec.toInt_ofInt_eq_self (by omega)] <;> omega

/-- `getKbits` consumes `b` bits and returns their EXTEND value. -/
theorem At.getKbits (h : At words k r) (hb : 1 ≤ b) (hb' : b ≤ 16)
    (henough : 2 + (k + b) / 32 ≤ words.length) :
    ∃ r' v, r.getKbits b = .ok (r', v) ∧ At words (k + b) r' ∧
      (b ≤ 15 → v.toInt = extend b (bitsAt words k b)) := by
  obtain ⟨r', hskip, hat⟩ := h.skipKbits (by omega) henough
  have htop := top_bit_iff hb hb' (bitsAt_lt words k b)
  rw [Reader.getKbits, h.lookKbits hb']
  change ∃ r' v, (if BitVec.ofNat 16 (1 <<< (b - 1)) &&& BitVec.ofNat 16 (bitsAt words k b) = 0
    then _ else _) = _ ∧ _
  by_cases hlow : bitsAt words k b < 2 ^ (b - 1)
  · rw [if_pos (htop.mpr hlow), rd_ok (show b < 17 by omega), hskip]
    refine ⟨r', _, rfl, hat, fun hb'' => ?_⟩
    rw [extend_negPow2 hb hb'' hlow, extend, if_pos hlow]
  · rw [if_neg fun h => hlow (htop.mp h), hskip]
    refine ⟨r', _, rfl, hat, fun hb'' => ?_⟩
    have hlt : bitsAt words k b < 2 ^ 15 :=
      Nat.lt_of_lt_of_le (bitsAt_lt words k b) (Nat.pow_le_pow_right (by omega) hb'')
    rw [toInt_ofNat_of_lt hlt, extend, if_neg hlow]

/-- `getKbits` has no sign for a width beyond 16, and never gets there. -/
theorem getKbits_wide (h : r.Ready) (hb : 17 ≤ b) : r.getKbits b = .error .negPow2 := by
  obtain ⟨v, hv⟩ := lookKbits_ok h b
  have hzero : BitVec.ofNat 16 (1 <<< (b - 1)) = 0#16 := by
    apply BitVec.eq_of_toNat_eq
    rw [BitVec.toNat_ofNat, Nat.one_shiftLeft]
    exact Nat.mod_eq_zero_of_dvd (Nat.pow_dvd_pow 2 (by omega))
  rw [Reader.getKbits, hv]
  change (if BitVec.ofNat 16 (1 <<< (b - 1)) &&& v = 0 then _ else _) = _
  rw [hzero, BitVec.zero_and, if_pos (show 0#16 = 0 from rfl), rd_error (by omega)]
  rfl

/-! ### Runs of calls -/

/-- The calls that move the reader. -/
inductive Call
  | updateReadBuf (b : Nat)
  | skipKbits (b : Nat)
  | getKbits (b : Nat)
  deriving DecidableEq, Repr

namespace Call

/-- The number of bits a call consumes. -/
def width : Call → Nat
  | .updateReadBuf b => b
  | .skipKbits b => b
  | .getKbits b => b

/-- The largest width a call has a value for: `getKbits` has a sign table of 17 entries. -/
def maxWidth : Call → Nat
  | .updateReadBuf _ => 27
  | .skipKbits _ => 27
  | .getKbits _ => 16

def exec (r : Reader) : Call → Except Site Reader
  | .updateReadBuf b => r.updateReadBuf b
  | .skipKbits b => r.skipKbits b
  | .getKbits b => (r.getKbits b).map Prod.fst

/-- A call of width 1 to 27 whose refill does not run off the payload. -/
def Admitted (c : Call) (s : Reader × Nat) : Prop :=
  1 ≤ c.width ∧ c.width ≤ 27 ∧ s.1.Available c.width

instance (c : Call) (s : Reader × Nat) : Decidable (c.Admitted s) :=
  inferInstanceAs (Decidable (_ ∧ _ ∧ (_ ∨ _)))

/-- A call on a reader together with the number of bits consumed so far. -/
def step (c : Call) (s : Reader × Nat) : Option (Reader × Nat) :=
  (c.exec s.1).toOption.map fun r => (r, s.2 + c.width)

theorem step_of_exec {c : Call} {s : Reader × Nat} {r' : Reader} (h : c.exec s.1 = .ok r') :
    c.step s = some (r', s.2 + c.width) := by
  rw [step, h]
  rfl

/-- An admitted call whose width has a value moves the position by its width. -/
theorem step_spec {c : Call} {s : Reader × Nat} (hat : At words s.2 s.1)
    (hk : 2 + s.2 / 32 ≤ words.length) (hc : c.Admitted s) (hmax : c.width ≤ c.maxWidth) :
    ∃ r', c.step s = some (r', s.2 + c.width) ∧ At words (s.2 + c.width) r' ∧
      2 + (s.2 + c.width) / 32 ≤ words.length := by
  obtain ⟨hlo, hhi, havail⟩ := hc
  have hwidth : c.width ≤ 31 := by omega
  have henough := (hat.available_iff hk hwidth).mp havail
  have hexec : ∃ r', c.exec s.1 = .ok r' ∧ At words (s.2 + c.width) r' := by
    cases c with
    | updateReadBuf b => exact hat.updateReadBuf hwidth henough
    | skipKbits b => exact hat.skipKbits hwidth henough
    | getKbits b =>
        obtain ⟨r', v, hr', hat', -⟩ := hat.getKbits (b := b) hlo hmax henough
        exact ⟨r', by rw [exec, hr']; rfl, hat'⟩
  obtain ⟨r', hr', hat'⟩ := hexec
  exact ⟨r', step_of_exec hr', hat', henough⟩

/-- A call whose width has no value panics. -/
theorem step_wide {c : Call} {s : Reader × Nat} (h : s.1.Ready) (hc : c.Admitted s)
    (hmax : c.maxWidth < c.width) : c.step s = none := by
  obtain ⟨-, hhi, -⟩ := hc
  cases c with
  | updateReadBuf b => exact absurd hhi (Nat.not_le.mpr hmax)
  | skipKbits b => exact absurd hhi (Nat.not_le.mpr hmax)
  | getKbits b =>
      rw [step, exec, getKbits_wide (b := b) h hmax]
      rfl

end Call

/-- Runs of admitted calls stand at the bit they have consumed. -/
theorem at_of_reached {s : Reader × Nat} (hwords : 2 ≤ words.length)
    (h : Reached Call.step Call.Admitted (start words, 0) s) :
    At words s.2 s.1 ∧ 2 + s.2 / 32 ≤ words.length := by
  apply h.invariant (I := fun s => At words s.2 s.1 ∧ 2 + s.2 / 32 ≤ words.length)
  · exact ⟨at_start hwords, by simpa using hwords⟩
  · intro c s s' hs hc htaken
    by_cases hmax : c.width ≤ c.maxWidth
    · obtain ⟨r', hstep, hat, hk⟩ := Call.step_spec hs.1 hs.2 hc hmax
      rw [hstep] at htaken
      cases htaken
      exact ⟨hat, hk⟩
    · rw [Call.step_wide (hs.1.ready hs.2) hc (by omega)] at htaken
      cases htaken

/-- The reader refines the bit stream: after any run of calls the registers hold the next bits,
the index and the bit count follow from the number of bits consumed, a further call is answered
unless it is a `getKbits` wider than its sign table, and `getKbits` returns the EXTEND value of
the bits it consumes. -/
theorem reader_refines_bitStream (words : List (BitVec 32)) (hwords : 2 ≤ words.length)
    (r : Reader) (k : Nat) (hrun : Reached Call.step Call.Admitted (start words, 0) (r, k)) :
    (∀ j < 32, (r.word 0).getMsbD j = bitAt words (k + j)) ∧
    (∀ j < 32, (r.word 1).getMsbD j =
      if j < r.newbits then bitAt words (k + 32 + j) else false) ∧
    1 ≤ r.newbits ∧ r.newbits ≤ 32 ∧ r.index = 2 + k / 32 ∧
    (∀ c : Call, c.Admitted (r, k) →
      ((∃ r', c.step (r, k) = some (r', k + c.width)) ↔ c.width ≤ c.maxWidth)) ∧
    ∀ b, 1 ≤ b → b ≤ 15 → r.Available b →
      ∃ r' v, r.getKbits b = .ok (r', v) ∧ v.toInt = extend b (bitsAt words k b) := by
  obtain ⟨hat, hk⟩ := at_of_reached hwords hrun
  have hready := hat.ready hk
  refine ⟨hat.first, hat.second, hready.newbits.1, hready.newbits.2, hat.index, ?_, ?_⟩
  · intro c hc
    constructor
    · rintro ⟨r', hstep⟩
      by_contra hmax
      rw [Call.step_wide hready hc (by omega)] at hstep
      cases hstep
    · intro hmax
      obtain ⟨r', hstep, -⟩ := Call.step_spec hat hk hc hmax
      exact ⟨r', hstep⟩
  · intro b hb hb' havail
    have henough := (hat.available_iff hk (by omega)).mp havail
    obtain ⟨r', v, hget, -, hvalue⟩ := hat.getKbits hb (by omega) henough
    exact ⟨r', v, hget, hvalue hb'⟩

/-- Twenty bits into three words, five of them read as a value. -/
theorem reader_refines_bitStream_twenty :
    Reached Call.step Call.Admitted (start [0x80000000, 0x12345678, 0x9ABCDEF0], 0)
      ({ recv := [0x00012345, 0x67800000, 0x9ABCDEF0], index := 2, newbits := 12 }, 20) ∧
    ∀ j < 32, (0x00012345 : BitVec 32).getMsbD j =
      bitAt [0x80000000, 0x12345678, 0x9ABCDEF0] (20 + j) := by
  have hrun := reached_of_exec .init
    (show Foundation.exec Call.step Call.Admitted [.getKbits 5, .skipKbits 15]
      (start [0x80000000, 0x12345678, 0x9ABCDEF0], 0) =
        some ({ recv := [0x00012345, 0x67800000, 0x9ABCDEF0], index := 2, newbits := 12 }, 20)
      by decide +kernel)
  exact ⟨hrun, (reader_refines_bitStream _ (by decide) _ _ hrun).1⟩

/-- A `getKbits` of width 17 panics although no refill is attempted. -/
theorem getKbits_seventeen_panics :
    (Call.getKbits 17).Admitted (start [0, 0, 0], 0) ∧
      (start [0, 0, 0]).getKbits 17 = .error .negPow2 := by
  decide +kernel

end Reader

end Outband.Kvm.Codec
