import Outband.Foundation.Digits

/-!
# Bit strings inside a stream

A stream is a function from positions to bits. `Carries f k bits` says that the
stream holds the string `bits` from position `k` on; a string that is a
concatenation is carried piece by piece. `toBitsMsb` writes a number in a fixed
width, most significant bit first, and the digits give it back. `zeroRun` is the
length of the run of zeros a string ends in.
-/

namespace Outband.Foundation

variable {f : Nat → Bool} {k : Nat}

/-- The `n` bits of the stream from position `k` on. -/
def window (f : Nat → Bool) (k n : Nat) : List Bool := (List.range n).map fun j => f (k + j)

@[simp] theorem length_window (f : Nat → Bool) (k n : Nat) : (window f k n).length = n := by
  simp [window]

theorem window_add (f : Nat → Bool) (k n m : Nat) :
    window f k (n + m) = window f k n ++ window f (k + n) m := by
  simp [window, List.range_add, Function.comp_def, Nat.add_assoc]

/-- The stream holds `bits` from position `k` on. -/
def Carries (f : Nat → Bool) (k : Nat) (bits : List Bool) : Prop :=
  window f k bits.length = bits

instance (f : Nat → Bool) (k : Nat) (bits : List Bool) : Decidable (Carries f k bits) :=
  inferInstanceAs (Decidable (_ = _))

theorem carries_append {a b : List Bool} :
    Carries f k (a ++ b) ↔ Carries f k a ∧ Carries f (k + a.length) b := by
  rw [Carries, List.length_append, window_add]
  constructor
  · intro h
    exact List.append_inj h (length_window f k a.length)
  · rintro ⟨ha, hb⟩
    rw [ha, hb]

/-! ### Numbers of a fixed width -/

/-- The `width` low bits of `n`, most significant first. -/
def toBitsMsb (width n : Nat) : List Bool :=
  (List.range width).map fun j => n.testBit (width - 1 - j)

@[simp] theorem length_toBitsMsb (width n : Nat) : (toBitsMsb width n).length = width := by
  simp [toBitsMsb]

theorem toBitsMsb_succ (width n : Nat) :
    toBitsMsb (width + 1) n = n.testBit width :: toBitsMsb width n := by
  rw [toBitsMsb, List.range_succ_eq_map, List.map_cons, List.map_map, toBitsMsb]
  congr 1
  apply List.map_congr_left
  intro j _
  change n.testBit (width + 1 - 1 - (j + 1)) = _
  congr 1
  omega

/-- The number a bit string stands for. -/
def ofBitsMsb (bits : List Bool) : Nat := ofDigitsMsb 2 (bits.map Bool.toNat)

theorem ofBitsMsb_toBitsMsb (width n : Nat) : ofBitsMsb (toBitsMsb width n) = n % 2 ^ width := by
  induction width with
  | zero => simp [toBitsMsb, ofBitsMsb, ofDigitsMsb, Nat.mod_one]
  | succ width ih =>
      rw [toBitsMsb_succ, ofBitsMsb, List.map_cons, ofDigitsMsb_cons, ← ofBitsMsb, ih,
        List.length_map, length_toBitsMsb, Nat.toNat_testBit, Nat.mod_pow_succ]
      ring

/-- A number carried in a fixed width is read back. -/
theorem Carries.ofBitsMsb_window {width n : Nat} (h : Carries f k (toBitsMsb width n))
    (hn : n < 2 ^ width) : ofBitsMsb (window f k width) = n := by
  have hwindow : window f k width = toBitsMsb width n := by
    simpa [Carries] using h
  rw [hwindow, ofBitsMsb_toBitsMsb, Nat.mod_eq_of_lt hn]

/-! ### Runs of zeros -/

/-- The number of zeros at the end of a bit string. -/
def zeroRun (bits : List Bool) : Nat := (bits.reverse.takeWhile fun b => !b).length

@[simp] theorem zeroRun_nil : zeroRun [] = 0 := rfl

/-- Zeros at the end make the run longer. -/
theorem zeroRun_append_zeros (a : List Bool) (n : Nat) :
    zeroRun (a ++ List.replicate n false) = zeroRun a + n := by
  rw [zeroRun, List.reverse_append, List.reverse_replicate, List.takeWhile_append_of_pos (by simp),
    List.length_append, List.length_replicate, Nat.add_comm, zeroRun]

/-- A run is as long as the string at most. -/
theorem zeroRun_le (bits : List Bool) : zeroRun bits ≤ bits.length := by
  have := (List.takeWhile_sublist (fun b => !b) (l := bits.reverse)).length_le
  simpa [zeroRun] using this

/-- Behind a one the run does not depend on what comes before it. -/
theorem zeroRun_append_of_mem {a b : List Bool} (h : true ∈ b) : zeroRun (a ++ b) = zeroRun b := by
  rw [zeroRun, zeroRun, List.reverse_append, List.takeWhile_append, if_neg]
  intro hall
  have hfull : (b.reverse.takeWhile fun b => !b) = b.reverse :=
    (List.takeWhile_sublist _).eq_of_length hall
  have hzeros := List.all_takeWhile (p := fun b => !b) (l := b.reverse)
  rw [hfull, List.all_eq_true] at hzeros
  exact absurd (hzeros true (List.mem_reverse.mpr h)) (by decide)

end Outband.Foundation
