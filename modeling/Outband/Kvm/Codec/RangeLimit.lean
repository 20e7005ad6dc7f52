import Outband.Kvm.Codec.Block

/-!
# Clamping of the samples

The row pass of the inverse transform ends in sums that are descaled by three bits,
moved up by 128 and clamped to a byte. The clamping is a table of five segments under
a mask of ten bits. Every residue falls into its segment but one: cell 895, for the
descaled value 511, lies between two of the loops that fill the table in and is 0.
-/

namespace Outband.Kvm.Codec

variable {coeff : Fin 64 → BitVec 32} {qt : Fin 64 → BitVec 64}

/-- The row pass of the block: the sum behind each sample. -/
def rowPass (coeff : Fin 64 → BitVec 32) (qt : Fin 64 → BitVec 64) (i : Fin 64) : BitVec 32 :=
  transform8 (fun k => columnPass coeff qt k ⟨i / 8, row_lt i⟩) ⟨i % 8, col_lt i⟩

/-- The sum of a sample without its three fractional bits. -/
def descaled (coeff : Fin 64 → BitVec 32) (qt : Fin 64 → BitVec 64) (i : Fin 64) : Int :=
  ((rowPass coeff qt i).sshiftRight 3).toInt

/-- A level-shifted sample, clamped to a byte. -/
def clampSample (s : Int) : Int := min 255 (max 0 (s + 128))

/-! ### The table -/

/-- The mask reads a descaled value as its residue. -/
theorem limitIndex_val (v : BitVec 32) :
    ((limitIndex v).val : Int) = 384 + (v.sshiftRight 3).toInt % 1024 := by
  have hmask : (v.sshiftRight 3 &&& 1023).toNat = (v.sshiftRight 3).toNat % 1024 := by
    rw [BitVec.toNat_and]
    exact Nat.and_two_pow_sub_one_eq_mod _ 10
  have hint := BitVec.toInt_eq_toNat_cond (v.sshiftRight 3)
  change ((128 + (v.sshiftRight 3 &&& 1023).toNat + 256 : Nat) : Int) = _
  rw [hmask, hint]
  split_ifs <;> omega

/-- Each value in the range of the table is clamped, except for the last one. -/
theorem rangeLimit_limitIndex {v : BitVec 32} (hlow : -512 ≤ (v.sshiftRight 3).toInt)
    (hhigh : (v.sshiftRight 3).toInt ≤ 511) :
    (rangeLimitTableShort (limitIndex v) : Int) = clampSample (v.sshiftRight 3).toInt ↔
      (v.sshiftRight 3).toInt ≠ 511 := by
  have hindex := limitIndex_val v
  unfold rangeLimitTableShort rangeLimit clampSample
  split_ifs <;> omega

/-! ### Blocks with a first coefficient only -/

theorem transform8_first (v : BitVec 32) (i : Fin 8) :
    transform8 (fun k => if k = 0 then v else 0) i = v := by
  simp only [transform8, multiply]
  simp
  split <;> rfl

theorem columnPass_first (hfirst : ∀ k, k ≠ 0 → coeff k = 0) (row : Fin 8) :
    (fun k => columnPass coeff qt k row) = fun k => if k = 0 then dequantize coeff qt 0 else 0 := by
  funext k
  have hconst : ∀ j : Fin 8, j ≠ 0 → coeff (cell j k) = 0 := by
    intro j hj
    apply hfirst
    intro hcell
    have hval : 8 * j.val + k.val = 0 := congrArg Fin.val hcell
    exact hj (Fin.ext (show j.val = 0 by omega))
  rw [columnPass, if_pos hconst]
  split_ifs with hk
  · rw [hk]
    rfl
  · have hzero : coeff (cell 0 k) = 0 := by
      apply hfirst
      intro hcell
      have hval : 8 * 0 + k.val = 0 := congrArg Fin.val hcell
      exact hk (Fin.ext (show k.val = 0 by omega))
    rw [dequantize, hzero]
    simp

/-- Every sum of such a block is its first coefficient, dequantized. -/
theorem rowPass_first (hfirst : ∀ k, k ≠ 0 → coeff k = 0) (i : Fin 64) :
    rowPass coeff qt i = dequantize coeff qt 0 := by
  rw [rowPass, columnPass_first hfirst, transform8_first]

theorem descaled_first (hfirst : ∀ k, k ≠ 0 → coeff k = 0) (i : Fin 64) :
    descaled coeff qt i = (dequantize coeff qt 0).toInt / 8 := by
  rw [descaled, rowPass_first hfirst, BitVec.toInt_sshiftRight, Int.shiftRight_eq_div_pow]
  rfl

/-! ### Samples -/

theorem inverseDCT_eq (coeff : Fin 64 → BitVec 32) (qt : Fin 64 → BitVec 64) (i : Fin 64) :
    inverseDCT coeff qt i = rangeLimitTableShort (limitIndex (rowPass coeff qt i)) := rfl

/-- The samples of a block are its descaled values, clamped where the table reaches, they are
bytes, and a first coefficient alone makes a flat block. -/
structure Clamped (coeff : Fin 64 → BitVec 32) (qt : Fin 64 → BitVec 64) : Prop where
  inRange : ∀ i, -512 ≤ descaled coeff qt i → descaled coeff qt i ≤ 511 →
    (inverseDCT coeff qt i : Int) = clampSample (descaled coeff qt i)
  byte : ∀ i, inverseDCT coeff qt i ≤ 255
  flat : (∀ k, k ≠ 0 → coeff k = 0) → ∀ i j, inverseDCT coeff qt i = inverseDCT coeff qt j

/-- The samples of a block are clamped as they should be if and only if none of its descaled values
falls between two segments of the table. -/
theorem inverseDCT_clamped_iff (coeff : Fin 64 → BitVec 32) (qt : Fin 64 → BitVec 64) :
    Clamped coeff qt ↔ ∀ i, descaled coeff qt i ≠ 511 := by
  constructor
  · intro h i heq
    have hlow : -512 ≤ descaled coeff qt i := by omega
    have hhigh : descaled coeff qt i ≤ 511 := by omega
    exact (rangeLimit_limitIndex hlow hhigh).mp (h.inRange i hlow hhigh) heq
  · intro h
    refine ⟨fun i hlow hhigh => ?_, inverseDCT_le coeff qt, fun hfirst i j => ?_⟩
    · exact (rangeLimit_limitIndex hlow hhigh).mpr (h i)
    · rw [inverseDCT_eq, inverseDCT_eq, rowPass_first hfirst, rowPass_first hfirst]

/-- For a block with a first coefficient only this is a question of that coefficient. -/
theorem descaled_first_iff (hfirst : ∀ k, k ≠ 0 → coeff k = 0) :
    (∀ i, descaled coeff qt i ≠ 511) ↔ (dequantize coeff qt 0).toInt / 8 ≠ 511 := by
  constructor
  · intro h
    rw [← descaled_first hfirst 0]
    exact h 0
  · intro h i
    rwa [descaled_first hfirst]

/-- A flat block that should be white is black. -/
theorem white_wraps : ¬ ∀ coeff qt, Clamped coeff qt := by
  intro hall
  have hclamped := (hall (Function.update (fun _ => 0) 0 4088) fun _ => 65536).inRange 0
  revert hclamped
  decide

end Outband.Kvm.Codec
