import Mathlib.Algebra.Order.Round
import Mathlib.Data.Rat.Floor
import Mathlib.Tactic.Linarith

/-!
# Scaling to another range

Positions of `0 .. w` are scaled to `0 .. n`, rounded to the nearest. Both ends
are kept, the order is kept, and a scaled position is off by at most half a
position of the target. When the target has at least as many positions as the
source, scaling back and rounding gives the position again.

Scaling without a clamp leaves the target, and cut to a modulus it need not stay
above it: `forall_scaled_le_iff` says how far the positions may go.
-/

namespace Outband.Foundation

variable {n w v v' : Int}

/-- `v` in units of `1 / n` of the range `w`, rounded to the nearest. -/
def rescale (n w v : Int) : Int := (v * n + w / 2) / w

theorem rescale_zero (hw : 0 < w) : rescale n w 0 = 0 := by
  unfold rescale
  rw [zero_mul, zero_add]
  exact Int.ediv_eq_zero_of_lt (by omega) (by omega)

theorem rescale_self (hw : 0 < w) : rescale n w w = n := by
  unfold rescale
  rw [Int.add_comm, Int.add_mul_ediv_left _ _ hw.ne', Int.ediv_eq_zero_of_lt (by omega) (by omega),
    zero_add]

theorem rescale_mono (hn : 0 ≤ n) (hw : 0 < w) (h : v ≤ v') :
    rescale n w v ≤ rescale n w v' := by
  have hmul : v * n ≤ v' * n := Int.mul_le_mul_of_nonneg_right h hn
  exact Int.ediv_le_ediv hw (by omega)

/-- The error of a scaled position, in units of `1 / w`, is at most half a unit of the target. -/
theorem rescale_error (hw : 0 < w) :
    -w < 2 * (rescale n w v * w - v * n) ∧ 2 * (rescale n w v * w - v * n) ≤ w := by
  have hdiv := Int.mul_ediv_add_emod (v * n + w / 2) w
  have hpos := Int.emod_nonneg (v * n + w / 2) hw.ne'
  have hlt := Int.emod_lt_of_pos (v * n + w / 2) hw
  unfold rescale
  rw [Int.mul_comm w] at hdiv
  omega

/-- Between ranges of one size nothing is changed. -/
theorem rescale_same (hw : 0 < w) : rescale w w v = v := by
  unfold rescale
  rw [Int.add_comm, Int.add_mul_ediv_right _ _ hw.ne',
    Int.ediv_eq_zero_of_lt (by omega) (by omega), zero_add]

/-- Scaling back, rounded to the nearest, gives the position again. -/
theorem round_rescale (hw : 0 < w) (hn : w ≤ n) :
    round ((rescale n w v * w : ℚ) / n) = v := by
  have hbounds : -n ≤ 2 * (rescale n w v * w - v * n) ∧
      2 * (rescale n w v * w - v * n) < n := by
    obtain ⟨hlow, hhigh⟩ : -w < 2 * (rescale n w v * w - v * n) ∧
      2 * (rescale n w v * w - v * n) ≤ w := rescale_error hw
    rcases eq_or_lt_of_le hn with rfl | hlt
    · rw [rescale_same hw]
      omega
    · omega
  have hlow : (-n : ℚ) ≤ 2 * (rescale n w v * w - v * n) := by exact_mod_cast hbounds.1
  have hhigh : 2 * (rescale n w v * w - v * n) < (n : ℚ) := by exact_mod_cast hbounds.2
  have hn' : (0 : ℚ) < n := by exact_mod_cast hw.trans_le hn
  rw [round_eq_iff, Set.mem_Ico, le_div_iff₀ hn', div_lt_iff₀ hn']
  constructor
  · linarith
  · linarith

/-- So no two positions share a scaled one. -/
theorem rescale_injective (hw : 0 < w) (hn : w ≤ n) (h : rescale n w v = rescale n w v') :
    v = v' := by
  rw [← round_rescale (v := v) hw hn, h, round_rescale hw hn]

/-! ### Scaling cut to a modulus -/

/-- The positions up to `V` are all scaled into the target exactly when the last of them is. The
first that is not misses the target by less than the modulus. -/
theorem forall_scaled_le_iff {n w m V : Nat} (hw : 0 < w) (hm : 2 * n + 1 ≤ m) :
    (∀ v ≤ V, n * v / w % m ≤ n) ↔ n * V < (n + 1) * w := by
  constructor
  · intro h
    by_contra hout
    have hexists : ∃ v, (n + 1) * w ≤ n * v := ⟨V, Nat.not_lt.mp hout⟩
    have hfirst := Nat.find_spec hexists
    have hle : Nat.find hexists ≤ V := Nat.find_min' hexists (Nat.not_lt.mp hout)
    have hlow : n + 1 ≤ n * Nat.find hexists / w := (Nat.le_div_iff_mul_le hw).mpr hfirst
    have hhigh : n * Nat.find hexists / w < 2 * n + 1 := by
      rw [Nat.div_lt_iff_lt_mul hw]
      cases hv : Nat.find hexists with
      | zero => nlinarith
      | succ v =>
          have hbefore : n * v < (n + 1) * w := Nat.not_le.mp (Nat.find_min hexists (by omega))
          nlinarith
    have hrange := h _ hle
    rw [Nat.mod_eq_of_lt (hhigh.trans_le hm)] at hrange
    omega
  · intro hlast v hv
    have hscaled : n * v / w < n + 1 := by
      rw [Nat.div_lt_iff_lt_mul hw]
      exact (Nat.mul_le_mul_left n hv).trans_lt hlast
    exact (Nat.mod_le _ _).trans (Nat.lt_succ_iff.mp hscaled)

end Outband.Foundation
