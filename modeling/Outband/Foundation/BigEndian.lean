import Mathlib.Data.BitVec
import Outband.Foundation.Digits

/-!
# Big-endian fields of a byte format

`putUint width n` is the field of `width` bytes that holds `n`, and `getUint`
reads a field back. A number that fits its field survives the round trip; any
other number keeps its low bytes.
-/

namespace Outband.Foundation

/-- The `width` low bytes of `n`, most significant first. -/
def putUint : Nat → Nat → List (BitVec 8)
  | 0, _ => []
  | width + 1, n => BitVec.ofNat 8 (n / 256 ^ width) :: putUint width n

/-- The number a big-endian field holds. -/
def getUint (b : List (BitVec 8)) : Nat := ofDigitsMsb 256 (b.map BitVec.toNat)

theorem getUint_lt (b : List (BitVec 8)) : getUint b < 256 ^ b.length := by
  have hlt : ofDigitsMsb 256 (b.map BitVec.toNat) < 256 ^ (b.map BitVec.toNat).length := by
    apply ofDigitsMsb_lt
    intro d hd
    obtain ⟨x, -, rfl⟩ := List.mem_map.mp hd
    exact x.isLt
  rwa [List.length_map] at hlt

@[simp] theorem length_putUint (width n : Nat) : (putUint width n).length = width := by
  induction width with
  | zero => rfl
  | succ width ih => rw [putUint, List.length_cons, ih]

/-- A field holds the number modulo its range. -/
theorem getUint_putUint (width n : Nat) : getUint (putUint width n) = n % 256 ^ width := by
  induction width with
  | zero => simp [putUint, getUint, ofDigitsMsb, Nat.mod_one]
  | succ width ih =>
      have hrest : ofDigitsMsb 256 ((putUint width n).map BitVec.toNat) = n % 256 ^ width := ih
      have hmod : n % 256 ^ (width + 1) =
          n % 256 ^ width + 256 ^ width * (n / 256 ^ width % 256) := by
        rw [pow_succ, Nat.mod_mul]
      rw [hmod, putUint, getUint, List.map_cons, ofDigitsMsb_cons, hrest, List.length_map,
        length_putUint, Nat.mul_comm, Nat.add_comm]
      rfl

theorem getUint_putUint_of_lt {width n : Nat} (h : n < 256 ^ width) :
    getUint (putUint width n) = n := by
  rw [getUint_putUint, Nat.mod_eq_of_lt h]

end Outband.Foundation
