import Mathlib.Tactic.Ring

/-!
# Digits, most significant first

`ofDigitsMsb B digits` is the number a reader of a big-endian format builds:
multiply by the base and add the next digit. Division and remainder give each
digit back.
-/

namespace Outband.Foundation

/-- The number with the given digits, most significant first. -/
def ofDigitsMsb (B : Nat) (digits : List Nat) : Nat := digits.foldl (fun acc d => acc * B + d) 0

theorem foldl_digits (B acc : Nat) (digits : List Nat) :
    digits.foldl (fun acc d => acc * B + d) acc =
      acc * B ^ digits.length + ofDigitsMsb B digits := by
  induction digits generalizing acc with
  | nil => simp [ofDigitsMsb]
  | cons d digits ih =>
      rw [ofDigitsMsb, List.foldl_cons, List.foldl_cons, ih, ih (0 * B + d), List.length_cons,
        pow_succ']
      ring

theorem ofDigitsMsb_cons (B d : Nat) (digits : List Nat) :
    ofDigitsMsb B (d :: digits) = d * B ^ digits.length + ofDigitsMsb B digits := by
  rw [ofDigitsMsb, List.foldl_cons, foldl_digits]
  simp

theorem ofDigitsMsb_lt {B : Nat} {digits : List Nat} (h : ∀ d ∈ digits, d < B) :
    ofDigitsMsb B digits < B ^ digits.length := by
  induction digits with
  | nil => simp [ofDigitsMsb]
  | cons d digits ih =>
      have hd : d + 1 ≤ B := h d (by simp)
      have hrest := ih fun d hd => h d (by simp [hd])
      calc ofDigitsMsb B (d :: digits)
          = d * B ^ digits.length + ofDigitsMsb B digits := ofDigitsMsb_cons B d digits
        _ < (d + 1) * B ^ digits.length := by rw [Nat.succ_mul]; omega
        _ ≤ B * B ^ digits.length := Nat.mul_le_mul_right _ hd
        _ = B ^ (d :: digits).length := by rw [List.length_cons, pow_succ']

/-- A digit is read back by a shift and a mask. -/
theorem ofDigitsMsb_digit {B : Nat} {digits : List Nat} (h : ∀ d ∈ digits, d < B) {k : Nat}
    (hk : k < digits.length) :
    ofDigitsMsb B digits / B ^ (digits.length - 1 - k) % B = digits[k] := by
  induction digits generalizing k with
  | nil => simp at hk
  | cons d digits ih =>
      have hd : d < B := h d (by simp)
      have hrest : ∀ d ∈ digits, d < B := fun d hd => h d (by simp [hd])
      have hpos : ∀ n, 0 < B ^ n := fun n => Nat.pow_pos (by omega)
      rw [ofDigitsMsb_cons, List.length_cons, Nat.add_sub_cancel]
      cases k with
      | zero =>
          rw [Nat.sub_zero, Nat.mul_comm, Nat.mul_add_div (hpos _),
            Nat.div_eq_of_lt (ofDigitsMsb_lt hrest), Nat.add_zero, Nat.mod_eq_of_lt hd]
          rfl
      | succ k =>
          have hk' : k < digits.length := by simpa using hk
          have hsplit : B ^ digits.length = B ^ (digits.length - 1 - k) * (B * B ^ k) := by
            rw [← pow_succ', ← pow_add]
            congr 1
            omega
          rw [show digits.length - (k + 1) = digits.length - 1 - k by omega, hsplit,
            show d * (B ^ (digits.length - 1 - k) * (B * B ^ k)) =
              B ^ (digits.length - 1 - k) * (B * (B ^ k * d)) by ring,
            Nat.mul_add_div (hpos _), Nat.mul_add_mod, ih hrest hk']
          rfl

end Outband.Foundation
