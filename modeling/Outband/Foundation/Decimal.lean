import Mathlib.Data.List.Basic
import Mathlib.Tactic.IntervalCases
import Outband.Foundation.Digits

/-!
# Decimal numbers

A number is written with a given count of decimal digits and read back from them.
`Atoi` reads an integer with a sign, and makes the best of a text that is none.
-/

namespace Outband.Foundation

def digit (n : Nat) : Char := Char.ofNat (48 + n)

def digitVal (c : Char) : Option Nat :=
  if 48 ≤ c.toNat ∧ c.toNat ≤ 57 then some (c.toNat - 48) else none

/-- The last `k` decimal digits of `n`. -/
def decimal : Nat → Nat → List Char
  | 0, _ => []
  | k + 1, n => decimal k (n / 10) ++ [digit (n % 10)]

/-- The number that a text of digits stands for. -/
def number (text : List Char) : Option Nat := (text.mapM digitVal).map (ofDigitsMsb 10)

theorem toNat_digit {n : Nat} (hn : n < 10) : (digit n).toNat = 48 + n := by
  interval_cases n <;> rfl

theorem digitVal_digit {n : Nat} (hn : n < 10) : digitVal (digit n) = some n := by
  rw [digitVal, toNat_digit hn, if_pos (by omega), Nat.add_sub_cancel_left]

@[simp]
theorem length_decimal (k n : Nat) : (decimal k n).length = k := by
  induction k generalizing n with
  | zero => rfl
  | succ k ih => rw [decimal, List.length_append, ih, List.length_singleton]

theorem number_concat (text : List Char) (c : Char) :
    number (text ++ [c]) = (number text).bind fun n => (digitVal c).map fun d => n * 10 + d := by
  rw [number, number, List.mapM_append]
  cases text.mapM digitVal with
  | none => rfl
  | some digits =>
      cases hc : digitVal c with
      | none => simp [hc]
      | some d => simp [hc, ofDigitsMsb]

/-- A number is read back from its digits. -/
theorem number_decimal {k n : Nat} (hn : n < 10 ^ k) : number (decimal k n) = some n := by
  induction k generalizing n with
  | zero =>
      have hzero : n = 0 := by simpa using hn
      subst hzero
      rfl
  | succ k ih =>
      have hquot : n / 10 < 10 ^ k := by
        rw [pow_succ] at hn
        omega
      rw [decimal, number_concat, ih hquot, digitVal_digit (Nat.mod_lt _ (by omega))]
      simp only [Option.bind_some, Option.map_some, Option.some.injEq]
      omega

/-! ### Integers -/

/-- `strconv.Atoi` without its error: 0 for what is not a number, and the nearest integer of 64 bits
for one that is out of range. -/
def Atoi (s : String) : Int :=
  let (negative, digits) := match s.toList with
    | '-' :: rest => (true, rest)
    | '+' :: rest => (false, rest)
    | rest => (false, rest)
  if digits = [] then 0
  else match number digits with
    | none => 0
    | some n => if negative then max (-(n : Int)) (-2 ^ 63) else min n (2 ^ 63 - 1)

example : Atoi "-42" = -42 := by decide

end Outband.Foundation
