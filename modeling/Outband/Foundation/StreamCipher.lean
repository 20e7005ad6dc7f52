import Mathlib.Data.LawfulXor.Basic
import Mathlib.Data.List.Basic

/-!
# Additive stream ciphers

A generator gives one word of its stream at a time. `mask` combines a text with
the words it gives, by exclusive or: the same operation encrypts and decrypts,
and the generator gives one word for each word of the text.
-/

namespace Outband.Foundation

variable {κ : Type*} {w : Nat} (next : κ → BitVec w × κ)

/-- Combine a text with the stream of a generator; the result has the generator behind it. -/
def mask : κ → List (BitVec w) → List (BitVec w) × κ
  | k, [] => ([], k)
  | k, b :: bs => ((b ^^^ (next k).1) :: (mask (next k).2 bs).1, (mask (next k).2 bs).2)

@[simp] theorem mask_nil (k : κ) : mask next k [] = ([], k) := rfl

@[simp] theorem mask_cons (k : κ) (b : BitVec w) (bs : List (BitVec w)) :
    mask next k (b :: bs) =
      ((b ^^^ (next k).1) :: (mask next (next k).2 bs).1, (mask next (next k).2 bs).2) := rfl

theorem mask_append (k : κ) (a b : List (BitVec w)) :
    mask next k (a ++ b) =
      ((mask next k a).1 ++ (mask next (mask next k a).2 b).1,
        (mask next (mask next k a).2 b).2) := by
  induction a generalizing k with
  | nil => rfl
  | cons x a ih => simp [ih]

@[simp] theorem length_mask (k : κ) (bs : List (BitVec w)) :
    (mask next k bs).1.length = bs.length := by
  induction bs generalizing k with
  | nil => rfl
  | cons b bs ih => simp [ih]

/-- Masking twice with the same stream gives the text back. -/
theorem mask_mask (k : κ) (bs : List (BitVec w)) : (mask next k (mask next k bs).1).1 = bs := by
  induction bs generalizing k with
  | nil => rfl
  | cons b bs ih => simp [ih, xor_cancel_right]

/-! ### The stream of a generator -/

section Words

variable {α β κ' : Type*} {nextWord : κ → α × κ} {nextWord' : κ' → β × κ'}

/-- The first `n` words of the stream. -/
def words (nextWord : κ → α × κ) : Nat → κ → List α
  | 0, _ => []
  | n + 1, k => (nextWord k).1 :: words nextWord n (nextWord k).2

/-- The generator behind them. -/
def after (nextWord : κ → α × κ) : Nat → κ → κ
  | 0, k => k
  | n + 1, k => after nextWord n (nextWord k).2

/-- Two generators in step give the same stream. -/
theorem words_alike {r : κ → κ' → Prop} {f : α → β}
    (hnext : ∀ k k', r k k' →
      f (nextWord k).1 = (nextWord' k').1 ∧ r (nextWord k).2 (nextWord' k').2)
    {k : κ} {k' : κ'} (h : r k k') (n : Nat) :
    (words nextWord n k).map f = words nextWord' n k' := by
  induction n generalizing k k' with
  | zero => rfl
  | succ n ih =>
      obtain ⟨hword, hrest⟩ := hnext k k' h
      rw [words, List.map_cons, hword, ih hrest]
      rfl

/-- They stay in step. -/
theorem after_alike {r : κ → κ' → Prop} (hnext : ∀ k k', r k k' → r (nextWord k).2 (nextWord' k').2)
    {k : κ} {k' : κ'} (h : r k k') (n : Nat) : r (after nextWord n k) (after nextWord' n k') := by
  induction n generalizing k k' with
  | zero => exact h
  | succ n ih => exact ih (hnext k k' h)

end Words

/-- After a text, the generator has given a word for each word of it. -/
theorem mask_snd (k : κ) (bs : List (BitVec w)) : (mask next k bs).2 = after next bs.length k := by
  induction bs generalizing k with
  | nil => rfl
  | cons b bs ih => exact ih (next k).2

/-- Masking combines a text with the words of the stream, one by one. -/
theorem mask_eq_zipWith (k : κ) (bs : List (BitVec w)) :
    (mask next k bs).1 = List.zipWith (· ^^^ ·) bs (words next bs.length k) := by
  induction bs generalizing k with
  | nil => rfl
  | cons b bs ih =>
      rw [mask_cons, ih]
      rfl

end Outband.Foundation
