import Mathlib.Data.List.DropRight

/-!
# Trimming

`trim p` drops from both ends of a list the items that satisfy `p`. What is
left is trimmed: it is empty, or neither its first nor its last item satisfies
`p`, and the trimmed lists are the ones that `trim p` leaves as they are.
-/

namespace Outband.Foundation

variable {α : Type*} {p : α → Bool} {l before after : List α}

/-- Drop the items that satisfy `p` from both ends. -/
def trim (p : α → Bool) (l : List α) : List α := (l.dropWhile p).rdropWhile p

/-- Neither end satisfies `p`. -/
structure Trimmed (p : α → Bool) (l : List α) : Prop where
  first : ∀ a ∈ l.head?, p a = false
  last : ∀ a ∈ l.getLast?, p a = false

instance (p : α → Bool) (l : List α) : Decidable (Trimmed p l) :=
  decidable_of_iff ((∀ a ∈ l.head?, p a = false) ∧ ∀ a ∈ l.getLast?, p a = false)
    ⟨fun h => ⟨h.1, h.2⟩, fun h => ⟨h.first, h.last⟩⟩

theorem dropWhile_eq_self (h : ∀ a ∈ l.head?, p a = false) : l.dropWhile p = l := by
  cases l with
  | nil => rfl
  | cons a rest => exact List.dropWhile_cons_of_neg (by simp [h a rfl])

theorem rdropWhile_eq_self (h : ∀ a ∈ l.getLast?, p a = false) : l.rdropWhile p = l := by
  rw [List.rdropWhile_eq_self_iff]
  intro hne
  simp [h _ (List.getLast?_eq_some_getLast hne)]

theorem Trimmed.trim_eq (h : Trimmed p l) : trim p l = l := by
  rw [trim, dropWhile_eq_self h.first, rdropWhile_eq_self h.last]

theorem head?_rdropWhile : (l.rdropWhile p).head? = none ∨ (l.rdropWhile p).head? = l.head? := by
  obtain ⟨rest, hrest⟩ := List.rdropWhile_prefix p (l := l)
  cases hl : l.rdropWhile p with
  | nil => exact .inl rfl
  | cons a kept =>
      right
      rw [hl] at hrest
      rw [← hrest]
      rfl

theorem trimmed_trim (p : α → Bool) (l : List α) : Trimmed p (trim p l) := by
  constructor
  · intro a ha
    rcases head?_rdropWhile (p := p) (l := l.dropWhile p) with hnone | hsame
    · rw [trim, hnone] at ha
      cases ha
    · rw [trim, hsame] at ha
      have hfirst := List.head?_dropWhile_not p l
      rwa [Option.mem_def.mp ha] at hfirst
  · intro a ha
    have hne : trim p l ≠ [] := by
      rintro hnil
      simp [hnil] at ha
    rw [List.getLast?_eq_some_getLast hne, Option.mem_some_iff] at ha
    subst ha
    exact Bool.not_eq_true _ ▸ List.rdropWhile_last_not p _ hne

@[simp]
theorem trim_trim (p : α → Bool) (l : List α) : trim p (trim p l) = trim p l :=
  (trimmed_trim p l).trim_eq

@[simp]
theorem trim_nil (p : α → Bool) : trim p [] = [] := rfl

theorem rdropWhile_append_pad (hafter : ∀ a ∈ after, p a = true) :
    (l ++ after).rdropWhile p = l.rdropWhile p := by
  simp only [List.rdropWhile, List.reverse_append]
  rw [List.dropWhile_append_of_pos (by simpa using hafter)]

/-- Padding at both ends is dropped. -/
theorem trim_pad (hbefore : ∀ a ∈ before, p a = true) (hafter : ∀ a ∈ after, p a = true) :
    trim p (before ++ l ++ after) = trim p l := by
  rw [trim, List.append_assoc, List.dropWhile_append_of_pos hbefore]
  by_cases hl : ∀ a ∈ l, p a = true
  · have hnil : l.dropWhile p = [] := List.dropWhile_eq_nil_iff.mpr hl
    have hall : ∀ a ∈ l ++ after, p a = true := by
      intro a ha
      exact (List.mem_append.mp ha).elim (hl a) (hafter a)
    rw [List.dropWhile_eq_nil_iff.mpr hall, trim, hnil]
  · have hne : (l.dropWhile p).isEmpty = false := by
      simpa [List.dropWhile_eq_nil_iff] using hl
    rw [List.dropWhile_append, hne]
    exact rdropWhile_append_pad hafter

theorem Trimmed.trim_pad_eq (h : Trimmed p l) (hbefore : ∀ a ∈ before, p a = true)
    (hafter : ∀ a ∈ after, p a = true) : trim p (before ++ l ++ after) = l := by
  rw [trim_pad hbefore hafter, h.trim_eq]

/-- A list with no item that satisfies `p` is trimmed. -/
theorem trimmed_of_forall (h : ∀ a ∈ l, p a = false) : Trimmed p l :=
  ⟨fun a ha => h a (List.mem_of_mem_head? ha), fun a ha => h a (List.mem_of_getLast? ha)⟩

end Outband.Foundation
