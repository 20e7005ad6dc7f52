import Mathlib.Data.List.Infix

/-!
# Occurrences of a text in a text

`cutAt pat text` cuts a text at the first occurrence of `pat`, and `replaceAll`
replaces the occurrences that it finds one after the other. Where none begins
in the first part of a text (`Clear`), both go on behind that part. A text whose
first item occurs nowhere else in it does not overlap itself, so that an
occurrence written into a text is the one that is found.
-/

namespace Outband.Foundation

variable {α : Type*} {x : α} {pat new a b c text before after : List α}

/-! ### Where no occurrence begins -/

/-- No occurrence of `pat` in `a ++ b` begins in `a`. -/
def Clear (pat a b : List α) : Prop := ∀ i < a.length, ¬ pat <+: (a ++ b).drop i

theorem clear_nil : Clear pat [] b := by
  intro i hi
  simp at hi

theorem clear_cons_iff : Clear pat (x :: a) b ↔ ¬ pat <+: x :: (a ++ b) ∧ Clear pat a b := by
  constructor
  · intro h
    exact ⟨h 0 (by simp), fun i hi => h (i + 1) (by simpa using hi)⟩
  · rintro ⟨hfirst, hrest⟩ i hi
    cases i with
    | zero => exact hfirst
    | succ i => exact hrest i (by simpa using hi)

theorem clear_append_iff : Clear pat (a ++ b) c ↔ Clear pat a (b ++ c) ∧ Clear pat b c := by
  induction a with
  | nil => exact (and_iff_right clear_nil).symm
  | cons x a ih =>
      rw [List.cons_append, clear_cons_iff, clear_cons_iff, ih, List.append_assoc, and_assoc]

/-- Where the first item of the text does not occur, nothing begins. -/
theorem clear_of_notMem {rest : List α} (h : x ∉ a) : Clear (x :: rest) a b := by
  induction a with
  | nil => exact clear_nil
  | cons y a ih =>
      rw [List.mem_cons, not_or] at h
      rw [clear_cons_iff]
      refine ⟨fun hprefix => h.1 ?_, ih h.2⟩
      exact (List.cons_prefix_cons.mp hprefix).1

/-- A text that does not overlap itself and does not occur in `a` does not begin in `a` either when
its first item follows `a`, or nothing does. -/
theorem clear_of_not_infix {rest : List α} (hrest : x ∉ rest) (h : ¬ (x :: rest) <:+: a)
    (hb : ∀ y ∈ b.head?, y = x) : Clear (x :: rest) a b := by
  intro i hi hprefix
  rw [List.drop_append_of_le_length hi.le] at hprefix
  have hinfix : ¬ (x :: rest) <+: a.drop i := fun hin =>
    h (hin.isInfix.trans (List.drop_suffix i a).isInfix)
  rcases List.prefix_or_prefix_of_prefix hprefix (List.prefix_append _ _) with hin | hover
  · exact hinfix hin
  · obtain ⟨t, ht⟩ := hover
    have hne : a.drop i ≠ [] := by simpa using hi
    obtain ⟨y, s, hs⟩ := List.exists_cons_of_ne_nil hne
    have hsplit : rest = s ++ t := by
      rw [hs] at ht
      exact (List.cons.inj ht).2.symm
    rw [← ht, List.prefix_append_right_inj] at hprefix
    cases t with
    | nil => exact hinfix (by rw [← ht, List.append_nil])
    | cons z t =>
        obtain ⟨b', rfl⟩ := hprefix
        have hz : z = x := hb z (by simp)
        exact hrest (by rw [hsplit, hz]; simp)

theorem not_infix_of_clear (hne : pat ≠ []) (h : Clear pat a []) : ¬ pat <:+: a := by
  rintro ⟨before, after, rfl⟩
  have hpos : 0 < pat.length := List.length_pos_iff.mpr hne
  refine h before.length (by simp only [List.length_append]; omega) ?_
  rw [List.append_nil, List.append_assoc, List.drop_left]
  exact List.prefix_append _ _

/-- The same with one item more in front of the text. -/
theorem clear_cons_of_clear (h : Clear pat a b) (hlast : pat <+: b → a.getLast? ≠ some x) :
    Clear (x :: pat) a b := by
  induction a with
  | nil => exact clear_nil
  | cons y a ih =>
      rw [clear_cons_iff] at h ⊢
      constructor
      · intro hprefix
        obtain ⟨rfl, hpat⟩ := List.cons_prefix_cons.mp hprefix
        cases a with
        | nil => exact hlast hpat rfl
        | cons z a => exact h.2 0 (by simp) hpat
      · refine ih h.2 fun hpat => ?_
        cases a with
        | nil => simp
        | cons z a => exact hlast hpat

/-! ### The first occurrence -/

variable [DecidableEq α]

/-- The text before and the text behind the first occurrence. -/
def cutAt (pat : List α) : List α → Option (List α × List α)
  | [] => if pat = [] then some ([], []) else none
  | x :: text =>
      if pat <+: x :: text then some ([], (x :: text).drop pat.length)
      else (cutAt pat text).map fun p => (x :: p.1, p.2)

/-- What `cutAt` returns are the parts of the text around an occurrence. -/
theorem append_of_cutAt (h : cutAt pat text = some (before, after)) :
    before ++ pat ++ after = text := by
  induction text generalizing before with
  | nil =>
      rw [cutAt] at h
      split_ifs at h with hpat
      cases h
      simp [hpat]
  | cons x text ih =>
      rw [cutAt] at h
      split_ifs at h with hpat
      · cases h
        exact List.prefix_iff_eq_append.mp hpat
      · obtain ⟨⟨before', after'⟩, hcut, hpair⟩ := Option.map_eq_some_iff.mp h
        cases hpair
        rw [← ih hcut]
        simp

theorem length_of_cutAt (hne : pat ≠ []) (h : cutAt pat text = some (before, after)) :
    after.length < text.length := by
  have hpos : 0 < pat.length := List.length_pos_iff.mpr hne
  rw [← append_of_cutAt h]
  simp only [List.length_append]
  omega

theorem cutAt_append_of_clear (h : Clear pat a b) :
    cutAt pat (a ++ b) = (cutAt pat b).map fun p => (a ++ p.1, p.2) := by
  induction a with
  | nil => simp
  | cons x a ih =>
      rw [clear_cons_iff] at h
      rw [List.cons_append, cutAt, if_neg h.1, ih h.2, Option.map_map]
      rfl

theorem cutAt_self (hne : pat ≠ []) (b : List α) : cutAt pat (pat ++ b) = some ([], b) := by
  cases pat with
  | nil => exact absurd rfl hne
  | cons x rest =>
      rw [List.cons_append, cutAt, ← List.cons_append, if_pos (List.prefix_append _ _),
        List.drop_left]

/-- An occurrence in front of which none begins is the first. -/
theorem cutAt_of_clear (hne : pat ≠ []) (h : Clear pat a (pat ++ b)) :
    cutAt pat (a ++ (pat ++ b)) = some (a, b) := by
  rw [cutAt_append_of_clear h, cutAt_self hne]
  simp

/-- Without an occurrence there is no cut. -/
theorem cutAt_eq_none_iff (hne : pat ≠ []) : cutAt pat text = none ↔ ¬ pat <:+: text := by
  constructor
  · rintro hnone ⟨before, after, rfl⟩
    induction before with
    | nil =>
        rw [List.nil_append, cutAt_self hne] at hnone
        cases hnone
    | cons x before ih =>
        rw [List.cons_append, List.cons_append, cutAt] at hnone
        split_ifs at hnone
        exact ih (Option.map_eq_none_iff.mp hnone)
  · intro hinfix
    cases hcut : cutAt pat text with
    | none => rfl
    | some p => exact absurd ⟨p.1, p.2, append_of_cutAt hcut⟩ hinfix

/-! ### Replacing -/

/-- Replace one occurrence after the other, for a text that is not empty. -/
def replaceAll (old new : List α) (text : List α) : List α :=
  match _h : cutAt old text with
  | none => text
  | some (before, after) =>
      if _hne : old = [] then text else before ++ new ++ replaceAll old new after
termination_by text.length
decreasing_by exact length_of_cutAt _hne _h

variable {old : List α}

theorem replaceAll_of_none (h : cutAt old text = none) : replaceAll old new text = text := by
  rw [replaceAll]
  split
  case h_1 => rfl
  case h_2 _ _ hcut =>
    rw [h] at hcut
    cases hcut

theorem replaceAll_of_some (hne : old ≠ []) (h : cutAt old text = some (before, after)) :
    replaceAll old new text = before ++ new ++ replaceAll old new after := by
  rw [replaceAll]
  split
  case h_1 hcut =>
    rw [h] at hcut
    cases hcut
  case h_2 _ _ hcut =>
    rw [h] at hcut
    cases hcut
    rw [dif_neg hne]

/-- Text in which nothing begins is kept. -/
theorem replaceAll_append_of_clear (hne : old ≠ []) (h : Clear old a b) :
    replaceAll old new (a ++ b) = a ++ replaceAll old new b := by
  have hcut := cutAt_append_of_clear h
  cases hb : cutAt old b with
  | none =>
      rw [hb] at hcut
      rw [replaceAll_of_none hb, replaceAll_of_none hcut]
  | some p =>
      rw [hb] at hcut
      rw [replaceAll_of_some hne hb, replaceAll_of_some hne hcut]
      simp

theorem replaceAll_self (hne : old ≠ []) (b : List α) :
    replaceAll old new (old ++ b) = new ++ replaceAll old new b := by
  rw [replaceAll_of_some hne (cutAt_self hne b), List.nil_append]

/-! ### Between two tags -/

/-- The texts between an opening tag and the first closing tag behind it, one after the other. -/
def between (opening closing : List α) (text : List α) : List (List α) :=
  match _h : cutAt opening text with
  | none => []
  | some (_, inner) =>
      match _h' : cutAt closing inner with
      | none => []
      | some (content, after) =>
          if _hne : opening = [] then []
          else content :: between opening closing after
termination_by text.length
decreasing_by
  have hinner := length_of_cutAt _hne _h
  have hafter : after.length ≤ inner.length := by
    rw [← append_of_cutAt _h']
    simp only [List.length_append]
    omega
  omega

variable {opening closing content : List α}

theorem between_of_not_infix (hne : opening ≠ []) (h : ¬ opening <:+: text) :
    between opening closing text = [] := by
  rw [between]
  split
  case h_1 => rfl
  case h_2 _ _ hcut =>
    rw [(cutAt_eq_none_iff hne).mpr h] at hcut
    cases hcut

theorem between_append (hopening : opening ≠ []) (hclosing : closing ≠ [])
    (hgap : Clear opening a (opening ++ (content ++ (closing ++ b))))
    (hcontent : Clear closing content (closing ++ b)) :
    between opening closing (a ++ (opening ++ (content ++ (closing ++ b)))) =
      content :: between opening closing b := by
  have hcut := cutAt_of_clear hopening hgap
  have hcut' := cutAt_of_clear hclosing hcontent
  rw [between]
  split
  case h_1 hnone =>
    rw [hcut] at hnone
    cases hnone
  case h_2 _ _ hsome =>
    rw [hcut] at hsome
    cases hsome
    split
    case h_1 hnone =>
      rw [hcut'] at hnone
      cases hnone
    case h_2 _ _ hsome =>
      rw [hcut'] at hsome
      cases hsome
      rw [dif_neg hopening]

end Outband.Foundation
