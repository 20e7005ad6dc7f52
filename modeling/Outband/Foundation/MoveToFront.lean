import Mathlib.Data.List.Nodup
import Mathlib.Data.List.Basic

/-!
# Bounded move-to-front lists with use marks

A recency list holds at most `cap` distinct keys, the most recently used first.
Each key carries a mark that says whether it was used since the last prune, and
the marked keys come before the unmarked ones. Using a key moves it to the
front; a new key pushes the last one out of a full list.
-/

namespace Outband.Foundation

variable {α : Type*} {cap : Nat}

/-- At most `cap` distinct keys, marked ones first. -/
structure Recency (cap : Nat) (α : Type*) where
  entries : List (α × Bool)
  nodup : (entries.map Prod.fst).Nodup
  length_le : entries.length ≤ cap
  marked_first : entries.Pairwise fun a b => b.2 = true → a.2 = true

namespace Recency

/-- No key at all. -/
def empty : Recency cap α := ⟨[], by simp, by simp, .nil⟩

/-- Any marked key may be put in front of a marked-first list. -/
theorem marked_first_cons {l : List (α × Bool)} (a : α)
    (h : l.Pairwise fun a b => b.2 = true → a.2 = true) :
    ((a, true) :: l).Pairwise fun a b => b.2 = true → a.2 = true :=
  List.pairwise_cons.mpr ⟨fun _ _ _ => rfl, h⟩

section Use
variable [DecidableEq α]

/-- Move `a` to the front, or insert it there, keeping at most `cap` entries. -/
def useList (cap : Nat) (l : List (α × Bool)) (a : α) : List (α × Bool) :=
  ((a, true) :: l.eraseP fun e => e.1 = a).take cap

theorem map_eraseP (l : List (α × Bool)) (a : α) :
    (l.eraseP fun e => e.1 = a).map Prod.fst = (l.map Prod.fst).erase a := by
  induction l with
  | nil => rfl
  | cons e l ih =>
      by_cases he : e.1 = a
      · simp [he]
      · simp [he, ih]

/-- Use key `a`. -/
def use (r : Recency cap α) (a : α) : Recency cap α where
  entries := useList cap r.entries a
  nodup := by
    rw [useList, List.map_take]
    apply List.Nodup.sublist (List.take_sublist _ _)
    rw [List.map_cons, map_eraseP, List.nodup_cons]
    exact ⟨r.nodup.not_mem_erase, r.nodup.erase a⟩
  length_le := List.length_take_le _ _
  marked_first := by
    apply List.Pairwise.sublist (List.take_sublist _ _)
    exact marked_first_cons a (r.marked_first.sublist List.eraseP_sublist)

theorem use_entries (r : Recency cap α) (a : α) : (r.use a).entries = useList cap r.entries a := rfl

/-- With distinct keys the entry of `a` is erased by its position. -/
theorem eraseP_eq_eraseIdx {l : List (α × Bool)} (hl : (l.map Prod.fst).Nodup) {i : Nat}
    {a : α} {mark : Bool} (hi : l[i]? = some (a, mark)) :
    (l.eraseP fun e => e.1 = a) = l.eraseIdx i := by
  induction l generalizing i with
  | nil => simp at hi
  | cons e l ih =>
      rw [List.map_cons, List.nodup_cons] at hl
      cases i with
      | zero =>
          have he : e = (a, mark) := by simpa using hi
          simp [he]
      | succ i =>
          have hi : l[i]? = some (a, mark) := by simpa using hi
          have hmem : a ∈ l.map Prod.fst :=
            List.mem_map.mpr ⟨(a, mark), List.mem_of_getElem? hi, rfl⟩
          have hne : e.1 ≠ a := fun h => hl.1 (h ▸ hmem)
          simp [hne, ih hl.2 hi]

/-- Using a present key is moving its entry to the front. -/
theorem useList_of_mem (r : Recency cap α) {i : Nat} {a : α} {mark : Bool}
    (hi : r.entries[i]? = some (a, mark)) :
    useList cap r.entries a = (a, true) :: r.entries.eraseIdx i := by
  have hlt : i < r.entries.length := (List.getElem?_eq_some_iff.mp hi).1
  have hlen := List.length_eraseIdx_of_lt hlt
  have hcap := r.length_le
  rw [useList, eraseP_eq_eraseIdx r.nodup hi, List.take_of_length_le]
  simp only [List.length_cons]
  omega

/-- Using an absent key puts it in front of the `cap - 1` most recent entries. -/
theorem useList_of_notMem {l : List (α × Bool)} {a : α} (ha : ∀ e ∈ l, e.1 ≠ a)
    (hcap : 0 < cap) : useList cap l a = (a, true) :: l.take (cap - 1) := by
  have herase : (l.eraseP fun e => e.1 = a) = l :=
    List.eraseP_of_forall_not fun e he => by simpa using ha e he
  obtain ⟨n, rfl⟩ : ∃ n, cap = n + 1 := ⟨cap - 1, by omega⟩
  simp [useList, herase]

/-- Use the key at position `i`, if there is one. -/
def front (r : Recency cap α) (i : Nat) : Recency cap α :=
  match r.entries[i]? with
  | some e => r.use e.1
  | none => r

theorem front_entries (r : Recency cap α) {i : Nat} {a : α} {mark : Bool}
    (h : r.entries[i]? = some (a, mark)) :
    (r.front i).entries = (a, true) :: r.entries.eraseIdx i := by
  rw [← r.useList_of_mem h]
  simp [front, h, use]

theorem front_of_length_le (r : Recency cap α) {i : Nat} (h : r.entries.length ≤ i) :
    r.front i = r := by
  simp [front, List.getElem?_eq_none h]

end Use

/-- Keep the marked entries and clear their marks. -/
def pruneList (l : List (α × Bool)) : List (α × Bool) :=
  (l.filter Prod.snd).map fun e => (e.1, false)

/-- Drop the keys not used since the last prune. -/
def prune (r : Recency cap α) : Recency cap α where
  entries := pruneList r.entries
  nodup := by
    have hkeys : (pruneList r.entries).map Prod.fst = (r.entries.filter Prod.snd).map Prod.fst := by
      simp [pruneList]
    rw [hkeys]
    exact r.nodup.sublist (List.filter_sublist.map _)
  length_le := by
    rw [pruneList, List.length_map]
    exact Nat.le_trans (List.length_filter_le _ _) r.length_le
  marked_first := by
    rw [pruneList, List.pairwise_map]
    exact List.pairwise_of_forall fun _ _ h => by cases h

/-- In a marked-first list the marked entries are a first segment. -/
theorem getElem?_pruneList {l : List (α × Bool)}
    (h : l.Pairwise fun a b => b.2 = true → a.2 = true) {i : Nat} {a : α}
    (hi : l[i]? = some (a, true)) : (pruneList l)[i]? = some (a, false) := by
  induction l generalizing i with
  | nil => simp at hi
  | cons e l ih =>
      rw [List.pairwise_cons] at h
      cases i with
      | zero =>
          have he : e = (a, true) := by simpa using hi
          simp [pruneList, he]
      | succ i =>
          have hi : l[i]? = some (a, true) := by simpa using hi
          have he : e.2 = true := h.1 (a, true) (List.mem_of_getElem? hi) rfl
          have := ih h.2 hi
          rw [pruneList] at this ⊢
          simpa [he] using this

/-- A position holds a marked entry exactly when it is below the pruned length. -/
theorem lt_length_pruneList_iff {l : List (α × Bool)}
    (h : l.Pairwise fun a b => b.2 = true → a.2 = true) (i : Nat) :
    i < (pruneList l).length ↔ ∃ a, l[i]? = some (a, true) := by
  induction l generalizing i with
  | nil => simp [pruneList]
  | cons e l ih =>
      rw [List.pairwise_cons] at h
      cases hm : e.2 with
      | true =>
          have hcons : pruneList (e :: l) = (e.1, false) :: pruneList l := by
            simp [pruneList, hm]
          rw [hcons]
          cases i with
          | zero =>
              have : e = (e.1, true) := Prod.ext rfl hm
              simpa using ⟨e.1, this⟩
          | succ i => simpa using ih h.2 i
      | false =>
          have hnone (b : α × Bool) (hb : b ∈ l) : b.2 = false := by
            cases hb2 : b.2 with
            | false => rfl
            | true =>
                have := h.1 b hb hb2
                simp [hm] at this
          have hnil : pruneList (e :: l) = [] := by
            simp only [pruneList, List.map_eq_nil_iff, List.filter_eq_nil_iff]
            intro b hb
            rcases List.mem_cons.mp hb with rfl | hb
            · simp [hm]
            · simp [hnone b hb]
          simp only [hnil, List.length_nil, Nat.not_lt_zero, false_iff, not_exists]
          intro a ha
          have hmem := List.mem_of_getElem? ha
          rcases List.mem_cons.mp hmem with he | hb
          · simp [← he] at hm
          · simpa using hnone _ hb

end Recency

end Outband.Foundation
