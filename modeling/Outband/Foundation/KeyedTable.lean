import Mathlib.Data.List.Nodup

/-!
# Tables with a primary key

A table is a list of rows no two of which have the same key. `upsert` is an
`INSERT … ON CONFLICT … DO UPDATE` of all other columns: it writes over the row
with the new row's key, or appends the new row.
-/

namespace Outband.Foundation

variable {α β γ κ : Type*} [DecidableEq κ] {key : α → κ}

/-- Rows with distinct keys. -/
structure KeyedTable (key : α → κ) where
  rows : List α
  distinct : (rows.map key).Nodup

/-- Write `x` over the row with its key, or append it. -/
def upsertRow (key : α → κ) (x : α) : List α → List α
  | [] => [x]
  | y :: rest => if key y = key x then x :: rest else y :: upsertRow key x rest

theorem mem_upsertRow_keys {x : α} {rows : List α} {k : κ}
    (hk : k ∈ (upsertRow key x rows).map key) : k = key x ∨ k ∈ rows.map key := by
  induction rows with
  | nil => simpa [upsertRow] using hk
  | cons y rest ih =>
      rw [upsertRow] at hk
      split at hk
      case isTrue =>
        rcases List.mem_cons.mp hk with hk | hk
        · exact .inl hk
        · exact .inr (List.mem_cons_of_mem _ hk)
      case isFalse =>
        rcases List.mem_cons.mp hk with hk | hk
        · exact .inr (hk ▸ List.mem_cons_self)
        · exact (ih hk).imp_right (List.mem_cons_of_mem _)

theorem nodup_upsertRow (x : α) {rows : List α} (h : (rows.map key).Nodup) :
    ((upsertRow key x rows).map key).Nodup := by
  induction rows with
  | nil => simp [upsertRow]
  | cons y rest ih =>
      obtain ⟨hy, hrest⟩ := List.nodup_cons.mp h
      rw [upsertRow]
      split
      case isTrue heq => exact List.nodup_cons.mpr ⟨heq ▸ hy, hrest⟩
      case isFalse hne =>
        refine List.nodup_cons.mpr ⟨fun hmem => ?_, ih hrest⟩
        rcases mem_upsertRow_keys hmem with hk | hk
        · exact hne hk
        · exact hy hk

theorem find_upsertRow (x : α) (rows : List α) (k : κ) :
    (upsertRow key x rows).find? (fun r => key r = k) =
      if key x = k then some x else rows.find? fun r => key r = k := by
  induction rows with
  | nil => by_cases hk : key x = k <;> simp [upsertRow, hk]
  | cons y rest ih =>
      rw [upsertRow]
      split
      case isTrue heq => by_cases hk : key x = k <;> simp [heq, hk]
      case isFalse hne =>
        rw [List.find?_cons, List.find?_cons, ih]
        by_cases hy : key y = k
        · have hx : key x ≠ k := fun hx => hne (hy.trans hx.symm)
          simp [hy, hx]
        · simp [hy]

theorem upsertRow_of_notMem {x : α} {rows : List α} (h : key x ∉ rows.map key) :
    upsertRow key x rows = rows ++ [x] := by
  induction rows with
  | nil => rfl
  | cons y rest ih =>
      rw [List.map_cons, List.mem_cons, not_or] at h
      rw [upsertRow, if_neg (Ne.symm h.1), ih h.2, List.cons_append]

/-- In a pass over rows with distinct keys, what only the row of one key touches is as that row
leaves it. -/
theorem foldl_eq_find {f : β → α → β} {read : β → γ} {write : α → γ → γ} {k : κ}
    (hf : ∀ b r, read (f b r) = if key r = k then write r (read b) else read b)
    {rows : List α} (h : (rows.map key).Nodup) (b : β) :
    read (rows.foldl f b) =
      (rows.find? fun r => key r = k).elim (read b) fun r => write r (read b) := by
  induction rows generalizing b with
  | nil => rfl
  | cons y rest ih =>
      obtain ⟨hy, hrest⟩ := List.nodup_cons.mp h
      rw [List.foldl_cons, ih hrest, hf, List.find?_cons]
      by_cases hk : key y = k
      · have hnone : (rest.find? fun r => key r = k) = none := by
          refine List.find?_eq_none.mpr fun r hr => ?_
          have hne : key r ≠ k := fun heq => hy (List.mem_map.mpr ⟨r, hr, heq.trans hk.symm⟩)
          simpa using hne
        simp [hk, hnone]
      · simp [hk]

namespace KeyedTable

def empty : KeyedTable key := ⟨[], List.nodup_nil⟩

def find (t : KeyedTable key) (k : κ) : Option α := t.rows.find? fun r => key r = k

def upsert (t : KeyedTable key) (x : α) : KeyedTable key :=
  ⟨upsertRow key x t.rows, nodup_upsertRow x t.distinct⟩

theorem find_upsert (t : KeyedTable key) (x : α) (k : κ) :
    (t.upsert x).find k = if key x = k then some x else t.find k :=
  find_upsertRow x t.rows k

/-- A row is found under its key, and nothing else is. -/
theorem find_eq_some_iff {t : KeyedTable key} {x : α} {k : κ} :
    t.find k = some x ↔ x ∈ t.rows ∧ key x = k := by
  constructor
  · intro h
    exact ⟨List.mem_of_find?_eq_some h, by simpa using List.find?_some h⟩
  · rintro ⟨hmem, rfl⟩
    have hfound : (t.rows.find? fun r => key r = key x).isSome := by
      rw [List.find?_isSome]
      exact ⟨x, hmem, decide_eq_true rfl⟩
    obtain ⟨y, hy⟩ := Option.isSome_iff_exists.mp hfound
    have hkey : key y = key x := by simpa using List.find?_some hy
    have hsame := List.inj_on_of_nodup_map t.distinct (List.mem_of_find?_eq_some hy) hmem hkey
    rw [find, hy, hsame]

/-- The last row written under a key is the one that is found. -/
theorem find_foldl_upsert (t : KeyedTable key) (xs : List α) (k : κ) :
    (xs.foldl upsert t).find k = (xs.reverse.find? fun r => key r = k).or (t.find k) := by
  induction xs generalizing t with
  | nil => rfl
  | cons x rest ih =>
      rw [List.foldl_cons, ih, find_upsert, List.reverse_cons, List.find?_append, Option.or_assoc]
      by_cases hk : key x = k <;> simp [hk]

/-- The same rows in another order. -/
def reorder (t : KeyedTable key) {rows : List α} (h : rows.Perm t.rows) : KeyedTable key :=
  ⟨rows, (h.map key).nodup_iff.mpr t.distinct⟩

omit [DecidableEq κ] in
theorem nodup_rows (t : KeyedTable key) : t.rows.Nodup := t.distinct.of_map key

/-- Rows with new keys are appended. -/
theorem rows_foldl_upsert (t : KeyedTable key) {xs : List α}
    (h : ((t.rows ++ xs).map key).Nodup) : (xs.foldl upsert t).rows = t.rows ++ xs := by
  induction xs generalizing t with
  | nil => simp
  | cons x rest ih =>
      have hnew : key x ∉ t.rows.map key := by
        rw [List.map_append, List.nodup_append'] at h
        exact fun hmem => h.2.2 hmem (by simp)
      have hrows : (t.upsert x).rows = t.rows ++ [x] := upsertRow_of_notMem hnew
      rw [List.foldl_cons, ih (t.upsert x) (by rw [hrows]; simpa using h), hrows]
      simp

end KeyedTable

end Outband.Foundation
