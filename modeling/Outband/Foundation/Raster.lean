import Mathlib.Data.List.Basic
import Mathlib.Logic.Function.Basic
import Mathlib.Tactic.Ring
import Outband.Foundation.Checked

/-!
# Rasters

A raster of `w` columns is a list of its cells, row by row. `Plotted` says that a
list has been changed at the positions of given cells and nowhere else; it grows
by one cell with each write, so that a pair of nested loops that plots a rectangle
is described by the cells it has plotted so far.

`Overlaid` is the same for cells that may share a position, where the last one
written stays. `meets_forRect_overlaid` is its rule for nested loops. A cell may take
several entries of the list (`unitAt`).
-/

namespace Outband.Foundation

/-- A position of the raster is below its size. -/
theorem position_lt {w h x y : Nat} (hx : x < w) (hy : y < h) : y * w + x < w * h :=
  calc
    y * w + x < y * w + w := by omega
    _ = (y + 1) * w := by ring
    _ ≤ h * w := Nat.mul_le_mul_right _ hy
    _ = w * h := Nat.mul_comm h w

/-- A position of the raster is its row and its column. -/
theorem position_inj {w x y x' y' : Nat} (hx : x < w) (hx' : x' < w)
    (h : y * w + x = y' * w + x') : y = y' ∧ x = x' := by
  have hdiv := congrArg (· / w) h
  have hmod := congrArg (· % w) h
  simp only [Nat.mul_comm _ w, Nat.mul_add_div (by omega : 0 < w), Nat.mul_add_mod,
    Nat.div_eq_of_lt hx, Nat.div_eq_of_lt hx', Nat.mod_eq_of_lt hx,
    Nat.mod_eq_of_lt hx'] at hdiv hmod
  omega

variable {α : Type*} {cells cells' : Nat → Nat → Prop} {pos : Nat → Nat → Nat}
variable {value : Nat → Nat → α} {l l' : List α}

/-- The list `l'` is `l` with `value row col` at `pos row col` for each of the given cells. -/
structure Plotted (cells : Nat → Nat → Prop) (pos : Nat → Nat → Nat) (value : Nat → Nat → α)
    (l l' : List α) : Prop where
  length : l'.length = l.length
  inside : ∀ row col, cells row col → l'[pos row col]? = some (value row col)
  outside : ∀ i, (∀ row col, cells row col → pos row col ≠ i) → l'[i]? = l[i]?

namespace Plotted

theorem refl (pos : Nat → Nat → Nat) (value : Nat → Nat → α) (l : List α) :
    Plotted (fun _ _ => False) pos value l l :=
  ⟨rfl, fun _ _ h => h.elim, fun _ _ => rfl⟩

theorem congr (h : Plotted cells pos value l l')
    (hcells : ∀ row col, cells row col ↔ cells' row col) :
    Plotted cells' pos value l l' := by
  obtain rfl : cells = cells' := by
    funext row col
    exact propext (hcells row col)
  exact h

/-- One more cell, at a position of its own. -/
theorem set {row col : Nat} (h : Plotted cells pos value l l') (hlt : pos row col < l.length)
    (hinj : ∀ r c, cells r c → pos r c = pos row col → r = row ∧ c = col) :
    Plotted (fun r c => cells r c ∨ r = row ∧ c = col) pos value l
      (l'.set (pos row col) (value row col)) where
  length := by rw [List.length_set, h.length]
  inside r c hcell := by
    by_cases hsame : r = row ∧ c = col
    · obtain ⟨rfl, rfl⟩ := hsame
      exact List.getElem?_set_self (h.length ▸ hlt)
    · have hold := hcell.resolve_right hsame
      have hne : pos row col ≠ pos r c := fun heq => hsame (hinj r c hold heq.symm)
      rw [List.getElem?_set_ne hne, h.inside r c hold]
  outside i hi := by
    rw [List.getElem?_set_ne (hi row col (.inr ⟨rfl, rfl⟩))]
    exact h.outside i fun r c hcell => hi r c (.inl hcell)

end Plotted

/-- The `n` entries of cell `p` of a list that stores its cells one after another. -/
def unitAt (n : Nat) (l : List α) (p : Nat) : Fin n → Option α := fun i => l[p * n + i.val]?

/-- Writing an entry changes its cell. -/
theorem unitAt_set {n p : Nat} {l : List α} {k : Fin n} {a : α} (hlt : p * n + k.val < l.length) :
    unitAt n (l.set (p * n + k.val) a) =
      Function.update (unitAt n l) p (Function.update (unitAt n l p) k (some a)) := by
  funext q i
  by_cases hq : q = p
  · subst hq
    rw [Function.update_self]
    by_cases hi : i = k
    · subst hi
      rw [Function.update_self]
      exact List.getElem?_set_self hlt
    · rw [Function.update_of_ne hi]
      apply List.getElem?_set_ne
      have hne := Fin.val_ne_of_ne hi
      omega
  · rw [Function.update_of_ne hq]
    apply List.getElem?_set_ne
    intro heq
    exact hq (position_inj k.isLt i.isLt heq).1.symm

/-- A read inside the list finds the entry of its cell. -/
theorem meets_rdSlice_unit {ε : Type*} {e : ε} {F : ε → Prop} {n p : Nat} {l : List α} (k : Fin n)
    (hlt : p * n + k.val < l.length) :
    Meets (rdSlice e l (p * n + k.val)) (fun a => unitAt n l p k = some a) F := by
  rw [rdSlice_ok hlt]
  exact List.getElem?_eq_getElem hlt

/-- A write inside the list changes the entry of its cell. -/
theorem meets_wrSlice_unit {ε : Type*} {e : ε} {F : ε → Prop} {n p : Nat} {l : List α} (k : Fin n)
    (a : α) (hlt : p * n + k.val < l.length) :
    Meets (wrSlice e l (p * n + k.val) a) (fun l' => l'.length = l.length ∧
      unitAt n l' =
        Function.update (unitAt n l) p (Function.update (unitAt n l p) k (some a))) F := by
  rw [wrSlice_ok hlt]
  exact ⟨List.length_set, unitAt_set hlt⟩

section Overlay
variable {ε ι κ β σ : Type*} {place : Nat → Nat → ι} {f f' : ι → α}

/-- The loops come to cell `(r', c')` after cell `(r, c)`. -/
def Later (r c r' c' : Nat) : Prop := r < r' ∨ r = r' ∧ c < c'

/-- The map `f'` is `f` with `value r c` at `place r c` for each of the given cells; of the
cells of one place the last counts. -/
structure Overlaid (cells : Nat → Nat → Prop) (place : Nat → Nat → ι) (value : Nat → Nat → α)
    (f f' : ι → α) : Prop where
  inside : ∀ r c, cells r c →
    (∀ r' c', cells r' c' → Later r c r' c' → place r' c' ≠ place r c) →
    f' (place r c) = value r c
  outside : ∀ i, (∀ r c, cells r c → place r c ≠ i) → f' i = f i

namespace Overlaid

theorem refl (place : Nat → Nat → ι) (value : Nat → Nat → α) (f : ι → α) :
    Overlaid (fun _ _ => False) place value f f :=
  ⟨fun _ _ h => h.elim, fun _ _ => rfl⟩

theorem congr (h : Overlaid cells place value f f') (hcells : ∀ r c, cells r c ↔ cells' r c) :
    Overlaid cells' place value f f' := by
  obtain rfl : cells = cells' := by
    funext r c
    exact propext (hcells r c)
  exact h

/-- Cells seen through a display: `index` says which place a shown point displays. -/
theorem through {target : Nat → Nat → κ} {F F' : κ → β}
    (h : Overlaid cells place value f f') (index : κ → ι) (shown : κ → Prop) (g : α → β)
    (hindex : ∀ r c, cells r c → index (target r c) = place r c)
    (hinj : ∀ k r c, shown k → cells r c → index k = place r c → k = target r c)
    (hF : ∀ k, shown k → F k = g (f (index k))) (hF' : ∀ k, shown k → F' k = g (f' (index k)))
    (hhidden : ∀ k, ¬ shown k → F' k = F k) :
    Overlaid (fun r c => cells r c ∧ shown (target r c)) target
      (fun r c => g (value r c)) F F' where
  inside r c := by
    rintro ⟨hcell, hshown⟩ hover
    rw [hF' _ hshown, hindex r c hcell, h.inside r c hcell]
    intro r' c' hcell' hlater hplace
    have htarget : target r c = target r' c' :=
      hinj _ r' c' hshown hcell' ((hindex r c hcell).trans hplace.symm)
    exact hover r' c' ⟨hcell', htarget ▸ hshown⟩ hlater htarget.symm
  outside k hk := by
    by_cases hshown : shown k
    · rw [hF' k hshown, hF k hshown, h.outside]
      intro r c hcell hplace
      have htarget := hinj k r c hshown hcell hplace.symm
      exact hk r c ⟨hcell, htarget ▸ hshown⟩ htarget.symm
    · exact hhidden k hshown

variable [DecidableEq ι]

/-- One more cell, behind all others. -/
theorem update {row col : Nat} (h : Overlaid cells place value f f')
    (hlast : ∀ r c, cells r c → Later r c row col) :
    Overlaid (fun r c => cells r c ∨ r = row ∧ c = col) place value f
      (Function.update f' (place row col) (value row col)) where
  inside r c hcell hover := by
    by_cases hsame : r = row ∧ c = col
    · obtain ⟨rfl, rfl⟩ := hsame
      exact Function.update_self _ _ _
    · have hold := hcell.resolve_right hsame
      have hne : place row col ≠ place r c := hover row col (.inr ⟨rfl, rfl⟩) (hlast r c hold)
      rw [Function.update_of_ne hne.symm]
      exact h.inside r c hold fun r' c' hcell' => hover r' c' (.inl hcell')
  outside i hi := by
    rw [Function.update_of_ne (hi row col (.inr ⟨rfl, rfl⟩)).symm]
    exact h.outside i fun r c hcell => hi r c (.inl hcell)

end Overlaid

/-- The cells of a rectangle that the loops have drawn before they come to `(row, col)`. -/
def DrawnBefore (draws : Nat → Nat → Prop) (cols row col r c : Nat) : Prop :=
  c < cols ∧ draws r c ∧ Later r c row col

section DrawnBefore
variable {draws : Nat → Nat → Prop} {cols row col r c : Nat}

theorem not_drawnBefore_zero : ¬ DrawnBefore draws cols 0 0 r c := by
  rintro ⟨-, -, hlater⟩
  unfold Later at hlater
  omega

theorem drawnBefore_of_draws (hcol : col < cols) (hdraws : draws row col) :
    DrawnBefore draws cols row (col + 1) r c ↔
      DrawnBefore draws cols row col r c ∨ r = row ∧ c = col := by
  unfold DrawnBefore Later
  constructor
  · rintro ⟨hc, hcell, hlater⟩
    by_cases hsame : r = row ∧ c = col
    · exact .inr hsame
    · exact .inl ⟨hc, hcell, by omega⟩
  · rintro (⟨hc, hcell, hlater⟩ | ⟨rfl, rfl⟩)
    · exact ⟨hc, hcell, by omega⟩
    · exact ⟨hcol, hdraws, .inr ⟨rfl, by omega⟩⟩

theorem drawnBefore_of_not_draws (hdraws : ¬ draws row col) :
    DrawnBefore draws cols row (col + 1) r c ↔ DrawnBefore draws cols row col r c := by
  unfold DrawnBefore Later
  constructor
  · rintro ⟨hc, hcell, hlater⟩
    have hother : ¬ (r = row ∧ c = col) := by
      rintro ⟨rfl, rfl⟩
      exact hdraws hcell
    exact ⟨hc, hcell, by omega⟩
  · rintro ⟨hc, hcell, hlater⟩
    exact ⟨hc, hcell, by omega⟩

/-- The end of a row is the beginning of the next one. -/
theorem drawnBefore_succ :
    DrawnBefore draws cols (row + 1) 0 r c ↔ DrawnBefore draws cols row cols r c := by
  unfold DrawnBefore Later
  refine and_congr_right fun hc => and_congr_right fun _ => ?_
  omega

theorem drawnBefore_rows {rows : Nat} :
    DrawnBefore draws cols rows 0 r c ↔ r < rows ∧ c < cols ∧ draws r c := by
  unfold DrawnBefore Later
  constructor
  · rintro ⟨hc, hcell, hlater⟩
    exact ⟨by omega, hc, hcell⟩
  · rintro ⟨hr, hc, hcell⟩
    exact ⟨hc, hcell, .inl hr⟩

end DrawnBefore

variable [DecidableEq ι]

/-- Nested loops that write one cell in each round that `draws` names. -/
theorem meets_forRect_overlaid (draws : Nat → Nat → Prop) (view : σ → ι → α)
    {body : Nat → Nat → σ → Except ε σ} {J : σ → Prop} {F : ε → Prop} {rows cols : Nat} {s : σ}
    (h0 : J s)
    (hdraw : ∀ r c s, r < rows → c < cols → J s → draws r c → Meets (body r c s)
      (fun s' => J s' ∧ view s' = Function.update (view s) (place r c) (value r c)) F)
    (hskip : ∀ r c s, r < rows → c < cols → J s → ¬ draws r c → Meets (body r c s)
      (fun s' => J s' ∧ view s' = view s) F) :
    Meets (forRect body rows cols s) (fun s' => J s' ∧
      Overlaid (fun r c => r < rows ∧ c < cols ∧ draws r c) place value (view s) (view s')) F := by
  have hloop : Meets (forRect body rows cols s) (fun s' => J s' ∧
      Overlaid (DrawnBefore draws cols rows 0) place value (view s) (view s')) F := by
    apply meets_forRect_counters (I := fun row col s' => J s' ∧
      Overlaid (DrawnBefore draws cols row col) place value (view s) (view s'))
    · refine ⟨h0, (Overlaid.refl place value (view s)).congr fun r c => ?_⟩
      exact ⟨fun h => h.elim, fun h => (not_drawnBefore_zero h).elim⟩
    · intro row col s' hrow hcol ⟨hJ, hover⟩
      by_cases hdraws : draws row col
      · apply (hdraw row col s' hrow hcol hJ hdraws).imp
        intro s'' ⟨hJ', hview⟩
        refine ⟨hJ', ?_⟩
        rw [hview]
        apply (hover.update fun r c hcell => hcell.2.2).congr
        exact fun r c => (drawnBefore_of_draws hcol hdraws).symm
      · apply (hskip row col s' hrow hcol hJ hdraws).imp
        intro s'' ⟨hJ', hview⟩
        refine ⟨hJ', ?_⟩
        rw [hview]
        exact hover.congr fun r c => (drawnBefore_of_not_draws hdraws).symm
    · intro row s' hrow ⟨hJ, hover⟩
      exact ⟨hJ, hover.congr fun r c => drawnBefore_succ.symm⟩
  apply hloop.imp
  intro s' ⟨hJ, hover⟩
  exact ⟨hJ, hover.congr fun r c => drawnBefore_rows⟩

end Overlay

end Outband.Foundation
