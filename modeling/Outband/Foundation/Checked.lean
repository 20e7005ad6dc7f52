import Mathlib.Logic.Function.Basic
import Mathlib.Data.List.Basic

/-!
# Computations that may stop with a run-time fault

A computation in `Except ε` either ends in a value or stops at a fault of
type `ε`. `Meets x P F` says what it may end in: every value satisfies `P` and
every fault satisfies `F`. The rules follow the shape of the program, so a
specification of a function is assembled from the specifications of the
functions it calls.
-/

namespace Outband.Foundation

universe u

variable {ε : Type*} {α β σ : Type u}

/-- Values of `x` satisfy `P` and faults of `x` satisfy `F`. -/
def Meets (x : Except ε α) (P : α → Prop) (F : ε → Prop) : Prop :=
  match x with
  | .ok a => P a
  | .error e => F e

namespace Meets

variable {x : Except ε α} {f : α → Except ε β} {P P' : α → Prop} {Q : β → Prop}
variable {F F' : ε → Prop}

@[simp] theorem ok_iff {a : α} : Meets (.ok a : Except ε α) P F ↔ P a := Iff.rfl

@[simp] theorem error_iff {e : ε} : Meets (.error e : Except ε α) P F ↔ F e := Iff.rfl

@[simp] theorem pure_iff {a : α} : Meets (pure a : Except ε α) P F ↔ P a := Iff.rfl

@[simp] theorem throw_iff {e : ε} : Meets (throw e : Except ε α) P F ↔ F e := Iff.rfl

theorem mono (h : Meets x P F) (hP : ∀ a, P a → P' a) (hF : ∀ e, F e → F' e) :
    Meets x P' F' := by
  cases x with
  | ok a => exact hP a h
  | error e => exact hF e h

theorem imp (h : Meets x P F) (hP : ∀ a, P a → P' a) : Meets x P' F :=
  h.mono hP fun _ he => he

theorem and (h : Meets x P F) (h' : Meets x P' F) : Meets x (fun a => P a ∧ P' a) F := by
  cases x with
  | ok a => exact ⟨h, h'⟩
  | error e => exact h

/-- Sequencing: the continuation is only asked about values the first part can give. -/
theorem bind (h : Meets x P F) (hf : ∀ a, P a → Meets (f a) Q F) :
    Meets (x >>= f) Q F := by
  cases x with
  | ok a => exact hf a h
  | error e => exact h

/-- Sequencing, where the continuation knows which value the first part gave. -/
theorem bind_of_eq (h : Meets x P F) (hf : ∀ a, x = .ok a → Meets (f a) Q F) :
    Meets (x >>= f) Q F := by
  cases x with
  | ok a => exact hf a rfl
  | error e => exact h

theorem map {g : α → β} (h : Meets x P F) (hg : ∀ a, P a → Q (g a)) : Meets (x.map g) Q F := by
  cases x with
  | ok a => exact hg a h
  | error e => exact h

theorem trivial (x : Except ε α) : Meets x (fun _ => True) fun _ => True := by
  cases x with
  | ok a => exact True.intro
  | error e => exact True.intro

/-- What holds of the values whatever the faults, and what holds of the faults. -/
theorem combine {R : α → Prop} (h : Meets x P fun _ => True) (h' : Meets x R F) :
    Meets x P F := by
  cases x with
  | ok a => exact h
  | error e => exact h'

/-- A value that breaks the postcondition. -/
theorem exists_of_not (h : ¬ Meets x P fun _ => True) : ∃ a, x = .ok a ∧ ¬ P a := by
  cases x with
  | ok a => exact ⟨a, rfl, h⟩
  | error e => exact (h True.intro).elim

theorem of_eq_ok {a : α} (h : Meets x P F) (hx : x = .ok a) : P a := by
  subst hx
  exact h

theorem of_eq_error {e : ε} (h : Meets x P F) (hx : x = .error e) : F e := by
  subst hx
  exact h

/-- A computation whose faults are excluded ends in a value. -/
theorem exists_ok (h : Meets x P fun _ => False) : ∃ a, x = .ok a ∧ P a := by
  cases x with
  | ok a => exact ⟨a, rfl, h⟩
  | error e => exact h.elim

/-- A computation whose values are excluded stops at a fault. -/
theorem exists_error (h : Meets x (fun _ => False) F) : ∃ e, x = .error e ∧ F e := by
  cases x with
  | ok a => exact h.elim
  | error e => exact ⟨e, rfl, h⟩

/-- What a computation with fuel ends in, when that is a value. -/
theorem exists_some_ok {r : Option (Except ε α)} (h : ∃ x ∈ r, Meets x P fun _ => False) :
    ∃ a, r = some (.ok a) ∧ P a := by
  obtain ⟨x, hx, hmeets⟩ := h
  obtain ⟨a, rfl, ha⟩ := hmeets.exists_ok
  exact ⟨a, hx, ha⟩

/-- The outcome of a computation can be tested. -/
instance instDecidable [DecidablePred P] [DecidablePred F] : Decidable (Meets x P F) :=
  match x with
  | .ok a => inferInstanceAs (Decidable (P a))
  | .error e => inferInstanceAs (Decidable (F e))

end Meets

section Inversion
variable {x : Except ε α}

theorem exists_of_bind_ok {f : α → Except ε β} {b : β} (h : x >>= f = .ok b) :
    ∃ a, x = .ok a ∧ f a = .ok b := by
  cases x with
  | ok a => exact ⟨a, rfl, h⟩
  | error e => cases h

theorem exists_of_map_ok {f : α → β} {b : β} (h : x.map f = .ok b) :
    ∃ a, x = .ok a ∧ f a = b := by
  cases x with
  | ok a => exact ⟨a, rfl, Except.ok.inj h⟩
  | error e => cases h

theorem of_mapError_ok {δ : Type*} {f : ε → δ} {a : α} (h : x.mapError f = .ok a) :
    x = .ok a := by
  cases x with
  | ok a' => exact congrArg _ (Except.ok.inj h)
  | error e => cases h

/-- A test that a computation ends in a value with a property. -/
theorem exists_ok_of_any {P : α → Prop} [DecidablePred P]
    (h : (x.toOption.any fun a => decide (P a)) = true) : ∃ a, x = .ok a ∧ P a := by
  cases x with
  | ok a => exact ⟨a, rfl, of_decide_eq_true h⟩
  | error e => cases h

end Inversion

/-- A computation that always stops at a fault. -/
def Faults (x : Except ε α) : Prop := ∃ e, x = .error e

theorem Faults.bind {x : Except ε α} (h : Faults x) (f : α → Except ε β) :
    Faults (x >>= f) := by
  obtain ⟨e, rfl⟩ := h
  exact ⟨e, rfl⟩

/-- The first part may end well, and then the continuation faults. -/
theorem Faults.bind_right {x : Except ε α} {f : α → Except ε β}
    (h : ∀ a, x = .ok a → Faults (f a)) : Faults (x >>= f) := by
  cases x with
  | ok a => exact h a rfl
  | error e => exact ⟨e, rfl⟩

/-- Two computations end alike: both in related values, or both at related faults. -/
def Alike {ε' : Type*} {α' : Type*} (F : ε → ε' → Prop) (P : α → α' → Prop) :
    Except ε α → Except ε' α' → Prop
  | .ok a, .ok a' => P a a'
  | .error e, .error e' => F e e'
  | _, _ => False

namespace Alike

variable {ε' : Type*} {α' : Type*} {F : ε → ε' → Prop} {P : α → α' → Prop}
variable {y : Except ε' α'}

@[simp] theorem ok_iff {a : α} {a' : α'} : Alike F P (.ok a) (.ok a') ↔ P a a' := Iff.rfl

@[simp] theorem error_iff {e : ε} {e' : ε'} : Alike F P (.error e) (.error e') ↔ F e e' := Iff.rfl

theorem exists_ok {a : α} (h : Alike F P (.ok a) y) : ∃ a', y = .ok a' ∧ P a a' := by
  cases y with
  | ok a' => exact ⟨a', rfl, h⟩
  | error e' => exact h.elim

theorem exists_error {e : ε} (h : Alike F P (.error e) y) : ∃ e', y = .error e' ∧ F e e' := by
  cases y with
  | ok a' => exact h.elim
  | error e' => exact ⟨e', rfl, h⟩

theorem imp {x : Except ε α} {P' : α → α' → Prop} (h : Alike F P x y)
    (hP : ∀ a a', P a a' → P' a a') : Alike F P' x y := by
  cases x with
  | ok a =>
      obtain ⟨a', rfl, ha⟩ := h.exists_ok
      exact hP a a' ha
  | error e =>
      obtain ⟨e', rfl, hF⟩ := h.exists_error
      exact hF

theorem bind {x : Except ε α} {β' : Type*} {Q : β → β' → Prop} {f : α → Except ε β}
    {g : α' → Except ε' β'} (h : Alike F P x y)
    (hfg : ∀ a a', P a a' → Alike F Q (f a) (g a')) :
    Alike F Q (x.bind f) (y.bind g) := by
  cases x with
  | ok a =>
      obtain ⟨a', rfl, hP⟩ := h.exists_ok
      exact hfg a a' hP
  | error e =>
      obtain ⟨e', rfl, hF⟩ := h.exists_error
      exact hF

theorem map {x : Except ε α} {β' : Type*} {Q : β → β' → Prop} {f : α → β} {g : α' → β'}
    (h : Alike F P x y) (hfg : ∀ a a', P a a' → Q (f a) (g a')) :
    Alike F Q (x.map f) (y.map g) := by
  cases x with
  | ok a =>
      obtain ⟨a', rfl, hP⟩ := h.exists_ok
      exact hfg a a' hP
  | error e =>
      obtain ⟨e', rfl, hF⟩ := h.exists_error
      exact hF

theorem mapError {x : Except ε α} {δ δ' : Type*} {G : δ → δ' → Prop} {f : ε → δ} {g : ε' → δ'}
    (h : Alike F P x y) (hfg : ∀ e e', F e e' → G (f e) (g e')) :
    Alike G P (x.mapError f) (y.mapError g) := by
  cases x with
  | ok a =>
      obtain ⟨a', rfl, hP⟩ := h.exists_ok
      exact hP
  | error e =>
      obtain ⟨e', rfl, hF⟩ := h.exists_error
      exact hfg e e' hF

end Alike

/-! ### Checked memory -/

/-- Read cell `i` of an array of `n` cells; an index past the end is the fault `e`. -/
def rd {n : Nat} (e : ε) (m : Fin n → α) (i : Nat) : Except ε α :=
  if h : i < n then .ok (m ⟨i, h⟩) else .error e

/-- Write cell `i` of an array of `n` cells; an index past the end is the fault `e`. -/
def wr {n : Nat} (e : ε) (m : Fin n → α) (i : Nat) (a : α) : Except ε (Fin n → α) :=
  if h : i < n then .ok (Function.update m ⟨i, h⟩ a) else .error e

/-- Read cell `i` of a slice; an index past the end is the fault `e`. -/
def rdSlice (e : ε) (m : List α) (i : Nat) : Except ε α :=
  match m[i]? with
  | some a => .ok a
  | none => .error e

/-- Write cell `i` of a slice; an index past the end is the fault `e`. -/
def wrSlice (e : ε) (m : List α) (i : Nat) (a : α) : Except ε (List α) :=
  if i < m.length then .ok (m.set i a) else .error e

section Memory
variable {n i : Nat} {e : ε} {m : Fin n → α} {l : List α} {a : α}

theorem rd_ok (h : i < n) : rd e m i = .ok (m ⟨i, h⟩) := dif_pos h

theorem rd_error (h : n ≤ i) : rd e m i = .error e := dif_neg (Nat.not_lt.mpr h)

theorem wr_ok (h : i < n) : wr e m i a = .ok (Function.update m ⟨i, h⟩ a) := dif_pos h

theorem wr_error (h : n ≤ i) : wr e m i a = .error e := dif_neg (Nat.not_lt.mpr h)

theorem rdSlice_ok (h : i < l.length) : rdSlice e l i = .ok l[i] := by
  simp [rdSlice, List.getElem?_eq_getElem h]

theorem rdSlice_error (h : l.length ≤ i) : rdSlice e l i = .error e := by
  simp [rdSlice, List.getElem?_eq_none h]

theorem wrSlice_ok (h : i < l.length) : wrSlice e l i a = .ok (l.set i a) := if_pos h

theorem wrSlice_error (h : l.length ≤ i) : wrSlice e l i a = .error e :=
  if_neg (Nat.not_lt.mpr h)

theorem length_of_wrSlice {l' : List α} (h : wrSlice e l i a = .ok l') :
    l'.length = l.length := by
  unfold wrSlice at h
  split_ifs at h
  cases h
  exact List.length_set

variable {P : α → Prop} {F : ε → Prop}

theorem meets_wrSlice_length (e : ε) (l : List α) (i : Nat) (a : α) :
    Meets (wrSlice e l i a) (fun l' => l'.length = l.length) fun _ => True := by
  unfold wrSlice
  split_ifs
  · exact List.length_set
  · exact True.intro

theorem meets_rd (h : i < n) (hP : P (m ⟨i, h⟩)) : Meets (rd e m i) P F := by
  rw [rd_ok h]
  exact hP

theorem meets_wr {P : (Fin n → α) → Prop} (h : i < n)
    (hP : P (Function.update m ⟨i, h⟩ a)) : Meets (wr e m i a) P F := by
  rw [wr_ok h]
  exact hP

theorem meets_rd_site (he : F e) : Meets (rd e m i) (fun _ => True) F := by
  unfold rd
  split_ifs
  · exact True.intro
  · exact he

theorem meets_wr_site (he : F e) : Meets (wr e m i a) (fun _ => True) F := by
  unfold wr
  split_ifs
  · exact True.intro
  · exact he

theorem meets_rdSlice_site (he : F e) : Meets (rdSlice e l i) (fun _ => True) F := by
  unfold rdSlice
  split
  · exact True.intro
  · exact he

theorem meets_wrSlice_site (he : F e) : Meets (wrSlice e l i a) (fun _ => True) F := by
  unfold wrSlice
  split_ifs
  · exact True.intro
  · exact he

end Memory

/-! ### Counted loops -/

/-- The loop `for i := start; i < start + n; i++`, threading a state through its body. -/
def forUp (body : Nat → σ → Except ε σ) : Nat → Nat → σ → Except ε σ
  | _, 0, s => .ok s
  | i, n + 1, s => body i s >>= forUp body (i + 1) n

@[simp] theorem forUp_zero (body : Nat → σ → Except ε σ) (i : Nat) (s : σ) :
    forUp body i 0 s = .ok s := rfl

theorem forUp_succ (body : Nat → σ → Except ε σ) (i n : Nat) (s : σ) :
    forUp body i (n + 1) s = body i s >>= forUp body (i + 1) n := rfl

/-- A loop in two parts. -/
theorem forUp_add (body : Nat → σ → Except ε σ) (i n m : Nat) (s : σ) :
    forUp body i (n + m) s = forUp body i n s >>= forUp body (i + n) m := by
  induction n generalizing i s with
  | zero =>
      rw [Nat.zero_add]
      rfl
  | succ n ih =>
      rw [show n + 1 + m = n + m + 1 by omega, forUp_succ, forUp_succ]
      cases body i s with
      | error e => rfl
      | ok s' =>
          change forUp body (i + 1) (n + m) s' = forUp body (i + 1) n s' >>= _
          rw [ih, show i + 1 + n = i + (n + 1) by omega]

/-- The last round of a loop whose rounds before it have ended in `s'`. -/
theorem forUp_snoc {body : Nat → σ → Except ε σ} {i n : Nat} {s s' : σ}
    (h : forUp body i n s = .ok s') : forUp body i (n + 1) s = body (i + n) s' := by
  rw [forUp_add, h]
  change (body (i + n) s' >>= fun s => .ok s) = _
  cases body (i + n) s' <;> rfl

/-- The invariant rule: `I i` holds whenever the counter is about to take the value `i`. -/
theorem meets_forUp {body : Nat → σ → Except ε σ} {I : Nat → σ → Prop} {F : ε → Prop}
    {start n : Nat} {s : σ} (h0 : I start s)
    (hstep : ∀ i s, start ≤ i → i < start + n → I i s → Meets (body i s) (I (i + 1)) F) :
    Meets (forUp body start n s) (I (start + n)) F := by
  induction n generalizing start s with
  | zero => exact h0
  | succ n ih =>
      rw [forUp_succ]
      apply (hstep start s (Nat.le_refl _) (by omega) h0).bind
      intro s' hs'
      have := ih hs' fun i s hi hlt => hstep i s (by omega) (by omega)
      rwa [show start + 1 + n = start + (n + 1) by omega] at this

/-- A loop faults once some round faults from every state the invariant allows there. -/
theorem faults_forUp {body : Nat → σ → Except ε σ} {I : Nat → σ → Prop}
    {start n k : Nat} {s : σ} (h0 : I start s) (hk : start ≤ k) (hkn : k < start + n)
    (hstep : ∀ i s, start ≤ i → i < k → I i s → Meets (body i s) (I (i + 1)) fun _ => True)
    (hbad : ∀ s, I k s → Faults (body k s)) :
    Faults (forUp body start n s) := by
  induction n generalizing start s with
  | zero => omega
  | succ n ih =>
      rw [forUp_succ]
      by_cases hks : k = start
      · subst hks
        exact (hbad s h0).bind _
      · apply Faults.bind_right
        intro s' hs'
        have hinv := (hstep start s (Nat.le_refl _) (by omega) h0).of_eq_ok hs'
        exact ih hinv (by omega) (by omega) fun i s hi hlt => hstep i s (by omega) hlt

/-- Forgetting something about the faults of the rounds forgets it about those of the loop. -/
theorem mapError_forUp {δ : Type*} {body : Nat → σ → Except δ σ} {body' : Nat → σ → Except ε σ}
    {g : δ → ε} (hbody : ∀ i s, (body i s).mapError g = body' i s) (i n : Nat) (s : σ) :
    (forUp body i n s).mapError g = forUp body' i n s := by
  induction n generalizing i s with
  | zero => rfl
  | succ n ih =>
      rw [forUp_succ, forUp_succ, ← hbody]
      cases body i s with
      | error e => rfl
      | ok s' => exact ih (i + 1) s'

/-- Two nested counted loops: `rows` rounds of `cols` rounds each. -/
def forRect (body : Nat → Nat → σ → Except ε σ) (rows cols : Nat) : σ → Except ε σ :=
  forUp (fun r => forUp (body r) 0 cols) 0 rows

/-- The invariant rule for nested loops: `I r c` holds whenever the counters are about to
take the values `r` and `c`. -/
theorem meets_forRect_counters {body : Nat → Nat → σ → Except ε σ} {I : Nat → Nat → σ → Prop}
    {F : ε → Prop} {rows cols : Nat} {s : σ} (h0 : I 0 0 s)
    (hstep : ∀ r c s, r < rows → c < cols → I r c s → Meets (body r c s) (I r (c + 1)) F)
    (hrow : ∀ r s, r < rows → I r cols s → I (r + 1) 0 s) :
    Meets (forRect body rows cols s) (I rows 0) F := by
  have hrows : Meets (forRect body rows cols s) (I (0 + rows) 0) F := by
    apply meets_forUp (I := fun r => I r 0) h0
    intro r s _ hr hs
    have hcols : Meets (forUp (body r) 0 cols s) (I r (0 + cols)) F := by
      apply meets_forUp (I := I r) hs
      intro c s _ hc hs
      exact hstep r c s (by omega) (by omega) hs
    apply hcols.imp
    intro s' hs'
    rw [Nat.zero_add] at hs'
    exact hrow r s' (by omega) hs'
  rwa [Nat.zero_add] at hrows

/-- Two counted loops in step: `R i` relates their states whenever the counters take the
value `i`. -/
theorem alike_forUp {ε' : Type*} {τ : Type u} {body : Nat → σ → Except ε σ}
    {body' : Nat → τ → Except ε' τ} {R : Nat → σ → τ → Prop} {F : ε → ε' → Prop} {start n : Nat}
    {s : σ} {t : τ} (h0 : R start s t)
    (hstep : ∀ i s t, start ≤ i → i < start + n → R i s t →
      Alike F (R (i + 1)) (body i s) (body' i t)) :
    Alike F (R (start + n)) (forUp body start n s) (forUp body' start n t) := by
  induction n generalizing start s t with
  | zero => exact h0
  | succ n ih =>
      rw [forUp_succ, forUp_succ]
      apply (hstep start s t (Nat.le_refl _) (by omega) h0).bind
      intro s' t' hs'
      have := ih hs' fun i s t hi hlt => hstep i s t (by omega) (by omega)
      rwa [show start + 1 + n = start + (n + 1) by omega] at this

/-- Two nested loops in step. -/
theorem alike_forRect {ε' : Type*} {τ : Type u} {body : Nat → Nat → σ → Except ε σ}
    {body' : Nat → Nat → τ → Except ε' τ} {R : Nat → Nat → σ → τ → Prop} {F : ε → ε' → Prop}
    {rows cols : Nat} {s : σ} {t : τ} (h0 : R 0 0 s t)
    (hstep : ∀ r c s t, r < rows → c < cols → R r c s t →
      Alike F (R r (c + 1)) (body r c s) (body' r c t))
    (hrow : ∀ r s t, r < rows → R r cols s t → R (r + 1) 0 s t) :
    Alike F (R rows 0) (forRect body rows cols s) (forRect body' rows cols t) := by
  have hrows : Alike F (R (0 + rows) 0) (forRect body rows cols s) (forRect body' rows cols t) := by
    apply alike_forUp (R := fun r => R r 0) h0
    intro r s t _ hr hs
    have hcols : Alike F (R r (0 + cols)) (forUp (body r) 0 cols s) (forUp (body' r) 0 cols t) := by
      apply alike_forUp (R := R r) hs
      intro c s t _ hc hs
      exact hstep r c s t (by omega) (by omega) hs
    apply hcols.imp
    intro s' t' hs'
    rw [Nat.zero_add] at hs'
    exact hrow r s' t' (by omega) hs'
  rwa [Nat.zero_add] at hrows

/-- What every inner round preserves, the nested loops preserve. -/
theorem meets_forRect {body : Nat → Nat → σ → Except ε σ} {I : σ → Prop} {F : ε → Prop}
    {rows cols : Nat} {s : σ} (h0 : I s)
    (hstep : ∀ r c s, r < rows → c < cols → I s → Meets (body r c s) I F) :
    Meets (forRect body rows cols s) I F :=
  meets_forRect_counters (I := fun _ _ => I) h0 hstep fun _ _ _ hs => hs

/-- The nested loops fault when their last round does. -/
theorem faults_forRect {body : Nat → Nat → σ → Except ε σ} {I : σ → Prop}
    {rows cols : Nat} {s : σ} (h0 : I s) (hrows : 0 < rows) (hcols : 0 < cols)
    (hstep : ∀ r c s, I s → Meets (body r c s) I fun _ => True)
    (hlast : ∀ s, I s → Faults (body (rows - 1) (cols - 1) s)) :
    Faults (forRect body rows cols s) := by
  apply faults_forUp (I := fun _ => I) (k := rows - 1) h0 (Nat.zero_le _) (by omega)
  · intro r s _ _ hs
    apply meets_forUp (I := fun _ => I) hs
    intro c s _ _ hs
    exact hstep r c s hs
  · intro s hs
    apply faults_forUp (I := fun _ => I) (k := cols - 1) hs (Nat.zero_le _) (by omega)
    · intro c s _ _ hs
      exact hstep (rows - 1) c s hs
    · exact hlast

/-- A loop that rewrites each cell below `n` from its own contents. -/
theorem forUp_cells {N n : Nat} {body : Nat → (Fin N → α) → Except ε (Fin N → α)} {g : α → α}
    (hn : n ≤ N) (hbody : ∀ (i : Fin N) m, body i m = .ok (Function.update m i (g (m i))))
    (m : Fin N → α) :
    forUp body 0 n m = .ok fun i => if i.val < n then g (m i) else m i := by
  have hloop : Meets (forUp body 0 n m)
      (fun m' => m' = fun i => if i.val < 0 + n then g (m i) else m i) fun _ => False := by
    apply meets_forUp (I := fun k m' => m' = fun i => if i.val < k then g (m i) else m i)
    · simp
    · rintro k m' - hk rfl
      rw [hbody ⟨k, by omega⟩]
      simp only [Meets.ok_iff]
      funext i
      by_cases hi : i = ⟨k, by omega⟩
      · subst hi
        simp
      · have hne : i.val ≠ k := fun h => hi (Fin.ext h)
        rw [Function.update_of_ne hi]
        simp only [show i.val < k + 1 ↔ i.val < k by omega]
  obtain ⟨m', hm', rfl⟩ := hloop.exists_ok
  simpa using hm'

end Outband.Foundation
