import Mathlib.Logic.Function.Iterate
import Mathlib.Logic.Relation
import Outband.Foundation.Checked

/-!
# Unbounded loops

A loop is given by one round: from a state it faults, goes on with a new state,
or leaves with a result. `run` executes at most a given number of rounds, and
`Returns` says that some number of rounds is enough. Nothing forces a loop to
return: `not_returns` is the rule for a loop that never does.

## Implementation notes

`Visits` collects the states at the head of the loop. Conditions on every round
of one execution are stated over it.
-/

namespace Outband.Foundation.Loop

universe u

variable {ε : Type*} {σ ρ : Type u} {step : σ → Except ε (σ ⊕ ρ)}
variable {s s' s'' : σ} {r r' : Except ε ρ}

/-- At most `n` rounds of the loop; `none` when they are not enough. -/
def run (step : σ → Except ε (σ ⊕ ρ)) : Nat → σ → Option (Except ε ρ)
  | 0, _ => none
  | n + 1, s =>
      match step s with
      | .error e => some (.error e)
      | .ok (.inr out) => some (.ok out)
      | .ok (.inl next) => run step n next

/-- The loop started in `s` ends, with outcome `r`. -/
def Returns (step : σ → Except ε (σ ⊕ ρ)) (s : σ) (r : Except ε ρ) : Prop :=
  ∃ n, run step n s = some r

/-- The loop started in `s` comes to the head of its body in state `s'`. -/
def Visits (step : σ → Except ε (σ ⊕ ρ)) : σ → σ → Prop :=
  Relation.ReflTransGen fun a b => step a = .ok (.inl b)

theorem run_mono {n m : Nat} (hnm : n ≤ m) (h : run step n s = some r) :
    run step m s = some r := by
  induction n generalizing m s with
  | zero => simp [run] at h
  | succ n ih =>
      obtain ⟨k, rfl⟩ : ∃ k, m = k + 1 := ⟨m - 1, by omega⟩
      simp only [run] at h ⊢
      split at h
      · exact h
      · exact h
      · exact ih (by omega) h

/-- A loop has at most one outcome. -/
theorem Returns.unique (h : Returns step s r) (h' : Returns step s r') : r = r' := by
  obtain ⟨n, hn⟩ := h
  obtain ⟨m, hm⟩ := h'
  rcases Nat.le_total n m with hnm | hmn
  · have := run_mono hnm hn
    simpa [hm] using this.symm
  · have := run_mono hmn hm
    simpa [hn] using this

theorem returns_fault {e : ε} (h : step s = .error e) : Returns step s (.error e) :=
  ⟨1, by simp [run, h]⟩

theorem returns_leave {out : ρ} (h : step s = .ok (.inr out)) : Returns step s (.ok out) :=
  ⟨1, by simp [run, h]⟩

theorem returns_round (h : step s = .ok (.inl s')) : Returns step s r ↔ Returns step s' r := by
  constructor
  · rintro ⟨n, hn⟩
    cases n with
    | zero => simp [run] at hn
    | succ n => exact ⟨n, by simpa [run, h] using hn⟩
  · rintro ⟨n, hn⟩
    exact ⟨n + 1, by simpa [run, h] using hn⟩

/-- The first round decides how a loop goes on. -/
theorem returns_congr (h : step s = step s') : Returns step s r ↔ Returns step s' r := by
  refine exists_congr fun n => ?_
  cases n with
  | zero => exact Iff.rfl
  | succ n => rw [run, run, h]

theorem Visits.returns_iff (h : Visits step s s') : Returns step s r ↔ Returns step s' r := by
  induction h with
  | refl => exact Iff.rfl
  | tail _ hstep ih => exact ih.trans (returns_round hstep)

/-- A loop that does not return goes on forever. -/
theorem exists_forever (h : ∀ r, ¬ Returns step s r) :
    ∃ t : Nat → σ, t 0 = s ∧ ∀ n, step (t n) = .ok (.inl (t (n + 1))) := by
  have hround (a : {a // ∀ r, ¬ Returns step a r}) :
      ∃ b : {a // ∀ r, ¬ Returns step a r}, step a.1 = .ok (.inl b.1) := by
    obtain ⟨a, ha⟩ := a
    cases hstep : step a with
    | error e => exact (ha _ (returns_fault hstep)).elim
    | ok out =>
        cases out with
        | inr out => exact (ha _ (returns_leave hstep)).elim
        | inl next => exact ⟨⟨next, fun r hr => ha r ((returns_round hstep).mpr hr)⟩, rfl⟩
  choose next hnext using hround
  refine ⟨fun n => (next^[n] ⟨s, h⟩).1, rfl, fun n => ?_⟩
  dsimp only
  rw [Function.iterate_succ_apply']
  exact hnext _

/-- The last round of a loop that returns. -/
theorem Returns.exists_visit (h : Returns step s r) :
    ∃ s', Visits step s s' ∧
      ((∃ e, step s' = .error e ∧ r = .error e) ∨
        ∃ out, step s' = .ok (.inr out) ∧ r = .ok out) := by
  obtain ⟨n, hn⟩ := h
  induction n generalizing s with
  | zero => simp [run] at hn
  | succ n ih =>
      simp only [run] at hn
      split at hn
      case h_1 e he => exact ⟨s, .refl, .inl ⟨e, he, (Option.some.inj hn).symm⟩⟩
      case h_2 out ho => exact ⟨s, .refl, .inr ⟨out, ho, (Option.some.inj hn).symm⟩⟩
      case h_3 next hnext =>
        obtain ⟨s', hs', hend⟩ := ih hn
        exact ⟨s', .head hnext hs', hend⟩

/-- The states at the head of the first `n` rounds. -/
def heads (step : σ → Except ε (σ ⊕ ρ)) : Nat → σ → List σ
  | 0, _ => []
  | n + 1, s =>
      s :: match step s with
        | .ok (.inl next) => heads step n next
        | _ => []

theorem visits_of_mem_heads {n : Nat} (h : s' ∈ heads step n s) : Visits step s s' := by
  induction n generalizing s with
  | zero => cases h
  | succ n ih =>
      rw [heads, List.mem_cons] at h
      rcases h with rfl | h
      · exact .refl
      · split at h
        case h_1 next hnext => exact .head hnext (ih h)
        case h_2 => cases h

/-- Enough rounds to return are enough to list every visit. -/
theorem Visits.mem_heads {n : Nat} (hrun : run step n s = some r) (h : Visits step s s') :
    s' ∈ heads step n s := by
  induction n generalizing s with
  | zero => simp [run] at hrun
  | succ n ih =>
      rw [heads, List.mem_cons]
      rcases h.cases_head with rfl | ⟨next, hnext, hrest⟩
      · exact .inl rfl
      · simp only [run, hnext] at hrun
        simp only [hnext]
        exact .inr (ih hrun hrest)

/-- An invariant of the round holds at every visit. -/
theorem Visits.invariant {I : σ → Prop} {F : ε → Prop} {Q : ρ → Prop}
    (hstep : ∀ s, I s → Meets (step s) (Sum.elim I Q) F)
    (h : Visits step s s') (hs : I s) : I s' := by
  induction h with
  | refl => exact hs
  | tail _ hab ih => exact (hstep _ ih).of_eq_ok hab

/-- Partial correctness: what every round establishes, the outcome satisfies. -/
theorem Returns.meets {I : σ → Prop} {F : ε → Prop} {Q : ρ → Prop}
    (hstep : ∀ s, I s → Meets (step s) (Sum.elim I Q) F)
    (h : Returns step s r) (hs : I s) : Meets r Q F := by
  obtain ⟨s', hv, hend⟩ := h.exists_visit
  have hinv := hv.invariant hstep hs
  rcases hend with ⟨e, he, rfl⟩ | ⟨out, ho, rfl⟩
  · exact (hstep s' hinv).of_eq_error he
  · exact (hstep s' hinv).of_eq_ok ho

/-- Partial correctness, where a round may rely on being one of the execution. -/
theorem Returns.meets_visits {I : σ → Prop} {F : ε → Prop} {Q : ρ → Prop}
    (hstep : ∀ t, Visits step s t → I t → Meets (step t) (Sum.elim I Q) F)
    (h : Returns step s r) (hs : I s) : Meets r Q F := by
  apply h.meets (I := fun t => Visits step s t ∧ I t) _ ⟨.refl, hs⟩
  rintro t ⟨hvisits, hinv⟩
  have hround := hstep t hvisits hinv
  cases hout : step t with
  | error e => exact hround.of_eq_error hout
  | ok out =>
      have hnext := hround.of_eq_ok hout
      cases out with
      | inl t' => exact ⟨hvisits.tail hout, hnext⟩
      | inr out => exact hnext

/-- Two loops whose rounds stay related end alike. -/
theorem Returns.lockstep {ε' : Type*} {τ ρ' : Type u} {step' : τ → Except ε' (τ ⊕ ρ')} {t : τ}
    {R : σ → τ → Prop} {F : ε → ε' → Prop} {Q : ρ → ρ' → Prop}
    (hstep : ∀ s t, R s t → Alike F (Sum.LiftRel R Q) (step s) (step' t))
    (h : Returns step s r) (hst : R s t) : ∃ r', Returns step' t r' ∧ Alike F Q r r' := by
  obtain ⟨n, hn⟩ := h
  induction n generalizing s t with
  | zero => simp [run] at hn
  | succ n ih =>
      have hround := hstep s t hst
      simp only [run] at hn
      split at hn
      case h_1 e he =>
        cases hn
        rw [he] at hround
        obtain ⟨e', he', hF⟩ := hround.exists_error
        exact ⟨_, returns_fault he', hF⟩
      case h_2 out ho =>
        cases hn
        rw [ho] at hround
        obtain ⟨x, hx, hrel⟩ := hround.exists_ok
        cases hrel with
        | inr hQ => exact ⟨_, returns_leave hx, hQ⟩
      case h_3 next hnext =>
        rw [hnext] at hround
        obtain ⟨x, hx, hrel⟩ := hround.exists_ok
        cases hrel with
        | inl hR =>
            obtain ⟨r', hr', halike⟩ := ih hR hn
            exact ⟨r', (returns_round hx).mpr hr', halike⟩

/-- Termination: a measure that every further round decreases. -/
theorem exists_returns {I : σ → Prop} (m : σ → Nat)
    (hstep : ∀ s, I s → Meets (step s)
      (Sum.elim (fun s' => I s' ∧ m s' < m s) fun _ => True) fun _ => True)
    (hs : I s) : ∃ r, Returns step s r := by
  induction hm : m s using Nat.strongRecOn generalizing s with
  | _ k ih =>
      have hround := hstep s hs
      cases hstep' : step s with
      | error e => exact ⟨_, returns_fault hstep'⟩
      | ok out =>
          cases out with
          | inr out => exact ⟨_, returns_leave hstep'⟩
          | inl next =>
              obtain ⟨hinv, hlt⟩ := hround.of_eq_ok hstep'
              obtain ⟨r, hr⟩ := ih (m next) (hm ▸ hlt) hinv rfl
              exact ⟨r, (returns_round hstep').mpr hr⟩

/-- The measure is enough fuel. -/
theorem run_isSome (m : σ → Nat) (hm : ∀ s s', step s = .ok (.inl s') → m s' < m s) (s : σ) :
    (run step (m s + 1) s).isSome := by
  have hfuel : ∀ n s, m s < n → (run step n s).isSome := by
    intro n
    induction n with
    | zero => intro s hs; omega
    | succ n ih =>
        intro s hs
        unfold run
        split
        · rfl
        · rfl
        · rename_i next hnext
          exact ih next (by have := hm s next hnext; omega)
  exact hfuel _ s (Nat.lt_succ_self _)

/-- A loop whose every round goes on, along some invariant, never returns. -/
theorem not_returns {I : σ → Prop}
    (hstep : ∀ s, I s → ∃ s', step s = .ok (.inl s') ∧ I s') (hs : I s) :
    ¬ Returns step s r := by
  rintro ⟨n, hn⟩
  induction n generalizing s with
  | zero => simp [run] at hn
  | succ n ih =>
      obtain ⟨s', hs', hinv⟩ := hstep s hs
      exact ih hinv (by simpa [run, hs'] using hn)

end Outband.Foundation.Loop
