import Outband.Foundation.History

/-!
# Dialogues

A dialogue puts one question after the other to its surroundings and goes on with whatever answer
it gets. `Reaches` says what is left of it after some exchanges. A run need not come to its end:
`Keeps` is a condition on every question in the light of the exchanges before it, and on the
result. Its rules follow the way in which a dialogue is written, and `Keeps.sound` brings it to
the runs. `Served` is a run to its end against a system that goes on while it is asked.

## Implementation notes

`implement` answers the questions of one dialogue by dialogues of another kind, which share a
state. `reaches_implement` takes every run of the whole apart, into a run of the upper dialogue
and one run of the implementation for each of its exchanges.
-/

namespace Outband.Foundation

/-- A computation that asks questions of type `Q` and goes on with any answer of type `R`. -/
inductive Dialogue (Q R α : Type) where
  | done (a : α)
  | ask (q : Q) (next : R → Dialogue Q R α)

namespace Dialogue

variable {Q R Q' R' σ α β : Type} {d d' : Dialogue Q R α} {log log' more : List (Q × R)}

def bind : Dialogue Q R α → (α → Dialogue Q R β) → Dialogue Q R β
  | done a, f => f a
  | ask q next, f => ask q fun r => (next r).bind f

instance : Monad (Dialogue Q R) where
  pure := done
  bind := bind

theorem done_bind (a : α) (f : α → Dialogue Q R β) : (done a >>= f) = f a := rfl

/-- After these exchanges `d'` is left of `d`. -/
inductive Reaches : Dialogue Q R α → List (Q × R) → Dialogue Q R α → Prop
  | refl (d : Dialogue Q R α) : Reaches d [] d
  | ask {q : Q} {r : R} {next : R → Dialogue Q R α} {log : List (Q × R)} {d' : Dialogue Q R α}
      (h : Reaches (next r) log d') : Reaches (.ask q next) ((q, r) :: log) d'

/-- A run stops over after any of its exchanges. -/
theorem Reaches.split {first rest : List (Q × R)} (h : Reaches d (first ++ rest) d') :
    ∃ d₁, Reaches d first d₁ ∧ Reaches d₁ rest d' := by
  induction first generalizing d with
  | nil => exact ⟨d, .refl d, h⟩
  | cons ex first ih =>
      cases h with
      | ask hnext =>
          obtain ⟨d₁, hfirst, hrest⟩ := ih hnext
          exact ⟨d₁, .ask hfirst, hrest⟩

/-- The run on given answers, as far as they last. -/
def replay : List R → Dialogue Q R α → List (Q × R) × Dialogue Q R α
  | [], d => ([], d)
  | _ :: _, done a => ([], done a)
  | r :: answers, ask q next =>
      let out := replay answers (next r)
      ((q, r) :: out.1, out.2)

theorem reaches_replay (answers : List R) (d : Dialogue Q R α) :
    Reaches d (replay answers d).1 (replay answers d).2 := by
  induction answers generalizing d with
  | nil => exact .refl d
  | cons r answers ih =>
      cases d with
      | done a => exact .refl _
      | ask q next => exact .ask (ih (next r))

/-- The result of a dialogue that is over. -/
def result : Dialogue Q R α → Option α
  | done a => some a
  | ask _ _ => none

theorem eq_done_of_result {a : α} (h : d.result = some a) : d = done a := by
  cases d with
  | done b => exact congrArg done (Option.some.inj h)
  | ask q next => cases h

/-! ### Conditions on questions and results -/

variable {allowed allowed' : List (Q × R) → Q → Prop} {post post' : List (Q × R) → α → Prop}

/-- Every question is allowed after the exchanges before it, which begin with `log`, and the result
meets `post`. -/
def Keeps (allowed : List (Q × R) → Q → Prop) (post : List (Q × R) → α → Prop) :
    List (Q × R) → Dialogue Q R α → Prop
  | log, done a => post log a
  | log, ask q next => allowed log q ∧ ∀ r, Keeps allowed post (log ++ [(q, r)]) (next r)

theorem Keeps.pure {a : α} (h : post log a) : Keeps allowed post log (pure a) := h

theorem Keeps.mono (h : Keeps allowed post log d)
    (hpost : ∀ more a, post (log ++ more) a → post' (log ++ more) a) :
    Keeps allowed post' log d := by
  induction d generalizing log with
  | done a => simpa [Keeps] using hpost [] a (by simpa [Keeps] using h)
  | ask q next ih =>
      refine ⟨h.1, fun r => ih r (h.2 r) ?_⟩
      intro more a hmore
      rw [List.append_assoc] at hmore ⊢
      exact hpost _ a hmore

theorem Keeps.imp (h : Keeps allowed post log d)
    (hallowed : ∀ log q, allowed log q → allowed' log q) : Keeps allowed' post log d := by
  induction d generalizing log with
  | done a => exact h
  | ask q next ih => exact ⟨hallowed log q h.1, fun r => ih r (h.2 r)⟩

theorem Keeps.bind {f : α → Dialogue Q R β} {post' : List (Q × R) → β → Prop}
    (h : Keeps allowed post log d)
    (hf : ∀ more a, post (log ++ more) a → Keeps allowed post' (log ++ more) (f a)) :
    Keeps allowed post' log (d >>= f) := by
  induction d generalizing log with
  | done a => simpa [done_bind] using hf [] a (by simpa [Keeps] using h)
  | ask q next ih =>
      refine ⟨h.1, fun r => ih r (h.2 r) ?_⟩
      intro more a hmore
      rw [List.append_assoc] at hmore ⊢
      exact hf _ a hmore

/-- What is left of a dialogue keeps the condition. -/
theorem Keeps.reaches (h : Keeps allowed post log d) (hd : Reaches d more d') :
    Keeps allowed post (log ++ more) d' := by
  induction hd generalizing log with
  | refl d => rwa [List.append_nil]
  | ask hd ih =>
      have hnext := ih (h.2 _)
      rwa [List.append_assoc, List.singleton_append] at hnext

/-- The condition holds of every question of a run and of its result. -/
theorem Keeps.sound (h : Keeps allowed post [] d) (hd : Reaches d log d') :
    Grounded (fun before ex => allowed before ex.1) log ∧
      (∀ q next, d' = .ask q next → allowed log q) ∧ ∀ a, d' = .done a → post log a := by
  refine ⟨?_, ?_, ?_⟩
  · rintro before ⟨q, r⟩ after rfl
    obtain ⟨d₁, hfirst, hrest⟩ := hd.split
    have hd₁ := h.reaches hfirst
    cases hrest with
    | ask hnext => exact hd₁.1
  · rintro q next rfl
    exact (h.reaches hd).1
  · rintro a rfl
    exact h.reaches hd

/-! ### Runs against a system -/

section

variable {moves : σ → σ → Prop} {answers : σ → Q → R → Prop} {s s' : σ} {a : α}

/-- A run to its end, each of whose questions is answered in a state that the system has come to
meanwhile. -/
inductive Served (moves : σ → σ → Prop) (answers : σ → Q → R → Prop) :
    Dialogue Q R α → σ → α → σ → Prop
  | done (a : α) (s : σ) : Served moves answers (.done a) s a s
  | ask {q : Q} {r : R} {next : R → Dialogue Q R α} {s s₁ s' : σ} {a : α} (hmoves : moves s s₁)
      (hanswer : answers s₁ q r) (h : Served moves answers (next r) s₁ a s') :
      Served moves answers (.ask q next) s a s'

theorem moves_of_served (hrefl : ∀ s, moves s s) (htrans : ∀ s₁ s₂ s₃, moves s₁ s₂ → moves s₂ s₃ →
    moves s₁ s₃) (h : Served moves answers d s a s') : moves s s' := by
  induction h with
  | done a s => exact hrefl s
  | ask hmoves _ _ ih => exact htrans _ _ _ hmoves ih

theorem served_done (a b : α) (h : Served moves answers (.done a) s b s') : b = a ∧ s' = s := by
  cases h
  exact ⟨rfl, rfl⟩

theorem served_bind {f : α → Dialogue Q R β} {b : β}
    (h : Served moves answers (d >>= f) s b s') :
    ∃ a s₁, Served moves answers d s a s₁ ∧ Served moves answers (f a) s₁ b s' := by
  induction d generalizing s with
  | done a => exact ⟨a, s, .done a s, h⟩
  | ask q next ih =>
      cases h with
      | ask hmoves hanswer hnext =>
          obtain ⟨a, s₁, hd, hf⟩ := ih _ hnext
          exact ⟨a, s₁, .ask hmoves hanswer hd, hf⟩

/-- A question, and what follows on its answer. -/
theorem served_ask {q : Q} {f : R → Dialogue Q R β} {b : β}
    (h : Served moves answers (.ask q .done >>= f) s b s') :
    ∃ r s₁, moves s s₁ ∧ answers s₁ q r ∧ Served moves answers (f r) s₁ b s' := by
  cases h with
  | ask hmoves hanswer hnext => exact ⟨_, _, hmoves, hanswer, hnext⟩

/-- The run against a system that does not move. -/
def serve (answer : Q → R) : Dialogue Q R α → α
  | done a => a
  | ask q next => serve answer (next (answer q))

theorem served_serve {answer : Q → R} (hmoves : moves s s) (hanswer : ∀ q, answers s q (answer q))
    (d : Dialogue Q R α) : Served moves answers d s (d.serve answer) s := by
  induction d with
  | done a => exact .done a s
  | ask q next ih => exact .ask hmoves (hanswer q) (ih _)

end

/-! ### Implementations -/

variable {h : σ → Q → Dialogue Q' R' (R × σ)} {s s' : σ} {low : List (Q' × R')}

/-- Every question is answered by a dialogue, which may change the state. -/
def implement (h : σ → Q → Dialogue Q' R' (R × σ)) : Dialogue Q R α → σ → Dialogue Q' R' (α × σ)
  | done a, s => done (a, s)
  | ask q next, s => h s q >>= fun out => implement h (next out.1) out.2

/-- The exchanges `low` are what it takes to make the exchanges `log`. -/
inductive Realizes (h : σ → Q → Dialogue Q' R' (R × σ)) :
    σ → List (Q × R) → List (Q' × R') → σ → Prop
  | nil (s : σ) : Realizes h s [] [] s
  | cons {s₀ s₁ s₂ : σ} {q : Q} {r : R} {log : List (Q × R)} {first rest : List (Q' × R')}
      (hfirst : Reaches (h s₀ q) first (.done (r, s₁))) (hrest : Realizes h s₁ log rest s₂) :
      Realizes h s₀ ((q, r) :: log) (first ++ rest) s₂

theorem reaches_bind {f : α → Dialogue Q R β} {e : Dialogue Q R β}
    (hd : Reaches (d >>= f) log e) :
    (∃ q next, Reaches d log (.ask q next) ∧ e = .ask q fun r => next r >>= f) ∨
      ∃ first rest a, log = first ++ rest ∧ Reaches d first (.done a) ∧ Reaches (f a) rest e := by
  induction d generalizing log with
  | done a => exact .inr ⟨[], log, a, rfl, .refl _, hd⟩
  | ask q next ih =>
      cases hd with
      | refl => exact .inl ⟨q, next, .refl _, rfl⟩
      | ask hnext =>
          rcases ih _ hnext with ⟨q', next', hd', rfl⟩ | ⟨first, rest, a, rfl, hfirst, hrest⟩
          · exact .inl ⟨q', next', .ask hd', rfl⟩
          · exact .inr ⟨_, rest, a, rfl, .ask hfirst, hrest⟩

/-- A run of the whole is a run of the upper dialogue, all exchanges of which are made, and the
beginning of one more exchange. -/
theorem reaches_implement {e : Dialogue Q' R' (α × σ)} (hd : Reaches (implement h d s) low e) :
    ∃ log d' first rest s', low = first ++ rest ∧ Reaches d log d' ∧ Realizes h s log first s' ∧
      ((∃ a, d' = .done a ∧ rest = [] ∧ e = .done (a, s')) ∨
        ∃ q next q' next', d' = .ask q next ∧ Reaches (h s' q) rest (.ask q' next') ∧
          e = .ask q' fun r => next' r >>= fun out => implement h (next out.1) out.2) := by
  induction d generalizing low s with
  | done a =>
      cases hd with
      | refl => exact ⟨[], .done a, [], [], s, rfl, .refl _, .nil s, .inl ⟨a, rfl, rfl, rfl⟩⟩
  | ask q next ih =>
      rcases reaches_bind hd with
        ⟨q', next', he', rfl⟩ | ⟨first, rest, ⟨r, s₁⟩, rfl, hfirst, hrest⟩
      · exact ⟨[], .ask q next, [], low, s, rfl, .refl _, .nil s,
          .inr ⟨q, next, q', next', rfl, he', rfl⟩⟩
      · obtain ⟨log, d', first', rest', s', rfl, hd', hlog, hend⟩ := ih _ hrest
        exact ⟨(q, r) :: log, d', first ++ first', rest', s', (List.append_assoc ..).symm,
          .ask hd', .cons hfirst hlog, hend⟩

end Dialogue

end Outband.Foundation
