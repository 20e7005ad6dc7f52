import Mathlib.Algebra.BigOperators.Group.List.Basic
import Mathlib.Algebra.Ring.Int.Defs
import Outband.Foundation.Dialogue

/-!
# Pools of dialogues

Any number of dialogues are under way at once. Each is tagged with who runs it. The surroundings
answer the question of any of them next, so that the exchanges of different dialogues follow one
another in any order; `log` has them all. A dialogue that keeps a condition on its own keeps it in
the pool.

## Implementation notes

`weight` counts what exchanges open and close. A dialogue that has come to its end has closed what
it has opened, if that is what its condition says, and the rest of the pool is open in those that
are still under way.
-/

namespace Outband.Foundation

/-- A dialogue under way, and the exchanges that it has made. -/
structure Task (ι Q R α : Type) where
  tag : ι
  past : List (Q × R) := []
  left : Dialogue Q R α

structure Pool (ι Q R α : Type) where
  tasks : List (Task ι Q R α) := []
  log : List (ι × Q × R) := []

namespace Pool

variable {ι Q R α : Type} {p p' : Pool ι Q R α} {i : Nat} {r : R}

def start (p : Pool ι Q R α) (tag : ι) (d : Dialogue Q R α) : Pool ι Q R α :=
  { p with tasks := p.tasks ++ [{ tag, left := d }] }

/-- The question of a dialogue is answered. -/
def answer (p : Pool ι Q R α) (i : Nat) (r : R) : Option (Pool ι Q R α) :=
  match p.tasks[i]? with
  | some ⟨tag, past, .ask q next⟩ => some {
      tasks := p.tasks.set i ⟨tag, past ++ [(q, r)], next r⟩
      log := p.log ++ [(tag, q, r)] }
  | _ => none

/-- A dialogue that has come to its end leaves the pool. -/
def finish (p : Pool ι Q R α) (i : Nat) : Option (Pool ι Q R α) :=
  match p.tasks[i]? with
  | some ⟨_, _, .done _⟩ => some { p with tasks := p.tasks.eraseIdx i }
  | _ => none

/-! ### Taking steps -/

/-- A task stands between those before it and those after it. -/
theorem exists_split {τ : Type*} {l : List τ} {t : τ} (h : l[i]? = some t) :
    ∃ before after, l = before ++ t :: after ∧ (∀ t', l.set i t' = before ++ t' :: after) ∧
      l.eraseIdx i = before ++ after := by
  obtain ⟨hi, rfl⟩ := List.getElem?_eq_some_iff.mp h
  refine ⟨l.take i, l.drop (i + 1), ?_, ?_, List.eraseIdx_eq_take_drop_succ ..⟩
  · rw [List.getElem_cons_drop, List.take_append_drop]
  · intro t'
    rw [List.set_eq_take_append_cons_drop, if_pos hi]

theorem exists_of_answer (h : p.answer i r = some p') :
    ∃ before tag past q next after, p.tasks = before ++ ⟨tag, past, .ask q next⟩ :: after ∧
      p' = { tasks := before ++ ⟨tag, past ++ [(q, r)], next r⟩ :: after
             log := p.log ++ [(tag, q, r)] } := by
  rw [answer] at h
  split at h
  case h_1 tag past q next htask =>
    obtain ⟨before, after, heq, hset, -⟩ := exists_split htask
    refine ⟨before, tag, past, q, next, after, heq, ?_⟩
    rw [← Option.some.inj h, hset]
  case h_2 => cases h

theorem exists_of_finish (h : p.finish i = some p') :
    ∃ before tag past a after, p.tasks = before ++ ⟨tag, past, .done a⟩ :: after ∧
      p' = { p with tasks := before ++ after } := by
  rw [finish] at h
  split at h
  case h_1 tag past a htask =>
    obtain ⟨before, after, heq, -, herase⟩ := exists_split htask
    refine ⟨before, tag, past, a, after, heq, ?_⟩
    rw [← Option.some.inj h, herase]
  case h_2 => cases h

/-! ### Conditions on the dialogues -/

variable {allowed : ι → List (Q × R) → Q → Prop} {post : ι → List (Q × R) → α → Prop}

/-- Every dialogue keeps its condition from where it is on, its exchanges are in the log, and each
question in the log was allowed after earlier exchanges of one dialogue. -/
structure Sound (allowed : ι → List (Q × R) → Q → Prop) (post : ι → List (Q × R) → α → Prop)
    (p : Pool ι Q R α) : Prop where
  keeps : ∀ t ∈ p.tasks, t.left.Keeps (allowed t.tag) (post t.tag) t.past
  asked : ∀ t ∈ p.tasks, Grounded (fun before ex => allowed t.tag before ex.1) t.past
  own : ∀ t ∈ p.tasks, (t.past.map fun ex => (t.tag, ex)).Sublist p.log
  logged : Grounded (fun before e => ∃ past : List (Q × R),
    (past.map fun ex => (e.1, ex)).Sublist before ∧ allowed e.1 past e.2.1) p.log

theorem sound_empty : Sound allowed post ({} : Pool ι Q R α) where
  keeps := List.forall_mem_nil _
  asked := List.forall_mem_nil _
  own := List.forall_mem_nil _
  logged := grounded_nil

theorem Sound.start {tag : ι} {d : Dialogue Q R α} (h : p.Sound allowed post)
    (hd : d.Keeps (allowed tag) (post tag) []) : (p.start tag d).Sound allowed post where
  keeps := List.forall_mem_append.mpr ⟨h.keeps, List.forall_mem_singleton.mpr hd⟩
  asked := List.forall_mem_append.mpr ⟨h.asked, List.forall_mem_singleton.mpr grounded_nil⟩
  own := List.forall_mem_append.mpr ⟨h.own, List.forall_mem_singleton.mpr (List.nil_sublist _)⟩
  logged := h.logged

theorem Sound.answer (h : p.Sound allowed post) (hp : p.answer i r = some p') :
    p'.Sound allowed post := by
  obtain ⟨before, tag, past, q, next, after, htasks, rfl⟩ := exists_of_answer hp
  obtain ⟨hkeeps, hasked, hown, hlogged⟩ := h
  rw [htasks, List.forall_mem_append, List.forall_mem_cons] at hkeeps hasked hown
  constructor
  · rw [List.forall_mem_append, List.forall_mem_cons]
    exact ⟨hkeeps.1, hkeeps.2.1.2 r, hkeeps.2.2⟩
  · rw [List.forall_mem_append, List.forall_mem_cons]
    exact ⟨hasked.1, hasked.2.1.snoc hkeeps.2.1.1, hasked.2.2⟩
  · have hmore (t : Task ι Q R α) (ht : (t.past.map fun ex => (t.tag, ex)).Sublist p.log) :
        (t.past.map fun ex => (t.tag, ex)).Sublist (p.log ++ [(tag, q, r)]) :=
      ht.trans (List.sublist_append_left ..)
    rw [List.forall_mem_append, List.forall_mem_cons]
    refine ⟨fun t ht => hmore t (hown.1 t ht), ?_, fun t ht => hmore t (hown.2.2 t ht)⟩
    rw [List.map_append]
    exact hown.2.1.append (List.Sublist.refl _)
  · exact hlogged.snoc ⟨past, hown.2.1, hkeeps.2.1.1⟩

theorem Sound.finish (h : p.Sound allowed post) (hp : p.finish i = some p') :
    p'.Sound allowed post := by
  obtain ⟨before, tag, past, a, after, htasks, rfl⟩ := exists_of_finish hp
  have hmem (t : Task ι Q R α) (ht : t ∈ before ++ after) : t ∈ p.tasks := by
    rw [htasks]
    exact (List.Sublist.append_left (List.sublist_cons_self ..) before).subset ht
  exact ⟨fun t ht => h.keeps t (hmem t ht), fun t ht => h.asked t (hmem t ht),
    fun t ht => h.own t (hmem t ht), h.logged⟩

/-! ### Who runs the dialogues -/

variable {P P' : ι → Prop}

/-- All those who run or have run a dialogue meet the condition. -/
structure Tagged (P : ι → Prop) (p : Pool ι Q R α) : Prop where
  tasks : ∀ t ∈ p.tasks, P t.tag
  log : ∀ e ∈ p.log, P e.1

theorem tagged_empty : Tagged P ({} : Pool ι Q R α) :=
  ⟨List.forall_mem_nil _, List.forall_mem_nil _⟩

theorem Tagged.mono (h : p.Tagged P) (hP : ∀ tag, P tag → P' tag) : p.Tagged P' :=
  ⟨fun t ht => hP _ (h.tasks t ht), fun e he => hP _ (h.log e he)⟩

theorem Tagged.start {tag : ι} {d : Dialogue Q R α} (h : p.Tagged P) (htag : P tag) :
    (p.start tag d).Tagged P :=
  ⟨List.forall_mem_append.mpr ⟨h.tasks, List.forall_mem_singleton.mpr htag⟩, h.log⟩

theorem Tagged.answer (h : p.Tagged P) (hp : p.answer i r = some p') : p'.Tagged P := by
  obtain ⟨before, tag, past, q, next, after, htasks, rfl⟩ := exists_of_answer hp
  obtain ⟨hrun, hlog⟩ := h
  rw [htasks, List.forall_mem_append, List.forall_mem_cons] at hrun
  constructor
  · rw [List.forall_mem_append, List.forall_mem_cons]
    exact hrun
  · rw [List.forall_mem_append, List.forall_mem_singleton]
    exact ⟨hlog, hrun.2.1⟩

theorem Tagged.finish (h : p.Tagged P) (hp : p.finish i = some p') : p'.Tagged P := by
  obtain ⟨before, tag, past, a, after, htasks, rfl⟩ := exists_of_finish hp
  obtain ⟨hrun, hlog⟩ := h
  rw [htasks, List.forall_mem_append, List.forall_mem_cons] at hrun
  exact ⟨List.forall_mem_append.mpr ⟨hrun.1, hrun.2.2⟩, hlog⟩

/-! ### What is open -/

variable {w : ι → Q × R → ℤ}

/-- What these exchanges of one dialogue have opened and not closed. -/
def net (w : ι → Q × R → ℤ) (tag : ι) (past : List (Q × R)) : ℤ := (past.map (w tag)).sum

/-- All that is open is open in a dialogue under way. -/
def Balanced (w : ι → Q × R → ℤ) (p : Pool ι Q R α) : Prop :=
  (p.log.map fun e => w e.1 e.2).sum = (p.tasks.map fun t => net w t.tag t.past).sum

theorem net_nil (tag : ι) : net w tag [] = 0 := rfl

theorem net_snoc (tag : ι) (past : List (Q × R)) (ex : Q × R) :
    net w tag (past ++ [ex]) = net w tag past + w tag ex := by
  simp [net]

theorem balanced_empty : Balanced w ({} : Pool ι Q R α) := rfl

theorem Balanced.start {tag : ι} {d : Dialogue Q R α} (h : p.Balanced w) :
    (p.start tag d).Balanced w := by
  rw [Balanced, Pool.start, List.map_append, List.sum_append, List.map_singleton,
    List.sum_singleton, net_nil, add_zero]
  exact h

theorem Balanced.answer (h : p.Balanced w) (hp : p.answer i r = some p') : p'.Balanced w := by
  obtain ⟨before, tag, past, q, next, after, htasks, rfl⟩ := exists_of_answer hp
  rw [Balanced, htasks] at h
  simp only [Balanced, List.map_append, List.map_cons, List.sum_append, List.sum_cons,
    List.map_nil, List.sum_nil, net_snoc] at h ⊢
  omega

/-- What is opened one at a time is counted. -/
theorem sum_eq_countP {τ : Type*} {f : τ → ℤ} (l : List τ)
    (hf : ∀ t ∈ l, f t = -1 ∨ f t = 0 ∨ f t = 1) :
    (l.map f).sum = l.countP (fun t => f t = 1) - l.countP fun t => f t = -1 := by
  induction l with
  | nil => rfl
  | cons t l ih =>
      obtain ⟨ht, hl⟩ := List.forall_mem_cons.mp hf
      rw [List.map_cons, List.sum_cons, ih hl, List.countP_cons, List.countP_cons]
      rcases ht with ht | ht | ht <;> simp [ht] <;> omega

/-- A dialogue may leave once it has nothing open. -/
theorem Balanced.finish (h : p.Balanced w) (hsound : p.Sound allowed post)
    (hpost : ∀ tag past a, post tag past a → net w tag past = 0)
    (hp : p.finish i = some p') : p'.Balanced w := by
  obtain ⟨before, tag, past, a, after, htasks, rfl⟩ := exists_of_finish hp
  have hclosed : net w tag past = 0 := by
    refine hpost tag past a (hsound.keeps ⟨tag, past, .done a⟩ ?_)
    rw [htasks]
    exact List.mem_append_right _ List.mem_cons_self
  rw [Balanced, htasks] at h
  simp only [Balanced, List.map_append, List.map_cons, List.sum_append, List.sum_cons,
    hclosed, zero_add] at h ⊢
  exact h

end Pool

end Outband.Foundation
