import Mathlib.Logic.Function.Basic
import Mathlib.Tactic.SplitIfs
import Outband.Foundation.Transition

/-!
# Serial over LAN

`OpenSOL` (`internal/ipmi/client.go`) reserves the one SOL slot of an adapter,
connects, starts a goroutine for the activation and waits for its outcome. Each
of its exits, and every later `Close` of the session, has to give the slot back
once and behind the goroutine. An `Attempt` is one call of `OpenSOL` with the
session it makes.

## Implementation notes

Only `solActive` is shared, so that a step is a section of one attempt and, where
it takes or releases the slot, a change of the flag. `cancelled` is the state of
`solCtx`, which ends with the context of the caller too. `releases` counts the
calls of `release` and is read by no step.
-/

namespace Outband.Ipmi.Sol

open Foundation

/-- Where `OpenSOL` stands: behind the reservation, behind the client, in front of `release` after
an early error, in the select, with the session returned, in `Close` after a failed activation, or
returned with an error. -/
inductive Phase
  | idle
  | refused
  | reserved
  | created
  | aborting
  | aborted
  | selecting
  | opened
  | closing
  | failed
  deriving DecidableEq, Repr

/-- The activation goroutine: not started, in `SOLActivate`, behind it, or through. -/
inductive Goroutine
  | absent
  | activating
  | ending
  | finished
  deriving DecidableEq, Repr

/-- How far the one run of `onClose` has come. -/
inductive Cleanup
  | unstarted
  | cancelling
  | closingPipes
  | awaiting
  | closingRest
  | complete
  deriving DecidableEq, Repr

structure Attempt where
  phase : Phase := .idle
  goroutine : Goroutine := .absent
  /-- The buffered channel: whether the activation has succeeded. -/
  ready : Option Bool := none
  cancelled : Bool := false
  pipesClosed : Bool := false
  cleanup : Cleanup := .unstarted
  releases : Nat := 0
  deriving DecidableEq, Repr

/-- The sections of one attempt that do not touch the slot. -/
inductive Section
  | newClientFails
  | newClient
  | connectFails
  | connect
  | activated
  | activateReturns (ok : Bool)
  | finish
  | receive
  | timeout
  | contextDone
  | endContext
  | close
  | cancel
  | closePipes
  | awaitDone
  | returnError
  deriving DecidableEq, Repr

namespace Attempt

/-- A non-blocking send to `ready`. -/
def sendReady (c : Attempt) (ok : Bool) : Attempt := { c with ready := c.ready.or (some ok) }

def next : Section → Attempt → Option Attempt
  | .newClientFails, c => if c.phase = .reserved then some { c with phase := .aborting } else none
  | .newClient, c => if c.phase = .reserved then some { c with phase := .created } else none
  | .connectFails, c =>
      if c.phase = .created then some { c with phase := .aborting, cancelled := true } else none
  | .connect, c =>
      if c.phase = .created then some { c with phase := .selecting, goroutine := .activating }
      else none
  | .activated, c => if c.goroutine = .activating then some (c.sendReady true) else none
  | .activateReturns ok, c =>
      if c.goroutine = .activating then some { c.sendReady ok with goroutine := .ending } else none
  | .finish, c => if c.goroutine = .ending then some { c with goroutine := .finished } else none
  | .receive, c =>
      match c.phase, c.ready with
      | .selecting, some ok =>
          some { c with ready := none, phase := if ok then .opened else .closing }
      | _, _ => none
  | .timeout, c => if c.phase = .selecting then some { c with phase := .closing } else none
  | .contextDone, c =>
      if c.phase = .selecting ∧ c.cancelled = true then some { c with phase := .closing } else none
  | .endContext, c => some { c with cancelled := true }
  | .close, c =>
      -- a call that is not the first one waits for it and changes nothing
      if c.phase = .opened ∨ c.phase = .closing then
        some { c with cleanup := if c.cleanup = .unstarted then .cancelling else c.cleanup }
      else none
  | .cancel, c =>
      if c.cleanup = .cancelling then some { c with cancelled := true, cleanup := .closingPipes }
      else none
  | .closePipes, c =>
      if c.cleanup = .closingPipes then some { c with pipesClosed := true, cleanup := .awaiting }
      else none
  | .awaitDone, c =>
      if c.cleanup = .awaiting ∧ c.goroutine = .finished then
        some { c with cleanup := .closingRest }
      else none
  | .returnError, c =>
      if c.phase = .closing ∧ c.cleanup = .complete then some { c with phase := .failed } else none

/-- `release`, after an early error or as the last part of `onClose`. -/
def release (c : Attempt) : Option Attempt :=
  if c.phase = .aborting then some { c with phase := .aborted, releases := c.releases + 1 }
  else if c.cleanup = .closingRest then
    some { c with cleanup := .complete, releases := c.releases + 1 }
  else none

/-- The attempt is between its reservation and the completion of its clean-up. -/
def Occupies (c : Attempt) : Prop :=
  match c.phase with
  | .reserved | .created | .aborting | .selecting => True
  | .opened | .closing => c.cleanup ≠ .complete
  | .idle | .refused | .aborted | .failed => False

instance (c : Attempt) : Decidable c.Occupies := by
  unfold Occupies
  split <;> infer_instance

/-- The clean-up has begun and is not complete. -/
def Cleaning (c : Attempt) : Prop :=
  match c.phase with
  | .aborting => True
  | .closing => c.cleanup ≠ .complete
  | .opened => c.cleanup ≠ .unstarted ∧ c.cleanup ≠ .complete
  | .idle | .refused | .reserved | .created | .aborted | .selecting | .failed => False

/-! ### One attempt -/

/-- `OpenSOL` has not come to the goroutine. -/
def Early (c : Attempt) : Prop :=
  c.phase = .idle ∨ c.phase = .refused ∨ c.phase = .reserved ∨ c.phase = .created ∨
    c.phase = .aborting ∨ c.phase = .aborted

/-- What connects the fields of an attempt. -/
structure Sound (c : Attempt) : Prop where
  absent : c.goroutine = .absent ↔ c.Early
  unstarted : c.Early ∨ c.phase = .selecting → c.cleanup = .unstarted
  failed : c.phase = .failed → c.cleanup = .complete
  cancelled : c.cleanup = .closingPipes ∨ c.cleanup = .awaiting → c.cancelled = true
  pipesClosed : c.cleanup = .awaiting → c.pipesClosed = true
  finished : c.cleanup = .closingRest ∨ c.cleanup = .complete → c.goroutine = .finished
  releases : c.releases = if c.phase = .aborted ∨ c.cleanup = .complete then 1 else 0

variable {c c' : Attempt} {sec : Section}

theorem guarded {p : Prop} [Decidable p] (h : (if p then some c else none) = some c') :
    p ∧ c = c' := by
  rwa [Option.ite_none_right_eq_some, Option.some.injEq] at h

theorem sound_new : Sound {} := by
  constructor <;> simp [Early]

theorem Sound.sendReady (hs : c.Sound) (ok : Bool) : (c.sendReady ok).Sound :=
  ⟨hs.absent, hs.unstarted, hs.failed, hs.cancelled, hs.pipesClosed, hs.finished, hs.releases⟩

/-- The select is left for the session or for `Close`. -/
theorem Sound.leaveSelect (hs : c.Sound) (hphase : c.phase = .selecting) {phase : Phase}
    (hleft : phase = .opened ∨ phase = .closing) (ready : Option Bool) :
    Sound { c with ready, phase } := by
  obtain ⟨habsent, hunstarted, hfailed, hcancelled, hpipes, hfinished, hreleases⟩ := hs
  rcases hleft with rfl | rfl
  · constructor <;> simp_all [Early]
  · constructor <;> simp_all [Early]

/-- The first call of `Close` begins the clean-up. -/
theorem Sound.close (hs : c.Sound) (hphase : c.phase = .opened ∨ c.phase = .closing) :
    Sound { c with cleanup := if c.cleanup = .unstarted then .cancelling else c.cleanup } := by
  by_cases hfirst : c.cleanup = .unstarted
  · rw [if_pos hfirst]
    obtain ⟨habsent, hunstarted, hfailed, hcancelled, hpipes, hfinished, hreleases⟩ := hs
    rcases hphase with hphase | hphase
    · constructor <;> simp_all [Early]
    · constructor <;> simp_all [Early]
  · rw [if_neg hfirst]
    exact hs

theorem Sound.next (hs : c.Sound) (hnext : c.next sec = some c') : c'.Sound := by
  cases sec with
  | endContext =>
      cases hnext
      exact ⟨hs.absent, hs.unstarted, hs.failed, fun _ => rfl, hs.pipesClosed, hs.finished,
        hs.releases⟩
  | receive =>
      rw [Attempt.next] at hnext
      split at hnext
      case h_1 ok hphase _ =>
        cases hnext
        exact hs.leaveSelect hphase (by cases ok <;> simp) none
      case h_2 => cases hnext
  | newClientFails | newClient | connectFails | connect | activateReturns | finish | cancel
  | closePipes | awaitDone | returnError =>
      obtain ⟨hguard, rfl⟩ := guarded hnext
      obtain ⟨habsent, hunstarted, hfailed, hcancelled, hpipes, hfinished, hreleases⟩ := hs
      constructor <;> simp_all [Early, Attempt.sendReady]
  | activated =>
      obtain ⟨-, rfl⟩ := guarded hnext
      exact hs.sendReady true
  | timeout =>
      obtain ⟨hphase, rfl⟩ := guarded hnext
      exact hs.leaveSelect hphase (.inr rfl) c.ready
  | contextDone =>
      obtain ⟨hguard, rfl⟩ := guarded hnext
      exact hs.leaveSelect hguard.1 (.inr rfl) c.ready
  | close =>
      obtain ⟨hphase, rfl⟩ := guarded hnext
      exact hs.close hphase

theorem occupies_congr (hphase : c'.phase = c.phase)
    (hcleanup : c'.cleanup = .complete ↔ c.cleanup = .complete) : c'.Occupies ↔ c.Occupies := by
  rw [Occupies, Occupies, hphase]
  split
  case h_5 | h_6 => exact not_congr hcleanup
  all_goals rfl

/-- On its way to the session or to the clean-up an attempt keeps its place. -/
theorem Sound.occupies_move (hs : c.Sound)
    (hc : c.phase = .reserved ∨ c.phase = .created ∨ c.phase = .selecting)
    (hphase : c'.phase ∈ [.created, .aborting, .selecting, .opened, .closing])
    (hcleanup : c'.cleanup = c.cleanup) : c'.Occupies ↔ c.Occupies := by
  have hunstarted : c.cleanup = .unstarted := by
    apply hs.unstarted
    rcases hc with h | h | h <;> simp [Early, h]
  have hoccupies : c.Occupies := by
    rcases hc with h | h | h <;> simp [Occupies, h]
  refine iff_of_true ?_ hoccupies
  simp only [List.mem_cons, List.not_mem_nil, or_false] at hphase
  rcases hphase with h | h | h | h | h <;> simp [Occupies, h, hcleanup, hunstarted]

/-- No section of an attempt takes or gives up its place. -/
theorem Sound.occupies_next (hs : c.Sound) (hnext : c.next sec = some c') :
    c'.Occupies ↔ c.Occupies := by
  cases sec with
  | endContext =>
      cases hnext
      rfl
  | receive =>
      rw [Attempt.next] at hnext
      split at hnext
      case h_1 ok hphase _ =>
        cases hnext
        exact hs.occupies_move (.inr (.inr hphase)) (by cases ok <;> simp) rfl
      case h_2 => cases hnext
  | newClientFails | newClient =>
      obtain ⟨hphase, rfl⟩ := guarded hnext
      exact hs.occupies_move (.inl hphase) (by simp) rfl
  | connectFails | connect =>
      obtain ⟨hphase, rfl⟩ := guarded hnext
      exact hs.occupies_move (.inr (.inl hphase)) (by simp) rfl
  | timeout =>
      obtain ⟨hphase, rfl⟩ := guarded hnext
      exact hs.occupies_move (.inr (.inr hphase)) (by simp) rfl
  | contextDone =>
      obtain ⟨hguard, rfl⟩ := guarded hnext
      exact hs.occupies_move (.inr (.inr hguard.1)) (by simp) rfl
  | activated | activateReturns | finish =>
      obtain ⟨-, rfl⟩ := guarded hnext
      exact occupies_congr (by rfl) Iff.rfl
  | close =>
      obtain ⟨-, rfl⟩ := guarded hnext
      refine occupies_congr (by rfl) ?_
      by_cases hfirst : c.cleanup = .unstarted <;> simp [hfirst]
  | cancel | closePipes =>
      obtain ⟨hcleanup, rfl⟩ := guarded hnext
      refine occupies_congr (by rfl) ?_
      simp [hcleanup]
  | awaitDone =>
      obtain ⟨hguard, rfl⟩ := guarded hnext
      refine occupies_congr (by rfl) ?_
      simp [hguard.1]
  | returnError =>
      obtain ⟨hguard, rfl⟩ := guarded hnext
      simp [Occupies, hguard.1, hguard.2]

/-- The clean-up runs in `Close`. -/
theorem Sound.phase_of_cleanup (hs : c.Sound) (hstarted : c.cleanup ≠ .unstarted)
    (hrunning : c.cleanup ≠ .complete) : c.phase = .opened ∨ c.phase = .closing := by
  have hlate : ¬ (c.Early ∨ c.phase = .selecting) := fun h => hstarted (hs.unstarted h)
  have hfailed : c.phase ≠ .failed := fun h => hrunning (hs.failed h)
  rw [Early] at hlate
  cases hphase : c.phase <;> simp_all

/-- An attempt that releases its place had one, and has none from then on. -/
theorem Sound.release (hs : c.Sound) (hrelease : c.release = some c') :
    c'.Sound ∧ c.Occupies ∧ ¬ c'.Occupies ∧ c'.releases = 1 := by
  rw [Attempt.release] at hrelease
  split at hrelease
  case isTrue hphase =>
    obtain ⟨habsent, hunstarted, hfailed, hcancelled, hpipes, hfinished, hreleases⟩ := hs
    cases hrelease
    refine ⟨?_, by simp [Occupies, hphase], by simp [Occupies], ?_⟩
    · constructor <;> simp_all [Early]
    · simp_all [Early]
  case isFalse hphase =>
    obtain ⟨hcleanup, rfl⟩ := guarded hrelease
    have hclose := hs.phase_of_cleanup (by simp [hcleanup]) (by simp [hcleanup])
    obtain ⟨habsent, hunstarted, hfailed, hcancelled, hpipes, hfinished, hreleases⟩ := hs
    refine ⟨?_, ?_, ?_, ?_⟩
    · constructor <;> simp_all [Early]
    · rcases hclose with h | h <;> simp [Occupies, h, hcleanup]
    · rcases hclose with h | h <;> simp [Occupies, h]
    · rcases hclose with h | h <;> simp [hreleases, h, hcleanup]

/-- An attempt that is through with its place has released it once. -/
theorem Sound.releases_eq (hs : c.Sound) :
    c.releases = if c.phase = .idle ∨ c.phase = .refused ∨ c.Occupies then 0 else 1 := by
  obtain ⟨habsent, hunstarted, hfailed, hcancelled, hpipes, hfinished, hreleases⟩ := hs
  rw [hreleases]
  cases hphase : c.phase <;> simp_all [Early, Occupies]

theorem Sound.behind (hs : c.Sound) (hreleases : c.releases ≠ 0) :
    c.goroutine = .absent ∨ c.goroutine = .finished := by
  rw [hs.releases] at hreleases
  split_ifs at hreleases with hreleased
  · rcases hreleased with hphase | hcleanup
    · exact .inl (hs.absent.mpr (by simp [Early, hphase]))
    · exact .inr (hs.finished (.inr hcleanup))
  · exact absurd rfl hreleases

end Attempt

/-- An adapter with all calls of `OpenSOL` ever made on it. -/
structure Adapter where
  solActive : Bool := false
  attempt : Nat → Attempt := fun _ => {}

inductive Act
  | reserve (i : Nat)
  | go (i : Nat) (sec : Section)
  | release (i : Nat)
  deriving DecidableEq, Repr

namespace Adapter

def set (s : Adapter) (i : Nat) (c : Attempt) : Adapter :=
  { s with attempt := Function.update s.attempt i c }

def step : Act → Adapter → Option Adapter
  | .reserve i, s =>
      if (s.attempt i).phase ≠ .idle then none
      else if s.solActive then some (s.set i { s.attempt i with phase := .refused })
      else some { s.set i { s.attempt i with phase := .reserved } with solActive := true }
  | .go i sec, s => ((s.attempt i).next sec).map (s.set i)
  | .release i, s =>
      (s.attempt i).release.map fun c => { s.set i c with solActive := false }

def Reachable (s : Adapter) : Prop := Reached step (fun _ _ => True) {} s

/-- The clean-up of attempt `i` alone: the sections of `Close`, the end of the goroutine, the
release. `SOLActivate` returns when its context is cancelled and its pipes are closed. -/
def CleansUp (i : Nat) : Act → Adapter → Prop
  | .go j sec, s => j = i ∧ match sec with
      | .close | .cancel | .closePipes | .awaitDone | .finish => True
      | .activateReturns _ => (s.attempt i).cancelled = true ∧ (s.attempt i).pipesClosed = true
      | _ => False
  | .release j, _ => j = i
  | .reserve _, _ => False

/-- The slot is taken exactly while one attempt occupies it, and every reservation is released
once, behind its goroutine, and can be released once its clean-up has begun. -/
structure Exclusive (s : Adapter) : Prop where
  active : s.solActive = true ↔ ∃! i, (s.attempt i).Occupies
  unique : ∀ i j, (s.attempt i).Occupies → (s.attempt j).Occupies → i = j
  released : ∀ i, (s.attempt i).releases =
    if (s.attempt i).phase = .idle ∨ (s.attempt i).phase = .refused ∨ (s.attempt i).Occupies
    then 0 else 1
  behind : ∀ i, (s.attempt i).releases ≠ 0 →
    (s.attempt i).goroutine = .absent ∨ (s.attempt i).goroutine = .finished
  completes : ∀ i, (s.attempt i).Cleaning →
    ∃ s', Reached step (CleansUp i) s s' ∧ (s'.attempt i).releases = 1

/-! ### The slot -/

variable {a : Act} {s s' : Adapter} {i : Nat} {c c' : Attempt} {sec : Section}

@[simp] theorem set_attempt (s : Adapter) (i : Nat) (c : Attempt) : (s.set i c).attempt i = c := by
  simp [set]

theorem set_attempt_of_ne {j : Nat} (hne : j ≠ i) : (s.set i c).attempt j = s.attempt j := by
  simp [set, hne]

structure Slot (s : Adapter) : Prop where
  sound : ∀ i, (s.attempt i).Sound
  active : s.solActive = true ↔ ∃ i, (s.attempt i).Occupies
  unique : ∀ i j, (s.attempt i).Occupies → (s.attempt j).Occupies → i = j

theorem Slot.sound_set (hs : Slot s) (hc : c.Sound) (j : Nat) : ((s.set i c).attempt j).Sound := by
  by_cases hj : j = i
  · rw [hj, set_attempt]
    exact hc
  · rw [set_attempt_of_ne hj]
    exact hs.sound j

/-- A section that does not touch the slot. -/
theorem Slot.set (hs : Slot s) (hc : c.Sound) (hplace : c.Occupies ↔ (s.attempt i).Occupies) :
    Slot (s.set i c) := by
  have hattempt (j : Nat) : ((s.set i c).attempt j).Occupies ↔ (s.attempt j).Occupies := by
    by_cases hj : j = i
    · rw [hj, set_attempt]
      exact hplace
    · rw [set_attempt_of_ne hj]
  refine ⟨hs.sound_set hc, ?_, ?_⟩
  · change s.solActive = true ↔ _
    rw [hs.active]
    exact exists_congr fun j => (hattempt j).symm
  · intro j k hj hk
    exact hs.unique j k ((hattempt j).mp hj) ((hattempt k).mp hk)

/-- The slot is taken when no attempt occupies it. -/
theorem Slot.take (hs : Slot s) (hfree : ¬ s.solActive = true) (hc : c.Sound)
    (hplace : c.Occupies) :
    Slot { s.set i c with solActive := true } := by
  have hnone (j : Nat) : ¬ (s.attempt j).Occupies := fun hj => hfree (hs.active.mpr ⟨j, hj⟩)
  have honly (j : Nat) (hj : ((s.set i c).attempt j).Occupies) : j = i := by
    by_contra hne
    rw [set_attempt_of_ne hne] at hj
    exact hnone j hj
  refine ⟨hs.sound_set hc, iff_of_true rfl ⟨i, ?_⟩, ?_⟩
  · change ((s.set i c).attempt i).Occupies
    rwa [set_attempt]
  · exact fun j k hj hk => (honly j hj).trans (honly k hk).symm

/-- The slot is given back by the attempt that occupies it. -/
theorem Slot.release (hs : Slot s) (hrelease : (s.attempt i).release = some c) :
    Slot { s.set i c with solActive := false } := by
  obtain ⟨hc, hplace, hout, -⟩ := (hs.sound i).release hrelease
  have hnone (j : Nat) : ¬ ((s.set i c).attempt j).Occupies := by
    by_cases hj : j = i
    · rw [hj, set_attempt]
      exact hout
    · rw [set_attempt_of_ne hj]
      exact fun hoccupies => hj (hs.unique j i hoccupies hplace)
  refine ⟨hs.sound_set hc, iff_of_false (by simp) ?_, ?_⟩
  · rintro ⟨j, hj⟩
    exact hnone j hj
  · exact fun j k hj => absurd hj (hnone j)

theorem Slot.next (hs : Slot s) (hstep : step a s = some s') : Slot s' := by
  cases a with
  | reserve i =>
      have hsound := hs.sound i
      rw [step] at hstep
      split_ifs at hstep with hphase hactive
      · cases hstep
        rw [not_not] at hphase
        refine hs.set ?_ ?_
        · obtain ⟨habsent, hunstarted, hfailed, hcancelled, hpipes, hfinished, hreleases⟩ := hsound
          constructor <;> simp_all [Attempt.Early]
        · simp [Attempt.Occupies, hphase]
      · cases hstep
        rw [not_not] at hphase
        refine hs.take hactive ?_ ?_
        · obtain ⟨habsent, hunstarted, hfailed, hcancelled, hpipes, hfinished, hreleases⟩ := hsound
          constructor <;> simp_all [Attempt.Early]
        · simp [Attempt.Occupies]
  | go i sec =>
      obtain ⟨c, hnext, rfl⟩ := Option.map_eq_some_iff.mp hstep
      exact hs.set ((hs.sound i).next hnext) ((hs.sound i).occupies_next hnext)
  | release i =>
      obtain ⟨c, hrelease, rfl⟩ := Option.map_eq_some_iff.mp hstep
      exact hs.release hrelease

theorem slot_new : Slot {} where
  sound _ := Attempt.sound_new
  active := iff_of_false (by simp) (by rintro ⟨i, hi⟩; exact hi)
  unique _ _ hi := hi.elim

/-! ### The clean-up -/

/-- The clean-up of attempt `i` alone leads to its release. -/
def Releases (i : Nat) (s : Adapter) : Prop :=
  ∃ s', Reached step (CleansUp i) s s' ∧ (s'.attempt i).releases = 1

theorem Releases.of_step (hok : CleansUp i a s) (hstep : step a s = some s')
    (h : Releases i s') : Releases i s := by
  obtain ⟨s'', hreached, hreleases⟩ := h
  exact ⟨s'', (Reached.step .init hok hstep).trans hreached, hreleases⟩

/-- A section of the clean-up, which leaves its attempt sound. -/
theorem Releases.of_next (hs : (s.attempt i).Sound) (hok : CleansUp i (.go i sec) s)
    (hnext : (s.attempt i).next sec = some c)
    (h : ∀ s' : Adapter, (s'.attempt i).Sound → s'.attempt i = c → Releases i s') :
    Releases i s := by
  have hstep : step (.go i sec) s = some (s.set i c) := by
    rw [step, hnext, Option.map_some]
  refine .of_step hok hstep (h _ ?_ (set_attempt s i c))
  rw [set_attempt]
  exact hs.next hnext

theorem releases_of_release (hs : (s.attempt i).Sound)
    (hrelease : (s.attempt i).release = some c) : Releases i s := by
  obtain ⟨-, -, -, hreleases⟩ := hs.release hrelease
  have hstep : step (.release i) s = some { s.set i c with solActive := false } := by
    rw [step, hrelease, Option.map_some]
  refine .of_step (a := .release i) rfl hstep ⟨_, .init, ?_⟩
  change ((s.set i c).attempt i).releases = 1
  rwa [set_attempt]

/-- From each part of `onClose` the release is reached. -/
theorem releases_of_closingRest (hs : (s.attempt i).Sound)
    (hcleanup : (s.attempt i).cleanup = .closingRest) : Releases i s := by
  have hclose := hs.phase_of_cleanup (by simp [hcleanup]) (by simp [hcleanup])
  have hphase : (s.attempt i).phase ≠ .aborting := by
    rcases hclose with h | h <;> simp [h]
  have hrelease : (s.attempt i).release = some { s.attempt i with
      cleanup := .complete, releases := (s.attempt i).releases + 1 } := by
    rw [Attempt.release, if_neg hphase, if_pos hcleanup]
  exact releases_of_release hs hrelease

theorem releases_of_finished (hs : (s.attempt i).Sound)
    (hcleanup : (s.attempt i).cleanup = .awaiting)
    (hgoroutine : (s.attempt i).goroutine = .finished) : Releases i s := by
  have hnext : (s.attempt i).next .awaitDone =
      some { s.attempt i with cleanup := .closingRest } := by
    rw [Attempt.next, if_pos ⟨hcleanup, hgoroutine⟩]
  refine .of_next hs ⟨rfl, trivial⟩ hnext fun s' hs' hattempt => ?_
  exact releases_of_closingRest hs' (by rw [hattempt])

theorem releases_of_ending (hs : (s.attempt i).Sound)
    (hcleanup : (s.attempt i).cleanup = .awaiting)
    (hgoroutine : (s.attempt i).goroutine = .ending) : Releases i s := by
  have hnext : (s.attempt i).next .finish = some { s.attempt i with goroutine := .finished } := by
    rw [Attempt.next, if_pos hgoroutine]
  refine .of_next hs ⟨rfl, trivial⟩ hnext fun s' hs' hattempt => ?_
  exact releases_of_finished hs' (by rw [hattempt, hcleanup]) (by rw [hattempt])

/-- The goroutine that is waited for ends: its context is cancelled and its pipes are closed. -/
theorem releases_of_awaiting (hs : (s.attempt i).Sound)
    (hcleanup : (s.attempt i).cleanup = .awaiting) : Releases i s := by
  have hclose := hs.phase_of_cleanup (by simp [hcleanup]) (by simp [hcleanup])
  cases hgoroutine : (s.attempt i).goroutine with
  | absent =>
      have hearly := hs.absent.mp hgoroutine
      rw [Attempt.Early] at hearly
      rcases hclose with h | h <;> simp [h] at hearly
  | activating =>
      have hnext : (s.attempt i).next (.activateReturns false) =
          some { (s.attempt i).sendReady false with goroutine := .ending } := by
        rw [Attempt.next, if_pos hgoroutine]
      have hok : CleansUp i (.go i (.activateReturns false)) s :=
        ⟨rfl, hs.cancelled (.inr hcleanup), hs.pipesClosed hcleanup⟩
      refine .of_next hs hok hnext fun s' hs' hattempt => ?_
      exact releases_of_ending hs' (by rw [hattempt]; exact hcleanup) (by rw [hattempt])
  | ending => exact releases_of_ending hs hcleanup hgoroutine
  | finished => exact releases_of_finished hs hcleanup hgoroutine

theorem releases_of_closingPipes (hs : (s.attempt i).Sound)
    (hcleanup : (s.attempt i).cleanup = .closingPipes) : Releases i s := by
  have hnext : (s.attempt i).next .closePipes =
      some { s.attempt i with pipesClosed := true, cleanup := .awaiting } := by
    rw [Attempt.next, if_pos hcleanup]
  refine .of_next hs ⟨rfl, trivial⟩ hnext fun s' hs' hattempt => ?_
  exact releases_of_awaiting hs' (by rw [hattempt])

theorem releases_of_cancelling (hs : (s.attempt i).Sound)
    (hcleanup : (s.attempt i).cleanup = .cancelling) : Releases i s := by
  have hnext : (s.attempt i).next .cancel =
      some { s.attempt i with cancelled := true, cleanup := .closingPipes } := by
    rw [Attempt.next, if_pos hcleanup]
  refine .of_next hs ⟨rfl, trivial⟩ hnext fun s' hs' hattempt => ?_
  exact releases_of_closingPipes hs' (by rw [hattempt])

theorem releases_of_close (hs : (s.attempt i).Sound)
    (hphase : (s.attempt i).phase = .opened ∨ (s.attempt i).phase = .closing)
    (hrunning : (s.attempt i).cleanup ≠ .complete) : Releases i s := by
  cases hcleanup : (s.attempt i).cleanup with
  | unstarted =>
      have hnext : (s.attempt i).next .close =
          some { s.attempt i with cleanup := .cancelling } := by
        rw [Attempt.next, if_pos hphase, if_pos hcleanup]
      refine .of_next hs ⟨rfl, trivial⟩ hnext fun s' hs' hattempt => ?_
      exact releases_of_cancelling hs' (by rw [hattempt])
  | cancelling => exact releases_of_cancelling hs hcleanup
  | closingPipes => exact releases_of_closingPipes hs hcleanup
  | awaiting => exact releases_of_awaiting hs hcleanup
  | closingRest => exact releases_of_closingRest hs hcleanup
  | complete => exact absurd hcleanup hrunning

theorem releases_of_cleaning (hs : (s.attempt i).Sound) (hcleaning : (s.attempt i).Cleaning) :
    Releases i s := by
  rw [Attempt.Cleaning] at hcleaning
  split at hcleaning
  case h_1 hphase =>
    have hrelease : (s.attempt i).release = some { s.attempt i with
        phase := .aborted, releases := (s.attempt i).releases + 1 } := by
      rw [Attempt.release, if_pos hphase]
    exact releases_of_release hs hrelease
  case h_2 hphase => exact releases_of_close hs (.inr hphase) hcleaning
  case h_3 hphase => exact releases_of_close hs (.inl hphase) hcleaning.2
  all_goals exact hcleaning.elim

/-- Serial over LAN is exclusive in every state that calls of `OpenSOL` and of `Close` can reach. -/
theorem exclusive {s : Adapter} (hs : Reachable s) : Exclusive s := by
  have hslot : Slot s := hs.invariant (I := Slot) slot_new fun _ _ _ hs _ hstep => hs.next hstep
  refine ⟨?_, hslot.unique, fun i => (hslot.sound i).releases_eq,
    fun i => (hslot.sound i).behind, fun i => releases_of_cleaning (hslot.sound i)⟩
  rw [hslot.active]
  constructor
  · rintro ⟨i, hi⟩
    exact ⟨i, hi, fun j hj => hslot.unique j i hj hi⟩
  · exact fun h => h.exists

/-- A session that is opened and closed twice, and a call that finds the slot taken. -/
theorem exclusive_closedTwice : ∃ s, Reachable s ∧ s.solActive = false ∧
    (s.attempt 0).releases = 1 ∧ (s.attempt 1).phase = .refused ∧ Exclusive s := by
  have htest : ((exec step (fun _ _ => True) [.reserve 0, .go 0 .newClient, .go 0 .connect,
      .go 0 .activated, .go 0 .receive, .reserve 1, .go 0 .close, .go 0 .cancel, .go 0 .close,
      .go 0 .closePipes, .go 0 (.activateReturns false), .go 0 .finish, .go 0 .awaitDone,
      .release 0] {}).any fun s => decide (s.solActive = false ∧ (s.attempt 0).releases = 1 ∧
        (s.attempt 1).phase = .refused)) = true := by
    decide +kernel
  obtain ⟨s, hs, hactive, hreleases, hphase⟩ := exists_reached_of_exec htest
  exact ⟨s, hs, hactive, hreleases, hphase, exclusive hs⟩

end Adapter

end Outband.Ipmi.Sol
