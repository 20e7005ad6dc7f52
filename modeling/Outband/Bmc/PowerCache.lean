import Mathlib.Logic.Function.Basic
import Mathlib.Order.MinMax
import Mathlib.Tactic.SplitIfs
import Outband.Foundation.Transition

/-!
# The power cache

Every adapter answers `PowerStatus` from a cache that is three seconds old at
most, and `PowerControl` empties the cache once the BMC has taken the action.
Checking the cache, asking the BMC, storing the answer, issuing an action and
emptying the cache are separate sections, so that other calls may come in
between. An `Adapter` is what the four clients differ in (`client.go` of
`internal/ipmi`, `internal/ilo`, `internal/amt` and `internal/idrac`).

## Implementation notes

The BMC takes an action in the section that issues it, and its reply to a query
shows its state in the section that asks. `issued` lists the actions it has
taken. A reading carries the number of actions issued before it, and a query the
number of the last action that had been invalidated when it started; no step
depends on either. A call that returns an error may do so in front of its request, too:
the action may be unknown, or the client or the backend may not be there.
-/

namespace Outband.Bmc

open Foundation

inductive PowerAction
  | on
  | off
  | cycle
  | soft
  | other (action : String)
  deriving DecidableEq, Repr

structure PowerStatus where
  IsOn : Bool
  PowerRestorePolicy : String := ""
  PowerFault : Bool := false
  ChassisIntrusion : Bool := false
  deriving DecidableEq, Repr

/-! ### The four adapters -/

/-- What an adapter reads from a reply and what it sends for an action. -/
structure Adapter where
  Reply : Type
  Command : Type
  status : Reply → PowerStatus
  /-- Undefined for an action the adapter does not know. -/
  command : PowerAction → Option Command
  /-- Queries and actions hold one mutex, the action until the cache is empty. -/
  serial : Bool

/-- The commands of `goipmi.ChassisControl`. -/
inductive ChassisControl
  | powerDown
  | powerUp
  | powerCycle
  | softShutdown
  deriving DecidableEq, Repr

/-- The reply to Get Chassis Status, as far as it is used. -/
structure ChassisStatus where
  PowerIsOn : Bool
  PowerRestorePolicy : String
  PowerFault : Bool
  ChassisIntrusionActive : Bool
  deriving DecidableEq, Repr

def ipmi : Adapter where
  Reply := ChassisStatus
  Command := ChassisControl
  status res := ⟨res.PowerIsOn, res.PowerRestorePolicy, res.PowerFault, res.ChassisIntrusionActive⟩
  command
    | .on => some .powerUp
    | .off => some .powerDown
    | .cycle => some .powerCycle
    | .soft => some .softShutdown
    | .other _ => none
  serial := true

/-- The reply is the `PowerState` of the system. No character but `O`, `o`, `N` and `n` folds to a
letter of `On`. -/
def ilo : Adapter where
  Reply := String
  Command := String
  status powerState := { IsOn := decide (powerState.toLower = "on") }
  command
    | .on => some "On"
    | .off => some "ForceOff"
    | .cycle => some "ForceRestart"
    | .soft => some "PushPowerButton"
    | .other _ => none
  serial := false

/-- The reply is the number in `PowerState`, 0 if there is none. -/
def amt : Adapter where
  Reply := Int
  Command := Int
  status n := { IsOn := decide (n = 2) }
  command
    | .on => some 2
    | .off | .soft => some 8
    | .cycle => some 5
    | .other _ => none
  serial := false

/-- The backend makes the status and looks at the action. -/
def idrac : Adapter where
  Reply := PowerStatus
  Command := PowerAction
  status := id
  command := some
  serial := false

/-! ### Calls -/

/-- A status with the number of actions issued before it was read. -/
structure Reading where
  status : PowerStatus
  after : Nat
  deriving DecidableEq, Repr

structure CachedPower where
  takenAt : Nat
  reading : Reading
  deriving DecidableEq, Repr

/-- How far a `PowerStatus` call has come. All of its phases keep the number of the last action
whose call had returned when it started. -/
inductive StatusCall
  | idle
  | started (floor : Nat)
  | missed (floor : Nat)
  | answered (floor : Nat) (r : Reading)
  | returned (floor : Nat) (r : Reading)
  | failed
  deriving DecidableEq, Repr

/-- How far a `PowerControl` call has come, with the number of its action. -/
inductive ControlCall
  | idle
  | issued (n : Nat)
  | returned
  | failed
  deriving DecidableEq, Repr

/-- An adapter with its calls and the actions the BMC has taken. -/
structure Client (A : Adapter) where
  powerCache : Option CachedPower := none
  clock : Nat := 0
  /-- The action that holds the mutex of a serial adapter. -/
  held : Option Nat := none
  issued : List A.Command := []
  /-- The number of the last action whose call has emptied the cache and returned. -/
  settled : Nat := 0
  status : Nat → StatusCall := fun _ => .idle
  control : Nat → ControlCall := fun _ => .idle

/-- The sections of the calls, and the passage of time. -/
inductive Act (A : Adapter)
  | start (i : Nat)
  | check (i : Nat)
  | ask (i : Nat) (reply : A.Reply)
  | askFails (i : Nat)
  | store (i : Nat)
  | issue (j : Nat) (action : PowerAction)
  | issueFails (j : Nat)
  | invalidate (j : Nat)
  | tick (d : Nat)

/-- Three seconds, in nanoseconds. -/
def maxAge : Nat := 3000000000

namespace Client

variable {A : Adapter}

/-- The cached reading, unless it is too old. -/
def cached (s : Client A) : Option Reading :=
  match s.powerCache with
  | some c => if s.clock - c.takenAt < maxAge then some c.reading else none
  | none => none

/-- A request can be made. -/
def Free (s : Client A) : Prop := A.serial = true → s.held = none

instance (s : Client A) : Decidable s.Free := inferInstanceAs (Decidable (_ → _))

def setStatus (s : Client A) (i : Nat) (c : StatusCall) : Client A :=
  { s with status := Function.update s.status i c }

def setControl (s : Client A) (j : Nat) (c : ControlCall) : Client A :=
  { s with control := Function.update s.control j c }

def step : Act A → Client A → Option (Client A)
  | .start i, s =>
      match s.status i with
      | .idle => some (s.setStatus i (.started s.settled))
      | _ => none
  | .check i, s =>
      match s.status i with
      | .started floor =>
          match s.cached with
          | some r => some (s.setStatus i (.returned floor r))
          | none => some (s.setStatus i (.missed floor))
      | _ => none
  | .ask i reply, s =>
      match s.status i with
      | .missed floor =>
          if s.Free then
            some (s.setStatus i (.answered floor ⟨A.status reply, s.issued.length⟩))
          else none
      | _ => none
  | .askFails i, s =>
      match s.status i with
      | .started _ | .missed _ => some (s.setStatus i .failed)
      | _ => none
  | .store i, s =>
      match s.status i with
      | .answered floor r => some { s.setStatus i (.returned floor r) with
          powerCache := some ⟨s.clock, r⟩ }
      | _ => none
  | .issue j action, s =>
      match s.control j, A.command action with
      | .idle, some c =>
          if s.Free then
            some { s.setControl j (.issued (s.issued.length + 1)) with
              held := some j, issued := s.issued ++ [c] }
          else none
      | _, _ => none
  | .issueFails j, s =>
      match s.control j with
      | .idle => some (s.setControl j .failed)
      | .issued _ => some { s.setControl j .failed with held := none }
      | _ => none
  | .invalidate j, s =>
      match s.control j with
      | .issued n => some { s.setControl j .returned with
          powerCache := none, held := none, settled := max s.settled n }
      | _ => none
  | .tick d, s => some { s with clock := s.clock + d }

def Run (A : Adapter) (ok : Act A → Client A → Prop) (s : Client A) : Prop := Reached step ok {} s

/-- No call returns a status from before an action that had returned when it started. -/
def NotStale (s : Client A) : Prop := ∀ i floor r, s.status i = .returned floor r → floor ≤ r.after

/-! ### The condition -/

/-- An answer is stored only when every action that has emptied the cache was issued before the
BMC was asked. -/
def Current : Act A → Client A → Prop
  | .store i, s => match s.status i with
      | .answered _ r => s.settled ≤ r.after
      | _ => True
  | _, _ => True

instance (s : Client A) : (a : Act A) → Decidable (Current a s)
  | .store i => by
      change Decidable (match s.status i with
        | .answered _ r => s.settled ≤ r.after
        | _ => True)
      split <;> infer_instance
  | .start _ | .check _ | .ask _ _ | .askFails _ | .issue _ _ | .issueFails _ | .invalidate _
  | .tick _ => inferInstanceAs (Decidable True)

/-! ### What the steps keep -/

variable {ok : Act A → Client A → Prop} {a : Act A} {s s' : Client A}

/-- What is known of a call when `settled` actions have returned. -/
def Sound (settled : Nat) : StatusCall → Prop
  | .started floor | .missed floor => floor ≤ settled
  | .answered floor r | .returned floor r => floor ≤ r.after
  | .idle | .failed => True

theorem Sound.mono {settled settled' : Nat} {c : StatusCall} (h : Sound settled c)
    (hle : settled ≤ settled') : Sound settled' c := by
  cases c with
  | started floor | missed floor => exact le_trans h hle
  | answered | returned => exact h
  | idle | failed => trivial

/-- What is known of an action when `issued` actions have been issued. -/
def Counted (issued : Nat) : ControlCall → Prop
  | .issued n => n ≤ issued
  | .idle | .returned | .failed => True

theorem Counted.succ {issued : Nat} {c : ControlCall} (h : Counted issued c) :
    Counted (issued + 1) c := by
  cases c with
  | issued n => exact Nat.le_succ_of_le h
  | idle | returned | failed => trivial

/-- The actions that have returned are among those issued, and the cached reading is not from
before any of them. -/
structure Fresh (s : Client A) : Prop where
  settled : s.settled ≤ s.issued.length
  actions : ∀ j, Counted s.issued.length (s.control j)
  cache : ∀ c ∈ s.powerCache, s.settled ≤ c.reading.after
  calls : ∀ i, Sound s.settled (s.status i)

theorem Fresh.setStatus (hs : Fresh s) (i : Nat) {c : StatusCall} (hc : Sound s.settled c) :
    Fresh (s.setStatus i c) where
  settled := hs.settled
  actions := hs.actions
  cache := hs.cache
  calls := (Function.forall_update_iff _ fun _ => Sound s.settled).mpr ⟨hc, fun j _ => hs.calls j⟩

theorem Fresh.cached {r : Reading} (hs : Fresh s) (hr : s.cached = some r) :
    s.settled ≤ r.after := by
  rw [Client.cached] at hr
  split at hr
  case h_1 c hc =>
    split_ifs at hr
    cases hr
    exact hs.cache c hc
  case h_2 => cases hr

theorem Fresh.check {i : Nat} (hs : Fresh s) (hstep : step (.check i) s = some s') :
    Fresh s' := by
  have hcall := hs.calls i
  rw [step] at hstep
  split at hstep
  case h_1 floor hfloor =>
    rw [hfloor] at hcall
    split at hstep
    case h_1 r hr =>
      cases hstep
      exact hs.setStatus i (le_trans hcall (hs.cached hr))
    case h_2 =>
      cases hstep
      exact hs.setStatus i hcall
  case h_2 => cases hstep

/-- The answer to a query shows what the actions before it have left. -/
theorem Fresh.ask {i : Nat} {reply : A.Reply} (hs : Fresh s)
    (hstep : step (.ask i reply) s = some s') : Fresh s' := by
  have hcall := hs.calls i
  rw [step] at hstep
  split at hstep
  case h_1 floor hfloor =>
    rw [hfloor] at hcall
    split_ifs at hstep
    cases hstep
    exact hs.setStatus i (le_trans hcall hs.settled)
  case h_2 => cases hstep

theorem Fresh.store {i : Nat} (hs : Fresh s) (hok : Current (.store i) s)
    (hstep : step (.store i) s = some s') : Fresh s' := by
  have hcall := hs.calls i
  rw [step] at hstep
  rw [Current] at hok
  split at hstep
  case h_1 floor r hanswered =>
    cases hstep
    rw [hanswered] at hcall hok
    have hset := hs.setStatus i (c := .returned floor r) hcall
    refine ⟨hset.settled, hset.actions, ?_, hset.calls⟩
    intro c hc
    cases hc
    exact hok
  case h_2 => cases hstep

theorem Fresh.setControl (hs : Fresh s) (j : Nat) {c : ControlCall}
    (hc : Counted s.issued.length c) : Fresh (s.setControl j c) where
  settled := hs.settled
  actions := (Function.forall_update_iff _ fun _ => Counted s.issued.length).mpr
    ⟨hc, fun k _ => hs.actions k⟩
  cache := hs.cache
  calls := hs.calls

theorem Fresh.issue {j : Nat} {action : PowerAction} (hs : Fresh s)
    (hstep : step (.issue j action) s = some s') : Fresh s' := by
  rw [step] at hstep
  split at hstep
  case h_1 c _ _ =>
    split_ifs at hstep
    cases hstep
    have hlength : (s.issued ++ [c]).length = s.issued.length + 1 := by simp
    refine ⟨?_, ?_, hs.cache, hs.calls⟩
    · change s.settled ≤ (s.issued ++ [c]).length
      rw [hlength]
      exact Nat.le_succ_of_le hs.settled
    · refine (Function.forall_update_iff _ fun _ => Counted (s.issued ++ [c]).length).mpr ⟨?_, ?_⟩
      · exact hlength.ge
      · intro k _
        rw [hlength]
        exact (hs.actions k).succ
  case h_2 => cases hstep

theorem Fresh.invalidate {j : Nat} (hs : Fresh s) (hstep : step (.invalidate j) s = some s') :
    Fresh s' := by
  rw [step] at hstep
  split at hstep
  case h_1 n hn =>
    cases hstep
    have hcounted := hs.actions j
    rw [hn] at hcounted
    have hset := hs.setControl j (c := .returned) trivial
    refine ⟨max_le hs.settled hcounted, hset.actions, ?_, ?_⟩
    · intro c hc
      cases hc
    · exact fun i => (hs.calls i).mono (le_max_left _ _)
  case h_2 => cases hstep

theorem Fresh.next (hs : Fresh s) (hok : Current a s) (hstep : step a s = some s') :
    Fresh s' := by
  cases a with
  | check i => exact hs.check hstep
  | ask i reply => exact hs.ask hstep
  | store i => exact hs.store hok hstep
  | issue j action => exact hs.issue hstep
  | invalidate j => exact hs.invalidate hstep
  | start i =>
      rw [step] at hstep
      split at hstep
      case h_1 =>
        cases hstep
        exact hs.setStatus i le_rfl
      case h_2 => cases hstep
  | askFails i =>
      rw [step] at hstep
      split at hstep
      case h_1 | h_2 =>
        cases hstep
        exact hs.setStatus i trivial
      case h_3 => cases hstep
  | issueFails j =>
      rw [step] at hstep
      have hset := hs.setControl j (c := .failed) trivial
      split at hstep
      case h_1 =>
        cases hstep
        exact hset
      case h_2 =>
        cases hstep
        exact ⟨hset.settled, hset.actions, hset.cache, hset.calls⟩
      case h_3 => cases hstep
  | tick d =>
      cases hstep
      exact ⟨hs.settled, hs.actions, hs.cache, hs.calls⟩

theorem fresh_new : Fresh ({} : Client A) where
  settled := le_rfl
  actions _ := trivial
  cache _ h := by cases h
  calls _ := trivial

/-- In every run that stores current answers only, no status is older than an action that had
returned. -/
theorem status_not_stale (hrun : Run A Current s) : NotStale s := by
  have hs : Fresh s := hrun.invariant (I := Fresh) fresh_new
    fun _ _ _ hs hok hstep => hs.next hok hstep
  intro i floor r hr
  have hcall := hs.calls i
  rwa [hr] at hcall

/-- A query, an action and a query that misses the emptied cache. -/
theorem status_not_stale_after_action : ∃ s, Run ilo Current s ∧ s.issued.length = 1 ∧
    s.status 1 = .returned 1 ⟨{ IsOn := false }, 1⟩ ∧ NotStale s := by
  have htest : ((exec step Current [.start 0, .check 0, .ask 0 "On", .store 0, .issue 0 .off,
      .invalidate 0, .start 1, .check 1, .ask 1 "Off", .store 1] ({} : Client ilo)).any fun s =>
      decide (s.issued.length = 1 ∧
        s.status 1 = .returned 1 ⟨{ IsOn := false }, 1⟩)) = true := by
    decide +kernel
  obtain ⟨s, hrun, hissued, hreturned⟩ := exists_reached_of_exec htest
  exact ⟨s, hrun, hissued, hreturned, status_not_stale hrun⟩

/-- The answer to a query that an action overtakes is stored behind it. -/
def overtakenQuery (reply : A.Reply) : List (Act A) :=
  [.start 0, .check 0, .ask 0 reply, .issue 0 .off, .invalidate 0, .store 0, .start 1, .check 1]

theorem stale_of_overtakenQuery (reply : A.Reply) (r : Reading) (hr : r.after = 0)
    (htest : ((exec step (fun _ _ => True) (overtakenQuery reply) ({} : Client A)).any fun s =>
      decide (s.status 1 = .returned 1 r)) = true) :
    ¬ ∀ s, Run A (fun _ _ => True) s → NotStale s := by
  obtain ⟨s, hrun, hreturned⟩ := exists_reached_of_exec htest
  intro hall
  have hfloor := hall s hrun 1 1 r hreturned
  rw [hr] at hfloor
  exact absurd hfloor (by decide)

/-- On every adapter a status from before the action is returned behind it. -/
theorem status_stale :
    (¬ ∀ s, Run ipmi (fun _ _ => True) s → NotStale s) ∧
      (¬ ∀ s, Run ilo (fun _ _ => True) s → NotStale s) ∧
      (¬ ∀ s, Run amt (fun _ _ => True) s → NotStale s) ∧
      ¬ ∀ s, Run idrac (fun _ _ => True) s → NotStale s := by
  refine ⟨?_, ?_, ?_, ?_⟩
  · exact stale_of_overtakenQuery ⟨true, "always-off", false, false⟩
      ⟨⟨true, "always-off", false, false⟩, 0⟩ rfl (by decide +kernel)
  · exact stale_of_overtakenQuery "On" ⟨{ IsOn := true }, 0⟩ rfl (by decide +kernel)
  · exact stale_of_overtakenQuery (2 : Int) ⟨{ IsOn := true }, 0⟩ rfl (by decide +kernel)
  · exact stale_of_overtakenQuery ({ IsOn := true } : PowerStatus) ⟨{ IsOn := true }, 0⟩ rfl
      (by decide +kernel)

end Client

end Outband.Bmc
