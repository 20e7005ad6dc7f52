import Mathlib.Logic.Function.Basic
import Mathlib.Data.Set.Card
import Outband.Foundation.Transition

/-!
# The single-session KVM bridge

`Bridge` is the record the three console back ends share (`internal/kvm`,
`internal/ilo/rc` and `internal/amt/redir`): the busy flag and the published
session. A `System` adds where each `Acquire` call stands. The actions are the
separately locked sections of `Acquire`, of the session goroutine it starts and
of `Release`, so that a run is an interleaving of any number of clients.

## Implementation notes

An `Acquire` call, the client it connects and the context it derives share one
number. `holder` is not a field of the source: it records which call set the
busy flag last, and no step reads it.
-/

namespace Outband.Kvm

open Foundation

/-- The three back ends that carry their own copy of the bridge. -/
inductive Backend
  | ami
  | ilo
  | amt
  deriving DecidableEq, Repr

/-- Whether a session that ends by itself closes its client. The AMI `Run`
defers `Close`, and the AMT goroutine closes its connection after `Run`; the
iLO `Run` returns and leaves the client open. -/
def Backend.runCloses : Backend → Bool
  | .ami => true
  | .ilo => false
  | .amt => true

/-- The mutable fields of a bridge, guarded by its mutex. -/
structure Bridge where
  active : Bool := false
  cancel : Option Nat := none
  client : Option Nat := none
  deriving DecidableEq, Repr

/-- How far an `Acquire` call has come. -/
inductive Phase
  | idle
  | refused
  | connecting
  | connected
  | failed
  | running
  deriving DecidableEq, Repr

/-- One `Acquire` call with the client and the context that belong to it. -/
structure Call where
  phase : Phase := .idle
  cancelled : Bool := false
  closed : Bool := false
  ended : Bool := false
  released : Bool := false
  deriving DecidableEq, Repr

/-- A bridge together with all calls ever made on it. -/
structure System where
  bridge : Bridge := {}
  call : Nat → Call := fun _ => {}
  holder : Option Nat := none

namespace System

/-- A bridge made by `NewBridge`, before any call. -/
def new : System := {}

/-- Change the record of call `i`. -/
def modify (s : System) (i : Nat) (f : Call → Call) : System :=
  { s with call := Function.update s.call i (f (s.call i)) }

@[simp] theorem modify_bridge (s : System) (i : Nat) (f : Call → Call) :
    (s.modify i f).bridge = s.bridge := rfl

@[simp] theorem modify_holder (s : System) (i : Nat) (f : Call → Call) :
    (s.modify i f).holder = s.holder := rfl

theorem modify_call (s : System) (i j : Nat) (f : Call → Call) :
    (s.modify i f).call j = if j = i then f (s.call i) else s.call j := by
  by_cases h : j = i
  · subst h
    simp [modify]
  · simp [modify, h]

/-- Apply `f` to the call a bridge field points to, if it points to one. -/
def modifyAt (s : System) (field : Option Nat) (f : Call → Call) : System :=
  match field with
  | some j => s.modify j f
  | none => s

@[simp] theorem modifyAt_bridge (s : System) (field : Option Nat) (f : Call → Call) :
    (s.modifyAt field f).bridge = s.bridge := by
  cases field <;> rfl

@[simp] theorem modifyAt_holder (s : System) (field : Option Nat) (f : Call → Call) :
    (s.modifyAt field f).holder = s.holder := by
  cases field <;> rfl

theorem modifyAt_call (s : System) (field : Option Nat) (j : Nat) (f : Call → Call) :
    (s.modifyAt field f).call j = if field = some j then f (s.call j) else s.call j := by
  cases field with
  | none => rfl
  | some i =>
      by_cases h : j = i
      · subst h
        simp [modifyAt, modify_call]
      · have h' : i ≠ j := fun hij => h hij.symm
        simp [modifyAt, modify_call, h, h']

/-- `Bridge.Release`: the published session is taken out of the bridge, its
context cancelled and its client closed. Nothing names the caller. -/
def Release (s : System) : System :=
  let cancel := s.bridge.cancel
  let c := s.bridge.client
  let s := { s with bridge := { active := false, cancel := none, client := none } }
  let s := s.modifyAt cancel fun call => { call with cancelled := true }
  s.modifyAt c fun call => { call with closed := true }

end System

/-- The sections of the bridge code that other clients can observe. -/
inductive Action
  | acquire (i : Nat)
  | connectFails (i : Nat)
  | connectSucceeds (i : Nat)
  | publish (i : Nat)
  | runEnds (i : Nat)
  | release (i : Nat)
  deriving DecidableEq, Repr

/-- One step of a bridge system. An action of call `i` is possible only where
that call stands at the corresponding line. -/
def step (b : Backend) : Action → System → Option System
  | .acquire i, s =>
      if (s.call i).phase ≠ .idle then none
      else if s.bridge.active then some (s.modify i fun c => { c with phase := .refused })
      else
        some { s.modify i (fun c => { c with phase := .connecting }) with
          bridge := { s.bridge with active := true }, holder := some i }
  | .connectFails i, s =>
      if (s.call i).phase ≠ .connecting then none
      else
        some { s.modify i (fun c => { c with phase := .failed, cancelled := true }) with
          bridge := { s.bridge with active := false } }
  | .connectSucceeds i, s =>
      if (s.call i).phase ≠ .connecting then none
      else some (s.modify i fun c => { c with phase := .connected })
  | .publish i, s =>
      if (s.call i).phase ≠ .connected then none
      else
        some { s.modify i (fun c => { c with phase := .running }) with
          bridge := { s.bridge with cancel := some i, client := some i } }
  | .runEnds i, s =>
      if (s.call i).phase ≠ .running ∨ (s.call i).ended then none
      else
        -- the clean-up is guarded by `b.client == c`
        some { s.modify i (fun c =>
            { c with ended := true, closed := c.closed || b.runCloses }) with
          bridge := if s.bridge.client = some i then {} else s.bridge }
  | .release i, s =>
      -- `handleKVMWS` defers the returned function, so it runs once per call
      if (s.call i).phase ≠ .running ∨ (s.call i).released then none
      else some (s.Release.modify i fun c => { c with released := true })

namespace System

/-- The call has passed the busy check, and its session has neither failed, ended nor been
closed. -/
def Live (s : System) (i : Nat) : Prop :=
  (s.call i).phase = .connecting ∨ (s.call i).phase = .connected ∨
    ((s.call i).phase = .running ∧ (s.call i).ended = false ∧ (s.call i).closed = false)

/-- The busy flag is set and call `i` is the one that set it. -/
def HoldsSlot (s : System) (i : Nat) : Prop :=
  s.bridge.active = true ∧ s.holder = some i

/-- Connect has returned this call's client, and `Close` has not been called on it. -/
def Open (s : System) (i : Nat) : Prop :=
  ((s.call i).phase = .connected ∨ (s.call i).phase = .running) ∧ (s.call i).closed = false

end System

end Outband.Kvm
