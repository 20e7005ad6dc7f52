import Outband.Bmc.EventLog
import Outband.Bmc.PowerCache
import Outband.Foundation.Pool
import Outband.Inventory.Features
import Outband.Telemetry.History

/-!
# What the parts of the server ask

A page and a collector (`internal/httpapi/server.go`, `internal/telemetry/collector.go`) deal with
one host. They ask its client, its KVM bridge, the telemetry store, the connection to the browser,
and the clock.

## Implementation notes

An `Answer` has one field for each kind of result; an answer sets those of its question. `Proxy` is
the time for which `handleSOLWS` copies between its two connections, and `Serve` the time for which
`handleKVMWS` runs `rfb.Serve`.
-/

namespace Outband.Bmc

/-- Identity of a BMC, for display. -/
structure MCInfo where
  FirmwareRev : String := ""
  ProtocolVersion : String := ""
  Manufacturer : String := ""
  Model : String := ""
  DeviceID : Nat := 0
  ManufacturerID : Nat := 0
  ProductID : Nat := 0
  deriving DecidableEq, Repr

end Outband.Bmc

namespace Outband.Server

open Foundation
open Bmc (Feature FeatureSet MCInfo PowerStatus Sensor)
open Bmc.EventLog (SELEntry)
open Telemetry (Sample)

variable {V : Type}

/-! ### Questions -/

inductive Ask
  | Features
  | AsConsole
  | MCInfo
  | PowerStatus
  | PowerControl (action : String)
  | Sensors
  | SEL (limit : Nat)
  | OpenSOL
  | CloseSOL
  | Acquire
  | Release
  | Status
  | Upgrade
  | WriteMessage (text : String)
  | Proxy
  | Serve
  | CloseSocket
  | Meta
  | LatestMCInfo
  | LatestPower
  | LatestSensors
  | LatestSEL
  | ListSensorNames (first last : Int)
  | QuerySamples (sensor : String) (first last : Int)
  | LoadSnapshots
  | RecordMCInfo (info : Option MCInfo)
  | RecordPower (ps : PowerStatus)
  | RecordSensors (sensors : List Sensor)
  | RecordSEL (entries : List SELEntry)
  | SetError (msg : String)
  | Prune (retention : Int)
  | Now
  deriving DecidableEq

/-- An error, and whether it is one of the `ErrBusy`. -/
structure AskError where
  text : String
  busy : Bool := false
  deriving DecidableEq, Repr

/-- What the collector says about its host. -/
structure Meta where
  LastError : String := ""
  Warm : Bool := false
  deriving DecidableEq, Repr

structure Answer (V : Type) where
  err : Option AskError := none
  capabilities : Option FeatureSet := none
  console : Bool := false
  info : Option MCInfo := none
  status : PowerStatus := { IsOn := false }
  latest : Option PowerStatus := none
  sensors : List Sensor := []
  entries : List SELEntry := []
  names : List String := []
  points : List (Sample V) := []
  health : Meta := {}
  text : String := ""
  now : Int := 0

abbrev Talk (V α : Type) := Dialogue Ask (Answer V) α

def ask (q : Ask) : Talk V (Answer V) := .ask q .done

/-- The feature of the host that a question makes use of. -/
def Ask.needs : Ask → Option Feature
  | .PowerControl _ | .PowerStatus => some .Power
  | .MCInfo => some .Identity
  | .Sensors => some .Sensors
  | .SEL _ => some .SEL
  | .AsConsole | .OpenSOL | .CloseSOL | .Proxy => some .Console
  | .Acquire | .Release | .Status | .Serve => some .KVM
  | _ => none

/-- A question that makes use of no feature, and opens and closes nothing. -/
def Ask.Quiet : Ask → Prop
  | .Features | .Meta | .LatestMCInfo | .LatestPower | .LatestSensors | .LatestSEL
  | .ListSensorNames .. | .QuerySamples .. | .LoadSnapshots | .RecordMCInfo _ | .RecordPower _
  | .RecordSensors _ | .RecordSEL _ | .SetError _ | .Prune _ | .Now => True
  | _ => False

/-- What a page opens and has to close. -/
inductive Resource
  | slot
  | sol
  | socket
  deriving DecidableEq, Repr

/-- What an exchange opens, counted as 1, or closes. -/
def change : Resource → Ask × Answer V → ℤ
  | .slot, (.Acquire, a) | .sol, (.OpenSOL, a) | .socket, (.Upgrade, a) =>
      if a.err = none then 1 else 0
  | .slot, (.Release, _) | .sol, (.CloseSOL, _) | .socket, (.CloseSocket, _) => -1
  | _, _ => 0

/-- What the exchanges have opened and not closed. -/
def held (res : Resource) (past : List (Ask × Answer V)) : ℤ := (past.map (change res)).sum

/-- Nothing is left open. -/
def Closed (past : List (Ask × Answer V)) : Prop := ∀ res, held res past = 0

/-- Whatever the answer, nothing is open twice, and nothing is closed that is not open. -/
def Once (past : List (Ask × Answer V)) (q : Ask) : Prop :=
  ∀ res a, 0 ≤ held res (past ++ [(q, a)]) ∧ held res (past ++ [(q, a)]) ≤ 1

/-! ### Rules -/

variable {α β : Type} {past : List (Ask × Answer V)} {q : Ask}

theorem held_snoc (res : Resource) (past : List (Ask × Answer V)) (ex : Ask × Answer V) :
    held res (past ++ [ex]) = held res past + change res ex := by
  simp [held]

theorem closed_nil : Closed ([] : List (Ask × Answer V)) := by
  intro res
  rfl

theorem Closed.snoc (hclosed : Closed past) {a : Answer V} (hq : ∀ res, change res (q, a) = 0) :
    Closed (past ++ [(q, a)]) := by
  intro res
  rw [held_snoc, hclosed res, hq res, add_zero]

theorem Closed.once (hclosed : Closed past) (hq : ∀ res (a : Answer V), change res (q, a) = 0) :
    Once past q := by
  intro res a
  rw [hclosed.snoc (fun res => hq res a) res]
  exact ⟨le_rfl, zero_le_one⟩

/-- The answer to a quiet question changes nothing. -/
theorem Ask.Quiet.change (hq : q.Quiet) (res : Resource) (a : Answer V) :
    change res (q, a) = 0 := by
  cases q <;> first | exact False.elim hq | (cases res <;> rfl)

theorem Ask.Quiet.needs (hq : q.Quiet) : q.needs = none := by
  cases q <;> first | exact False.elim hq | rfl

theorem keeps_ask {next : Answer V → Talk V β}
    {allowed : List (Ask × Answer V) → Ask → Prop} {post : List (Ask × Answer V) → β → Prop}
    (hq : allowed past q) (hnext : ∀ a, (next a).Keeps allowed post (past ++ [(q, a)])) :
    (ask q >>= next).Keeps allowed post past := ⟨hq, hnext⟩

end Outband.Server
