import Outband.Server.Questions

/-!
# The collector of a host

`Collector` (`internal/telemetry/collector.go`) polls the client of one host and hands what it
reads to the store. `Run` loads the snapshots and polls everything once, and then each kind at its
own interval. It polls only what is among the features that `main` gives it when it starts.

## Implementation notes

`Run` is cut into the part before the loop and one round of the loop. Which ticker is next is up to
the surroundings, so that the intervals are left out, and so are the log lines.
-/

namespace Outband.Inventory

/-- The label of a sensor, which is its name unless the inventory has another. -/
def Host.RenameSensor {Client : Type} (h : Host Client) (name : String) : String :=
  match h.sensorNames.find name with
  | some (_, n) => if n ≠ "" then n else name
  | none => name

end Outband.Inventory

namespace Outband.Telemetry

open Foundation Dialogue
open Bmc (Feature FeatureSet Sensor)
open Server

variable {V : Type}

inductive Poll
  | MCInfo
  | Power
  | Sensors
  | SEL
  | Prune
  deriving DecidableEq, Repr

/-- The feature that a poll is for; pruning is for none. -/
def Poll.feature : Poll → Option Feature
  | MCInfo => some .Identity
  | Power => some .Power
  | Sensors => some .Sensors
  | SEL => some .SEL
  | Prune => none

/-- What a collector is made with. -/
structure Collector where
  RenameSensor : String → String
  Retention : Int
  Features : FeatureSet

namespace Collector

variable (c : Collector)

/-- A week unless another time is set. -/
def retention : Int := if c.Retention ≤ 0 then 7 * 24 * 3600 else c.Retention

/-- A question to the client, whose answer goes to the store. -/
def record (q : Ask) (store : Answer V → Ask) : Talk V Unit := do
  let a ← ask q
  match a.err with
  | some err => let _ ← ask (.SetError err.text)
  | none => let _ ← ask (store a)

def pollMCInfo : Talk V Unit := record .MCInfo fun a => .RecordMCInfo a.info

def pollPower : Talk V Unit := record .PowerStatus fun a => .RecordPower a.status

def pollSensors : Talk V Unit := record .Sensors fun a =>
  .RecordSensors (a.sensors.map fun sn => { sn with Name := c.RenameSensor sn.Name })

def pollSEL : Talk V Unit := record (.SEL 80) fun a => .RecordSEL a.entries

def poll : Poll → Talk V Unit
  | .MCInfo => pollMCInfo
  | .Power => pollPower
  | .Sensors => c.pollSensors
  | .SEL => pollSEL
  | .Prune => do let _ ← ask (.Prune c.retention)

/-- One round of the loop. -/
def tick (p : Poll) : Talk V Unit :=
  if p.feature.all fun f => c.Features.Has f then c.poll p else return

/-- What comes before the loop. -/
def start : Talk V Unit := do
  let _ ← ask .LoadSnapshots
  c.tick .MCInfo
  c.tick .Power
  c.tick .Sensors
  c.tick .SEL

end Collector

/-! ### What a collector asks -/

/-- What a collector with these features asks of a client: a poll of one of them. -/
structure CollectorAllows (features : FeatureSet) (past : List (Ask × Answer V)) (q : Ask) :
    Prop where
  polls : ∀ f ∈ q.needs, features.Has f = true ∧ q ∈ [.MCInfo, .PowerStatus, .Sensors, .SEL 80]
  once : Once past q

variable {c : Collector} {past : List (Ask × Answer V)} {q : Ask}

theorem allows_of_quiet (hq : q.Quiet) (hclosed : Closed past) :
    CollectorAllows c.Features past q where
  polls := by
    rw [hq.needs]
    intro f hf
    cases hf
  once := hclosed.once fun res a => hq.change res a

/-- A poll that is due asks the client once, and the store once. -/
theorem keeps_record {store : Answer V → Ask} (hclosed : Closed past)
    (hpoll : ∀ f ∈ q.needs, c.Features.Has f = true ∧
      q ∈ [.MCInfo, .PowerStatus, .Sensors, .SEL 80])
    (hq : ∀ res (a : Answer V), change res (q, a) = 0) (hstore : ∀ a, (store a).Quiet) :
    (Collector.record q store).Keeps (CollectorAllows c.Features) (fun past _ => Closed past)
      past := by
  refine keeps_ask ⟨hpoll, hclosed.once hq⟩ fun a => ?_
  have hasked : Closed (past ++ [(q, a)]) := hclosed.snoc fun res => hq res a
  have hquiet {q' : Ask} (hq' : q'.Quiet) :
      (ask q' >>= fun _ => pure ()).Keeps (CollectorAllows c.Features) (fun past _ => Closed past)
        (past ++ [(q, a)]) :=
    keeps_ask (allows_of_quiet hq' hasked) fun a => hasked.snoc fun res => hq'.change res a
  split
  case h_1 => exact hquiet trivial
  case h_2 => exact hquiet (hstore a)

theorem keeps_tick (p : Poll) (hclosed : Closed past) :
    (c.tick p : Talk V Unit).Keeps (CollectorAllows c.Features) (fun past _ => Closed past)
      past := by
  rw [Collector.tick]
  split_ifs with hdue
  · cases p with
    | MCInfo | Power | Sensors | SEL =>
        refine keeps_record hclosed ?_ ?_ fun _ => trivial
        · rintro f ⟨⟩
          exact ⟨hdue, by simp⟩
        · intro res a
          cases res <;> rfl
    | Prune =>
        have hprune : (Ask.Prune c.retention).Quiet := trivial
        refine keeps_ask (allows_of_quiet hprune hclosed) fun a => ?_
        exact hclosed.snoc fun res => hprune.change res a
  · exact hclosed

theorem keeps_start :
    (c.start : Talk V Unit).Keeps (CollectorAllows c.Features) (fun past _ => Closed past) [] := by
  have hload : Ask.Quiet .LoadSnapshots := trivial
  refine keeps_ask (allows_of_quiet hload closed_nil) fun a => ?_
  refine (keeps_tick .MCInfo (closed_nil.snoc fun res => hload.change res a)).bind ?_
  intro _ _ hclosed
  refine (keeps_tick .Power hclosed).bind fun _ _ hclosed => ?_
  exact (keeps_tick .Sensors hclosed).bind fun _ _ hclosed => keeps_tick .SEL hclosed

end Outband.Telemetry
