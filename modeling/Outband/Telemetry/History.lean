import Mathlib.Data.List.Dedup
import Mathlib.Data.List.Infix
import Mathlib.Data.String.Basic
import Outband.Foundation.Decimal
import Outband.Foundation.Transition
import Outband.Inventory.Config

/-!
# The history of the sensors

`RecordSensors` (`internal/telemetry/store.go`) adds a row to the table `samples` for every
sensor that is there and has a number for its value (`internal/telemetry/parse.go`). `Prune`
deletes the rows that are older than the retention. `QuerySamples` and `ListSensorNames` read a
window of time. As long as the window lies within the retention they read what was recorded in
it, and nothing is missing.

## Implementation notes

`recorded` has all the rows that were ever committed; no step reads it. The clock is in seconds and
does not go back. `RecordSensors` is one step: its rows have the time of their commit, where the
source reads the clock before it opens the transaction. A transaction that fails leaves the table
as it was, so that it is no step. Rows of the same second are returned in the order of their
insertion. `number` is `strconv.ParseFloat`, `isDigit` is `unicode.IsDigit`, and `lower` is
`unicode.ToLower`.
-/

namespace Outband.Bmc

/-- A reading of a sensor, for display. -/
structure Sensor where
  ID : String
  Name : String
  Typ : String
  Value : String
  Unit : String
  Status : String
  Present : Bool
  deriving DecidableEq, Repr

end Outband.Bmc

namespace Outband.Telemetry

open Foundation
open Bmc (Sensor)
open Inventory (TrimSpace ToLower)

variable {V : Type}

/-! ### Samples -/

structure Sample (V : Type) where
  TS : Int
  Sensor : String
  Kind : String
  Value : V
  Unit : String
  Status : String
  deriving DecidableEq, Repr

/-- A row of the table `samples`. -/
structure SampleRow (V : Type) extends Sample V where
  host_id : String
  deriving DecidableEq, Repr

/-- `strings.Contains`. -/
def contains (s part : String) : Bool := part.toList <:+: s.toList

/-- What a sample is made with. -/
structure Reader (V : Type) where
  lower : Char → Char
  isDigit : Char → Bool
  number : String → Option V

namespace Reader

variable (R : Reader V)

def sensorKind (typ : String) : String :=
  let t := ToLower R.lower typ
  if contains t "temperature" then "temp"
  else if contains t "fan" then "fan"
  else if contains t "voltage" then "voltage"
  else if contains t "current" then "current"
  else if contains t "power" then "power"
  else "other"

/-- The characters that a number is read from. -/
def numeric (r : Char) : Bool :=
  R.isDigit r || r = '.' || r = '-' || r = '+' || r = 'e' || r = 'E'

def parseSensorValue (raw : String) : Option V :=
  let raw := (TrimSpace raw).toList
  let folded := raw.map Char.toLower
  if raw = [] ∨ folded = "na".toList ∨ folded = "n/a".toList then none
  else
    let digits := raw.takeWhile R.numeric
    if digits = [] then none else R.number (String.ofList digits)

/-- The row that `RecordSensors` inserts for a sensor, if it inserts one. -/
def sampleRow (hostID : String) (ts : Int) (sn : Sensor) : Option (SampleRow V) :=
  match R.parseSensorValue sn.Value with
  | some v =>
      if sn.Present then
        some { TS := ts, Sensor := sn.Name, Kind := R.sensorKind sn.Typ, Value := v,
               Unit := sn.Unit, Status := sn.Status, host_id := hostID }
      else none
  | none => none

end Reader

/-! ### The table -/

structure History (V : Type) where
  samples : List (SampleRow V) := []
  clock : Int
  recorded : List (SampleRow V) := []

inductive HistoryAct
  | RecordSensors (hostID : String) (sensors : List Sensor)
  | Prune (retention : Int)
  | tick (d : Nat)

/-- The row belongs to the host and to the time between `first` and `last`. -/
def SampleRow.Within (hostID : String) (first last : Int) (r : SampleRow V) : Prop :=
  r.host_id = hostID ∧ first ≤ r.TS ∧ r.TS ≤ last

instance (hostID : String) (first last : Int) (r : SampleRow V) :
    Decidable (r.Within hostID first last) :=
  inferInstanceAs (Decidable (r.host_id = hostID ∧ first ≤ r.TS ∧ r.TS ≤ last))

namespace History

def step (R : Reader V) : HistoryAct → History V → Option (History V)
  | .RecordSensors hostID sensors, s =>
      let rows := sensors.filterMap (R.sampleRow hostID s.clock)
      some { s with samples := s.samples ++ rows, recorded := s.recorded ++ rows }
  | .Prune retention, s =>
      some { s with samples := s.samples.filter fun r => s.clock - retention ≤ r.TS }
  | .tick d, s => some { s with clock := s.clock + d }

def QuerySamples (s : History V) (hostID sensor : String) (first last : Int) : List (Sample V) :=
  ((s.samples.filter fun r => r.Within hostID first last ∧ r.Sensor = sensor).map
    SampleRow.toSample).mergeSort fun a b => a.TS ≤ b.TS

def ListSensorNames (s : History V) (hostID : String) (first last : Int) : List String :=
  ((s.samples.filter fun r => r.Within hostID first last).map
    fun r => r.Sensor).dedup.mergeSort fun a b => a ≤ b

/-- Nothing is pruned within this time. -/
def Retains (retention : Int) : HistoryAct → History V → Prop
  | .Prune r, _ => retention ≤ r
  | .RecordSensors .., _ | .tick _, _ => True

instance (retention : Int) : (a : HistoryAct) → (s : History V) → Decidable (Retains retention a s)
  | .Prune r, _ => inferInstanceAs (Decidable (retention ≤ r))
  | .RecordSensors .., _ | .tick _, _ => inferInstanceAs (Decidable True)

/-! ### Reading a window -/

variable {R : Reader V} {s s' : History V} {w : Int} {a : HistoryAct}

theorem perm_querySamples (s : History V) (hostID sensor : String) (first last : Int) :
    (s.QuerySamples hostID sensor first last).Perm
      ((s.samples.filter fun r => r.Within hostID first last ∧ r.Sensor = sensor).map
        SampleRow.toSample) :=
  List.mergeSort_perm ..

theorem pairwise_querySamples (s : History V) (hostID sensor : String) (first last : Int) :
    (s.QuerySamples hostID sensor first last).Pairwise fun a b => a.TS ≤ b.TS := by
  have hsorted : (s.QuerySamples hostID sensor first last).Pairwise
      fun a b => decide (a.TS ≤ b.TS) = true :=
    List.pairwise_mergeSort
      (fun a b c hab hbc => decide_eq_true ((of_decide_eq_true hab).trans (of_decide_eq_true hbc)))
      (fun a b => by simpa using le_total a.TS b.TS) _
  exact hsorted.imp of_decide_eq_true

theorem mem_listSensorNames (s : History V) (hostID name : String) (first last : Int) :
    name ∈ s.ListSensorNames hostID first last ↔
      ∃ r ∈ s.samples, r.Within hostID first last ∧ r.Sensor = name := by
  rw [ListSensorNames, List.mem_mergeSort, List.mem_dedup]
  simp [and_assoc]

theorem pairwise_listSensorNames (s : History V) (hostID : String) (first last : Int) :
    (s.ListSensorNames hostID first last).Pairwise (· < ·) := by
  have hsorted : (s.ListSensorNames hostID first last).Pairwise
      fun a b => decide (a ≤ b) = true :=
    List.pairwise_mergeSort
      (fun a b c hab hbc => decide_eq_true ((of_decide_eq_true hab).trans (of_decide_eq_true hbc)))
      (fun a b => by simpa using le_total a b) _
  have hdistinct : (s.ListSensorNames hostID first last).Nodup :=
    (List.mergeSort_perm ..).nodup_iff.mpr (List.nodup_dedup _)
  exact (hsorted.and hdistinct).imp fun h => lt_of_le_of_ne (of_decide_eq_true h.1) h.2

/-! ### What the table keeps -/

/-- Within the retention the table has what was recorded, and nothing is from the future. -/
structure Kept (w : Int) (s : History V) : Prop where
  past : ∀ r ∈ s.recorded, r.TS ≤ s.clock
  within : (s.samples.filter fun r => s.clock - w ≤ r.TS) =
    s.recorded.filter fun r => s.clock - w ≤ r.TS

/-- A stricter filter sees the same rows. -/
theorem Kept.filter (h : s.Kept w) {p : SampleRow V → Bool}
    (hp : ∀ r, p r = true → s.clock - w ≤ r.TS) : s.samples.filter p = s.recorded.filter p := by
  have hboth (l : List (SampleRow V)) :
      (l.filter fun r => s.clock - w ≤ r.TS).filter p = l.filter p := by
    rw [List.filter_filter]
    refine List.filter_congr fun r _ => ?_
    rw [Bool.and_eq_left_iff_imp]
    exact fun h => decide_eq_true (hp r h)
  rw [← hboth s.samples, h.within, hboth]

theorem ts_of_sampleRow {hostID : String} {ts : Int} {sn : Sensor} {r : SampleRow V}
    (h : R.sampleRow hostID ts sn = some r) : r.TS = ts := by
  rw [Reader.sampleRow] at h
  split at h
  case h_1 =>
    split at h
    case isTrue => exact congrArg (fun r => r.TS) (Option.some.inj h).symm
    case isFalse => cases h
  case h_2 => cases h

theorem Kept.step (h : s.Kept w) (hok : Retains w a s) (hs : s.step R a = some s') :
    s'.Kept w := by
  cases a with
  | RecordSensors hostID sensors =>
      cases hs
      constructor
      · intro r hr
        rcases List.mem_append.mp hr with hr | hr
        · exact h.past r hr
        · obtain ⟨sn, -, hrow⟩ := List.mem_filterMap.mp hr
          exact (ts_of_sampleRow hrow).le
      · simp only [List.filter_append, h.within]
  | Prune retention =>
      cases hs
      refine ⟨h.past, ?_⟩
      rw [← h.within, List.filter_filter]
      refine List.filter_congr fun r _ => ?_
      rw [Bool.and_eq_left_iff_imp]
      intro hr
      have hcut : s.clock - w ≤ r.TS := of_decide_eq_true hr
      have hw : w ≤ retention := hok
      exact decide_eq_true (by omega)
  | tick d =>
      cases hs
      constructor
      · intro r hr
        have hts := h.past r hr
        change r.TS ≤ s.clock + d
        omega
      · refine h.filter fun r hr => ?_
        have hcut : s.clock + d - w ≤ r.TS := of_decide_eq_true hr
        omega

theorem kept_of_run {t : Int} (h : Reached (step R) (Retains w) { clock := t } s) : s.Kept w :=
  h.invariant ⟨List.forall_mem_nil _, rfl⟩ fun _ _ _ hk hok hs => hk.step hok hs

/-- Time goes on, and what has been recorded stays. -/
theorem grows_of_run {ok : HistoryAct → History V → Prop} (h : Reached (step R) ok s s') :
    s.clock ≤ s'.clock ∧ s.recorded ⊆ s'.recorded := by
  induction h with
  | init => exact ⟨le_rfl, List.Subset.refl _⟩
  | @step s₁ s₂ a _ _ htaken ih =>
      obtain ⟨hclock, hrecorded⟩ := ih
      cases a with
      | RecordSensors hostID sensors =>
          cases htaken
          exact ⟨hclock, List.Subset.trans hrecorded (List.subset_append_left ..)⟩
      | Prune retention =>
          cases htaken
          exact ⟨hclock, hrecorded⟩
      | tick d =>
          cases htaken
          exact ⟨hclock.trans (Int.le_add_of_nonneg_right (Int.natCast_nonneg d)), hrecorded⟩

/-- Within the retention the rows of a window are those recorded. -/
theorem Kept.mem_iff (h : s.Kept w) {first : Int} (hfirst : s.clock - w ≤ first)
    {hostID : String} {last : Int} {r : SampleRow V} (hr : r.Within hostID first last) :
    r ∈ s.samples ↔ r ∈ s.recorded := by
  have hsame : s.samples.filter (fun r => r.Within hostID first last) =
      s.recorded.filter fun r => r.Within hostID first last :=
    h.filter fun r hr => hfirst.trans (of_decide_eq_true hr).2.1
  have hiff := congrArg (r ∈ ·) hsame
  simpa [List.mem_filter, hr] using hiff

/-- A query of a window within the retention returns the samples recorded in it, each as often as
it was recorded, in the order of time. The names listed for the window are in order, and they are
those of the sensors with a sample recorded in it. -/
theorem query_recorded {t : Int} (hrun : Reached (step R) (Retains w) { clock := t } s)
    {first : Int} (hfirst : s.clock - w ≤ first) (hostID sensor : String) (last : Int) :
    ((s.QuerySamples hostID sensor first last).Pairwise fun a b => a.TS ≤ b.TS) ∧
    (s.QuerySamples hostID sensor first last).Perm
      ((s.recorded.filter fun r => r.Within hostID first last ∧ r.Sensor = sensor).map
        SampleRow.toSample) ∧
    (s.ListSensorNames hostID first last).Pairwise (· < ·) ∧
    ∀ name, name ∈ s.ListSensorNames hostID first last ↔
      ∃ r ∈ s.recorded, r.Within hostID first last ∧ r.Sensor = name := by
  have hkept := kept_of_run hrun
  have hwithin {r : SampleRow V} (hr : r.Within hostID first last) : s.clock - w ≤ r.TS :=
    hfirst.trans hr.2.1
  refine ⟨pairwise_querySamples .., ?_, pairwise_listSensorNames .., ?_⟩
  · rw [← hkept.filter fun r hr => hwithin (of_decide_eq_true hr).1]
    exact perm_querySamples ..
  · intro name
    rw [mem_listSensorNames]
    exact exists_congr fun r => and_congr_left fun h => hkept.mem_iff hfirst h.1

def fanReader : Reader Nat where
  lower := Char.toLower
  isDigit := Char.isDigit
  number raw := number raw.toList

def fan (value : String) : Sensor := ⟨"01", "Fan1", "Fan", value, "RPM", "ok", true⟩

def fanActs : List HistoryAct :=
  [.RecordSensors "a" [fan "900"], .tick 50, .RecordSensors "a" [fan "1000 RPM"],
    .tick 50, .Prune 60, .RecordSensors "a" [fan "na"], .RecordSensors "a" [fan "1100"]]

def fanRow (ts : Int) (v : Nat) : SampleRow Nat :=
  { TS := ts, Sensor := "Fan1", Kind := "fan", Value := v, Unit := "RPM", Status := "ok",
    host_id := "a" }

def fanHistory : History Nat :=
  { samples := [fanRow 50 1000, fanRow 100 1100], clock := 100
    recorded := [fanRow 0 900, fanRow 50 1000, fanRow 100 1100] }

/-- Three readings of a fan, the first of which is pruned before the third is recorded. -/
theorem query_recorded_fan :
    fanHistory.samples.length < fanHistory.recorded.length ∧
    (fanHistory.QuerySamples "a" "Fan1" 40 100).Perm
      ((fanHistory.recorded.filter fun r => r.Within "a" 40 100 ∧ r.Sensor = "Fan1").map
        SampleRow.toSample) ∧
    "Fan1" ∈ fanHistory.ListSensorNames "a" 40 100 := by
  have hexec : exec (step fanReader) (Retains 60) fanActs { clock := 0 } = some fanHistory := rfl
  have hfirst : fanHistory.clock - 60 ≤ 40 := by decide
  obtain ⟨-, hperm, -, hnames⟩ :=
    query_recorded (reached_of_exec .init hexec) hfirst "a" "Fan1" 100
  exact ⟨by decide, hperm, (hnames "Fan1").mpr ⟨fanRow 50 1000, by decide, by decide, rfl⟩⟩

end History

end Outband.Telemetry
