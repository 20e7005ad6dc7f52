import Mathlib.Logic.Function.Basic
import Outband.Foundation.KeyedTable
import Outband.Foundation.Transition
import Outband.Telemetry.Snapshot

/-!
# The telemetry store

`Store` (`internal/telemetry/store.go`) keeps the latest power status of each
host in memory and in a row of the table `snapshots`. `RecordPower` appends to the
table `power`, updates the memory under the mutex, and writes the row. The
collector of a host and `handlePowerAction` call it from goroutines of their own, and
nothing holds the three sections together.

## Implementation notes

The database gives no errors. The other three things a host has a snapshot of are
left out, except for what `LoadSnapshots` does to `warm` and `lastSuccess` when it can
read one; `readable` tells when it can. A call is known by its arguments: two calls
with the same arguments in the same section can be exchanged.
-/

namespace Outband.Telemetry

open Foundation
open Bmc (PowerStatus)

structure HostSnap where
  power : Option PowerStatus := none
  lastError : String := ""
  /-- In seconds, undefined for the zero time. -/
  lastSuccess : Option Int := none
  warm : Bool := false
  deriving DecidableEq, Repr

def HostSnap.touchSuccess (h : HostSnap) (now : Int) : HostSnap :=
  { h with lastSuccess := some now, lastError := "", warm := true }

structure PowerRow where
  host_id : String
  ts : Int
  is_on : Nat
  deriving DecidableEq, Repr

structure SnapshotRow where
  host_id : String
  kind : String
  ts : Int
  payload : String
  deriving DecidableEq, Repr

/-- The primary key of `snapshots`. -/
def SnapshotRow.key (r : SnapshotRow) : String × String := (r.host_id, r.kind)

/-- The arguments of `RecordPower`. -/
structure Call where
  hostID : String
  ps : PowerStatus
  deriving DecidableEq, Repr

/-- The two tables, the memory, and the calls in progress: those that have inserted their row, and
those that have also updated the memory. -/
structure Store where
  power : List PowerRow := []
  snapshots : KeyedTable SnapshotRow.key := .empty
  hosts : String → Option HostSnap := fun _ => none
  inserted : List Call := []
  updated : List Call := []

/-- The sections of a call. -/
inductive Act
  | insert (c : Call) (ts : Int)
  | update (c : Call) (now : Int)
  | writeSnapshot (c : Call) (ts : Int)
  deriving DecidableEq, Repr

/-- The call that a section belongs to. -/
def Act.call : Act → Call
  | insert c _ | update c _ | writeSnapshot c _ => c

namespace Store

def snap (s : Store) (hostID : String) : HostSnap := (s.hosts hostID).getD {}

def setSnap (s : Store) (hostID : String) (h : HostSnap) : Store :=
  { s with hosts := Function.update s.hosts hostID (some h) }

def LatestPower (s : Store) (hostID : String) : Option PowerStatus :=
  (s.hosts hostID).bind HostSnap.power

/-- The text in the row of `snapshots` for the power status of a host. -/
def payload (s : Store) (hostID : String) : Option String :=
  (s.snapshots.find (hostID, "power")).map SnapshotRow.payload

variable (json : PowerJson) (readable : String → String → Bool)

def step : Act → Store → Option Store
  | .insert c ts, s => some { s with
      power := s.power ++ [⟨c.hostID, ts, if c.ps.IsOn then 1 else 0⟩]
      inserted := c :: s.inserted }
  | .update c now, s =>
      if c ∈ s.inserted then
        some { s.setSnap c.hostID
            ({ s.snap c.hostID with power := some c.ps }.touchSuccess now) with
          inserted := s.inserted.erase c
          updated := c :: s.updated }
      else none
  | .writeSnapshot c ts, s =>
      if c ∈ s.updated then
        some { s with
          snapshots := s.snapshots.upsert ⟨c.hostID, "power", ts, json.Marshal c.ps⟩
          updated := s.updated.erase c }
      else none

/-- The body of the loop of `LoadSnapshots`. -/
def loadRow (h : HostSnap) (r : SnapshotRow) : HostSnap :=
  match r.kind with
  | "power" =>
      match json.Unmarshal r.payload with
      | some ps => { h with power := some ps, warm := true, lastSuccess := some r.ts }
      | none => h
  | "mcinfo" | "sensors" | "sel" =>
      if readable r.kind r.payload then { h with warm := true, lastSuccess := some r.ts } else h
  | _ => h

def LoadSnapshots (hostID : String) (s : Store) : Store :=
  s.setSnap hostID <| (s.snapshots.rows.filter fun r => r.host_id = hostID).foldl
    (loadRow json readable) (s.snap hostID)

/-- The store that `Open` makes of the same database file. -/
def restart (s : Store) : Store := { power := s.power, snapshots := s.snapshots }

/-- No call for the host is in progress. -/
def Quiet (hostID : String) (s : Store) : Prop := ∀ c ∈ s.inserted ++ s.updated, c.hostID ≠ hostID

instance (hostID : String) (s : Store) : Decidable (s.Quiet hostID) :=
  inferInstanceAs (Decidable (∀ c ∈ s.inserted ++ s.updated, _))

/-- The row of the host holds its latest status. -/
def Agrees (hostID : String) (s : Store) : Prop :=
  s.payload hostID = (s.LatestPower hostID).map json.Marshal

instance (hostID : String) (s : Store) : Decidable (s.Agrees json hostID) :=
  inferInstanceAs (Decidable (_ = _))

/-- With no call for the host in progress its row holds its latest status, and a restart brings
that status back. -/
def Durable (hostID : String) (s : Store) : Prop :=
  s.Quiet hostID → s.Agrees json hostID ∧
    (s.restart.LoadSnapshots json readable hostID).LatestPower hostID = s.LatestPower hostID

/-! ### The condition -/

/-- A call has the latest status of the host still to write: it has yet to update the memory, or
the memory is as it left it. -/
def Ahead (hostID : String) (s : Store) : Prop :=
  (∃ c ∈ s.inserted, c.hostID = hostID) ∨
    ∃ c ∈ s.updated, c.hostID = hostID ∧ s.LatestPower hostID = some c.ps

instance (hostID : String) (s : Store) : Decidable (s.Ahead hostID) :=
  inferInstanceAs (Decidable ((∃ c ∈ s.inserted, _) ∨ ∃ c ∈ s.updated, _))

/-- A call that writes the row of the host carries the latest status, or leaves that to another
call in progress. -/
def InOrder (hostID : String) : Act → Store → Prop
  | .writeSnapshot c _, s => c.hostID = hostID → s.LatestPower hostID = some c.ps ∨
      Ahead hostID { s with updated := s.updated.erase c }
  | .insert .., _ | .update .., _ => True

instance (hostID : String) : (a : Act) → (s : Store) → Decidable (InOrder hostID a s)
  | .writeSnapshot c _, s => inferInstanceAs (Decidable (c.hostID = hostID →
      s.LatestPower hostID = some c.ps ∨ Ahead hostID { s with updated := s.updated.erase c }))
  | .insert .., _ | .update .., _ => inferInstanceAs (Decidable True)

/-! ### Reading the tables and the memory -/

variable {json readable} {s s' s₀ : Store} {hostID : String} {a : Act}

theorem latestPower_setSnap (s : Store) (host hostID : String) (h : HostSnap) :
    (s.setSnap host h).LatestPower hostID =
      if hostID = host then h.power else s.LatestPower hostID := by
  by_cases heq : hostID = host
  · subst heq
    simp [LatestPower, setSnap]
  · simp [LatestPower, setSnap, heq]

theorem payload_writeSnapshot (s : Store) (c : Call) (ts : Int) (hostID text : String) :
    ((s.snapshots.upsert ⟨c.hostID, "power", ts, text⟩).find (hostID, "power")).map
        SnapshotRow.payload = if c.hostID = hostID then some text else s.payload hostID := by
  rw [KeyedTable.find_upsert, payload]
  by_cases heq : c.hostID = hostID <;> simp [SnapshotRow.key, heq]

theorem power_loadRow (h : HostSnap) (r : SnapshotRow) :
    (loadRow json readable h r).power =
      if r.kind = "power" then (json.Unmarshal r.payload).or h.power else h.power := by
  rw [loadRow]
  split
  case h_1 hkind =>
    rw [if_pos hkind]
    split
    case h_1 hps => simp [hps]
    case h_2 hnone => simp [hnone]
  case h_2 hkind | h_3 hkind | h_4 hkind =>
    have hne : r.kind ≠ "power" := by
      rw [hkind]
      decide
    rw [if_neg hne]
    split <;> rfl
  case h_5 hkind _ _ _ => rw [if_neg hkind]

/-- A host that has just been loaded has the status that its row is read as. -/
theorem latestPower_restart (s : Store) (hostID : String) :
    (s.restart.LoadSnapshots json readable hostID).LatestPower hostID =
      (s.payload hostID).bind json.Unmarshal := by
  have hrow (h : HostSnap) (r : SnapshotRow) :
      (if decide (r.host_id = hostID) = true then loadRow json readable h r else h).power =
        if r.key = (hostID, "power") then (json.Unmarshal r.payload).or h.power else h.power := by
    by_cases hhost : r.host_id = hostID
    · simp [SnapshotRow.key, hhost, power_loadRow]
    · simp [SnapshotRow.key, hhost]
  rw [LoadSnapshots, latestPower_setSnap, if_pos rfl, List.foldl_filter,
    foldl_eq_find hrow s.restart.snapshots.distinct]
  change (s.snapshots.find (hostID, "power")).elim none _ = _
  rw [payload]
  cases s.snapshots.find (hostID, "power") with
  | none => rfl
  | some r => exact Option.or_none

/-- A store whose row is right comes back from a restart as it was, and its row is right again. -/
theorem Agrees.restart (h : s.Agrees json hostID) :
    (s.restart.LoadSnapshots json readable hostID).LatestPower hostID = s.LatestPower hostID := by
  rw [latestPower_restart, h]
  cases s.LatestPower hostID with
  | none => rfl
  | some ps => exact json.unmarshal_marshal ps

/-! ### What the steps keep -/

theorem mem_erase_of_host {l : List Call} {c d : Call} (hc : c.hostID ≠ hostID) :
    d ∈ l.erase c ∧ d.hostID = hostID ↔ d ∈ l ∧ d.hostID = hostID := by
  refine and_congr_left fun hd => List.mem_erase_of_ne ?_
  rintro rfl
  exact hc hd

theorem mem_cons_of_host {l : List Call} {c d : Call} (hc : c.hostID ≠ hostID) :
    d ∈ c :: l ∧ d.hostID = hostID ↔ d ∈ l ∧ d.hostID = hostID := by
  refine and_congr_left fun hd => List.mem_cons.trans (or_iff_right ?_)
  rintro rfl
  exact hc hd

/-- What is left to do for a host depends on its calls and its latest status. -/
theorem ahead_congr (hlatest : s'.LatestPower hostID = s.LatestPower hostID)
    (hinserted : ∀ d, d ∈ s'.inserted ∧ d.hostID = hostID ↔ d ∈ s.inserted ∧ d.hostID = hostID)
    (hupdated : ∀ d, d ∈ s'.updated ∧ d.hostID = hostID ↔ d ∈ s.updated ∧ d.hostID = hostID) :
    s'.Ahead hostID ↔ s.Ahead hostID := by
  rw [Ahead, Ahead]
  refine or_congr (exists_congr hinserted) (exists_congr fun d => ?_)
  rw [← and_assoc, ← and_assoc, hlatest, hupdated d]

/-- A call for another host leaves the row and the memory of a host alone. -/
theorem step_other (hhost : a.call.hostID ≠ hostID) (hstep : step json a s = some s') :
    (s'.Agrees json hostID ↔ s.Agrees json hostID) ∧ (s'.Ahead hostID ↔ s.Ahead hostID) := by
  cases a with
  | insert c ts =>
      cases hstep
      exact ⟨.rfl, ahead_congr rfl (fun _ => mem_cons_of_host hhost) fun _ => .rfl⟩
  | update c now =>
      rw [step] at hstep
      split at hstep
      case isTrue =>
        cases hstep
        change c.hostID ≠ hostID at hhost
        have hlatest (h : HostSnap) :
            (s.setSnap c.hostID h).LatestPower hostID = s.LatestPower hostID := by
          rw [latestPower_setSnap, if_neg (Ne.symm hhost)]
        refine ⟨?_, ahead_congr (hlatest _) (fun _ => mem_erase_of_host hhost) fun _ =>
          mem_cons_of_host hhost⟩
        exact Eq.congr rfl (congrArg (Option.map json.Marshal) (hlatest _))
      case isFalse => cases hstep
  | writeSnapshot c ts =>
      rw [step] at hstep
      split at hstep
      case isTrue =>
        cases hstep
        refine ⟨Eq.congr ?_ rfl, ahead_congr rfl (fun _ => .rfl) fun _ => mem_erase_of_host hhost⟩
        exact (payload_writeSnapshot ..).trans (if_neg hhost)
      case isFalse => cases hstep

theorem ahead_insert {c : Call} {ts : Int} (hstep : step json (.insert c ts) s = some s') :
    s'.Ahead c.hostID := by
  cases hstep
  exact .inl ⟨c, List.mem_cons_self, rfl⟩

theorem ahead_update {c : Call} {now : Int} (hstep : step json (.update c now) s = some s') :
    s'.Ahead c.hostID := by
  rw [step] at hstep
  split at hstep
  case isTrue =>
    cases hstep
    refine .inr ⟨c, List.mem_cons_self, rfl, ?_⟩
    exact (latestPower_setSnap ..).trans (if_pos rfl)
  case isFalse => cases hstep

/-- After a call has written the row, the row is right if the call carries the latest status. -/
theorem agrees_writeSnapshot {c : Call} {ts : Int}
    (hstep : step json (.writeSnapshot c ts) s = some s') :
    (s'.Agrees json c.hostID ↔ s.LatestPower c.hostID = some c.ps) ∧
      (s'.Ahead c.hostID ↔ Ahead c.hostID { s with updated := s.updated.erase c }) := by
  rw [step] at hstep
  split at hstep
  case isTrue =>
    cases hstep
    refine ⟨(Eq.congr ((payload_writeSnapshot ..).trans (if_pos rfl)) rfl).trans ?_, .rfl⟩
    change some (json.Marshal c.ps) = (s.LatestPower c.hostID).map json.Marshal ↔ _
    rw [← Option.map_some, eq_comm, (Option.map_injective json.marshal_injective).eq_iff]
  case isFalse => cases hstep

/-- The row of the host is right or will be. -/
def Kept (json : PowerJson) (hostID : String) (s : Store) : Prop :=
  s.Agrees json hostID ∨ s.Ahead hostID

theorem Kept.next (hs : s.Kept json hostID) (hok : InOrder hostID a s)
    (hstep : step json a s = some s') : s'.Kept json hostID := by
  by_cases hhost : a.call.hostID = hostID
  · subst hhost
    cases a with
    | insert c ts => exact .inr (ahead_insert hstep)
    | update c now => exact .inr (ahead_update hstep)
    | writeSnapshot c ts =>
        obtain ⟨hagrees, hahead⟩ := agrees_writeSnapshot hstep
        exact (hok rfl).imp hagrees.mpr hahead.mpr
  · obtain ⟨hagrees, hahead⟩ := step_other hhost hstep
    exact hs.imp hagrees.mpr hahead.mpr

theorem Quiet.not_ahead (h : s.Quiet hostID) : ¬ s.Ahead hostID := by
  rintro (⟨c, hc, hhost⟩ | ⟨c, hc, hhost, -⟩)
  · exact h c (List.mem_append_left _ hc) hhost
  · exact h c (List.mem_append_right _ hc) hhost

/-- In every run in which a call that writes the row of the host carries the latest status, or
leaves that to another call, the row agrees with the memory whenever no call is in progress. -/
theorem power_durable (readable : String → String → Bool) (h₀ : s₀.Agrees json hostID)
    (hrun : Reached (step json) (InOrder hostID) s₀ s) : s.Durable json readable hostID := by
  intro hquiet
  have hkept : s.Kept json hostID :=
    hrun.invariant (I := Kept json hostID) (.inl h₀) fun _ _ _ hs hok hstep => hs.next hok hstep
  have hagrees := hkept.resolve_right hquiet.not_ahead
  exact ⟨hagrees, hagrees.restart⟩

def statusOn : PowerStatus := { IsOn := true, PowerRestorePolicy := "always-on" }

def statusOff : PowerStatus := { IsOn := false, PowerRestorePolicy := "always-on" }

/-- The row of the first of two overlapping calls is written first. -/
theorem power_durable_overlapping : ∃ s, Reached (step encodingJSON) (InOrder "rack1") {} s ∧
    s.Quiet "rack1" ∧ s.LatestPower "rack1" = some statusOff ∧
    s.Durable encodingJSON (fun _ _ => false) "rack1" := by
  have htest : ((exec (step encodingJSON) (InOrder "rack1") [.insert ⟨"rack1", statusOn⟩ 10,
      .insert ⟨"rack1", statusOff⟩ 10, .update ⟨"rack1", statusOn⟩ 10,
      .update ⟨"rack1", statusOff⟩ 11, .writeSnapshot ⟨"rack1", statusOn⟩ 11,
      .writeSnapshot ⟨"rack1", statusOff⟩ 12] {}).any fun s =>
        decide (s.Quiet "rack1" ∧ s.LatestPower "rack1" = some statusOff)) = true := by
    decide +kernel
  obtain ⟨s, hs, hquiet, hlatest⟩ := exists_reached_of_exec htest
  have h₀ : Agrees encodingJSON "rack1" {} := rfl
  exact ⟨s, hs, hquiet, hlatest, power_durable _ h₀ hs⟩

/-- The call that is last to update the memory is first to write the row. -/
theorem power_stale : ¬ ∀ s, Reached (step encodingJSON) (fun _ _ => True) {} s →
    s.Durable encodingJSON (fun _ _ => false) "rack1" := by
  have htest : ((exec (step encodingJSON) (fun _ _ => True) [.insert ⟨"rack1", statusOn⟩ 10,
      .insert ⟨"rack1", statusOff⟩ 10, .update ⟨"rack1", statusOn⟩ 10,
      .update ⟨"rack1", statusOff⟩ 11, .writeSnapshot ⟨"rack1", statusOff⟩ 11,
      .writeSnapshot ⟨"rack1", statusOn⟩ 12] {}).any fun s =>
        decide (s.Quiet "rack1" ∧ ¬ s.Agrees encodingJSON "rack1")) = true := by
    decide +kernel
  obtain ⟨s, hs, hquiet, hstale⟩ := exists_reached_of_exec htest
  exact fun hall => hstale (hall s hs hquiet).1

theorem mem_of_update {c : Call} {now : Int} (hstep : step json (.update c now) s = some s') :
    c ∈ s.inserted := by
  rw [step] at hstep
  split at hstep
  case isTrue hmem => exact hmem
  case isFalse => cases hstep

theorem mem_of_writeSnapshot {c : Call} {ts : Int}
    (hstep : step json (.writeSnapshot c ts) s = some s') : c ∈ s.updated := by
  rw [step] at hstep
  split at hstep
  case isTrue hmem => exact hmem
  case isFalse => cases hstep

theorem ahead_of_erase {c : Call} (h : Ahead hostID { s with updated := s.updated.erase c }) :
    s.Ahead hostID :=
  h.imp_right fun ⟨d, hd, hps⟩ => ⟨d, List.mem_of_mem_erase hd, hps⟩

/-- Without a call that starts, a row that is wrong and will not be right stays so. -/
theorem not_kept_next (hs : ¬ s.Kept json hostID)
    (hstarts : ∀ c ts, a = .insert c ts → c.hostID ≠ hostID) (hstep : step json a s = some s') :
    ¬ s'.Kept json hostID := by
  intro hkept
  by_cases hhost : a.call.hostID = hostID
  · subst hhost
    cases a with
    | insert c ts => exact hstarts c ts rfl rfl
    | update c now => exact hs (.inr (.inl ⟨c, mem_of_update hstep, rfl⟩))
    | writeSnapshot c ts =>
        obtain ⟨hagrees, hahead⟩ := agrees_writeSnapshot hstep
        rcases hkept with hkept | hkept
        · exact hs (.inr (.inr ⟨c, mem_of_writeSnapshot hstep, rfl, hagrees.mp hkept⟩))
        · exact hs (.inr (ahead_of_erase (hahead.mp hkept)))
  · obtain ⟨hagrees, hahead⟩ := step_other hhost hstep
    exact hs (hkept.imp hagrees.mp hahead.mp)

/-- After a write that breaks the order the row is wrong until another call for the host starts. -/
theorem stale_of_not_inOrder {s₁ : Store} (hbreach : ¬ InOrder hostID a s)
    (hstep : step json a s = some s₁)
    (hrun : Reached (step json) (fun a _ => ∀ c ts, a = .insert c ts → c.hostID ≠ hostID) s₁ s') :
    ¬ s'.Agrees json hostID := by
  have hwrong : ¬ s₁.Kept json hostID := by
    cases a with
    | insert | update => exact absurd trivial hbreach
    | writeSnapshot c ts =>
        obtain ⟨hhost, hbreach⟩ := Classical.not_imp.mp hbreach
        subst hhost
        obtain ⟨hagrees, hahead⟩ := agrees_writeSnapshot hstep
        exact fun hkept => hbreach (hkept.imp hagrees.mp hahead.mp)
  have hend : ¬ s'.Kept json hostID :=
    hrun.invariant (I := fun s => ¬ s.Kept json hostID) hwrong
      fun _ _ _ hs hstarts hstep => not_kept_next hs hstarts hstep
  exact fun hagrees => hend (.inl hagrees)

end Store

end Outband.Telemetry
