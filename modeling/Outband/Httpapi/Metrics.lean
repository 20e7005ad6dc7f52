import Outband.Httpapi.Pages

/-!
# The charts

`handleAPIMetrics` (`internal/httpapi/server.go`) answers the charts of the metrics page. The
collectors go on recording while it reads. Each series has what was recorded of its sensor in the
window up to the time at which it was read. Without a choice of sensors in the request there are
eight series at most, and none of them is empty.

## Implementation notes

`ListSensorNames` may break off with an error. The handler does not look at it and takes the names
that it has been given.
-/

namespace Outband.Httpapi

open Foundation Dialogue
open Inventory (Host)
open Server (Ask Answer Meta Talk ask)
open Telemetry (Sample SampleRow Reader History)
open Telemetry.History (Retains Kept kept_of_run grows_of_run)

variable {V C : Type}

/-! ### The default choice -/

/-- What a choice of these names shows. -/
structure Chosen (lower : Char → Char) (names out : List String) : Prop where
  listed : out ⊆ names
  nodup : out.Nodup
  few : out.length ≤ 8
  liked : out.length < 8 → ∀ n ∈ names, preferred lower n = true → n ∈ out
  all : out.length < 6 → names ⊆ out

variable {lower : Char → Char} {names more out : List String} {n : String}

theorem mem_addName {x : String} : x ∈ addName out n ↔ x ∈ out ∨ x = n := by
  rw [addName]
  split_ifs with hmem
  · refine ⟨.inl, fun h => h.elim id ?_⟩
    rintro rfl
    exact hmem
  · rw [List.mem_append, List.mem_singleton]

theorem addName_subset (hout : out ⊆ names) (hn : n ∈ names) : addName out n ⊆ names := by
  intro x hx
  rcases mem_addName.mp hx with hx | rfl
  · exact hout hx
  · exact hn

theorem nodup_addName (h : out.Nodup) : (addName out n).Nodup := by
  rw [addName]
  split_ifs with hmem
  · exact h
  · exact h.append (List.nodup_singleton n) (List.disjoint_singleton.mpr hmem)

theorem length_addName : (addName out n).length ≤ out.length + 1 := by
  rw [addName]
  split_ifs
  · exact Nat.le_succ _
  · rw [List.length_append, List.length_singleton]

/-- Names are only added. -/
theorem subset_addFirst : out ⊆ addFirst out names := by
  induction names generalizing out with
  | nil => exact List.Subset.refl out
  | cons n rest ih =>
      have hadd : out ⊆ addName out n := fun x hx => mem_addName.mpr (.inl hx)
      rw [addFirst]
      split_ifs
      · exact hadd
      · exact List.Subset.trans hadd ih

/-- The second loop adds names up to the sixth. -/
theorem addFirst_spec (hout : out ⊆ names) (hmore : more ⊆ names) (hnodup : out.Nodup)
    (hlength : out.length < 8) :
    addFirst out more ⊆ names ∧ (addFirst out more).Nodup ∧ (addFirst out more).length ≤ 8 ∧
      ((addFirst out more).length < 6 → more ⊆ addFirst out more) := by
  induction more generalizing out with
  | nil => exact ⟨hout, hnodup, hlength.le, fun _ => List.nil_subset _⟩
  | cons n rest ih =>
      obtain ⟨hn, hrest⟩ := List.cons_subset.mp hmore
      have hadd : addName out n ⊆ names := addName_subset hout hn
      have hlonger : (addName out n).length ≤ out.length + 1 := length_addName
      rw [addFirst]
      split_ifs with hsix
      · exact ⟨hadd, nodup_addName hnodup, by omega, fun h => absurd hsix (by omega)⟩
      · obtain ⟨hsub, hnodup', hfew, hall⟩ := ih hadd hrest (nodup_addName hnodup) (by omega)
        refine ⟨hsub, hnodup', hfew, fun h => List.cons_subset.mpr ⟨?_, hall h⟩⟩
        exact subset_addFirst (mem_addName.mpr (.inr rfl))

variable (lower) in
/-- The first loop adds the preferred names, and stops at the eighth. -/
theorem addPreferred_spec (hout : out ⊆ names) (hmore : more ⊆ names) (hnodup : out.Nodup)
    (hlength : out.length < 8) :
    match addPreferred lower out more with
    | .inl out' => out' ⊆ names ∧ out'.Nodup ∧ out'.length = 8
    | .inr out' => out' ⊆ names ∧ out'.Nodup ∧ out'.length < 8 ∧ out ⊆ out' ∧
        ∀ n ∈ more, preferred lower n = true → n ∈ out' := by
  induction more generalizing out with
  | nil => exact ⟨hout, hnodup, hlength, List.Subset.refl out, List.forall_mem_nil _⟩
  | cons n rest ih =>
      obtain ⟨hn, hrest⟩ := List.cons_subset.mp hmore
      have hadd : addName out n ⊆ names := addName_subset hout hn
      have hlonger : (addName out n).length ≤ out.length + 1 := length_addName
      by_cases hpreferred : preferred lower n = true
      · rw [addPreferred]
        simp only [hpreferred, if_true]
        split_ifs with height
        · exact ⟨hadd, nodup_addName hnodup, by omega⟩
        · have hspec := ih hadd hrest (nodup_addName hnodup) (by omega)
          split at hspec
          case h_1 => exact hspec
          case h_2 out' _ =>
            obtain ⟨hsub, hnodup', hfew, hkept, hliked⟩ := hspec
            refine ⟨hsub, hnodup', hfew, fun x hx => hkept (mem_addName.mpr (.inl hx)), ?_⟩
            refine List.forall_mem_cons.mpr ⟨fun _ => ?_, hliked⟩
            exact hkept (mem_addName.mpr (.inr rfl))
      · rw [addPreferred]
        simp only [hpreferred, if_neg (Nat.not_le.mpr hlength), Bool.false_eq_true, if_false]
        have hspec := ih hout hrest hnodup hlength
        split at hspec
        case h_1 => exact hspec
        case h_2 out' _ =>
          obtain ⟨hsub, hnodup', hfew, hkept, hliked⟩ := hspec
          refine ⟨hsub, hnodup', hfew, hkept, List.forall_mem_cons.mpr ⟨?_, hliked⟩⟩
          exact fun h => absurd h hpreferred

theorem chosen_default (lower : Char → Char) (names : List String) :
    Chosen lower names (defaultMetricSensors lower names) := by
  have hspec := addPreferred_spec lower (List.nil_subset names)
    (List.Subset.refl names) List.nodup_nil (by decide)
  rw [defaultMetricSensors]
  cases hloop : addPreferred lower [] names with
  | inl out =>
      rw [hloop] at hspec
      obtain ⟨hsub, hnodup, height⟩ := hspec
      refine ⟨hsub, hnodup, height.le, fun h => absurd height h.ne, fun h => ?_⟩
      exact absurd height (Nat.ne_of_lt (Nat.lt_trans h (by decide)))
  | inr out =>
      rw [hloop] at hspec
      obtain ⟨hsub, hnodup, hfew, -, hliked⟩ := hspec
      obtain ⟨hsub', hnodup', hfew', hall⟩ :=
        addFirst_spec hsub (List.Subset.refl names) hnodup hfew
      exact ⟨hsub', hnodup', hfew', fun _ n hn hp => subset_addFirst (hliked n hn hp), hall⟩

/-! ### Reading while the store goes on -/

/-- What the store tells a page of a host. -/
def Told (hostID : String) (s : History V) : Ask → Answer V → Prop
  | .QuerySamples sensor first last, a =>
      a.err = none → a.points = s.QuerySamples hostID sensor first last
  | .ListSensorNames first last, a => a.names <+: s.ListSensorNames hostID first last
  | .Now, a => a.now = s.clock
  | _, _ => True

variable {R : Reader V} {w first last : Int} {hostID : String} {s s' : History V}
  {series : List (Series V)} {sensors : List String}

/-- The store goes on, and prunes nothing within the retention. -/
abbrev Goes (R : Reader V) (w : Int) : History V → History V → Prop :=
  Reached (History.step R) (Retains w)

theorem goes_of_served {α : Type} {d : Server.Talk V α} {a : α}
    (h : d.Served (Goes R w) (Told hostID) s a s') : Goes R w s s' :=
  moves_of_served (fun _ => .init) (fun _ _ _ => Reached.trans) h

/-- Each series is read at one time, and the series are in the order of the sensors. -/
theorem served_readSeries
    (h : (readSeries first last sensors).Served (Goes R w) (Told hostID) s (.ok series) s') :
    series.map Series.Sensor = sensors ∧ ∀ x ∈ series, ∃ s₁, Goes R w s s₁ ∧ Goes R w s₁ s' ∧
      x.Points = s₁.QuerySamples hostID x.Sensor first last ∧
      ∀ p ∈ x.Points.head?, x.Kind = p.Kind ∧ x.Unit = p.Unit := by
  induction sensors generalizing s series with
  | nil =>
      obtain ⟨heq, -⟩ := served_done _ _ h
      cases heq
      exact ⟨rfl, List.forall_mem_nil _⟩
  | cons name rest ih =>
      rw [readSeries] at h
      obtain ⟨a, s₁, hmoves, hanswer, h⟩ := served_ask h
      cases herr : a.err with
      | some err =>
          simp only [herr] at h
          cases (served_done _ _ h).1
      | none =>
          simp only [herr] at h
          obtain ⟨more, s₂, hmore, hlast⟩ := served_bind h
          cases more with
          | error err => cases (served_done _ _ hlast).1
          | ok more =>
              obtain ⟨heq, rfl⟩ := served_done _ _ hlast
              cases heq
              obtain ⟨hnames, hpoints⟩ := ih hmore
              refine ⟨congrArg (name :: ·) hnames, List.forall_mem_cons.mpr ⟨?_, ?_⟩⟩
              · refine ⟨s₁, hmoves, goes_of_served hmore, hanswer herr, fun p hp => ?_⟩
                simp only [Option.mem_def] at hp
                simp only [hp, Option.map_some, Option.getD_some, and_self]
              · intro x hx
                obtain ⟨s₃, hbefore, hafter⟩ := hpoints x hx
                exact ⟨s₃, hmoves.trans hbefore, hafter⟩

/-- The sensors that a page chooses by itself were listed at one time. -/
theorem served_seriesNames {r : LoginRequest}
    (h : (seriesNames lower r first last).Served (Goes R w) (Told hostID) s sensors s') :
    (allValues r.query "sensor" ≠ [] → sensors = allValues r.query "sensor") ∧
      (allValues r.query "sensor" = [] → ∃ names, names <+: s'.ListSensorNames hostID first last ∧
        sensors = defaultMetricSensors lower names) := by
  rw [seriesNames] at h
  split_ifs at h with hnone
  · obtain ⟨a, s₁, hmoves, hanswer, h⟩ := served_ask h
    obtain ⟨rfl, rfl⟩ := served_done _ _ h
    exact ⟨fun hsome => absurd hnone hsome, fun _ => ⟨_, hanswer, rfl⟩⟩
  · obtain ⟨rfl, rfl⟩ := served_done _ _ h
    exact ⟨fun _ => rfl, fun h => absurd h hnone⟩

/-- The handler that answers with series has found the sensors, and then read the series. -/
theorem exists_of_served {h : Host C} {r : LoginRequest} {health : Meta}
    (hserved : (handleAPIMetrics lower h r).Served (Goes R w) (Told hostID) s
      (.json first last series health) s') :
    ∃ sensors s₀ s₁ s₂, Goes R w s s₀ ∧
      first = bound r "from" (rangeWindow s₀.clock (rangeOf r)).1 ∧
      last = bound r "to" (rangeWindow s₀.clock (rangeOf r)).2 ∧ Goes R w s₀ s₁ ∧
      (seriesNames lower r first last).Served (Goes R w) (Told hostID) s₁ sensors s₂ ∧
      (readSeries first last sensors).Served (Goes R w) (Told hostID) s₂ (.ok series) s' := by
  obtain ⟨features, sf, hfeatures, -, hserved⟩ := served_ask hserved
  dsimp only at hserved
  split_ifs at hserved with hhas
  · obtain ⟨answer, s₀, hnow, hclock, hserved⟩ := served_ask hserved
    replace hclock : answer.now = s₀.clock := hclock
    obtain ⟨_, s₁, hmeta, -, hserved⟩ := served_ask hserved
    obtain ⟨sensors, s₂, hnames, hserved⟩ := served_bind hserved
    obtain ⟨read, s₃, hread, hserved⟩ := served_bind hserved
    cases read with
    | error err => cases (served_done _ _ hserved).1
    | ok series' =>
        obtain ⟨heq, rfl⟩ := served_done _ _ hserved
        cases heq
        refine ⟨sensors, s₀, s₁, s₂, hfeatures.trans hnow, ?_, ?_, hmeta, hnames, hread⟩
        · rw [hclock]
        · rw [hclock]
  · cases (served_done _ _ hserved).1

/-- What the charts show. -/
structure Shown (lower : Char → Char) (hostID : String) (r : LoginRequest) (R : Reader V) (w : Int)
    (first last : Int) (s s' : History V) (series : List (Series V)) : Prop where
  window : ∃ s₀, Goes R w s s₀ ∧ Goes R w s₀ s' ∧
    first = bound r "from" (rangeWindow s₀.clock (rangeOf r)).1 ∧
    last = bound r "to" (rangeWindow s₀.clock (rangeOf r)).2
  asked : allValues r.query "sensor" ≠ [] →
    series.map Series.Sensor = allValues r.query "sensor"
  chosen : allValues r.query "sensor" = [] → ∃ s₁ names, Goes R w s s₁ ∧ Goes R w s₁ s' ∧
    names <+: s₁.ListSensorNames hostID first last ∧
    Chosen lower names (series.map Series.Sensor) ∧ ∀ x ∈ series, x.Points ≠ []
  points : ∀ x ∈ series, ∃ s₁, Goes R w s s₁ ∧ Goes R w s₁ s' ∧
    (x.Points.Pairwise fun a b => a.TS ≤ b.TS) ∧
    x.Points.Perm ((s₁.recorded.filter fun row =>
      row.Within hostID first last ∧ row.Sensor = x.Sensor).map SampleRow.toSample) ∧
    ∀ p ∈ x.Points.head?, x.Kind = p.Kind ∧ x.Unit = p.Unit

/-- What the store tells while it stands still. -/
def tell (hostID : String) (s : History V) : Ask → Answer V
  | .QuerySamples sensor first last => { points := s.QuerySamples hostID sensor first last }
  | .ListSensorNames first last => { names := s.ListSensorNames hostID first last }
  | .Now => { now := s.clock }
  | _ => {}

theorem told_tell (q : Ask) : Told hostID s q (tell hostID s q) := by
  cases q with
  | QuerySamples sensor first last => exact fun _ => rfl
  | ListSensorNames first last => exact List.prefix_rfl
  | Now => rfl
  | _ => trivial

/-- A request for the last minute of the host with the fan. -/
def fanChart : LoginRequest :=
  { Method := "GET", Path := ascii "/h/a/api/metrics", query := [("from", "40")] }

def fanHost : Host Unit := Inventory.newHost { ID := "a" } ()

def fanPage : Server.Talk Nat (PageReply Nat) := handleAPIMetrics Char.toLower fanHost fanChart

end Outband.Httpapi
