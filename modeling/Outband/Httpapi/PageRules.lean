import Mathlib.Tactic.SplitIfs
import Outband.Httpapi.Pages

/-!
# What a page may ask

`PageAllows` says which question a page of a host may ask after which exchanges. What it makes use
of is a feature that the host was asked for before, and a power action is the one of the form. In
between a page has a slot of the KVM bridge, a SOL session or a WebSocket at most once, and it
has none of them at its end. Every page keeps to this, whatever it is answered.

## Implementation notes

Pages that ask only `Quiet` questions keep to all of it at once.
-/

namespace Outband.Httpapi

open Foundation Dialogue
open Bmc (Feature)
open Inventory (Host)
open Server

variable {V C α : Type}

/-! ### Conditions -/

/-- The host was asked for its features, and they include this one. -/
def Enabled (h : Host C) (f : Feature) (past : List (Ask × Answer V)) : Prop :=
  ∃ a, (.Features, a) ∈ past ∧ (h.Features a.capabilities).Has f = true

structure PageAllows (h : Host C) (handler : HandlerName) (r : LoginRequest)
    (past : List (Ask × Answer V)) (q : Ask) : Prop where
  enabled : ∀ f ∈ q.needs, Enabled h f past
  action : ∀ action, q = .PowerControl action → handler = .handlePowerAction ∧
    ∃ form ∈ r.form, action = firstValue form "action"
  once : Once past q

/-! ### Rules -/

variable {h : Host C} {handler : HandlerName} {r : LoginRequest} {past : List (Ask × Answer V)}
  {q : Ask} {f : Feature} {d : Talk V α}

theorem Enabled.mono {more : List (Ask × Answer V)} (henabled : Enabled h f past) :
    Enabled h f (past ++ more) := by
  obtain ⟨a, ha, hf⟩ := henabled
  exact ⟨a, List.mem_append_left _ ha, hf⟩

/-- The exchanges leave so many of each open. -/
def Holds (past : List (Ask × Answer V)) (slots sols sockets : ℤ) : Prop :=
  held .slot past = slots ∧ held .sol past = sols ∧ held .socket past = sockets

theorem closed_iff : Closed past ↔ Holds past 0 0 0 := by
  constructor
  · intro h
    exact ⟨h .slot, h .sol, h .socket⟩
  · rintro ⟨hslot, hsol, hsocket⟩ (_ | _ | _)
    · exact hslot
    · exact hsol
    · exact hsocket

theorem Holds.snoc {slots sols sockets : ℤ} (hholds : Holds past slots sols sockets)
    (ex : Ask × Answer V) : Holds (past ++ [ex]) (slots + change .slot ex) (sols + change .sol ex)
      (sockets + change .socket ex) := by
  obtain ⟨rfl, rfl, rfl⟩ := hholds
  exact ⟨held_snoc .., held_snoc .., held_snoc ..⟩

/-- A question is allowed if its feature is enabled and the answer leaves nothing open twice. -/
theorem Holds.allowed {slots sols sockets : ℤ} (hholds : Holds past slots sols sockets)
    (henabled : ∀ f ∈ q.needs, Enabled h f past)
    (haction : ∀ action, q = .PowerControl action → handler = .handlePowerAction ∧
      ∃ form ∈ r.form, action = firstValue form "action")
    (honce : ∀ a : Answer V, (0 ≤ slots + change .slot (q, a) ∧ slots + change .slot (q, a) ≤ 1) ∧
      (0 ≤ sols + change .sol (q, a) ∧ sols + change .sol (q, a) ≤ 1) ∧
      0 ≤ sockets + change .socket (q, a) ∧ sockets + change .socket (q, a) ≤ 1) :
    PageAllows h handler r past q := by
  refine ⟨henabled, haction, fun res a => ?_⟩
  obtain ⟨hslot, hsol, hsocket⟩ := hholds.snoc (q, a)
  obtain ⟨hslots, hsols, hsockets⟩ := honce a
  cases res with
  | slot => rwa [hslot]
  | sol => rwa [hsol]
  | socket => rwa [hsocket]

/-- A question that neither opens nor closes anything. -/
theorem allowed_of_closed (hclosed : Closed past)
    (henabled : ∀ f ∈ q.needs, Enabled h f past)
    (haction : ∀ action, q = .PowerControl action → handler = .handlePowerAction ∧
      ∃ form ∈ r.form, action = firstValue form "action")
    (hq : ∀ res (a : Answer V), change res (q, a) = 0) : PageAllows h handler r past q :=
  ⟨henabled, haction, hclosed.once hq⟩

theorem allowed_of_quiet (hq : q.Quiet) (hclosed : Closed past) :
    PageAllows h handler r past q := by
  refine allowed_of_closed hclosed ?_ ?_ fun res a => hq.change res a
  · rw [hq.needs]
    intro f hf
    cases hf
  · rintro action rfl
    cases hq

/-- A dialogue that asks nothing but quiet questions. -/
theorem keeps_of_quiet (log : List (Ask × Answer V))
    (hd : d.Keeps (fun _ q => q.Quiet) (fun _ _ => True) log) (hclosed : Closed past) :
    d.Keeps (PageAllows h handler r) (fun past _ => Closed past) past := by
  induction d generalizing log past with
  | done a => exact hclosed
  | ask q next ih =>
      refine ⟨allowed_of_quiet hd.1 hclosed, fun a => ih a _ (hd.2 a) ?_⟩
      exact hclosed.snoc fun res => hd.1.change res a

/-! ### Pages of the store -/

theorem keeps_requireFeature {label : String} {rest : Talk V (PageReply V)}
    (hrest : ∀ past, Enabled h f past → Closed past →
      rest.Keeps (PageAllows h handler r) (fun past _ => Closed past) past) :
    (requireFeature h f label rest).Keeps (PageAllows h handler r) (fun past _ => Closed past)
      [] := by
  have hquiet : Ask.Quiet .Features := trivial
  refine keeps_ask (allowed_of_quiet hquiet closed_nil) fun a => ?_
  have hclosed : Closed ([] ++ [(Ask.Features, a)]) :=
    closed_nil.snoc fun res => hquiet.change res a
  split_ifs with hhas
  · exact hrest _ ⟨a, List.mem_singleton_self _, hhas⟩ hclosed
  · exact hclosed

variable {log : List (Ask × Answer V)}

theorem quiet_showLatest {name : String} {latest : Ask} {data : String → Bool → Answer V → PageData}
    (hlatest : latest.Quiet) :
    (showLatest name latest data).Keeps (fun _ q => q.Quiet) (fun _ _ => True) log := by
  refine keeps_ask trivial fun a => ?_
  dsimp only
  split_ifs
  · exact keeps_ask hlatest fun _ => trivial
  · trivial

/-- A page that is shown from the store alone. -/
theorem keeps_showLatest {name label : String} {latest : Ask}
    {data : String → Bool → Answer V → PageData} (hlatest : latest.Quiet) :
    (requireFeature h f label (showLatest name latest data)).Keeps (PageAllows h handler r)
      (fun past _ => Closed past) [] :=
  keeps_requireFeature fun _ _ hclosed =>
    keeps_of_quiet [] (quiet_showLatest hlatest) hclosed

theorem quiet_handleDashboardPartial (lower : Char → Char) :
    (handleDashboardPartial lower : Talk V _).Keeps (fun _ q => q.Quiet) (fun _ _ => True) log := by
  refine keeps_ask trivial fun a => ?_
  dsimp only
  split_ifs
  · exact keeps_ask trivial fun _ => keeps_ask trivial fun _ => keeps_ask trivial fun _ => trivial
  · trivial

theorem quiet_readSeries (first last : Int) (names : List String) :
    (readSeries first last names : Talk V _).Keeps (fun _ q => q.Quiet) (fun _ _ => True) log := by
  induction names generalizing log with
  | nil => trivial
  | cons name rest ih =>
      refine keeps_ask trivial fun a => ?_
      split
      case h_1 => trivial
      case h_2 =>
        refine ih.bind ?_
        intro more result _
        cases result <;> trivial

theorem quiet_seriesNames (lower : Char → Char) (first last : Int) :
    (seriesNames lower r first last : Talk V _).Keeps (fun _ q => q.Quiet) (fun _ _ => True)
      log := by
  rw [seriesNames]
  split_ifs
  · exact keeps_ask trivial fun _ => trivial
  · trivial

theorem keeps_handleMetrics (lower : Char → Char) :
    (handleMetrics lower h r : Talk V _).Keeps (PageAllows h handler r) (fun past _ => Closed past)
      [] := by
  refine keeps_requireFeature fun past _ hclosed => keeps_of_quiet [] ?_ hclosed
  exact keeps_ask trivial fun _ => keeps_ask trivial fun _ => trivial

theorem keeps_handleAPIMetrics (lower : Char → Char) :
    (handleAPIMetrics lower h r : Talk V _).Keeps (PageAllows h handler r)
      (fun past _ => Closed past) [] := by
  refine keeps_requireFeature fun past _ hclosed => keeps_of_quiet [] ?_ hclosed
  refine keeps_ask trivial fun _ => keeps_ask trivial fun _ => ?_
  refine (quiet_seriesNames ..).bind fun _ _ _ => (quiet_readSeries ..).bind ?_
  intro more result _
  cases result <;> trivial

/-! ### Pages that make use of a client or a bridge -/

theorem keeps_handlePowerAction :
    (handlePowerAction h r : Talk V _).Keeps (PageAllows h .handlePowerAction r)
      (fun past _ => Closed past) [] := by
  refine keeps_requireFeature fun past henabled hclosed => ?_
  split
  case h_1 => exact hclosed
  case h_2 form hform =>
    have hpower (past : List (Ask × Answer V)) (hpast : Enabled h .Power past) :
        ∀ f ∈ some Feature.Power, Enabled h f past := by
      rintro f ⟨⟩
      exact hpast
    have hnone (q : Ask) (hq : q = .PowerControl (firstValue form "action") ∨ q = .PowerStatus)
        (res : Resource) (a : Answer V) : change res (q, a) = 0 := by
      rcases hq with rfl | rfl <;> cases res <;> rfl
    refine keeps_ask
      (allowed_of_closed hclosed (hpower _ henabled) ?_ (hnone _ (.inl rfl))) fun a => ?_
    · rintro action ⟨⟩
      exact ⟨rfl, form, hform, rfl⟩
    have hcontrolled := hclosed.snoc fun res => hnone _ (.inl rfl) res a
    refine keeps_ask
      (allowed_of_closed hcontrolled (hpower _ henabled.mono) ?_ (hnone _ (.inr rfl)))
      fun read => ?_
    · rintro action ⟨⟩
    have hread := hcontrolled.snoc fun res => hnone _ (.inr rfl) res read
    have hquiet (ps : Bmc.PowerStatus) : (Ask.RecordPower ps).Quiet := trivial
    split
    case h_1 => exact hread
    case h_2 =>
      refine keeps_ask (allowed_of_quiet (hquiet _) hread) fun a => ?_
      exact hread.snoc fun res => (hquiet _).change res a

/-- One question of a page whose feature is enabled, in the light of what the page has open. -/
theorem Holds.keeps_ask {slots sols sockets : ℤ} {next : Answer V → Talk V (PageReply V)}
    (hholds : Holds past slots sols sockets) (henabled : Enabled h f past)
    (hneeds : ∀ g ∈ q.needs, g = f) (hpower : ∀ action, q ≠ .PowerControl action)
    (honce : ∀ a : Answer V, (0 ≤ slots + change .slot (q, a) ∧ slots + change .slot (q, a) ≤ 1) ∧
      (0 ≤ sols + change .sol (q, a) ∧ sols + change .sol (q, a) ≤ 1) ∧
      0 ≤ sockets + change .socket (q, a) ∧ sockets + change .socket (q, a) ≤ 1)
    (hnext : ∀ a past', Enabled h f past' →
      Holds past' (slots + change .slot (q, a)) (sols + change .sol (q, a))
        (sockets + change .socket (q, a)) →
      (next a).Keeps (PageAllows h handler r) (fun past _ => Closed past) past') :
    (ask q >>= next).Keeps (PageAllows h handler r) (fun past _ => Closed past) past := by
  refine Server.keeps_ask (hholds.allowed ?_ ?_ honce) fun a => ?_
  · intro g hg
    rwa [hneeds g hg]
  · rintro action rfl
    exact absurd rfl (hpower action)
  · exact hnext a _ henabled.mono (hholds.snoc (q, a))

theorem keeps_handleKVM :
    (handleKVM h : Talk V _).Keeps (PageAllows h handler r) (fun past _ => Closed past) [] := by
  refine keeps_requireFeature fun past henabled hclosed => ?_
  have hstatus : (bridgeStatus h : Talk V _).Keeps (PageAllows h handler r)
      (fun past _ => Closed past) past := by
    rw [bridgeStatus]
    split_ifs
    · exact hclosed
    · have hnone (res : Resource) (a : Answer V) : change res (.Status, a) = 0 := by
        cases res <;> rfl
      refine Server.keeps_ask (allowed_of_closed hclosed ?_ ?_ hnone) fun a =>
        hclosed.snoc (hnone · a)
      · rintro g ⟨⟩
        exact henabled
      · rintro action ⟨⟩
  exact hstatus.bind fun _ _ hdone => hdone

/-- The slot of the bridge is released however the WebSocket ends. -/
theorem keeps_handleKVMWS :
    (handleKVMWS h : Talk V _).Keeps (PageAllows h handler r) (fun past _ => Closed past) [] := by
  refine keeps_requireFeature fun past henabled hclosed => ?_
  split_ifs
  · exact hclosed
  refine (closed_iff.mp hclosed).keeps_ask henabled (by simp [Ask.needs]) (by simp) ?_ ?_
  · intro a
    by_cases herr : a.err = none <;> simp [change, herr]
  intro acquired past henabled hacquired
  split
  case h_1 err herr =>
    have hnothing : Closed past := closed_iff.mpr (by simpa [change, herr] using hacquired)
    split_ifs
    · exact hnothing
    · exact hnothing
  case h_2 herr =>
    have hslot : Holds past 1 0 0 := by simpa [change, herr] using hacquired
    refine hslot.keeps_ask henabled (by simp [Ask.needs]) (by simp) ?_ ?_
    · intro a
      by_cases herr : a.err = none <;> simp [change, herr]
    intro upgraded past henabled hupgraded
    split_ifs with hfailed
    · have hslot : Holds past 1 0 0 := by simpa [change, hfailed] using hupgraded
      refine hslot.keeps_ask henabled (by simp [Ask.needs]) (by simp) (by simp [change]) ?_
      intro a past _ hreleased
      exact closed_iff.mpr (by simpa [change] using hreleased)
    · have hboth : Holds past 1 0 1 := by simpa [change, not_not.mp hfailed] using hupgraded
      refine hboth.keeps_ask henabled (by simp [Ask.needs]) (by simp) (by simp [change]) ?_
      intro a past henabled hserved
      have hboth : Holds past 1 0 1 := by simpa [change] using hserved
      refine hboth.keeps_ask henabled (by simp [Ask.needs]) (by simp) (by simp [change]) ?_
      intro a past henabled hsocket
      have hslot : Holds past 1 0 0 := by simpa [change] using hsocket
      refine hslot.keeps_ask henabled (by simp [Ask.needs]) (by simp) (by simp [change]) ?_
      intro a past _ hreleased
      exact closed_iff.mpr (by simpa [change] using hreleased)

/-- The SOL session is closed before the WebSocket, however the copying between them ends. -/
theorem keeps_handleSOLWS :
    (handleSOLWS h : Talk V _).Keeps (PageAllows h handler r) (fun past _ => Closed past) [] := by
  refine keeps_requireFeature fun past henabled hclosed => ?_
  refine (closed_iff.mp hclosed).keeps_ask henabled (by simp [Ask.needs]) (by simp)
    (by simp [change]) ?_
  intro console past henabled hnothing
  have hnothing : Holds past 0 0 0 := by simpa [change] using hnothing
  split_ifs
  · exact closed_iff.mpr hnothing
  refine hnothing.keeps_ask henabled (by simp [Ask.needs]) (by simp) ?_ ?_
  · intro a
    by_cases herr : a.err = none <;> simp [change, herr]
  intro upgraded past henabled hupgraded
  split_ifs with hfailed
  · exact closed_iff.mpr (by simpa [change, hfailed] using hupgraded)
  have hsocket : Holds past 0 0 1 := by simpa [change, not_not.mp hfailed] using hupgraded
  refine hsocket.keeps_ask henabled (by simp [Ask.needs]) (by simp) ?_ ?_
  · intro a
    by_cases herr : a.err = none <;> simp [change, herr]
  intro opened past henabled hopened
  split
  case h_1 err herr =>
    have hsocket : Holds past 0 0 1 := by simpa [change, herr] using hopened
    refine hsocket.keeps_ask henabled (by simp [Ask.needs]) (by simp) (by simp [change]) ?_
    intro a past henabled hwritten
    have hsocket : Holds past 0 0 1 := by simpa [change] using hwritten
    refine hsocket.keeps_ask henabled (by simp [Ask.needs]) (by simp) (by simp [change]) ?_
    intro a past _ hdone
    exact closed_iff.mpr (by simpa [change] using hdone)
  case h_2 herr =>
    have hboth : Holds past 0 1 1 := by simpa [change, herr] using hopened
    refine hboth.keeps_ask henabled (by simp [Ask.needs]) (by simp) (by simp [change]) ?_
    intro a past henabled hwritten
    have hboth : Holds past 0 1 1 := by simpa [change] using hwritten
    refine hboth.keeps_ask henabled (by simp [Ask.needs]) (by simp) (by simp [change]) ?_
    intro a past henabled hcopied
    have hboth : Holds past 0 1 1 := by simpa [change] using hcopied
    refine hboth.keeps_ask henabled (by simp [Ask.needs]) (by simp) (by simp [change]) ?_
    intro a past henabled hsol
    have hsocket : Holds past 0 0 1 := by simpa [change] using hsol
    refine hsocket.keeps_ask henabled (by simp [Ask.needs]) (by simp) (by simp [change]) ?_
    intro a past _ hdone
    exact closed_iff.mpr (by simpa [change] using hdone)

/-- Every page of a host keeps to what it may ask, and closes what it opens. -/
theorem keeps_pageOf {lower : Char → Char} {page : Talk V (PageReply V)}
    (hpage : pageOf lower h r handler = some page) :
    page.Keeps (PageAllows h handler r) (fun past _ => Closed past) [] := by
  cases handler with
  | handleDashboard =>
      cases hpage
      exact closed_nil
  | handleDashboardPartial =>
      cases hpage
      exact keeps_of_quiet [] (quiet_handleDashboardPartial lower) closed_nil
  | handlePower | handlePowerPartial | handleSensors | handleSensorsPartial | handleSEL
  | handleSELPartial =>
      cases hpage
      exact keeps_showLatest trivial
  | handlePowerAction =>
      cases hpage
      exact keeps_handlePowerAction
  | handleMetrics =>
      cases hpage
      exact keeps_handleMetrics lower
  | handleAPIMetrics =>
      cases hpage
      exact keeps_handleAPIMetrics lower
  | handleConsole =>
      cases hpage
      exact keeps_requireFeature fun past _ hclosed => hclosed
  | handleSOLWS =>
      cases hpage
      exact keeps_handleSOLWS
  | handleKVM =>
      cases hpage
      exact keeps_handleKVM
  | handleKVMWS =>
      cases hpage
      exact keeps_handleKVMWS
  | StaticHandler | handleLoginGet | handleLoginPost | handleLogout | handleOIDCLogin
  | handleOIDCCallback | redirectDefault suffix => cases hpage

end Outband.Httpapi
