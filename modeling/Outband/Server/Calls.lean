import Outband.Httpapi.LoginRuns
import Outband.Httpapi.PageRules
import Outband.Telemetry.Collector

/-!
# The whole server

`main` (`cmd/outband/main.go`) serves the pages of all hosts and runs a collector for each. A
request reaches a page through the gate and the mux, and from then on the page talks to its host.
Pages and collectors are under way together, as is all that happens at the gate.

No BMC is asked for what its inventory entry switches off, or what it said it could not do. A
collector only reads. All else is the doing of a page, which was reached with a session that stood.

## Implementation notes

The surroundings answer in any way at any time, and they choose which page or collector goes on.
`hostID` is what the mux finds for the wildcard of a path. The features that a client has when its
collector starts are those of the act that starts it.
-/

namespace Outband.Server

open Foundation Httpapi Inventory Telemetry
open Bmc (Feature FeatureSet)

variable {β C V : Type}

/-! ### Steps -/

/-- What the server is run with. -/
structure Setup (C : Type) extends Site where
  registry : Registry C
  lower : Char → Char
  Retention : Int

/-- Who talks to a host: a page, by the request that has reached it, or the collector. -/
inductive Cause (β : Type)
  | page (who : Option β) (r : LoginRequest) (route : Route) (now : Nat)
  | collector (features : FeatureSet)

structure Tag (β : Type) where
  host : String
  cause : Cause β

structure System (β V : Type) where
  login : LoginSystem β
  pool : Pool (Tag β) Ask (Answer V) (Option (PageReply V)) := {}
  /-- The features that the collectors were started with. -/
  collectors : String → Option FeatureSet := fun _ => none

inductive Act (β V : Type)
  | web (a : LoginAct β) (hostID : String)
  | collect (id : String) (capabilities : Option FeatureSet)
  | tick (id : String) (p : Poll)
  | answer (i : Nat) (a : Answer V)
  | finish (i : Nat)

def Cause.polls : Cause β → Bool
  | page .. => false
  | collector _ => true

/-- The collector of the host is within a round. -/
def System.polling (s : System β V) (id : String) : Bool :=
  s.pool.tasks.any fun t => t.tag.host = id ∧ t.tag.cause.polls = true

namespace Setup

variable (setup : Setup C)

/-- The page that a step of the web reaches. -/
def opened (s : LoginSystem β) (hostID : String) :
    LoginAct β → Option (Tag β × Talk V (Option (PageReply V)))
  | .serve i _ => do
      let sent ← s.requests[i]?
      match (Handler setup.mux s.gate s.clock sent.2.toRequest).1 with
      | .reached (some route) =>
          let page ← handlePage setup.registry setup.lower hostID sent.2 route.handler
          return (⟨hostID, .page sent.1 sent.2 route s.clock⟩,
            page >>= fun reply => pure (some reply))
      | _ => none
  | _ => none

def collector (h : Host C) (features : FeatureSet) : Collector where
  RenameSensor := h.RenameSensor
  Retention := setup.Retention
  Features := features

variable [DecidableEq β]

def step : Act β V → System β V → Option (System β V)
  | .web a hostID, s =>
      (LoginSystem.step setup.toSite a s.login).map fun login => { s with
        login
        pool :=
          match setup.opened s.login hostID a with
          | some (tag, page) => s.pool.start tag page
          | none => s.pool }
  | .collect id capabilities, s =>
      match setup.registry.byID id, s.collectors id with
      | some h, none =>
          let features := h.Features capabilities
          some { s with
            pool := s.pool.start ⟨id, .collector features⟩
              ((setup.collector h features).start >>= fun _ => pure none)
            collectors := Function.update s.collectors id (some features) }
      | _, _ => none
  | .tick id p, s =>
      match setup.registry.byID id, s.collectors id with
      | some h, some features =>
          if s.polling id then none
          else some { s with
            pool := s.pool.start ⟨id, .collector features⟩
              ((setup.collector h features).tick p >>= fun _ => pure none) }
      | _, _ => none
  | .answer i a, s => (s.pool.answer i a).map fun pool => { s with pool }
  | .finish i, s => (s.pool.finish i).map fun pool => { s with pool }

/-- A run of the server from its start on, at any time and with any secret. -/
def Run (s : System β V) : Prop :=
  ∃ secret clock, Reached setup.step (fun _ _ => True)
    { login := { gate := { secret }, clock } } s

end Setup

/-! ### What the parts may ask -/

/-- What a page or a collector may ask of its host, which is in the registry. -/
def Allows (registry : Registry C) (tag : Tag β) (past : List (Ask × Answer V)) (q : Ask) : Prop :=
  ∃ h, registry.byID tag.host = some h ∧
    match tag.cause with
    | .page _ r route _ => PageAllows h route.handler r past q
    | .collector features => CollectorAllows features past q

/-- A page is that of a route of a host, and the request has reached it. A collector has the
features that its host had at one time. -/
def Caused (registry : Registry C) (log : List (LoginEvent β)) (tag : Tag β) : Prop :=
  match tag.cause with
  | .page who r route now => route.OfHost ∧ ∃ before after,
      log = before ++ .reached who (r.Cookie sessionCookie) route now :: after
  | .collector features => ∃ h capabilities, registry.byID tag.host = some h ∧
      features = h.Features capabilities

/-- The request reached the route with a session that stood. -/
def Authentic (log : List (LoginEvent β)) (who : Option β) (r : LoginRequest) (route : Route)
    (now : Nat) : Prop :=
  ∃ before after, log = before ++ .reached who (r.Cookie sessionCookie) route now :: after ∧
    ∃ token ∈ r.Cookie sessionCookie, ∃ τ,
      Standing (before.filterMap LoginEvent.gate) token τ ∧ now ≤ τ + sessionTTL

variable {setup : Setup C} {registry : Registry C} {log more : List (LoginEvent β)} {tag : Tag β}
  {past : List (Ask × Answer V)} {q : Ask}

theorem Caused.mono (h : Caused registry log tag) : Caused registry (log ++ more) tag := by
  obtain ⟨host, cause⟩ := tag
  cases cause with
  | page who r route now =>
      obtain ⟨hroute, before, after, rfl⟩ := h
      exact ⟨hroute, before, after ++ more, by rw [List.append_assoc, List.cons_append]⟩
  | collector features => exact h

theorem Allows.once (h : Allows registry tag past q) : Once past q := by
  obtain ⟨host, cause⟩ := tag
  obtain ⟨_, _, hallows⟩ := h
  cases cause with
  | page who r route now => exact hallows.once
  | collector features => exact hallows.once

/-- Every handler that begins with `resolveHost` is for routes of a host. -/
theorem ofHost_of_resolves : ∀ route ∈ routes, route.handler.resolves → route.OfHost := by
  decide

theorem resolves_of_pageOf {lower : Char → Char} {h : Host C} {r : LoginRequest}
    {handler : HandlerName} {page : Talk V (PageReply V)}
    (hpage : pageOf lower h r handler = some page) : handler.resolves = true := by
  cases handler <;> first | rfl | cases hpage

/-- A page keeps to what it may ask of its host. -/
theorem keeps_handlePage {lower : Char → Char} {hostID : String} (who : Option β)
    {r : LoginRequest} {route : Route} (now : Nat) {page : Talk V (PageReply V)}
    (hpage : handlePage registry lower hostID r route.handler = some page) :
    route.handler.resolves = true ∧
      page.Keeps (Allows registry ⟨hostID, .page who r route now⟩) (fun past _ => Closed past)
        [] := by
  rw [handlePage] at hpage
  split at hpage
  case h_1 h hhost =>
    exact ⟨resolves_of_pageOf hpage, (keeps_pageOf hpage).imp fun _ _ hq => ⟨h, hhost, hq⟩⟩
  case h_2 =>
    split_ifs at hpage with hresolves
    cases hpage
    exact ⟨hresolves, closed_nil⟩

/-! ### Every run -/

/-- What an exchange opens or closes at this host. -/
def weight (host : String) (res : Resource) (tag : Tag β) (ex : Ask × Answer V) : ℤ :=
  if tag.host = host then change res ex else 0

/-- What holds in every run. -/
structure System.Sound (setup : Setup C) (s : System β V) : Prop where
  login : s.login.Sound setup.toSite
  pool : s.pool.Sound (Allows setup.registry) fun _ past _ => Closed past
  balanced : ∀ host res, s.pool.Balanced (weight host res)
  tagged : s.pool.Tagged (Caused setup.registry s.login.log)
  collectors : ∀ id features, s.collectors id = some features →
    Caused setup.registry s.login.log ⟨id, .collector features⟩

variable {s s' : System β V}

theorem net_weight (host : String) (res : Resource) (tag : Tag β) (past : List (Ask × Answer V)) :
    Pool.net (weight host res) tag past = if tag.host = host then held res past else 0 := by
  rw [Pool.net, held]
  split_ifs with hhost
  · exact congrArg List.sum (List.map_congr_left fun ex _ => if_pos hhost)
  · have hzero : past.map (weight host res tag) = past.map fun _ => 0 :=
      List.map_congr_left fun ex _ => if_neg hhost
    rw [hzero, List.map_const', List.sum_replicate, nsmul_zero]

theorem change_cases (res : Resource) (ex : Ask × Answer V) :
    change res ex = -1 ∨ change res ex = 0 ∨ change res ex = 1 := by
  rw [change.eq_def]
  split
  case h_1 | h_2 | h_3 =>
    split_ifs
    · exact .inr (.inr rfl)
    · exact .inr (.inl rfl)
  case h_4 | h_5 | h_6 => exact .inl rfl
  case h_7 => exact .inr (.inl rfl)

theorem weight_cases (host : String) (res : Resource) (tag : Tag β) (ex : Ask × Answer V) :
    weight host res tag ex = -1 ∨ weight host res tag ex = 0 ∨ weight host res tag ex = 1 := by
  rw [weight]
  split_ifs
  · exact change_cases res ex
  · exact .inr (.inl rfl)

theorem weight_eq_iff (host : String) (res : Resource) (tag : Tag β) (ex : Ask × Answer V) {n : ℤ}
    (hn : n ≠ 0) : weight host res tag ex = n ↔ tag.host = host ∧ change res ex = n := by
  rw [weight]
  split_ifs with hhost
  · exact (and_iff_right hhost).symm
  · exact iff_of_false hn.symm fun h => hhost h.1

theorem net_weight_eq_one (host : String) (res : Resource) (tag : Tag β)
    (past : List (Ask × Answer V)) :
    Pool.net (weight host res) tag past = 1 ↔ tag.host = host ∧ held res past = 1 := by
  rw [net_weight]
  split_ifs with hhost
  · exact (and_iff_right hhost).symm
  · exact iff_of_false zero_ne_one fun h => hhost h.1

/-- A collector that has been started talks to its host. -/
theorem System.Sound.collect (hs : s.Sound setup) {id : String} {h : Host C} {features : FeatureSet}
    (hhost : setup.registry.byID id = some h)
    (hcaused : Caused setup.registry s.login.log ⟨id, .collector features⟩)
    {d : Talk V Unit}
    (hd : d.Keeps (CollectorAllows features) (fun past _ => Closed past) []) :
    (s.pool.start ⟨id, .collector features⟩ (d >>= fun _ => pure none)).Sound
        (Allows setup.registry) (fun _ past _ => Closed past) ∧
      (s.pool.start ⟨id, .collector features⟩ (d >>= fun _ => pure none)).Tagged
        (Caused setup.registry s.login.log) := by
  refine ⟨hs.pool.start ?_, hs.tagged.start hcaused⟩
  refine Dialogue.Keeps.bind (hd.imp fun _ _ hq => ⟨h, hhost, hq⟩) fun _ _ hclosed => hclosed

/-- A question in the log was allowed after earlier exchanges of those who asked it. -/
theorem allows_of_mem (hs : s.Sound setup) {a : Answer V} (hcall : (tag, q, a) ∈ s.pool.log) :
    ∃ past, (∀ ex ∈ past, (tag, ex) ∈ s.pool.log) ∧ Allows setup.registry tag past q := by
  obtain ⟨before, after, hlog⟩ := List.append_of_mem hcall
  obtain ⟨past, hpast, hallows⟩ := hs.pool.logged before _ after hlog
  refine ⟨past, fun ex hex => ?_, hallows⟩
  rw [hlog]
  exact List.mem_append_left _ (hpast.subset (List.mem_map_of_mem hex))

/-- A page or collector under way has each of the three at most once. -/
theorem held_of_mem (hs : s.Sound setup) (res : Resource)
    {t : Task (Tag β) Ask (Answer V) (Option (PageReply V))} (ht : t ∈ s.pool.tasks) :
    held res t.past = 0 ∨ held res t.past = 1 := by
  rcases List.eq_nil_or_concat t.past with hnil | ⟨before, ⟨q, a⟩, hlast⟩
  · exact .inl (by rw [hnil, held, List.map_nil, List.sum_nil])
  · have honce := (hs.pool.asked t ht before (q, a) [] (by rw [hlast, List.concat_eq_append])).once
    have hbounds := honce res a
    rw [← List.concat_eq_append, ← hlast] at hbounds
    omega

section

variable [DecidableEq β] {site : Site} {l l' : LoginSystem β} {a : LoginAct β}

/-- What happens at the gate is added to the log. -/
theorem exists_log (hstep : LoginSystem.step site a l = some l') :
    ∃ more, l'.log = l.log ++ more := by
  cases a with
  | send | forge | lose | tick =>
      cases hstep
      exact ⟨[], (List.append_nil _).symm⟩
  | serve i draws =>
      obtain ⟨sent, -, rfl⟩ := Option.map_eq_some_iff.mp hstep
      exact ⟨_, rfl⟩
  | finish i provider raw =>
      obtain ⟨waiting, -, rfl⟩ := Option.map_eq_some_iff.mp hstep
      exact ⟨_, rfl⟩
  | receive i =>
      obtain ⟨sent, -, rfl⟩ := Option.map_eq_some_iff.mp hstep
      exact ⟨[], (List.append_nil _).symm⟩

/-- The log has the request that a page was opened for, and the page keeps to what it may ask. -/
theorem opened_sound {setup : Setup C} {hostID : String} {tag : Tag β}
    {page : Talk V (Option (PageReply V))}
    (hopened : setup.opened l hostID a = some (tag, page))
    (hstep : LoginSystem.step setup.toSite a l = some l') :
    Caused setup.registry l'.log tag ∧
      page.Keeps (Allows setup.registry tag) (fun past _ => Closed past) [] := by
  cases a with
  | serve i draws =>
      obtain ⟨⟨who, r⟩, hsent, hreached⟩ := Option.bind_eq_some_iff.mp hopened
      split at hreached
      case h_1 route hhandler =>
        obtain ⟨shown, hshown, hpage⟩ := Option.bind_eq_some_iff.mp hreached
        cases hpage
        obtain ⟨hresolves, hkeeps⟩ := keeps_handlePage who l.clock hshown
        have hroute : route ∈ routes :=
          setup.mux.registered _ route (pattern_of_reached hhandler)
        refine ⟨⟨ofHost_of_resolves route hroute hresolves, ?_⟩, ?_⟩
        · obtain ⟨sent, hsent', rfl⟩ := Option.map_eq_some_iff.mp hstep
          cases hsent.symm.trans hsent'
          refine ⟨l.log, (setup.handle who (Handler setup.mux l.gate l.clock r.toRequest).2 l.clock
            draws route r).log, ?_⟩
          simp only [LoginSystem.note, Site.serve, hhandler]
        · exact hkeeps.bind fun _ _ hclosed => hclosed
      case h_2 => cases hreached
  | send | forge | finish | receive | lose | tick => cases hopened

variable {setup : Setup C} {s s' : System β V} {act : Act β V}

theorem System.Sound.web (hs : s.Sound setup) {hostID : String}
    (hstep : setup.step (.web a hostID) s = some s') : s'.Sound setup := by
  obtain ⟨login, hlogin, rfl⟩ := Option.map_eq_some_iff.mp hstep
  obtain ⟨more, hmore⟩ := exists_log hlogin
  have htagged : s.pool.Tagged (Caused setup.registry login.log) := by
    rw [hmore]
    exact hs.tagged.mono fun tag htag => htag.mono
  have hcollectors (id : String) (features : FeatureSet)
      (hfeatures : s.collectors id = some features) :
      Caused setup.registry login.log ⟨id, .collector features⟩ := by
    rw [hmore]
    exact (hs.collectors id features hfeatures).mono
  refine ⟨hs.login.next hlogin, ?_, ?_, ?_, hcollectors⟩
  · dsimp only
    split
    case h_1 tag page hopened => exact hs.pool.start (opened_sound hopened hlogin).2
    case h_2 => exact hs.pool
  · intro host res
    dsimp only
    split
    case h_1 => exact (hs.balanced host res).start
    case h_2 => exact hs.balanced host res
  · dsimp only
    split
    case h_1 tag page hopened => exact htagged.start (opened_sound hopened hlogin).1
    case h_2 => exact htagged

theorem System.Sound.next (hs : s.Sound setup) (hstep : setup.step act s = some s') :
    s'.Sound setup := by
  cases act with
  | web a hostID => exact hs.web hstep
  | collect id capabilities =>
      rw [Setup.step] at hstep
      split at hstep
      case h_1 h hhost _ =>
        cases hstep
        have hcaused : Caused setup.registry s.login.log
            ⟨id, .collector (h.Features capabilities)⟩ := ⟨h, capabilities, hhost, rfl⟩
        obtain ⟨hpool, htagged⟩ := hs.collect hhost hcaused
          (keeps_start (c := setup.collector h (h.Features capabilities)))
        refine ⟨hs.login, hpool, fun host res => (hs.balanced host res).start, htagged, ?_⟩
        intro id' features hfeatures
        change Function.update s.collectors id _ id' = some features at hfeatures
        by_cases hid : id' = id
        · subst hid
          rw [Function.update_self] at hfeatures
          cases hfeatures
          exact hcaused
        · rw [Function.update_of_ne hid] at hfeatures
          exact hs.collectors id' features hfeatures
      case h_2 => cases hstep
  | tick id p =>
      rw [Setup.step] at hstep
      split at hstep
      case h_1 h features hhost hfeatures =>
        split_ifs at hstep with hpolling
        cases hstep
        obtain ⟨hpool, htagged⟩ := hs.collect hhost (hs.collectors id features hfeatures)
          (keeps_tick (c := setup.collector h features) p closed_nil)
        exact ⟨hs.login, hpool, fun host res => (hs.balanced host res).start, htagged,
          hs.collectors⟩
      case h_2 => cases hstep
  | answer i a =>
      obtain ⟨pool, hpool, rfl⟩ := Option.map_eq_some_iff.mp hstep
      exact ⟨hs.login, hs.pool.answer hpool, fun host res => (hs.balanced host res).answer hpool,
        hs.tagged.answer hpool, hs.collectors⟩
  | finish i =>
      obtain ⟨pool, hpool, rfl⟩ := Option.map_eq_some_iff.mp hstep
      refine ⟨hs.login, hs.pool.finish hpool, ?_, hs.tagged.finish hpool, hs.collectors⟩
      intro host res
      refine (hs.balanced host res).finish hs.pool (fun tag past _ hclosed => ?_) hpool
      rw [net_weight, hclosed res, ite_self]

theorem sound_of_run (hrun : setup.Run s) : s.Sound setup := by
  obtain ⟨secret, clock, hreached⟩ := hrun
  refine hreached.invariant (I := System.Sound setup) ?_ fun _ _ _ hs _ hstep => hs.next hstep
  have hstart : LoginSystem.Run setup.toSite (fun _ _ => True)
      ({ gate := { secret }, clock } : LoginSystem β) := ⟨secret, clock, .init⟩
  refine ⟨LoginSystem.sound_of_run hstart, Pool.sound_empty, fun _ _ => Pool.balanced_empty,
    Pool.tagged_empty, ?_⟩
  intro id features hfeatures
  cases hfeatures

/-- In every run, whatever is asked of a host is for a feature that its inventory entry has not
switched off; for KVM the entry has it. The collector only reads, and only what is among the
features it was started with. A page makes use of what the host said it could do when the page
asked for it; its request reached the route of a host with a session that stood, and a power action
is the one in its form. -/
theorem call_justified (hrun : setup.Run s) {a : Answer V} (hcall : (tag, q, a) ∈ s.pool.log)
    {f : Feature} (hneeds : q.needs = some f) :
    ∃ h, setup.registry.byID tag.host = some h ∧ ¬ h.Disabled f ∧ (f = .KVM → h.HasKVM = true) ∧
      match tag.cause with
      | .collector features =>
          features.Has f = true ∧ q ∈ [.MCInfo, .PowerStatus, .Sensors, .SEL 80]
      | .page who r route now =>
          (∃ answer, (tag, .Features, answer) ∈ s.pool.log ∧
            (h.Features answer.capabilities).Has f = true) ∧
          (∀ action, q = .PowerControl action → route.handler = .handlePowerAction ∧
            ∃ form ∈ r.form, action = firstValue form "action") ∧
          route.OfHost ∧ Authentic s.login.log who r route now := by
  have hs := sound_of_run hrun
  obtain ⟨past, hpast, h, hhost, hallows⟩ := allows_of_mem hs hcall
  have hcaused := hs.tagged.log _ hcall
  have hfeature {features : FeatureSet} {capabilities : Option FeatureSet}
      (hfeatures : features = h.Features capabilities) (hhas : features.Has f = true) :
      ¬ h.Disabled f ∧ (f = .KVM → h.HasKVM = true) := by
    subst hfeatures
    obtain ⟨hkvm, hdisabled⟩ := (h.has_features capabilities f).mp hhas
    refine ⟨hdisabled, fun heq => ?_⟩
    rwa [if_pos heq] at hkvm
  obtain ⟨host, cause⟩ := tag
  refine ⟨h, hhost, ?_⟩
  cases cause with
  | collector features =>
      obtain ⟨h', capabilities, hhost', hfeatures⟩ := hcaused
      cases hhost.symm.trans hhost'
      obtain ⟨hhas, hpoll⟩ := hallows.polls f hneeds
      obtain ⟨hdisabled, hkvm⟩ := hfeature hfeatures hhas
      exact ⟨hdisabled, hkvm, hhas, hpoll⟩
  | page who r route now =>
      obtain ⟨hroute, before, after, hreached⟩ := hcaused
      obtain ⟨answer, hanswer, hhas⟩ := hallows.enabled f hneeds
      obtain ⟨hdisabled, hkvm⟩ := hfeature rfl hhas
      have hsession := hs.login.grounded before _ after hreached (.inl hroute)
      exact ⟨hdisabled, hkvm, ⟨answer, hpast _ hanswer, hhas⟩, hallows.action, hroute, before,
        after, hreached, hsession⟩

/-- The mux, for the login, the power page of a host and its KVM socket. -/
def socketMux : ServeMux where
  pattern r :=
    if r.Method = "GET" ∧ r.Path = ascii "/h/a/ws/kvm" then
      some ⟨some "GET", hostPrefix ++ "/ws/kvm", .handleKVMWS⟩
    else LoginSystem.loginMux.pattern r
  registered := by
    intro r route hroute
    split_ifs at hroute
    · cases hroute
      decide
    · exact LoginSystem.loginMux.registered r route hroute
  literal_first := by
    intro r route segment hroute hsegment
    split_ifs at hroute with hr
    · cases hroute
      have hh : some "h" = some segment := Eq.trans (by decide) hsegment
      cases hh
      rw [hr.2]
      decide
    · exact LoginSystem.loginMux.literal_first r route segment hroute hsegment

/-- A server for one host with KVM. -/
def socketSetup : Setup Unit where
  toSite := { LoginSystem.providerSite with mux := socketMux }
  registry := ({ defaultID := "a" } : Registry Unit).add
    { ID := "a", Host := "a.example", Provider := "ipmi", KVM := some {} } ()
  lower := Char.toLower
  Retention := 3600

def powerForm : LoginRequest :=
  { LoginSystem.powerPost with form := some [("action", "on")] }

def kvmSocket : LoginRequest := { Method := "GET", Path := ascii "/h/a/ws/kvm" }

/-- A browser logs in, switches the host on, and is given the screen. -/
def socketActs : List (Act Nat Unit) :=
  LoginSystem.loginActs.map (.web · "") ++
    [.web (.send 0 [(sessionCookie, "/")] powerForm) "",
      .web (.send 0 [(sessionCookie, "/")] kvmSocket) "", .web (.tick 5) "",
      .web (.serve 0 {}) "a", .web (.serve 0 {}) "a", .collect "a" none, .answer 0 {},
      .answer 1 {}, .answer 2 {}, .answer 1 {}, .answer 0 {}, .answer 1 {}]

/-- The power action of that browser. -/
theorem call_justified_power : ∃ (s : System Nat Unit) (tag : Tag Nat) (a : Answer Unit),
    socketSetup.Run s ∧ tag.host = "a" ∧ (tag, .PowerControl "on", a) ∈ s.pool.log ∧
    ∃ h, socketSetup.registry.byID tag.host = some h ∧ ¬ h.Disabled .Power ∧
      (Feature.Power = .KVM → h.HasKVM = true) ∧
      match tag.cause with
      | .collector features =>
          features.Has .Power = true ∧
            .PowerControl "on" ∈ [.MCInfo, .PowerStatus, .Sensors, Ask.SEL 80]
      | .page who r route now =>
          (∃ answer, (tag, .Features, answer) ∈ s.pool.log ∧
            (h.Features answer.capabilities).Has .Power = true) ∧
          (∀ action, .PowerControl "on" = Ask.PowerControl action →
            route.handler = .handlePowerAction ∧
              ∃ form ∈ r.form, action = firstValue form "action") ∧
          route.OfHost ∧ Authentic s.login.log who r route now := by
  have htest : ((exec socketSetup.step (fun _ _ => True) socketActs
      { login := LoginSystem.startSystem }).any fun s =>
        decide ((s.pool.log.any fun e =>
          decide (e.1.host = "a" ∧ e.2.1 = .PowerControl "on")) = true)) = true := by
    decide +kernel
  obtain ⟨s, hs, hany⟩ := exists_reached_of_exec htest
  obtain ⟨⟨⟨host, cause⟩, q, a⟩, hcall, hpower⟩ := List.any_eq_true.mp hany
  obtain ⟨hhost, rfl⟩ := of_decide_eq_true hpower
  have hrun : socketSetup.Run s := ⟨_, _, hs⟩
  have hjustified := call_justified hrun hcall rfl
  refine ⟨s, ⟨host, cause⟩, a, hrun, hhost, hcall, ?_⟩
  cases cause with
  | page who r route now => exact hjustified
  | collector features => exact hjustified

/-- In every run, what has been opened for a host has been closed, once each, but for what the
pages under way have open; and each of them has at most one of a kind. So the KVM bridge is
released as often as it was acquired, and the SOL sessions and sockets are closed. -/
theorem sessions_closed (hrun : setup.Run s) (host : String) (res : Resource) :
    s.pool.log.countP (fun e => e.1.host = host ∧ change res e.2 = 1) =
        s.pool.log.countP (fun e => e.1.host = host ∧ change res e.2 = -1) +
          s.pool.tasks.countP (fun t => t.tag.host = host ∧ held res t.past = 1) ∧
      ∀ t ∈ s.pool.tasks, held res t.past = 0 ∨ held res t.past = 1 := by
  have hs := sound_of_run hrun
  have hopen (t) (ht : t ∈ s.pool.tasks) := held_of_mem hs res ht
  refine ⟨?_, hopen⟩
  have hlog := Pool.sum_eq_countP s.pool.log fun e _ => weight_cases host res e.1 e.2
  have hnet (t) (ht : t ∈ s.pool.tasks) :
      Pool.net (weight host res) t.tag t.past = 0 ∨
        Pool.net (weight host res) t.tag t.past = 1 := by
    rw [net_weight]
    split_ifs
    · exact hopen t ht
    · exact .inl rfl
  have htasks := Pool.sum_eq_countP s.pool.tasks fun t ht => .inr (hnet t ht)
  have hnone : (s.pool.tasks.countP fun t => Pool.net (weight host res) t.tag t.past = -1) = 0 := by
    refine List.countP_eq_zero.mpr fun t ht hneg => ?_
    have := hnet t ht
    have := of_decide_eq_true hneg
    omega
  have hbalanced := hs.balanced host res
  rw [Pool.Balanced, hlog, htasks, hnone] at hbalanced
  simp only [weight_eq_iff _ _ _ _ one_ne_zero, net_weight_eq_one,
    weight_eq_iff _ _ _ _ (neg_ne_zero.mpr one_ne_zero)] at hbalanced
  omega

/-- The screen is under way. -/
theorem sessions_closed_kvm : ∃ s : System Nat Unit, socketSetup.Run s ∧
    s.pool.tasks.length = 3 ∧
    s.pool.log.countP (fun e => e.1.host = "a" ∧ change .slot e.2 = 1) = 1 ∧
    s.pool.log.countP (fun e => e.1.host = "a" ∧ change .slot e.2 = 1) =
        s.pool.log.countP (fun e => e.1.host = "a" ∧ change .slot e.2 = -1) +
          s.pool.tasks.countP (fun t => t.tag.host = "a" ∧ held .slot t.past = 1) ∧
      ∀ t ∈ s.pool.tasks, held .slot t.past = 0 ∨ held .slot t.past = 1 := by
  have htest : ((exec socketSetup.step (fun _ _ => True) socketActs
      { login := LoginSystem.startSystem }).any fun s =>
        decide (s.pool.tasks.length = 3 ∧
          s.pool.log.countP (fun e => e.1.host = "a" ∧ change .slot e.2 = 1) = 1)) = true := by
    decide +kernel
  obtain ⟨s, hs, htasks, hopened⟩ := exists_reached_of_exec htest
  have hrun : socketSetup.Run s := ⟨_, _, hs⟩
  exact ⟨s, hrun, htasks, hopened, sessions_closed hrun "a" .slot⟩

end

end Outband.Server
