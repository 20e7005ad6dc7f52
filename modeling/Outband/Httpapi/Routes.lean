import Mathlib.Data.List.Infix
import Outband.Httpapi.Gate

/-!
# Routes behind the gate

`routes` and `Handler` (`internal/httpapi/server.go`) with `authExempt` and
`Middleware` (`internal/httpapi/auth.go`). The middleware looks at the decoded path
before the mux does. It lets a few paths through and asks the others for a session
cookie. No guarded route is reached without one, since its first segment is that
of no exempt path.

## Implementation notes

`ServeMux` stands for the mux of `net/http`, and its fields for what is assumed of
it. A path is a sequence of bytes, as its escapes may decode to any. The headers
are read for the cookies, in the order that they are sent, and for `HX-Request`.
-/

namespace Outband.Httpapi

open Foundation

/-- The bytes of an ASCII text. -/
def ascii (text : String) : Bytes := text.toList.map fun c => BitVec.ofNat 8 c.toNat

structure Request where
  Method : String
  /-- `r.URL.Path`. -/
  Path : Bytes
  cookies : List (String × String) := []
  /-- The header `HX-Request`, empty when it is missing. -/
  hxRequest : String := ""
  deriving DecidableEq, Repr

/-- The value of the first cookie of that name. -/
def Request.Cookie (r : Request) (name : String) : Option String :=
  (r.cookies.find? fun c => c.1 = name).map Prod.snd

def sessionCookie : String := "outband_session"

def isHTMX (r : Request) : Bool := r.hxRequest = "true"

def wantsJSON (r : Request) : Bool := ascii "/api/" <:+: r.Path

def authExempt (path : Bytes) : Bool :=
  if path = ascii "/login" ∨ path = ascii "/logout" then true
  else if ascii "/static/" <+: path then true
  else if ascii "/auth/oidc/" <+: path then true
  else false

/-! ### The table of routes -/

inductive HandlerName
  | StaticHandler
  | handleLoginGet
  | handleLoginPost
  | handleLogout
  | handleOIDCLogin
  | handleOIDCCallback
  | redirectDefault (suffix : String)
  | handleDashboard
  | handleDashboardPartial
  | handlePower
  | handlePowerPartial
  | handlePowerAction
  | handleSensors
  | handleSensorsPartial
  | handleSEL
  | handleSELPartial
  | handleMetrics
  | handleAPIMetrics
  | handleConsole
  | handleSOLWS
  | handleKVM
  | handleKVMWS
  deriving DecidableEq, Repr

/-- A registration; one without a method is for all of them. -/
structure Route where
  method : Option String
  path : String
  handler : HandlerName
  deriving DecidableEq, Repr

def legacySuffixes : List String :=
  ["/power", "/partials/power", "/sensors", "/partials/sensors", "/sel", "/partials/sel",
    "/metrics", "/api/metrics", "/partials/dashboard", "/console", "/kvm", "/ws/sol", "/ws/kvm"]

/-- The prefix `p` of the routes of a host. -/
def hostPrefix : String := "/h/{hostID}"

def routes : List Route :=
  [⟨none, "/static/", .StaticHandler⟩,
    ⟨some "GET", "/login", .handleLoginGet⟩,
    ⟨some "POST", "/login", .handleLoginPost⟩,
    ⟨some "POST", "/logout", .handleLogout⟩,
    ⟨some "GET", "/logout", .handleLogout⟩,
    ⟨some "GET", "/auth/oidc/login", .handleOIDCLogin⟩,
    ⟨some "GET", "/auth/oidc/callback", .handleOIDCCallback⟩,
    ⟨some "GET", "/{$}", .redirectDefault ""⟩] ++
  legacySuffixes.map (fun suffix => ⟨some "GET", suffix, .redirectDefault suffix⟩) ++
  [⟨some "POST", "/power", .redirectDefault "/power"⟩,
    ⟨some "GET", hostPrefix ++ "/{$}", .handleDashboard⟩,
    ⟨some "GET", hostPrefix, .handleDashboard⟩,
    ⟨some "GET", hostPrefix ++ "/partials/dashboard", .handleDashboardPartial⟩,
    ⟨some "GET", hostPrefix ++ "/power", .handlePower⟩,
    ⟨some "GET", hostPrefix ++ "/partials/power", .handlePowerPartial⟩,
    ⟨some "POST", hostPrefix ++ "/power", .handlePowerAction⟩,
    ⟨some "GET", hostPrefix ++ "/sensors", .handleSensors⟩,
    ⟨some "GET", hostPrefix ++ "/partials/sensors", .handleSensorsPartial⟩,
    ⟨some "GET", hostPrefix ++ "/sel", .handleSEL⟩,
    ⟨some "GET", hostPrefix ++ "/partials/sel", .handleSELPartial⟩,
    ⟨some "GET", hostPrefix ++ "/metrics", .handleMetrics⟩,
    ⟨some "GET", hostPrefix ++ "/api/metrics", .handleAPIMetrics⟩,
    ⟨some "GET", hostPrefix ++ "/console", .handleConsole⟩,
    ⟨some "GET", hostPrefix ++ "/ws/sol", .handleSOLWS⟩,
    ⟨some "GET", hostPrefix ++ "/kvm", .handleKVM⟩,
    ⟨some "GET", hostPrefix ++ "/ws/kvm", .handleKVMWS⟩]

namespace Route

/-- The literal segment a pattern starts with, if it starts with one. -/
def literal (route : Route) : Option String :=
  let segment := route.path.toList.tail.takeWhile (· ≠ '/')
  if segment = [] ∨ segment.head? = some '\x7b' then none else some (String.ofList segment)

/-- The route is registered under the prefix of a host. -/
def OfHost (route : Route) : Prop := hostPrefix.toList <+: route.path.toList

/-- The route is the redirect of an old path without the prefix. -/
def Legacy (route : Route) : Prop :=
  ∃ suffix ∈ legacySuffixes, route.handler = .redirectDefault suffix

instance (route : Route) : Decidable route.OfHost :=
  inferInstanceAs (Decidable (hostPrefix.toList <+: route.path.toList))

instance (route : Route) : Decidable route.Legacy :=
  inferInstanceAs (Decidable (∃ suffix ∈ legacySuffixes, route.handler = .redirectDefault suffix))

end Route

/-- The mux of `net/http`: the pattern it dispatches a request to, one of those registered. A
pattern that starts with a literal segment is for paths that start with it. -/
structure ServeMux where
  pattern : Request → Option Route
  registered : ∀ r route, pattern r = some route → route ∈ routes
  literal_first : ∀ r route segment, pattern r = some route → route.literal = some segment →
    ascii "/" ++ ascii segment <+: r.Path

/-! ### The middleware -/

/-- What becomes of a request: an error, a redirect, or the handler of a route; `none` is the mux's
own answer to a request it has no route for. -/
inductive Response
  | error (text : String) (code : Nat)
  | redirect (location : String) (code : Nat)
  | reached (route : Option Route)
  deriving DecidableEq, Repr

/-- The answer to a request without a session. -/
def denied (r : Request) : Response :=
  if isHTMX r ∨ wantsJSON r ∨ ascii "/ws/" <:+: r.Path then .error "unauthorized" 401
  else .redirect "/login" 303

def Gate.Middleware (g : Gate) (now : Nat) (next : Request → Response) (r : Request) :
    Response × Gate :=
  if authExempt r.Path then (next r, g)
  else
    match r.Cookie sessionCookie with
    | none => (denied r, g)
    | some c =>
        let checked := g.checkToken now c
        (if checked.1 then next r else denied r, checked.2)

def Handler (mux : ServeMux) (g : Gate) (now : Nat) (r : Request) : Response × Gate :=
  g.Middleware now (fun r => .reached (mux.pattern r)) r

/-! ### What reaches a route -/

/-- The prefixes of the exempt paths. -/
def exemptPrefixes : List Bytes :=
  [ascii "/login", ascii "/logout", ascii "/static/", ascii "/auth/oidc/"]

theorem exempt_prefix {path : Bytes} (h : authExempt path = true) :
    ∃ e ∈ exemptPrefixes, e <+: path := by
  unfold authExempt at h
  split_ifs at h with hexact hstatic hoidc
  · rcases hexact with rfl | rfl
    · exact ⟨_, by simp [exemptPrefixes], List.prefix_refl _⟩
    · exact ⟨_, by simp [exemptPrefixes], List.prefix_refl _⟩
  · exact ⟨_, by simp [exemptPrefixes], hstatic⟩
  · exact ⟨_, by simp [exemptPrefixes], hoidc⟩

/-- No path that starts with the segment starts like an exempt one. -/
def Apart (segment : String) : Prop :=
  ∀ e ∈ exemptPrefixes,
    ¬ e <+: ascii "/" ++ ascii segment ∧ ¬ ascii "/" ++ ascii segment <+: e

instance (segment : String) : Decidable (Apart segment) :=
  inferInstanceAs (Decidable (∀ e ∈ exemptPrefixes,
    ¬ e <+: ascii "/" ++ ascii segment ∧ ¬ ascii "/" ++ ascii segment <+: e))

theorem Apart.not_exempt {segment : String} {path : Bytes} (h : Apart segment)
    (hpath : ascii "/" ++ ascii segment <+: path) : authExempt path = false := by
  by_contra hexempt
  obtain ⟨e, he, hprefix⟩ := exempt_prefix (Bool.eq_true_of_not_eq_false hexempt)
  rcases List.prefix_or_prefix_of_prefix hprefix hpath with hshort | hlong
  · exact (h e he).1 hshort
  · exact (h e he).2 hlong

/-- Every route of a host and every legacy redirect starts with a segment of its own. -/
theorem apart_of_guarded :
    ∀ route ∈ routes, route.OfHost ∨ route.Legacy → ∃ segment ∈ route.literal, Apart segment := by
  decide

section

variable {mux : ServeMux} {g : Gate} {now : Nat} {r : Request} {route : Route}

theorem not_exempt_of_guarded (hpattern : mux.pattern r = some route)
    (hguarded : route.OfHost ∨ route.Legacy) : authExempt r.Path = false := by
  obtain ⟨segment, hsegment, hapart⟩ :=
    apart_of_guarded route (mux.registered r route hpattern) hguarded
  exact hapart.not_exempt (mux.literal_first r route segment hpattern hsegment)

theorem denied_ne_reached (r : Request) (route : Option Route) : denied r ≠ .reached route := by
  rw [denied]
  split_ifs <;> nofun

/-- A request to a path that is not exempt reaches a route only with a cookie that passes. -/
theorem cookie_of_reached (hreached : (Handler mux g now r).1 = .reached (some route))
    (hexempt : authExempt r.Path = false) :
    ∃ token, r.Cookie sessionCookie = some token ∧ (g.checkToken now token).1 = true := by
  rw [Handler, Gate.Middleware, hexempt, if_neg Bool.false_ne_true] at hreached
  split at hreached
  case h_1 => exact absurd hreached (denied_ne_reached r _)
  case h_2 c hcookie =>
    refine ⟨c, hcookie, ?_⟩
    by_contra hcheck
    simp only [if_neg hcheck] at hreached
    exact denied_ne_reached r _ hreached

theorem pattern_of_reached (hreached : (Handler mux g now r).1 = .reached (some route)) :
    mux.pattern r = some route := by
  rw [Handler, Gate.Middleware] at hreached
  split_ifs at hreached with hexempt
  · exact Response.reached.inj hreached
  split at hreached
  case h_1 => exact absurd hreached (denied_ne_reached r _)
  case h_2 c hcookie =>
    dsimp only at hreached
    split_ifs at hreached with hcheck
    · exact Response.reached.inj hreached
    · exact absurd hreached (denied_ne_reached r _)

end

namespace System

variable {mac : Bytes → Bytes → Bytes} {s : System}

/-- A request leaves a gate in a state of a run, whatever the middleware answers. -/
theorem run_request (hrun : Run mac s) (mux : ServeMux) (r : Request) :
    Run mac { s with gate := (Handler mux s.gate s.clock r).2 } := by
  rw [Handler, Gate.Middleware]
  split_ifs with hexempt
  · exact hrun
  split
  case h_1 => exact hrun
  case h_2 c hcookie =>
    obtain ⟨secret, clock, hreached⟩ := hrun
    exact ⟨secret, clock, .step (a := .checkToken c) hreached trivial rfl⟩

/-- After any run of a gate, a token passes the check exactly when it was issued twelve hours ago
at most and not revoked since. A request reaches a route of a host, a legacy redirect, or the
landing of `/` only with a session cookie that passes the check. -/
theorem gate_guards (hrun : Run mac s) :
    (∀ token, (s.gate.checkToken s.clock token).1 = true ↔
      ∃ τ, Standing s.log token τ ∧ s.clock ≤ τ + sessionTTL) ∧
    ∀ (mux : ServeMux) (r : Request) (route : Route),
      (Handler mux s.gate s.clock r).1 = .reached (some route) →
      route.OfHost ∨ route.Legacy ∨ r.Path = ascii "/" →
      ∃ token, r.Cookie sessionCookie = some token ∧
        (s.gate.checkToken s.clock token).1 = true := by
  refine ⟨checkToken_iff_of_kept (kept_of_run hrun), ?_⟩
  intro mux r route hreached hguarded
  apply cookie_of_reached hreached
  rw [← or_assoc] at hguarded
  rcases hguarded with hguarded | hroot
  · exact not_exempt_of_guarded (pattern_of_reached hreached) hguarded
  · rw [hroot]
    decide

/-- The HMAC-SHA256 of 32 zero bytes under a secret of 32 zero bytes. -/
def zeroMac : Bytes :=
  [51, 173, 10, 28, 96, 126, 192, 59, 9, 230, 205, 152, 147, 104, 12, 226,
    16, 173, 243, 0, 170, 31, 38, 96, 225, 178, 46, 16, 241, 112, 249, 42]

/-- The mux, for a request that posts to the power page of a host. -/
def powerMux : ServeMux where
  pattern r :=
    if r.Method = "POST" ∧ r.Path = ascii "/h/a/power" then
      some ⟨some "POST", hostPrefix ++ "/power", .handlePowerAction⟩
    else none
  registered := by
    intro r route hroute
    split_ifs at hroute
    cases hroute
    decide
  literal_first := by
    intro r route segment hroute hsegment
    split_ifs at hroute with hr
    cases hroute
    have hh : some "h" = some segment := Eq.trans (by decide) hsegment
    cases hh
    rw [hr.2]
    decide

def zeroToken : String :=
  "0000000000000000000000000000000000000000000000000000000000000000" ++ "." ++
    "33ad0a1c607ec03b09e6cd9893680ce210adf300aa1f2660e1b22e10f170f92a"

def powerRequest : Request :=
  { Method := "POST", Path := ascii "/h/a/power", cookies := [("outband_session", zeroToken)] }

/-- A power action with a token issued exactly twelve hours ago. -/
theorem gate_guards_power : ∃ s : System, Run (fun _ _ => zeroMac) s ∧
    s.log = [.issued zeroToken 1000] ∧ s.clock = 1000 + sessionTTL ∧
    (∃ τ, Standing s.log zeroToken τ ∧ s.clock ≤ τ + sessionTTL) ∧
    ∃ token, powerRequest.Cookie sessionCookie = some token ∧
      (s.gate.checkToken s.clock token).1 = true := by
  have htest : ((exec (step fun _ _ => zeroMac) (fun _ _ => True)
      [.issueToken (List.replicate 32 0), .tick sessionTTL]
      { gate := { secret := List.replicate 32 0 }, clock := 1000 }).any fun s =>
        decide (s.log = [.issued zeroToken 1000] ∧ s.clock = 1000 + sessionTTL ∧
          (s.gate.checkToken s.clock zeroToken).1 = true ∧
          (Handler powerMux s.gate s.clock powerRequest).1 =
            .reached (some ⟨some "POST", hostPrefix ++ "/power", .handlePowerAction⟩))) = true := by
    decide +kernel
  obtain ⟨s, hs, hlog, hclock, hcheck, hreached⟩ := exists_reached_of_exec htest
  have hrun : Run (fun _ _ => zeroMac) s := ⟨_, _, hs⟩
  obtain ⟨hchecks, hreaches⟩ := gate_guards hrun
  exact ⟨s, hrun, hlog, hclock, (hchecks zeroToken).mp hcheck,
    hreaches powerMux powerRequest _ hreached (.inl (by decide))⟩

end System

end Outband.Httpapi
