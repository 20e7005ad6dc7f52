import Outband.Foundation.History
import Outband.Httpapi.Login

/-!
# Browsers that log in

Any number of browsers send requests to the server, and so does anybody else. Requests, replies
and callbacks that wait for the provider are in flight together, and each is taken up in any
order. A browser sends the cookies it was given, to any page and with any query: a link on a
foreign site can make it visit the callback. It may lose a cookie at any time.

Every session in the cookies of a browser was issued to a login of that browser. Its callback
completed a login which it had begun itself, and the ID token bears the nonce of that login.

## Implementation notes

A request that no browser sends carries any cookies. `log` records what happened and `drawn` the
bytes drawn for a state; no step reads them. The answer of a handler that sets no cookies is left
out.
-/

namespace Outband.Httpapi

open Foundation

/-- The cookies of a browser, by name and path. -/
abbrev Jar := String × String → Option String

namespace Jar

def store (jar : Jar) (c : SetCookie) : Jar :=
  Function.update jar (c.Name, c.Path) (if c.MaxAge < 0 then none else some c.Value)

def receive (jar : Jar) (reply : Reply) : Jar := reply.cookies.foldl store jar

/-- The cookies under these keys, as a request carries them. -/
def cookies (jar : Jar) (keys : List (String × String)) : List (String × String) :=
  keys.filterMap fun key => (jar key).map fun value => (key.1, value)

end Jar

inductive LoginEvent (β : Type)
  | reached (who : Option β) (cookie : Option String) (route : Route) (now : Nat)
  | password (who : Option β) (got token : String) (now : Nat)
  | began (who : Option β) (flow : Flow)
  | completed (who : Option β) (flow : Flow) (idToken : IDToken) (token : String) (now : Nat)
  | loggedOut (token : String)
  deriving DecidableEq, Repr

/-- What the server is run with. -/
structure Site where
  mac : Bytes → Bytes → Bytes
  sha256 : Bytes → Bytes
  pass : String
  oidc : Option OidcAuth
  mux : ServeMux

/-- What a handler does: the gate it leaves, what becomes of the request, and what happened. -/
structure Outcome (β : Type) where
  gate : Gate
  answer : Option (Reply ⊕ Exchange) := none
  log : List (LoginEvent β) := []

/-- The session that a reply hands out. -/
def Reply.session (reply : Reply) : Option String :=
  (reply.cookies.find? fun c => c.Name = sessionCookie ∧ 0 ≤ c.MaxAge).map fun c => c.Value

variable {β : Type}

namespace Site

variable (site : Site) (who : Option β)

def handle (g : Gate) (now : Nat) (draws : Draws) (route : Route) (r : LoginRequest) :
    Outcome β :=
  match route.handler with
  | .handleLoginGet => { gate := g, answer := some (.inl { code := 200, body := .login "" }) }
  | .handleLoginPost =>
      let handled := handleLoginPost site.mac site.pass g now draws.token r
      { gate := handled.2, answer := some (.inl handled.1),
        log := handled.1.session.toList.map fun token =>
          .password who (firstValue (r.form.getD []) "password") token now }
  | .handleLogout =>
      let handled := handleLogout g r
      { gate := handled.2, answer := some (.inl handled.1),
        log := (r.Cookie sessionCookie).toList.map .loggedOut }
  | .handleOIDCLogin =>
      { gate := g, answer := some (.inl (handleOIDCLogin site.sha256 site.oidc now draws)),
        log := if site.oidc.isSome then (Flow.draw draws).toList.map (.began who) else [] }
  | .handleOIDCCallback => { gate := g, answer := some (handleOIDCCallback site.oidc r) }
  | _ => { gate := g }

/-- The server answers a request. -/
def serve (g : Gate) (now : Nat) (draws : Draws) (r : LoginRequest) : Outcome β :=
  let handled := Handler site.mux g now r.toRequest
  match handled.1 with
  | .reached (some route) =>
      let outcome := site.handle who handled.2 now draws route r
      { outcome with log := .reached who (r.Cookie sessionCookie) route now :: outcome.log }
  | .reached none => { gate := handled.2 }
  | .error text code => { gate := handled.2, answer := some (.inl (httpError text code)) }
  | .redirect location code =>
      { gate := handled.2, answer := some (.inl { code, location := some location }) }

/-- The server goes on with a callback that has waited for the provider. -/
def finish (provider : Provider) (g : Gate) (now : Nat) (raw : Bytes) (x : Exchange) :
    Outcome β :=
  let finished := finishOIDCCallback site.mac provider g now raw x
  { gate := finished.2, answer := some (.inl finished.1),
    log :=
      match x.accept provider with
      | .ok idToken => [.completed who x.flow idToken (g.token site.mac raw) now]
      | .error _ => [] }

end Site

/-- The server, the browsers, and all that is in flight between them; `none` stands for those
who use no browser. -/
structure LoginSystem (β : Type) where
  gate : Gate
  clock : Nat := 0
  jars : β → Jar := fun _ _ => none
  requests : List (Option β × LoginRequest) := []
  exchanges : List (Option β × Exchange) := []
  replies : List (Option β × Reply) := []
  log : List (LoginEvent β) := []
  drawn : List Bytes := []

inductive LoginAct (β : Type)
  | send (b : β) (keys : List (String × String)) (r : LoginRequest)
  | forge (r : LoginRequest)
  | serve (i : Nat) (draws : Draws)
  | finish (i : Nat) (provider : Provider) (raw : Bytes)
  | receive (i : Nat)
  | lose (b : β) (key : String × String)
  | tick (d : Nat)

namespace LoginSystem

/-- What the server has done with a request of `who`. -/
def note (s : LoginSystem β) (who : Option β) (outcome : Outcome β) : LoginSystem β :=
  { s with
    gate := outcome.gate
    exchanges := s.exchanges ++
      match outcome.answer with
      | some (.inr x) => [(who, x)]
      | _ => []
    replies := s.replies ++
      match outcome.answer with
      | some (.inl reply) => [(who, reply)]
      | _ => []
    log := s.log ++ outcome.log }

variable [DecidableEq β]

def step (site : Site) : LoginAct β → LoginSystem β → Option (LoginSystem β)
  | .send b keys r, s =>
      some { s with
        requests := s.requests ++ [(some b, { r with cookies := (s.jars b).cookies keys })] }
  | .forge r, s => some { s with requests := s.requests ++ [(none, r)] }
  | .serve i draws, s =>
      s.requests[i]?.map fun sent =>
        { s with requests := s.requests.eraseIdx i, drawn := s.drawn ++ draws.state.toList }.note
          sent.1 (site.serve sent.1 s.gate s.clock draws sent.2)
  | .finish i provider raw, s =>
      s.exchanges[i]?.map fun waiting =>
        { s with exchanges := s.exchanges.eraseIdx i }.note
          waiting.1 (site.finish waiting.1 provider s.gate s.clock raw waiting.2)
  | .receive i, s =>
      s.replies[i]?.map fun sent =>
        { s with
          replies := s.replies.eraseIdx i
          jars :=
            match sent.1 with
            | some b => Function.update s.jars b ((s.jars b).receive sent.2)
            | none => s.jars }
  | .lose b key, s =>
      some { s with jars := Function.update s.jars b (Function.update (s.jars b) key none) }
  | .tick d, s => some { s with clock := s.clock + d }

/-- A run of the server from any secret and time on, with no browser holding a cookie. -/
def Run (site : Site) (ok : LoginAct β → LoginSystem β → Prop) (s : LoginSystem β) : Prop :=
  ∃ secret clock, Reached (step site) ok { gate := { secret }, clock } s

end LoginSystem

/-! ### What happened -/

namespace LoginEvent

/-- The call of the gate that an event stands for. -/
def gate : LoginEvent β → Option Event
  | .password _ _ token now | .completed _ _ _ token now => some (.issued token now)
  | .loggedOut token => some (.revoked token)
  | _ => none

/-- The login that an event is: whose, the session it was given, when, and as whom. -/
def login : LoginEvent β → Option (Option β × String × Nat × Identity)
  | .password who _ token now => some (who, token, now, {})
  | .completed who _ idToken token now => some (who, token, now, idToken.identity)
  | _ => none

end LoginEvent

/-- What an event needs of those before it. A route of a host is reached with a session that
stands, a password is the right one, and a callback completes what its browser began. -/
def Justified (site : Site) (before : List (LoginEvent β)) : LoginEvent β → Prop
  | .reached _ cookie route now =>
      route.OfHost ∨ route.Legacy → ∃ token ∈ cookie, ∃ τ,
        Standing (before.filterMap LoginEvent.gate) token τ ∧ now ≤ τ + sessionTTL
  | .password _ got _ _ => site.pass ≠ "" ∧ got = site.pass
  | .completed who flow idToken _ _ =>
      idToken.Nonce = flow.nonce ∧ ∀ b, who = some b → .began who flow ∈ before
  | _ => True

/-- A browser was given the session at one of its logins. -/
def LoggedIn (log : List (LoginEvent β)) (b : β) (token : String) : Prop :=
  ∃ e ∈ log, ∃ now id, e.login = some (some b, token, now, id)

/-- A browser was given the cookie: the session of one of its logins, or a value of the flow that
it began. -/
def Given (log : List (LoginEvent β)) (b : β) (flow : Flow) (name value : String) : Prop :=
  (name = sessionCookie ∧ LoggedIn log b value) ∨
    ((name, value) ∈ flow.cookies ∧ .began (some b) flow ∈ log)

/-- All the cookies were given to the browser, and those of the provider's login at once. -/
def Jar.Own (log : List (LoginEvent β)) (b : β) (jar : Jar) : Prop :=
  ∃ flow, ∀ key value, jar key = some value →
    key.2 = (if key.1 = sessionCookie then "/" else oidcPath) ∧ Given log b flow key.1 value

/-- The cookies that a reply to a browser sets. -/
inductive Sets (log : List (LoginEvent β)) (b : β) : List SetCookie → Prop
  | clear {cookies : List SetCookie} (h : ∀ c ∈ cookies, c.MaxAge < 0) : Sets log b cookies
  | session {cleared : List SetCookie} {token : String} (exp : Nat)
      (h : ∀ c ∈ cleared, c.MaxAge < 0) (hlogin : LoggedIn log b token) :
      Sets log b (cleared ++ [setSessionCookie token exp])
  | flow {flow : Flow} (now : Nat) (hbegan : .began (some b) flow ∈ log) :
      Sets log b (flow.cookies.map fun c => setOIDCCookie now c.1 c.2)

section

variable {log log' : List (LoginEvent β)} {b : β} {jar : Jar} {flow : Flow} {name value : String}
  {cookies : List SetCookie}

theorem LoggedIn.mono (hlog : log ⊆ log') (h : LoggedIn log b value) : LoggedIn log' b value := by
  obtain ⟨e, he, hlogin⟩ := h
  exact ⟨e, hlog he, hlogin⟩

theorem Given.mono (hlog : log ⊆ log') (h : Given log b flow name value) :
    Given log' b flow name value :=
  h.imp (fun h => ⟨h.1, h.2.mono hlog⟩) fun h => ⟨h.1, hlog h.2⟩

theorem Jar.Own.mono (hlog : log ⊆ log') (h : jar.Own log b) : jar.Own log' b := by
  obtain ⟨flow, hown⟩ := h
  refine ⟨flow, fun key value hvalue => ?_⟩
  obtain ⟨hpath, hgiven⟩ := hown key value hvalue
  exact ⟨hpath, hgiven.mono hlog⟩

theorem Sets.mono (hlog : log ⊆ log') (h : Sets log b cookies) : Sets log' b cookies := by
  cases h with
  | clear h => exact .clear h
  | session exp h hlogin => exact .session exp h (hlogin.mono hlog)
  | flow now hbegan => exact .flow now (hlog hbegan)

/-- A cookie that is lost was given all the same. -/
theorem Jar.Own.lose (h : jar.Own log b) (key : String × String) :
    Jar.Own log b (Function.update jar key none) := by
  obtain ⟨flow, hown⟩ := h
  refine ⟨flow, fun key' value hvalue => ?_⟩
  by_cases hkey : key' = key
  · rw [hkey, Function.update_self] at hvalue
    cases hvalue
  · rw [Function.update_of_ne hkey] at hvalue
    exact hown key' value hvalue

theorem Jar.Own.clear (h : jar.Own log b) (hcookies : ∀ c ∈ cookies, c.MaxAge < 0) :
    Jar.Own log b (cookies.foldl Jar.store jar) := by
  induction cookies generalizing jar with
  | nil => exact h
  | cons c cookies ih =>
      refine ih ?_ fun c hc => hcookies c (List.mem_cons_of_mem _ hc)
      rw [Jar.store, if_pos (hcookies c List.mem_cons_self)]
      exact h.lose _

theorem Jar.Own.session (h : jar.Own log b) (hlogin : LoggedIn log b value) (exp : Nat) :
    Jar.Own log b (jar.store (setSessionCookie value exp)) := by
  obtain ⟨flow, hown⟩ := h
  refine ⟨flow, fun key value' hvalue => ?_⟩
  by_cases hkey : key = (sessionCookie, "/")
  · rw [hkey, Jar.store, setSessionCookie, Function.update_self] at hvalue
    cases hvalue
    exact ⟨by rw [hkey, if_pos rfl], .inl ⟨by rw [hkey], hlogin⟩⟩
  · rw [Jar.store, setSessionCookie, Function.update_of_ne hkey] at hvalue
    exact hown key value' hvalue

/-- The three names of the cookies of a login at the provider. -/
theorem name_of_mem_cookies (h : (name, value) ∈ flow.cookies) :
    name ∈ [oidcStateCookie, oidcNonceCookie, oidcPKCECookie] := by
  simp only [Flow.cookies, List.mem_cons, Prod.mk.injEq, List.not_mem_nil, or_false] at h
  rcases h with ⟨rfl, -⟩ | ⟨rfl, -⟩ | ⟨rfl, -⟩
  · exact List.mem_cons_self
  · exact List.mem_cons_of_mem _ List.mem_cons_self
  · exact List.mem_cons_of_mem _ (List.mem_cons_of_mem _ List.mem_cons_self)

theorem store_oidc (jar : Jar) (now : Nat) (name value : String) :
    jar.store (setOIDCCookie now name value) =
      Function.update jar (name, oidcPath) (some value) := by
  have hage : ¬ (oidcCookieTTL : Int) / 1000000000 < 0 := by decide
  exact congrArg (Function.update jar (name, oidcPath)) (if_neg hage)

/-- The three cookies of a new login replace those of the one before. -/
theorem Jar.Own.begin (h : jar.Own log b) (hbegan : .began (some b) flow ∈ log) (now : Nat) :
    Jar.Own log b ((flow.cookies.map fun c => setOIDCCookie now c.1 c.2).foldl Jar.store jar) := by
  obtain ⟨flow', hown⟩ := h
  refine ⟨flow, fun key value hvalue => ?_⟩
  have hflow : ∀ name value, (name, value) ∈ flow.cookies → key = (name, oidcPath) →
      key.2 = (if key.1 = sessionCookie then "/" else oidcPath) ∧
        Given log b flow key.1 value := by
    rintro name value hmem rfl
    have hne : name ≠ sessionCookie := by
      rintro rfl
      exact absurd (name_of_mem_cookies hmem) (by decide)
    exact ⟨(if_neg hne).symm, .inr ⟨hmem, hbegan⟩⟩
  simp only [Flow.cookies, List.map_cons, List.map_nil, List.foldl_cons, List.foldl_nil, store_oidc,
    Function.update_apply] at hvalue
  split_ifs at hvalue with hpkce hnonce hstate
  · cases hvalue
    exact hflow _ _ (by simp [Flow.cookies]) hpkce
  · cases hvalue
    exact hflow _ _ (by simp [Flow.cookies]) hnonce
  · cases hvalue
    exact hflow _ _ (by simp [Flow.cookies]) hstate
  · obtain ⟨hpath, hgiven⟩ := hown key value hvalue
    rcases hgiven with hsession | ⟨hmem, -⟩
    · exact ⟨hpath, .inl hsession⟩
    · have hname := name_of_mem_cookies hmem
      have hne : key.1 ≠ sessionCookie := by
        intro hkey
        rw [hkey] at hname
        exact absurd hname (by decide)
      rw [if_neg hne] at hpath
      have hkey : key = (key.1, oidcPath) := by rw [← hpath]
      simp only [List.mem_cons, List.not_mem_nil, or_false] at hname
      rcases hname with hname | hname | hname
      · exact absurd (hname ▸ hkey) hstate
      · exact absurd (hname ▸ hkey) hnonce
      · exact absurd (hname ▸ hkey) hpkce

/-- Whatever a reply sets was given to the browser that receives it. -/
theorem Jar.Own.receive {reply : Reply} (h : jar.Own log b) (hsets : Sets log b reply.cookies) :
    (jar.receive reply).Own log b := by
  rw [Jar.receive]
  generalize reply.cookies = cookies at hsets
  cases hsets with
  | clear hcookies => exact h.clear hcookies
  | session exp hcleared hlogin =>
      rw [List.foldl_append]
      exact (h.clear hcleared).session hlogin exp
  | flow now hbegan => exact h.begin hbegan now

/-- A request carries cookies that were given to its browser. -/
theorem Jar.Own.carried (h : jar.Own log b) (keys : List (String × String)) :
    ∃ flow, ∀ c ∈ jar.cookies keys, Given log b flow c.1 c.2 := by
  obtain ⟨flow, hown⟩ := h
  refine ⟨flow, fun c hc => ?_⟩
  obtain ⟨key, -, hkey⟩ := List.mem_filterMap.mp hc
  obtain ⟨value, hvalue, rfl⟩ := Option.map_eq_some_iff.mp hkey
  exact (hown key value hvalue).2

theorem mem_of_cookie {r : Request} (h : r.Cookie name = some value) :
    (name, value) ∈ r.cookies := by
  rw [Request.Cookie, Option.map_eq_some_iff] at h
  obtain ⟨c, hfind, rfl⟩ := h
  have hname := List.find?_some hfind
  rw [decide_eq_true_eq] at hname
  rw [← hname]
  exact List.mem_of_find?_eq_some hfind

/-- A callback completes the one login that its cookies are from. -/
theorem began_of_exchange {oidc : Option OidcAuth} {r : LoginRequest} {x : Exchange}
    (hcookies : ∀ c ∈ r.cookies, Given log b flow c.1 c.2)
    (h : handleOIDCCallback oidc r = .inr x) : .began (some b) x.flow ∈ log := by
  obtain ⟨hstate, hnonce, hverifier, -⟩ := handleOIDCCallback_exchange h
  have hof : ∀ name value, name ≠ sessionCookie → r.Cookie name = some value →
      (name, value) ∈ flow.cookies ∧ .began (some b) flow ∈ log := by
    intro name value hne hcookie
    rcases hcookies _ (mem_of_cookie hcookie) with ⟨hsession, -⟩ | hflow
    · exact absurd hsession hne
    · exact hflow
  obtain ⟨hstate, hbegan⟩ := hof _ _ (by decide) hstate
  obtain ⟨hnonce, -⟩ := hof _ _ (by decide) hnonce
  obtain ⟨hverifier, -⟩ := hof _ _ (by decide) hverifier
  have hnames : oidcStateCookie ≠ oidcNonceCookie ∧ oidcStateCookie ≠ oidcPKCECookie ∧
      oidcNonceCookie ≠ oidcPKCECookie := by decide
  have heq : x.flow = flow := by
    ext1
    · simpa [Flow.cookies, hnames] using hstate
    · simpa [Flow.cookies, hnames, hnames.1.symm] using hnonce
    · simpa [Flow.cookies, hnames, hnames.2.1.symm, hnames.2.2.symm] using hverifier
  rwa [heq]

end

/-! ### The gate under the handlers -/

namespace System

variable {mac : Bytes → Bytes → Bytes} {g : Gate} {clock : Nat} {log : List Event}

theorem Run.issue (h : Run mac ⟨g, clock, log⟩) (raw : Bytes) (id : Identity) :
    Run mac ⟨(g.issueTokenFor mac clock raw id).2, clock,
      log ++ [.issued (g.token mac raw) clock]⟩ := by
  obtain ⟨secret, start, hreached⟩ := h
  exact ⟨secret, start, .step (a := .issueTokenFor raw id) hreached trivial rfl⟩

theorem Run.revoke (h : Run mac ⟨g, clock, log⟩) (token : String) :
    Run mac ⟨g.revoke token, clock, log ++ [.revoked token]⟩ := by
  obtain ⟨secret, start, hreached⟩ := h
  exact ⟨secret, start, .step (a := .revoke token) hreached trivial rfl⟩

end System

/-- What is so of everything that the server does with a request of `who`. -/
structure Outcome.Sound (site : Site) (who : Option β) (clock : Nat) (log : List (LoginEvent β))
    (outcome : Outcome β) : Prop where
  run : System.Run site.mac
    ⟨outcome.gate, clock, (log ++ outcome.log).filterMap LoginEvent.gate⟩
  grounded : Grounded (Justified site) (log ++ outcome.log)
  exchange : ∀ b ∈ who, ∀ x, outcome.answer = some (.inr x) →
    .began (some b) x.flow ∈ log ++ outcome.log
  reply : ∀ b ∈ who, ∀ reply, outcome.answer = some (.inl reply) →
    Sets (log ++ outcome.log) b reply.cookies

section

variable {site : Site} {who : Option β} {g : Gate} {clock : Nat} {log : List (LoginEvent β)}
  {r : LoginRequest}

/-- What sets no cookies, leaves the gate and is not worth a note is sound. -/
theorem sound_reply (hgate : System.Run site.mac ⟨g, clock, log.filterMap LoginEvent.gate⟩)
    (hlog : Grounded (Justified site) log) {answer : Option (Reply ⊕ Exchange)}
    (hreply : ∀ reply, answer = some (.inl reply) → ∀ c ∈ reply.cookies, c.MaxAge < 0)
    (hexchange : ∀ b ∈ who, ∀ x, answer = some (.inr x) → .began (some b) x.flow ∈ log) :
    Outcome.Sound site who clock log { gate := g, answer } where
  run := by rwa [List.append_nil]
  grounded := by rwa [List.append_nil]
  exchange := by rwa [List.append_nil]
  reply _ _ reply h := .clear (hreply reply h)

theorem handleLoginPost_sound
    (hgate : System.Run site.mac ⟨g, clock, log.filterMap LoginEvent.gate⟩)
    (hlog : Grounded (Justified site) log) (draws : Draws) {route : Route}
    (hroute : route.handler = .handleLoginPost) :
    (site.handle who g clock draws route r).Sound site who clock log := by
  simp only [Site.handle, hroute]
  rcases handleLoginPost_cases site.mac site.pass g clock draws.token r with
    ⟨hpass, hgot, heq⟩ | ⟨hcookies, hsame⟩
  · rw [heq]
    have hsession : (seeOther "/" [setSessionCookie (g.token site.mac draws.token)
        (clock + sessionTTL)]).session = some (g.token site.mac draws.token) := rfl
    rw [hsession]
    refine ⟨?_, hlog.snoc ⟨hpass, hgot⟩, ?_, ?_⟩
    · rw [List.filterMap_append]
      exact hgate.issue draws.token {}
    · intro b hb x hx
      cases hx
    · intro b hb reply hreply
      cases hreply
      change Sets _ b ([] ++ [setSessionCookie (g.token site.mac draws.token) (clock + sessionTTL)])
      refine Sets.session _ (List.forall_mem_nil _) ?_
      refine ⟨_, List.mem_append_right _ List.mem_cons_self, clock, {}, ?_⟩
      rw [LoginEvent.login, Option.mem_def.mp hb]
  · have hsession :
        (handleLoginPost site.mac site.pass g clock draws.token r).1.session = none := by
      rw [Reply.session, hcookies]
      rfl
    rw [hsession, hsame]
    refine sound_reply hgate hlog ?_ ?_
    · intro reply hreply
      cases hreply
      rw [hcookies]
      exact List.forall_mem_nil _
    · intro b hb x hx
      cases hx

theorem handleLogout_sound
    (hgate : System.Run site.mac ⟨g, clock, log.filterMap LoginEvent.gate⟩)
    (hlog : Grounded (Justified site) log) (draws : Draws) {route : Route}
    (hroute : route.handler = .handleLogout) :
    (site.handle who g clock draws route r).Sound site who clock log := by
  simp only [Site.handle, hroute, handleLogout]
  have hclear : ∀ c ∈ [clearSessionCookie], c.MaxAge < 0 := by decide
  cases hcookie : r.Cookie sessionCookie with
  | none =>
      refine sound_reply hgate hlog ?_ ?_
      · intro reply hreply
        cases hreply
        exact hclear
      · intro b hb x hx
        cases hx
  | some token =>
      refine ⟨?_, hlog.snoc trivial, ?_, ?_⟩
      · rw [List.filterMap_append]
        exact hgate.revoke token
      · intro b hb x hx
        cases hx
      · intro b hb reply hreply
        cases hreply
        exact .clear hclear

theorem handleOIDCLogin_sound
    (hgate : System.Run site.mac ⟨g, clock, log.filterMap LoginEvent.gate⟩)
    (hlog : Grounded (Justified site) log) (draws : Draws) {route : Route}
    (hroute : route.handler = .handleOIDCLogin) :
    (site.handle who g clock draws route r).Sound site who clock log := by
  simp only [Site.handle, hroute, handleOIDCLogin]
  cases hoidc : site.oidc with
  | none =>
      refine sound_reply hgate hlog ?_ ?_
      · intro reply hreply
        cases hreply
        exact List.forall_mem_nil _
      · intro b hb x hx
        cases hx
  | some auth =>
      cases hdraw : Flow.draw draws with
      | none =>
          refine sound_reply hgate hlog ?_ ?_
          · intro reply hreply
            cases hreply
            exact List.forall_mem_nil _
          · intro b hb x hx
            cases hx
      | some flow =>
          refine ⟨?_, hlog.snoc trivial, ?_, ?_⟩
          · have hgates : [LoginEvent.began who flow].filterMap LoginEvent.gate = [] := rfl
            rw [List.filterMap_append]
            simpa [hgates] using hgate
          · intro b hb x hx
            cases hx
          · intro b hb reply hreply
            cases hreply
            refine .flow clock (List.mem_append_right _ ?_)
            rw [Option.mem_def.mp hb]
            exact List.mem_cons_self

theorem handle_sound
    (hgate : System.Run site.mac ⟨g, clock, log.filterMap LoginEvent.gate⟩)
    (hlog : Grounded (Justified site) log)
    (hcookies : ∀ b ∈ who, ∃ flow, ∀ c ∈ r.cookies, Given log b flow c.1 c.2)
    (draws : Draws) (route : Route) :
    (site.handle who g clock draws route r).Sound site who clock log := by
  cases hroute : route.handler with
  | handleLoginPost => exact handleLoginPost_sound hgate hlog draws hroute
  | handleLogout => exact handleLogout_sound hgate hlog draws hroute
  | handleOIDCLogin => exact handleOIDCLogin_sound hgate hlog draws hroute
  | handleOIDCCallback =>
      simp only [Site.handle, hroute]
      refine sound_reply hgate hlog ?_ ?_
      · intro reply hreply
        have hreply := Option.some.inj hreply
        by_cases hoidc : site.oidc.isSome
        · obtain ⟨warning, rfl⟩ := handleOIDCCallback_reply hoidc hreply
          exact lt_of_mem_clearOIDCCookies
        · rw [handleOIDCCallback, if_pos (by simpa using hoidc)] at hreply
          cases hreply
          exact List.forall_mem_nil _
      · intro b hb x hx
        obtain ⟨flow, hflow⟩ := hcookies b hb
        exact began_of_exchange hflow (Option.some.inj hx)
  | handleLoginGet =>
      simp only [Site.handle, hroute]
      refine sound_reply hgate hlog ?_ ?_
      · intro reply hreply
        cases hreply
        exact List.forall_mem_nil _
      · intro b hb x hx
        cases hx
  | _ =>
      simp only [Site.handle, hroute]
      refine sound_reply hgate hlog ?_ ?_
      · intro reply hreply
        cases hreply
      · intro b hb x hx
        cases hx

theorem serve_sound
    (hgate : System.Run site.mac ⟨g, clock, log.filterMap LoginEvent.gate⟩)
    (hlog : Grounded (Justified site) log)
    (hcookies : ∀ b ∈ who, ∃ flow, ∀ c ∈ r.cookies, Given log b flow c.1 c.2)
    (draws : Draws) : (site.serve who g clock draws r).Sound site who clock log := by
  have hhandled : System.Run site.mac
      ⟨(Handler site.mux g clock r.toRequest).2, clock, log.filterMap LoginEvent.gate⟩ :=
    System.run_request hgate site.mux r.toRequest
  have hquiet : ∀ reply : Reply, reply.cookies = [] →
      Outcome.Sound site who clock log
        { gate := (Handler site.mux g clock r.toRequest).2, answer := some (.inl reply) } := by
    intro reply hempty
    refine sound_reply hhandled hlog ?_ ?_
    · intro reply' hreply
      cases hreply
      rw [hempty]
      exact List.forall_mem_nil _
    · intro b hb x hx
      cases hx
  rw [Site.serve]
  cases hresponse : (Handler site.mux g clock r.toRequest).1 with
  | error text code => exact hquiet _ rfl
  | redirect location code => exact hquiet _ rfl
  | reached route =>
      cases route with
      | none =>
          refine sound_reply hhandled hlog ?_ ?_
          · intro reply hreply
            cases hreply
          · intro b hb x hx
            cases hx
      | some route =>
          -- The route is reached in the gate as the request found it, before its handler runs.
          have hreached : Justified site log
              (.reached who (r.Cookie sessionCookie) route clock) := by
            intro hguarded
            have hexempt := not_exempt_of_guarded (pattern_of_reached hresponse) hguarded
            obtain ⟨token, hcookie, hcheck⟩ := cookie_of_reached hresponse hexempt
            exact ⟨token, hcookie,
              (System.checkToken_iff_of_kept (System.kept_of_run hgate) token).mp hcheck⟩
          have hgates :
              (log ++ [LoginEvent.reached who (r.Cookie sessionCookie) route clock]).filterMap
                LoginEvent.gate = log.filterMap LoginEvent.gate := by
            simp [LoginEvent.gate]
          have hgiven : ∀ b ∈ who, ∃ flow, ∀ c ∈ r.cookies,
              Given (log ++ [.reached who (r.Cookie sessionCookie) route clock]) b flow
                c.1 c.2 := by
            intro b hb
            obtain ⟨flow, hflow⟩ := hcookies b hb
            exact ⟨flow, fun c hc => (hflow c hc).mono (List.subset_append_left _ _)⟩
          obtain ⟨hrun, hgrounded, hexchange, hreply⟩ :=
            handle_sound (hgates.symm ▸ hhandled) (hlog.snoc hreached) hgiven draws route
          simp only [List.append_assoc, List.singleton_append] at hrun hgrounded hexchange hreply
          exact ⟨hrun, hgrounded, hexchange, hreply⟩

theorem finish_sound {provider : Provider} {x : Exchange}
    (hgate : System.Run site.mac ⟨g, clock, log.filterMap LoginEvent.gate⟩)
    (hlog : Grounded (Justified site) log)
    (hbegan : ∀ b ∈ who, .began (some b) x.flow ∈ log) (raw : Bytes) :
    (site.finish who provider g clock raw x).Sound site who clock log := by
  simp only [Site.finish, finishOIDCCallback]
  cases haccept : x.accept provider with
  | error warning =>
      refine sound_reply hgate hlog ?_ ?_
      · intro reply hreply c hc
        cases hreply
        rcases List.mem_append.mp hc with hc | hc
        · exact lt_of_mem_clearOIDCCookies c hc
        · exact lt_of_mem_clearOIDCCookies c hc
      · intro b hb x hx
        cases hx
  | ok idToken =>
      refine ⟨?_, ?_, ?_, ?_⟩
      · rw [List.filterMap_append]
        exact hgate.issue raw idToken.identity
      · refine hlog.snoc ⟨nonce_of_accept haccept, ?_⟩
        rintro b rfl
        exact hbegan b rfl
      · intro b hb x hx
        cases hx
      · intro b hb reply hreply
        cases hreply
        refine .session _ lt_of_mem_clearOIDCCookies ?_
        refine ⟨_, List.mem_append_right _ List.mem_cons_self, clock, idToken.identity, ?_⟩
        rw [LoginEvent.login, Option.mem_def.mp hb]
        rfl

end

/-! ### Every run -/

namespace LoginSystem

/-- What holds in every run: the gate has made the calls of the log, and all that a browser holds,
sends, awaits and is sent was given to it. -/
structure Sound (site : Site) (s : LoginSystem β) : Prop where
  run : System.Run site.mac ⟨s.gate, s.clock, s.log.filterMap LoginEvent.gate⟩
  grounded : Grounded (Justified site) s.log
  jars : ∀ b, (s.jars b).Own s.log b
  requests : ∀ b r, (some b, r) ∈ s.requests →
    ∃ flow, ∀ c ∈ r.cookies, Given s.log b flow c.1 c.2
  exchanges : ∀ b x, (some b, x) ∈ s.exchanges → .began (some b) x.flow ∈ s.log
  replies : ∀ b reply, (some b, reply) ∈ s.replies → Sets s.log b reply.cookies

variable {site : Site} {s s' : LoginSystem β} {a : LoginAct β}

theorem Sound.note (hs : s.Sound site) {who : Option β} {outcome : Outcome β}
    (h : outcome.Sound site who s.clock s.log) : (s.note who outcome).Sound site where
  run := h.run
  grounded := h.grounded
  jars b := (hs.jars b).mono (List.subset_append_left _ _)
  requests b r hr := by
    obtain ⟨flow, hflow⟩ := hs.requests b r hr
    exact ⟨flow, fun c hc => (hflow c hc).mono (List.subset_append_left _ _)⟩
  exchanges b x hx := by
    rcases List.mem_append.mp hx with hx | hx
    · exact List.mem_append_left _ (hs.exchanges b x hx)
    · split at hx
      case h_1 x' hanswer =>
        cases List.mem_singleton.mp hx
        exact h.exchange b rfl x hanswer
      case h_2 => cases hx
  replies b reply hreply := by
    rcases List.mem_append.mp hreply with hreply | hreply
    · exact (hs.replies b reply hreply).mono (List.subset_append_left _ _)
    · split at hreply
      case h_1 reply' hanswer =>
        cases List.mem_singleton.mp hreply
        exact h.reply b rfl reply hanswer
      case h_2 => cases hreply

variable [DecidableEq β]

theorem Sound.serve (hs : s.Sound site) {i : Nat} {draws : Draws}
    (hstep : step site (.serve i draws) s = some s') : s'.Sound site := by
  obtain ⟨⟨who, r⟩, hsent, rfl⟩ := Option.map_eq_some_iff.mp hstep
  have hrest : Sound site
      { s with requests := s.requests.eraseIdx i, drawn := s.drawn ++ draws.state.toList } :=
    { hs with requests := fun b r hr => hs.requests b r (List.mem_of_mem_eraseIdx hr) }
  refine hrest.note (serve_sound hs.run hs.grounded ?_ draws)
  rintro b rfl
  exact hs.requests b r (List.mem_of_getElem? hsent)

theorem Sound.finish (hs : s.Sound site) {i : Nat} {provider : Provider} {raw : Bytes}
    (hstep : step site (.finish i provider raw) s = some s') : s'.Sound site := by
  obtain ⟨⟨who, x⟩, hwaiting, rfl⟩ := Option.map_eq_some_iff.mp hstep
  have hrest : Sound site { s with exchanges := s.exchanges.eraseIdx i } :=
    { hs with exchanges := fun b x hx => hs.exchanges b x (List.mem_of_mem_eraseIdx hx) }
  refine hrest.note (finish_sound hs.run hs.grounded ?_ raw)
  rintro b rfl
  exact hs.exchanges b x (List.mem_of_getElem? hwaiting)

theorem Sound.receive (hs : s.Sound site) {i : Nat}
    (hstep : step site (.receive i) s = some s') : s'.Sound site := by
  obtain ⟨⟨who, reply⟩, hsent, rfl⟩ := Option.map_eq_some_iff.mp hstep
  refine { hs with
    jars := ?_, replies := fun b reply h => hs.replies b reply (List.mem_of_mem_eraseIdx h) }
  intro b
  cases who with
  | none => exact hs.jars b
  | some b' =>
      dsimp only
      by_cases hb : b = b'
      · subst hb
        rw [Function.update_self]
        exact (hs.jars b).receive (hs.replies b reply (List.mem_of_getElem? hsent))
      · rw [Function.update_of_ne hb]
        exact hs.jars b

theorem Sound.lose (hs : s.Sound site) (b : β) (key : String × String)
    (hstep : step site (.lose b key) s = some s') : s'.Sound site := by
  cases hstep
  refine { hs with jars := fun b' => ?_ }
  dsimp only
  by_cases hb : b' = b
  · subst hb
    rw [Function.update_self]
    exact (hs.jars b').lose key
  · rw [Function.update_of_ne hb]
    exact hs.jars b'

theorem Sound.next (hs : s.Sound site) (hstep : step site a s = some s') : s'.Sound site := by
  cases a with
  | send b keys r =>
      cases hstep
      refine { hs with requests := fun b' r' hr => ?_ }
      rcases List.mem_append.mp hr with hr | hr
      · exact hs.requests b' r' hr
      · cases List.mem_singleton.mp hr
        exact (hs.jars b).carried keys
  | forge r =>
      cases hstep
      refine { hs with requests := fun b' r' hr => ?_ }
      rcases List.mem_append.mp hr with hr | hr
      · exact hs.requests b' r' hr
      · cases List.mem_singleton.mp hr
  | serve i draws => exact hs.serve hstep
  | finish i provider raw => exact hs.finish hstep
  | receive i => exact hs.receive hstep
  | lose b key => exact hs.lose b key hstep
  | tick d =>
      cases hstep
      obtain ⟨secret, start, hreached⟩ := hs.run
      exact { hs with run := ⟨secret, start, .step (a := .tick d) hreached trivial rfl⟩ }

theorem sound_of_run {ok : LoginAct β → LoginSystem β → Prop} (hrun : Run site ok s) :
    s.Sound site := by
  obtain ⟨secret, clock, hreached⟩ := hrun
  refine hreached.invariant (I := Sound site) ?_ fun _ _ _ hs _ hstep => hs.next hstep
  refine ⟨⟨secret, clock, .init⟩, grounded_nil, ?_, ?_, ?_, ?_⟩
  · intro b
    refine ⟨default, fun key value hvalue => ?_⟩
    cases hvalue
  · intro b r hr
    cases hr
  · intro b x hx
    cases hx
  · intro b reply hreply
    cases hreply

/-- A login event of a run is a login with the password, or a callback with the nonce of its
flow; that of a browser completes what the browser has begun before. -/
theorem login_of_run {ok : LoginAct β → LoginSystem β → Prop} (hrun : Run site ok s)
    {before after : List (LoginEvent β)} {e : LoginEvent β} {who : Option β} {token : String}
    {τ : Nat} {id : Identity} (hlog : s.log = before ++ e :: after)
    (hlogin : e.login = some (who, token, τ, id)) :
    (e = .password who site.pass token τ ∧ site.pass ≠ "") ∨
      ∃ flow idToken, e = .completed who flow idToken token τ ∧ idToken.Nonce = flow.nonce ∧
        ∀ b, who = some b → .began who flow ∈ before := by
  have hjustified := (sound_of_run hrun).grounded before e after hlog
  cases e with
  | password whose got token' now =>
      cases hlogin
      obtain ⟨hpass, rfl⟩ := hjustified
      exact .inl ⟨rfl, hpass⟩
  | completed whose flow idToken token' now =>
      cases hlogin
      exact .inr ⟨flow, idToken, rfl, hjustified⟩
  | _ => cases hlogin

/-- In every run, a route of a host or a legacy redirect is reached only with a session cookie of
a login twelve hours ago at most, and there was no logout with that cookie since. The login was
made with the password, which is not empty, or by a callback whose ID token bears the nonce of its
flow. -/
theorem reached_of_login (hrun : Run site (fun _ _ => True) s)
    {before after : List (LoginEvent β)} {who : Option β} {cookie : Option String}
    {route : Route} {now : Nat} (hlog : s.log = before ++ .reached who cookie route now :: after)
    (hguarded : route.OfHost ∨ route.Legacy) :
    ∃ token ∈ cookie, ∃ earlier e since whose τ id,
      before = earlier ++ e :: since ∧ .loggedOut token ∉ since ∧
      e.login = some (whose, token, τ, id) ∧ now ≤ τ + sessionTTL ∧
      ((e = .password whose site.pass token τ ∧ site.pass ≠ "") ∨
        ∃ flow idToken, e = .completed whose flow idToken token τ ∧
          idToken.Nonce = flow.nonce) := by
  obtain ⟨token, hcookie, τ, ⟨calls, calls', hcalls, hrevoked⟩, hnow⟩ :=
    (sound_of_run hrun).grounded _ _ _ hlog hguarded
  obtain ⟨earlier, rest, rfl, -, hrest⟩ := List.filterMap_eq_append_iff.mp hcalls
  obtain ⟨quiet, e, since, rfl, hquiet, hgate, hsince⟩ := List.filterMap_eq_cons_iff.mp hrest
  obtain ⟨whose, id, hlogin⟩ : ∃ whose id, e.login = some (whose, token, τ, id) := by
    cases e with
    | password whose got token' now =>
        cases hgate
        exact ⟨whose, {}, rfl⟩
    | completed whose flow idToken token' now =>
        cases hgate
        exact ⟨whose, idToken.identity, rfl⟩
    | loggedOut token' => cases hgate
    | reached => cases hgate
    | began => cases hgate
  refine ⟨token, hcookie, earlier ++ quiet, e, since, whose, τ, id, by simp, ?_, hlogin, hnow, ?_⟩
  · intro hmem
    exact hrevoked (hsince ▸ List.mem_filterMap.mpr ⟨_, hmem, rfl⟩)
  · have hsplit : s.log =
        (earlier ++ quiet) ++ e :: (since ++ .reached who cookie route now :: after) := by
      simp [hlog]
    rcases login_of_run hrun hsplit hlogin with hpass | ⟨flow, idToken, he, hnonce, -⟩
    · exact .inl hpass
    · exact .inr ⟨flow, idToken, he, hnonce⟩

/-- The mux, for the login at the provider and for a request that posts to the power page of a
host. -/
def loginMux : ServeMux where
  pattern r :=
    if r.Method = "GET" ∧ r.Path = ascii "/auth/oidc/login" then
      some ⟨some "GET", "/auth/oidc/login", .handleOIDCLogin⟩
    else if r.Method = "GET" ∧ r.Path = ascii "/auth/oidc/callback" then
      some ⟨some "GET", "/auth/oidc/callback", .handleOIDCCallback⟩
    else System.powerMux.pattern r
  registered := by
    intro r route hroute
    split_ifs at hroute
    · cases hroute
      decide
    · cases hroute
      decide
    · exact System.powerMux.registered r route hroute
  literal_first := by
    intro r route segment hroute hsegment
    have hauth : ∀ path, ascii "/auth" <+: ascii path → r.Path = ascii path →
        some "auth" = some segment → ascii "/" ++ ascii segment <+: r.Path := by
      rintro path hprefix hpath heq
      cases heq
      rw [hpath]
      exact hprefix
    split_ifs at hroute with hlogin hcallback
    · cases hroute
      exact hauth _ (by decide) hlogin.2 (Eq.trans (by decide) hsegment)
    · cases hroute
      exact hauth _ (by decide) hcallback.2 (Eq.trans (by decide) hsegment)
    · exact System.powerMux.literal_first r route segment hroute hsegment

/-- A server without a password that lets its users log in at a provider. -/
def providerSite : Site where
  mac _ _ := System.zeroMac
  sha256 _ := List.replicate 32 0
  pass := ""
  oidc := some ⟨fun state _ => "/authorize?state=" ++ state⟩
  mux := loginMux

/-- The text of 32 bytes that are all zero. -/
def zeroText : String := "AAAAAAAAAAAAAAAAAAAAAAAAAAAAAAAAAAAAAAAAAAA"

def zeroFlow : Flow := ⟨zeroText, zeroText, zeroText⟩

def zeroDraws : Draws :=
  ⟨List.replicate 32 0, some (List.replicate 32 0), some (List.replicate 32 0),
    some (List.replicate 32 0)⟩

def operatorToken : IDToken := ⟨"operator", zeroText, { Name := "Operator" }⟩

/-- A provider that knows one operator. -/
def operatorProvider : Provider where
  Exchange code verifier :=
    if code = "c" ∧ verifier = zeroText then some (some "id") else none
  Verify rawID := if rawID = "id" then some operatorToken else none

def loginRequest : LoginRequest := { Method := "GET", Path := ascii "/auth/oidc/login" }

def callbackRequest : LoginRequest :=
  { Method := "GET", Path := ascii "/auth/oidc/callback",
    query := [("state", zeroText), ("code", "c")] }

def powerPost : LoginRequest := { Method := "POST", Path := ascii "/h/a/power" }

def oidcKeys : List (String × String) :=
  [(oidcStateCookie, oidcPath), (oidcNonceCookie, oidcPath), (oidcPKCECookie, oidcPath)]

/-- A browser logs in at the provider and receives its session. -/
def loginActs : List (LoginAct Nat) :=
  [.send 0 [] loginRequest, .serve 0 zeroDraws, .receive 0, .send 0 oidcKeys callbackRequest,
    .serve 0 {}, .finish 0 operatorProvider (List.replicate 32 0), .receive 0]

/-- What is written down of it. -/
def loginLog : List (LoginEvent Nat) :=
  [.reached (some 0) none ⟨some "GET", "/auth/oidc/login", .handleOIDCLogin⟩ 0,
    .began (some 0) zeroFlow,
    .reached (some 0) none ⟨some "GET", "/auth/oidc/callback", .handleOIDCCallback⟩ 0,
    .completed (some 0) zeroFlow operatorToken System.zeroToken 0]

def startSystem : LoginSystem Nat := { gate := { secret := List.replicate 32 0 } }

/-- A power action of a browser that has logged in at the provider. -/
theorem reached_of_login_power : ∃ s : LoginSystem Nat, Run providerSite (fun _ _ => True) s ∧
    s.log = loginLog ++ [.reached (some 0) (some System.zeroToken)
      ⟨some "POST", hostPrefix ++ "/power", .handlePowerAction⟩ 5] ∧
    ∃ token ∈ some System.zeroToken, ∃ earlier e since whose τ id,
      loginLog = earlier ++ e :: since ∧ .loggedOut token ∉ since ∧
      e.login = some (whose, token, τ, id) ∧ 5 ≤ τ + sessionTTL ∧
      ((e = .password whose providerSite.pass token τ ∧ providerSite.pass ≠ "") ∨
        ∃ flow idToken, e = .completed whose flow idToken token τ ∧
          idToken.Nonce = flow.nonce) := by
  have htest : ((exec (step providerSite) (fun _ _ => True)
      (loginActs ++ [.send 0 [(sessionCookie, "/")] powerPost, .tick 5, .serve 0 {}])
      startSystem).any fun s =>
        decide (s.log = loginLog ++ [.reached (some 0) (some System.zeroToken)
          ⟨some "POST", hostPrefix ++ "/power", .handlePowerAction⟩ 5])) = true := by
    decide +kernel
  obtain ⟨s, hs, hlog⟩ := exists_reached_of_exec htest
  have hrun : Run providerSite (fun _ _ => True) s := ⟨_, _, hs⟩
  exact ⟨s, hrun, hlog, reached_of_login hrun hlog (.inl (by decide))⟩

/-- In every run, the session that a browser holds was issued to a login of that browser: with the
password, or by a callback that completed what the browser itself had begun. -/
theorem session_own (hrun : Run site (fun _ _ => True) s) {b : β} {token : String}
    (hsession : s.jars b (sessionCookie, "/") = some token) :
    ∃ before e after τ id, s.log = before ++ e :: after ∧
      e.login = some (some b, token, τ, id) ∧
      ((e = .password (some b) site.pass token τ ∧ site.pass ≠ "") ∨
        ∃ flow idToken, e = .completed (some b) flow idToken token τ ∧
          idToken.Nonce = flow.nonce ∧ .began (some b) flow ∈ before) := by
  obtain ⟨flow, hown⟩ := (sound_of_run hrun).jars b
  rcases (hown _ _ hsession).2 with ⟨-, e, he, τ, id, hlogin⟩ | ⟨hmem, -⟩
  · obtain ⟨before, after, hlog⟩ := List.append_of_mem he
    refine ⟨before, e, after, τ, id, hlog, hlogin, ?_⟩
    rcases login_of_run hrun hlog hlogin with hpass | ⟨flow, idToken, he, hnonce, hbegan⟩
    · exact .inl hpass
    · exact .inr ⟨flow, idToken, he, hnonce, hbegan b rfl⟩
  · exact absurd (name_of_mem_cookies hmem) (by decide)

/-- The session of that browser. -/
theorem session_own_login : ∃ s : LoginSystem Nat, Run providerSite (fun _ _ => True) s ∧
    s.jars 0 (sessionCookie, "/") = some System.zeroToken ∧
    ∃ before e after τ id, s.log = before ++ e :: after ∧
      e.login = some (some 0, System.zeroToken, τ, id) ∧
      ((e = .password (some 0) providerSite.pass System.zeroToken τ ∧ providerSite.pass ≠ "") ∨
        ∃ flow idToken, e = .completed (some 0) flow idToken System.zeroToken τ ∧
          idToken.Nonce = flow.nonce ∧ .began (some 0) flow ∈ before) := by
  have htest : ((exec (step providerSite) (fun _ _ => True) loginActs startSystem).any fun s =>
      decide (s.jars 0 (sessionCookie, "/") = some System.zeroToken)) = true := by
    decide +kernel
  obtain ⟨s, hs, hsession⟩ := exists_reached_of_exec htest
  have hrun : Run providerSite (fun _ _ => True) s := ⟨_, _, hs⟩
  exact ⟨s, hrun, hsession, session_own hrun hsession⟩

end LoginSystem

end Outband.Httpapi
