import Mathlib.Data.List.Infix
import Outband.Inventory.Config

/-!
# Detection of the wire protocol

The first call of an iDRAC adapter picks its backend: `ensureBackend`
(`internal/idrac/client.go`) runs `resolveBackend` (`detect.go`) behind a
`sync.Once` and keeps the backend, or the error. A detection that fails because the
BMC does not answer yet, or because the caller has gone away, should leave a later
call free to try again. `retriable_iff` says when it does.

## Implementation notes

A `Network` is what the probes of one call meet: it gives the outcome of each
request, should the call make it. A request that gets no reply is `none`, and so is
a body that cannot be read or decoded. The once serialises the calls. `lower` is
`unicode.ToLower`.
-/

namespace Outband.Idrac.Detection

open Inventory (TrimSpace ToLower)

inductive Transport
  | auto
  | redfish
  | wsman
  | web
  deriving DecidableEq, Repr

def normalizeTransport (lower : Char → Char) (s : String) : Transport :=
  let t := ToLower lower (TrimSpace s)
  if t = "redfish" then .redfish
  else if t = "wsman" then .wsman
  else if t = "web" then .web
  else .auto

/-! ### Probing -/

/-- The reply to `GET /redfish/v1`. -/
structure RedfishReply where
  code : Nat
  /-- The fields `RedfishVersion` and `@odata.id` of the body. -/
  root : Option (String × String)

/-- The reply to `GET /login.html`. -/
structure LoginPage where
  code : Nat
  body : Option String

/-- The reply to `POST /wsman`. -/
structure WsmanReply where
  code : Nat
  /-- The `WWW-Authenticate` header. -/
  auth : String

structure Network where
  /-- Whether a handshake with current TLS versions succeeds. -/
  modernTLS : Bool := false
  /-- The handshake with the versions of old firmware. -/
  legacyTLS : Except String Unit := .error "connection refused"
  redfish : Option RedfishReply := none
  login : Option LoginPage := none
  wsman : Option WsmanReply := none

/-- `strings.Contains`. -/
def Contains (s substr : String) : Bool := substr.toList <:+: s.toList

def probeRedfish (net : Network) : Bool :=
  net.redfish.any fun r => r.code = 200 ∧ r.root.any fun root =>
    root.1 ≠ "" ∨ Contains root.2 "redfish"

def probeWebLogin (net : Network) : Bool :=
  net.login.any fun r => r.code = 200 ∧ r.body.any fun body =>
    Contains body "iDRAC" ∨ Contains body "Integrated Dell Remote Access" ∨
      Contains body "data/login"

def probeWSMAN (lower : Char → Char) (net : Network) : Bool :=
  net.wsman.any fun r => r.code = 401 ∧ Contains (ToLower lower r.auth) "basic" ∨ r.code = 200

inductive ResolveError
  | tls (err : String)
  | noRedfish
  | undetected (host : String)
  deriving DecidableEq, Repr

def ResolveError.Error : ResolveError → String
  | tls err => "idrac tls: modern and legacy handshakes failed: " ++ err
  | noRedfish => "idrac: transport=redfish but /redfish/v1 is unavailable"
  | undetected host => "idrac: could not detect Redfish, web UI, or WS-MAN on " ++ host

/-- Whether the legacy TLS settings are needed. -/
def probeHTTPClient (net : Network) : Except ResolveError Bool :=
  if net.modernTLS then .ok false
  else match net.legacyTLS with
    | .ok _ => .ok true
    | .error err => .error (.tls err)

structure Config where
  Host : String
  Transport : Detection.Transport

/-- A backend: its protocol, and whether it uses the legacy TLS settings. -/
structure Backend where
  Name : Transport
  legacy : Bool
  deriving DecidableEq, Repr

def resolveBackend (lower : Char → Char) (cfg : Config) (net : Network) :
    Except ResolveError Backend := do
  let legacy ← probeHTTPClient net
  match cfg.Transport with
  | .redfish => if probeRedfish net then .ok ⟨.redfish, legacy⟩ else .error .noRedfish
  | .web => .ok ⟨.web, legacy⟩
  | .wsman => .ok ⟨.wsman, legacy⟩
  | .auto =>
      if probeRedfish net then .ok ⟨.redfish, legacy⟩
      else if probeWebLogin net then .ok ⟨.web, legacy⟩
      else if probeWSMAN lower net then .ok ⟨.wsman, legacy⟩
      else .error (.undetected cfg.Host)

/-! ### The adapter -/

structure Adapter where
  cfg : Config
  /-- The once has run. -/
  done : Bool := false
  resolveErr : Option ResolveError := none
  backend : Option Backend := none
  backendName : Option Transport := none

/-- `New`, with the transport as the inventory has it. -/
def New (lower : Char → Char) (host transport : String) : Adapter :=
  { cfg := ⟨host, normalizeTransport lower transport⟩ }

namespace Adapter

/-- The body of the once. -/
def resolve (lower : Char → Char) (net : Network) (a : Adapter) : Adapter :=
  match a.backend with
  | some b => { a with backendName := some b.Name }
  | none =>
      match resolveBackend lower a.cfg net with
      | .error err => { a with resolveErr := some err }
      | .ok b => { a with backend := some b, backendName := some b.Name }

/-- A call of `ensureBackend` returns the `resolveErr` that it leaves. -/
def ensureBackend (lower : Char → Char) (net : Network) (a : Adapter) : Adapter :=
  if a.done then a else { a.resolve lower net with done := true }

def TransportName (a : Adapter) : Transport := a.backendName.getD a.cfg.Transport

/-- The adapter after a sequence of calls. -/
def run (lower : Char → Char) (a : Adapter) (calls : List Network) : Adapter :=
  calls.foldl (fun a net => a.ensureBackend lower net) a

end Adapter

/-! ### What a call should do -/

/-- The BMC is reachable, and it answers a probe for the transport. -/
def Detectable (lower : Char → Char) (t : Transport) (net : Network) : Prop :=
  (net.modernTLS = true ∨ net.legacyTLS = .ok ⟨⟩) ∧
    match t with
    | .web | .wsman => True
    | .redfish => probeRedfish net = true
    | .auto => probeRedfish net = true ∨ probeWebLogin net = true ∨ probeWSMAN lower net = true

/-- The calls of a run as they should be: one that fails leaves the adapter as unresolved as it
was, the first that meets a network on which the transport is detectable resolves the backend, and a
backend that is resolved stays. -/
structure Retriable (lower : Char → Char) (a : Adapter) (calls : List Network) : Prop where
  reopens : ∀ before net after, calls = before ++ net :: after →
    ((a.run lower before).ensureBackend lower net).resolveErr ≠ none →
    ∀ later, (((a.run lower before).ensureBackend lower net).ensureBackend lower later).resolveErr =
      ((a.run lower before).ensureBackend lower later).resolveErr
  resolves : ∀ before net after, calls = before ++ net :: after →
    (a.run lower before).backend = none → Detectable lower a.cfg.Transport net →
    ∃ b, resolveBackend lower a.cfg net = .ok b ∧
      ((a.run lower before).ensureBackend lower net).backend = some b ∧
      ((a.run lower before).ensureBackend lower net).resolveErr = none
  keeps : ∀ before net after b, calls = before ++ net :: after →
    (a.run lower before).backend = some b →
      ((a.run lower before).ensureBackend lower net).backend = some b ∧
      ((a.run lower before).ensureBackend lower net).resolveErr = none

variable {lower : Char → Char} {cfg : Config} {net first : Network} {a : Adapter} {b : Backend}
variable {err : ResolveError} {calls : List Network}

/-! ### Resolving -/

theorem probeHTTPClient_ok_iff : (∃ legacy, probeHTTPClient net = .ok legacy) ↔
    net.modernTLS = true ∨ net.legacyTLS = .ok ⟨⟩ := by
  rw [probeHTTPClient]
  split
  case isTrue hmodern => exact iff_of_true ⟨_, rfl⟩ (.inl hmodern)
  case isFalse hmodern =>
    cases hlegacy : net.legacyTLS with
    | ok u => exact iff_of_true ⟨_, rfl⟩ (.inr rfl)
    | error err => simp [hmodern]

/-- A backend is found exactly when the transport is detectable. -/
theorem resolveBackend_ok_iff : (∃ b, resolveBackend lower cfg net = .ok b) ↔
    Detectable lower cfg.Transport net := by
  rw [Detectable.eq_def, ← probeHTTPClient_ok_iff, resolveBackend]
  cases hclient : probeHTTPClient net with
  | error err => simp [bind, Except.bind]
  | ok legacy =>
      simp only [bind, Except.bind, Except.ok.injEq, exists_eq', true_and]
      cases cfg.Transport with
      | web => simp
      | wsman => simp
      | redfish => by_cases hredfish : probeRedfish net = true <;> simp [hredfish]
      | auto =>
          dsimp only
          split_ifs with hredfish hweb hwsman
          · simp [hredfish]
          · simp [hweb]
          · simp [hwsman]
          · simp [hredfish, hweb, hwsman]

/-! ### Calls -/

/-- Once the once has run, no call changes the adapter. -/
theorem run_of_done (hdone : a.done = true) (calls : List Network) : a.run lower calls = a := by
  induction calls with
  | nil => rfl
  | cons net rest ih =>
      have hsame : a.ensureBackend lower net = a := if_pos hdone
      rw [Adapter.run, List.foldl_cons, hsame]
      exact ih

theorem run_cons (a : Adapter) (net : Network) (rest : List Network) :
    a.run lower (net :: rest) = (a.ensureBackend lower net).run lower rest := rfl

section New

variable {host transport : String}

/-- The first call, when it finds a backend. -/
theorem ensureBackend_New_ok
    (hresolve : resolveBackend lower (New lower host transport).cfg first = .ok b) :
    (New lower host transport).ensureBackend lower first =
      { New lower host transport with
        done := true, backend := some b, backendName := some b.Name } := by
  have hnone : (New lower host transport).backend = none := rfl
  rw [Adapter.ensureBackend, if_neg (by simp [New]), Adapter.resolve, hnone]
  dsimp only
  rw [hresolve]

/-- The first call, when it finds none. -/
theorem ensureBackend_New_error
    (hresolve : resolveBackend lower (New lower host transport).cfg first = .error err) :
    (New lower host transport).ensureBackend lower first =
      { New lower host transport with done := true, resolveErr := some err } := by
  have hnone : (New lower host transport).backend = none := rfl
  rw [Adapter.ensureBackend, if_neg (by simp [New]), Adapter.resolve, hnone]
  dsimp only
  rw [hresolve]
  dsimp only
  rw [hnone]

/-- The error of the first call is the error of every call after it, whatever the network. -/
theorem resolveErr_run_of_error
    (hresolve : resolveBackend lower (New lower host transport).cfg first = .error err)
    (calls : List Network) :
    ((New lower host transport).run lower (first :: calls)).resolveErr = some err ∧
      ((New lower host transport).run lower (first :: calls)).backend = none := by
  rw [run_cons, ensureBackend_New_error hresolve, run_of_done rfl]
  exact ⟨rfl, rfl⟩

/-- The backend of the first call is the backend of every call after it. -/
theorem run_of_ok (hresolve : resolveBackend lower (New lower host transport).cfg first = .ok b)
    (calls : List Network) :
    (New lower host transport).run lower (first :: calls) =
      { New lower host transport with
        done := true, backend := some b, backendName := some b.Name } := by
  rw [run_cons, ensureBackend_New_ok hresolve, run_of_done rfl]

/-- The name is that of the backend, or the configured preference while there is none. -/
theorem TransportName_run (calls : List Network) :
    ((New lower host transport).run lower calls).TransportName =
      (((New lower host transport).run lower calls).backend.map Backend.Name).getD
        (normalizeTransport lower transport) := by
  cases calls with
  | nil => simp [Adapter.run, Adapter.TransportName, New]
  | cons first rest =>
      cases hresolve : resolveBackend lower (New lower host transport).cfg first with
      | ok b =>
          rw [run_of_ok hresolve]
          simp [Adapter.TransportName]
      | error err =>
          rw [run_cons, ensureBackend_New_error hresolve, run_of_done rfl]
          simp [Adapter.TransportName, New]

/-- A network on which every transport is detectable. -/
def upNetwork : Network :=
  { modernTLS := true, redfish := some ⟨200, some ("1.0.2", "/redfish/v1")⟩ }

theorem detectable_upNetwork (t : Transport) : Detectable lower t upNetwork := by
  have hredfish : probeRedfish upNetwork = true := by decide
  cases t with
  | auto => exact ⟨.inl rfl, .inl hredfish⟩
  | redfish => exact ⟨.inl rfl, hredfish⟩
  | web => exact ⟨.inl rfl, trivial⟩
  | wsman => exact ⟨.inl rfl, trivial⟩

/-- The call that resolved the backend and all later ones succeed. -/
theorem retriable_of_ok
    (hresolve : resolveBackend lower (New lower host transport).cfg first = .ok b)
    (calls : List Network) : Retriable lower (New lower host transport) (first :: calls) := by
  have hrun (before : List Network) (net : Network) (after : List Network)
      (hcalls : first :: calls = before ++ net :: after) :
      (before = [] ∧ net = first ∨ ((New lower host transport).run lower before).backend = some b) ∧
        ((New lower host transport).run lower before).ensureBackend lower net =
          { New lower host transport with
            done := true, backend := some b, backendName := some b.Name } := by
    cases before with
    | nil =>
        cases hcalls
        exact ⟨.inl ⟨rfl, rfl⟩, ensureBackend_New_ok hresolve⟩
    | cons _ rest =>
        cases hcalls
        rw [run_of_ok hresolve]
        exact ⟨.inr rfl, rfl⟩
  constructor
  · intro before net after hcalls hfailed
    rw [(hrun before net after hcalls).2] at hfailed
    exact absurd rfl hfailed
  · intro before net after hcalls hnone _
    obtain ⟨⟨-, rfl⟩ | hsome, hcall⟩ := hrun before net after hcalls
    · rw [hcall]
      exact ⟨b, hresolve, rfl, rfl⟩
    · rw [hnone] at hsome
      cases hsome
  · intro before net after c hcalls hc
    obtain ⟨⟨rfl, -⟩ | hsome, hcall⟩ := hrun before net after hcalls
    · cases hc
    · rw [hc] at hsome
      cases hsome
      rw [hcall]
      exact ⟨rfl, rfl⟩

/-- A first call that fails is never made good: even a network on which the transport is
detectable gives its error. -/
theorem not_retriable_of_error
    (hresolve : resolveBackend lower (New lower host transport).cfg first = .error err)
    (calls : List Network) : ¬ Retriable lower (New lower host transport) (first :: calls) := by
  intro hretriable
  have hcall := ensureBackend_New_error hresolve
  have hreopens := hretriable.reopens [] first calls rfl (by
    rw [Adapter.run, List.foldl_nil, hcall]
    simp) upNetwork
  have hup : Detectable lower (New lower host transport).cfg.Transport upNetwork :=
    detectable_upNetwork _
  obtain ⟨b, hb⟩ := resolveBackend_ok_iff.mpr hup
  rw [Adapter.run, List.foldl_nil, hcall, ensureBackend_New_ok hb] at hreopens
  cases hreopens

end New

/-- The calls are as they should be exactly when the transport is detectable at the first of
them. -/
theorem retriable_iff (lower : Char → Char) (host transport : String) (calls : List Network) :
    Retriable lower (New lower host transport) calls ↔
      ∀ first ∈ calls.head?, Detectable lower (normalizeTransport lower transport) first := by
  cases calls with
  | nil =>
      refine iff_of_true ⟨?_, ?_, ?_⟩ (by simp)
      · intro before net after hcalls
        simp at hcalls
      · intro before net after hcalls
        simp at hcalls
      · intro before net after b hcalls
        simp at hcalls
  | cons first rest =>
      have htransport : (New lower host transport).cfg.Transport =
          normalizeTransport lower transport := by
        rw [New]
      have hdetectable : (∃ b, resolveBackend lower (New lower host transport).cfg first = .ok b) ↔
          Detectable lower (New lower host transport).cfg.Transport first := resolveBackend_ok_iff
      simp only [List.head?_cons, Option.mem_some_iff, forall_eq', ← htransport]
      constructor
      · intro hretriable
        refine hdetectable.mp ?_
        cases hresolve : resolveBackend lower (New lower host transport).cfg first with
        | ok b => exact ⟨b, rfl⟩
        | error err => exact absurd hretriable (not_retriable_of_error hresolve rest)
      · intro hfirst
        obtain ⟨b, hb⟩ := hdetectable.mpr hfirst
        exact retriable_of_ok hb rest

/-- A first call while the BMC restarts, and a second one when it is up. -/
theorem restart_not_retriable :
    ¬ Retriable Char.toLower (New Char.toLower "10.0.0.1" "auto") [{}, upNetwork] := by
  have hresolve : resolveBackend Char.toLower (New Char.toLower "10.0.0.1" "auto").cfg {} =
      .error (.tls "connection refused") := by
    rw [resolveBackend]
    rfl
  exact not_retriable_of_error hresolve _

end Outband.Idrac.Detection
