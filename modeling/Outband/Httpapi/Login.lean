import Outband.Foundation.Base64
import Outband.Foundation.Utf8
import Outband.Httpapi.Routes

/-!
# Logging in and out

The handlers of `/login`, `/logout` and `/auth/oidc/` (`internal/httpapi/server.go`,
`internal/httpapi/oidc.go`). A login at the provider leaves three cookies with the browser: the
state, the nonce and the PKCE verifier. The callback compares the state of its query with the
cookie, exchanges the code under the verifier and compares the nonce of the ID token with the
cookie. Only then it issues a session.

## Implementation notes

`Provider` stands for what the identity provider and the libraries that talk to it answer, and
`OidcAuth` for the library that writes the provider's URL. The callback is cut where it waits
for the exchange. The branding of the login page is left out; `warning` is the line that the
handler writes to the log of the server.
-/

namespace Outband.Httpapi

open Foundation

/-- A request with what the login handlers read besides. -/
structure LoginRequest extends Request where
  query : List (String × String) := []
  /-- `r.Form`, the body before the query; `none` when `ParseForm` fails. -/
  form : Option (List (String × String)) := some []
  deriving DecidableEq, Repr

/-- The first value of the key, empty when there is none. -/
def firstValue (values : List (String × String)) (key : String) : String :=
  ((values.find? fun v => v.1 = key).map Prod.snd).getD ""

structure SetCookie where
  Name : String
  Value : String
  Path : String
  MaxAge : Int := 0
  Expires : Nat
  HttpOnly : Bool := true
  SameSiteLax : Bool := false
  deriving DecidableEq, Repr

inductive Body
  | empty
  | text (message : String)
  | login (error : String)
  deriving DecidableEq, Repr

structure Reply where
  code : Nat
  location : Option String := none
  cookies : List SetCookie := []
  body : Body := .empty
  warning : String := ""
  deriving DecidableEq, Repr

/-- `http.Error`. -/
def httpError (message : String) (code : Nat) : Reply := { code, body := .text message }

/-- `http.Redirect` with `http.StatusSeeOther`. -/
def seeOther (location : String) (cookies : List SetCookie) : Reply :=
  { code := 303, location := some location, cookies }

/-! ### Cookies -/

def setSessionCookie (token : String) (exp : Nat) : SetCookie :=
  { Name := sessionCookie, Value := token, Path := "/", Expires := exp, SameSiteLax := true }

def clearSessionCookie : SetCookie :=
  { Name := sessionCookie, Value := "", Path := "/", MaxAge := -1, Expires := 0 }

def oidcStateCookie : String := "outband_oidc_state"
def oidcNonceCookie : String := "outband_oidc_nonce"
def oidcPKCECookie : String := "outband_oidc_pkce"

/-- Ten minutes, in nanoseconds. -/
def oidcCookieTTL : Nat := 10 * 60 * 1000000000

def oidcPath : String := "/auth/oidc"

def setOIDCCookie (now : Nat) (name value : String) : SetCookie :=
  { Name := name, Value := value, Path := oidcPath, MaxAge := oidcCookieTTL / 1000000000,
    Expires := now + oidcCookieTTL, SameSiteLax := true }

def clearOIDCCookies : List SetCookie :=
  [oidcStateCookie, oidcNonceCookie, oidcPKCECookie].map fun name =>
    { Name := name, Value := "", Path := oidcPath, MaxAge := -1, Expires := 0 }

/-! ### The password -/

def passwordEnabled (pass : String) : Bool := pass ≠ ""

def validPassword (pass got : String) : Bool :=
  if pass = "" then false else Utf8.encode got = Utf8.encode pass

variable (mac : Bytes → Bytes → Bytes)

def handleLoginPost (pass : String) (g : Gate) (now : Nat) (raw : Bytes) (r : LoginRequest) :
    Reply × Gate :=
  if ¬ passwordEnabled pass then (httpError "password login disabled" 404, g)
  else
    match r.form with
    | none => (httpError "bad form" 400, g)
    | some form =>
        if ¬ validPassword pass (firstValue form "password") then
          ({ code := 401, body := .login "Invalid password" }, g)
        else
          let issued := g.issueToken mac now raw
          (seeOther "/" [setSessionCookie issued.1.1 issued.1.2], issued.2)

def handleLogout (g : Gate) (r : LoginRequest) : Reply × Gate :=
  (seeOther "/login" [clearSessionCookie],
    match r.Cookie sessionCookie with
    | some c => g.revoke c
    | none => g)

/-! ### The identity provider -/

/-- What a login at the provider is made of. -/
@[ext] structure Flow where
  state : String
  nonce : String
  verifier : String
  deriving DecidableEq, Repr, Inhabited

/-- The random bytes that a request may draw; `none` when the source of them fails. -/
structure Draws where
  token : Bytes := []
  state : Option Bytes := none
  nonce : Option Bytes := none
  verifier : Option Bytes := none
  deriving DecidableEq, Repr

/-- The text of the bytes that were drawn. -/
def randomURLSafe (drawn : Option Bytes) : Option String :=
  drawn.map fun b => String.ofList (rawUrlChars b)

/-- The three values, drawn one after the other. -/
def Flow.draw (draws : Draws) : Option Flow := do
  let state ← randomURLSafe draws.state
  let nonce ← randomURLSafe draws.nonce
  let verifier ← randomURLSafe draws.verifier
  return ⟨state, nonce, verifier⟩

/-- The cookies of a flow, by name. -/
def Flow.cookies (flow : Flow) : List (String × String) :=
  [(oidcStateCookie, flow.state), (oidcNonceCookie, flow.nonce), (oidcPKCECookie, flow.verifier)]

/-- `oauth2.Config.AuthCodeURL`, of the state and the further parameters. -/
structure OidcAuth where
  AuthCodeURL : String → List (String × String) → String

def pkceChallenge (sha256 : Bytes → Bytes) (verifier : String) : String :=
  String.ofList (rawUrlChars (sha256 (Utf8.encode verifier)))

def handleOIDCLogin (sha256 : Bytes → Bytes) (oidc : Option OidcAuth) (now : Nat)
    (draws : Draws) : Reply :=
  match oidc with
  | none => httpError "OIDC not configured" 404
  | some auth =>
      match Flow.draw draws with
      | none => httpError "oidc error" 500
      | some flow =>
          seeOther
            (auth.AuthCodeURL flow.state
              [("nonce", flow.nonce), ("code_challenge", pkceChallenge sha256 flow.verifier),
                ("code_challenge_method", "S256")])
            (flow.cookies.map fun c => setOIDCCookie now c.1 c.2)

def oidcLoginError (warning : String) : Reply :=
  { code := 401, cookies := clearOIDCCookies, body := .login "SSO login failed", warning }

/-- A callback that waits for the exchange of its code. -/
structure Exchange where
  flow : Flow
  code : String
  deriving DecidableEq, Repr

/-- `handleOIDCCallback`, up to the exchange. -/
def handleOIDCCallback (oidc : Option OidcAuth) (r : LoginRequest) : Reply ⊕ Exchange :=
  if oidc.isNone then .inl (httpError "OIDC not configured" 404)
  else if firstValue r.query "error" ≠ "" then .inl (oidcLoginError (firstValue r.query "error"))
  else
    match r.Cookie oidcStateCookie with
    | none | some "" => .inl (oidcLoginError "missing OIDC state")
    | some state =>
        if Utf8.encode state ≠ Utf8.encode (firstValue r.query "state") then
          .inl (oidcLoginError "OIDC state mismatch")
        else
          match r.Cookie oidcNonceCookie with
          | none | some "" => .inl (oidcLoginError "missing OIDC nonce")
          | some nonce =>
              match r.Cookie oidcPKCECookie with
              | none | some "" => .inl (oidcLoginError "missing OIDC PKCE verifier")
              | some verifier =>
                  if firstValue r.query "code" = "" then
                    .inl (oidcLoginError "missing authorization code")
                  else .inr ⟨⟨state, nonce, verifier⟩, firstValue r.query "code"⟩

structure Claims where
  Email : String := ""
  Name : String := ""
  PreferredUsername : String := ""
  deriving DecidableEq, Repr

/-- An ID token that was verified, with what could be read of its claims. -/
structure IDToken where
  Subject : String
  Nonce : String
  claims : Claims
  deriving DecidableEq, Repr

/-- `Exchange` gives the `id_token` of the response, if it has one. -/
structure Provider where
  Exchange : (code verifier : String) → Option (Option String)
  Verify : String → Option IDToken

/-- The ID token that the provider's answers establish, or what is wrong with them. -/
def Exchange.accept (provider : Provider) (x : Exchange) : Except String IDToken :=
  match provider.Exchange x.code x.flow.verifier with
  | none => .error "token exchange failed"
  | some none | some (some "") => .error "missing id_token"
  | some (some rawID) =>
      match provider.Verify rawID with
      | none => .error "id_token verification failed"
      | some idToken =>
          if idToken.Nonce ≠ x.flow.nonce then .error "OIDC nonce mismatch" else .ok idToken

def IDToken.identity (idToken : IDToken) : Identity where
  Subject := idToken.Subject
  Email := idToken.claims.Email
  Name :=
    if idToken.claims.Name = "" then idToken.claims.PreferredUsername else idToken.claims.Name

/-- `handleOIDCCallback`, from the exchange on. -/
def finishOIDCCallback (provider : Provider) (g : Gate) (now : Nat) (raw : Bytes) (x : Exchange) :
    Reply × Gate :=
  match x.accept provider with
  | .error warning =>
      let reply := oidcLoginError warning
      ({ reply with cookies := clearOIDCCookies ++ reply.cookies }, g)
  | .ok idToken =>
      let issued := g.issueTokenFor mac now raw idToken.identity
      (seeOther "/" (clearOIDCCookies ++ [setSessionCookie issued.1.1 issued.1.2]), issued.2)

/-! ### What the handlers do -/

section

variable {mac : Bytes → Bytes → Bytes} {oidc : Option OidcAuth} {r : LoginRequest} {x : Exchange}
  {provider : Provider}

/-- A password post hands out a session for the right password and for no other. -/
theorem handleLoginPost_cases (mac : Bytes → Bytes → Bytes) (pass : String) (g : Gate)
    (now : Nat) (raw : Bytes) (r : LoginRequest) :
    (pass ≠ "" ∧ firstValue (r.form.getD []) "password" = pass ∧
      handleLoginPost mac pass g now raw r =
        (seeOther "/" [setSessionCookie (g.token mac raw) (now + sessionTTL)],
          (g.issueToken mac now raw).2)) ∨
    ((handleLoginPost mac pass g now raw r).1.cookies = [] ∧
      (handleLoginPost mac pass g now raw r).2 = g) := by
  rw [handleLoginPost]
  split_ifs with henabled
  · cases hform : r.form with
    | none => exact .inr ⟨rfl, rfl⟩
    | some form =>
        dsimp only
        split_ifs with hvalid
        · rw [validPassword] at hvalid
          split_ifs at hvalid with hempty
          exact .inl ⟨hempty, Utf8.encode_injective (of_decide_eq_true hvalid), rfl⟩
        · exact .inr ⟨rfl, rfl⟩
  · exact .inr ⟨rfl, rfl⟩

theorem lt_of_mem_clearOIDCCookies : ∀ c ∈ clearOIDCCookies, c.MaxAge < 0 := by decide

/-- A callback goes on to the exchange with the values of the cookies, and only when the state of
the query is that of the cookie. -/
theorem handleOIDCCallback_exchange (h : handleOIDCCallback oidc r = .inr x) :
    r.Cookie oidcStateCookie = some x.flow.state ∧
      r.Cookie oidcNonceCookie = some x.flow.nonce ∧
      r.Cookie oidcPKCECookie = some x.flow.verifier ∧
      firstValue r.query "state" = x.flow.state := by
  rw [handleOIDCCallback] at h
  split at h
  case isTrue => cases h
  split at h
  case isTrue => cases h
  split at h
  case h_1 => cases h
  case h_2 => cases h
  case h_3 state _ hstate =>
    split at h
    case isTrue => cases h
    case isFalse hequal =>
      split at h
      case h_1 => cases h
      case h_2 => cases h
      case h_3 nonce _ hnonce =>
        split at h
        case h_1 => cases h
        case h_2 => cases h
        case h_3 verifier _ hverifier =>
          split_ifs at h with hcode
          cases h
          exact ⟨hstate, hnonce, hverifier, (Utf8.encode_injective (not_not.mp hequal)).symm⟩

/-- A callback that is refused takes the cookies away. -/
theorem handleOIDCCallback_reply {reply : Reply} (hoidc : oidc.isSome)
    (h : handleOIDCCallback oidc r = .inl reply) : ∃ warning, reply = oidcLoginError warning := by
  have hnone : ¬ oidc.isNone = true := by simpa [Option.isSome_iff_ne_none] using hoidc
  rw [handleOIDCCallback, if_neg hnone] at h
  split at h
  case isTrue => exact ⟨_, (Sum.inl.inj h).symm⟩
  split at h
  case h_1 => exact ⟨_, (Sum.inl.inj h).symm⟩
  case h_2 => exact ⟨_, (Sum.inl.inj h).symm⟩
  case h_3 state _ hstate =>
    split at h
    case isTrue => exact ⟨_, (Sum.inl.inj h).symm⟩
    split at h
    case h_1 => exact ⟨_, (Sum.inl.inj h).symm⟩
    case h_2 => exact ⟨_, (Sum.inl.inj h).symm⟩
    case h_3 nonce _ hnonce =>
      split at h
      case h_1 => exact ⟨_, (Sum.inl.inj h).symm⟩
      case h_2 => exact ⟨_, (Sum.inl.inj h).symm⟩
      case h_3 verifier _ hverifier =>
        split at h
        case isTrue => exact ⟨_, (Sum.inl.inj h).symm⟩
        case isFalse => cases h

theorem nonce_of_accept {idToken : IDToken} (h : x.accept provider = .ok idToken) :
    idToken.Nonce = x.flow.nonce := by
  rw [Exchange.accept] at h
  split at h
  case h_1 => cases h
  case h_2 => cases h
  case h_3 => cases h
  case h_4 rawID hexchange =>
    split at h
    case h_1 => cases h
    case h_2 verified hverify =>
      split_ifs at h with hnonce
      cases h
      exact not_not.mp hnonce

end

end Outband.Httpapi
