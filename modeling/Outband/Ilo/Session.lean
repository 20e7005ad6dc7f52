import Mathlib.Data.Rat.Defs
import Outband.Foundation.Decimal
import Outband.Foundation.KeyedTable
import Outband.Foundation.Ledger
import Outband.Foundation.Utf8

/-!
# Web sessions of an iLO

`Login`, `Session.Close` and `FetchRcInfo` (`internal/ilo/rc/session.go`). A login
returns the key of the web session that it has made, unless the reply says that the user
has no privilege for the remote console. `FetchRcInfo` asks for the port and the key of
the console.

## Implementation notes

The iLO is a parameter: the sessions that it creates on the login request, each known by
its key, and its answer to each request. A request that cannot be made and one that gets
no answer are alike. A logout reaches the iLO. `unmarshal` is `json.Unmarshal` into a
map, whose numbers are rational; a missing entry and an entry of another type read as
zero.
-/

namespace Outband.Ilo.Web

open Foundation
open Foundation.Utf8 (Bytes)

/-! ### JSON -/

/-- A value of a JSON object; nothing reads a null, an array or an object. -/
inductive Json
  | bool (b : Bool)
  | number (x : ℚ)
  | string (s : String)
  | other
  deriving DecidableEq

abbrev JsonMap := KeyedTable (Prod.fst : String × Json → String)

def JsonMap.get (m : JsonMap) (k : String) : Option Json := (m.find k).map Prod.snd

def anyInt : Option Json → Int
  | some (.number x) => x.num.tdiv x.den
  | some (.string s) => Atoi s
  | _ => 0

def anyString : Option Json → String
  | some (.string s) => s
  | _ => ""

def truthy : Json → Bool
  | .bool b => b
  | .number x => x ≠ 0
  | .string s => s = "1" ∨ s.toLower = "true"
  | .other => false

/-! ### Requests -/

structure Request where
  post : Bool
  url : String
  /-- The entries of the JSON body. -/
  body : List (String × String) := []
  /-- The value of the cookie `sessionKey`. -/
  cookie : Option String := none
  deriving DecidableEq, Repr

/-- A reply, with as much of its body as arrives. -/
structure Response where
  status : Nat
  body : Bytes
  deriving DecidableEq, Repr

structure Bmc where
  /-- The keys of the sessions created on the login request. -/
  created : List String
  answer : Request → Option Response

structure Session where
  Host : String
  Port : Int
  Insecure : Bool
  SessionKey : String := ""
  deriving DecidableEq, Repr

namespace Session

def base (s : Session) : String :=
  if s.Port = 443 then "https://" ++ s.Host else "https://" ++ s.Host ++ ":" ++ toString s.Port

/-- Log out, unless that has been done. -/
def Close (s : Session) (l : Ledger String) : Session × Ledger String :=
  if s.SessionKey = "" then (s, l) else ({ s with SessionKey := "" }, l.release s.SessionKey)

end Session

/-! ### The login -/

inductive LoginError
  /-- `ilo login: %w` -/
  | noReply
  /-- `ilo login: HTTP %d: %s` -/
  | status (code : Nat) (body : Bytes)
  /-- `ilo login: %w` -/
  | unmarshal
  /-- `ilo login: no session_key` -/
  | noSessionKey
  /-- `ilo login: remote console privilege denied` -/
  | privilegeDenied
  deriving DecidableEq, Repr

/-- The session before the login. -/
def newSession (host : String) (port : Int) (insecure : Bool) : Session :=
  { Host := host, Port := if port = 0 then 443 else port, Insecure := insecure }

def loginRequest (s : Session) (user pass : String) : Request where
  post := true
  url := s.base ++ "/json/login_session"
  body := [("method", "login"), ("password", pass), ("user_login", user)]

def sessionKey (m : JsonMap) : String :=
  let sk := anyString (m.get "session_key")
  if sk = "" then anyString (m.get "sessionKey") else sk

/-- The reply denies the privilege for the remote console. -/
def Denied (m : JsonMap) : Prop := ∃ priv ∈ m.get "remote_cons_priv", truthy priv = false

instance (m : JsonMap) : Decidable (Denied m) :=
  inferInstanceAs (Decidable (∃ priv ∈ m.get "remote_cons_priv", _))

variable (unmarshal : Bytes → Option JsonMap) (bmc : Bmc)

def Login (host : String) (port : Int) (user pass : String) (insecure : Bool)
    (l : Ledger String) : Except LoginError Session × Ledger String :=
  let s := newSession host port insecure
  let l := l.create bmc.created
  match bmc.answer (loginRequest s user pass) with
  | none => (.error .noReply, l)
  | some res =>
      if res.status ≠ 200 then (.error (.status res.status res.body), l)
      else
        match unmarshal res.body with
        | none => (.error .unmarshal, l)
        | some m =>
            if sessionKey m = "" then (.error .noSessionKey, l)
            else if Denied m then (.error .privilegeDenied, l)
            else (.ok { s with SessionKey := sessionKey m }, l)

/-- The reply to a login grants a session: it carries a key and denies no privilege. -/
structure Grants (host : String) (port : Int) (user pass : String) (insecure : Bool)
    (key : String) : Prop where
  key_ne : key ≠ ""
  reply : ∃ res m, bmc.answer (loginRequest (newSession host port insecure) user pass) = some res ∧
    res.status = 200 ∧ unmarshal res.body = some m ∧ ¬ Denied m ∧ key = sessionKey m

/-! ### The console's port and key -/

structure RcInfo where
  EncKeyHex : String
  EncKey : Bytes
  RCPort : Int
  VMPort : Int
  OptionalFeatures : String
  ProtocolVersion : String
  ServerName : String
  ILOFQDN : String
  EncryptKey : Bool
  EncryptVMKey : Bool
  deriving DecidableEq, Repr

inductive RcInfoError
  | noReply
  /-- `rc_info: HTTP %d: %s` -/
  | status (code : Nat) (body : Bytes)
  | unmarshal
  /-- `rc_info enc_key: %w` -/
  | encKey
  /-- `rc_info: missing rc_port` -/
  | missingPort
  deriving DecidableEq, Repr

def rcInfoRequest (s : Session) : Request where
  post := false
  url := s.base ++ "/json/rc_info"
  cookie := some s.SessionKey

def hexValue (c : Char) : Option Nat :=
  if c.isDigit then some (c.toNat - 48)
  else if 'a' ≤ c ∧ c ≤ 'f' then some (c.toNat - 87)
  else if 'A' ≤ c ∧ c ≤ 'F' then some (c.toNat - 55)
  else none

/-- `hex.DecodeString`. -/
def hexDecode : List Char → Option Bytes
  | [] => some []
  | [_] => none
  | hi :: lo :: rest => do
      let h ← hexValue hi
      let l ← hexValue lo
      let decoded ← hexDecode rest
      return BitVec.ofNat 8 (16 * h + l) :: decoded

/-- `strings.Contains`. -/
def contains (s part : String) : Bool := part.toList <:+: s.toList

def newRcInfo (m : JsonMap) (encKey : Bytes) : RcInfo :=
  let features := anyString (m.get "optional_features")
  { EncKeyHex := anyString (m.get "enc_key")
    EncKey := encKey
    RCPort := anyInt (m.get "rc_port")
    VMPort := anyInt (m.get "vm_port")
    OptionalFeatures := features
    ProtocolVersion := anyString (m.get "protocol_version")
    ServerName := anyString (m.get "server_name")
    ILOFQDN := anyString (m.get "ilo_fqdn")
    EncryptKey := contains features "ENCRYPT_KEY"
    EncryptVMKey := contains features "ENCRYPT_VMKEY" }

def FetchRcInfo (s : Session) : Except RcInfoError RcInfo :=
  match bmc.answer (rcInfoRequest s) with
  | none => .error .noReply
  | some res =>
      if res.status ≠ 200 then .error (.status res.status res.body)
      else
        match unmarshal res.body with
        | none => .error .unmarshal
        | some m =>
            match hexDecode (anyString (m.get "enc_key")).toList with
            | none => .error .encKey
            | some encKey =>
                let info := newRcInfo m encKey
                if info.RCPort = 0 then .error .missingPort else .ok info

/-! ### What a login does -/

variable {unmarshal bmc} {host user pass key : String} {port : Int} {insecure : Bool}
  {l : Ledger String}

/-- A login that is granted returns the session with its key. -/
theorem Login_of_grants (h : Grants unmarshal bmc host port user pass insecure key) :
    Login unmarshal bmc host port user pass insecure l =
      (.ok { newSession host port insecure with SessionKey := key }, l.create bmc.created) := by
  obtain ⟨hkey, res, m, hreply, hstatus, hm, hdenied, rfl⟩ := h
  simp only [Login, hreply, hm, ne_eq, hstatus, not_true_eq_false, if_false, if_neg hkey,
    if_neg hdenied]

/-- A login that is not granted fails, and logs nothing out. -/
theorem Login_of_not_grants (h : ∀ key, ¬ Grants unmarshal bmc host port user pass insecure key) :
    ∃ err, Login unmarshal bmc host port user pass insecure l =
      (.error err, l.create bmc.created) := by
  cases hreply : bmc.answer (loginRequest (newSession host port insecure) user pass) with
  | none => exact ⟨.noReply, by simp only [Login, hreply]⟩
  | some res =>
      by_cases hstatus : res.status = 200
      · cases hm : unmarshal res.body with
        | none => exact ⟨.unmarshal, by simp [Login, hreply, hstatus, hm]⟩
        | some m =>
            by_cases hkey : sessionKey m = ""
            · exact ⟨.noSessionKey, by simp [Login, hreply, hstatus, hm, hkey]⟩
            · by_cases hdenied : Denied m
              · exact ⟨.privilegeDenied, by simp [Login, hreply, hstatus, hm, hkey, hdenied]⟩
              · exact absurd ⟨hkey, res, m, hreply, hstatus, hm, hdenied, rfl⟩ (h _)
      · exact ⟨.status res.status res.body, by simp [Login, hreply, hstatus]⟩

theorem Grants.unique {key' : String} (h : Grants unmarshal bmc host port user pass insecure key)
    (h' : Grants unmarshal bmc host port user pass insecure key') : key = key' := by
  have heq := (Login_of_grants (l := {}) h).symm.trans (Login_of_grants h')
  simpa using heq

end Outband.Ilo.Web
