import Outband.Foundation.Loop
import Outband.Foundation.Utf8
import Outband.Inventory.Config

/-!
# Requests of the classic iDRAC web interface

`webBackend` (`internal/idrac/web.go`) posts to the data API of the embedded web
server. `postData` logs in first when it has to; after a 401 it logs in again and
calls itself. No count is kept of these calls, so it is a loop that ends only when
the BMC refuses a login or answers a data request with another status.

## Implementation notes

The replies of the BMC are a stream: the first request gets the first reply, and
so on. The redirects that the client follows, at most five for each request, are
not counted. `valid` are the URLs of which a request can be made. Bodies are read
up to a limit, and patterns are matched on their runes.
-/

namespace Outband.Idrac

open Foundation
open Inventory (TrimSpace)

/-! ### Patterns -/

/-- The letters that `(?i)` takes for a letter, the long s and the Kelvin sign among them. -/
def folds (p c : Char) : Bool :=
  c.toLower = p.toLower ∨ p.toLower = 's' ∧ c.toNat = 0x17f ∨ p.toLower = 'k' ∧ c.toNat = 0x212a

/-- The text behind a literal. -/
def literal : List Char → List Char → Option (List Char)
  | [], text => some text
  | _ :: _, [] => none
  | p :: pat, c :: text => if folds p c then literal pat text else none

/-- One character of a class or more, and the text behind them. -/
def oneOrMore (p : Char → Bool) (text : List Char) : Option (List Char × List Char) :=
  if text.takeWhile p = [] then none else some (text.takeWhile p, text.dropWhile p)

/-- The first place of a text that matches. -/
def leftmost {α : Type*} (pat : List Char → Option α) : List Char → Option α
  | [] => pat []
  | c :: text => (pat (c :: text)).or (leftmost pat text)

/-- The text of the first element with a tag. -/
def element (tag : String) : List Char → Option (List Char) :=
  leftmost fun text => do
    let text ← literal ("<" ++ tag ++ ">").toList text
    let (value, text) ← oneOrMore (· ≠ '<') text
    let _ ← literal ("</" ++ tag ++ ">").toList text
    pure value

def reAuthResult : List Char → Option (List Char) := element "authResult"

def reForwardURL : List Char → Option (List Char) := element "forwardUrl"

/-- `[0-9a-f]` -/
def isHex (c : Char) : Bool := c.isDigit ∨ 'a' ≤ c.toLower ∧ c.toLower ≤ 'f'

/-- `\s` -/
def isBlank (c : Char) : Bool := c.toNat ∈ [0x09, 0x0a, 0x0c, 0x0d, 0x20]

def reST2Query : List Char → Option (List Char) :=
  leftmost fun text => do
    let text ← literal "ST2=".toList text
    let (value, _) ← oneOrMore isHex text
    pure value

def reST2Var : List Char → Option (List Char) :=
  leftmost fun text => do
    let text ← literal "TOKEN_VALUE".toList text
    let text ← literal "=".toList (text.dropWhile isBlank)
    let text ← literal "\"".toList (text.dropWhile isBlank)
    let (value, text) ← oneOrMore isHex text
    let _ ← literal "\"".toList text
    pure value

/-- `strings.ReplaceAll`; the first `skip` characters belong to a text that has been replaced. -/
def replaceFrom (old new : List Char) : Nat → List Char → List Char
  | _, [] => []
  | 0, c :: text =>
      if old.isPrefixOf (c :: text) then new ++ replaceFrom old new (old.length - 1) text
      else c :: replaceFrom old new 0 text
  | skip + 1, _ :: text => replaceFrom old new skip text

/-! ### Replies -/

/-- A reply; its body may break off. -/
structure Response where
  status : Nat
  body : Utf8.Bytes
  broken : Bool := false
  deriving DecidableEq, Repr

inductive WebError
  | badURL
  | noReply
  | read
  /-- `idrac web login: HTTP %d: %s` -/
  | loginStatus (code : Nat) (body : Utf8.Bytes)
  /-- `idrac web login: missing authResult` -/
  | missingAuthResult
  /-- `idrac web login failed (authResult=%s)` -/
  | loginFailed (authResult : String)
  /-- `idrac web %s: HTTP %d: %s` -/
  | status (path : String) (code : Nat) (body : Utf8.Bytes)
  deriving DecidableEq, Repr

namespace Response

/-- `io.ReadAll` of at most `limit` bytes. -/
def read (r : Response) (limit : Nat) : Utf8.Bytes := r.body.take limit

def readFails (r : Response) (limit : Nat) : Bool := r.broken ∧ r.body.length < limit

/-- The runes of the bytes that are read. -/
def text (r : Response) (limit : Nat) : List Char := (Utf8.runes (r.read limit)).map Char.ofNat

/-- What `login` makes of the reply to its form: the page it is sent on to. -/
def forward (r : Response) : Except WebError (List Char) :=
  if r.readFails (2 ^ 20) then .error .read
  else if r.status ≠ 200 then .error (.loginStatus r.status (r.read (2 ^ 20)))
  else
    match reAuthResult (r.text (2 ^ 20)) with
    | none => .error .missingAuthResult
    | some value =>
        let value := TrimSpace (String.ofList value)
        if value ≠ "0" then .error (.loginFailed value)
        else
          match reForwardURL (r.text (2 ^ 20)) with
          | none => .ok []
          | some url => .ok (replaceFrom "defaultCred".toList "index".toList 0
              (TrimSpace (String.ofList url)).toList)

end Response

/-! ### Requests -/

structure Config where
  baseURL : String
  user : String
  password : String
  deriving DecidableEq, Repr

/-- A request; an empty token is no `ST2` header. -/
structure Request where
  post : Bool
  url : String
  st2 : String
  form : List (String × String)
  deriving DecidableEq, Repr

/-- The fields of a backend, and the requests it has sent. -/
structure Web where
  logged : Bool := false
  st2 : String := ""
  sent : List Request := []
  deriving DecidableEq, Repr

/-- An error, and the backend it leaves. -/
structure Failure where
  error : WebError
  backend : Web
  deriving DecidableEq, Repr

namespace Web

variable (cfg : Config) (valid : String → Bool) (replies : Nat → Option Response)

def record (request : Request) (s : Web) : Web := { s with sent := s.sent ++ [request] }

/-- Make a request, set its headers and send it. -/
def send (post : Bool) (url : String) (form : List (String × String)) (s : Web) :
    Except Failure (Response × Web) :=
  if valid url then
    let s' := s.record ⟨post, url, s.st2, form⟩
    match replies s.sent.length with
    | none => .error ⟨.noReply, s'⟩
    | some r => .ok (r, s')
  else .error ⟨.badURL, s⟩

/-- The address of the page that a login is sent on to. -/
def indexURL (fwd : List Char) : String :=
  if "http".toList.isPrefixOf fwd then String.ofList fwd
  else if "/".toList.isPrefixOf fwd then cfg.baseURL ++ String.ofList fwd
  else cfg.baseURL ++ "/" ++ String.ofList fwd

/-- The token on the page that a login is sent on to; no error of this request is one of `login`. -/
def indexToken (fwd : List Char) (s : Web) : String × Web :=
  match send valid replies false (indexURL cfg fwd) [] s with
  | .error failure => ("", failure.backend)
  | .ok (r, s) => (String.ofList ((reST2Var (r.text (2 ^ 21))).getD []), s)

/-- The rest of a login that the BMC has accepted. -/
def enter (fwd : List Char) (s : Web) : Web :=
  let (st2, s) :=
    match reST2Query fwd with
    | some st2 => (String.ofList st2, s)
    | none => if fwd ≠ [] then indexToken cfg valid replies fwd s else ("", s)
  { s with logged := true, st2 }

def login (s : Web) : Except Failure Web := do
  let (_, s) ← send valid replies false (cfg.baseURL ++ "/login.html") [] s
  let (r, s) ← send valid replies true (cfg.baseURL ++ "/data/login")
    [("user", cfg.user), ("password", cfg.password)] s
  match r.forward with
  | .error e => .error ⟨e, s⟩
  | .ok fwd => .ok (enter cfg valid replies fwd s)

def ensureLogin (s : Web) : Except Failure Web :=
  if s.logged then .ok s else login cfg valid replies s

/-- One call of `postData`, up to the call of itself. -/
def postData (path : String) (s : Web) : Except Failure (Web ⊕ (Utf8.Bytes × Web)) := do
  let s ← ensureLogin cfg valid replies s
  let (r, s) ← send valid replies true (cfg.baseURL ++ path) [] s
  if r.readFails (2 ^ 22) then .error ⟨.read, s⟩
  else if r.status = 401 then
    let s ← ensureLogin cfg valid replies { s with logged := false }
    .ok (.inl s)
  else if r.status ≠ 200 then .error ⟨.status path r.status (r.read (2 ^ 22)), s⟩
  else .ok (.inr (r.read (2 ^ 22), s))

/-! ### The condition -/

/-- The requests for a page that a login is sent on to. -/
def indexRequests (fwd : List Char) : Nat :=
  if reST2Query fwd = none ∧ fwd ≠ [] ∧ valid (indexURL cfg fwd) then 1 else 0

/-- A login with the replies from `p` on succeeds and is over at `q`. -/
def LoginAt (p q : Nat) : Prop :=
  valid (cfg.baseURL ++ "/login.html") ∧ valid (cfg.baseURL ++ "/data/login") ∧
    replies p ≠ none ∧ ∃ r fwd, replies (p + 1) = some r ∧ r.forward = .ok fwd ∧
      q = p + 2 + indexRequests cfg valid fwd

/-- A data request whose reply is the one at `p` is answered with a 401. -/
def UnauthorizedAt (p : Nat) : Prop :=
  ∃ r, replies p = some r ∧ r.readFails (2 ^ 22) = false ∧ r.status = 401

/-- From the reply at `p` on, each data request is answered with a 401 and each login after it
succeeds. -/
def EndlessFrom (path : String) (p : Nat) : Prop :=
  valid (cfg.baseURL ++ path) ∧ ∃ data : Nat → Nat, data 0 = p ∧
    ∀ n, UnauthorizedAt replies (data n) ∧ LoginAt cfg valid replies (data n + 1) (data (n + 1))

/-- The first data request of a call gets the reply at `p`, behind a login if there has to be
one. -/
def StartsAt (s : Web) (p : Nat) : Prop :=
  if s.logged then p = s.sent.length else LoginAt cfg valid replies s.sent.length p

/-- The first data request is made, and from it on the replies are such ones. -/
def Endless (path : String) (s : Web) : Prop :=
  ∃ p, StartsAt cfg valid replies s p ∧ EndlessFrom cfg valid replies path p

/-! ### What the requests do -/

variable {cfg valid replies} {s s' : Web} {path : String} {p q : Nat}

@[simp] theorem logged_record (request : Request) : (s.record request).logged = s.logged := rfl

@[simp] theorem length_sent_record (request : Request) :
    (s.record request).sent.length = s.sent.length + 1 := by
  rw [record, List.length_append, List.length_singleton]

section Send

variable {post : Bool} {url : String} {form : List (String × String)} {r : Response}

theorem send_ok (hurl : valid url) (hreply : replies s.sent.length = some r) :
    send valid replies post url form s = .ok (r, s.record ⟨post, url, s.st2, form⟩) := by
  unfold send
  rw [if_pos hurl, hreply]

theorem of_send_ok (h : send valid replies post url form s = .ok (r, s')) :
    valid url ∧ replies s.sent.length = some r ∧ s' = s.record ⟨post, url, s.st2, form⟩ := by
  unfold send at h
  split_ifs at h with hurl
  cases hreply : replies s.sent.length with
  | none =>
      rw [hreply] at h
      cases h
  | some r' =>
      rw [hreply] at h
      cases h
      exact ⟨hurl, rfl, rfl⟩

end Send

/-- A page that a login is sent on to costs a request, whether it is had or not. -/
theorem length_sent_indexToken (fwd : List Char) :
    (indexToken cfg valid replies fwd s).2.sent.length =
      s.sent.length + if valid (indexURL cfg fwd) then 1 else 0 := by
  unfold indexToken send
  by_cases hurl : valid (indexURL cfg fwd)
  · rw [if_pos hurl, if_pos hurl]
    cases replies s.sent.length with
    | none => exact length_sent_record _
    | some r => exact length_sent_record _
  · rw [if_neg hurl, if_neg hurl]
    rfl

theorem logged_enter (fwd : List Char) : (enter cfg valid replies fwd s).logged = true := rfl

theorem length_sent_enter (fwd : List Char) :
    (enter cfg valid replies fwd s).sent.length = s.sent.length + indexRequests cfg valid fwd := by
  unfold enter indexRequests
  cases hquery : reST2Query fwd with
  | some st2 => simp
  | none =>
      by_cases hfwd : fwd = []
      · simp [hfwd]
      · simp [hfwd, length_sent_indexToken]

/-- A login that succeeds has used its replies up to where it is over. -/
theorem login_ok (h : login cfg valid replies s = .ok s') :
    s'.logged = true ∧ LoginAt cfg valid replies s.sent.length s'.sent.length := by
  obtain ⟨⟨page, s1⟩, hsend, h⟩ := exists_of_bind_ok h
  obtain ⟨hpageURL, hpage, rfl⟩ := of_send_ok hsend
  obtain ⟨⟨r, s2⟩, hsend, h⟩ := exists_of_bind_ok h
  obtain ⟨hloginURL, hreply, rfl⟩ := of_send_ok hsend
  rw [length_sent_record] at hreply
  dsimp only at h
  cases hfwd : r.forward with
  | error e =>
      rw [hfwd] at h
      cases h
  | ok fwd =>
      rw [hfwd] at h
      cases h
      refine ⟨logged_enter fwd, hpageURL, hloginURL, by simp [hpage], r, fwd, hreply, hfwd, ?_⟩
      rw [length_sent_enter, length_sent_record, length_sent_record]

theorem exists_login (h : LoginAt cfg valid replies s.sent.length q) :
    ∃ s', login cfg valid replies s = .ok s' ∧ s'.logged = true ∧ s'.sent.length = q := by
  obtain ⟨hpageURL, hloginURL, hpage, r, fwd, hreply, hfwd, rfl⟩ := h
  obtain ⟨page, hpage⟩ := Option.ne_none_iff_exists'.mp hpage
  let s1 := s.record ⟨false, cfg.baseURL ++ "/login.html", s.st2, []⟩
  let s2 := s1.record ⟨true, cfg.baseURL ++ "/data/login", s1.st2,
    [("user", cfg.user), ("password", cfg.password)]⟩
  have hreply : replies s1.sent.length = some r := by rw [length_sent_record, hreply]
  refine ⟨enter cfg valid replies fwd s2, ?_, logged_enter fwd, ?_⟩
  · unfold login
    rw [send_ok hpageURL hpage]
    change (send valid replies true _ _ s1 >>= _) = _
    rw [send_ok hloginURL hreply]
    change (match r.forward with
      | .error e => .error ⟨e, s2⟩
      | .ok fwd => .ok (enter cfg valid replies fwd s2) : Except Failure Web) = _
    rw [hfwd]
  · rw [length_sent_enter, length_sent_record, length_sent_record]

theorem ensureLogin_of_logged (hs : s.logged = true) : ensureLogin cfg valid replies s = .ok s :=
  if_pos hs

theorem ensureLogin_of_not_logged (hs : ¬ s.logged = true) :
    ensureLogin cfg valid replies s = login cfg valid replies s := if_neg hs

theorem ensureLogin_ok (h : ensureLogin cfg valid replies s = .ok s') :
    s'.logged = true ∧ StartsAt cfg valid replies s s'.sent.length := by
  unfold StartsAt
  by_cases hs : s.logged = true
  · rw [ensureLogin_of_logged hs] at h
    cases h
    exact ⟨hs, by rw [if_pos hs]⟩
  · rw [ensureLogin_of_not_logged hs] at h
    rw [if_neg hs]
    exact login_ok h

theorem exists_ensureLogin (h : StartsAt cfg valid replies s p) :
    ∃ s', ensureLogin cfg valid replies s = .ok s' ∧ s'.logged = true ∧ s'.sent.length = p := by
  unfold StartsAt at h
  by_cases hs : s.logged = true
  · rw [if_pos hs] at h
    exact ⟨s, ensureLogin_of_logged hs, hs, h.symm⟩
  · rw [if_neg hs] at h
    rw [ensureLogin_of_not_logged hs]
    exact exists_login h

/-- Behind its login, a call goes on as one that is logged in. -/
theorem postData_of_login (h : ensureLogin cfg valid replies s = .ok s')
    (hs' : s'.logged = true) (path : String) :
    postData cfg valid replies path s = postData cfg valid replies path s' := by
  unfold postData
  rw [h, ensureLogin_of_logged hs']

/-- A backend that is logged in calls itself after a 401 and a login. -/
theorem postData_again (hs : s.logged = true)
    (h : postData cfg valid replies path s = .ok (.inl s')) :
    valid (cfg.baseURL ++ path) ∧ UnauthorizedAt replies s.sent.length ∧ s'.logged = true ∧
      LoginAt cfg valid replies (s.sent.length + 1) s'.sent.length := by
  obtain ⟨s1, hensure, h⟩ := exists_of_bind_ok h
  rw [ensureLogin_of_logged hs] at hensure
  cases hensure
  obtain ⟨⟨r, s2⟩, hsend, h⟩ := exists_of_bind_ok h
  obtain ⟨hurl, hreply, rfl⟩ := of_send_ok hsend
  dsimp only at h
  split_ifs at h with hread hstatus
  · obtain ⟨s3, hensure, h⟩ := exists_of_bind_ok h
    cases h
    rw [ensureLogin_of_not_logged Bool.false_ne_true] at hensure
    obtain ⟨hlogged, hlogin⟩ := login_ok hensure
    dsimp only at hlogin
    rw [length_sent_record] at hlogin
    exact ⟨hurl, ⟨r, hreply, by simpa using hread, hstatus⟩, hlogged, hlogin⟩
  · cases h

theorem exists_again (hs : s.logged = true) (hurl : valid (cfg.baseURL ++ path))
    (hdata : UnauthorizedAt replies s.sent.length)
    (hlogin : LoginAt cfg valid replies (s.sent.length + 1) q) :
    ∃ s', postData cfg valid replies path s = .ok (.inl s') ∧ s'.logged = true ∧
      s'.sent.length = q := by
  obtain ⟨r, hreply, hread, hstatus⟩ := hdata
  let s1 := s.record ⟨true, cfg.baseURL ++ path, s.st2, []⟩
  have hlogin : LoginAt cfg valid replies s1.sent.length q := by rwa [length_sent_record]
  obtain ⟨s', hs', hlogged, hlength⟩ := exists_login (s := { s1 with logged := false }) hlogin
  refine ⟨s', ?_, hlogged, hlength⟩
  unfold postData
  rw [ensureLogin_of_logged hs]
  change (send valid replies true _ _ s >>= _) = _
  rw [send_ok hurl hreply]
  change (if r.readFails (2 ^ 22) = true then _ else if r.status = 401 then
    ensureLogin cfg valid replies { s1 with logged := false } >>= _ else _) = _
  rw [hread, if_neg Bool.false_ne_true, if_pos hstatus,
    ensureLogin_of_not_logged Bool.false_ne_true, hs']
  rfl

/-- A backend that is logged in calls itself without end exactly when the BMC asks for it
without end. -/
theorem endlessFrom_iff (hs : s.logged = true) :
    EndlessFrom cfg valid replies path s.sent.length ↔
      ∀ r, ¬ Loop.Returns (postData cfg valid replies path) s r := by
  constructor
  · rintro ⟨hurl, data, hstart, hdata⟩ r
    have hagain (t : Web) (ht : t.logged = true ∧ ∃ n, t.sent.length = data n) :
        ∃ t', postData cfg valid replies path t = .ok (.inl t') ∧ t'.logged = true ∧
          ∃ n, t'.sent.length = data n := by
      obtain ⟨hlogged, n, hn⟩ := ht
      obtain ⟨hunauthorized, hlogin⟩ := hdata n
      rw [← hn] at hunauthorized hlogin
      obtain ⟨t', ht', hlogged', hlength⟩ := exists_again hlogged hurl hunauthorized hlogin
      exact ⟨t', ht', hlogged', n + 1, hlength⟩
    exact Loop.not_returns hagain ⟨hs, 0, hstart.symm⟩
  · intro h
    obtain ⟨t, hstart, hstep⟩ := Loop.exists_forever h
    have hlogged (n : Nat) : (t n).logged = true := by
      induction n with
      | zero => rw [hstart, hs]
      | succ n ih => exact (postData_again ih (hstep n)).2.2.1
    obtain ⟨hurl, -⟩ := postData_again (hlogged 0) (hstep 0)
    refine ⟨hurl, fun n => (t n).sent.length, congrArg (fun a => a.sent.length) hstart,
      fun n => ?_⟩
    obtain ⟨-, hunauthorized, -, hlogin⟩ := postData_again (hlogged n) (hstep n)
    exact ⟨hunauthorized, hlogin⟩

theorem endless_iff : Endless cfg valid replies path s ↔
    ∀ r, ¬ Loop.Returns (postData cfg valid replies path) s r := by
  constructor
  · rintro ⟨p, hstarts, hendless⟩ r hr
    obtain ⟨s', hensure, hlogged, rfl⟩ := exists_ensureLogin hstarts
    rw [Loop.returns_congr (postData_of_login hensure hlogged path)] at hr
    exact (endlessFrom_iff hlogged).mp hendless r hr
  · intro h
    cases hensure : ensureLogin cfg valid replies s with
    | error e =>
        have hround : postData cfg valid replies path s = .error e := by
          unfold postData
          rw [hensure]
          rfl
        exact (h _ (Loop.returns_fault hround)).elim
    | ok s' =>
        obtain ⟨hlogged, hstarts⟩ := ensureLogin_ok hensure
        refine ⟨_, hstarts, (endlessFrom_iff hlogged).mpr fun r hr => h r ?_⟩
        rwa [Loop.returns_congr (postData_of_login hensure hlogged path)]

/-- Whatever the BMC replies, a call of `postData` returns after finitely many requests, unless
each data request is answered with a 401 and each login after it succeeds. -/
theorem postData_returns_iff (cfg : Config) (valid : String → Bool)
    (replies : Nat → Option Response) (path : String) (s : Web) :
    (∃ r, Loop.Returns (postData cfg valid replies path) s r) ↔
      ¬ Endless cfg valid replies path s := by
  rw [endless_iff, not_forall_not]

/-- A BMC that accepts every login and answers every data request with a 401. -/
def refusing (n : Nat) : Option Response :=
  if n % 3 = 1 then
    some ⟨200, [0x3c, 0x61, 0x75, 0x74, 0x68, 0x52, 0x65, 0x73, 0x75, 0x6c, 0x74, 0x3e, 0x30, 0x3c,
      0x2f, 0x61, 0x75, 0x74, 0x68, 0x52, 0x65, 0x73, 0x75, 0x6c, 0x74, 0x3e], false⟩
  else if n % 3 = 2 then some ⟨401, [], false⟩
  else some ⟨200, [], false⟩

/-- A power query to such a BMC is sent again and again. -/
theorem postData_endless : ¬ ∀ (cfg : Config) (valid : String → Bool)
    (replies : Nat → Option Response) (path : String) (s : Web),
    ∃ r, Loop.Returns (postData cfg valid replies path) s r := by
  have haccepted : ∃ r, refusing 1 = some r ∧ r.forward = .ok [] := ⟨_, rfl, by decide⟩
  have hdata (n : Nat) : UnauthorizedAt refusing (3 * n + 2) := by
    have hn : (3 * n + 2) % 3 = 2 := by omega
    exact ⟨⟨401, [], false⟩, by simp [refusing, hn], rfl, rfl⟩
  have hlogin (n : Nat) : LoginAt ⟨"https://10.0.0.1", "admin", "secret"⟩ (fun _ => true) refusing
      (3 * n) (3 * n + 2) := by
    have hn : (3 * n) % 3 = 0 := by omega
    have hn1 : (3 * n + 1) % 3 = 1 := by omega
    obtain ⟨r, hr, hforward⟩ := haccepted
    refine ⟨rfl, rfl, by simp [refusing, hn], r, [], ?_, hforward, rfl⟩
    rw [← hr, refusing, if_pos hn1]
    rfl
  intro h
  obtain ⟨r, hr⟩ := h ⟨"https://10.0.0.1", "admin", "secret"⟩ (fun _ => true) refusing
    "/data?get=pwState" {}
  have hendless : Endless ⟨"https://10.0.0.1", "admin", "secret"⟩ (fun _ => true) refusing
      "/data?get=pwState" {} :=
    ⟨2, hlogin 0, rfl, fun n => 3 * n + 2, rfl, fun n => ⟨hdata n, hlogin (n + 1)⟩⟩
  exact endless_iff.mp hendless r hr

end Web

end Outband.Idrac
