import Outband.Amiweb.LaunchArgs
import Outband.Foundation.Ledger
import Outband.Foundation.Utf8

/-!
# Web sessions of an AMI BMC

`FetchLaunchArgs` and `Logout` (`internal/amiweb/client.go`). A login creates a web
session, and its reply carries the cookie of the session. The file for Java Web Start
is fetched with that cookie.

## Implementation notes

The BMC is a parameter: the sessions that it creates on the login request, each known
by its cookie, and its answer to each request. No other request creates a session. A
request that cannot be made and one that gets no answer are alike. A logout reaches the
BMC; its answer is not read.
-/

namespace Outband.Amiweb

open Foundation
open Foundation.Utf8 (Bytes encode decodeRune)

/-! ### Requests -/

/-- Runes of bytes of which the first `skip` belong to a rune that has been read. -/
def textFrom : Nat → Bytes → Text
  | _, [] => []
  | 0, b :: rest =>
      let (r, width) := decodeRune b rest
      (if width = 1 ∧ 0x80 ≤ b.toNat then .stray b else .char (Char.ofNat r)) ::
        textFrom (width - 1) rest
  | skip + 1, _ :: rest => textFrom skip rest

/-- The text of a byte string. -/
def ofBytes (b : Bytes) : Text := textFrom 0 b

/-- The bytes of a text. -/
def bytes (v : Text) : Bytes :=
  v.flatMap fun
    | .char c => (String.utf8EncodeChar c).map UInt8.toBitVec
    | .stray b => [b]

def upperHex (n : Nat) : Char := Char.ofNat (if n < 10 then 48 + n else 55 + n)

/-- `url.QueryEscape` of one byte. -/
def escapeByte (b : BitVec 8) : List Char :=
  let c := Char.ofNat b.toNat
  if b.toNat < 0x80 ∧ (c.isAlphanum ∨ c ∈ ['-', '_', '.', '~']) then [c]
  else if c = ' ' then ['+']
  else ['%', upperHex (b.toNat / 16), upperHex (b.toNat % 16)]

def queryEscape (s : String) : String := String.ofList ((encode s).flatMap escapeByte)

structure Request where
  post : Bool
  url : String
  form : List (String × String) := []
  /-- The value of the cookie `SessionCookie`. -/
  cookie : Option Text := none
  deriving DecidableEq, Repr

/-- A reply; its body may break off. -/
structure Response where
  status : Nat
  body : Bytes
  broken : Bool := false
  deriving DecidableEq, Repr

structure Bmc where
  /-- The cookies of the sessions created on the login request. -/
  created : List Text
  answer : Request → Option Response

inductive HttpError
  | noReply
  | read
  /-- `HTTP %d` -/
  | status (code : Nat)
  deriving DecidableEq, Repr

/-- What `httpDo` makes of a reply: a body that breaks off behind its first byte is accepted. -/
def Response.page (r : Response) : Except HttpError Text :=
  let b := r.body.take (2 <<< 20)
  if b = [] ∧ r.broken then .error .read
  else if r.status ≠ 200 then .error (.status r.status)
  else .ok (ofBytes b)

def httpDo (bmc : Bmc) (request : Request) : Except HttpError Text :=
  match bmc.answer request with
  | none => .error .noReply
  | some r => r.page

/-! ### The cookie -/

/-- `\s` -/
def isBlank : Rune → Bool
  | .char c => c.toNat ∈ [0x09, 0x0a, 0x0c, 0x0d, 0x20]
  | .stray _ => false

/-- The single quote. -/
def quote : Rune := .char (Char.ofNat 0x27)

/-- What `reCookie` captures at the front of a text. -/
def cookieAt (text : Text) : Option Text := do
  let text ← (quote :: lit "SESSION_COOKIE" ++ [quote]).isPrefixOf? text
  let text ← (lit ":").isPrefixOf? (text.dropWhile isBlank)
  let text ← [quote].isPrefixOf? (text.dropWhile isBlank)
  if quote ∈ text then some (text.takeWhile (· ≠ quote)) else none

/-- What `reCookie` captures at its leftmost match. -/
def reCookie : Text → Option Text
  | [] => none
  | r :: text => (cookieAt (r :: text)).or (reCookie text)

/-! ### Sessions -/

inductive FetchError
  /-- `amiweb login: %w` -/
  | login (err : HttpError)
  /-- `amiweb login: no SESSION_COOKIE (bad credentials?)` -/
  | noCookie
  /-- `amiweb jnlp: %w` -/
  | jnlp (err : HttpError)
  /-- `amiweb jnlp: session_expired` -/
  | sessionExpired
  deriving DecidableEq, Repr

def createRequest (host user password : String) : Request where
  post := true
  url := "http://" ++ host ++ "/rpc/WEBSES/create.asp"
  form := [("WEBVAR_USERNAME", user), ("WEBVAR_PASSWORD", password)]

def jnlpRequest (host : String) (cookie : Text) : Request where
  post := false
  url := "http://" ++ host ++ "/Java/jviewer.jnlp?EXTRNIP=" ++ queryEscape host ++
    "&JNLPSTR=JViewer"
  cookie := some cookie

variable (isLetter : Rune → Bool) (bmc : Bmc)

def FetchLaunchArgs (host user password : String) (l : Ledger Text) :
    Except FetchError (Args × Text) × Ledger Text :=
  let l := l.create bmc.created
  match httpDo bmc (createRequest host user password) with
  | .error err => (.error (.login err), l)
  | .ok body =>
      match reCookie body with
      | none => (.error .noCookie, l)
      | some cookie =>
          match httpDo bmc (jnlpRequest host cookie) with
          | .error err => (.error (.jnlp err), l)
          | .ok body =>
              if lit "session_expired" <:+: body then (.error .sessionExpired, l)
              else (.ok (ParseJNLPArgs isLetter body cookie, cookie), l)

def Logout (cookie : Text) (l : Ledger Text) : Ledger Text :=
  if cookie = [] then l else l.release cookie

example : reCookie (lit "x 'SESSION_COOKIE' : 'abc' y") = some (lit "abc") := by decide

/-- The replies hand out the cookie and the launch arguments. -/
structure HandsOut (host user password : String) (args : Args) (cookie : Text) : Prop where
  login : ∃ body, httpDo bmc (createRequest host user password) = .ok body ∧
    reCookie body = some cookie
  jnlp : ∃ body, httpDo bmc (jnlpRequest host cookie) = .ok body ∧
    ¬ lit "session_expired" <:+: body ∧ args = ParseJNLPArgs isLetter body cookie

variable {isLetter bmc} {host user password : String} {args : Args} {cookie : Text}
  {l : Ledger Text}

/-- A fetch that succeeds has got what the replies hand out, and logs nothing out. -/
theorem FetchLaunchArgs_of_handsOut (h : HandsOut isLetter bmc host user password args cookie) :
    FetchLaunchArgs isLetter bmc host user password l =
      (.ok (args, cookie), l.create bmc.created) := by
  obtain ⟨⟨body, hbody, hcookie⟩, file, hfile, hfresh, rfl⟩ := h
  simp only [FetchLaunchArgs, hbody, hcookie, hfile, if_neg hfresh]

/-- A fetch that fails logs nothing out either. -/
theorem FetchLaunchArgs_of_not_handsOut
    (h : ∀ args cookie, ¬ HandsOut isLetter bmc host user password args cookie) :
    ∃ err, FetchLaunchArgs isLetter bmc host user password l =
      (.error err, l.create bmc.created) := by
  unfold FetchLaunchArgs
  cases hbody : httpDo bmc (createRequest host user password) with
  | error err => exact ⟨.login err, rfl⟩
  | ok body =>
      cases hcookie : reCookie body with
      | none => exact ⟨.noCookie, by simp only [hcookie]⟩
      | some cookie =>
          cases hfile : httpDo bmc (jnlpRequest host cookie) with
          | error err => exact ⟨.jnlp err, by simp only [hcookie, hfile]⟩
          | ok file =>
              by_cases hexpired : lit "session_expired" <:+: file
              · exact ⟨.sessionExpired, by simp only [hcookie, hfile, if_pos hexpired]⟩
              · exact absurd ⟨⟨body, hbody, hcookie⟩, file, hfile, hexpired, rfl⟩ (h _ cookie)

theorem HandsOut.unique {args' : Args} {cookie' : Text}
    (h : HandsOut isLetter bmc host user password args cookie)
    (h' : HandsOut isLetter bmc host user password args' cookie') :
    args = args' ∧ cookie = cookie' := by
  have heq := (FetchLaunchArgs_of_handsOut (l := {}) h).symm.trans (FetchLaunchArgs_of_handsOut h')
  simpa using heq

end Outband.Amiweb
