import Outband.Amiweb.Client
import Outband.Foundation.Decimal
import Outband.Kvm.Ivtp

/-!
# Connecting to an AMI console

`Connect` (`internal/kvm/client.go`) logs in to the web interface, dials the video port
that the launch arguments name, and has the BMC validate the token. On the ways out
behind a fetch that succeeds it logs out; a connection that is made keeps the web session
until it is closed.

## Implementation notes

`dial` is the network: what a connection to a port delivers until the deadline of the
handshake, and whether the first packet can be written. The answer to the second write
is not looked at. `md5` is the hash of the standard library. An argument has no white
space around it, so that `Sscanf` has none to skip.
-/

namespace Outband.Kvm.Ivtp

open Foundation Amiweb

/-! ### The handshake -/

def opStopSession : BitVec 8 := 25

def opResumeRedirection : BitVec 8 := 14

def opValidateVideo : BitVec 8 := 34

def opValidateVideoResp : BitVec 8 := 35

def sessionTokenLen : Nat := 16

structure Conn where
  input : Bytes
  writable : Bool := true
  deriving DecidableEq, Repr

inductive HandshakeError
  /-- `send validate: %w` -/
  | send
  /-- `handshake read: %w` -/
  | read (err : ReadLoopError)
  /-- `read validate body: %w` -/
  | body (err : ReadLoopError)
  /-- `session rejected by BMC (status %d body=%v)` -/
  | rejected (status : BitVec 16) (body : Bytes)
  /-- `BMC refused session (stop, status %d)` -/
  | refused (status : BitVec 16)
  /-- `skip handshake msg %d: %w` -/
  | skip (typ : BitVec 8) (err : ReadLoopError)
  deriving DecidableEq, Repr

/-- `buildValidatePacket`, with the hash of the token. -/
def buildValidatePacket (hash : Bytes) : Bytes :=
  (Header.mk opValidateVideo (BitVec.ofNat 32 sessionTokenLen) 0).marshal ++
    (hash ++ List.replicate sessionTokenLen 0).take sessionTokenLen

/-- One turn of the loop of `handshake`: it returns the status of a session that is validated, and
what has not been read. -/
def handshakeTurn (input : Bytes) : Except HandshakeError (Bytes ⊕ BitVec 8 × Bytes) :=
  match readHeader input with
  | .error e => .error (.read e)
  | .ok (h, input) =>
      if h.typ = opValidateVideoResp then
        match readFull h.size.toNat input with
        | .error e => .error (.body e)
        | .ok (body, input) =>
            let status := body.headD (h.status.setWidth 8)
            if status = 0 then .error (.rejected h.status body) else .ok (.inr (status, input))
      else if h.typ = opStopSession then .error (.refused h.status)
      else
        match discard h.size.toNat input with
        | .error e => .error (.skip h.typ e)
        | .ok input => .ok (.inl input)

theorem length_of_readHeader {input rest : Bytes} {h : Header}
    (hread : readHeader input = .ok (h, rest)) : rest.length < input.length := by
  unfold readHeader readFull at hread
  split at hread
  case isTrue hle =>
    cases hread
    rw [HeaderSize] at hle
    rw [List.length_drop, HeaderSize]
    omega
  case isFalse => split at hread <;> cases hread

/-- A packet that is skipped has been read. -/
theorem length_of_handshakeTurn {input rest : Bytes}
    (h : handshakeTurn input = .ok (.inl rest)) : rest.length < input.length := by
  unfold handshakeTurn at h
  cases hread : readHeader input with
  | error e =>
      rw [hread] at h
      cases h
  | ok r =>
      obtain ⟨header, behind⟩ := r
      have hlt := length_of_readHeader hread
      rw [hread] at h
      dsimp only at h
      split_ifs at h
      · cases hbody : readFull header.size.toNat behind with
        | error e =>
            rw [hbody] at h
            cases h
        | ok body =>
            rw [hbody] at h
            dsimp only at h
            split_ifs at h
            cases h
      · rw [discard] at h
        split_ifs at h
        cases h
        rw [List.length_drop]
        omega

/-- The loop of `handshake`, which ends, as it has read all packets at some time. -/
def validate (input : Bytes) : Except HandshakeError (BitVec 8 × Bytes) :=
  (Loop.run handshakeTurn (input.length + 1) input).get
    (Loop.run_isSome List.length (fun _ _ => length_of_handshakeTurn) input)

variable (md5 : Bytes → Bytes)

/-- What has been written to the connection, and what has not been read from it. -/
def handshake (conn : Conn) (token : Text) : Except HandshakeError (Bytes × Bytes) :=
  let pkt := buildValidatePacket (md5 (bytes token))
  if ¬ conn.writable then .error .send
  else
    match validate conn.input with
    | .error e => .error e
    | .ok (_, rest) => .ok (pkt ++ (Header.mk opResumeRedirection 0 0).marshal, rest)

/-! ### The connection -/

def digitOf : Rune → Option Nat
  | .char c => digitVal c
  | .stray _ => none

/-- The number at the front of a text. -/
def scanDigits (p : Text) : Option Nat :=
  let digits := (p.takeWhile fun r => (digitOf r).isSome).filterMap digitOf
  if digits = [] then none else some (ofDigitsMsb 10 digits)

/-- `fmt.Sscanf` with the verb `%d`. -/
def scanInt (p : Text) : Option Int :=
  let n : Option Int :=
    match p with
    | .char '+' :: p => (scanDigits p).map Int.ofNat
    | .char '-' :: p => (scanDigits p).map fun n => -Int.ofNat n
    | p => (scanDigits p).map Int.ofNat
  n.filter fun n => -2 ^ 63 ≤ n ∧ n < 2 ^ 63

structure Options where
  Host : String
  Port : Int := 0
  TLS : Bool := false
  User : String

inductive ConnectError
  | fetch (err : FetchError)
  /-- `launch jnlp: no -kvmtoken in response (parsed %d args)` -/
  | noToken (args : Nat)
  /-- `dial video port: %w` -/
  | dial
  | handshake (err : HandshakeError)
  deriving DecidableEq, Repr

structure Client where
  sent : Bytes
  input : Bytes
  webHost : String
  webCookie : Text
  webToken : Text
  webArgs : Args

/-- The port that the launch arguments name, or else the one that is configured. -/
def videoPort (opts : Options) (args : Args) : Int :=
  let port := if opts.Port = 0 then 7578 else opts.Port
  match scanInt (args.get (lit "kvmport")) with
  | none => port
  | some n => if 0 < n then n else port

/-- The cookie that the video connection keeps. -/
def videoCookie (args : Args) (cookie : Text) : Text :=
  if args.get (lit "webcookie") = [] then cookie else args.get (lit "webcookie")

variable (isLetter : Rune → Bool) (bmc : Bmc) (dial : String → Int → Bool → Option Conn)

def Connect (opts : Options) (password : String) (l : Ledger Text) :
    Except ConnectError Client × Ledger Text :=
  match FetchLaunchArgs isLetter bmc opts.Host opts.User password l with
  | (.error err, l) => (.error (.fetch err), l)
  | (.ok (args, cookie), l) =>
      let token := args.get (lit "kvmtoken")
      if token = [] then (.error (.noToken args.rows.length), Logout cookie l)
      else
        let webcookie := videoCookie args cookie
        match dial opts.Host (videoPort opts args) opts.TLS with
        | none => (.error .dial, Logout webcookie l)
        | some conn =>
            match handshake md5 conn token with
            | .error err => (.error (.handshake err), Logout webcookie l)
            | .ok (sent, input) =>
                (.ok { sent, input, webHost := opts.Host, webCookie := webcookie,
                       webToken := token, webArgs := args }, l)

/-- `Close` also closes the socket. -/
def Client.Close (c : Client) (l : Ledger Text) : Client × Ledger Text :=
  ({ c with webCookie := [] }, Logout c.webCookie l)

/-! ### What is logged out -/

/-- The cookie that a console logs out, whether it is connected or not. -/
def consoleCookie (args : Args) (cookie : Text) : Text :=
  if args.get (lit "kvmtoken") = [] then cookie else videoCookie args cookie

variable {md5 isLetter bmc dial} {opts : Options} {password : String} {args : Args} {cookie : Text}

/-- The launch arguments decide which cookie is logged out in the end. -/
theorem final_of_handsOut (h : HandsOut isLetter bmc opts.Host opts.User password args cookie)
    (l : Ledger Text) :
    finalLedger (fun c l => (Client.Close c l).2) (Connect md5 isLetter bmc dial opts password l) =
      Logout (consoleCookie args cookie) (l.create bmc.created) := by
  simp only [Connect, FetchLaunchArgs_of_handsOut h, consoleCookie]
  split_ifs with htoken
  · rfl
  · cases dial opts.Host (videoPort opts args) opts.TLS with
    | none => rfl
    | some conn =>
        dsimp only
        cases handshake md5 conn (args.get (lit "kvmtoken")) with
        | error err => rfl
        | ok r => rfl

/-- A console that gets no launch arguments logs nothing out. -/
theorem final_of_not_handsOut
    (h : ∀ args cookie, ¬ HandsOut isLetter bmc opts.Host opts.User password args cookie)
    (l : Ledger Text) :
    finalLedger (fun c l => (Client.Close c l).2) (Connect md5 isLetter bmc dial opts password l) =
      l.create bmc.created := by
  obtain ⟨err, hfetch⟩ := FetchLaunchArgs_of_not_handsOut (l := l) h
  simp only [Connect, hfetch]
  rfl

/-- The session is the one that the console logs out: the replies hand out its cookie, which is
not empty. -/
def LoggedOut (isLetter : Rune → Bool) (bmc : Bmc) (opts : Options) (password : String)
    (session : Text) : Prop :=
  session ≠ [] ∧ ∃ args cookie, HandsOut isLetter bmc opts.Host opts.User password args cookie ∧
    session = consoleCookie args cookie

/-- A console leaves no session behind if and only if it logs out whatever is created. -/
theorem leavesNothing_iff :
    LeavesNothing (fun c l => (Client.Close c l).2)
        (Connect md5 isLetter bmc dial opts password {}) ↔
      ∀ session ∈ bmc.created, LoggedOut isLetter bmc opts password session := by
  by_cases h : ∃ args cookie, HandsOut isLetter bmc opts.Host opts.User password args cookie
  · obtain ⟨args, cookie, h⟩ := h
    rw [LeavesNothing, final_of_handsOut h, Ledger.create_nil, Logout]
    have hsame : ∀ session, LoggedOut isLetter bmc opts password session ↔
        session ≠ [] ∧ session = consoleCookie args cookie := by
      intro session
      refine and_congr_right fun _ => ⟨?_, fun heq => ⟨args, cookie, h, heq⟩⟩
      rintro ⟨args', cookie', h', rfl⟩
      obtain ⟨rfl, rfl⟩ := h.unique h'
      rfl
    split_ifs with hempty
    · rw [Ledger.settled_nil]
      refine forall₂_congr fun session _ => ?_
      rw [hsame, hempty]
      exact ⟨False.elim, fun hne => hne.1 hne.2⟩
    · rw [Ledger.release_create, Ledger.settled_singleton]
      refine forall₂_congr fun session _ => ?_
      rw [hsame]
      exact ⟨fun heq => ⟨heq ▸ hempty, heq⟩, And.right⟩
  · have hnone : ∀ args cookie,
        ¬ HandsOut isLetter bmc opts.Host opts.User password args cookie :=
      fun args cookie hhands => h ⟨args, cookie, hhands⟩
    rw [LeavesNothing, final_of_not_handsOut hnone, Ledger.create_nil, Ledger.settled_nil]
    refine forall₂_congr fun session _ => ⟨False.elim, ?_⟩
    rintro ⟨-, args, cookie, hhands, -⟩
    exact hnone args cookie hhands

end Outband.Kvm.Ivtp
