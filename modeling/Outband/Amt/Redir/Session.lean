import Outband.Foundation.Bytes
import Outband.Foundation.Loop
import Outband.Foundation.Segments

/-!
# The AMT redirection handshake

`session` (`internal/amt/redir/session.go`) opens a KVM redirection session and
authenticates it with Digest, then hands the socket over to the RFB client.
`readCmd` cuts the server's bytes into messages through one refill buffer;
`handshake` answers each message until a KVM-accepted message ends the loop.

## Implementation notes

Go strings are byte strings. The hash, the random bytes of the client nonces and
the outcome of each write belong to the host and are parameters. `rand.Read` does
not fail, it ends the program instead, so that `randomHex` never falls back on the
time. `trace` is the history of the session: the messages it read and the bytes it
wrote, oldest first. The code keeps no such record.
-/

namespace Outband.Amt.Redir

open Foundation

abbrev Bytes := List (BitVec 8)

/-- The bytes of a Go string constant. -/
def str (s : String) : Bytes := s.toList.map fun c => BitVec.ofNat 8 c.toNat

def authURI : Bytes := str "/RedirectionService"

/-- What the session takes from the machine it runs on. `random n` and `writeErr n`
answer the calls made after `n` writes. -/
structure Host where
  md5Sum : Bytes → Bytes
  random : Nat → Fin 16 → BitVec 8
  writeErr : Nat → Option IoError

/-- One entry of the history. -/
inductive Event
  | wrote (bytes : Bytes)
  | got (cmd : BitVec 8) (payload : Bytes)
  deriving DecidableEq, Repr

structure Session where
  conn : Source (BitVec 8) 4096
  user : Bytes
  pass : Bytes
  buf : Bytes := []
  authed : Bool := false
  trace : List Event := []

/-- The errors of the handshake, one for each message the code can return. -/
inductive HandshakeError
  | io (err : IoError)
  | writeStart (err : IoError)
  | writeAuthQuery (err : IoError)
  | writeKvmReady (err : IoError)
  | emptyStartReply
  | startStatus (status : BitVec 8)
  | unexpectedCmd (cmd : BitVec 8)
  | unknownOpcode (cmd : BitVec 8)
  | authReplyTooShort (len : Nat)
  | authReplyTruncated
  | noDigest
  | challengeTruncated
  | challengeOverflow
  | authStatus (status authType : BitVec 8)
  deriving DecidableEq, Repr

/-! ### Byte layouts -/

/-- `binary.LittleEndian.Uint32` of the first four bytes. -/
def leUint32 (b : Bytes) : Nat :=
  (b[0]?.getD 0).toNat + 256 * (b[1]?.getD 0).toNat + 65536 * (b[2]?.getD 0).toNat +
    16777216 * (b[3]?.getD 0).toNat

def appendU32LE (b : Bytes) (v : Nat) : Bytes :=
  b ++ [BitVec.ofNat 8 v, BitVec.ofNat 8 (v / 256), BitVec.ofNat 8 (v / 65536),
    BitVec.ofNat 8 (v / 16777216)]

/-- A string behind its length in one byte. -/
def appendLP (b s : Bytes) : Bytes := b ++ BitVec.ofNat 8 s.length :: s

/-- `hex.EncodeToString`. -/
def hexEncode (b : Bytes) : Bytes :=
  b.flatMap fun x => [hexDigit (x.toNat / 16), hexDigit (x.toNat % 16)]
where
  hexDigit (d : Nat) : BitVec 8 := BitVec.ofNat 8 (if d < 10 then 48 + d else 87 + d)

def Host.randomHex (E : Host) (n : Nat) : Bytes := hexEncode (List.ofFn (E.random n))

def md5hex (E : Host) (s : Bytes) : Bytes := hexEncode (E.md5Sum s)

/-- One length-prefixed field of a challenge, and what follows it. -/
def readLP (b : Bytes) : Except HandshakeError (Bytes × Bytes) :=
  match b with
  | [] => .error .challengeTruncated
  | l :: rest =>
      if rest.length < l.toNat then .error .challengeOverflow
      else .ok (rest.take l.toNat, rest.drop l.toNat)

/-- The fields of a Digest challenge. -/
structure Challenge where
  realm : Bytes
  nonce : Bytes
  qop : Bytes

def parseDigestChallenge (authData : Bytes) (withQOP : Bool) :
    Except HandshakeError Challenge := do
  let (realm, rest) ← readLP authData
  let (nonce, rest) ← readLP rest
  if withQOP then
    let (qop, _) ← readLP rest
    pure { realm, nonce, qop }
  else pure { realm, nonce, qop := [] }

/-- The empty Digest request that asks for a challenge. -/
def digestRequest (user : Bytes) : Bytes :=
  appendU32LE [0x13, 0, 0, 0, 0x04] (user.length + authURI.length + 8) ++
    BitVec.ofNat 8 user.length :: user ++ [0, 0] ++
    BitVec.ofNat 8 authURI.length :: authURI ++ [0, 0, 0, 0]

def snc : Bytes := str "00000002"

/-- The digest of the credentials under a challenge and a client nonce. -/
def digestOf (E : Host) (user pass : Bytes) (authType : BitVec 8) (c : Challenge)
    (cnonce : Bytes) : Bytes :=
  let extra := if authType = 4 then snc ++ str ":" ++ cnonce ++ str ":" ++ c.qop ++ str ":" else []
  md5hex E (md5hex E (user ++ str ":" ++ c.realm ++ str ":" ++ pass) ++ str ":" ++ c.nonce ++
    str ":" ++ extra ++ md5hex E (str "POST:" ++ authURI))

/-- The Digest response to a challenge. -/
def digestResponse (E : Host) (user pass : Bytes) (authType : BitVec 8) (c : Challenge)
    (cnonce : Bytes) : Bytes :=
  let digest := digestOf E user pass authType c cnonce
  let totallen := user.length + c.realm.length + c.nonce.length + authURI.length +
    cnonce.length + snc.length + digest.length + 7 +
    if authType = 4 then c.qop.length + 1 else 0
  let buf := appendU32LE [0x13, 0, 0, 0, authType] totallen
  let buf := [user, c.realm, c.nonce, authURI, cnonce, snc, digest].foldl appendLP buf
  if authType = 4 then appendLP buf c.qop else buf

namespace Session

/-! ### The refill buffer -/

/-- Everything the server has sent and the session has not consumed. -/
def stream (s : Session) : Bytes := s.buf ++ s.conn.stream

/-- Read from the socket until the buffer holds `n` bytes. -/
def fill (s : Session) (n : Nat) : Except IoError Session :=
  if n ≤ s.buf.length then .ok s
  else
    match h : s.conn.read 4096 with
    | (got, none, conn) => { s with conn, buf := s.buf ++ got }.fill n
    | (got, some err, conn) =>
        if err = .eof ∧ n ≤ (s.buf ++ got).length then .ok { s with conn, buf := s.buf ++ got }
        else .error err
termination_by s.conn.segments.length
decreasing_by exact Source.segments_lt_of_read h

def consume (s : Session) (n : Nat) : Session := { s with buf := s.buf.drop n }

/-- Take a message of `need` bytes off the buffer; its payload follows the opcode. -/
def take (s : Session) (cmd : BitVec 8) (need : Nat) :
    Except HandshakeError (BitVec 8 × Bytes × Session) := do
  let s ← (s.fill need).mapError .io
  pure (cmd, (s.buf.take need).drop 1, s.consume need)

/-- The next message of the server. -/
def readCmd (s : Session) : Except HandshakeError (BitVec 8 × Bytes × Session) := do
  let s ← (s.fill 1).mapError .io
  let cmd := s.buf[0]?.getD 0
  if cmd = 0x11 then
    let s ← (s.fill 13).mapError .io
    s.take cmd (13 + (s.buf[12]?.getD 0).toNat)
  else if cmd = 0x14 then
    let s ← (s.fill 9).mapError .io
    s.take cmd (9 + leUint32 (s.buf.drop 5))
  else if cmd = 0x41 then
    let s ← (s.fill 8).mapError .io
    pure (cmd, [], s.consume 8)
  else .error (.unknownOpcode cmd)

/-! ### The handshake -/

/-- The number of writes made so far. -/
def writes (s : Session) : Nat :=
  s.trace.countP fun | .wrote _ => true | .got _ _ => false

/-- `conn.Write`. -/
def write (E : Host) (s : Session) (bytes : Bytes) : Except IoError Session :=
  match E.writeErr s.writes with
  | some err => .error err
  | none => .ok { s with trace := s.trace ++ [.wrote bytes] }

def handleAuthReply (E : Host) (s : Session) (payload : Bytes) :
    Except HandshakeError Session :=
  let status := payload[0]?.getD 0
  let authType := payload[3]?.getD 0
  let authDataLen := leUint32 (payload.drop 4)
  let authData := (payload.drop 8).take authDataLen
  if payload.length < 8 then .error (.authReplyTooShort payload.length)
  else if payload.length < 8 + authDataLen then .error .authReplyTruncated
  else if authType = 0 then
    if 4 ∈ authData then (s.write E (digestRequest s.user)).mapError .io
    else .error .noDigest
  else if (authType = 3 ∨ authType = 4) ∧ status = 1 then
    match parseDigestChallenge authData (authType = 4) with
    | .error e => .error e
    | .ok c =>
        (s.write E (digestResponse E s.user s.pass authType c (E.randomHex s.writes))).mapError .io
  else if status = 0 then .ok { s with authed := true }
  else .error (.authStatus status authType)

/-- The control message sent once the session is authenticated. -/
def sendReady (E : Host) (s : Session) : Except HandshakeError Session :=
  if s.authed then (s.write E [0x40, 0, 0, 0, 0, 0, 0, 0]).mapError .writeKvmReady
  else .ok s

/-- The answer to one message: the session goes on, or the handshake is complete. -/
def dispatch (E : Host) (s : Session) (cmd : BitVec 8) (payload : Bytes) :
    Except HandshakeError (Session ⊕ Session) :=
  if cmd = 0x11 then
    match payload with
    | [] => .error .emptyStartReply
    | status :: _ =>
        if status ≠ 0 then .error (.startStatus status)
        else ((s.write E [0x13, 0, 0, 0, 0, 0, 0, 0, 0]).mapError .writeAuthQuery).map .inl
  else if cmd = 0x14 then (s.handleAuthReply E payload >>= sendReady E).map .inl
  else if cmd = 0x41 then .ok (.inr s)
  else .error (.unexpectedCmd cmd)

/-- Record a message as read. -/
def note (s : Session) (cmd : BitVec 8) (payload : Bytes) : Session :=
  { s with trace := s.trace ++ [.got cmd payload] }

/-- One turn of the handshake's loop. A failed turn keeps the session for its history. -/
def turn (E : Host) (s : Session) : Except (HandshakeError × Session) (Session ⊕ Session) :=
  match s.readCmd with
  | .error e => .error (e, s)
  | .ok (cmd, payload, s) =>
      let s := s.note cmd payload
      (s.dispatch E cmd payload).mapError (·, s)

def startMessage : Bytes := [0x10, 0x01, 0x00, 0x00, 0x4b, 0x56, 0x4d, 0x52]

/-- `handshake` ends with outcome `r`: the session it leaves, or its error. -/
def Handshake (E : Host) (s : Session) (r : Except (HandshakeError × Session) Session) : Prop :=
  match s.write E startMessage with
  | .error e => r = .error (.writeStart e, s)
  | .ok s => Loop.Returns (turn E) s r

end Session

/-- The socket with the left-over handshake bytes in front. -/
structure BufConn where
  raw : Source (BitVec 8) 4096
  buf : Bytes

namespace BufConn

def Read (c : BufConn) (k : Nat) : Bytes × Option IoError × BufConn :=
  if c.buf ≠ [] then (c.buf.take k, none, { c with buf := c.buf.drop k })
  else
    let (got, err, raw) := c.raw.read k
    (got, err, { c with raw })

end BufConn

/-- The session `Dial` starts the handshake with. -/
def newSession (conn : Source (BitVec 8) 4096) (user pass : Bytes) : Session :=
  { conn, user, pass }

/-- What `Dial` returns after a handshake that succeeded. -/
def dialled (s : Session) : BufConn := { raw := s.conn, buf := s.buf }

end Outband.Amt.Redir
