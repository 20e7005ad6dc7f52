import Outband.Ilo.Console
import Outband.Ilo.Session

/-!
# Connecting to an iLO console

`Connect` (`internal/ilo/rc/client.go`) logs in, asks for the port of the console, and
opens the console channel with `dialChannel` (`internal/ilo/rc/console.go`), which takes
the console over if it is busy. On the ways out behind the login it closes the session;
a client keeps it until it is closed.

## Implementation notes

`dial` is the network: what a connection to a port delivers until its deadline, and which
writes to it succeed.
-/

namespace Outband.Ilo.Web

open Foundation
open Foundation.Utf8 (Bytes encode)

/-! ### The console channel -/

structure Conn where
  input : Bytes
  writable : Nat → Bool := fun _ => true

def helloByte : BitVec 8 := 0x50

def respDenied : BitVec 8 := 0x51

def respAuth : BitVec 8 := 0x52

def respBusyA : BitVec 8 := 0x53

def respBusyB : BitVec 8 := 0x59

def respNoLicense : BitVec 8 := 0x57

def respNoSessions : BitVec 8 := 0x58

def connectSeize : BitVec 16 := 0x0055

def cmdConsole : BitVec 16 := 0x2001

inductive ChannelError
  | dial
  /-- `rc hello: %w` -/
  | hello
  /-- `rc hello: got 0x%02x want 0x50` -/
  | helloByte (b : BitVec 8)
  | write
  /-- `rc auth: %w` -/
  | auth
  | seize
  /-- `rc seize refused (0x%02x)` -/
  | seizeRefused (b : BitVec 8)
  /-- `rc access denied` -/
  | accessDenied
  /-- `rc no remote-console license` -/
  | noLicense
  /-- `rc no free sessions` -/
  | noSessions
  /-- `rc unexpected auth 0x%02x` -/
  | unexpectedAuth (b : BitVec 8)
  deriving DecidableEq, Repr

def XORSessionKey (token encKeyHex : Bytes) (obfuscate : Bool) : Bytes :=
  if ¬ obfuscate ∨ encKeyHex = [] then token
  else token.mapIdx fun i b => b ^^^ encKeyHex.getD (i % encKeyHex.length) 0

/-- Two bytes, least significant first. -/
def littleEndian (v : BitVec 16) : Bytes := [v.setWidth 8, (v >>> (8 : Nat)).setWidth 8]

/-- The flag in the upper byte of a command for a key that is obfuscated. -/
def keyFlag (info : RcInfo) : BitVec 16 :=
  if info.EncryptKey then if info.EncryptVMKey then 0x4000 else 0x8000 else 0

def buildConnectRequest (cmd : BitVec 16) (sessionKey : String) (info : RcInfo) : Bytes :=
  littleEndian (cmd ||| keyFlag info) ++
    XORSessionKey (encode sessionKey) (encode info.EncKeyHex) info.EncryptKey

/-- Answer the first byte of a reply with an error. -/
def refusal (resp : BitVec 8) : ChannelError :=
  if resp = respDenied then .accessDenied
  else if resp = respNoLicense then .noLicense
  else if resp = respNoSessions then .noSessions
  else .unexpectedAuth resp

/-- The channel, and what has not been read from its connection. -/
def dialChannel (conn : Option Conn) (sessionKey : String) (info : RcInfo) (cmd : BitVec 16) :
    Except ChannelError (Console.Channel × Bytes) :=
  let req := buildConnectRequest cmd sessionKey info
  let opened (sent input : Bytes) : Console.Channel × Bytes :=
    ({ Console.dialChannel info.EncKey with sent }, input)
  match conn with
  | none => .error .dial
  | some conn =>
      match conn.input with
      | [] => .error .hello
      | hello :: input =>
          if hello ≠ helloByte then .error (.helloByte hello)
          else if ¬ conn.writable 0 then .error .write
          else
            match input with
            | [] => .error .auth
            | resp :: input =>
                if resp = respAuth then .ok (opened req input)
                else if resp = respBusyA ∨ resp = respBusyB then
                  if ¬ conn.writable 1 then .error .write
                  else
                    match input with
                    | [] => .error .seize
                    | resp :: input =>
                        if resp ≠ respAuth then .error (.seizeRefused resp)
                        else .ok (opened (req ++ littleEndian connectSeize) input)
                else .error (refusal resp)

/-! ### The client -/

structure Options where
  Host : String
  HTTPSPort : Int := 0
  User : String
  Password : String
  Insecure : Bool := false

inductive ConnectError
  /-- `ilo/rc: host and user required` -/
  | required
  | login (err : LoginError)
  | rcInfo (err : RcInfoError)
  | channel (err : ChannelError)
  deriving DecidableEq, Repr

structure Client where
  sess : Session
  ch : Console.Channel
  input : Bytes
  Status : String

variable (unmarshal : Bytes → Option JsonMap) (bmc : Bmc) (dial : String → Int → Option Conn)

/-- The port of the web server. -/
def Options.port (opts : Options) : Int := if opts.HTTPSPort = 0 then 443 else opts.HTTPSPort

def Connect (opts : Options) (l : Ledger String) : Except ConnectError Client × Ledger String :=
  if opts.Host = "" ∨ opts.User = "" then (.error .required, l)
  else
    match Login unmarshal bmc opts.Host opts.port opts.User opts.Password opts.Insecure l with
    | (.error err, l) => (.error (.login err), l)
    | (.ok sess, l) =>
        match FetchRcInfo unmarshal bmc sess with
        | .error err => (.error (.rcInfo err), (sess.Close l).2)
        | .ok info =>
            match dialChannel (dial opts.Host info.RCPort) sess.SessionKey info cmdConsole with
            | .error err => (.error (.channel err), (sess.Close l).2)
            | .ok (ch, input) =>
                (.ok { sess, ch, input,
                       Status := info.ILOFQDN ++ " rc_port=" ++ toString info.RCPort }, l)

/-- `Close` also closes the socket. -/
def Client.Close (c : Client) (l : Ledger String) : Client × Ledger String :=
  let (sess, l) := c.sess.Close l
  ({ c with sess }, l)

/-! ### What is logged out -/

/-- The session is the one that the login makes: its reply grants it. -/
def LoggedOut (unmarshal : Bytes → Option JsonMap) (bmc : Bmc) (opts : Options)
    (session : String) : Prop :=
  Grants unmarshal bmc opts.Host opts.port opts.User opts.Password opts.Insecure session

variable {unmarshal bmc dial} {opts : Options} {key : String}

/-- With its key a session is logged out in the end, whether a client is made or not. -/
theorem final_of_grants (hnames : ¬ (opts.Host = "" ∨ opts.User = ""))
    (h : LoggedOut unmarshal bmc opts key) (l : Ledger String) :
    finalLedger (fun c l => (Client.Close c l).2) (Connect unmarshal bmc dial opts l) =
      (l.create bmc.created).release key := by
  have hclose : ∀ l, (Session.Close
      { newSession opts.Host opts.port opts.Insecure with SessionKey := key } l).2 =
        l.release key := by
    intro l
    simp only [Session.Close, if_neg h.key_ne]
  simp only [Connect, if_neg hnames, Login_of_grants h]
  cases FetchRcInfo unmarshal bmc
      { newSession opts.Host opts.port opts.Insecure with SessionKey := key } with
  | error err => exact hclose _
  | ok info =>
      dsimp only
      cases dialChannel (dial opts.Host info.RCPort) key info cmdConsole with
      | error err => exact hclose _
      | ok r => exact hclose _

/-- Without a session nothing is logged out. -/
theorem final_of_not_grants (hnames : ¬ (opts.Host = "" ∨ opts.User = ""))
    (h : ∀ key, ¬ LoggedOut unmarshal bmc opts key) (l : Ledger String) :
    finalLedger (fun c l => (Client.Close c l).2) (Connect unmarshal bmc dial opts l) =
      l.create bmc.created := by
  obtain ⟨err, hlogin⟩ := Login_of_not_grants (l := l) h
  simp only [Connect, if_neg hnames, hlogin]
  rfl

/-- A console leaves no session behind if and only if it logs out whatever is created. Without the
name of a host and of a user no login is made. -/
theorem leavesNothing_iff :
    LeavesNothing (fun c l => (Client.Close c l).2) (Connect unmarshal bmc dial opts {}) ↔
      (opts.Host ≠ "" → opts.User ≠ "" →
        ∀ session ∈ bmc.created, LoggedOut unmarshal bmc opts session) := by
  by_cases hnames : opts.Host = "" ∨ opts.User = ""
  · refine iff_of_true ?_ fun hhost huser => absurd hnames (not_or.mpr ⟨hhost, huser⟩)
    simp only [LeavesNothing, finalLedger, Connect, if_pos hnames]
    exact fun _ hmem => absurd hmem List.not_mem_nil
  · have hcurry : (opts.Host ≠ "" → opts.User ≠ "" →
        ∀ session ∈ bmc.created, LoggedOut unmarshal bmc opts session) ↔
        ∀ session ∈ bmc.created, LoggedOut unmarshal bmc opts session :=
      ⟨fun h => h (not_or.mp hnames).1 (not_or.mp hnames).2, fun h _ _ => h⟩
    rw [hcurry]
    by_cases h : ∃ key, LoggedOut unmarshal bmc opts key
    · obtain ⟨key, h⟩ := h
      rw [LeavesNothing, final_of_grants hnames h, Ledger.create_nil, Ledger.release_create,
        Ledger.settled_singleton]
      refine forall₂_congr fun session _ => ⟨fun heq => heq ▸ h, fun h' => ?_⟩
      exact Grants.unique h' h
    · have hnone : ∀ key, ¬ LoggedOut unmarshal bmc opts key := fun key hkey => h ⟨key, hkey⟩
      rw [LeavesNothing, final_of_not_grants hnames hnone, Ledger.create_nil, Ledger.settled_nil]
      exact forall₂_congr fun session _ => ⟨False.elim, hnone session⟩

end Outband.Ilo.Web
