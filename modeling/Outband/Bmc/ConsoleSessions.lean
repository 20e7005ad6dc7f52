import Outband.Ilo.Connect
import Outband.Kvm.Connect

/-!
# Web sessions of a console connection

The consoles of the AMI and of the iLO BMCs both start with a web session, of which a
BMC has few. A connection that fails is to log its session out, and one that is made
keeps it until the client is closed. Neither client knows the session when a request that
it makes on the way to its cookie or key fails, and then logs nothing out.
-/

namespace Outband.Bmc

open Foundation

/-- Neither console leaves a web session behind if and only if every session that is created is the
one that it logs out. For the AMI console the login and the launch file have to be answered with the
cookie of the session, and for the iLO console the login with its key and without a denial. -/
theorem connect_settles_iff (md5 : Kvm.Ivtp.Bytes → Kvm.Ivtp.Bytes) (isLetter : Amiweb.Rune → Bool)
    (ami : Amiweb.Bmc) (dial : String → Int → Bool → Option Kvm.Ivtp.Conn)
    (opts : Kvm.Ivtp.Options) (password : String)
    (unmarshal : Utf8.Bytes → Option Ilo.Web.JsonMap) (ilo : Ilo.Web.Bmc)
    (dialIlo : String → Int → Option Ilo.Web.Conn) (optsIlo : Ilo.Web.Options) :
    (LeavesNothing (fun c l => (Kvm.Ivtp.Client.Close c l).2)
        (Kvm.Ivtp.Connect md5 isLetter ami dial opts password {}) ↔
      ∀ session ∈ ami.created, Kvm.Ivtp.LoggedOut isLetter ami opts password session) ∧
    (LeavesNothing (fun c l => (Ilo.Web.Client.Close c l).2)
        (Ilo.Web.Connect unmarshal ilo dialIlo optsIlo {}) ↔
      (optsIlo.Host ≠ "" → optsIlo.User ≠ "" →
        ∀ session ∈ ilo.created, Ilo.Web.LoggedOut unmarshal ilo optsIlo session)) :=
  ⟨Kvm.Ivtp.leavesNothing_iff, Ilo.Web.leavesNothing_iff⟩

/-- An AMI BMC that creates the session `abc`, and answers with `file` when it is asked for the
launch file. -/
def amiBmc (file : Amiweb.Response) : Amiweb.Bmc where
  created := [Amiweb.lit "abc"]
  answer r :=
    if r.post then some ⟨200, Utf8.encode "'SESSION_COOKIE' : 'abc'", false⟩ else some file

/-- A launch file with a token and a cookie. -/
def launchFile (cookie : String) : Amiweb.Response :=
  ⟨200, Utf8.encode ("<argument>-kvmtoken</argument><argument>T</argument>" ++
    "<argument>-webcookie</argument><argument>" ++ cookie ++ "</argument>"), false⟩

/-- A video port that validates every token. -/
def videoPort : String → Int → Bool → Option Kvm.Ivtp.Conn := fun _ _ _ =>
  some { input := (Kvm.Ivtp.Header.mk Kvm.Ivtp.opValidateVideoResp 1 0).marshal ++ [1] }

/-- An iLO that creates the session `abc`, and whose replies are `grant` and `info`. -/
def iloBmc (grant info : Utf8.Bytes) : Ilo.Web.Bmc where
  created := ["abc"]
  answer r := some ⟨200, if r.post then grant else info⟩

/-- A grant without the privilege for the remote console. -/
def denialBody : Utf8.Bytes :=
  Utf8.encode "\x7b\"session_key\":\"abc\",\"remote_cons_priv\":0\x7d"

def denial : Ilo.Web.JsonMap :=
  ⟨[("session_key", .string "abc"), ("remote_cons_priv", .number 0)], by decide⟩

def readDenial (body : Utf8.Bytes) : Option Ilo.Web.JsonMap :=
  if body = denialBody then some denial else none

example : LeavesNothing (fun c l => (Kvm.Ivtp.Client.Close c l).2)
    (Kvm.Ivtp.Connect id (fun _ => false) (amiBmc (launchFile "abc")) videoPort
      { Host := "10.0.0.1", User := "root" } "x" {}) := by
  decide +kernel

/-- The session stays when the launch file cannot be fetched, when the launch file has another
cookie, and when the privilege is denied. -/
theorem connect_leaves_session :
    ¬ LeavesNothing (fun c l => (Kvm.Ivtp.Client.Close c l).2)
        (Kvm.Ivtp.Connect id (fun _ => false) (amiBmc ⟨500, [], false⟩) videoPort
          { Host := "10.0.0.1", User := "root" } "x" {}) ∧
    ¬ LeavesNothing (fun c l => (Kvm.Ivtp.Client.Close c l).2)
        (Kvm.Ivtp.Connect id (fun _ => false) (amiBmc (launchFile "def")) videoPort
          { Host := "10.0.0.1", User := "root" } "x" {}) ∧
    ¬ LeavesNothing (fun c l => (Ilo.Web.Client.Close c l).2)
        (Ilo.Web.Connect readDenial (iloBmc denialBody []) (fun _ _ => none)
          { Host := "10.0.0.1", User := "root", Password := "x" } {}) := by
  decide +kernel

end Outband.Bmc
