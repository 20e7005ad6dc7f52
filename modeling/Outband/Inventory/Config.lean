import Mathlib.Data.List.DropRight
import Outband.Foundation.Checked
import Outband.Foundation.KeyedTable

/-!
# The host inventory

`Load` (`internal/config/config.go`) reads the inventory from one of three places,
normalises its entries, checks the settings for the login and then the inventory, and
chooses the first host as the default if none is set. The model starts from the
entries that the JSON or YAML parser gives.

## Implementation notes

`lower` is `unicode.ToLower`, and `quote` is the verb `%q`. A Go map is a table of
its entries in the order in which a `range` visits them; a nil map is an empty one.
The listening address, the data directory and the polling intervals are only passed
on and are left out.
-/

namespace Outband.Inventory

open Foundation

/-! ### Text -/

/-- The white space of `unicode.IsSpace`. -/
def isSpace (c : Char) : Bool :=
  c.toNat ∈ [0x09, 0x0a, 0x0b, 0x0c, 0x0d, 0x20, 0x85, 0xa0, 0x1680, 0x2028, 0x2029, 0x202f, 0x205f,
    0x3000] ∨ 0x2000 ≤ c.toNat ∧ c.toNat ≤ 0x200a

def TrimSpace (s : String) : String :=
  String.ofList ((s.toList.dropWhile isSpace).rdropWhile isSpace)

def ToLower (lower : Char → Char) (s : String) : String := String.ofList (s.toList.map lower)

/-! ### Entries -/

structure IPMIOptions where
  CipherSuite : Option Int := none

structure KVMOptions where
  Port : Int := 0
  TLS : Bool := false
  deriving DecidableEq, Repr

structure AMTKVMOptions where
  Port : Int := 0
  TLS : Bool := false

structure AMTOptions where
  TLS : Bool := false
  KVM : Option AMTKVMOptions := none

structure ILOOptions where
  InsecureSkipVerify : Option Bool := none
  RemoteConsole : Option Bool := none

structure IDRACOptions where
  InsecureSkipVerify : Option Bool := none
  Transport : String := ""

structure FeatureFlags where
  Sensors : Option Bool := none
  SEL : Option Bool := none
  Power : Option Bool := none
  Console : Option Bool := none

/-- A map with string keys. -/
abbrev GoMap (α : Type) := KeyedTable (Prod.fst : String × α → String)

/-- One entry of the inventory. -/
structure HostConfig where
  ID : String := ""
  Name : String := ""
  Provider : String := ""
  Host : String := ""
  Port : Int := 0
  User : String := ""
  Password : String := ""
  SensorNames : GoMap String := .empty
  Features : Option FeatureFlags := none
  IPMI : Option IPMIOptions := none
  KVM : Option KVMOptions := none
  AMT : Option AMTOptions := none
  ILO : Option ILOOptions := none
  IDRAC : Option IDRACOptions := none
  /-- The JSON text for each provider. -/
  Options : GoMap String := .empty

namespace HostConfig

variable (h : HostConfig)

def AMTTLS : Bool := h.AMT.any AMTOptions.TLS

def ILOInsecureSkipVerify : Bool := (h.ILO.bind ILOOptions.InsecureSkipVerify).getD true

def ILORemoteConsole : Bool :=
  if h.Provider ≠ "ilo" then false else (h.ILO.bind ILOOptions.RemoteConsole).getD true

def HasAMIKVM : Bool := h.KVM.isSome

def HasAMTKVM : Bool := (h.AMT.bind AMTOptions.KVM).isSome

/-- The port and the TLS flag of the `kvm` nest. -/
def KVMEndpoint : Int × Bool :=
  match h.KVM with
  | none => (0, false)
  | some kvm => (if kvm.Port = 0 then 7578 else kvm.Port, kvm.TLS)

/-- The port and the TLS flag of the `amt.kvm` nest. -/
def AMTKVMEndpoint : Int × Bool :=
  match h.AMT.bind AMTOptions.KVM with
  | none => (0, false)
  | some kvm =>
      let tls := if kvm.Port = 0 ∧ kvm.TLS = false then h.AMTTLS else kvm.TLS
      (if kvm.Port = 0 then if tls then 16995 else 16994 else kvm.Port, tls)

end HostConfig

/-! ### Errors -/

inductive ConfigError
  | unreadable (text : String)
  | inHosts (err : ConfigError)
  | inHostsFile (path : String) (err : ConfigError)
  | addressMissing
  | passwordMissing
  | emptyInventory
  | partialOIDC
  | noAuth
  | noHosts
  | idRequired (i : Nat)
  | duplicateID (id : String)
  | addressRequired (id : String)
  | userRequired (id : String)
  | passwordRequired (id : String)
  | providerRequired (id : String)
  | conflictingKVM (id : String) (parts : List String)
  | misplacedAMI (id : String)
  | misplacedAMT (id : String)
  | defaultNotFound (id : String)
  | unknownProvider (id provider : String)
  deriving DecidableEq, Repr

def ConfigError.Error (quote : String → String) : ConfigError → String
  | unreadable text => text
  | inHosts err => "OUTBAND_HOSTS: " ++ err.Error quote
  | inHostsFile path err => "hosts file " ++ path ++ ": " ++ err.Error quote
  | addressMissing =>
      "BMC host is required (OUTBAND_HOSTS, OUTBAND_HOSTS_FILE, or OUTBAND_BMC_HOST)"
  | passwordMissing => "BMC password is required (OUTBAND_BMC_PASS or host inventory password)"
  | emptyInventory => "host inventory is empty"
  | partialOIDC => "OIDC is partially configured: set OUTBAND_OIDC_ISSUER, " ++
      "OUTBAND_OIDC_CLIENT_ID, and OUTBAND_OIDC_REDIRECT_URL together (client secret is optional)"
  | noAuth => "at least one UI auth method is required: OUTBAND_UI_PASS and/or complete OIDC " ++
      "(OUTBAND_OIDC_ISSUER, OUTBAND_OIDC_CLIENT_ID, OUTBAND_OIDC_REDIRECT_URL)"
  | noHosts => "at least one host is required"
  | idRequired i => "hosts[" ++ toString i ++ "]: id is required"
  | duplicateID id => "duplicate host id " ++ quote id
  | addressRequired id => "host " ++ quote id ++ ": address (host) is required"
  | userRequired id => "host " ++ quote id ++ ": user is required"
  | passwordRequired id => "host " ++ quote id ++ ": password is required"
  | providerRequired id => "host " ++ quote id ++ ": provider is required"
  | conflictingKVM id parts => "host " ++ quote id ++ ": conflicting KVM backends (" ++
      ", ".intercalate parts ++ "); use only one"
  | misplacedAMI id => "host " ++ quote id ++ ": top-level kvm is AMI IVTP and only valid for " ++
      "provider \"ipmi\" (use amt.kvm or ilo.remote_console)"
  | misplacedAMT id => "host " ++ quote id ++ ": amt.kvm is only valid for provider \"amt\""
  | defaultNotFound id => "default host " ++ quote id ++ " not found in inventory"
  | unknownProvider id provider =>
      "host " ++ quote id ++ ": unknown provider " ++ quote provider

/-! ### Reading the entries -/

def sanitizeID (host : String) : String :=
  let id := (TrimSpace host).toList.filterMap fun r =>
    if r.isAlphanum ∨ r = '-' ∨ r = '_' then some r
    else if r = '.' ∨ r = ':' then some '-'
    else none
  if id = [] then "default" else String.ofList id

/-- The port of a provider when none is given. -/
def defaultPort (h : HostConfig) : Int :=
  if h.Provider = "ipmi" then 623
  else if h.Provider = "amt" then if h.AMTTLS then 16993 else 16992
  else if h.Provider = "ilo" then 443
  else if h.Provider = "idrac" then 443
  else 0

/-- Copy a map with its keys rewritten, without the entries that `keep` rejects. -/
def copyMap (key value : String → String) (m : GoMap String) : GoMap String :=
  if m.rows = [] then m
  else m.rows.foldl (fun cp kv =>
    if key kv.1 = "" ∨ value kv.2 = "" then cp else cp.upsert (key kv.1, value kv.2)) .empty

variable (lower : Char → Char)

/-- The body of the loop of `normalizeHosts`. -/
def normalizeHost (h : HostConfig) : HostConfig :=
  let h := { h with
    ID := TrimSpace h.ID
    Name := TrimSpace h.Name
    Provider := ToLower lower (TrimSpace h.Provider)
    Host := TrimSpace h.Host
    User := TrimSpace h.User }
  let h := if h.Provider = "" then { h with Provider := "ipmi" } else h
  let h := if h.Port = 0 then { h with Port := defaultPort h } else h
  let h := if h.ID = "" then { h with ID := sanitizeID h.Host } else h
  let h := if h.Name = "" then { h with Name := h.Host } else h
  let h := if h.Provider = "ipmi" ∧ h.KVM = none then { h with KVM := some { Port := 7578 } } else h
  { h with
    SensorNames := copyMap TrimSpace TrimSpace h.SensorNames
    Options := copyMap (fun k => ToLower lower (TrimSpace k)) id h.Options }

def normalizeHosts (hosts : List HostConfig) : Except ConfigError (List HostConfig) :=
  if hosts = [] then .error .emptyInventory else .ok (hosts.map (normalizeHost lower))

/-! ### Loading -/

structure OIDCConfig where
  Issuer : String := ""
  ClientID : String := ""
  ClientSecret : String := ""
  RedirectURL : String := ""

namespace OIDCConfig

def Enabled (o : OIDCConfig) : Bool :=
  TrimSpace o.Issuer ≠ "" ∧ TrimSpace o.ClientID ≠ "" ∧ TrimSpace o.RedirectURL ≠ ""

def anySet (o : OIDCConfig) : Bool :=
  TrimSpace o.Issuer ≠ "" ∨ TrimSpace o.ClientID ≠ "" ∨ TrimSpace o.ClientSecret ≠ "" ∨
    TrimSpace o.RedirectURL ≠ ""

end OIDCConfig

structure Config where
  UIPass : String := ""
  DefaultHost : String := ""
  Hosts : List HostConfig := []
  OIDC : OIDCConfig := {}
  RetentionDays : Int := 7
  KVMPort : Int := 7578
  KVMTLS : Bool := false

def Config.withDefault (cfg : Config) (id : String) : Config :=
  if cfg.DefaultHost = "" then { cfg with DefaultHost := id } else cfg

/-- Where the inventory comes from: `OUTBAND_HOSTS`, a file, or the settings for a single host. A
parser that fails gives the text of its error. -/
inductive Source
  | hosts (parsed : Except String (List HostConfig))
  | file (path : String) (parsed : Except String (List HostConfig))
  | legacy (host : String) (port : Int) (user pass : String) (cipher : Int)

def parseHosts (parsed : Except String (List HostConfig)) : Except ConfigError (List HostConfig) :=
  match parsed with
  | .error text => .error (.unreadable text)
  | .ok hosts => normalizeHosts lower hosts

def loadHosts (cfg : Config) : Source → Except ConfigError (List HostConfig)
  | .hosts parsed => (parseHosts lower parsed).mapError .inHosts
  | .file path parsed => (parseHosts lower parsed).mapError (.inHostsFile path)
  | .legacy host port user pass cipher =>
      if TrimSpace host = "" then .error .addressMissing
      else if pass = "" then .error .passwordMissing
      else normalizeHosts lower [{
        ID := sanitizeID host
        Name := host
        Provider := "ipmi"
        Host := host
        Port := port
        User := user
        Password := pass
        IPMI := some { CipherSuite := some cipher }
        KVM := some { Port := cfg.KVMPort, TLS := cfg.KVMTLS } }]

def validateAuth (cfg : Config) : Except ConfigError Unit :=
  if cfg.OIDC.anySet ∧ ¬ cfg.OIDC.Enabled then .error .partialOIDC
  else if cfg.UIPass = "" ∧ ¬ cfg.OIDC.Enabled then .error .noAuth
  else .ok ⟨⟩

def validateHostKVM (h : HostConfig) : Except ConfigError Unit :=
  let parts := (if h.HasAMIKVM then ["top-level kvm (AMI IVTP)"] else []) ++
    (if h.HasAMTKVM then ["amt.kvm"] else []) ++
    (if h.ILORemoteConsole then ["ilo.remote_console"] else [])
  if 1 < parts.length then .error (.conflictingKVM h.ID parts)
  else if h.HasAMIKVM ∧ h.Provider ≠ "ipmi" then .error (.misplacedAMI h.ID)
  else if h.HasAMTKVM ∧ h.Provider ≠ "amt" then .error (.misplacedAMT h.ID)
  else .ok ⟨⟩

/-- The fields of an entry that must not be empty, and its nests. -/
def validateHost (h : HostConfig) : Except ConfigError Unit :=
  if h.Host = "" then .error (.addressRequired h.ID)
  else if h.User = "" then .error (.userRequired h.ID)
  else if h.Password = "" then .error (.passwordRequired h.ID)
  else if h.Provider = "" then .error (.providerRequired h.ID)
  else validateHostKVM h

/-- The loop of `validateHosts` from entry `i` on, which returns the ids it has seen. -/
def validateEach (seen : List String) (i : Nat) : List HostConfig → Except ConfigError (List String)
  | [] => .ok seen
  | h :: rest =>
      if h.ID = "" then .error (.idRequired i)
      else if h.ID ∈ seen then .error (.duplicateID h.ID)
      else do
        validateHost h
        validateEach (h.ID :: seen) (i + 1) rest

def validateHosts (cfg : Config) : Except ConfigError Config :=
  match cfg.Hosts with
  | [] => .error .noHosts
  | first :: _ => do
      let seen ← validateEach [] 0 cfg.Hosts
      let cfg := cfg.withDefault first.ID
      if cfg.DefaultHost ∈ seen then .ok cfg else .error (.defaultNotFound cfg.DefaultHost)

/-- `Load`, with the flags and the environment already in `cfg`. -/
def Load (cfg : Config) (source : Source) : Except ConfigError Config := do
  let hosts ← loadHosts lower cfg source
  let cfg := { cfg with Hosts := hosts }
  validateAuth cfg
  validateHosts { cfg with RetentionDays := if cfg.RetentionDays < 1 then 7 else cfg.RetentionDays }

/-- The check that `main` makes next. -/
def ValidateProviders (known : String → Bool) : List HostConfig → Except ConfigError Unit
  | [] => .ok ⟨⟩
  | h :: rest =>
      if known h.Provider then ValidateProviders known rest
      else .error (.unknownProvider h.ID h.Provider)

/-! ### What `Load` accepts -/

variable {lower} {cfg cfg' : Config} {h : HostConfig} {hosts : List HostConfig}
variable {seen seen' : List String} {i : Nat}

/-- The fields of an entry that has been accepted. -/
structure Complete (h : HostConfig) : Prop where
  id_ne : h.ID ≠ ""
  host_ne : h.Host ≠ ""
  user_ne : h.User ≠ ""
  password_ne : h.Password ≠ ""
  provider_ne : h.Provider ≠ ""
  kvm : validateHostKVM h = .ok ⟨⟩

/-- An inventory that has been accepted. -/
structure Accepted (cfg : Config) : Prop where
  ne_nil : cfg.Hosts ≠ []
  distinct : (cfg.Hosts.map HostConfig.ID).Nodup
  complete : ∀ h ∈ cfg.Hosts, Complete h
  default_mem : cfg.DefaultHost ∈ cfg.Hosts.map HostConfig.ID

theorem complete_of_validateHost (hid : h.ID ≠ "") (hvalid : validateHost h = .ok ⟨⟩) :
    Complete h := by
  rw [validateHost] at hvalid
  split_ifs at hvalid with hhost huser hpassword hprovider
  exact ⟨hid, hhost, huser, hpassword, hprovider, hvalid⟩

theorem validateEach_spec (hseen : seen.Nodup) (hvalid : validateEach seen i hosts = .ok seen') :
    seen' = (hosts.map HostConfig.ID).reverse ++ seen ∧ seen'.Nodup ∧ ∀ h ∈ hosts, Complete h := by
  induction hosts generalizing seen i with
  | nil =>
      cases hvalid
      exact ⟨rfl, hseen, by simp⟩
  | cons h rest ih =>
      rw [validateEach] at hvalid
      split_ifs at hvalid with hid hmem
      obtain ⟨⟨⟩, hhost, hrest⟩ := exists_of_bind_ok hvalid
      obtain ⟨heq, hnodup, hcomplete⟩ := ih (List.nodup_cons.mpr ⟨hmem, hseen⟩) hrest
      refine ⟨by simp [heq], hnodup, List.forall_mem_cons.mpr ⟨?_, hcomplete⟩⟩
      exact complete_of_validateHost hid hhost

theorem hosts_withDefault (cfg : Config) (id : String) :
    (cfg.withDefault id).Hosts = cfg.Hosts := by
  rw [Config.withDefault]
  split <;> rfl

theorem validateHosts_spec (hvalid : validateHosts cfg = .ok cfg') :
    Accepted cfg' ∧ cfg'.Hosts = cfg.Hosts ∧
      (cfg.DefaultHost = "" → ∀ first ∈ cfg.Hosts.head?, cfg'.DefaultHost = first.ID) := by
  rw [validateHosts] at hvalid
  split at hvalid
  case h_1 => cases hvalid
  case h_2 first rest hhosts =>
    obtain ⟨seen, heach, hdefault⟩ := exists_of_bind_ok hvalid
    obtain ⟨hseen, hnodup, hcomplete⟩ := validateEach_spec List.nodup_nil heach
    rw [List.append_nil] at hseen
    subst hseen
    dsimp only at hdefault
    split at hdefault
    case isFalse => cases hdefault
    case isTrue hmem =>
      cases hdefault
      have hsame := hosts_withDefault cfg first.ID
      refine ⟨⟨?_, ?_, ?_, ?_⟩, hsame, ?_⟩
      · rw [hsame, hhosts]
        exact List.cons_ne_nil _ _
      · rw [hsame]
        exact List.nodup_reverse.mp hnodup
      · rwa [hsame]
      · rw [hsame]
        exact List.mem_reverse.mp hmem
      · intro hempty head hhead
        rw [hhosts, List.head?_cons, Option.mem_some_iff] at hhead
        rw [Config.withDefault, if_pos hempty, ← hhead]

/-- What `Load` returns is complete and without duplicates, and its default is the first entry if
none was set. -/
theorem Load_spec {source : Source} (hload : Load lower cfg source = .ok cfg') :
    Accepted cfg' ∧
      (cfg.DefaultHost = "" → ∀ first ∈ cfg'.Hosts.head?, cfg'.DefaultHost = first.ID) := by
  obtain ⟨hosts, -, hload⟩ := exists_of_bind_ok hload
  obtain ⟨⟨⟩, -, hvalid⟩ := exists_of_bind_ok hload
  obtain ⟨haccepted, hhosts, hdefault⟩ := validateHosts_spec hvalid
  exact ⟨haccepted, hhosts ▸ hdefault⟩

end Outband.Inventory
