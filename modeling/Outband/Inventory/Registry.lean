import Mathlib.Logic.Function.Basic
import Outband.Inventory.Config

/-!
# Opening the hosts

`provider.New` (`internal/provider`) looks up the factory of an entry and calls it.
`hosts.Open` (`internal/hosts/hosts.go`) does so for every entry in turn, passes over
those whose provider is not implemented, and stops at any other error. `main` hands it
the inventory and the default host that `Load` returns.

## Implementation notes

`quote` is the verb `%q`. What a factory returns is of any type `Client`; closing the
clients when `Open` fails is left out, as is the warning about an entry that is passed over.
-/

namespace Outband.Inventory

open Foundation

variable {Client : Type}

/-! ### Providers -/

/-- An error of a factory, and what `errors.Is` says about it and `ErrNotImplemented`. -/
structure Failure where
  text : String
  notImplemented : Bool
  deriving DecidableEq, Repr

/-- The registered factories. -/
abbrev Factories (Client : Type) := String → Option (HostConfig → Except Failure Client)

def Known (factories : Factories Client) (name : String) : Bool := (factories name).isSome

def New (quote : String → String) (factories : Factories Client) (cfg : HostConfig) :
    Except Failure Client :=
  match factories cfg.Provider with
  | none =>
      .error ⟨"unknown provider " ++ quote cfg.Provider ++ " for host " ++ quote cfg.ID, false⟩
  | some f => (f cfg).mapError fun err => { err with
      text := "provider " ++ quote cfg.Provider ++ " host " ++ quote cfg.ID ++ ": " ++ err.text }

/-- The factory of a provider that is not there yet. -/
def stubFactory (name : String) (_ : HostConfig) : Except Failure Client :=
  .error ⟨name ++ ": provider not implemented", true⟩

/-! ### The registry -/

structure Host (Client : Type) where
  ID : String
  Name : String
  Provider : String
  Address : String
  Port : Int
  User : String
  Password : String
  hasAMIKVM : Bool := false
  hasAMTKVM : Bool := false
  hasILOKVM : Bool := false
  kvmPort : Int := 0
  kvmTLS : Bool := false
  iloInsecure : Bool
  amtTLS : Bool
  sensorNames : GoMap String
  featureFlags : Option FeatureFlags
  Client : Client

/-- The host that `Open` makes of an entry and its client. -/
def newHost (cfg : HostConfig) (client : Client) : Host Client :=
  let h : Host Client := {
    ID := cfg.ID
    Name := cfg.Name
    Provider := cfg.Provider
    Address := cfg.Host
    Port := cfg.Port
    User := cfg.User
    Password := cfg.Password
    amtTLS := cfg.AMTTLS
    iloInsecure := cfg.ILOInsecureSkipVerify
    sensorNames := cfg.SensorNames
    featureFlags := cfg.Features
    Client := client }
  let h := if cfg.HasAMIKVM then { h with
    hasAMIKVM := true, kvmPort := cfg.KVMEndpoint.1, kvmTLS := cfg.KVMEndpoint.2 } else h
  let h := if cfg.HasAMTKVM then { h with
    hasAMTKVM := true, kvmPort := cfg.AMTKVMEndpoint.1, kvmTLS := cfg.AMTKVMEndpoint.2 } else h
  if cfg.ILORemoteConsole then { h with
    hasILOKVM := true, kvmPort := if h.kvmPort = 0 then 17990 else h.kvmPort } else h

structure Registry (Client : Type) where
  order : List String := []
  byID : String → Option (Host Client) := fun _ => none
  defaultID : String

namespace Registry

def Default (r : Registry Client) : Option (Host Client) := r.byID r.defaultID

def add (r : Registry Client) (cfg : HostConfig) (client : Client) : Registry Client :=
  { r with
    order := r.order ++ [cfg.ID]
    byID := Function.update r.byID cfg.ID (some (newHost cfg client)) }

end Registry

inductive OpenError
  | emptyInventory
  | factory (err : Failure)
  | noUsableHosts
  | defaultSkipped (id : String)
  | defaultNotFound (id : String)
  deriving DecidableEq, Repr

def OpenError.Error (quote : String → String) : OpenError → String
  | emptyInventory => "hosts: empty inventory"
  | factory err => err.text
  | noUsableHosts => "hosts: no usable hosts (all providers unimplemented or failed)"
  | defaultSkipped id =>
      "hosts: default host " ++ quote id ++ " skipped: provider not implemented"
  | defaultNotFound id => "hosts: default host " ++ quote id ++ " not found"

variable (new : HostConfig → Except Failure Client) (defaultID : String)

/-- The loop of `Open`, with `skippedDefault`. -/
def openEach (r : Registry Client) (skippedDefault : Bool) :
    List HostConfig → Except OpenError (Registry Client × Bool)
  | [] => .ok (r, skippedDefault)
  | cfg :: rest =>
      match new cfg with
      | .ok client => openEach (r.add cfg client) skippedDefault rest
      | .error err =>
          if err.notImplemented then
            openEach r (skippedDefault || (defaultID ≠ "" ∧ cfg.ID = defaultID)) rest
          else .error (.factory err)

def Open (cfgs : List HostConfig) : Except OpenError (Registry Client) :=
  if cfgs = [] then .error .emptyInventory
  else do
    let (r, skippedDefault) ← openEach new defaultID { defaultID } false cfgs
    if r.order = [] then .error .noUsableHosts
    else if skippedDefault then .error (.defaultSkipped defaultID)
    else
      let r := if r.defaultID = "" then { r with defaultID := r.order.headD "" } else r
      if (r.byID r.defaultID).isSome then .ok r else .error (.defaultNotFound r.defaultID)

/-! ### What `Open` returns -/

/-- The provider of an entry is implemented. -/
def Implemented (cfg : HostConfig) : Prop := ∃ client, new cfg = .ok client

instance (cfg : HostConfig) : Decidable (Implemented new cfg) :=
  match h : new cfg with
  | .ok client => .isTrue ⟨client, h⟩
  | .error _ => .isFalse fun ⟨client, h'⟩ => by rw [h] at h'; cases h'

/-- The factory of an entry has failed with `ErrNotImplemented`. -/
def NotImplemented (cfg : HostConfig) : Prop :=
  ∃ err, new cfg = .error err ∧ err.notImplemented = true

instance (cfg : HostConfig) : Decidable (NotImplemented new cfg) :=
  match h : new cfg with
  | .ok _ => .isFalse fun ⟨err, h', _⟩ => by rw [h] at h'; cases h'
  | .error err => decidable_of_iff (err.notImplemented = true)
      ⟨fun hnot => ⟨err, h, hnot⟩, fun ⟨err', h', hnot⟩ => by rw [h] at h'; cases h'; exact hnot⟩

/-- `Open` succeeds and its default is the first entry whose provider is implemented. -/
def OpensFirstUsable (cfgs : List HostConfig) : Prop :=
  ∃ r cfg client, Open new defaultID cfgs = .ok r ∧
    cfgs.find? (fun cfg => Implemented new cfg) = some cfg ∧ new cfg = .ok client ∧
    r.Default = some (newHost cfg client)

variable {new defaultID} {cfg : HostConfig} {cfgs before after : List HostConfig}
variable {client : Client}

theorem NotImplemented.not_implemented (h : NotImplemented new cfg) : ¬ Implemented new cfg := by
  rintro ⟨client, hclient⟩
  obtain ⟨err, herr, -⟩ := h
  rw [hclient] at herr
  cases herr

/-- Entries without a provider leave the registry as it is. -/
theorem openEach_notImplemented (r : Registry Client) (skippedDefault : Bool)
    (hbefore : ∀ h ∈ before, NotImplemented new h) (rest : List HostConfig) :
    openEach new defaultID r skippedDefault (before ++ rest) = openEach new defaultID r
      (skippedDefault || before.any fun cfg => defaultID ≠ "" ∧ cfg.ID = defaultID) rest := by
  induction before generalizing skippedDefault with
  | nil => simp
  | cons cfg before ih =>
      obtain ⟨⟨err, herr, hnot⟩, hbefore⟩ := List.forall_mem_cons.mp hbefore
      rw [List.cons_append, openEach, herr]
      dsimp only
      rw [if_pos hnot, ih _ hbefore, List.any_cons, Bool.or_assoc]

/-- Entries with other ids than the default come after those already there. -/
theorem openEach_spec (r : Registry Client) (skippedDefault : Bool)
    (hnew : ∀ h ∈ cfgs, Implemented new h ∨ NotImplemented new h) :
    ∃ r', openEach new defaultID r skippedDefault cfgs = .ok (r', skippedDefault ||
        cfgs.any fun h => ¬ Implemented new h ∧ defaultID ≠ "" ∧ h.ID = defaultID) ∧
      r'.defaultID = r.defaultID ∧ r.order <+: r'.order ∧
      ∀ id, (∀ h ∈ cfgs, h.ID ≠ id) → r'.byID id = r.byID id := by
  induction cfgs generalizing r skippedDefault with
  | nil => exact ⟨r, by simp [openEach], rfl, List.prefix_rfl, fun _ _ => rfl⟩
  | cons cfg rest ih =>
      obtain ⟨hcfg, hrest⟩ := List.forall_mem_cons.mp hnew
      rw [openEach]
      rcases hcfg with ⟨client, hclient⟩ | hcfg
      · obtain ⟨r', heach, hdefault, hprefix, hbyID⟩ := ih (r.add cfg client) skippedDefault hrest
        refine ⟨r', ?_, hdefault, (List.prefix_append _ _).trans hprefix, fun id hid => ?_⟩
        · have himplemented : Implemented new cfg := ⟨client, hclient⟩
          rw [hclient]
          dsimp only
          rw [heach, List.any_cons]
          simp [himplemented]
        · obtain ⟨hne, hid⟩ := List.forall_mem_cons.mp hid
          rw [hbyID id hid]
          exact Function.update_of_ne hne.symm _ _
      · have himplemented := hcfg.not_implemented
        obtain ⟨err, herr, hnot⟩ := hcfg
        obtain ⟨r', heach, hdefault, hprefix, hbyID⟩ := ih r _ hrest
        refine ⟨r', ?_, hdefault, hprefix, fun id hid => hbyID id fun h hh => hid h (.tail _ hh)⟩
        rw [herr]
        dsimp only
        rw [if_pos hnot, heach, List.any_cons, Bool.or_assoc]
        simp [himplemented]

/-- `Open` takes the first entry whose provider is implemented if no other default is given. -/
theorem Open_firstUsable (before : List HostConfig)
    (hnew : ∀ h ∈ before ++ cfg :: after, Implemented new h ∨ NotImplemented new h)
    (hdistinct : ((before ++ cfg :: after).map HostConfig.ID).Nodup) (hid : cfg.ID ≠ "")
    (hbefore : ∀ h ∈ before, NotImplemented new h) (hclient : new cfg = .ok client)
    (hdefault : defaultID = "" ∨ defaultID = cfg.ID) :
    ∃ r, Open new defaultID (before ++ cfg :: after) = .ok r ∧
      r.Default = some (newHost cfg client) := by
  have hother : ∀ h ∈ before ++ after, h.ID ≠ cfg.ID := by
    rw [List.map_append, List.map_cons, List.nodup_middle, ← List.map_append,
      List.nodup_cons] at hdistinct
    exact fun h hh heq => hdistinct.1 (List.mem_map.mpr ⟨h, hh, heq⟩)
  have hskip : ∀ h ∈ before ++ after, ¬ (defaultID ≠ "" ∧ h.ID = defaultID) := by
    rintro h hh ⟨hne, heq⟩
    exact hother h hh (heq.trans (hdefault.resolve_left hne))
  have hafter : ∀ h ∈ after, Implemented new h ∨ NotImplemented new h := fun h hh =>
    hnew h (List.mem_append_right _ (.tail _ hh))
  obtain ⟨r', heach, hid', ⟨order, horder⟩, hbyID⟩ :=
    openEach_spec (({ defaultID } : Registry Client).add cfg client) false hafter
  have hopen : openEach new defaultID { defaultID } false (before ++ cfg :: after) =
      .ok (r', false) := by
    have hbefore' : (before.any fun h => defaultID ≠ "" ∧ h.ID = defaultID) = false :=
      List.any_eq_false.mpr fun h hh => by simpa using hskip h (List.mem_append_left _ hh)
    have hafter' : (after.any fun h =>
        ¬ Implemented new h ∧ defaultID ≠ "" ∧ h.ID = defaultID) = false :=
      List.any_eq_false.mpr fun h hh => by
        simpa using fun _ => hskip h (List.mem_append_right _ hh)
    rw [openEach_notImplemented _ _ hbefore, hbefore', Bool.or_self, openEach, hclient]
    dsimp only
    rw [heach, hafter', Bool.or_self]
  have horder' : r'.order = cfg.ID :: order := horder.symm
  have hhost : r'.byID cfg.ID = some (newHost cfg client) := by
    rw [hbyID cfg.ID fun h hh => hother h (List.mem_append_right _ hh)]
    exact Function.update_self _ _ _
  rw [Open, if_neg (by simp), hopen]
  dsimp only [bind, Except.bind]
  rw [if_neg (by simp [horder']), if_neg Bool.false_ne_true, hid', horder']
  rcases hdefault with rfl | rfl
  · refine ⟨{ r' with defaultID := cfg.ID }, ?_, hhost⟩
    simp [Registry.add, hhost, horder']
  · refine ⟨r', ?_, ?_⟩
    · simp [Registry.add, hid, hid', hhost]
    · rw [Registry.Default, hid']
      exact hhost

/-- `Open` fails if the provider of the default host is not implemented. -/
theorem Open_defaultSkipped (hnew : ∀ h ∈ cfg :: after, Implemented new h ∨ NotImplemented new h)
    (hid : cfg.ID ≠ "") (hcfg : NotImplemented new cfg) :
    ∃ err, Open new cfg.ID (cfg :: after) = .error err := by
  obtain ⟨r', heach, -, -, -⟩ :=
    openEach_spec ({ defaultID := cfg.ID } : Registry Client) false hnew
  have hskipped : ((cfg :: after).any fun h =>
      ¬ Implemented new h ∧ cfg.ID ≠ "" ∧ h.ID = cfg.ID) = true := by
    simp [hcfg.not_implemented, hid]
  rw [Open, if_neg (List.cons_ne_nil _ _), heach, hskipped]
  dsimp only [bind, Except.bind]
  by_cases horder : r'.order = []
  · exact ⟨_, if_pos horder⟩
  · exact ⟨_, (if_neg horder).trans (if_pos rfl)⟩

/-- Without a default `Open` takes the first entry whose provider is implemented. -/
theorem Open_emptyDefault (hnew : ∀ h ∈ cfgs, Implemented new h ∨ NotImplemented new h)
    (hdistinct : (cfgs.map HostConfig.ID).Nodup) (hid : ∀ h ∈ cfgs, h.ID ≠ "")
    (husable : ∃ h ∈ cfgs, Implemented new h) : OpensFirstUsable new "" cfgs := by
  obtain ⟨cfg, hfind⟩ : ∃ cfg, cfgs.find? (fun cfg => Implemented new cfg) = some cfg := by
    obtain ⟨h, hh, himplemented⟩ := husable
    exact Option.isSome_iff_exists.mp (List.find?_isSome.mpr ⟨h, hh, by simpa using himplemented⟩)
  obtain ⟨himplemented, before, after, rfl, hbefore⟩ := List.find?_eq_some_iff_append.mp hfind
  obtain ⟨client, hclient⟩ : Implemented new cfg := by simpa using himplemented
  have hskipped : ∀ h ∈ before, NotImplemented new h := fun h hh =>
    (hnew h (List.mem_append_left _ hh)).resolve_left (by simpa using hbefore h hh)
  obtain ⟨r, hopen, hhost⟩ := Open_firstUsable before hnew hdistinct (hid cfg (by simp)) hskipped
    hclient (.inl rfl)
  exact ⟨r, cfg, client, hopen, hfind, hclient, hhost⟩

variable {lower : Char → Char} {settings loaded : Config} {source : Source}
variable {quote : String → String} {factories : Factories Client}

/-- With no default host configured, `main` opens the first host that is implemented as the default
if and only if that is the first host of the inventory. -/
theorem start_opensFirstUsable_iff (hdefault : settings.DefaultHost = "")
    (hload : Load lower settings source = .ok loaded)
    (hnew : ∀ h ∈ loaded.Hosts,
      Implemented (New quote factories) h ∨ NotImplemented (New quote factories) h) :
    OpensFirstUsable (New quote factories) loaded.DefaultHost loaded.Hosts ↔
      ∀ first ∈ loaded.Hosts.head?, Implemented (New quote factories) first := by
  obtain ⟨haccepted, hfirst⟩ := Load_spec hload
  obtain ⟨first, after, hhosts⟩ := List.exists_cons_of_ne_nil haccepted.ne_nil
  have hdefault' := hfirst hdefault first (by rw [hhosts, List.head?_cons]; rfl)
  have hid : first.ID ≠ "" := (haccepted.complete first (by simp [hhosts])).id_ne
  have hdistinct := haccepted.distinct
  rw [hhosts] at hnew hdistinct
  rw [hhosts, hdefault', List.head?_cons]
  constructor
  · rintro ⟨r, cfg, client, hopen, -⟩ _ ⟨⟩
    by_contra hno
    obtain ⟨err, herr⟩ := Open_defaultSkipped hnew hid
      ((hnew first List.mem_cons_self).resolve_left hno)
    rw [herr] at hopen
    cases hopen
  · intro himplemented
    obtain ⟨client, hclient⟩ := himplemented first rfl
    obtain ⟨r, hopen, hhost⟩ := Open_firstUsable [] hnew hdistinct hid (by simp) hclient (.inr rfl)
    have hfind : (first :: after).find? (fun cfg => Implemented (New quote factories) cfg) =
        some first :=
      List.find?_cons_of_pos (by simpa using ⟨client, hclient⟩)
    exact ⟨r, first, client, hopen, hfind, hclient, hhost⟩

/-- Two registered providers, one of which is a stub. -/
def twoProviders : Factories String := fun name =>
  if name = "ipmi" then some fun cfg => .ok cfg.ID
  else if name = "unimplemented" then some (stubFactory name)
  else none

def entry (id provider : String) : HostConfig :=
  { ID := id, Provider := provider, Host := "10.0.0.1", User := "root", Password := "x" }

/-- The provider of the second entry is not implemented. -/
theorem start_opensFirstUsable_stubSecond : ∃ loaded, Load Char.toLower { UIPass := "x" }
    (.hosts (.ok [entry "a" " IPMI", entry "b" "unimplemented"])) = .ok loaded ∧
    OpensFirstUsable (New id twoProviders) loaded.DefaultHost loaded.Hosts := by
  have htest : ((Load Char.toLower { UIPass := "x" } (.hosts (.ok [entry "a" " IPMI",
      entry "b" "unimplemented"]))).toOption.any fun loaded => decide (
        (∀ h ∈ loaded.Hosts, Implemented (New id twoProviders) h ∨
          NotImplemented (New id twoProviders) h) ∧
        ∀ first ∈ loaded.Hosts.head?, Implemented (New id twoProviders) first)) = true := by
    decide +kernel
  obtain ⟨loaded, hload, hnew, hfirst⟩ := exists_ok_of_any htest
  exact ⟨loaded, hload, (start_opensFirstUsable_iff rfl hload hnew).mpr hfirst⟩

/-- The provider of the first entry is not implemented. -/
theorem start_fails : ¬ ∀ settings source loaded, settings.DefaultHost = "" →
    Load Char.toLower settings source = .ok loaded →
    (∀ h ∈ loaded.Hosts, Known twoProviders h.Provider) →
    (∀ h ∈ loaded.Hosts, Implemented (New id twoProviders) h ∨
      NotImplemented (New id twoProviders) h) →
    (∃ h ∈ loaded.Hosts, Implemented (New id twoProviders) h) →
    OpensFirstUsable (New id twoProviders) loaded.DefaultHost loaded.Hosts := by
  have htest : ((Load Char.toLower { UIPass := "x" } (.hosts (.ok [entry "a" "unimplemented",
      entry "b" "ipmi"]))).toOption.any fun loaded => decide (
        (∀ h ∈ loaded.Hosts, Known twoProviders h.Provider) ∧
        (∀ h ∈ loaded.Hosts, Implemented (New id twoProviders) h ∨
          NotImplemented (New id twoProviders) h) ∧
        (∃ h ∈ loaded.Hosts, Implemented (New id twoProviders) h) ∧
        (Open (New id twoProviders) loaded.DefaultHost loaded.Hosts).toOption.isNone)) = true := by
    decide +kernel
  obtain ⟨loaded, hload, hknown, hnew, husable, hopen⟩ := exists_ok_of_any htest
  intro hall
  obtain ⟨r, _, _, hr, -⟩ := hall _ _ loaded rfl hload hknown hnew husable
  rw [hr] at hopen
  cases hopen

end Outband.Inventory
