import Outband.Amt.Wsman

/-!
# Switching on the KVM of a management engine

`EnableKVM` and `clearKVMOptIn` of `internal/amt/kvm.go`. Four classes are read, and what is read
decides what is changed. `Allowed` says which request may follow which exchanges: an instance is
written back as it was read last, but for the properties that are meant to change, and the listener
comes last. It is proved of every request of every run, whatever the engine replies and even if
the run ends early.

## Implementation notes

`lower` is `unicode.ToLower`. The two lowest bits of the state of the redirection service are kept,
which are those of IDE and serial redirection.
-/

namespace Outband.Amt

open Foundation Wsman
open Bmc.EventLog (isUnsupportedClass)
open Utf8 (Bytes)

/-! ### The classes -/

def uriIPSKVMSetting : String :=
  "http://intel.com/wbem/wscim/1/ips-schema/1/IPS_KVMRedirectionSettingData"

def uriCIMKVMSAP : String :=
  "http://schemas.dmtf.org/wbem/wscim/1/cim-schema/2/CIM_KVMRedirectionSAP"

def uriAMTRedirectionSvc : String :=
  "http://intel.com/wbem/wscim/1/amt-schema/1/AMT_RedirectionService"

def uriIPSOptInService : String :=
  "http://intel.com/wbem/wscim/1/ips-schema/1/IPS_OptInService"

def redirectionService : Class := ⟨uriAMTRedirectionSvc, "AMT_RedirectionService"⟩

def kvmSAP : Class := ⟨uriCIMKVMSAP, "CIM_KVMRedirectionSAP"⟩

def kvmSetting : Class := ⟨uriIPSKVMSetting, "IPS_KVMRedirectionSettingData"⟩

def optInService : Class := ⟨uriIPSOptInService, "IPS_OptInService"⟩

/-- The classes that are read. -/
def classes : List Class := [redirectionService, kvmSetting, optInService, kvmSAP]

/-- The selectors of an instance of these classes. -/
def instanceKeys (fields : Fields) : Fields :=
  keySelectors fields ["Name", "CreationClassName", "SystemName", "SystemCreationClassName"]

/-- The selectors of a setting. -/
def settingKeys (fields : Fields) : Fields :=
  KeyedTable.empty.upsert ("InstanceID", fields.get "InstanceID")

/-- The texts agree up to the case of their ASCII letters. -/
def EqualFold (s t : String) : Bool := s.toList.map Char.toLower = t.toList.map Char.toLower

def kvmSAPEnabled (enabledState : Int) : Bool := enabledState = 2 ∨ enabledState = 6

/-- `32768 + (enabledState & 3)` -/
def newState (fields : Fields) : Int := 32768 + Atoi (fields.get "EnabledState") % 4

/-! ### The calls -/

section

variable (tokens : Bytes → List Token) (lower : Char → Char)

/-- Consent by the setting of the first instance. -/
def clearOptInPolicy (sets : List Fields) : Call (Except String Unit) := do
  match sets with
  | [] => return .ok ()
  | fields :: _ =>
      if EqualFold (fields.get "OptInPolicy") "true" then
        let fields := fields.set "OptInPolicy" "false"
        match ← putInstance tokens kvmSetting.uri kvmSetting.name fields (settingKeys fields) with
        | .error err =>
            return .error ("PUT IPS_KVMRedirectionSettingData OptInPolicy=false: " ++ err)
        | .ok () => return .ok ()
      else return .ok ()

/-- Consent by the service of the first instance. -/
def clearOptInRequired (opts : List Fields) : Call (Except String Unit) := do
  match opts with
  | [] => return .ok ()
  | o :: _ =>
      if Atoi (o.get "OptInRequired") = 0 ∨ Atoi (o.get "CanModifyOptInPolicy") = 0 then
        return .ok ()
      else
        let o := o.set "OptInRequired" "0"
        match ← putInstance tokens optInService.uri optInService.name o (instanceKeys o) with
        | .error err => return .error ("PUT IPS_OptInService OptInRequired=0: " ++ err)
        | .ok () => return .ok ()

/-- An engine without the settings is not asked for the service. -/
def clearKVMOptIn : Call (Except String Unit) := do
  match ← enumeratePull tokens kvmSetting.uri with
  | .error err =>
      if isUnsupportedClass lower err then return .ok ()
      else return .error ("enumerate IPS_KVMRedirectionSettingData: " ++ err)
  | .ok set =>
      match ← clearOptInPolicy tokens (eachNamedElement kvmSetting.name set) with
      | .error err => return .error err
      | .ok () =>
          match ← enumeratePull tokens optInService.uri with
          | .error err =>
              if isUnsupportedClass lower err then return .ok ()
              else return .error ("enumerate IPS_OptInService: " ++ err)
          | .ok opt => clearOptInRequired tokens (eachNamedElement optInService.name opt)

/-- The service access point, which is asked for state 2 unless it has it. -/
def enableSAP : Call (Except String Unit) := do
  match ← enumeratePull tokens kvmSAP.uri with
  | .error err =>
      if isUnsupportedClass lower err then
        return .error ("this AMT SKU has no CIM_KVMRedirectionSAP (no Hardware-KVM): " ++ err)
      else return .error ("enumerate CIM_KVMRedirectionSAP: " ++ err)
  | .ok sap =>
      match eachNamedElement kvmSAP.name sap with
      | [] => return .error "CIM_KVMRedirectionSAP: empty (no Hardware-KVM)"
      | fields :: _ =>
          if kvmSAPEnabled (Atoi (fields.get "EnabledState")) then return .ok ()
          else
            match ← requestStateChange tokens kvmSAP.uri kvmSAP.name 2 (instanceKeys fields) with
            | .error err =>
                return .error ("CIM_KVMRedirectionSAP RequestStateChange(2): " ++ err)
            | .ok () => return .ok ()

/-- What is written to the redirection service. -/
def listening (fields : Fields) : Fields :=
  (fields.set "ListenerEnabled" "true").set "EnabledState" (toString (newState fields))

def EnableKVM : Call (Except String Unit) := do
  match ← enumeratePull tokens redirectionService.uri with
  | .error err => return .error ("enumerate AMT_RedirectionService: " ++ err)
  | .ok redir =>
      match eachNamedElement redirectionService.name redir with
      | [] => return .error "AMT_RedirectionService: empty"
      | fields :: _ =>
          let redirSel := instanceKeys fields
          -- The result is dropped: the state is written once more below.
          let _ ← requestStateChange tokens redirectionService.uri redirectionService.name
            (newState fields) redirSel
          match ← clearKVMOptIn tokens lower with
          | .error err => return .error err
          | .ok () =>
              match ← enableSAP tokens lower with
              | .error err => return .error err
              | .ok () =>
                  match ← putInstance tokens redirectionService.uri redirectionService.name
                      (listening fields) redirSel with
                  | .error err => return .error ("PUT AMT_RedirectionService: " ++ err)
                  | .ok () => return .ok ()

end

/-! ### What may be requested -/

/-- The properties are those of an instance that was read, with these changes. -/
def Updates (fields properties : Fields) (changes : List (String × String)) : Prop :=
  ∀ name, properties.find name =
    if skipped name then none
    else (changes.find? fun change => change.1 = name).or (fields.find name)

/-- The request writes to the redirection service. -/
def Request.Listens : Request → Prop
  | .put uri _ _ _ => uri = uriAMTRedirectionSvc
  | _ => False

variable {tokens : Bytes → List Token} {lower : Char → Char} {log more : Log}

variable (tokens) in
/-- At some time the class had these instances. -/
def Read (log : Log) (c : Class) (items : List Fields) : Prop :=
  ∃ context data, Accepted tokens log (.pull c.uri context) data ∧
    eachNamedElement c.name data = items

variable (tokens) in
/-- The access point was enabled, or has agreed to be. -/
def SAPOn (log : Log) : Prop :=
  ∃ fields rest, Read tokens log kvmSAP (fields :: rest) ∧
    (kvmSAPEnabled (Atoi (fields.get "EnabledState")) = true ∨
      ∃ data, Succeeded data ∧
        Accepted tokens log (.requestStateChange uriCIMKVMSAP 2 (instanceKeys fields)) data)

variable (tokens) in
/-- The setting asks for no consent, or has agreed not to. -/
def PolicyOff (log : Log) : Prop :=
  ∃ items, Read tokens log kvmSetting items ∧ ∀ fields ∈ items.head?,
    EqualFold (fields.get "OptInPolicy") "true" = true →
      ∃ properties data, Updates fields properties [("OptInPolicy", "false")] ∧
        Accepted tokens log
          (.put uriIPSKVMSetting kvmSetting.name properties (settingKeys fields)) data

variable (tokens lower) in
/-- The service asks for no consent, cannot be changed, or has agreed not to. -/
def RequiredOff (log : Log) : Prop :=
  (∃ err, Failed tokens log uriIPSOptInService err ∧ isUnsupportedClass lower err = true) ∨
  ∃ items, Read tokens log optInService items ∧ ∀ fields ∈ items.head?,
    Atoi (fields.get "OptInRequired") ≠ 0 → Atoi (fields.get "CanModifyOptInPolicy") ≠ 0 →
      ∃ properties data, Updates fields properties [("OptInRequired", "0")] ∧
        Accepted tokens log
          (.put uriIPSOptInService optInService.name properties (instanceKeys fields)) data

variable (tokens lower) in
/-- No consent is asked for as far as the engine can be changed. An engine without the setting
counts as one without the service. -/
def OptInDone (log : Log) : Prop :=
  (∃ err, Failed tokens log uriIPSKVMSetting err ∧ isUnsupportedClass lower err = true) ∨
    PolicyOff tokens log ∧ RequiredOff tokens lower log

variable (tokens lower) in
/-- Requests that go by what has been read, each with the selectors of the instance it is for. -/
inductive Fits (log : Log) : Request → Prop
  | enumerate {c : Class} (hc : c ∈ classes) : Fits log (.enumerate c.uri)
  | pull {uri : String} {before : Log} {reply : Reply} {data : List Token}
      (hlast : log = before ++ [(.enumerate uri, reply)])
      (hread : readReply tokens reply = .ok data)
      (hcontext : firstLocalText data "EnumerationContext" ≠ "") :
      Fits log (.pull uri (firstLocalText data "EnumerationContext"))
  | redirection {fields : Fields} {rest : List Fields}
      (hread : Pulled tokens log redirectionService (fields :: rest)) :
      Fits log (.requestStateChange uriAMTRedirectionSvc (newState fields) (instanceKeys fields))
  | policy {fields properties : Fields} {rest : List Fields}
      (hread : Pulled tokens log kvmSetting (fields :: rest))
      (hpolicy : EqualFold (fields.get "OptInPolicy") "true" = true)
      (hproperties : Updates fields properties [("OptInPolicy", "false")]) :
      Fits log (.put uriIPSKVMSetting kvmSetting.name properties (settingKeys fields))
  | required {fields properties : Fields} {rest : List Fields}
      (hread : Pulled tokens log optInService (fields :: rest))
      (hrequired : Atoi (fields.get "OptInRequired") ≠ 0)
      (hmodify : Atoi (fields.get "CanModifyOptInPolicy") ≠ 0)
      (hproperties : Updates fields properties [("OptInRequired", "0")]) :
      Fits log (.put uriIPSOptInService optInService.name properties (instanceKeys fields))
  | sap {fields : Fields} {rest : List Fields}
      (hread : Pulled tokens log kvmSAP (fields :: rest))
      (hdisabled : kvmSAPEnabled (Atoi (fields.get "EnabledState")) = false) :
      Fits log (.requestStateChange uriCIMKVMSAP 2 (instanceKeys fields))
  | listener {fields properties : Fields} {rest : List Fields}
      (hread : Pulled tokens log redirectionService (fields :: rest))
      (hproperties : Updates fields properties
        [("EnabledState", toString (newState fields)), ("ListenerEnabled", "true")])
      (hsap : SAPOn tokens log) (hoptIn : OptInDone tokens lower log) :
      Fits log (.put uriAMTRedirectionSvc redirectionService.name properties (instanceKeys fields))

/-- Nothing has been written to the redirection service. -/
def Untouched (log : Log) : Prop := ∀ ex ∈ log, ¬ ex.1.Listens

variable (tokens lower) in
/-- Requests that may follow the exchanges: none does once the listener has been written. -/
structure Allowed (log : Log) (req : Request) : Prop where
  untouched : Untouched log
  fits : Fits tokens lower log req

variable (tokens lower) in
/-- What went wrong in a run that ends with an error. -/
inductive Trouble (log : Log) : Prop
  | failed {c : Class} {err : String} (h : Failed tokens log c.uri err)
      (hc : c = redirectionService ∨ c = kvmSAP ∨ isUnsupportedClass lower err = false)
  | missing {c : Class} (h : Read tokens log c []) (hc : c = redirectionService ∨ c = kvmSAP)
  | put {uri className err : String} {properties sel : Fields}
      (h : Refused tokens log (.put uri className properties sel) err)
  | sap {sel : Fields} {reply : Reply}
      (h : (.requestStateChange uriCIMKVMSAP 2 sel, reply) ∈ log)
      (hreply : ∀ data, readReply tokens reply = .ok data → ¬ Succeeded data)

variable (tokens lower) in
/-- The last exchange has switched on the listener, and everything else was in order before. -/
def Enabled (log : Log) : Prop :=
  ∃ before req reply data, log = before ++ [(req, reply)] ∧ req.Listens ∧
    Allowed tokens lower before req ∧ readReply tokens reply = .ok data

/-! ### What is written back -/

theorem find_set (fields : Fields) (name value key : String) :
    (fields.set name value).find key = if name = key then some (name, value) else fields.find key :=
  KeyedTable.find_upsert fields (name, value) key

theorem updates_set (fields : Fields) (name value : String) :
    Updates fields (written (fields.set name value)) [(name, value)] := by
  intro key
  rw [find_written, find_set]
  by_cases hkey : name = key <;> simp [hkey]

theorem updates_listening (fields : Fields) : Updates fields (written (listening fields))
    [("EnabledState", toString (newState fields)), ("ListenerEnabled", "true")] := by
  intro key
  rw [find_written, listening, find_set, find_set]
  by_cases hstate : "EnabledState" = key
  · simp [hstate]
  · by_cases hlistener : "ListenerEnabled" = key <;> simp [hstate, hlistener]

theorem get_set_of_ne {fields : Fields} {name key : String} (h : name ≠ key) (value : String) :
    (fields.set name value).get key = fields.get key := by
  rw [Fields.get, find_set, if_neg h, Fields.get]

/-- The changes are none to what an instance is selected by. -/
theorem settingKeys_set {fields : Fields} {name : String} (h : name ≠ "InstanceID")
    (value : String) : settingKeys (fields.set name value) = settingKeys fields := by
  rw [settingKeys, get_set_of_ne h, settingKeys]

theorem instanceKeys_set {fields : Fields} {name : String}
    (h : name ∉ ["Name", "CreationClassName", "SystemName", "SystemCreationClassName"])
    (value : String) : instanceKeys (fields.set name value) = instanceKeys fields := by
  simp only [List.mem_cons, List.not_mem_nil, or_false, not_or] at h
  obtain ⟨hname, hclass, hsystem, hsystemClass⟩ := h
  simp only [instanceKeys, keySelectors, List.foldl_cons, List.foldl_nil, get_set_of_ne hname,
    get_set_of_ne hclass, get_set_of_ne hsystem, get_set_of_ne hsystemClass]

/-! ### Parts of the run -/

/-- The request has nothing to do with the redirection service. -/
def Request.Elsewhere (req : Request) : Prop := ¬ req.Pulls uriAMTRedirectionSvc ∧ ¬ req.Listens

theorem Untouched.append (h : Untouched log) (hmore : ∀ ex ∈ more, ex.1.Elsewhere) :
    Untouched (log ++ more) := by
  intro ex hex
  exact (List.mem_append.mp hex).elim (h ex) fun hex => (hmore ex hex).2

theorem Pulled.read {c : Class} {items : List Fields} (h : Pulled tokens log c items) :
    Read tokens log c items := by
  obtain ⟨before, after, context, reply, data, rfl, hread, hitems, -⟩ := h
  exact ⟨context, data, ⟨reply, by simp, hread⟩, hitems⟩

theorem Read.mono {c : Class} {items : List Fields} (h : Read tokens log c items) (more : Log) :
    Read tokens (log ++ more) c items := by
  obtain ⟨context, data, haccepted, hitems⟩ := h
  exact ⟨context, data, haccepted.mono more, hitems⟩

theorem PolicyOff.mono (h : PolicyOff tokens log) (more : Log) :
    PolicyOff tokens (log ++ more) := by
  obtain ⟨items, hread, hitems⟩ := h
  refine ⟨items, hread.mono more, ?_⟩
  intro fields hfields hpolicy
  obtain ⟨properties, data, hupdates, haccepted⟩ := hitems fields hfields hpolicy
  exact ⟨properties, data, hupdates, haccepted.mono more⟩

theorem RequiredOff.mono (h : RequiredOff tokens lower log) (more : Log) :
    RequiredOff tokens lower (log ++ more) := by
  rcases h with ⟨err, hfailed, hunsupported⟩ | ⟨items, hread, hitems⟩
  · exact .inl ⟨err, hfailed.mono more, hunsupported⟩
  · refine .inr ⟨items, hread.mono more, ?_⟩
    intro fields hfields hrequired hmodify
    obtain ⟨properties, data, hupdates, haccepted⟩ := hitems fields hfields hrequired hmodify
    exact ⟨properties, data, hupdates, haccepted.mono more⟩

theorem OptInDone.mono (h : OptInDone tokens lower log) (more : Log) :
    OptInDone tokens lower (log ++ more) := by
  rcases h with ⟨err, hfailed, hunsupported⟩ | ⟨hpolicy, hrequired⟩
  · exact .inl ⟨err, hfailed.mono more, hunsupported⟩
  · exact .inr ⟨hpolicy.mono more, hrequired.mono more⟩

variable (tokens lower) in
/-- A part of the run leaves the redirection service alone, and ends well or in trouble. -/
def Part (good : Log → Prop) (log log' : Log) (out : Except String Unit) : Prop :=
  ∃ more, log' = log ++ more ∧ (∀ ex ∈ more, ex.1.Elsewhere) ∧ (out = .ok () → good log') ∧
    ∀ err, out = .error err → Trouble tokens lower log'

variable {good good' : Log → Prop} {out : Except String Unit} {log' : Log}

theorem Part.ok (hmore : ∀ ex ∈ more, ex.1.Elsewhere) (h : good (log ++ more)) :
    Part tokens lower good log (log ++ more) (.ok ()) := by
  refine ⟨more, rfl, hmore, fun _ => h, ?_⟩
  rintro err ⟨⟩

theorem Part.error (hmore : ∀ ex ∈ more, ex.1.Elsewhere) {err : String}
    (h : Trouble tokens lower (log ++ more)) :
    Part tokens lower good log (log ++ more) (.error err) := by
  refine ⟨more, rfl, hmore, ?_, fun _ _ => h⟩
  rintro ⟨⟩

/-- A part after exchanges that leave the redirection service alone. -/
theorem Part.behind (hmore : ∀ ex ∈ more, ex.1.Elsewhere)
    (h : Part tokens lower good (log ++ more) log' out) (hgood : good log' → good' log') :
    Part tokens lower good' log log' out := by
  obtain ⟨more', rfl, hmore', hok, herror⟩ := h
  refine ⟨more ++ more', List.append_assoc .., ?_, fun hout => hgood (hok hout), herror⟩
  intro ex hex
  exact (List.mem_append.mp hex).elim (hmore ex) (hmore' ex)

/-- Reading one of the other classes. -/
theorem elsewhere_of_reading {c : Class} (hc : c.uri ≠ uriAMTRedirectionSvc)
    (hmore : ∀ ex ∈ more, ex.1 = .enumerate c.uri ∨ ex.1.Pulls c.uri) :
    ∀ ex ∈ more, ex.1.Elsewhere := by
  rintro ⟨req, reply⟩ hex
  rcases hmore _ hex with rfl | hpulls
  · exact ⟨id, id⟩
  · cases req with
    | pull uri context =>
        obtain rfl : uri = c.uri := hpulls
        exact ⟨hc, id⟩
    | enumerate uri => cases hpulls
    | requestStateChange uri n sel => cases hpulls
    | put uri className properties sel => cases hpulls

theorem keeps_read {c : Class} (hc : c ∈ classes) (hlog : Untouched log) :
    (enumeratePull tokens c.uri).Keeps (Allowed tokens lower) (fun log' out =>
      ∃ more, log' = log ++ more ∧
        (∀ ex ∈ more, ex.1 = .enumerate c.uri ∨ ex.1.Pulls c.uri) ∧
        match out with
        | .ok data => Pulled tokens log' c (eachNamedElement c.name data)
        | .error err => Failed tokens log' c.uri err) log := by
  apply keeps_enumeratePull c ⟨hlog, .enumerate hc⟩
  intro reply data hread hcontext
  refine ⟨?_, .pull rfl hread hcontext⟩
  intro ex hex
  rcases List.mem_append.mp hex with hex | hex
  · exact hlog ex hex
  · rw [List.mem_singleton.mp hex]
    exact id

/-- An instance of another class has agreed to a change. -/
theorem part_put_ok {c : Class} {properties sel : Fields} {reply : Reply} {data : List Token}
    (hc : c.uri ≠ uriAMTRedirectionSvc) (hread : readReply tokens reply = .ok data)
    (hgood : Accepted tokens (log ++ [(.put c.uri c.name properties sel, reply)])
      (.put c.uri c.name properties sel) data →
        good (log ++ [(.put c.uri c.name properties sel, reply)])) :
    Part tokens lower good log (log ++ [(.put c.uri c.name properties sel, reply)]) (.ok ()) := by
  apply Part.ok
  · intro ex hex
    rw [List.mem_singleton.mp hex]
    exact ⟨id, hc⟩
  · exact hgood ⟨reply, List.mem_append_right _ List.mem_cons_self, hread⟩

theorem part_put_error {c : Class} {properties sel : Fields} {reply : Reply} {err err' : String}
    (hc : c.uri ≠ uriAMTRedirectionSvc) (hread : readReply tokens reply = .error err) :
    Part tokens lower good log (log ++ [(.put c.uri c.name properties sel, reply)])
      (.error err') := by
  apply Part.error
  · intro ex hex
    rw [List.mem_singleton.mp hex]
    exact ⟨id, hc⟩
  · exact .put ⟨reply, List.mem_append_right _ List.mem_cons_self, hread⟩

/-- Nothing had to be changed. -/
theorem part_nothing (h : good log) : Part tokens lower good log log (.ok ()) := by
  refine ⟨[], (List.append_nil log).symm, List.forall_mem_nil _, fun _ => h, ?_⟩
  rintro err ⟨⟩

theorem kvmSetting_elsewhere : kvmSetting.uri ≠ uriAMTRedirectionSvc := by decide

theorem optInService_elsewhere : optInService.uri ≠ uriAMTRedirectionSvc := by decide

theorem kvmSAP_elsewhere : kvmSAP.uri ≠ uriAMTRedirectionSvc := by decide

theorem keeps_clearOptInPolicy {sets : List Fields} (hlog : Untouched log)
    (hread : Pulled tokens log kvmSetting sets) :
    (clearOptInPolicy tokens sets).Keeps (Allowed tokens lower)
      (Part tokens lower (PolicyOff tokens) log) log := by
  unfold clearOptInPolicy
  cases sets with
  | nil =>
      refine Dialogue.Keeps.pure (part_nothing ⟨[], hread.read, ?_⟩)
      rintro fields ⟨⟩
  | cons fields rest =>
      by_cases hpolicy : EqualFold (fields.get "OptInPolicy") "true" = true
      · simp only [hpolicy, if_true]
        rw [settingKeys_set (by decide)]
        apply (keeps_putInstance ⟨hlog, .policy hread hpolicy (updates_set fields _ "false")⟩).bind
        rintro more out ⟨reply, hmore, hok, herror⟩
        rw [hmore]
        cases out with
        | error err => exact part_put_error kvmSetting_elsewhere (herror err rfl)
        | ok u =>
            obtain ⟨data, hdata⟩ := hok rfl
            apply part_put_ok kvmSetting_elsewhere hdata
            intro haccepted
            refine ⟨fields :: rest, hread.read.mono _, ?_⟩
            rintro fields' ⟨⟩ -
            exact ⟨_, data, updates_set fields _ _, haccepted⟩
      · simp only [hpolicy]
        refine Dialogue.Keeps.pure (part_nothing ⟨fields :: rest, hread.read, ?_⟩)
        rintro fields' ⟨⟩ htrue
        exact absurd htrue hpolicy

theorem keeps_clearOptInRequired {opts : List Fields} (hlog : Untouched log)
    (hread : Pulled tokens log optInService opts) :
    (clearOptInRequired tokens opts).Keeps (Allowed tokens lower)
      (Part tokens lower (RequiredOff tokens lower) log) log := by
  unfold clearOptInRequired
  cases opts with
  | nil =>
      refine Dialogue.Keeps.pure (part_nothing (.inr ⟨[], hread.read, ?_⟩))
      rintro fields ⟨⟩
  | cons o rest =>
      by_cases hoff : Atoi (o.get "OptInRequired") = 0 ∨ Atoi (o.get "CanModifyOptInPolicy") = 0
      · simp only [hoff, if_true]
        refine Dialogue.Keeps.pure (part_nothing (.inr ⟨o :: rest, hread.read, ?_⟩))
        rintro fields ⟨⟩ hrequired hmodify
        exact (hoff.elim hrequired hmodify).elim
      · simp only [hoff, if_false]
        rw [not_or] at hoff
        rw [instanceKeys_set (by decide)]
        apply (keeps_putInstance
          ⟨hlog, .required hread hoff.1 hoff.2 (updates_set o _ "0")⟩).bind
        rintro more out ⟨reply, hmore, hok, herror⟩
        rw [hmore]
        cases out with
        | error err => exact part_put_error optInService_elsewhere (herror err rfl)
        | ok u =>
            obtain ⟨data, hdata⟩ := hok rfl
            apply part_put_ok optInService_elsewhere hdata
            intro haccepted
            refine .inr ⟨o :: rest, hread.read.mono _, ?_⟩
            rintro fields ⟨⟩ - -
            exact ⟨_, data, updates_set o _ _, haccepted⟩

theorem keeps_clearKVMOptIn (hlog : Untouched log) :
    (clearKVMOptIn tokens lower).Keeps (Allowed tokens lower)
      (Part tokens lower (OptInDone tokens lower) log) log := by
  apply (keeps_read (by decide : kvmSetting ∈ classes) hlog).bind
  rintro more out ⟨more', heq, hreading, hout⟩
  obtain rfl : more = more' := List.append_cancel_left heq
  have hmore := elsewhere_of_reading kvmSetting_elsewhere hreading
  cases out with
  | error err =>
      by_cases hunsupported : isUnsupportedClass lower err = true
      · simp only [hunsupported, if_true]
        exact Part.ok hmore (.inl ⟨err, hout, hunsupported⟩)
      · simp only [hunsupported]
        exact Part.error hmore (.failed hout (.inr (.inr (Bool.eq_false_iff.mpr hunsupported))))
  | ok set =>
      have hlog₁ := hlog.append hmore
      apply (keeps_clearOptInPolicy hlog₁ hout).bind
      rintro more₁ out ⟨more₁', heq₁, hmore₁, hpolicy, htrouble⟩
      obtain rfl : more₁ = more₁' := List.append_cancel_left heq₁
      cases out with
      | error err =>
          refine Part.behind hmore ?_ id
          exact Part.error hmore₁ (htrouble err rfl)
      | ok u =>
          have hoff := hpolicy rfl
          have hlog₂ := hlog₁.append hmore₁
          apply (keeps_read (by decide : optInService ∈ classes) hlog₂).bind
          rintro more₂ out ⟨more₂', heq₂, hreading₂, hout₂⟩
          obtain rfl : more₂ = more₂' := List.append_cancel_left heq₂
          have hmore₂ := elsewhere_of_reading optInService_elsewhere hreading₂
          cases out with
          | error err =>
              by_cases hunsupported : isUnsupportedClass lower err = true
              · simp only [hunsupported, if_true]
                refine Part.behind hmore (Part.behind hmore₁ ?_ id) id
                exact Part.ok hmore₂
                  (.inr ⟨hoff.mono more₂, .inl ⟨err, hout₂, hunsupported⟩⟩)
              · simp only [hunsupported]
                refine Part.behind hmore (Part.behind hmore₁ ?_ id) id
                exact Part.error hmore₂
                  (.failed hout₂ (.inr (.inr (Bool.eq_false_iff.mpr hunsupported))))
          | ok opt =>
              apply (keeps_clearOptInRequired (hlog₂.append hmore₂) hout₂).mono
              rintro more₃ out hpart
              refine Part.behind hmore (Part.behind hmore₁ (Part.behind hmore₂ hpart ?_) id) id
              intro hrequired
              exact .inr ⟨(hoff.mono more₂).mono more₃, hrequired⟩

theorem keeps_enableSAP (hlog : Untouched log) :
    (enableSAP tokens lower).Keeps (Allowed tokens lower)
      (Part tokens lower (SAPOn tokens) log) log := by
  apply (keeps_read (by decide : kvmSAP ∈ classes) hlog).bind
  rintro more out ⟨more', heq, hreading, hout⟩
  obtain rfl : more = more' := List.append_cancel_left heq
  have hmore := elsewhere_of_reading kvmSAP_elsewhere hreading
  cases out with
  | error err =>
      by_cases hunsupported : isUnsupportedClass lower err = true
      · simp only [hunsupported, if_true]
        exact Part.error hmore (.failed hout (.inr (.inl rfl)))
      · simp only [hunsupported]
        exact Part.error hmore (.failed hout (.inr (.inl rfl)))
  | ok sap =>
      have hpulled : Pulled tokens (log ++ more) kvmSAP (eachNamedElement kvmSAP.name sap) := hout
      cases hitems : eachNamedElement kvmSAP.name sap with
      | nil =>
          rw [hitems] at hpulled
          simp only [hitems]
          exact Part.error hmore (.missing hpulled.read (.inr rfl))
      | cons fields rest =>
          rw [hitems] at hpulled
          simp only [hitems]
          by_cases henabled : kvmSAPEnabled (Atoi (fields.get "EnabledState")) = true
          · simp only [henabled, if_true]
            exact Part.ok hmore ⟨fields, rest, hpulled.read, .inl henabled⟩
          · simp only [henabled]
            apply (keeps_requestStateChange
              ⟨hlog.append hmore, .sap hpulled (Bool.eq_false_iff.mpr henabled)⟩).bind
            rintro more₁ out ⟨reply, heq₁, hok, herror⟩
            rw [heq₁]
            have hlast : (Request.requestStateChange uriCIMKVMSAP 2 (instanceKeys fields), reply) ∈
                [(Request.requestStateChange uriCIMKVMSAP 2 (instanceKeys fields), reply)] :=
              List.mem_cons_self
            have hmem := List.mem_append_right (log ++ more) hlast
            have hmore₁ : ∀ ex ∈ [(Request.requestStateChange uriCIMKVMSAP 2 (instanceKeys fields),
                reply)], ex.1.Elsewhere := by
              intro ex hex
              rw [List.mem_singleton.mp hex]
              exact ⟨id, id⟩
            cases out with
            | error err =>
                exact Part.behind hmore (Part.error hmore₁ (.sap hmem (herror err rfl))) id
            | ok u =>
                obtain ⟨data, hdata, hsucceeded⟩ := hok rfl
                refine Part.behind hmore (Part.ok hmore₁ ?_) id
                refine ⟨fields, rest, hpulled.read.mono _, ?_⟩
                exact .inr ⟨data, hsucceeded, reply, hmem, hdata⟩

/-! ### The whole run -/

/-- Reading writes nothing. -/
theorem untouched_of_reading {c : Class}
    (hmore : ∀ ex ∈ more, ex.1 = .enumerate c.uri ∨ ex.1.Pulls c.uri) : Untouched more := by
  rintro ⟨req, reply⟩ hex hlistens
  rcases hmore _ hex with rfl | hpulls
  · exact hlistens
  · cases req with
    | put uri className properties sel => exact hpulls
    | enumerate uri => exact hlistens
    | pull uri context => exact hlistens
    | requestStateChange uri n sel => exact hlistens

variable (tokens lower) in
/-- What holds at the end of a run. -/
def Outcome (log : Log) : Except String Unit → Prop
  | .ok () => Enabled tokens lower log
  | .error _ => Trouble tokens lower log ∧
      ∀ ex ∈ log, ex.1.Listens → ∃ err, readReply tokens ex.2 = .error err

/-- A run that ends before the listener is touched. -/
theorem outcome_error {err : String} (h : Trouble tokens lower log)
    (hlog : Untouched log) : Outcome tokens lower log (.error err) :=
  ⟨h, fun ex hex hlistens => absurd hlistens (hlog ex hex)⟩

theorem keeps_EnableKVM :
    (EnableKVM tokens lower).Keeps (Allowed tokens lower) (Outcome tokens lower) [] := by
  apply (keeps_read (by decide : redirectionService ∈ classes) (List.forall_mem_nil _)).bind
  rintro read out ⟨read', heq, hreading, hout⟩
  obtain rfl : read = read' := heq
  rw [List.nil_append] at hout ⊢
  have hread := untouched_of_reading hreading
  cases out with
  | error err => exact outcome_error (.failed hout (.inl rfl)) hread
  | ok redir =>
      have hpulled : Pulled tokens read redirectionService
          (eachNamedElement redirectionService.name redir) := hout
      cases hitems : eachNamedElement redirectionService.name redir with
      | nil =>
          rw [hitems] at hpulled
          simp only [hitems]
          exact outcome_error (.missing hpulled.read (.inl rfl)) hread
      | cons fields rest =>
          rw [hitems] at hpulled
          simp only [hitems]
          apply (keeps_requestStateChange ⟨hread, .redirection hpulled⟩).bind
          rintro change out ⟨reply, heq₁, -⟩
          have hchange : ∀ ex ∈ change, ex.1.Elsewhere := by
            intro ex hex
            rw [List.append_cancel_left heq₁] at hex
            rw [List.mem_singleton.mp hex]
            exact ⟨id, id⟩
          have hread₁ := hread.append hchange
          apply (keeps_clearKVMOptIn hread₁).bind
          rintro opt out ⟨opt', heq₂, hopt, hok₂, htrouble₂⟩
          obtain rfl : opt = opt' := List.append_cancel_left heq₂
          have hpulled₂ := (hpulled.append fun ex hex => (hchange ex hex).1).append
            fun ex hex => (hopt ex hex).1
          have hread₂ := hread₁.append hopt
          cases out with
          | error err => exact outcome_error (htrouble₂ err rfl) hread₂
          | ok u =>
              apply (keeps_enableSAP hread₂).bind
              rintro sap out ⟨sap', heq₃, hsap, hok₃, htrouble₃⟩
              obtain rfl : sap = sap' := List.append_cancel_left heq₃
              have hread₃ := hread₂.append hsap
              cases out with
              | error err => exact outcome_error (htrouble₃ err rfl) hread₃
              | ok u =>
                  have hpulled₃ := hpulled₂.append fun ex hex => (hsap ex hex).1
                  have hallowed : Allowed tokens lower (read ++ change ++ opt ++ sap)
                      (.put uriAMTRedirectionSvc redirectionService.name
                        (written (listening fields)) (instanceKeys fields)) :=
                    ⟨hread₃, .listener hpulled₃ (updates_listening fields) (hok₃ rfl)
                      ((hok₂ rfl).mono sap)⟩
                  apply (keeps_putInstance hallowed).bind
                  rintro more out ⟨reply', heq₄, hok₄, herror₄⟩
                  rw [heq₄]
                  cases out with
                  | error err =>
                      refine ⟨.put ⟨reply', List.mem_append_right _ List.mem_cons_self,
                        herror₄ err rfl⟩, ?_⟩
                      intro ex hex hlistens
                      rcases List.mem_append.mp hex with hex | hex
                      · exact absurd hlistens (hread₃ ex hex)
                      · rw [List.mem_singleton.mp hex]
                        exact ⟨err, herror₄ err rfl⟩
                  | ok u =>
                      obtain ⟨data, hdata⟩ := hok₄ rfl
                      exact ⟨_, _, reply', data, rfl, rfl, hallowed, hdata⟩

/-- Nothing is asked for behind the exchange that writes the listener. -/
theorem listener_last {d : Call (Except String Unit)} {before after : Log} {ex : Request × Reply}
    (hallowed : Grounded (fun before ex => Allowed tokens lower before ex.1) log)
    (hnext : ∀ req next, d = .ask req next → Allowed tokens lower log req)
    (hlog : log = before ++ ex :: after) (hlistens : ex.1.Listens) :
    after = [] ∧ ∃ out, d = .done out := by
  have hmem : ex ∈ log := hlog ▸ List.mem_append_right _ List.mem_cons_self
  constructor
  · rcases List.eq_nil_or_concat after with hnil | ⟨after', last, rfl⟩
    · exact hnil
    · have hlast := hallowed (before ++ ex :: after') last [] (by rw [hlog]; simp)
      exact absurd hlistens (hlast.untouched ex (List.mem_append_right _ List.mem_cons_self))
  · cases d with
    | done out => exact ⟨out, rfl⟩
    | ask req next => exact absurd hlistens ((hnext req next rfl).untouched ex hmem)

/-- An instance of a class in a document. -/
def instanceDocument (name : String) (properties : List (String × String)) : List Token :=
  .start name :: properties.flatMap (fun p => [.start p.1, .text p.2, .stop]) ++ [.stop]

/-- The replies of an engine whose listener and access point are off and that asks for consent:
the context of an enumeration, the instances of the four classes and the result of a change. -/
def documents : List (List Token) :=
  [[.start "EnumerationContext", .text "7", .stop],
    instanceDocument "AMT_RedirectionService"
      [("Name", "Redirection"), ("EnabledState", "32771"), ("ListenerEnabled", "false")],
    instanceDocument "IPS_KVMRedirectionSettingData"
      [("InstanceID", "KVM"), ("OptInPolicy", "true"), ("SessionTimeout", "3")],
    instanceDocument "IPS_OptInService" [("Name", "OptIn"), ("OptInRequired", "1"),
      ("CanModifyOptInPolicy", "1")],
    instanceDocument "CIM_KVMRedirectionSAP" [("Name", "SAP"), ("EnabledState", "3")],
    [.start "ReturnValue", .text "0", .stop]]

/-- The first byte of a body is the number of its document. -/
def decoded (body : Bytes) : List Token := documents.getD (body.headD 0).toNat []

/-- The answer with one of the documents. -/
def document (i : Nat) : Reply := .ok { StatusCode := 200, Body := [BitVec.ofNat 8 i] }

/-- The run against this engine. -/
def enabling : Log × Call (Except String Unit) :=
  (EnableKVM decoded Char.toLower).replay ([0, 1, 5, 0, 2, 5, 0, 3, 5, 0, 4, 5, 5].map document)

end Outband.Amt
