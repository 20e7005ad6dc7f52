import Mathlib
import Outband.Foundation.Trim
import Outband.Inventory.Config

/-!
# Normalisation and the order of maps

`normalizeHosts` copies the two maps of an entry into new ones, with their keys
trimmed, and for `Options` also lower-cased. Go visits a map in any order, so an entry
is here one of the tables that are the same map, and the results should be the same
maps too. Distinct keys can become equal, and then the last entry visited wins.
`normalizeHosts_stable_iff` says that this is the only way in which the order shows,
and that normalising a second time changes nothing.
-/

namespace Outband.Inventory

open Foundation

/-! ### Equal values -/

/-- The same map: the same entries, visited in any order. -/
def SameMap (m m' : GoMap String) : Prop := m.rows.Perm m'.rows

/-- The same entry of the inventory. -/
structure SameHost (h h' : HostConfig) : Prop where
  sensorNames : SameMap h.SensorNames h'.SensorNames
  options : SameMap h.Options h'.Options
  others : { h' with SensorNames := h.SensorNames, Options := h.Options } = h

def SameResult : Except ConfigError (List HostConfig) → Except ConfigError (List HostConfig) → Prop
  | .ok hosts, .ok hosts' => List.Forall₂ SameHost hosts hosts'
  | .error err, .error err' => err = err'
  | _, _ => False

variable {m m' : GoMap String} {h h₁ h₂ : HostConfig} {hosts hosts₁ hosts₂ : List HostConfig}

theorem SameMap.refl (m : GoMap String) : SameMap m m := List.Perm.refl _

theorem SameHost.refl (h : HostConfig) : SameHost h h := ⟨SameMap.refl _, SameMap.refl _, rfl⟩

/-! ### The copy of a map -/

variable {key value : String → String}

/-- What the copy makes of an entry, if it keeps it. -/
def copyEntry (key value : String → String) (kv : String × String) : Option (String × String) :=
  if key kv.1 = "" ∨ value kv.2 = "" then none else some (key kv.1, value kv.2)

/-- The entries that are written into the copy, in the order in which they are written. -/
def written (key value : String → String) (m : GoMap String) : List (String × String) :=
  m.rows.filterMap (copyEntry key value)

/-- Kept entries whose keys become equal have values that become equal. -/
def Consistent (key value : String → String) (m : GoMap String) : Prop :=
  ∀ x ∈ written key value m, ∀ y ∈ written key value m, x.1 = y.1 → x = y

theorem copyMap_eq (key value : String → String) (m : GoMap String) :
    copyMap key value m = (written key value m).foldl KeyedTable.upsert .empty := by
  have hstep (cp : GoMap String) (rows : List (String × String)) :
      rows.foldl (fun cp kv =>
        if key kv.1 = "" ∨ value kv.2 = "" then cp else cp.upsert (key kv.1, value kv.2)) cp =
        (rows.filterMap (copyEntry key value)).foldl KeyedTable.upsert cp := by
    induction rows generalizing cp with
    | nil => rfl
    | cons kv rest ih =>
        rw [List.foldl_cons, ih]
        by_cases hkv : key kv.1 = "" ∨ value kv.2 = "" <;> simp [copyEntry, hkv]
  rw [copyMap]
  split
  case isTrue hnil =>
    obtain ⟨rows, hdistinct⟩ := m
    cases hnil
    rfl
  case isFalse => exact hstep _ _

theorem find_copyMap (m : GoMap String) (k : String) :
    (copyMap key value m).find k = (written key value m).reverse.find? fun r => r.1 = k := by
  rw [copyMap_eq, KeyedTable.find_foldl_upsert]
  exact Option.or_none

theorem mem_written_of_mem_copyMap {x : String × String} (hx : x ∈ (copyMap key value m).rows) :
    x ∈ written key value m := by
  have hfind := KeyedTable.find_eq_some_iff.mpr ⟨hx, rfl⟩
  rw [find_copyMap] at hfind
  exact List.mem_reverse.mp (List.mem_of_find?_eq_some hfind)

theorem mem_copyMap (hm : Consistent key value m) {x : String × String} :
    x ∈ (copyMap key value m).rows ↔ x ∈ written key value m := by
  refine ⟨mem_written_of_mem_copyMap, fun hx => ?_⟩
  have hsome : ((written key value m).reverse.find? fun r => r.1 = x.1).isSome := by
    rw [List.find?_isSome]
    exact ⟨x, List.mem_reverse.mpr hx, decide_eq_true rfl⟩
  obtain ⟨y, hy⟩ := Option.isSome_iff_exists.mp hsome
  have hmem := List.mem_reverse.mp (List.mem_of_find?_eq_some hy)
  have hkey : y.1 = x.1 := by simpa using List.find?_some hy
  have hxy := hm y hmem x hx hkey
  subst hxy
  rw [← find_copyMap] at hy
  exact (KeyedTable.find_eq_some_iff.mp hy).1

theorem SameMap.written_perm (hm : SameMap m m') :
    (written key value m).Perm (written key value m') :=
  hm.filterMap _

theorem Consistent.of_same (hm : Consistent key value m) (hsame : SameMap m m') :
    Consistent key value m' := by
  intro x hx y hy
  have hperm : (written key value m).Perm (written key value m') := hsame.written_perm
  exact hm x (hperm.mem_iff.mpr hx) y (hperm.mem_iff.mpr hy)

/-- A consistent map has the same copy in every order. -/
theorem Consistent.copyMap_same (hm : Consistent key value m) (hsame : SameMap m m') :
    SameMap (copyMap key value m) (copyMap key value m') := by
  refine (List.perm_ext_iff_of_nodup (KeyedTable.nodup_rows _) (KeyedTable.nodup_rows _)).mpr ?_
  intro x
  rw [mem_copyMap hm, mem_copyMap (hm.of_same hsame)]
  exact hsame.written_perm.mem_iff

/-- Some order puts any given entry last, so that it wins. -/
theorem exists_last {x : String × String} (hx : x ∈ written key value m) :
    ∃ m', SameMap m m' ∧ (copyMap key value m').find x.1 = some x := by
  obtain ⟨kv, hkv, hcopy⟩ := List.mem_filterMap.mp hx
  have hperm : (m.rows.erase kv ++ [kv]).Perm m.rows :=
    (List.perm_append_singleton _ _).trans (List.perm_cons_erase hkv).symm
  refine ⟨m.reorder hperm, hperm.symm, ?_⟩
  have hwritten : written key value (m.reorder hperm) =
      (m.rows.erase kv).filterMap (copyEntry key value) ++ [x] := by
    simp [written, KeyedTable.reorder, hcopy]
  rw [find_copyMap, hwritten, List.reverse_append]
  simp

/-- Only a consistent map has one copy. -/
theorem consistent_of_copyMap_same
    (h : ∀ m₁ m₂, SameMap m m₁ → SameMap m m₂ →
      SameMap (copyMap key value m₁) (copyMap key value m₂)) : Consistent key value m := by
  intro x hx y hy hkey
  obtain ⟨m₁, hm₁, hfind₁⟩ := exists_last hx
  obtain ⟨m₂, hm₂, hfind₂⟩ := exists_last hy
  have hmem₁ := (KeyedTable.find_eq_some_iff.mp hfind₁).1
  have hmem₂ := (KeyedTable.find_eq_some_iff.mp hfind₂).1
  have hx₂ := (h m₁ m₂ hm₁ hm₂).mem_iff.mp hmem₁
  exact List.inj_on_of_nodup_map (copyMap key value m₂).distinct hx₂ hmem₂ hkey

/-- A map whose entries the copy would write as they are is its own copy. -/
theorem copyMap_of_fixed (hm : ∀ kv ∈ m.rows, copyEntry key value kv = some kv) :
    copyMap key value m = m := by
  have hwritten : written key value m = m.rows := by
    rw [written, List.filterMap_eq_map_iff_forall_eq_some.mpr hm, List.map_id']
  have hrows : (copyMap key value m).rows = m.rows := by
    rw [copyMap_eq, hwritten, KeyedTable.rows_foldl_upsert .empty m.distinct]
    rfl
  obtain ⟨rows, hdistinct⟩ := m
  cases hcopy : copyMap key value ⟨rows, hdistinct⟩
  rw [hcopy] at hrows
  cases hrows
  rfl

/-! ### The steps of the loop -/

namespace HostConfig

variable (lower : Char → Char) (h : HostConfig)

def trimFields : HostConfig :=
  { h with
    ID := TrimSpace h.ID
    Name := TrimSpace h.Name
    Provider := ToLower lower (TrimSpace h.Provider)
    Host := TrimSpace h.Host
    User := TrimSpace h.User }

def setProvider : HostConfig := if h.Provider = "" then { h with Provider := "ipmi" } else h

def setPort : HostConfig := if h.Port = 0 then { h with Port := defaultPort h } else h

def setID : HostConfig := if h.ID = "" then { h with ID := sanitizeID h.Host } else h

def setName : HostConfig := if h.Name = "" then { h with Name := h.Host } else h

def setKVM : HostConfig :=
  if h.Provider = "ipmi" ∧ h.KVM = none then { h with KVM := some { Port := 7578 } } else h

/-- The key of a provider's options in the copy. -/
def optionKey (lower : Char → Char) (k : String) : String := ToLower lower (TrimSpace k)

def copyMaps : HostConfig :=
  { h with
    SensorNames := copyMap TrimSpace TrimSpace h.SensorNames
    Options := copyMap (optionKey lower) id h.Options }

/-- What comes before the copy of the maps does not read them. -/
def setFields : HostConfig := (h.trimFields lower).setProvider.setPort.setID.setName.setKVM

theorem setProvider_eq :
    h.setProvider = { h with Provider := if h.Provider = "" then "ipmi" else h.Provider } := by
  rw [setProvider]
  split <;> rfl

theorem setPort_eq :
    h.setPort = { h with Port := if h.Port = 0 then defaultPort h else h.Port } := by
  rw [setPort]
  split <;> rfl

theorem setID_eq : h.setID = { h with ID := if h.ID = "" then sanitizeID h.Host else h.ID } := by
  rw [setID]
  split <;> rfl

theorem setName_eq : h.setName = { h with Name := if h.Name = "" then h.Host else h.Name } := by
  rw [setName]
  split <;> rfl

theorem setKVM_eq : h.setKVM = { h with
    KVM := if h.Provider = "ipmi" ∧ h.KVM = none then some { Port := 7578 } else h.KVM } := by
  rw [setKVM]
  split <;> rfl

end HostConfig

open HostConfig

variable {lower : Char → Char}

theorem normalizeHost_eq (h : HostConfig) :
    normalizeHost lower h = (h.setFields lower).copyMaps lower := rfl

theorem setFields_withMaps (h : HostConfig) (s o : GoMap String) :
    ({ h with SensorNames := s, Options := o }).setFields lower =
      { h.setFields lower with SensorNames := s, Options := o } := by
  simp only [setFields, trimFields, setProvider_eq, setPort_eq, setID_eq, setName_eq, setKVM_eq]
  rfl

theorem sensorNames_normalizeHost (h : HostConfig) :
    (normalizeHost lower h).SensorNames = copyMap TrimSpace TrimSpace h.SensorNames := by
  simp only [normalizeHost_eq, setFields, copyMaps, setKVM_eq, setName_eq, setID_eq, setPort_eq,
    setProvider_eq, trimFields]

theorem options_normalizeHost (h : HostConfig) :
    (normalizeHost lower h).Options = copyMap (optionKey lower) id h.Options := by
  simp only [normalizeHost_eq, setFields, copyMaps, setKVM_eq, setName_eq, setID_eq, setPort_eq,
    setProvider_eq, trimFields]

theorem normalizeHost_withMaps (h : HostConfig) (s o : GoMap String) :
    normalizeHost lower { h with SensorNames := s, Options := o } =
      { normalizeHost lower h with
        SensorNames := copyMap TrimSpace TrimSpace s
        Options := copyMap (optionKey lower) id o } := by
  rw [normalizeHost_eq, setFields_withMaps, normalizeHost_eq]
  rfl

/-! ### The order of the maps -/

/-- Neither map of the entry has kept entries that collide with different values. -/
structure Unambiguous (lower : Char → Char) (h : HostConfig) : Prop where
  sensorNames : Consistent TrimSpace TrimSpace h.SensorNames
  options : Consistent (optionKey lower) id h.Options

/-- Entries that are the same stay the same when the copies of their maps are. -/
theorem sameHost_normalizeHost (hsame : SameHost h₁ h₂)
    (hsensors : SameMap (copyMap TrimSpace TrimSpace h₁.SensorNames)
      (copyMap TrimSpace TrimSpace h₂.SensorNames))
    (hoptions : SameMap (copyMap (optionKey lower) id h₁.Options)
      (copyMap (optionKey lower) id h₂.Options)) :
    SameHost (normalizeHost lower h₁) (normalizeHost lower h₂) := by
  refine ⟨?_, ?_, ?_⟩
  · simpa only [sensorNames_normalizeHost] using hsensors
  · simpa only [options_normalizeHost] using hoptions
  · have hmaps : normalizeHost lower _ = _ :=
      normalizeHost_withMaps h₂ h₁.SensorNames h₁.Options
    simp only [hsame.others] at hmaps
    simp only [sensorNames_normalizeHost, options_normalizeHost]
    exact hmaps.symm

theorem sameHost_iff_unambiguous (h : HostConfig) :
    (∀ h₁ h₂, SameHost h h₁ → SameHost h h₂ →
      SameHost (normalizeHost lower h₁) (normalizeHost lower h₂)) ↔ Unambiguous lower h := by
  constructor
  · intro hall
    constructor
    · refine consistent_of_copyMap_same fun m₁ m₂ hm₁ hm₂ => ?_
      have hsame := hall { h with SensorNames := m₁ } { h with SensorNames := m₂ }
        ⟨hm₁, SameMap.refl _, rfl⟩ ⟨hm₂, SameMap.refl _, rfl⟩
      simpa only [sensorNames_normalizeHost] using hsame.sensorNames
    · refine consistent_of_copyMap_same fun m₁ m₂ hm₁ hm₂ => ?_
      have hsame := hall { h with Options := m₁ } { h with Options := m₂ }
        ⟨SameMap.refl _, hm₁, rfl⟩ ⟨SameMap.refl _, hm₂, rfl⟩
      simpa only [options_normalizeHost] using hsame.options
  · intro hclear h₁ h₂ hsame₁ hsame₂
    have hsame : SameHost h₁ h₂ := by
      refine ⟨hsame₁.sensorNames.symm.trans hsame₂.sensorNames,
        hsame₁.options.symm.trans hsame₂.options, ?_⟩
      have hothers := hsame₁.others.trans hsame₂.others.symm
      have hfields := congrArg
        (fun g => { g with SensorNames := h₁.SensorNames, Options := h₁.Options }) hothers
      exact hfields.symm
    exact sameHost_normalizeHost hsame
      ((hclear.sensorNames.of_same hsame₁.sensorNames).copyMap_same hsame.sensorNames)
      ((hclear.options.of_same hsame₁.options).copyMap_same hsame.options)

/-- Two runs on the same inventory have the same result. -/
def OrderFree (lower : Char → Char) (hosts : List HostConfig) : Prop :=
  ∀ hosts₁ hosts₂, List.Forall₂ SameHost hosts hosts₁ → List.Forall₂ SameHost hosts hosts₂ →
    SameResult (normalizeHosts lower hosts₁) (normalizeHosts lower hosts₂)

theorem normalizeHosts_of_ne (hne : hosts ≠ []) :
    normalizeHosts lower hosts = .ok (hosts.map (normalizeHost lower)) := if_neg hne

theorem ne_nil_of_forall₂ (h : List.Forall₂ SameHost hosts hosts₁) (hne : hosts ≠ []) :
    hosts₁ ≠ [] := by
  rintro rfl
  exact hne (List.forall₂_nil_right_iff.mp h)

theorem orderFree_iff : OrderFree lower hosts ↔ ∀ h ∈ hosts, Unambiguous lower h := by
  constructor
  · intro hfree h hmem
    rw [← sameHost_iff_unambiguous]
    intro h₁ h₂ hsame₁ hsame₂
    obtain ⟨before, after, rfl⟩ := List.append_of_mem hmem
    have hrefl (l : List HostConfig) : List.Forall₂ SameHost l l :=
      List.forall₂_same.mpr fun x _ => SameHost.refl x
    have hresult := hfree (before ++ h₁ :: after) (before ++ h₂ :: after)
      (List.rel_append (hrefl before) (.cons hsame₁ (hrefl after)))
      (List.rel_append (hrefl before) (.cons hsame₂ (hrefl after)))
    rw [normalizeHosts_of_ne (by simp), normalizeHosts_of_ne (by simp)] at hresult
    have hget := List.Forall₂.get hresult (i := before.length) (by simp) (by simp)
    simpa using hget
  · intro hclear hosts₁ hosts₂ hsame₁ hsame₂
    by_cases hnil : hosts = []
    · subst hnil
      rw [List.forall₂_nil_left_iff.mp hsame₁, List.forall₂_nil_left_iff.mp hsame₂]
      rfl
    · rw [normalizeHosts_of_ne (ne_nil_of_forall₂ hsame₁ hnil),
        normalizeHosts_of_ne (ne_nil_of_forall₂ hsame₂ hnil)]
      show List.Forall₂ SameHost _ _
      clear hnil
      induction hsame₁ generalizing hosts₂ with
      | nil =>
          rw [List.forall₂_nil_left_iff.mp hsame₂]
          exact .nil
      | @cons h h₁ rest rest₁ hh₁ hrest₁ ih =>
          obtain ⟨h₂, rest₂, hh₂, hrest₂, rfl⟩ := List.forall₂_cons_left_iff.mp hsame₂
          have hhost := (sameHost_iff_unambiguous h).mpr (hclear h (by simp)) h₁ h₂ hh₁ hh₂
          exact .cons hhost (ih (fun g hg => hclear g (by simp [hg])) rest₂ hrest₂)

/-! ### Normalising again -/

/-- What the normalisation of a text relies on in `unicode.ToLower`. -/
structure LowerLaws (lower : Char → Char) : Prop where
  idem : ∀ c, lower (lower c) = lower c
  space : ∀ c, isSpace (lower c) = isSpace c
  ascii : ∀ c, c.isLower = true → lower c = c

@[simp]
theorem TrimSpace_TrimSpace (s : String) : TrimSpace (TrimSpace s) = TrimSpace s :=
  congrArg String.ofList (by rw [TrimSpace, String.toList_ofList]; exact trim_trim isSpace s.toList)

theorem TrimSpace_of_trimmed {s : String} (hs : Trimmed isSpace s.toList) : TrimSpace s = s :=
  (congrArg String.ofList hs.trim_eq).trans String.ofList_toList

theorem trimmed_map (hlower : LowerLaws lower) {l : List Char} (hl : Trimmed isSpace l) :
    Trimmed isSpace (l.map lower) := by
  constructor
  · intro c hc
    rw [List.head?_map, Option.mem_def, Option.map_eq_some_iff] at hc
    obtain ⟨d, hd, rfl⟩ := hc
    rw [hlower.space]
    exact hl.first d hd
  · intro c hc
    rw [List.getLast?_map, Option.mem_def, Option.map_eq_some_iff] at hc
    obtain ⟨d, hd, rfl⟩ := hc
    rw [hlower.space]
    exact hl.last d hd

/-- A trimmed and lower-cased text is a fixed point of both. -/
theorem optionKey_optionKey (hlower : LowerLaws lower) (s : String) :
    optionKey lower (optionKey lower s) = optionKey lower s := by
  have htext : (optionKey lower s).toList = (trim isSpace s.toList).map lower := by
    rw [optionKey, ToLower, String.toList_ofList, TrimSpace, String.toList_ofList]
    rfl
  have htrimmed : Trimmed isSpace (optionKey lower s).toList := by
    rw [htext]
    exact trimmed_map hlower (trimmed_trim _ _)
  rw [optionKey, TrimSpace_of_trimmed htrimmed, ToLower, htext, List.map_map]
  have hidem : lower ∘ lower = lower := funext hlower.idem
  rw [hidem, ← htext, String.ofList_toList]

/-- An entry that the loop leaves as it is. -/
structure IsNormal (lower : Char → Char) (h : HostConfig) : Prop where
  fields : h.trimFields lower = h
  provider : h.Provider ≠ ""
  port : h.Port = 0 → defaultPort h = 0
  id : h.ID ≠ ""
  name : h.Name = "" → h.Host = ""
  kvm : ¬ (h.Provider = "ipmi" ∧ h.KVM = none)
  maps : h.copyMaps lower = h

theorem IsNormal.normalizeHost_eq (hh : IsNormal lower h) : normalizeHost lower h = h := by
  have hport : h.setPort = h := by
    rw [setPort]
    split
    case isTrue hzero =>
      have hsame : defaultPort h = h.Port := (hh.port hzero).trans hzero.symm
      exact congrArg (fun p => { h with Port := p }) hsame
    case isFalse => rfl
  have hname : h.setName = h := by
    rw [setName]
    split
    case isTrue hempty =>
      have hsame : h.Host = h.Name := (hh.name hempty).trans hempty.symm
      exact congrArg (fun n => { h with Name := n }) hsame
    case isFalse => rfl
  have hkvm : h.setKVM = h := if_neg hh.kvm
  have hid : h.setID = h := if_neg hh.id
  have hprovider : h.setProvider = h := if_neg hh.provider
  rw [Inventory.normalizeHost_eq, setFields, hh.fields, hprovider, hport, hid, hname, hkvm, hh.maps]

theorem copyEntry_of_mem_copyMap (hkey : ∀ s, key (key s) = key s)
    (hvalue : ∀ s, value (value s) = value s) :
    ∀ kv ∈ (copyMap key value m).rows, copyEntry key value kv = some kv := by
  intro kv hkv
  obtain ⟨source, -, hcopy⟩ := List.mem_filterMap.mp (mem_written_of_mem_copyMap hkv)
  rw [copyEntry] at hcopy
  split_ifs at hcopy with hempty
  cases hcopy
  rw [copyEntry, hkey, hvalue, if_neg hempty]

/-- The copy of a copy is the copy. -/
theorem copyMap_copyMap (hkey : ∀ s, key (key s) = key s) (hvalue : ∀ s, value (value s) = value s)
    (m : GoMap String) : copyMap key value (copyMap key value m) = copyMap key value m :=
  copyMap_of_fixed (copyEntry_of_mem_copyMap hkey hvalue)

/-- A copy is consistent: its keys stay distinct. -/
theorem consistent_copyMap (hkey : ∀ s, key (key s) = key s)
    (hvalue : ∀ s, value (value s) = value s) (m : GoMap String) :
    Consistent key value (copyMap key value m) := by
  have hwritten : written key value (copyMap key value m) = (copyMap key value m).rows := by
    rw [written, List.filterMap_eq_map_iff_forall_eq_some.mpr
      (copyEntry_of_mem_copyMap hkey hvalue), List.map_id']
  intro x hx y hy
  rw [hwritten] at hx hy
  exact List.inj_on_of_nodup_map (copyMap key value m).distinct hx hy

theorem isSpace_eq_false_of_isAlphanum {c : Char} (hc : c.isAlphanum ∨ c = '-' ∨ c = '_') :
    isSpace c = false := by
  rcases hc with hc | rfl | rfl
  · have hrange : 48 ≤ c.toNat ∧ c.toNat ≤ 122 := by
      have hval : c.toNat = c.val.toNat := rfl
      simp [Char.isAlphanum, Char.isAlpha, Char.isUpper, Char.isLower, Char.isDigit,
        UInt32.le_iff_toNat_le] at hc
      omega
    simp only [isSpace, List.mem_cons, List.not_mem_nil, or_false, decide_eq_false_iff_not]
    omega
  · decide
  · decide

theorem sanitizeID_spec (s : String) :
    Trimmed isSpace (sanitizeID s).toList ∧ sanitizeID s ≠ "" := by
  rw [sanitizeID]
  split
  case isTrue => exact ⟨by decide, by decide⟩
  case isFalse hne =>
    rw [String.toList_ofList]
    refine ⟨trimmed_of_forall fun c hc => ?_,
      fun hempty => hne (String.ofList_eq_empty_iff.mp hempty)⟩
    obtain ⟨r, -, hr⟩ := List.mem_filterMap.mp hc
    split_ifs at hr with halpha hdot
    · cases hr
      exact isSpace_eq_false_of_isAlphanum halpha
    · cases hr
      decide

section Fields

variable (h)

theorem ID_normalizeHost : (normalizeHost lower h).ID =
    if TrimSpace h.ID = "" then sanitizeID (TrimSpace h.Host) else TrimSpace h.ID := by
  simp only [normalizeHost_eq, setFields, copyMaps, setKVM_eq, setName_eq, setID_eq, setPort_eq,
    setProvider_eq, trimFields]

theorem Name_normalizeHost : (normalizeHost lower h).Name =
    if TrimSpace h.Name = "" then TrimSpace h.Host else TrimSpace h.Name := by
  simp only [normalizeHost_eq, setFields, copyMaps, setKVM_eq, setName_eq, setID_eq, setPort_eq,
    setProvider_eq, trimFields]

theorem Host_normalizeHost : (normalizeHost lower h).Host = TrimSpace h.Host := by
  simp only [normalizeHost_eq, setFields, copyMaps, setKVM_eq, setName_eq, setID_eq, setPort_eq,
    setProvider_eq, trimFields]

theorem User_normalizeHost : (normalizeHost lower h).User = TrimSpace h.User := by
  simp only [normalizeHost_eq, setFields, copyMaps, setKVM_eq, setName_eq, setID_eq, setPort_eq,
    setProvider_eq, trimFields]

theorem AMT_normalizeHost : (normalizeHost lower h).AMT = h.AMT := by
  simp only [normalizeHost_eq, setFields, copyMaps, setKVM_eq, setName_eq, setID_eq, setPort_eq,
    setProvider_eq, trimFields]

theorem Provider_normalizeHost :
    (normalizeHost lower h).Provider = (h.trimFields lower).setProvider.Provider := by
  simp only [normalizeHost_eq, setFields, copyMaps, setKVM_eq, setName_eq, setID_eq, setPort_eq]

theorem Provider_setProvider : h.setProvider.Provider =
    if h.Provider = "" then "ipmi" else h.Provider := by
  rw [setProvider_eq]

theorem defaultPort_normalizeHost :
    defaultPort (normalizeHost lower h) = defaultPort (h.trimFields lower).setProvider := by
  have hAMT : (normalizeHost lower h).AMT = (h.trimFields lower).setProvider.AMT := by
    rw [AMT_normalizeHost, setProvider_eq]
    rfl
  rw [defaultPort, defaultPort, AMTTLS, AMTTLS, hAMT, Provider_normalizeHost]

theorem Port_normalizeHost : (normalizeHost lower h).Port =
    if h.Port = 0 then defaultPort (normalizeHost lower h) else h.Port := by
  rw [defaultPort_normalizeHost]
  simp only [normalizeHost_eq, setFields, copyMaps, setKVM_eq, setName_eq, setID_eq, setPort_eq,
    setProvider_eq, trimFields]

theorem KVM_normalizeHost : (normalizeHost lower h).KVM =
    if (normalizeHost lower h).Provider = "ipmi" ∧ h.KVM = none then some { Port := 7578 }
    else h.KVM := by
  rw [Provider_normalizeHost]
  simp only [normalizeHost_eq, setFields, copyMaps, setKVM_eq, setName_eq, setID_eq, setPort_eq,
    setProvider_eq, trimFields]

end Fields

theorem trimFields_normalizeHost (hlower : LowerLaws lower) (h : HostConfig) :
    (normalizeHost lower h).trimFields lower = normalizeHost lower h := by
  have hid : TrimSpace (normalizeHost lower h).ID = (normalizeHost lower h).ID := by
    rw [ID_normalizeHost]
    split
    case isTrue => exact TrimSpace_of_trimmed (sanitizeID_spec _).1
    case isFalse => exact TrimSpace_TrimSpace _
  have hname : TrimSpace (normalizeHost lower h).Name = (normalizeHost lower h).Name := by
    rw [Name_normalizeHost]
    split <;> exact TrimSpace_TrimSpace _
  have hprovider : ToLower lower (TrimSpace (normalizeHost lower h).Provider) =
      (normalizeHost lower h).Provider := by
    rw [Provider_normalizeHost, Provider_setProvider]
    split
    case isTrue =>
      have htrim : TrimSpace "ipmi" = "ipmi" := by decide
      rw [htrim]
      exact congrArg String.ofList (by simp [hlower.ascii])
    case isFalse => exact optionKey_optionKey hlower h.Provider
  have hhost : TrimSpace (normalizeHost lower h).Host = (normalizeHost lower h).Host := by
    rw [Host_normalizeHost, TrimSpace_TrimSpace]
  have huser : TrimSpace (normalizeHost lower h).User = (normalizeHost lower h).User := by
    rw [User_normalizeHost, TrimSpace_TrimSpace]
  rw [trimFields, hid, hname, hprovider, hhost, huser]

theorem isNormal_normalizeHost (hlower : LowerLaws lower) (h : HostConfig) :
    IsNormal lower (normalizeHost lower h) where
  fields := trimFields_normalizeHost hlower h
  provider := by
    rw [Provider_normalizeHost, Provider_setProvider]
    split
    case isTrue => decide
    case isFalse hne => exact hne
  port := by
    rw [Port_normalizeHost]
    split
    case isTrue => exact fun hzero => hzero
    case isFalse hne => exact fun hzero => absurd hzero hne
  id := by
    rw [ID_normalizeHost]
    split
    case isTrue => exact (sanitizeID_spec _).2
    case isFalse hne => exact hne
  name := by
    rw [Name_normalizeHost, Host_normalizeHost]
    split
    case isTrue => exact fun hempty => hempty
    case isFalse hne => exact fun hempty => absurd hempty hne
  kvm := by
    rintro ⟨hipmi, hnone⟩
    rw [KVM_normalizeHost] at hnone
    split_ifs at hnone with hboth
    exact hboth ⟨hipmi, hnone⟩
  maps := by
    have hsensors := copyMap_copyMap TrimSpace_TrimSpace TrimSpace_TrimSpace h.SensorNames
    have hoptions : copyMap (optionKey lower) id (copyMap (optionKey lower) id h.Options) =
        copyMap (optionKey lower) id h.Options :=
      copyMap_copyMap (optionKey_optionKey hlower) (fun _ => rfl) h.Options
    have hs : copyMap TrimSpace TrimSpace (normalizeHost lower h).SensorNames =
        (normalizeHost lower h).SensorNames := by
      simpa only [sensorNames_normalizeHost] using hsensors
    have ho : copyMap (optionKey lower) id (normalizeHost lower h).Options =
        (normalizeHost lower h).Options := by
      simpa only [options_normalizeHost] using hoptions
    rw [copyMaps, hs, ho]

/-- A second run changes nothing, whatever the order in which it visits the maps of the first. -/
def Idempotent (lower : Char → Char) (hosts : List HostConfig) : Prop :=
  ∀ out out', normalizeHosts lower hosts = .ok out → List.Forall₂ SameHost out out' →
    SameResult (normalizeHosts lower out') (.ok out)

theorem unambiguous_normalizeHost (hlower : LowerLaws lower) (h : HostConfig) :
    Unambiguous lower (normalizeHost lower h) := by
  constructor
  · rw [sensorNames_normalizeHost]
    exact consistent_copyMap TrimSpace_TrimSpace TrimSpace_TrimSpace _
  · rw [options_normalizeHost]
    exact consistent_copyMap (optionKey_optionKey hlower) (fun _ => rfl) _

theorem idempotent (hlower : LowerLaws lower) (hosts : List HostConfig) :
    Idempotent lower hosts := by
  intro out out' hout hsame
  rw [normalizeHosts] at hout
  split_ifs at hout with hnil
  cases hout
  have hclear : ∀ h ∈ hosts.map (normalizeHost lower), Unambiguous lower h := by
    intro h hh
    obtain ⟨g, -, rfl⟩ := List.mem_map.mp hh
    exact unambiguous_normalizeHost hlower g
  have hrefl : List.Forall₂ SameHost (hosts.map (normalizeHost lower))
      (hosts.map (normalizeHost lower)) := List.forall₂_same.mpr fun x _ => SameHost.refl x
  have hresult := orderFree_iff.mpr hclear out' (hosts.map (normalizeHost lower)) hsame hrefl
  have hfixed : (hosts.map (normalizeHost lower)).map (normalizeHost lower) =
      hosts.map (normalizeHost lower) := by
    rw [List.map_map]
    refine List.map_congr_left fun h _ => ?_
    exact (isNormal_normalizeHost hlower h).normalizeHost_eq
  have hne : hosts.map (normalizeHost lower) ≠ [] := by simpa using hnil
  rwa [normalizeHosts_of_ne hne, hfixed] at hresult

/-- Two runs on the same inventory agree, and a second run changes nothing. -/
structure Stable (lower : Char → Char) (hosts : List HostConfig) : Prop where
  orderFree : OrderFree lower hosts
  idempotent : Idempotent lower hosts

/-- The results depend on the order of the maps exactly when kept entries of one map collide with
different values. -/
theorem normalizeHosts_stable_iff (hlower : LowerLaws lower) (hosts : List HostConfig) :
    Stable lower hosts ↔ ∀ h ∈ hosts, Unambiguous lower h :=
  ⟨fun hstable => orderFree_iff.mp hstable.orderFree,
    fun hclear => ⟨orderFree_iff.mpr hclear, idempotent hlower hosts⟩⟩

theorem toNat_toLower (c : Char) :
    c.toLower.toNat = if 65 ≤ c.toNat ∧ c.toNat ≤ 90 then c.toNat + 32 else c.toNat := by
  have hval (d : Char) : d.toNat = d.val.toNat := rfl
  rw [Char.toLower]
  simp only [hval, ge_iff_le, UInt32.le_iff_toNat_le]
  split
  case isTrue hupper =>
    rw [if_pos (by simpa using hupper)]
    simp only [UInt32.toNat_add]
    simp at hupper ⊢
    omega
  case isFalse hupper => rw [if_neg (by simpa using hupper)]

/-- The ASCII case mapping has the laws. -/
theorem lowerLaws_toLower : LowerLaws Char.toLower where
  idem c := by
    refine Char.ext (UInt32.toNat_inj.mp ?_)
    change c.toLower.toLower.toNat = c.toLower.toNat
    rw [toNat_toLower, toNat_toLower]
    split_ifs <;> omega
  space c := by
    simp only [isSpace, toNat_toLower]
    split_ifs with hupper
    · refine decide_eq_decide.mpr ?_
      simp only [List.mem_cons, List.not_mem_nil, or_false]
      omega
    · rfl
  ascii c hc := by
    have hlower : 97 ≤ c.toNat := by
      simp only [Char.isLower, ge_iff_le, UInt32.le_iff_toNat_le, Bool.and_eq_true,
        decide_eq_true_eq] at hc
      exact hc.1
    refine Char.ext (UInt32.toNat_inj.mp ?_)
    change c.toLower.toNat = c.toNat
    rw [toNat_toLower, if_neg (by omega)]

/-- An entry with options under the keys `IPMI` and `ipmi`. -/
def twoCases : HostConfig :=
  { ID := "node1", Host := "10.0.0.1", User := "admin", Password := "secret"
    Options := ⟨[("IPMI", "\x7b\"a\":1\x7d"), ("ipmi", "\x7b\"a\":2\x7d")], by decide⟩ }

/-- The options of a provider are those of the key visited last. -/
theorem twoCases_unstable : ¬ Stable Char.toLower [twoCases] := by
  intro hstable
  have hclear := orderFree_iff.mp hstable.orderFree twoCases (by simp)
  have hsame := hclear.options ("ipmi", "\x7b\"a\":1\x7d") (by decide)
    ("ipmi", "\x7b\"a\":2\x7d") (by decide) rfl
  exact absurd hsame (by decide)

/-- One key for each provider. -/
theorem stable_one_case :
    Stable Char.toLower [{ twoCases with Options := ⟨[(" IPMI", "\x7b\x7d")], by decide⟩ }] := by
  refine (normalizeHosts_stable_iff lowerLaws_toLower _).mpr fun h hh => ?_
  rw [List.mem_singleton] at hh
  subst hh
  constructor
  · intro x hx
    cases hx
  · intro x hx y hy _
    rw [List.mem_singleton.mp hx, List.mem_singleton.mp hy]

end Outband.Inventory
