import Mathlib.Data.List.Infix
import Mathlib.Data.String.Basic
import Outband.Bmc.Timestamps

/-!
# The event-log cache

Every adapter answers `SEL` from a cache that is twelve seconds old at most. A query
reads the whole log of the BMC, brings it into the order newest first, caches it and
cuts it to the limit of the call. The backends of an iDRAC cut it to the limit
themselves, so that the adapter caches what is left. An `Adapter` is what the clients
differ in (`client.go` of `internal/ipmi`, `internal/ilo`, `internal/amt` and
`internal/idrac`, with `redfish.go`, `wsman.go` and `web.go`).

## Implementation notes

A call comes with the reply that the BMC gives if it is asked. A cached log carries
the call that filled it; no step depends on more of it than its time. Times are in
nanoseconds.
-/

namespace Outband.Bmc.EventLog

open Foundation Timestamps
open Inventory (GoMap ToLower)

structure SELEntry where
  ID : String
  Timestamp : Int
  SensorType : String
  SensorName : String
  Description : String
  Direction : String := ""
  Severity : String
  deriving DecidableEq

def truncateSEL (entries : List SELEntry) (limit : Nat) : List SELEntry := entries.take limit

/-! ### Order -/

/-- Numbers first and the highest of them before the others. -/
def numericLess (tie : SELEntry → SELEntry → Bool) (a b : SELEntry) : Bool :=
  if Atoi a.ID ≠ 0 ∨ Atoi b.ID ≠ 0 then Atoi a.ID > Atoi b.ID else tie a b

def idLess (a b : SELEntry) : Bool := b.ID < a.ID

/-- `sort.SliceStable`. -/
def sortStable (less : SELEntry → SELEntry → Bool) (entries : List SELEntry) : List SELEntry :=
  entries.mergeSort fun a b => !less b a

def timeLess (a b : SELEntry) : Bool :=
  if a.Timestamp ≠ b.Timestamp then a.Timestamp > b.Timestamp else idLess a b

def sortSELDesc (entries : List SELEntry) : List SELEntry :=
  sortStable (numericLess timeLess) entries

/-- A strict weak order, for which all stable sorts agree. -/
structure WeakOrder (less : SELEntry → SELEntry → Bool) : Prop where
  asymm : ∀ a b, less a b = true → less b a = false
  trans : ∀ a b c, less b a = false → less c b = false → less c a = false

theorem weakOrder_idLess : WeakOrder idLess where
  asymm a b h := by
    simp only [idLess, decide_eq_true_eq, decide_eq_false_iff_not] at h ⊢
    exact lt_asymm h
  trans a b c hab hbc := by
    simp only [idLess, decide_eq_false_iff_not, not_lt] at hab hbc ⊢
    exact hbc.trans hab

theorem timeLess_eq (a b : SELEntry) : timeLess a b = true ↔
    b.Timestamp < a.Timestamp ∨ a.Timestamp = b.Timestamp ∧ idLess a b = true := by
  rw [timeLess]
  split
  case isTrue hne => simp [hne]
  case isFalse heq =>
    have hsame : a.Timestamp = b.Timestamp := not_not.mp heq
    simp [hsame]

theorem weakOrder_timeLess : WeakOrder timeLess where
  asymm a b h := by
    rw [Bool.eq_false_iff, Ne, timeLess_eq]
    rw [timeLess_eq] at h
    rintro (hlt | ⟨heq, hid⟩)
    · omega
    · rcases h with hlt | ⟨-, hid'⟩
      · omega
      · exact absurd hid (by simp [weakOrder_idLess.asymm a b hid'])
  trans a b c hab hbc := by
    rw [Bool.eq_false_iff, Ne, timeLess_eq] at hab hbc ⊢
    rintro (hlt | ⟨heq, hid⟩)
    · omega
    · have hcb : c.Timestamp = b.Timestamp := by omega
      have hba : b.Timestamp = a.Timestamp := by omega
      have hab' : idLess b a = false := Bool.eq_false_iff.mpr fun h => hab (.inr ⟨hba, h⟩)
      have hbc' : idLess c b = false := Bool.eq_false_iff.mpr fun h => hbc (.inr ⟨hcb, h⟩)
      exact absurd hid (by simp [weakOrder_idLess.trans a b c hab' hbc'])

theorem numericLess_eq (tie : SELEntry → SELEntry → Bool) (a b : SELEntry) :
    numericLess tie a b = true ↔
      Atoi b.ID < Atoi a.ID ∨ Atoi a.ID = 0 ∧ Atoi b.ID = 0 ∧ tie a b = true := by
  rw [numericLess]
  split
  case isTrue hne =>
    rw [decide_eq_true_eq]
    refine ⟨.inl, ?_⟩
    rintro (hlt | ⟨ha, hb, -⟩)
    · exact hlt
    · exact absurd hne (by simp [ha, hb])
  case isFalse hzero =>
    rw [not_or, not_not, not_not] at hzero
    simp [hzero.1, hzero.2]

theorem weakOrder_numericLess {tie : SELEntry → SELEntry → Bool} (h : WeakOrder tie) :
    WeakOrder (numericLess tie) where
  asymm a b hab := by
    rw [Bool.eq_false_iff, Ne, numericLess_eq]
    rw [numericLess_eq] at hab
    rintro (hlt | ⟨hb, ha, htie⟩)
    · omega
    · rcases hab with hlt | ⟨-, -, htie'⟩
      · omega
      · exact absurd htie (by simp [h.asymm a b htie'])
  trans a b c hab hbc := by
    rw [Bool.eq_false_iff, Ne, numericLess_eq] at hab hbc ⊢
    rintro (hlt | ⟨hc, ha, htie⟩)
    · omega
    · have hb : Atoi b.ID = 0 := by omega
      have hab' : tie b a = false := Bool.eq_false_iff.mpr fun htie => hab (.inr ⟨hb, ha, htie⟩)
      have hbc' : tie c b = false := Bool.eq_false_iff.mpr fun htie => hbc (.inr ⟨hc, hb, htie⟩)
      exact absurd htie (by simp [h.trans a b c hab' hbc'])

/-- No entry of a sorted log should stand before one that follows it. -/
theorem pairwise_sortStable {less : SELEntry → SELEntry → Bool} (h : WeakOrder less)
    (entries : List SELEntry) :
    (sortStable less entries).Pairwise fun a b => less b a = false := by
  have htrans (a b c : SELEntry) (hab : (!less b a) = true) (hbc : (!less c b) = true) :
      (!less c a) = true := by
    simp only [Bool.not_eq_eq_eq_not, Bool.not_true] at hab hbc ⊢
    exact h.trans a b c hab hbc
  have htotal (a b : SELEntry) : (!less b a || !less a b) = true := by
    cases hba : less b a with
    | false => rfl
    | true => simp [h.asymm b a hba]
  have hsorted : (entries.mergeSort fun a b => !less b a).Pairwise fun a b => (!less b a) = true :=
    List.pairwise_mergeSort htrans htotal entries
  simpa [sortStable] using hsorted

/-- The log of an iDRAC is sorted, by number, then time, then text. -/
theorem pairwise_sortSELDesc (entries : List SELEntry) :
    (sortSELDesc entries).Pairwise fun a b => numericLess timeLess b a = false :=
  pairwise_sortStable (weakOrder_numericLess weakOrder_timeLess) entries

/-! ### What the adapters read -/

/-- The part of a log record that `goipmi` decodes, with the texts it has for it. -/
structure StandardRecord where
  Timestamp : Int
  SensorType : String
  SensorNumber : BitVec 8
  EventString : String
  EventDir : String
  EventSeverity : String

structure IPMIRecord where
  RecordID : BitVec 16
  Standard : Option StandardRecord

/-- The verb `%0kx`. -/
def hex (k n : Nat) : String := String.ofList ((Nat.toDigits 16 n).leftpad k '0')

def ipmiEntry (sel : Option IPMIRecord) : Option SELEntry := do
  let record ← sel
  let s ← record.Standard
  some {
    ID := hex 4 record.RecordID.toNat
    Timestamp := s.Timestamp
    SensorType := s.SensorType
    SensorName := s.SensorType ++ " (#" ++ hex 2 s.SensorNumber.toNat ++ ")"
    Description := s.EventString
    Direction := s.EventDir
    Severity := s.EventSeverity }

/-- `records[i]` for falling `i`, a hundred entries at most. -/
def ipmiEntries (records : List (Option IPMIRecord)) : List SELEntry :=
  (records.reverse.filterMap ipmiEntry).take 100

/-- The first text that is not empty. -/
def firstText (texts : List String) : String := (texts.find? (· ≠ "")).getD ""

/-- The first time that is not the zero time. -/
def firstTime (times : List Int) : Int := (times.find? (· ≠ 0)).getD 0

/-- A member of the collection that an iLO sends. -/
structure IloLogEntry where
  ID : String := ""
  Name : String := ""
  Message : String := ""
  Severity : String := ""
  EntryType : String := ""
  OemRecordFormat : String := ""
  Created : String := ""
  EventTimestamp : String := ""
  RecordID : Int := 0
  Number : Int := 0

variable (layouts : Layouts)

def iloEntry (it : IloLogEntry) : Option SELEntry :=
  if it.Message = "" ∧ it.ID = "" ∧ it.RecordID = 0 then none
  else
    let id := if it.ID = "" ∧ it.RecordID ≠ 0 then toString it.RecordID else it.ID
    some {
      ID := if id = "" ∧ it.Number ≠ 0 then toString it.Number else id
      Timestamp := firstTime
        [parseRedfishTime layouts it.Created.toList,
          parseRedfishTime layouts it.EventTimestamp.toList]
      SensorType := firstText [it.OemRecordFormat, it.EntryType]
      SensorName := it.Name
      Description := it.Message
      Severity := it.Severity }

/-- The collection of an iLO, under either of its two names. -/
def iloEntries (coll : List IloLogEntry × List IloLogEntry) : List SELEntry :=
  let raw := if coll.1.length = 0 then coll.2 else coll.1
  sortStable (numericLess idLess) (raw.filterMap (iloEntry layouts))

/-- A member of the collection that an iDRAC sends. -/
structure IdracLogEntry where
  ID : String := ""
  Name : String := ""
  Message : String := ""
  Severity : String := ""
  EntryType : String := ""
  SensorType : String := ""
  Created : String := ""
  EventTimestamp : String := ""
  EntryID : Int := 0

def redfishEntry (it : IdracLogEntry) : Option SELEntry :=
  if it.Message = "" ∧ it.ID = "" ∧ it.EntryID = 0 then none
  else some {
    ID := if it.ID = "" ∧ it.EntryID ≠ 0 then toString it.EntryID else it.ID
    Timestamp := firstTime
      [parseRedfishTime layouts it.Created.toList,
        parseRedfishTime layouts it.EventTimestamp.toList]
    SensorType := firstText [it.SensorType, it.EntryType]
    SensorName := it.Name
    Description := it.Message
    Severity := it.Severity }

def redfishEntries (members : List IdracLogEntry) : List SELEntry :=
  sortSELDesc (members.filterMap (redfishEntry layouts))

/-- `it[k]`. -/
def get (it : GoMap String) (k : String) : String := ((it.find k).map Prod.snd).getD ""

def wsmanEntry (it : GoMap String) : Option SELEntry :=
  let id := firstText [get it "RecordID", get it "InstanceID"]
  let msg := firstText [get it "Message", get it "Description"]
  if id = "" ∧ msg = "" then none
  else some {
    ID := id
    Timestamp := firstTime
      [parseDellTimestamp (get it "CreationTimeStamp").toList,
        parseRedfishTime layouts (get it "CreationTimeStamp").toList]
    SensorType := get it "SensorType"
    SensorName := get it "SensorName"
    Description := msg
    Severity := get it "PerceivedSeverity" }

def wsmanEntries (items : List (GoMap String)) : List SELEntry :=
  sortSELDesc (items.filterMap (wsmanEntry layouts))

def amtEntry (it : GoMap String) (i : Nat) : SELEntry where
  ID := toString i
  Timestamp := firstTime
    [parseAMTTime layouts (get it "CreationTimeStamp").toList,
      parseAMTTime layouts (get it "TimeStamp").toList]
  SensorType := get it "EventSensorType"
  SensorName := get it "DeviceAddress"
  Description := firstText [get it "Description", get it "EventData", get it "Message"]
  Severity := get it "EventType"

def amtEntries (items : List (GoMap String)) : List SELEntry :=
  (items.zipIdx.map fun it => amtEntry layouts it.1 it.2).reverse

def isUnsupportedClass (lower : Char → Char) (err : String) : Bool :=
  let msg := (ToLower lower err).toList
  "fault".toList <:+: msg ∨ "destination unreachable".toList <:+: msg ∨
    "not found".toList <:+: msg ∨ "http 400".toList <:+: msg ∨ "http 500".toList <:+: msg

/-! ### The adapters -/

/-- What an adapter does with the reply to a query. -/
structure Adapter where
  Raw : Type
  /-- All entries of a log, newest first. -/
  read : Raw → List SELEntry
  /-- The backend cuts the entries to the limit before they are cached. -/
  truncatesFirst : Bool := false
  /-- An error that stands for an empty log. -/
  unsupported : String → Bool := fun _ => false

inductive Kind
  | ipmi
  | ilo
  | amt
  | idracRedfish
  | idracWSMAN
  | idracWeb
  deriving DecidableEq, Repr

variable (lower : Char → Char)

def adapter : Kind → Adapter
  | .ipmi => { Raw := List (Option IPMIRecord), read := ipmiEntries }
  | .ilo => { Raw := List IloLogEntry × List IloLogEntry, read := iloEntries layouts }
  | .amt => {
      Raw := List (GoMap String)
      read := amtEntries layouts
      unsupported := isUnsupportedClass lower }
  | .idracRedfish => {
      Raw := List IdracLogEntry, read := redfishEntries layouts, truncatesFirst := true }
  | .idracWSMAN => {
      Raw := List (GoMap String), read := wsmanEntries layouts, truncatesFirst := true }
  | .idracWeb => { Raw := Unit, read := fun _ => [], truncatesFirst := true }

/-- A call: when it looks at the cache and when it stores what it has read, its limit, and the reply
to a query. -/
structure Call (A : Adapter) where
  start : Nat
  stored : Nat
  requested : Int
  reply : Except String A.Raw

variable {A : Adapter}

/-- The limit, which is 50 if none is given. -/
def Call.limit (c : Call A) : Nat := if c.requested ≤ 0 then 50 else c.requested.toNat

namespace Adapter

/-- What a query returns and caches. -/
def query (A : Adapter) (limit : Nat) : Except String A.Raw → Except String (List SELEntry)
  | .ok raw => .ok (if A.truncatesFirst then truncateSEL (A.read raw) limit else A.read raw)
  | .error err => if A.unsupported err then .ok [] else .error err

end Adapter

/-- The cache of an adapter, with the call that filled it. -/
structure CachedSEL (A : Adapter) where
  entries : List SELEntry
  filler : Call A
  filled : A.query filler.limit filler.reply = .ok entries

def cacheLifetime : Nat := 12 * 1000000000

/-- The cache that answers a call, if it is not too old. -/
def served (cache : Option (CachedSEL A)) (c : Call A) : Option (CachedSEL A) :=
  cache.filter fun cached => c.start - cached.filler.stored < cacheLifetime

/-- A call, and the cache that it leaves. -/
def SEL (cache : Option (CachedSEL A)) (c : Call A) :
    Except String (List SELEntry) × Option (CachedSEL A) :=
  match served cache c with
  | some cached => (.ok (truncateSEL cached.entries c.limit), cache)
  | none =>
      match h : A.query c.limit c.reply with
      | .ok entries => (.ok (truncateSEL entries c.limit), some ⟨entries, c, h⟩)
      | .error err => (.error err, cache)

/-- The cache after a sequence of calls. -/
def run (calls : List (Call A)) : Option (CachedSEL A) :=
  calls.foldl (fun cache c => (SEL cache c).2) none

/-! ### Histories -/

/-- While the cache answers, the log stays as it was when the cache was filled. -/
def Steady (calls : List (Call A)) : Prop :=
  ∀ before c after, calls = before ++ c :: after →
    ∀ cached ∈ served (run before) c, c.reply = cached.filler.reply

/-- Every call returns what it would return without a cache. -/
def Transparent (calls : List (Call A)) : Prop :=
  ∀ before c after, calls = before ++ c :: after → (SEL (run before) c).1 = (SEL none c).1

/-- A call asks for no more entries than another did, or the whole log fits the other's limit. -/
def Fits (c filler : Call A) : Prop :=
  c.limit ≤ filler.limit ∨ ∀ raw, c.reply = .ok raw → (A.read raw).length ≤ filler.limit

/-- Every call that the cache answers fits the call that filled it. -/
def Covered (calls : List (Call A)) : Prop :=
  ∀ before c after, calls = before ++ c :: after →
    ∀ cached ∈ served (run before) c, Fits c cached.filler

variable {calls : List (Call A)} {cache : Option (CachedSEL A)} {cached : CachedSEL A} {c : Call A}

theorem truncateSEL_truncateSEL (entries : List SELEntry) (m n : Nat) :
    truncateSEL (truncateSEL entries m) n = truncateSEL entries (min n m) := by
  rw [truncateSEL, truncateSEL, truncateSEL, List.take_take]

/-- Cutting twice loses nothing exactly when the first cut is no shorter or takes everything. -/
theorem truncateSEL_min_eq_iff (entries : List SELEntry) (m n : Nat) :
    truncateSEL entries (min n m) = truncateSEL entries n ↔ n ≤ m ∨ entries.length ≤ m := by
  constructor
  · intro h
    have hlength := congrArg List.length h
    rw [truncateSEL, truncateSEL, List.length_take, List.length_take] at hlength
    omega
  · rintro (hle | hle)
    · rw [min_eq_left hle]
    · rw [truncateSEL, truncateSEL]
      rcases le_total n m with hnm | hmn
      · rw [min_eq_left hnm]
      · rw [min_eq_right hmn, List.take_of_length_le hle, List.take_of_length_le (hle.trans hmn)]

theorem SEL_of_served (hserved : served cache c = some cached) :
    (SEL cache c).1 = .ok (truncateSEL cached.entries c.limit) := by
  rw [SEL, hserved]

/-- A call that the cache does not answer. -/
theorem SEL_of_not_served (hserved : served cache c = none) :
    (SEL cache c).1 = (A.query c.limit c.reply).map (truncateSEL · c.limit) := by
  rw [SEL, hserved]
  dsimp only
  split
  case h_1 entries h => exact (congrArg (Except.map (truncateSEL · c.limit)) h).symm
  case h_2 err h => exact (congrArg (Except.map (truncateSEL · c.limit)) h).symm

/-- What the cache answers against what a query answers, for one call. -/
theorem served_eq_iff (hserved : served cache c = some cached)
    (hsteady : c.reply = cached.filler.reply) :
    (SEL cache c).1 = (SEL none c).1 ↔ (A.truncatesFirst = true → Fits c cached.filler) := by
  have hfilled := cached.filled
  rw [← hsteady] at hfilled
  have hfresh : (SEL none c).1 = (A.query c.limit c.reply).map (truncateSEL · c.limit) :=
    SEL_of_not_served rfl
  rw [SEL_of_served hserved, hfresh]
  cases hreply : c.reply with
  | error err =>
      rw [hreply, Adapter.query] at hfilled
      rw [Adapter.query]
      split at hfilled
      case isTrue hunsupported =>
        rw [if_pos hunsupported, ← Except.ok.inj hfilled]
        refine iff_of_true rfl fun _ => .inr fun raw hraw => ?_
        rw [hreply] at hraw
        cases hraw
      case isFalse => cases hfilled
  | ok raw =>
      rw [hreply, Adapter.query] at hfilled
      rw [Adapter.query, ← Except.ok.inj hfilled]
      cases htruncates : A.truncatesFirst with
      | false => exact iff_of_true rfl (by simp)
      | true =>
          simp only [if_true, Except.map, Except.ok.injEq, truncateSEL_truncateSEL, min_self,
            truncateSEL_min_eq_iff, forall_const, Fits, hreply, forall_eq']

theorem transparent_iff_covered (hsteady : Steady calls) :
    Transparent calls ↔ (A.truncatesFirst = true → Covered calls) := by
  constructor
  · intro htransparent htruncates before c after hcalls cached hserved
    have hsame := htransparent before c after hcalls
    rw [served_eq_iff hserved (hsteady before c after hcalls cached hserved)] at hsame
    exact hsame htruncates
  · intro hcovered before c after hcalls
    cases hserved : served (run before) c with
    | none => rw [SEL_of_not_served hserved, SEL_of_not_served rfl]
    | some cached =>
        rw [served_eq_iff hserved (hsteady before c after hcalls cached hserved)]
        exact fun htruncates => hcovered htruncates before c after hcalls cached hserved

/-- A cache is filled by one of the calls. -/
theorem filler_mem : ∀ cached ∈ run calls, cached.filler ∈ calls := by
  induction calls using List.reverseRecOn with
  | nil =>
      intro cached hcached
      cases hcached
  | append_singleton before c ih =>
      intro cached hcached
      rw [run, List.foldl_append, List.foldl_cons, List.foldl_nil, ← run, SEL] at hcached
      split at hcached
      case h_1 => exact List.mem_append_left _ (ih cached hcached)
      case h_2 =>
        split at hcached
        case h_1 =>
          cases hcached
          exact List.mem_append_right _ List.mem_cons_self
        case h_2 => exact List.mem_append_left _ (ih cached hcached)

/-- A log that never changes is steady. -/
theorem steady_of_forall {reply : Except String A.Raw} (h : ∀ c ∈ calls, c.reply = reply) :
    Steady calls := by
  rintro before c after rfl cached hcached
  have hmem := filler_mem cached (Option.mem_filter_iff.mp hcached).1
  rw [h c (by simp), h cached.filler (List.mem_append_left _ hmem)]

/-- The caches of IPMI, iLO and AMT never show. That of an iDRAC shows exactly when, over Redfish or
WS-MAN, it answers a call for more entries than the call that filled it had asked for, of a log that
has more. -/
theorem SEL_transparent_iff (layouts : Layouts) (lower : Char → Char) (k : Kind)
    (calls : List (Call (adapter layouts lower k))) (hsteady : Steady calls) :
    Transparent calls ↔ (k = .idracRedfish ∨ k = .idracWSMAN → Covered calls) := by
  rw [transparent_iff_covered hsteady]
  cases k with
  | ipmi => simp [adapter]
  | ilo => simp [adapter]
  | amt => simp [adapter]
  | idracRedfish => simp [adapter]
  | idracWSMAN => simp [adapter]
  | idracWeb =>
      refine iff_of_true (fun _ before c after _ cached _ => ?_) (by simp)
      exact .inr fun raw _ => Nat.zero_le _

def noLayouts : Layouts := ⟨fun _ => none, fun _ => none⟩

/-- A call for `n` entries, `t` seconds after the first. -/
def callAt {A : Adapter} (t : Nat) (n : Int) (raw : A.Raw) : Call A :=
  ⟨t * 1000000000, t * 1000000000, n, .ok raw⟩

def twoMembers : List IdracLogEntry :=
  [{ ID := "1", Message := "a" }, { ID := "2", Message := "b" }]

theorem length_redfishEntries (layouts : Layouts) :
    (redfishEntries layouts twoMembers).length = 2 := by
  rw [redfishEntries, sortSELDesc, sortStable, List.length_mergeSort]
  rfl

/-- A call for one entry and then a call for two. -/
def redfishCalls : List (Call (adapter noLayouts Char.toLower .idracRedfish)) :=
  [callAt 0 1 twoMembers, callAt 5 2 twoMembers]

/-- The second call gets one entry where the log has two. -/
theorem redfishCalls_not_transparent : Steady redfishCalls ∧ ¬ Transparent redfishCalls := by
  have hreply : ∀ c ∈ redfishCalls, c.reply = .ok twoMembers := by
    simp [redfishCalls, callAt]
  have hsteady : Steady redfishCalls := steady_of_forall hreply
  refine ⟨hsteady, fun htransparent => ?_⟩
  have hcovered := (transparent_iff_covered hsteady).mp htransparent rfl [callAt 0 1 twoMembers]
    (callAt 5 2 twoMembers) [] rfl
  rcases hcovered _ rfl with hlimit | hlength
  · exact absurd hlimit (by decide)
  · have htwo := hlength twoMembers rfl
    change (redfishEntries noLayouts twoMembers).length ≤ 1 at htwo
    rw [length_redfishEntries] at htwo
    omega

def twoRecords : List (Option IPMIRecord) :=
  let s : StandardRecord := ⟨0, "Fan", 1, "Lower Critical", "Assertion", "critical"⟩
  [some ⟨1, some s⟩, some ⟨2, some s⟩]

/-- The same limits, over IPMI. -/
def ipmiCalls : List (Call (adapter noLayouts Char.toLower .ipmi)) :=
  [callAt 0 1 twoRecords, callAt 5 2 twoRecords]

theorem ipmiCalls_transparent : Transparent ipmiCalls := by
  have hreply : ∀ c ∈ ipmiCalls, c.reply = .ok twoRecords := by simp [ipmiCalls, callAt]
  exact (SEL_transparent_iff noLayouts Char.toLower .ipmi ipmiCalls
    (steady_of_forall hreply)).mpr (by simp)

end Outband.Bmc.EventLog
