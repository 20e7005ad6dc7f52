import Outband.Bmc.EventLog
import Outband.Foundation.Dialogue
import Outband.Foundation.Utf8
import Outband.Wsman.Reply

/-!
# The WS-MAN client of the AMT adapter

`post`, `enumeratePull`, `requestStateChange` and `putInstance` of `internal/amt`, as dialogues with
a management engine that may reply anything. What a caller may rely on after a call is said of the
exchanges: `Pulled` and `Failed` tell how a class was read, `Accepted` that a change was made.

## Implementation notes

A request carries what the envelope is made of, without its layout and its running number. The
selectors and the properties of an instance are tables, since a range over a map has no order. A
reply is what the HTTP client returns, and `tokens` is the decoder of `encoding/xml`.
-/

namespace Outband.Amt

open Foundation Wsman
open Utf8 (Bytes)

/-! ### Requests and replies -/

inductive Request
  | enumerate (resourceURI : String)
  | pull (resourceURI context : String)
  | requestStateChange (resourceURI : String) (requestedState : Int) (selectors : Fields)
  | put (resourceURI className : String) (properties selectors : Fields)

structure Response where
  StatusCode : Nat
  /-- The header `WWW-Authenticate`. -/
  challenge : List Char := []
  /-- The header `Location`. -/
  location : List Char := []
  Body : Bytes

/-- A response, or the text of the error of the HTTP client. -/
abbrev Reply := Except String Response

abbrev Log := List (Request × Reply)

abbrev Call := Dialogue Request Reply

/-- A text, in which U+FFFD stands for bytes that are no rune. -/
def text (data : Bytes) : String := String.ofList ((Utf8.runes data).map Char.ofNat)

variable (tokens : Bytes → List Token)

/-- What `post` makes of a reply. -/
def readReply : Reply → Except String (List Token)
  | .error err => .error err
  | .ok resp =>
      let data := resp.Body.take (8 * 2 ^ 20)
      if resp.StatusCode ≠ 200 then
        .error ("amt wsman HTTP " ++ toString resp.StatusCode ++ ": " ++ text (data.take 400))
      else if hasSOAPFault (tokens data) then
        let reason := firstLocalText (tokens data) "Text"
        .error (if reason ≠ "" then "amt wsman fault: " ++ reason else "amt wsman SOAP fault")
      else .ok (tokens data)

def post (req : Request) : Call (Except String (List Token)) :=
  .ask req fun reply => .done (readReply tokens reply)

def enumeratePull (resourceURI : String) : Call (Except String (List Token)) := do
  match ← post tokens (.enumerate resourceURI) with
  | .error err => return .error err
  | .ok enumResp =>
      let ec := firstLocalText enumResp "EnumerationContext"
      if ec = "" then return .error "amt: missing EnumerationContext"
      else post tokens (.pull resourceURI ec)

/-- `ReturnValue` is missing or 0. -/
def Succeeded (data : List Token) : Prop :=
  firstLocalText data "ReturnValue" = "" ∨ firstLocalText data "ReturnValue" = "0"

instance (data : List Token) : Decidable (Succeeded data) := inferInstanceAs (Decidable (_ ∨ _))

def requestStateChange (resourceURI className : String) (requestedState : Int)
    (selectors : Fields) : Call (Except String Unit) := do
  match ← post tokens (.requestStateChange resourceURI requestedState selectors) with
  | .error err => return .error err
  | .ok data =>
      let rc := firstLocalText data "ReturnValue"
      if Succeeded data then return .ok ()
      else return .error (className ++ " RequestStateChange ReturnValue=" ++ rc)

/-- `strings.HasPrefix(k, "__") || k == ""` -/
def skipped (k : String) : Bool := "__".toList <+: k.toList ∨ k = ""

/-- The properties that a PUT writes. -/
def written (fields : Fields) : Fields :=
  ⟨fields.rows.filter fun row => !skipped row.1,
    (List.filter_sublist.map Prod.fst).nodup fields.distinct⟩

def putInstance (resourceURI className : String) (fields selectors : Fields) :
    Call (Except String Unit) := do
  match ← post tokens (.put resourceURI className (written fields) selectors) with
  | .error err => return .error err
  | .ok _ => return .ok ()

/-- The fields that have a text, under these names. -/
def keySelectors (fields : Fields) (keys : List String) : Fields :=
  keys.foldl (fun out k => if fields.get k ≠ "" then out.set k (fields.get k) else out) .empty

/-! ### Exchanges -/

/-- A class of instances, and where it is found. -/
structure Class where
  uri : String
  name : String
  deriving DecidableEq

variable {tokens} {log more : Log} {c : Class} {items : List Fields} {req : Request}

variable (tokens) in
/-- The request was answered well. -/
def Accepted (log : Log) (req : Request) (data : List Token) : Prop :=
  ∃ reply, (req, reply) ∈ log ∧ readReply tokens reply = .ok data

variable (tokens) in
/-- The request was answered with this error. -/
def Refused (log : Log) (req : Request) (err : String) : Prop :=
  ∃ reply, (req, reply) ∈ log ∧ readReply tokens reply = .error err

/-- The request reads the instances of a class. -/
def Request.Pulls (uri : String) : Request → Prop
  | .pull resourceURI _ => resourceURI = uri
  | _ => False

variable (tokens) in
/-- The last time that the class was read it had these instances. -/
def Pulled (log : Log) (c : Class) (items : List Fields) : Prop :=
  ∃ before after context reply data,
    log = before ++ (.pull c.uri context, reply) :: after ∧
      readReply tokens reply = .ok data ∧ eachNamedElement c.name data = items ∧
      ∀ ex ∈ after, ¬ ex.1.Pulls c.uri

variable (tokens) in
/-- The class could not be read, with this error. -/
def Failed (log : Log) (uri err : String) : Prop :=
  Refused tokens log (.enumerate uri) err ∨
    (∃ context, Refused tokens log (.pull uri context) err) ∨
    ∃ data, Accepted tokens log (.enumerate uri) data ∧
      firstLocalText data "EnumerationContext" = "" ∧ err = "amt: missing EnumerationContext"

theorem Accepted.mono {data : List Token} (h : Accepted tokens log req data) (more : Log) :
    Accepted tokens (log ++ more) req data := by
  obtain ⟨reply, hmem, hread⟩ := h
  exact ⟨reply, List.mem_append_left _ hmem, hread⟩

theorem Refused.mono {err : String} (h : Refused tokens log req err) (more : Log) :
    Refused tokens (log ++ more) req err := by
  obtain ⟨reply, hmem, hread⟩ := h
  exact ⟨reply, List.mem_append_left _ hmem, hread⟩

theorem Failed.mono {uri err : String} (h : Failed tokens log uri err) (more : Log) :
    Failed tokens (log ++ more) uri err := by
  rcases h with hrefused | ⟨context, hrefused⟩ | ⟨data, haccepted, hmissing⟩
  · exact .inl (hrefused.mono more)
  · exact .inr (.inl ⟨context, hrefused.mono more⟩)
  · exact .inr (.inr ⟨data, haccepted.mono more, hmissing⟩)

/-- What has been read stays so until the class is read again. -/
theorem Pulled.append (h : Pulled tokens log c items)
    (hmore : ∀ ex ∈ more, ¬ ex.1.Pulls c.uri) : Pulled tokens (log ++ more) c items := by
  obtain ⟨before, after, context, reply, data, rfl, hread, hitems, hafter⟩ := h
  refine ⟨before, after ++ more, context, reply, data, by simp, hread, hitems, ?_⟩
  intro ex hex
  exact (List.mem_append.mp hex).elim (hafter ex) (hmore ex)

/-- An instance is written back without the properties that are skipped. -/
theorem find_written (fields : Fields) (name : String) :
    (written fields).find name = if skipped name then none else fields.find name := by
  have hrow (row : String × String) :
      decide ((!skipped row.1) = true ∧ decide (row.1 = name) = true) =
        (!skipped name && decide (row.1 = name)) := by
    by_cases hname : row.1 = name
    · simp [hname]
    · simp [hname]
  simp only [KeyedTable.find, written, List.find?_filter, hrow]
  cases hskip : skipped name with
  | true => simp
  | false => simp

/-! ### Calls -/

variable {allowed : Log → Request → Prop}

theorem keeps_post (hreq : allowed log req) :
    (post tokens req).Keeps allowed (fun log' out => ∃ reply, log' = log ++ [(req, reply)] ∧
      out = readReply tokens reply) log :=
  ⟨hreq, fun reply => ⟨reply, rfl, rfl⟩⟩

/-- A class is read by two requests, and the second one follows the first. -/
theorem keeps_enumeratePull (c : Class) (henumerate : allowed log (.enumerate c.uri))
    (hpull : ∀ reply data, readReply tokens reply = .ok data →
      firstLocalText data "EnumerationContext" ≠ "" →
        allowed (log ++ [(.enumerate c.uri, reply)])
          (.pull c.uri (firstLocalText data "EnumerationContext"))) :
    (enumeratePull tokens c.uri).Keeps allowed (fun log' out =>
      ∃ more, log' = log ++ more ∧
        (∀ ex ∈ more, ex.1 = .enumerate c.uri ∨ ex.1.Pulls c.uri) ∧
        match out with
        | .ok data => Pulled tokens log' c (eachNamedElement c.name data)
        | .error err => Failed tokens log' c.uri err) log := by
  apply (keeps_post henumerate).bind
  rintro more out ⟨reply, hlog, rfl⟩
  rw [hlog]
  cases hread : readReply tokens reply with
  | error err =>
      exact ⟨_, rfl, by simp, .inl ⟨reply, List.mem_append_right _ List.mem_cons_self, hread⟩⟩
  | ok data =>
      have hmem : (Request.enumerate c.uri, reply) ∈ log ++ [(.enumerate c.uri, reply)] :=
        List.mem_append_right _ List.mem_cons_self
      by_cases hcontext : firstLocalText data "EnumerationContext" = ""
      · simp only [hcontext, if_true]
        exact ⟨_, rfl, by simp, .inr (.inr ⟨data, ⟨reply, hmem, hread⟩, hcontext, rfl⟩)⟩
      · simp only [hcontext, if_false]
        apply (keeps_post (hpull reply data hread hcontext)).mono
        rintro more out ⟨reply', hlog', rfl⟩
        rw [hlog']
        refine ⟨[_, _], List.append_assoc .., by simp [Request.Pulls], ?_⟩
        cases hread' : readReply tokens reply' with
        | error err =>
            exact .inr (.inl ⟨_, reply', List.mem_append_right _ List.mem_cons_self, hread'⟩)
        | ok data' =>
            exact ⟨_, [], _, reply', data', rfl, hread', rfl, List.forall_mem_nil _⟩

/-- A change of state succeeded when it was answered well, with a return value that is 0. -/
theorem keeps_requestStateChange {uri className : String} {n : Int} {selectors : Fields}
    (hreq : allowed log (.requestStateChange uri n selectors)) :
    (requestStateChange tokens uri className n selectors).Keeps allowed (fun log' out =>
      ∃ reply, log' = log ++ [(.requestStateChange uri n selectors, reply)] ∧
        (out = .ok () → ∃ data, readReply tokens reply = .ok data ∧ Succeeded data) ∧
        ∀ err, out = .error err → ∀ data, readReply tokens reply = .ok data → ¬ Succeeded data)
      log := by
  apply (keeps_post hreq).bind
  rintro more out ⟨reply, hlog, rfl⟩
  rw [hlog]
  cases hread : readReply tokens reply with
  | error err =>
      refine ⟨reply, rfl, ?_, ?_⟩
      · rintro ⟨⟩
      · rintro err' - data hdata
        rw [hread] at hdata
        cases hdata
  | ok data =>
      by_cases hrc : Succeeded data
      · simp only [hrc, if_true]
        refine ⟨reply, rfl, fun _ => ⟨data, hread, hrc⟩, ?_⟩
        rintro err ⟨⟩
      · simp only [hrc, if_false]
        refine ⟨reply, rfl, ?_, ?_⟩
        · rintro ⟨⟩
        · intro err _ data' hdata
          cases hread.symm.trans hdata
          exact hrc

theorem keeps_putInstance {uri className : String} {fields selectors : Fields}
    (hreq : allowed log (.put uri className (written fields) selectors)) :
    (putInstance tokens uri className fields selectors).Keeps allowed (fun log' out =>
      ∃ reply, log' = log ++ [(.put uri className (written fields) selectors, reply)] ∧
        (out = .ok () → ∃ data, readReply tokens reply = .ok data) ∧
        ∀ err, out = .error err → readReply tokens reply = .error err) log := by
  apply (keeps_post hreq).bind
  rintro more out ⟨reply, hlog, rfl⟩
  rw [hlog]
  cases hread : readReply tokens reply with
  | error err =>
      refine ⟨reply, rfl, ?_, ?_⟩
      · rintro ⟨⟩
      · rintro err' ⟨⟩
        exact hread
  | ok data =>
      refine ⟨reply, rfl, fun _ => ⟨data, hread⟩, ?_⟩
      rintro err ⟨⟩

end Outband.Amt
