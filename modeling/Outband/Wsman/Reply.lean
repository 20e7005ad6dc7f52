import Outband.Foundation.KeyedTable
import Outband.Foundation.Markup
import Outband.Inventory.Config

/-!
# Reading WS-MAN replies

`hasSOAPFault`, `allLocalText`, `firstLocalText` and `eachNamedElement`, which
`internal/amt/wsman.go` and `internal/idrac/wsman.go` share word for word. They go through the
tokens of a reply once. Of a whole document they give what it says: every outermost element of
the name, with the texts of the elements right below it. Of a document that is cut short they
give the beginning of that.

## Implementation notes

The tokens are those of `encoding/xml`, with the local names. A decoder that has come to the end
or to an error gives no more tokens, whatever it is asked.
-/

namespace Outband.Wsman

open Foundation
open Inventory (TrimSpace)

/-- Texts by name. -/
abbrev Fields := KeyedTable (Prod.fst : String × String → String)

/-- The text under a name, empty when there is none. -/
def Fields.get (fields : Fields) (name : String) : String :=
  ((fields.find name).map Prod.snd).getD ""

def Fields.set (fields : Fields) (name value : String) : Fields := fields.upsert (name, value)

def hasSOAPFault : List Token → Bool
  | [] => false
  | .start name :: rest => if name = "Fault" then true else hasSOAPFault rest
  | .stop :: rest | .text _ :: rest | .other :: rest => hasSOAPFault rest

def allLocalText (localName : String) : List Token → List String
  | [] => []
  | .start name :: rest =>
      if name = localName then
        match h : decodeText 0 "" rest with
        | none => []
        | some (v, rest) => TrimSpace v :: allLocalText localName rest
      else allLocalText localName rest
  | .stop :: rest | .text _ :: rest | .other :: rest => allLocalText localName rest
termination_by tokens => tokens.length
decreasing_by
  · exact Nat.lt_succ_of_lt (length_of_decodeText h)
  all_goals exact Nat.lt_succ_self _

/-- The first of them, empty when there is none. -/
def firstLocalText (tokens : List Token) (localName : String) : String :=
  (allLocalText localName tokens).head?.getD ""

/-- The loop over the tokens of one element, `depth` elements deep. -/
def collectFields : Nat → Fields → List Token → Fields × List Token
  | 0, fields, tokens => (fields, tokens)
  | _ + 1, fields, [] => (fields, [])
  | depth + 1, fields, .start name :: rest =>
      if depth + 2 = 2 then
        match h : decodeText 0 "" rest with
        | none => (fields, [])
        | some (v, rest) => collectFields (depth + 1) (fields.set name (TrimSpace v)) rest
      else collectFields (depth + 2) fields rest
  | depth + 1, fields, .stop :: rest => collectFields depth fields rest
  | depth + 1, fields, .text _ :: rest | depth + 1, fields, .other :: rest =>
      collectFields (depth + 1) fields rest
termination_by _ _ tokens => tokens.length
decreasing_by
  · exact Nat.lt_succ_of_lt (length_of_decodeText h)
  all_goals exact Nat.lt_succ_self _

theorem length_collectFields (depth : Nat) (fields : Fields) (tokens : List Token) :
    (collectFields depth fields tokens).2.length ≤ tokens.length := by
  fun_induction collectFields depth fields tokens with
  | case1 fields tokens => exact Nat.le_refl _
  | case2 depth fields => exact Nat.le_refl _
  | case3 depth fields name rest hdepth hnone => exact Nat.zero_le _
  | case4 depth fields name rest hdepth text rest' htext ih =>
      exact Nat.le_trans ih (Nat.le_succ_of_le (Nat.le_of_lt (length_of_decodeText htext)))
  | case5 depth fields name rest hdepth ih => exact Nat.le_succ_of_le ih
  | case6 depth fields rest ih => exact Nat.le_succ_of_le ih
  | case7 depth fields data rest ih => exact Nat.le_succ_of_le ih
  | case8 depth fields rest ih => exact Nat.le_succ_of_le ih

def eachNamedElement (localName : String) : List Token → List Fields
  | [] => []
  | .start name :: rest =>
      if name = localName then
        let collected := collectFields 1 .empty rest
        collected.1 :: eachNamedElement localName collected.2
      else eachNamedElement localName rest
  | .stop :: rest | .text _ :: rest | .other :: rest => eachNamedElement localName rest
termination_by tokens => tokens.length
decreasing_by
  · exact Nat.lt_succ_of_le (length_collectFields 1 .empty rest)
  all_goals exact Nat.lt_succ_self _

/-! ### Of a whole document -/

theorem hasSOAPFault_iff_mem (tokens : List Token) :
    hasSOAPFault tokens = true ↔ .start "Fault" ∈ tokens := by
  fun_induction hasSOAPFault tokens with
  | case1 => simp
  | case2 rest => simp
  | case3 name rest hname ih => simp [ih, Ne.symm hname]
  | case4 rest ih => simpa using ih
  | case5 data rest ih => simpa using ih
  | case6 rest ih => simpa using ih

/-- A fault is seen at any depth. -/
theorem hasSOAPFault_iff (f : Forest) : hasSOAPFault f.tokens = true ↔ f.Contains "Fault" := by
  rw [hasSOAPFault_iff_mem, Forest.contains_iff]

/-- The text of an element, as the readers keep it. -/
def trimmedText (f : Forest) : String := TrimSpace f.directText

section

variable {localName name : String} {rest : List Token}

theorem allLocalText_of_decodeText {text : String} {rest' : List Token}
    (h : decodeText 0 "" rest = some (text, rest')) :
    allLocalText localName (.start localName :: rest) =
      TrimSpace text :: allLocalText localName rest' := by
  rw [allLocalText, if_pos rfl]
  split
  case h_1 hnone =>
    rw [h] at hnone
    cases hnone
  case h_2 text₁ rest₁ hsome =>
    rw [h] at hsome
    cases hsome
    rfl

theorem allLocalText_of_ne (h : name ≠ localName) (rest : List Token) :
    allLocalText localName (.start name :: rest) = allLocalText localName rest := by
  rw [allLocalText, if_neg h]

/-- The texts in front of whatever follows the nodes. -/
theorem allLocalText_append (localName : String) (f : Forest) (rest : List Token) :
    allLocalText localName (f.tokens ++ rest) =
      (f.outermost localName).map trimmedText ++ allLocalText localName rest := by
  induction f generalizing rest with
  | nil => rfl
  | text data nodes ih => simpa [Forest.tokens, Forest.outermost, allLocalText] using ih rest
  | other nodes ih => simpa [Forest.tokens, Forest.outermost, allLocalText] using ih rest
  | element name children nodes ihc ih =>
      rw [Forest.tokens, List.cons_append, List.append_assoc, List.cons_append, Forest.outermost]
      by_cases hname : name = localName
      · subst hname
        rw [allLocalText_of_decodeText (decodeText_element children _), ih, if_pos rfl]
        rfl
      · rw [allLocalText_of_ne hname, ihc, allLocalText, ih, if_neg hname, List.map_append,
          List.append_assoc]

theorem collectFields_of_decodeText {fields : Fields} {text : String} {rest' : List Token}
    (h : decodeText 0 "" rest = some (text, rest')) :
    collectFields 1 fields (.start name :: rest) =
      collectFields 1 (fields.set name (TrimSpace text)) rest' := by
  rw [collectFields, if_pos rfl]
  split
  case h_1 hnone =>
    rw [h] at hnone
    cases hnone
  case h_2 text₁ rest₁ hsome =>
    rw [h] at hsome
    cases hsome
    rfl

/-- The elements add their texts to the fields, the last of a name over the others. -/
def Fields.record (fields : Fields) (elements : List (String × Forest)) : Fields :=
  elements.foldl (fun fields e => fields.set e.1 (trimmedText e.2)) fields

theorem collectFields_append (f : Forest) (fields : Fields) (rest : List Token) :
    collectFields 1 fields (f.tokens ++ rest) =
      collectFields 1 (fields.record f.elements) rest := by
  induction f generalizing fields with
  | nil => rfl
  | text data nodes ih => simpa [Forest.tokens, Forest.elements, collectFields] using ih fields
  | other nodes ih => simpa [Forest.tokens, Forest.elements, collectFields] using ih fields
  | element name children nodes ihc ih =>
      rw [Forest.tokens, List.cons_append, List.append_assoc, List.cons_append,
        collectFields_of_decodeText (decodeText_element children _), ih]
      rfl

/-- The fields of an element, from what it holds. -/
def fieldsOf (f : Forest) : Fields := Fields.record .empty f.elements

theorem eachNamedElement_of_eq (f : Forest) (rest : List Token) :
    eachNamedElement localName (.start localName :: (f.tokens ++ .stop :: rest)) =
      fieldsOf f :: eachNamedElement localName rest := by
  have hcollect : collectFields 1 .empty (f.tokens ++ .stop :: rest) = (fieldsOf f, rest) := by
    rw [collectFields_append, collectFields, collectFields, fieldsOf]
  rw [eachNamedElement, if_pos rfl, hcollect]

theorem eachNamedElement_of_ne (h : name ≠ localName) (rest : List Token) :
    eachNamedElement localName (.start name :: rest) = eachNamedElement localName rest := by
  rw [eachNamedElement, if_neg h]

theorem eachNamedElement_append (localName : String) (f : Forest) (rest : List Token) :
    eachNamedElement localName (f.tokens ++ rest) =
      (f.outermost localName).map fieldsOf ++ eachNamedElement localName rest := by
  induction f generalizing rest with
  | nil => rfl
  | text data nodes ih => simpa [Forest.tokens, Forest.outermost, eachNamedElement] using ih rest
  | other nodes ih => simpa [Forest.tokens, Forest.outermost, eachNamedElement] using ih rest
  | element name children nodes ihc ih =>
      rw [Forest.tokens, List.cons_append, List.append_assoc, List.cons_append, Forest.outermost]
      by_cases hname : name = localName
      · subst hname
        rw [eachNamedElement_of_eq, ih, if_pos rfl]
        rfl
      · rw [eachNamedElement_of_ne hname, ihc, eachNamedElement, ih, if_neg hname,
          List.map_append, List.append_assoc]

end

theorem allLocalText_tokens (f : Forest) (localName : String) :
    allLocalText localName f.tokens = (f.outermost localName).map trimmedText := by
  simpa [allLocalText] using allLocalText_append localName f []

/-- Of a whole document the readers give what it says: a fault at any depth, and the texts and
the fields of every outermost element of the name, in order. -/
theorem reply_read (f : Forest) (localName : String) :
    (hasSOAPFault f.tokens = true ↔ f.Contains "Fault") ∧
      allLocalText localName f.tokens = (f.outermost localName).map trimmedText ∧
      eachNamedElement localName f.tokens = (f.outermost localName).map fieldsOf := by
  refine ⟨hasSOAPFault_iff f, allLocalText_tokens f localName, ?_⟩
  simpa [eachNamedElement] using eachNamedElement_append localName f []

/-! ### Of a document that is cut short -/

theorem allLocalText_prefix (localName : String) (cut more : List Token) :
    allLocalText localName cut <+: allLocalText localName (cut ++ more) := by
  fun_induction allLocalText localName cut with
  | case1 => exact List.nil_prefix
  | case2 rest hnone => exact List.nil_prefix
  | case3 rest text rest' htext ih =>
      rw [List.cons_append, allLocalText_of_decodeText (decodeText_append htext more)]
      exact List.cons_prefix_cons.mpr ⟨rfl, ih⟩
  | case4 name rest hname ih => rwa [List.cons_append, allLocalText_of_ne hname]
  | case5 rest ih => rwa [List.cons_append, allLocalText]
  | case6 data rest ih => rwa [List.cons_append, allLocalText]
  | case7 rest ih => rwa [List.cons_append, allLocalText]

/-- The elements that are whole in what there is of a document give their fields. -/
theorem collectFields_cut (f : Forest) (fields : Fields) {cut : List Token}
    (h : cut <+: f.tokens) : ∃ elements, elements <+: f.elements ∧
      collectFields 1 fields cut = (fields.record elements, []) := by
  induction f generalizing fields cut with
  | nil =>
      rw [List.prefix_nil.mp h]
      exact ⟨[], List.nil_prefix, by rw [collectFields]; rfl⟩
  | text data nodes ih =>
      rcases List.prefix_cons_iff.mp h with rfl | ⟨cut, rfl, hcut⟩
      · exact ⟨[], List.nil_prefix, by rw [collectFields]; rfl⟩
      · rw [collectFields]
        exact ih fields hcut
  | other nodes ih =>
      rcases List.prefix_cons_iff.mp h with rfl | ⟨cut, rfl, hcut⟩
      · exact ⟨[], List.nil_prefix, by rw [collectFields]; rfl⟩
      · rw [collectFields]
        exact ih fields hcut
  | element name children nodes ihc ih =>
      rcases List.prefix_cons_iff.mp h with rfl | ⟨cut, rfl, hcut⟩
      · exact ⟨[], List.nil_prefix, by rw [collectFields]; rfl⟩
      cases htext : decodeText 0 "" cut with
      | none =>
          refine ⟨[], List.nil_prefix, ?_⟩
          rw [collectFields, if_pos rfl]
          split
          case h_1 => rfl
          case h_2 text rest hsome =>
            rw [htext] at hsome
            cases hsome
      | some read =>
          obtain ⟨text, rest⟩ := read
          obtain ⟨more, hmore⟩ := hcut
          have hwhole := decodeText_append htext more
          rw [hmore, decodeText_element, Option.some.injEq, Prod.mk.injEq] at hwhole
          obtain ⟨rfl, hrest⟩ := hwhole
          obtain ⟨elements, helements, hcollect⟩ :=
            ih (fields.set name (trimmedText children)) ⟨more, hrest.symm⟩
          refine ⟨(name, children) :: elements,
            List.cons_prefix_cons.mpr ⟨rfl, helements⟩, ?_⟩
          rw [collectFields_of_decodeText htext]
          exact hcollect

/-- What the reader gives of a document that is cut short: the first elements that it finds, and
at most one more with the fields that were read of it. -/
def ReadsCut (localName : String) (cut : List Token) (found : List Forest) : Prop :=
  (∃ whole, whole <+: found ∧ eachNamedElement localName cut = whole.map fieldsOf) ∨
    ∃ whole part elements, whole ++ [part] <+: found ∧ elements <+: part.elements ∧
      eachNamedElement localName cut = whole.map fieldsOf ++ [Fields.record .empty elements]

section

variable {localName : String} {cut : List Token} {found more : List Forest}

theorem ReadsCut.append (h : ReadsCut localName cut found) (more : List Forest) :
    ReadsCut localName cut (found ++ more) := by
  rcases h with ⟨whole, hwhole, hread⟩ | ⟨whole, part, elements, hwhole, helements, hread⟩
  · exact .inl ⟨whole, hwhole.trans (List.prefix_append _ _), hread⟩
  · exact .inr ⟨whole, part, elements, hwhole.trans (List.prefix_append _ _), helements, hread⟩

/-- The elements found in front of a document that is cut short are whole. -/
theorem ReadsCut.behind {cut' : List Token} (h : ReadsCut localName cut found)
    (hread : eachNamedElement localName cut' =
      more.map fieldsOf ++ eachNamedElement localName cut) :
    ReadsCut localName cut' (more ++ found) := by
  rcases h with ⟨whole, hwhole, heq⟩ | ⟨whole, part, elements, hwhole, helements, heq⟩
  · refine .inl ⟨more ++ whole, List.prefix_append_right_inj more |>.mpr hwhole, ?_⟩
    rw [hread, heq, List.map_append]
  · refine .inr ⟨more ++ whole, part, elements, ?_, helements, ?_⟩
    · rw [List.append_assoc]
      exact (List.prefix_append_right_inj more).mpr hwhole
    · rw [hread, heq, List.map_append, List.append_assoc]

/-- A document that ends before its first token says nothing. -/
theorem ReadsCut.nil (found : List Forest) : ReadsCut localName [] found :=
  .inl ⟨[], List.nil_prefix, by rw [eachNamedElement]; rfl⟩

/-- What comes before may name no element. -/
theorem ReadsCut.skip {cut' : List Token} (h : ReadsCut localName cut found)
    (hread : eachNamedElement localName cut' = eachNamedElement localName cut) :
    ReadsCut localName cut' found := by
  change ReadsCut localName cut' ([] ++ found)
  exact h.behind hread

/-- What there is of an element and of what follows it ends inside of the element or behind. -/
theorem cut_element {f rest : List Token} (h : cut <+: f ++ .stop :: rest) :
    cut <+: f ∨ ∃ behind, behind <+: rest ∧ cut = f ++ .stop :: behind := by
  rcases List.prefix_or_prefix_of_prefix h (List.prefix_append f _) with hinside | ⟨cut', rfl⟩
  · exact .inl hinside
  · rcases List.prefix_cons_iff.mp ((List.prefix_append_right_inj f).mp h) with
      rfl | ⟨behind, rfl, hbehind⟩
    · rw [List.append_nil]
      exact .inl (List.prefix_refl f)
    · exact .inr ⟨behind, hbehind, rfl⟩

theorem eachNamedElement_cut (localName : String) (f : Forest) (h : cut <+: f.tokens) :
    ReadsCut localName cut (f.outermost localName) := by
  induction f generalizing cut with
  | nil =>
      rw [List.prefix_nil.mp h]
      exact .nil _
  | text data nodes ih =>
      rcases List.prefix_cons_iff.mp h with rfl | ⟨cut, rfl, hcut⟩
      · exact .nil _
      · exact (ih hcut).skip (by rw [eachNamedElement])
  | other nodes ih =>
      rcases List.prefix_cons_iff.mp h with rfl | ⟨cut, rfl, hcut⟩
      · exact .nil _
      · exact (ih hcut).skip (by rw [eachNamedElement])
  | element name children nodes ihc ih =>
      rcases List.prefix_cons_iff.mp h with rfl | ⟨cut, rfl, hcut⟩
      · exact .nil _
      rw [Forest.outermost]
      by_cases hname : name = localName
      · subst hname
        rw [if_pos rfl]
        rcases cut_element hcut with hinside | ⟨behind, hbehind, rfl⟩
        · obtain ⟨elements, helements, hcollect⟩ := collectFields_cut children .empty hinside
          refine .inr ⟨[], children, elements, List.prefix_append _ _, helements, ?_⟩
          have hnone : eachNamedElement name [] = [] := by rw [eachNamedElement]
          rw [eachNamedElement, if_pos rfl, hcollect]
          exact congrArg (List.cons _) hnone
        · exact (ih hbehind).behind (eachNamedElement_of_eq children behind)
      · rw [if_neg hname]
        rcases cut_element hcut with hinside | ⟨behind, hbehind, rfl⟩
        · exact ((ihc hinside).skip (eachNamedElement_of_ne hname _)).append _
        · refine (ih hbehind).behind ?_
          rw [eachNamedElement_of_ne hname, eachNamedElement_append, eachNamedElement]

end

/-- Of a document that is cut short the readers give the beginning of what the whole says: they
see no fault where there is none, the first text is missing or right, and only the last element
may lack fields. -/
theorem reply_cut (f : Forest) (localName : String) {cut : List Token} (h : cut <+: f.tokens) :
    (hasSOAPFault cut = true → f.Contains "Fault") ∧
      allLocalText localName cut <+: (f.outermost localName).map trimmedText ∧
      (firstLocalText cut localName = "" ∨
        firstLocalText cut localName = firstLocalText f.tokens localName) ∧
      ReadsCut localName cut (f.outermost localName) := by
  have htexts : allLocalText localName cut <+: allLocalText localName f.tokens := by
    obtain ⟨more, hmore⟩ := h
    rw [← hmore]
    exact allLocalText_prefix localName cut more
  refine ⟨?_, allLocalText_tokens f localName ▸ htexts, ?_, eachNamedElement_cut localName f h⟩
  · intro hfault
    rw [Forest.contains_iff]
    exact h.subset ((hasSOAPFault_iff_mem cut).mp hfault)
  · rw [firstLocalText, firstLocalText]
    cases htext : allLocalText localName cut with
    | nil => exact .inl rfl
    | cons text texts =>
        obtain ⟨more, hmore⟩ := htexts
        rw [← hmore, htext]
        exact .inr rfl

/-- The power state of a host, as it is pulled. -/
def powerReply : Forest :=
  .element "PullResponse"
    (.element "DCIM_ComputerSystem"
      (.element "Name" (.text "srv:system" .nil)
        (.element "PowerState" (.text "2" .nil) .nil)) .nil)
    .nil

/-- The reply ends inside of the power state. -/
theorem reply_cut_power :
    (hasSOAPFault (powerReply.tokens.take 7) = true → powerReply.Contains "Fault") ∧
      allLocalText "PowerState" (powerReply.tokens.take 7) <+:
        (powerReply.outermost "PowerState").map trimmedText ∧
      (firstLocalText (powerReply.tokens.take 7) "PowerState" = "" ∨
        firstLocalText (powerReply.tokens.take 7) "PowerState" =
          firstLocalText powerReply.tokens "PowerState") ∧
      ReadsCut "PowerState" (powerReply.tokens.take 7) (powerReply.outermost "PowerState") :=
  reply_cut powerReply "PowerState" (List.take_prefix 7 powerReply.tokens)

end Outband.Wsman
