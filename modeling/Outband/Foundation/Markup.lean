import Mathlib.Data.List.Basic

/-!
# Documents of elements and their tokens

A `Forest` is a run of nodes in a document: texts, elements with the nodes they hold, and what is
neither, such as a comment. A decoder gives it as a list of tokens; a list that ends inside of an
element is a document that was cut short. `decodeText` reads the text of an element.
-/

namespace Outband.Foundation

/-- What a decoder gives, one after the other. -/
inductive Token
  | start (name : String)
  | stop
  | text (data : String)
  | other
  deriving DecidableEq, Repr

inductive Forest
  | nil
  | text (data : String) (rest : Forest)
  | other (rest : Forest)
  | element (name : String) (children rest : Forest)
  deriving DecidableEq, Repr

namespace Forest

def tokens : Forest → List Token
  | nil => []
  | text data rest => .text data :: rest.tokens
  | other rest => .other :: rest.tokens
  | element name children rest => .start name :: (children.tokens ++ .stop :: rest.tokens)

/-- The text of the nodes, without that of the elements among them. -/
def directText : Forest → String
  | nil => ""
  | text data rest => data ++ rest.directText
  | other rest => rest.directText
  | element _ _ rest => rest.directText

/-- What the elements of that name hold, in the order of the document. An element inside of
another is not counted. -/
def outermost (name : String) : Forest → List Forest
  | nil => []
  | text _ rest => rest.outermost name
  | other rest => rest.outermost name
  | element name' children rest =>
      (if name' = name then [children] else children.outermost name) ++ rest.outermost name

/-- The elements among the nodes, with what they hold. -/
def elements : Forest → List (String × Forest)
  | nil => []
  | text _ rest => rest.elements
  | other rest => rest.elements
  | element name children rest => (name, children) :: rest.elements

/-- There is an element of that name, at any depth. -/
def Contains (name : String) : Forest → Prop
  | nil => False
  | text _ rest => rest.Contains name
  | other rest => rest.Contains name
  | element name' children rest => name' = name ∨ children.Contains name ∨ rest.Contains name

theorem contains_iff {name : String} (f : Forest) : f.Contains name ↔ .start name ∈ f.tokens := by
  induction f with
  | nil => simp [Contains, tokens]
  | text data rest ih => simp [Contains, tokens, ih]
  | other rest ih => simp [Contains, tokens, ih]
  | element name' children rest ihc ih =>
      simp [Contains, tokens, ihc, ih, eq_comm]

theorem outermost_ne_nil_iff {name : String} (f : Forest) :
    f.outermost name ≠ [] ↔ f.Contains name := by
  induction f with
  | nil => simp [Contains, outermost]
  | text data rest ih => simpa [Contains, outermost] using ih
  | other rest ih => simpa [Contains, outermost] using ih
  | element name' children rest ihc ih =>
      by_cases hname : name' = name
      · simp [Contains, outermost, hname]
      · rw [outermost, if_neg hname, Contains, ← ihc, ← ih, Ne, List.append_eq_nil_iff, not_and_or]
        exact (or_iff_right hname).symm

end Forest

/-- Read the text of an element behind its start, `depth` elements further in. The elements in it
are skipped with their texts. -/
def decodeText : Nat → String → List Token → Option (String × List Token)
  | _, _, [] => none
  | depth, read, .start _ :: rest => decodeText (depth + 1) read rest
  | 0, read, .stop :: rest => some (read, rest)
  | depth + 1, read, .stop :: rest => decodeText depth read rest
  | depth, read, .text data :: rest =>
      decodeText depth (if depth = 0 then read ++ data else read) rest
  | depth, read, .other :: rest => decodeText depth read rest

/-- The nodes of an element that is skipped leave no text. -/
theorem decodeText_skip (f : Forest) (depth : Nat) (read : String) (rest : List Token) :
    decodeText (depth + 1) read (f.tokens ++ rest) = decodeText (depth + 1) read rest := by
  induction f generalizing depth rest with
  | nil => rfl
  | text data nodes ih => simpa [Forest.tokens, decodeText] using ih depth rest
  | other nodes ih => simpa [Forest.tokens, decodeText] using ih depth rest
  | element name children nodes ihc ih =>
      simp only [Forest.tokens, List.cons_append, List.append_assoc, decodeText]
      rw [ihc, decodeText, ih]

/-- The nodes of the element itself leave their text. -/
theorem decodeText_tokens (f : Forest) (read : String) (rest : List Token) :
    decodeText 0 read (f.tokens ++ rest) = decodeText 0 (read ++ f.directText) rest := by
  induction f generalizing read with
  | nil => simp [Forest.tokens, Forest.directText]
  | text data nodes ih =>
      simp [Forest.tokens, decodeText, Forest.directText, ih, String.append_assoc]
  | other nodes ih => simp [Forest.tokens, decodeText, Forest.directText, ih]
  | element name children nodes ihc ih =>
      simp only [Forest.tokens, List.cons_append, List.append_assoc, decodeText, Forest.directText]
      rw [decodeText_skip, decodeText, ih]

theorem decodeText_element (f : Forest) (rest : List Token) :
    decodeText 0 "" (f.tokens ++ .stop :: rest) = some (f.directText, rest) := by
  rw [decodeText_tokens, decodeText, String.empty_append]

theorem length_of_decodeText {depth : Nat} {read text : String} {tokens rest : List Token}
    (h : decodeText depth read tokens = some (text, rest)) : rest.length < tokens.length := by
  induction tokens generalizing depth read with
  | nil => cases depth <;> cases h
  | cons token tokens ih =>
      rw [List.length_cons]
      cases token with
      | stop =>
          cases depth with
          | zero =>
              cases h
              exact Nat.lt_succ_self _
          | succ depth => exact Nat.lt_succ_of_lt (ih h)
      | start name => exact Nat.lt_succ_of_lt (ih (by simpa [decodeText] using h))
      | text data => exact Nat.lt_succ_of_lt (ih (by simpa [decodeText] using h))
      | other => exact Nat.lt_succ_of_lt (ih (by simpa [decodeText] using h))

/-- What is read of a document does not depend on what follows it. -/
theorem decodeText_append {depth : Nat} {read text : String} {tokens rest : List Token}
    (h : decodeText depth read tokens = some (text, rest)) (more : List Token) :
    decodeText depth read (tokens ++ more) = some (text, rest ++ more) := by
  induction tokens generalizing depth read with
  | nil => cases depth <;> cases h
  | cons token tokens ih =>
      cases token with
      | stop =>
          cases depth with
          | zero =>
              cases h
              rfl
          | succ depth => exact ih h
      | start name => simpa [decodeText] using ih (by simpa [decodeText] using h)
      | text data => simpa [decodeText] using ih (by simpa [decodeText] using h)
      | other => simpa [decodeText] using ih (by simpa [decodeText] using h)

end Outband.Foundation
