import Outband.Bmc.PowerCache

/-!
# The JSON text of a power status

`writeSnapshot` stores what `json.Marshal` makes of a value, and `LoadSnapshots`
hands the text to `json.Unmarshal`. The store relies on one thing: a status that
has been marshalled is read back unchanged. `encodingJSON` is the text Go writes for a
`PowerStatus`, with a reader for the texts of that form.

## Implementation notes

The fields have no tags, so their names are the keys, in the order of the
declaration. Inside a string Go escapes the quotation mark, the backslash, the control
characters, `<`, `>` and `&`, and the two line separators of Unicode.
-/

namespace Outband.Telemetry

open Bmc (PowerStatus)

/-- The package `encoding/json`, as it is used for a power status. -/
structure PowerJson where
  Marshal : PowerStatus → String
  /-- Undefined for a text that gives an error. -/
  Unmarshal : String → Option PowerStatus
  unmarshal_marshal : ∀ ps, Unmarshal (Marshal ps) = some ps

theorem PowerJson.marshal_injective (json : PowerJson) : Function.Injective json.Marshal := by
  intro ps qs h
  have hps := json.unmarshal_marshal ps
  rw [h, json.unmarshal_marshal] at hps
  exact (Option.some.inj hps).symm

/-! ### Strings -/

def hexDigits : List Char := "0123456789abcdef".toList

/-- The low `n` hexadecimal digits of `v`. -/
def hexText : Nat → Nat → List Char
  | 0, _ => []
  | n + 1, v => hexText n (v / 16) ++ [hexDigits.getD (v % 16) '0']

/-- The characters that Go writes as an escape with four hexadecimal digits. -/
def EscapedByCode (c : Char) : Prop :=
  c.toNat < 32 ∨ c = '<' ∨ c = '>' ∨ c = '&' ∨ c.toNat = 0x2028 ∨ c.toNat = 0x2029

instance (c : Char) : Decidable (EscapedByCode c) := inferInstanceAs (Decidable (_ ∨ _))

/-- The escapes of a backslash and a letter. -/
def shortEscapes : List (Char × Char) :=
  [('"', '"'), ('\\', '\\'), ('\x08', 'b'), ('\x0c', 'f'), ('\n', 'n'), ('\r', 'r'), ('\t', 't')]

/-- A character inside a string. -/
def escape (c : Char) : List Char :=
  match shortEscapes.lookup c with
  | some letter => ['\\', letter]
  | none => if EscapedByCode c then '\\' :: 'u' :: hexText 4 c.toNat else [c]

def hexVal (digits : List Char) : Nat := digits.foldl (fun v d => 16 * v + hexDigits.idxOf d) 0

/-- One character more has been read. -/
def consChar (c : Char) (p : List Char × List Char) : List Char × List Char := (c :: p.1, p.2)

/-- The characters up to the closing quotation mark, and what follows it. -/
def unquote : List Char → Option (List Char × List Char)
  | [] => none
  | '"' :: rest => some ([], rest)
  | '\\' :: 'u' :: d₁ :: d₂ :: d₃ :: d₄ :: rest =>
      (unquote rest).map (consChar (Char.ofNat (hexVal [d₁, d₂, d₃, d₄])))
  | '\\' :: letter :: rest =>
      match (shortEscapes.map Prod.swap).lookup letter with
      | some c => (unquote rest).map (consChar c)
      | none => none
  | c :: rest => (unquote rest).map (consChar c)

theorem unquote_short {c letter : Char} (h : shortEscapes.lookup c = some letter)
    (tail : List Char) :
    unquote ('\\' :: letter :: tail) = (unquote tail).map (consChar c) := by
  have hmem : (c, letter) ∈ shortEscapes := by
    obtain ⟨l₁, l₂, heq, -⟩ := List.lookup_eq_some_iff.mp h
    simp [heq]
  have hall : ∀ p ∈ shortEscapes,
      unquote ('\\' :: p.2 :: tail) = (unquote tail).map (consChar p.1) := by
    simp [shortEscapes, unquote, List.lookup_cons]
  exact hall _ hmem

theorem unquote_code {c : Char} (h : EscapedByCode c) (tail : List Char) :
    unquote ('\\' :: 'u' :: (hexText 4 c.toNat ++ tail)) = (unquote tail).map (consChar c) := by
  have hval : hexVal (hexText 4 c.toNat) = c.toNat := by
    have hlow : ∀ n < 32, hexVal (hexText 4 n) = n := by decide
    rcases h with h | rfl | rfl | rfl | h | h
    · exact hlow _ h
    · decide
    · decide
    · decide
    · rw [h]; decide
    · rw [h]; decide
  change (unquote tail).map (consChar (Char.ofNat (hexVal (hexText 4 c.toNat)))) = _
  rw [hval, Char.ofNat_toNat]

theorem unquote_plain {c : Char} (hquote : c ≠ '"') (hslash : c ≠ '\\') (tail : List Char) :
    unquote (c :: tail) = (unquote tail).map (consChar c) := by
  simp [unquote, hslash]

theorem unquote_escape (c : Char) (tail : List Char) :
    unquote (escape c ++ tail) = (unquote tail).map (consChar c) := by
  rw [escape]
  split
  case h_1 letter h => exact unquote_short h tail
  case h_2 h =>
    split
    case isTrue hcode => exact unquote_code hcode tail
    case isFalse =>
      refine unquote_plain ?_ ?_ tail
      · rintro rfl
        exact absurd h (by decide)
      · rintro rfl
        exact absurd h (by decide)

theorem unquote_quoted (text rest : List Char) :
    unquote (text.flatMap escape ++ '"' :: rest) = some (text, rest) := by
  induction text with
  | nil => rfl
  | cons c text ih =>
      rw [List.flatMap_cons, List.append_assoc, unquote_escape, ih]
      rfl

/-! ### The four fields -/

def boolText (b : Bool) : List Char := if b then "true".toList else "false".toList

/-- The key of a field, with what stands in front of it. -/
def keyText (opening : Char) (name : String) : List Char :=
  opening :: '"' :: (name.toList ++ ['"', ':'])

def marshalChars (ps : PowerStatus) : List Char :=
  keyText '\x7b' "IsOn" ++ (boolText ps.IsOn ++ (keyText ',' "PowerRestorePolicy" ++
    ('"' :: (ps.PowerRestorePolicy.toList.flatMap escape ++ '"' :: (keyText ',' "PowerFault" ++
      (boolText ps.PowerFault ++ (keyText ',' "ChassisIntrusion" ++
        (boolText ps.ChassisIntrusion ++ ['\x7d']))))))))

/-- What follows `expected`. -/
def skipText (expected text : List Char) : Option (List Char) :=
  if expected <+: text then some (text.drop expected.length) else none

def readBool (text : List Char) : Option (Bool × List Char) :=
  match skipText "true".toList text with
  | some rest => some (true, rest)
  | none => (skipText "false".toList text).map fun rest => (false, rest)

def readString (text : List Char) : Option (List Char × List Char) :=
  (skipText ['"'] text).bind unquote

def unmarshalChars (text : List Char) : Option PowerStatus := do
  let text ← skipText (keyText '\x7b' "IsOn") text
  let (isOn, text) ← readBool text
  let text ← skipText (keyText ',' "PowerRestorePolicy") text
  let (policy, text) ← readString text
  let text ← skipText (keyText ',' "PowerFault") text
  let (fault, text) ← readBool text
  let text ← skipText (keyText ',' "ChassisIntrusion") text
  let (intrusion, text) ← readBool text
  if text = ['\x7d'] then some ⟨isOn, String.ofList policy, fault, intrusion⟩ else none

theorem skipText_append (expected rest : List Char) :
    skipText expected (expected ++ rest) = some rest := by
  simp [skipText]

theorem readBool_append (b : Bool) (rest : List Char) :
    readBool (boolText b ++ rest) = some (b, rest) := by
  cases b with
  | true => rw [readBool, boolText, if_pos rfl, skipText_append]
  | false =>
      have hfalse : skipText "true".toList ("false".toList ++ rest) = none := by
        simp [skipText]
      rw [readBool, boolText, if_neg Bool.false_ne_true, hfalse, skipText_append]
      rfl

theorem readString_quoted (text rest : List Char) :
    readString ('"' :: (text.flatMap escape ++ '"' :: rest)) = some (text, rest) := by
  have hskip := skipText_append ['"'] (text.flatMap escape ++ '"' :: rest)
  rw [List.singleton_append] at hskip
  rw [readString, hskip, Option.bind_some, unquote_quoted]

theorem unmarshalChars_marshalChars (ps : PowerStatus) :
    unmarshalChars (marshalChars ps) = some ps := by
  simp only [unmarshalChars, marshalChars, skipText_append, readBool_append, readString_quoted,
    Option.bind_eq_bind, Option.bind_some, if_pos, String.ofList_toList]

/-- The text Go writes for a status, and a reader for it. -/
def encodingJSON : PowerJson where
  Marshal ps := String.ofList (marshalChars ps)
  Unmarshal text := unmarshalChars text.toList
  unmarshal_marshal ps := by rw [String.toList_ofList, unmarshalChars_marshalChars]

example : encodingJSON.Marshal { IsOn := true } =
    "\x7b\"IsOn\":true,\"PowerRestorePolicy\":\"\",\"PowerFault\":false," ++
      "\"ChassisIntrusion\":false\x7d" := by
  decide

end Outband.Telemetry
