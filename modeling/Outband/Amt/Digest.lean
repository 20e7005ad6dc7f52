import Outband.Foundation.Trim
import Outband.Inventory.Config

/-!
# Digest challenges

A BMC answers the first WS-MAN request with a challenge: the word `Digest` and a list
of parameters, `name=value` or `name="value"`, with commas between them.
`parseDigestChallenge` (`internal/amt/digest.go`) reads it into a map, and
`authorize` computes the answer from the map.

## Implementation notes

A text is a list of characters, which leaves out headers with bytes that are not
UTF-8. `lower` is `unicode.ToLower`, `md5Hex` the MD5 sum in hexadecimal, and the
arguments `nc` and `cnonce` of `authorize` are the value of the request counter and
the nonce, which the transport makes with `randomHex`.
-/

namespace Outband.Amt.Digest

open Foundation
open Inventory (isSpace)

abbrev Text := List Char

/-- A map from texts to texts. -/
abbrev Params := KeyedTable (Prod.fst : Text × Text → Text)

/-- `params[k]`, with the empty text for a missing key. -/
def Params.get (params : Params) (k : Text) : Text := ((params.find k).map Prod.snd).getD []

/-! ### The parser -/

/-- The loop of `splitDigestParams`. -/
def splitFrom (inQuote : Bool) (cur : Text) : Text → List Text
  | [] => if cur = [] then [] else [trim isSpace cur]
  | c :: rest =>
      if c = '"' then splitFrom (!inQuote) (cur ++ [c]) rest
      else if c = ',' ∧ inQuote = false then trim isSpace cur :: splitFrom inQuote [] rest
      else splitFrom inQuote (cur ++ [c]) rest

def splitDigestParams (s : Text) : List Text := splitFrom false [] s

/-- A value without its quotes. -/
def unquote (v : Text) : Text :=
  if 2 ≤ v.length ∧ v.head? = some '"' ∧ v.getLast? = some '"' then v.tail.dropLast else v

/-- Some value of the list `v` is `auth`. -/
def offersAuth (v : Text) : Bool := (v.splitOn ',').any fun q => trim isSpace q = "auth".toList

/-- A list of `qop` values that offers `auth` counts as `auth`. -/
def chooseQop (k v : Text) : Text :=
  if k = "qop".toList ∧ offersAuth v then "auth".toList else v

/-- The body of the loop of `parseDigestChallenge`, which skips a part without an equals sign. -/
def parseParam (lower : Char → Char) (part : Text) : Option (Text × Text) :=
  match part.dropWhile (· ≠ '=') with
  | [] => none
  | _ :: v =>
      let k := (trim isSpace (part.takeWhile (· ≠ '='))).map lower
      some (k, chooseQop k (unquote (trim isSpace v)))

/-- What follows the first space of the challenge. -/
def cutScheme (h : Text) : Text :=
  match (trim isSpace h).dropWhile (· ≠ ' ') with
  | [] => trim isSpace h
  | _ :: rest => rest

def parseDigestChallenge (lower : Char → Char) (h : Text) : Params :=
  ((splitDigestParams (cutScheme h)).filterMap (parseParam lower)).foldl KeyedTable.upsert .empty

/-! ### The answer -/

inductive DigestError
  | incomplete
  | unsupportedQop (qop : Text)
  deriving DecidableEq, Repr

/-- The text of an error, where `quote` is the verb `%q`. -/
def DigestError.Error (quote : Text → String) : DigestError → String
  | incomplete => "amt: incomplete Digest challenge"
  | unsupportedQop qop => "amt: unsupported Digest qop " ++ quote qop

/-- The digest of the credentials and the request. -/
def digestResponse (md5Hex : Text → Text) (user password method uri nc cnonce : Text)
    (params : Params) : Text :=
  let ha1 := md5Hex (user ++ ':' :: params.get "realm".toList ++ ':' :: password)
  let ha2 := md5Hex (method ++ ':' :: uri)
  if params.get "qop".toList ≠ [] then
    md5Hex (ha1 ++ ':' :: params.get "nonce".toList ++ ':' :: nc ++ ':' :: cnonce ++
      ":auth:".toList ++ ha2)
  else md5Hex (ha1 ++ ':' :: params.get "nonce".toList ++ ':' :: ha2)

/-- The header of the request that is sent with the credentials. -/
def authorization (md5Hex : Text → Text) (user password method uri nc cnonce : Text)
    (params : Params) : Text :=
  let quoted (name value : Text) : Text := name ++ "=\"".toList ++ value ++ "\"".toList
  let opaque_ := params.get "opaque".toList
  let algorithm := params.get "algorithm".toList
  quoted "Digest username".toList user ++
  quoted ", realm".toList (params.get "realm".toList) ++
  quoted ", nonce".toList (params.get "nonce".toList) ++
  quoted ", uri".toList uri ++
  (if params.get "qop".toList ≠ [] then
    ", qop=auth".toList ++ ", nc=".toList ++ nc ++ quoted ", cnonce".toList cnonce else []) ++
  quoted ", response".toList (digestResponse md5Hex user password method uri nc cnonce params) ++
  (if opaque_ ≠ [] then quoted ", opaque".toList opaque_ else []) ++
  (if algorithm ≠ [] then ", algorithm=".toList ++ algorithm else [])

def authorize (lower : Char → Char) (md5Hex : Text → Text)
    (user password method uri nc cnonce challenge : Text) : Except DigestError Text :=
  let params := parseDigestChallenge lower challenge
  let qop := params.get "qop".toList
  if params.get "realm".toList = [] ∨ params.get "nonce".toList = [] then .error .incomplete
  else if qop ≠ [] ∧ qop ≠ "auth".toList then .error (.unsupportedQop qop)
  else .ok (authorization md5Hex user password method uri nc cnonce params)

/-! ### Challenges as a BMC writes them -/

/-- A parameter: a key and a value, which is written in quotes or bare. -/
structure Param (lower : Char → Char) where
  key : Text
  value : Text
  quoted : Bool
  key_plain : ∀ c ∈ key, c ≠ '=' ∧ c ≠ ',' ∧ c ≠ '"' ∧ isSpace c = false
  key_lower : key.map lower = key
  value_plain : '"' ∉ value
  bare : quoted = false → ',' ∉ value ∧ Trimmed isSpace value

namespace Param

variable {lower : Char → Char}

/-- The value as it is written. -/
def written (p : Param lower) : Text := if p.quoted then '"' :: p.value ++ ['"'] else p.value

def text (p : Param lower) : Text := p.key ++ '=' :: p.written

/-- What the map should hold for the parameter. -/
def entry (p : Param lower) : Text × Text := (p.key, chooseQop p.key p.value)

end Param

abbrev AllSpace (s : Text) : Prop := ∀ c ∈ s, isSpace c = true

variable {lower : Char → Char} {ps : List (Param lower)} {p : Param lower} {s t : Text}

/-- The parameter with white space on both sides. -/
def Shows (p : Param lower) (t : Text) : Prop :=
  ∃ before after, AllSpace before ∧ AllSpace after ∧ t = before ++ p.text ++ after

/-- The parameters with commas between them and white space anywhere around the commas. -/
inductive Renders : List (Param lower) → Text → Prop
  | none {s : Text} (hs : AllSpace s) : Renders [] s
  | last {p : Param lower} {t : Text} (ht : Shows p t) : Renders [p] t
  | cons {p : Param lower} {t : Text} {ps : List (Param lower)} {s : Text} (ht : Shows p t)
      (hne : ps ≠ []) (hs : Renders ps s) : Renders (p :: ps) (t ++ ',' :: s)

/-! ### Splitting -/

/-- Text outside quotes that a scan passes over: it closes its quotes, and its commas are inside. -/
def Sealed (t : Text) : Prop :=
  ∀ cur rest, splitFrom false cur (t ++ rest) = splitFrom false (cur ++ t) rest

theorem Sealed.append (hs : Sealed s) (ht : Sealed t) : Sealed (s ++ t) := by
  intro cur rest
  rw [List.append_assoc, hs, ht, List.append_assoc]

theorem sealed_plain (h : ∀ c ∈ t, c ≠ '"' ∧ c ≠ ',') : Sealed t := by
  induction t with
  | nil => intro cur rest; simp
  | cons c t ih =>
      intro cur rest
      obtain ⟨hquote, hcomma⟩ := h c List.mem_cons_self
      rw [List.cons_append, splitFrom, if_neg hquote, if_neg (fun hc => hcomma hc.1),
        ih (fun d hd => h d (List.mem_cons_of_mem _ hd))]
      simp

theorem splitFrom_inQuote (h : '"' ∉ t) (cur rest : Text) :
    splitFrom true cur (t ++ rest) = splitFrom true (cur ++ t) rest := by
  induction t generalizing cur with
  | nil => simp
  | cons c t ih =>
      rw [List.mem_cons, not_or] at h
      rw [List.cons_append, splitFrom, if_neg (Ne.symm h.1), if_neg (by simp), ih h.2]
      simp

theorem sealed_quoted (h : '"' ∉ t) : Sealed ('"' :: t ++ ['"']) := by
  intro cur rest
  have hopen : splitFrom false cur ('"' :: (t ++ '"' :: rest)) =
      splitFrom true (cur ++ ['"']) (t ++ '"' :: rest) := by
    rw [splitFrom, if_pos rfl]
    rfl
  have hclose : splitFrom true (cur ++ ['"'] ++ t) ('"' :: rest) =
      splitFrom false (cur ++ ['"'] ++ t ++ ['"']) rest := by
    rw [splitFrom, if_pos rfl]
    rfl
  have htext : '"' :: t ++ ['"'] ++ rest = '"' :: (t ++ '"' :: rest) := by simp
  rw [htext, hopen, splitFrom_inQuote h, hclose]
  simp

theorem sealed_space (h : AllSpace t) : Sealed t := by
  refine sealed_plain fun c hc => ?_
  have hspace := h c hc
  constructor
  · rintro rfl
    exact absurd hspace (by decide)
  · rintro rfl
    exact absurd hspace (by decide)

theorem Param.sealed (p : Param lower) : Sealed p.text := by
  have hkey : Sealed p.key :=
    sealed_plain fun c hc => ⟨(p.key_plain c hc).2.2.1, (p.key_plain c hc).2.1⟩
  have hequals : Sealed ['='] := sealed_plain (by simp)
  have hwritten : Sealed p.written := by
    rw [Param.written]
    cases hquoted : p.quoted with
    | true => exact sealed_quoted p.value_plain
    | false =>
        refine sealed_plain fun c hc => ⟨?_, ?_⟩
        · rintro rfl
          exact p.value_plain hc
        · rintro rfl
          exact (p.bare hquoted).1 hc
  exact hkey.append (hequals.append hwritten)

/-- A parameter begins with its key or the equals sign, and ends with a quote, its value or the
equals sign. -/
theorem Param.trimmed (p : Param lower) : Trimmed isSpace p.text := by
  constructor
  · cases hkey : p.key with
    | nil =>
        intro c hc
        rw [Param.text, hkey] at hc
        cases hc
        decide
    | cons k rest =>
        intro c hc
        rw [Param.text, hkey] at hc
        cases hc
        exact (p.key_plain k (by simp [hkey])).2.2.2
  · intro c hc
    rw [Param.text, List.getLast?_append_of_ne_nil _ (List.cons_ne_nil _ _), Param.written] at hc
    cases hquoted : p.quoted with
    | true =>
        rw [hquoted, if_pos rfl, ← List.cons_append, List.getLast?_concat] at hc
        cases hc
        decide
    | false =>
        rw [hquoted, if_neg (by simp)] at hc
        cases hvalue : p.value with
        | nil =>
            rw [hvalue] at hc
            cases hc
            decide
        | cons v rest =>
            rw [hvalue, List.getLast?_cons_cons, ← hvalue] at hc
            exact (p.bare hquoted).2.last c hc

theorem Shows.sealed (h : Shows p t) : Sealed t := by
  obtain ⟨before, after, hbefore, hafter, rfl⟩ := h
  exact ((sealed_space hbefore).append p.sealed).append (sealed_space hafter)

theorem Shows.trim_eq (h : Shows p t) : trim isSpace t = p.text := by
  obtain ⟨before, after, hbefore, hafter, rfl⟩ := h
  exact p.trimmed.trim_pad_eq hbefore hafter

theorem Shows.ne_nil (h : Shows p t) : t ≠ [] := by
  obtain ⟨before, after, -, -, rfl⟩ := h
  simp [Param.text]

/-- The commas between the parameters are the ones at which the text is split. -/
theorem Renders.split (h : Renders ps s) (hne : ps ≠ []) :
    splitDigestParams s = ps.map Param.text := by
  have hend {p : Param lower} {t : Text} (ht : Shows p t) (rest : Text) :
      splitDigestParams (t ++ rest) = splitFrom false t rest :=
    ht.sealed [] rest
  induction h with
  | none => exact absurd rfl hne
  | @last p t ht =>
      have hsplit := hend ht []
      rw [List.append_nil] at hsplit
      rw [hsplit, splitFrom, if_neg ht.ne_nil, ht.trim_eq]
      rfl
  | @cons p t ps s ht hrest hs ih =>
      rw [hend ht, splitFrom, if_neg (by decide), if_pos ⟨rfl, rfl⟩, ht.trim_eq, List.map_cons,
        ← ih hrest, splitDigestParams]

/-! ### The scheme -/

theorem Shows.pad {pad : Text} (hpad : AllSpace pad) (h : Shows p t) : Shows p (pad ++ t) := by
  obtain ⟨before, after, hbefore, hafter, rfl⟩ := h
  refine ⟨pad ++ before, after, fun c hc => ?_, hafter, by simp⟩
  exact (List.mem_append.mp hc).elim (hpad c) (hbefore c)

theorem Renders.pad {pad : Text} (hpad : AllSpace pad) (h : Renders ps s) :
    Renders ps (pad ++ s) := by
  cases h with
  | none hs =>
      exact .none fun c hc => (List.mem_append.mp hc).elim (hpad c) (hs c)
  | last ht => exact .last (ht.pad hpad)
  | cons ht hne hs =>
      rw [← List.append_assoc]
      exact .cons (ht.pad hpad) hne hs

theorem Renders.allSpace_iff (h : Renders ps s) : AllSpace s ↔ ps = [] := by
  have hequals : isSpace '=' = false := by decide
  cases h with
  | none hs => exact iff_of_true hs rfl
  | last ht =>
      obtain ⟨before, after, -, -, rfl⟩ := ht
      refine iff_of_false (fun hall => ?_) (List.cons_ne_nil _ _)
      have hspace := hall '=' (by simp [Param.text])
      rw [hequals] at hspace
      cases hspace
  | cons ht hne hs =>
      obtain ⟨before, after, -, -, rfl⟩ := ht
      refine iff_of_false (fun hall => ?_) (List.cons_ne_nil _ _)
      have hspace := hall '=' (by simp [Param.text])
      rw [hequals] at hspace
      cases hspace

theorem rdropWhile_append_of_not_allSpace (h : ¬ AllSpace s) (t : Text) :
    (t ++ s).rdropWhile isSpace = t ++ s.rdropWhile isSpace := by
  have hne : (s.reverse.dropWhile isSpace).isEmpty = false := by
    simpa [List.dropWhile_eq_nil_iff, AllSpace] using h
  simp only [List.rdropWhile, List.reverse_append]
  rw [List.dropWhile_append, hne]
  simp

theorem Shows.rdropWhile (h : Shows p t) : Shows p (t.rdropWhile isSpace) := by
  obtain ⟨before, after, hbefore, hafter, rfl⟩ := h
  have hsolid : ¬ AllSpace p.text := by
    intro hall
    have hspace := hall '=' (by simp [Param.text])
    exact absurd hspace (by decide)
  refine ⟨before, [], hbefore, by simp [AllSpace], ?_⟩
  rw [rdropWhile_append_pad hafter, rdropWhile_append_of_not_allSpace hsolid,
    rdropWhile_eq_self p.trimmed.last, List.append_nil]

theorem Renders.rdropWhile (h : Renders ps s) : Renders ps (s.rdropWhile isSpace) := by
  induction h with
  | none hs => exact .none fun c hc => hs c ((List.rdropWhile_prefix _ _).subset hc)
  | last ht => exact .last ht.rdropWhile
  | @cons p t ps s ht hne hs ih =>
      have hsolid : ¬ AllSpace s := fun hall => hne (hs.allSpace_iff.mp hall)
      rw [List.append_cons, rdropWhile_append_of_not_allSpace hsolid, ← List.append_cons]
      exact .cons ht hne ih

/-- The text of a challenge. -/
def challenge (s : Text) : Text := "Digest".toList ++ ' ' :: s

/-- The text behind the scheme, without trailing white space, or the scheme itself when nothing
but white space follows it. -/
theorem cutScheme_challenge (s : Text) :
    AllSpace s ∧ cutScheme (challenge s) = "Digest".toList ∨
      ¬ AllSpace s ∧ cutScheme (challenge s) = s.rdropWhile isSpace := by
  have hfront : (challenge s).dropWhile isSpace = challenge s := rfl
  by_cases hs : AllSpace s
  · have hpad : ∀ c ∈ ' ' :: s, isSpace c = true := List.forall_mem_cons.mpr ⟨by decide, hs⟩
    have htrim : trim isSpace (challenge s) = "Digest".toList := by
      rw [trim, hfront, challenge, rdropWhile_append_pad hpad]
      rfl
    refine .inl ⟨hs, ?_⟩
    rw [cutScheme, htrim]
    rfl
  · have htrim : trim isSpace (challenge s) = "Digest ".toList ++ s.rdropWhile isSpace := by
      rw [trim, hfront, ← rdropWhile_append_of_not_allSpace hs]
      rfl
    refine .inr ⟨hs, ?_⟩
    rw [cutScheme, htrim]
    rfl

/-! ### The map -/

theorem unquote_written (p : Param lower) : unquote (trim isSpace p.written) = p.value := by
  rw [Param.written]
  cases hquoted : p.quoted with
  | true =>
      have htrimmed : Trimmed isSpace ('"' :: p.value ++ ['"']) := by
        refine ⟨fun c hc => ?_, fun c hc => ?_⟩
        · cases hc
          decide
        · rw [List.getLast?_concat] at hc
          cases hc
          decide
      rw [if_pos rfl, htrimmed.trim_eq, unquote, if_pos]
      · simp
      · refine ⟨by simp, rfl, ?_⟩
        rw [List.getLast?_concat]
  | false =>
      have hhead : p.value.head? ≠ some '"' := by
        intro hhead
        exact p.value_plain (List.mem_of_mem_head? hhead)
      rw [if_neg (by simp), (p.bare hquoted).2.trim_eq, unquote, if_neg (fun h => hhead h.2.1)]

/-- A part that is a parameter gives its entry. -/
theorem parseParam_text (p : Param lower) : parseParam lower p.text = some p.entry := by
  have hkey : ∀ c ∈ p.key, (decide (c ≠ '=')) = true :=
    fun c hc => decide_eq_true (p.key_plain c hc).1
  have hdrop : p.text.dropWhile (fun c => decide (c ≠ '=')) = '=' :: p.written := by
    rw [Param.text, List.dropWhile_append_of_pos hkey]
    rfl
  have htake : p.text.takeWhile (fun c => decide (c ≠ '=')) = p.key := by
    rw [Param.text, List.takeWhile_append_of_pos hkey]
    simp
  have htrim : trim isSpace p.key = p.key :=
    (trimmed_of_forall fun c hc => (p.key_plain c hc).2.2.2).trim_eq
  rw [parseParam, hdrop, htake]
  simp only [htrim, p.key_lower, unquote_written, Param.entry]

theorem filterMap_parseParam (ps : List (Param lower)) :
    (ps.map Param.text).filterMap (parseParam lower) = ps.map Param.entry := by
  rw [List.filterMap_map, List.filterMap_eq_map_iff_forall_eq_some.mpr]
  intro p _
  exact parseParam_text p

theorem parseDigestChallenge_rows (h : Renders ps s) (hdistinct : (ps.map Param.key).Nodup) :
    (parseDigestChallenge lower (challenge s)).rows = ps.map Param.entry := by
  have hparts : (splitDigestParams (cutScheme (challenge s))).filterMap (parseParam lower) =
      ps.map Param.entry := by
    rcases cutScheme_challenge s with ⟨hs, hcut⟩ | ⟨hs, hcut⟩
    · rw [hcut, h.allSpace_iff.mp hs]
      rfl
    · have hne : ps ≠ [] := fun hnil => hs (h.allSpace_iff.mpr hnil)
      rw [hcut, h.rdropWhile.split hne, filterMap_parseParam]
  have hkeys : ((ps.map Param.entry).map Prod.fst).Nodup := by
    rw [List.map_map]
    exact hdistinct
  rw [parseDigestChallenge, hparts, KeyedTable.rows_foldl_upsert .empty hkeys]
  rfl

/-- Whatever the spacing, the map that is read has the parameters of the challenge and no others,
except that a list of `qop` values with `auth` in it is `auth`. -/
theorem parseDigestChallenge_renders (h : Renders ps s) (hdistinct : (ps.map Param.key).Nodup)
    (k v : Text) :
    (parseDigestChallenge lower (challenge s)).find k = some (k, v) ↔
      ∃ p ∈ ps, p.key = k ∧ chooseQop k p.value = v := by
  rw [KeyedTable.find_eq_some_iff, parseDigestChallenge_rows h hdistinct, List.mem_map]
  constructor
  · rintro ⟨⟨p, hp, hentry⟩, -⟩
    cases hentry
    exact ⟨p, hp, rfl, rfl⟩
  · rintro ⟨p, hp, rfl, rfl⟩
    exact ⟨⟨p, hp, rfl⟩, rfl⟩

theorem key_plain_of_all {key : Text}
    (h : (key.all fun c => c ≠ '=' ∧ c ≠ ',' ∧ c ≠ '"' ∧ isSpace c = false) = true) :
    ∀ c ∈ key, c ≠ '=' ∧ c ≠ ',' ∧ c ≠ '"' ∧ isSpace c = false := fun c hc =>
  of_decide_eq_true (List.all_eq_true.mp h c hc)

/-- A quoted realm with a comma and an equals sign in it, a list of `qop` values, and a bare
nonce. -/
theorem parseDigestChallenge_realm_qop_nonce :
    let params := parseDigestChallenge Char.toLower
      "Digest  realm=\"a, b=c\" ,qop=\"auth-int, auth\",\tnonce=n1 ".toList
    params.find "realm".toList = some ("realm".toList, "a, b=c".toList) ∧
      params.find "qop".toList = some ("qop".toList, "auth".toList) ∧
      params.find "nonce".toList = some ("nonce".toList, "n1".toList) := by
  let realm : Param Char.toLower :=
    ⟨"realm".toList, "a, b=c".toList, true, key_plain_of_all (by decide), by decide, by decide,
      nofun⟩
  let qop : Param Char.toLower :=
    ⟨"qop".toList, "auth-int, auth".toList, true, key_plain_of_all (by decide), by decide,
      by decide, nofun⟩
  let nonce : Param Char.toLower :=
    ⟨"nonce".toList, "n1".toList, false, key_plain_of_all (by decide), by decide, by decide,
      fun _ => ⟨by decide, by decide⟩⟩
  have hspace : AllSpace [' '] := List.all_eq_true.mp (by decide)
  have htab : AllSpace ['\t'] := List.all_eq_true.mp (by decide)
  have hnil : AllSpace [] := nofun
  have hrealm : Shows realm " realm=\"a, b=c\" ".toList := ⟨[' '], [' '], hspace, hspace, rfl⟩
  have hqop : Shows qop "qop=\"auth-int, auth\"".toList := ⟨[], [], hnil, hnil, rfl⟩
  have hnonce : Shows nonce "\tnonce=n1 ".toList := ⟨['\t'], [' '], htab, hspace, rfl⟩
  have hrenders := ((Renders.last hnonce).cons hqop (by simp)).cons hrealm (by simp)
  have hparse := parseDigestChallenge_renders hrenders (by decide)
  exact ⟨(hparse _ _).mpr ⟨realm, by simp, rfl, by decide⟩,
    (hparse _ _).mpr ⟨qop, by simp, rfl, by decide⟩,
    (hparse _ _).mpr ⟨nonce, by simp, rfl, by decide⟩⟩

/-! ### Answering -/

/-- The value of a parameter, or the empty text. -/
def valueOf (ps : List (Param lower)) (k : Text) : Text :=
  ((ps.find? fun p => p.key = k).map Param.value).getD []

theorem chooseQop_eq_nil_iff (k v : Text) : chooseQop k v = [] ↔ v = [] := by
  rw [chooseQop]
  split
  case isTrue h =>
    refine iff_of_false (by decide) ?_
    rintro rfl
    exact absurd h.2 (by decide)
  case isFalse => rfl

theorem get_parseDigestChallenge (h : Renders ps s) (hdistinct : (ps.map Param.key).Nodup)
    (k : Text) :
    (parseDigestChallenge lower (challenge s)).get k = chooseQop k (valueOf ps k) := by
  rw [Params.get, KeyedTable.find, parseDigestChallenge_rows h hdistinct, List.find?_map, valueOf]
  cases hfind : ps.find? fun p => decide (p.key = k) with
  | none =>
      have hnone : ps.find? ((fun r : Text × Text => decide (r.1 = k)) ∘ Param.entry) = none :=
        hfind
      rw [hnone]
      exact ((chooseQop_eq_nil_iff k []).mpr rfl).symm
  | some p =>
      have hsome : ps.find? ((fun r : Text × Text => decide (r.1 = k)) ∘ Param.entry) = some p :=
        hfind
      have hkey : p.key = k := by simpa using List.find?_some hfind
      rw [hsome, ← hkey]
      rfl

/-- A challenge is answered when it has a realm and a nonce, and a list of `qop` values that it
has offers `auth`. -/
theorem authorize_ok_iff (md5Hex : Text → Text) (user password method uri nc cnonce : Text)
    (h : Renders ps s) (hdistinct : (ps.map Param.key).Nodup) :
    (∃ answer, authorize lower md5Hex user password method uri nc cnonce (challenge s) =
        .ok answer) ↔
      valueOf ps "realm".toList ≠ [] ∧ valueOf ps "nonce".toList ≠ [] ∧
        (valueOf ps "qop".toList = [] ∨ offersAuth (valueOf ps "qop".toList)) := by
  have hget := get_parseDigestChallenge h hdistinct
  have hqop : chooseQop "qop".toList (valueOf ps "qop".toList) = "auth".toList ↔
      offersAuth (valueOf ps "qop".toList) = true := by
    rw [chooseQop]
    split
    case isTrue hoffers => exact iff_of_true rfl hoffers.2
    case isFalse hoffers =>
      refine iff_of_false (fun hauth => hoffers ⟨rfl, ?_⟩) fun hauth => hoffers ⟨rfl, hauth⟩
      rw [hauth]
      decide
  simp only [authorize, hget, Ne, chooseQop_eq_nil_iff, hqop]
  split_ifs with hempty hbad
  · refine iff_of_false (by simp) fun hfull => ?_
    exact hempty.elim hfull.1 hfull.2.1
  · refine iff_of_false (by simp) fun hfull => ?_
    exact hfull.2.2.elim hbad.1 hbad.2
  · rw [not_or] at hempty
    exact iff_of_true ⟨_, rfl⟩ ⟨hempty.1, hempty.2, by tauto⟩

end Outband.Amt.Digest
