import Outband.Foundation.KeyedTable
import Outband.Foundation.Substring
import Outband.Foundation.Trim
import Outband.Inventory.Config

/-!
# The launch arguments

The web interface of an AMI BMC hands out the session secret of the video
connection in a file for Java Web Start. `ParseJNLPArgs`
(`internal/amiweb/client.go`) takes the `argument` elements out of it, as pairs of a
name and a value, or in four fixed places. On some firmware a byte 0x02 stands in
the place of a closing tag, and belongs to the secret.

## Implementation notes

A text is a list of runes: characters, and bytes that are part of none. `isLetter`
tells whether the first byte of a rune is the code of a letter. A missing key of a map
reads as the empty text.
-/

namespace Outband.Amiweb

open Foundation

/-- A character of a text, or a byte that is not UTF-8. -/
inductive Rune
  | char (c : Char)
  | stray (b : BitVec 8)
  deriving DecidableEq, Repr

abbrev Text := List Rune

/-- The text of a literal. -/
def lit (s : String) : Text := s.toList.map .char

def isSpace : Rune → Bool
  | .char c => Inventory.isSpace c
  | .stray _ => false

/-- The byte 0x02. -/
def stx : Rune := .char (Char.ofNat 2)

def openTag : Text := lit "<argument>"

def closeTag : Text := lit "</argument>"

/-- The rune that `strings.Map` writes, none for a NUL. -/
def keepRune : Rune → Option Rune
  | .char c => if c.toNat = 0 then none else some (.char c)
  | .stray _ => some (.char (Char.ofNat 0xfffd))

/-- What the loop over the matches makes of the text of an element. -/
def cleanArg (v : Text) : Text := trim isSpace ((trim isSpace v).filterMap keepRune)

/-- Write a closing tag behind each byte 0x02 that an opening tag follows. -/
def repair (body : Text) : Text := replaceAll (stx :: openTag) (stx :: (closeTag ++ openTag)) body

/-- The arguments that are not empty. -/
def rawArgs (body : Text) : List Text :=
  ((between openTag closeTag (repair body)).map cleanArg).filter (· ≠ [])

abbrev Args := KeyedTable (Prod.fst : Text × Text → Text)

namespace Args

def get (out : Args) (k : Text) : Text := ((out.find k).map Prod.snd).getD []

def set (out : Args) (k : String) (v : Text) : Args := out.upsert (lit k, v)

end Args

def looksLikeFlag (isLetter : Rune → Bool) (s : Text) : Bool :=
  s.head? = some (.char '-') ∧ 1 < s.length ∧ s[1]?.any isLetter

/-- A text without the minus sign in front of it. -/
def trimDash : Text → Text
  | .char '-' :: rest => rest
  | s => s

/-- The loop over the pairs of arguments. -/
def namedPairs (isLetter : Rune → Bool) (out : Args) : List Text → Args
  | name :: value :: rest =>
      let out := if name.head? = some (.char '-') ∨ looksLikeFlag isLetter name then
        out.upsert (trimDash name, value) else out
      namedPairs isLetter out rest
  | _ => out

/-- The arguments in their fixed places, if no pair has given a token. -/
def positional (fallbackCookie : Text) (raw : List Text) (out : Args) : Args :=
  if out.get (lit "kvmtoken") = [] then
    match raw with
    | host :: port :: token :: rest =>
        let out := ((out.set "hostname" host).set "kvmport" port).set "kvmtoken" token
        match rest with
        | cookie :: _ => out.set "webcookie" cookie
        | [] => if fallbackCookie ≠ [] then out.set "webcookie" fallbackCookie else out
    | _ => out
  else out

def ParseJNLPArgs (isLetter : Rune → Bool) (body fallbackCookie : Text) : Args :=
  let raw := rawArgs body
  let out := positional fallbackCookie raw (namedPairs isLetter .empty raw)
  if out.get (lit "webcookie") = [] ∧ fallbackCookie ≠ [] then out.set "webcookie" fallbackCookie
  else out

/-! ### Bodies -/

/-- The text of an argument: no tag begins in it, and it has no byte 0x02. -/
def Plain (c : Text) : Prop := .char '<' ∉ c ∧ stx ∉ c

instance (c : Text) : Decidable (Plain c) := inferInstanceAs (Decidable (_ ∧ _))

/-- The arguments of a body, with any text without another argument around them. A closing tag may
be overwritten by a byte 0x02, which then belongs to the argument. -/
inductive Body : List Text → Text → Prop
  | tail {gap : Text} (hgap : ¬ openTag <:+: gap) : Body [] gap
  | element {gap c rest : Text} {cs : List Text} (hgap : ¬ openTag <:+: gap) (hc : Plain c)
      (hrest : Body cs rest) : Body (c :: cs) (gap ++ (openTag ++ (c ++ (closeTag ++ rest))))
  | corrupt {gap c rest : Text} {cs : List Text} (hgap : ¬ openTag <:+: gap) (hc : Plain c)
      (hrest : Body cs (openTag ++ rest)) :
      Body ((c ++ [stx]) :: cs) (gap ++ (openTag ++ (c ++ (stx :: (openTag ++ rest)))))

variable {isLetter : Rune → Bool} {gap c rest body fallback : Text} {cs : List Text}

/-! ### The repair -/

theorem closeTag_ne : closeTag ≠ [] := by decide

theorem openTag_ne : openTag ≠ [] := by decide

/-- No opening tag begins in a gap. -/
theorem clear_gap {b : Text} (hgap : ¬ openTag <:+: gap) (hb : ∀ r ∈ b.head?, r = .char '<') :
    Clear openTag gap b := by
  have htag : openTag = .char '<' :: lit "argument>" := rfl
  rw [htag] at hgap ⊢
  exact clear_of_not_infix (by decide) hgap hb

theorem repair_append {a b : Text} (h : stx ∉ a) : repair (a ++ b) = a ++ repair b :=
  replaceAll_append_of_clear (List.cons_ne_nil _ _) (clear_of_notMem h)

theorem repair_stx (b : Text) :
    repair (stx :: (openTag ++ b)) = stx :: (closeTag ++ (openTag ++ repair b)) := by
  have h : repair (stx :: openTag ++ b) = stx :: (closeTag ++ openTag) ++ repair b :=
    replaceAll_self (List.cons_ne_nil _ _) b
  simpa using h

/-- A gap is repaired to a gap. -/
theorem repair_gap (hgap : ¬ openTag <:+: gap) (b : Text) :
    ∃ gap', ¬ openTag <:+: gap' ∧
      repair (gap ++ (openTag ++ b)) = gap' ++ (openTag ++ repair b) := by
  have hopen : stx ∉ openTag := by decide
  have hclear : Clear openTag gap (openTag ++ b) := clear_gap hgap (by simp [openTag, lit])
  by_cases hlast : gap.getLast? = some stx
  · obtain ⟨g, rfl⟩ := List.getLast?_eq_some_iff.mp hlast
    have hg : Clear openTag g ([stx] ++ (openTag ++ b)) := (clear_append_iff.mp hclear).1
    have hg' : Clear (stx :: openTag) g (stx :: (openTag ++ b)) := by
      refine clear_cons_of_clear hg fun hprefix => ?_
      exact absurd (List.cons_prefix_cons.mp hprefix).1 (by decide)
    refine ⟨g ++ [stx] ++ closeTag, ?_, ?_⟩
    · refine not_infix_of_clear openTag_ne (clear_append_iff.mpr ⟨?_, ?_⟩)
      · exact clear_gap hgap (by simp [closeTag, lit])
      · exact clear_gap (by decide) (by simp)
    · rw [List.append_assoc, List.singleton_append, repair,
        replaceAll_append_of_clear (List.cons_ne_nil _ _) hg', ← repair, repair_stx]
      simp
  · have hgap' : Clear (stx :: openTag) gap (openTag ++ b) :=
      clear_cons_of_clear hclear fun _ => hlast
    refine ⟨gap, hgap, ?_⟩
    rw [repair, replaceAll_append_of_clear (List.cons_ne_nil _ _) hgap', ← repair,
      repair_append hopen]

theorem between_element (hgap : ¬ openTag <:+: gap) (hc : .char '<' ∉ c) (b : Text) :
    between openTag closeTag (gap ++ (openTag ++ (c ++ (closeTag ++ b)))) =
      c :: between openTag closeTag b :=
  between_append openTag_ne closeTag_ne (clear_gap hgap (by simp [openTag, lit]))
    (clear_of_notMem hc)

/-- The arguments are what is found after the repair. -/
theorem Body.between_repair (h : Body cs body) :
    between openTag closeTag (repair body) = cs := by
  have hclose : stx ∉ closeTag := by decide
  have hopen : stx ∉ openTag := by decide
  induction h with
  | @tail gap hgap =>
      have hnone : ¬ (stx :: openTag) <:+: gap := fun h =>
        hgap ((List.suffix_cons stx openTag).isInfix.trans h)
      rw [repair, replaceAll_of_none ((cutAt_eq_none_iff (List.cons_ne_nil _ _)).mpr hnone)]
      exact between_of_not_infix openTag_ne hgap
  | @element gap c rest cs hgap hc hrest ih =>
      obtain ⟨gap', hgap', hrepair⟩ := repair_gap hgap (c ++ (closeTag ++ rest))
      rw [hrepair, repair_append hc.2, repair_append hclose, between_element hgap' hc.1, ih]
  | @corrupt gap c rest cs hgap hc hrest ih =>
      obtain ⟨gap', hgap', hrepair⟩ := repair_gap hgap (c ++ (stx :: (openTag ++ rest)))
      rw [repair_append hopen] at ih
      have hc' : .char '<' ∉ c ++ [stx] := by
        rw [List.mem_append, not_or]
        exact ⟨hc.1, by decide⟩
      have helement := between_element hgap' hc' (openTag ++ repair rest)
      rw [ih] at helement
      rw [hrepair, repair_append hc.2, repair_stx, ← helement]
      simp

/-! ### Cleaning -/

/-- The rune that is written for a rune. -/
def valid : Rune → Rune
  | .char c => .char c
  | .stray _ => .char (Char.ofNat 0xfffd)

/-- A text without NUL and without white space around it. -/
structure Tidy (v : Text) : Prop where
  plain : Plain v
  nul : .char (Char.ofNat 0) ∉ v
  trimmed : Trimmed isSpace v

instance (v : Text) : Decidable (Tidy v) :=
  decidable_of_iff (Plain v ∧ .char (Char.ofNat 0) ∉ v ∧ Trimmed isSpace v)
    ⟨fun h => ⟨h.1, h.2.1, h.2.2⟩, fun h => ⟨h.plain, h.nul, h.trimmed⟩⟩

/-- A text that is UTF-8. -/
def IsValid (v : Text) : Prop := ∀ r ∈ v, ∃ c, r = .char c

theorem map_valid_eq_iff (v : Text) : v.map valid = v ↔ IsValid v := by
  induction v with
  | nil => simp [IsValid]
  | cons r v ih =>
      rw [List.map_cons, List.cons.injEq, ih, IsValid, IsValid, List.forall_mem_cons]
      refine and_congr_left fun _ => ?_
      cases r with
      | char c => simp [valid]
      | stray b => simp [valid]

theorem isSpace_valid (r : Rune) : isSpace (valid r) = isSpace r := by
  cases r with
  | char c => rfl
  | stray b =>
      have hreplacement : Inventory.isSpace (Char.ofNat 0xfffd) = false := by decide
      exact hreplacement

theorem trimmed_map_valid {v : Text} (h : Trimmed isSpace v) : Trimmed isSpace (v.map valid) := by
  constructor
  · intro r hr
    rw [List.head?_map, Option.mem_def, Option.map_eq_some_iff] at hr
    obtain ⟨r', hr', rfl⟩ := hr
    rw [isSpace_valid]
    exact h.first r' hr'
  · intro r hr
    rw [List.getLast?_map, Option.mem_def, Option.map_eq_some_iff] at hr
    obtain ⟨r', hr', rfl⟩ := hr
    rw [isSpace_valid]
    exact h.last r' hr'

theorem filterMap_keepRune {v : Text} (h : .char (Char.ofNat 0) ∉ v) :
    v.filterMap keepRune = v.map valid := by
  refine List.filterMap_eq_map_iff_forall_eq_some.mpr fun r hr => ?_
  cases r with
  | stray b => rfl
  | char c =>
      have hnul : c.toNat ≠ 0 := by
        intro hzero
        have hc : c = Char.ofNat 0 := by
          rw [← hzero, Char.ofNat_toNat]
        exact h (hc ▸ hr)
      exact if_neg hnul

/-- An argument without NUL and white space around it is taken as it is, but for the stray bytes. -/
theorem cleanArg_eq {v : Text} (hnul : .char (Char.ofNat 0) ∉ v) (htrimmed : Trimmed isSpace v) :
    cleanArg v = v.map valid := by
  rw [cleanArg, htrimmed.trim_eq, filterMap_keepRune hnul, (trimmed_map_valid htrimmed).trim_eq]

theorem rawArgs_of_body (h : Body cs body) (htidy : ∀ c ∈ cs, cleanArg c = c.map valid) :
    rawArgs body = (cs.map (List.map valid)).filter (· ≠ []) := by
  rw [rawArgs, h.between_repair, List.map_congr_left htidy]

/-! ### Pairs -/

/-- A named argument: a name, with a minus sign in front of it, and a value. -/
structure NamedArg where
  name : List Char
  value : Text
  flag_tidy : Tidy (.char '-' :: name.map .char)
  value_tidy : Tidy value

namespace NamedArg

variable (a : NamedArg)

def key : Text := a.name.map .char

def flag : Text := .char '-' :: a.key

/-- The value that is read. -/
def read : Text := a.value.map valid

theorem valid_flag : a.flag.map valid = a.flag := by
  rw [map_valid_eq_iff, flag, key]
  intro r hr
  rcases List.mem_cons.mp hr with rfl | hr
  · exact ⟨_, rfl⟩
  · obtain ⟨c, -, rfl⟩ := List.mem_map.mp hr
    exact ⟨c, rfl⟩

end NamedArg

variable {args pre post : List NamedArg} {a b : NamedArg} {out : Args} {raw : List Text}

/-- The texts of the arguments of a list of pairs. -/
def pairTexts (args : List NamedArg) : List Text := args.flatMap fun a => [a.flag, a.value]

/-- What is left of them. -/
def pairRaw (args : List NamedArg) : List Text :=
  args.flatMap fun a => a.flag :: if a.value = [] then [] else [a.read]

theorem filter_pairTexts (args : List NamedArg) :
    ((pairTexts args).map (List.map valid)).filter (· ≠ []) = pairRaw args := by
  rw [pairTexts, pairRaw, List.map_flatMap, List.filter_flatMap]
  refine List.flatMap_congr fun a _ => ?_
  have hflag : a.flag ≠ [] := List.cons_ne_nil _ _
  by_cases hvalue : a.value = [] <;> simp [a.valid_flag, hflag, hvalue, NamedArg.read]

theorem rawArgs_pairs (h : Body (pairTexts args) body) : rawArgs body = pairRaw args := by
  have htidy : ∀ c ∈ pairTexts args, cleanArg c = c.map valid := by
    intro c hc
    obtain ⟨a, -, hc⟩ := List.mem_flatMap.mp hc
    rcases List.mem_cons.mp hc with rfl | hc
    · exact cleanArg_eq a.flag_tidy.nul a.flag_tidy.trimmed
    · rw [List.mem_singleton.mp hc]
      exact cleanArg_eq a.value_tidy.nul a.value_tidy.trimmed
  rw [rawArgs_of_body h htidy, filter_pairTexts]

/-- Write the values that are read. -/
def setAll (out : Args) (args : List NamedArg) : Args :=
  args.foldl (fun out a => out.upsert (a.key, a.read)) out

theorem setAll_append (out : Args) (pre post : List NamedArg) :
    setAll out (pre ++ post) = setAll (setAll out pre) post :=
  List.foldl_append

/-- A pair with its value is read as such. -/
theorem namedPairs_cons (ha : a.value ≠ []) (out : Args) (raw : List Text) :
    namedPairs isLetter out (pairRaw [a] ++ raw) =
      namedPairs isLetter (out.upsert (a.key, a.read)) raw := by
  simp only [pairRaw, List.flatMap_singleton, if_neg ha]
  rfl

theorem pairRaw_cons (a : NamedArg) (args : List NamedArg) :
    pairRaw (a :: args) = pairRaw [a] ++ pairRaw args := by
  simp [pairRaw]

/-- Pairs with their values are read one after the other. -/
theorem namedPairs_append (hpre : ∀ a ∈ pre, a.value ≠ []) (out : Args) (raw : List Text) :
    namedPairs isLetter out (pairRaw pre ++ raw) = namedPairs isLetter (setAll out pre) raw := by
  induction pre generalizing out with
  | nil => rfl
  | cons a pre ih =>
      rw [List.forall_mem_cons] at hpre
      rw [pairRaw_cons, List.append_assoc, namedPairs_cons hpre.1, ih hpre.2]
      rfl

/-- Only the last value may be empty. -/
def Complete (args : List NamedArg) : Prop := ∀ a ∈ args.dropLast, a.value ≠ []

instance (args : List NamedArg) : Decidable (Complete args) :=
  inferInstanceAs (Decidable (∀ a ∈ args.dropLast, _))

/-- The arguments that have a value. -/
def kept (args : List NamedArg) : List NamedArg := args.filter fun a => a.value ≠ []

theorem kept_of_forall (h : ∀ a ∈ args, a.value ≠ []) : kept args = args :=
  List.filter_eq_self.mpr fun a ha => decide_eq_true (h a ha)

theorem namedPairs_complete (h : Complete args) :
    namedPairs isLetter .empty (pairRaw args) = setAll .empty (kept args) := by
  rcases List.eq_nil_or_concat args with rfl | ⟨pre, a, rfl⟩
  · rfl
  · rw [Complete, List.concat_eq_append, List.dropLast_concat] at h
    have hraw : pairRaw (pre ++ [a]) = pairRaw pre ++ pairRaw [a] := by simp [pairRaw]
    have hkept : kept (pre ++ [a]) = pre ++ kept [a] := by
      rw [kept, List.filter_append, ← kept, kept_of_forall h, kept]
    rw [List.concat_eq_append, hraw, namedPairs_append h, hkept, setAll_append]
    by_cases ha : a.value = []
    · have hnone : kept [a] = [] := by simp [kept, ha]
      rw [hnone]
      simp [pairRaw, ha, namedPairs, setAll]
    · have hone : kept [a] = [a] := by simp [kept, ha]
      rw [hone, ← List.append_nil (pairRaw [a]), namedPairs_cons ha]
      rfl

/-! ### Reading the map -/

theorem get_upsert (out : Args) (k k' v : Text) :
    Args.get (out.upsert (k, v)) k' = if k = k' then v else out.get k' := by
  rw [Args.get, KeyedTable.find_upsert]
  split
  case isTrue => rfl
  case isFalse => rfl

theorem get_setAll_of_notMem {k : Text} (hk : k ∉ args.map NamedArg.key) (out : Args) :
    (setAll out args).get k = out.get k := by
  induction args generalizing out with
  | nil => rfl
  | cons a args ih =>
      rw [List.map_cons, List.mem_cons, not_or] at hk
      rw [setAll, List.foldl_cons, ← setAll, ih hk.2, get_upsert, if_neg (Ne.symm hk.1)]

/-- Of arguments with distinct names, each is found under its name. -/
theorem get_setAll_of_mem (hdistinct : (args.map NamedArg.key).Nodup) (ha : a ∈ args)
    (out : Args) : (setAll out args).get a.key = a.read := by
  induction args generalizing out with
  | nil => cases ha
  | cons b args ih =>
      rw [List.map_cons, List.nodup_cons] at hdistinct
      rw [setAll, List.foldl_cons, ← setAll]
      rcases List.mem_cons.mp ha with rfl | ha
      · rw [get_setAll_of_notMem hdistinct.1, get_upsert, if_pos rfl]
      · exact ih hdistinct.2 ha _

theorem read_eq_nil_iff (a : NamedArg) : a.read = [] ↔ a.value = [] := List.map_eq_nil_iff

/-- The pairs of which only the last may lack its value are found as they are. -/
theorem get_namedPairs (hcomplete : Complete args) (hdistinct : (args.map NamedArg.key).Nodup)
    (ha : a ∈ args) : (namedPairs isLetter .empty (pairRaw args)).get a.key = a.read := by
  have hkept : ((kept args).map NamedArg.key).Nodup :=
    hdistinct.sublist (List.filter_sublist.map _)
  rw [namedPairs_complete hcomplete]
  by_cases hvalue : a.value = []
  · have hnot : a.key ∉ (kept args).map NamedArg.key := by
      intro hmem
      obtain ⟨b, hb, hkey⟩ := List.mem_map.mp hmem
      obtain ⟨hb, hne⟩ := List.mem_filter.mp hb
      have hsame := List.inj_on_of_nodup_map hdistinct hb ha hkey
      subst hsame
      exact absurd hvalue (of_decide_eq_true hne)
    rw [get_setAll_of_notMem hnot, (read_eq_nil_iff a).mpr hvalue]
    rfl
  · exact get_setAll_of_mem hkept (List.mem_filter.mpr ⟨ha, decide_eq_true hvalue⟩) _

/-- A list of pairs as a BMC sends it: distinct names, and a token that is not empty. -/
structure NamedArgs where
  args : List NamedArg
  distinct : (args.map NamedArg.key).Nodup
  token : ∃ a ∈ args, a.key = lit "kvmtoken" ∧ a.value ≠ []

/-- Every pair is found, but for a web cookie that is empty and the last of them: it is found as the
fallback. -/
theorem get_ParseJNLPArgs (l : NamedArgs) (hcomplete : Complete l.args)
    (hbody : Body (pairTexts l.args) body) (ha : a ∈ l.args) :
    (ParseJNLPArgs isLetter body fallback).get a.key =
      if a.value = [] ∧ a.key = lit "webcookie" then fallback else a.read := by
  have hget {b : NamedArg} (hb : b ∈ l.args) :
      (namedPairs isLetter .empty (pairRaw l.args)).get b.key = b.read :=
    get_namedPairs hcomplete l.distinct hb
  obtain ⟨t, ht, hkey, hvalue⟩ := l.token
  have htoken : (namedPairs isLetter .empty (pairRaw l.args)).get (lit "kvmtoken") ≠ [] := by
    rw [← hkey, hget ht, Ne, read_eq_nil_iff]
    exact hvalue
  have hpositional : positional fallback (pairRaw l.args)
      (namedPairs isLetter .empty (pairRaw l.args)) =
        namedPairs isLetter .empty (pairRaw l.args) := by
    unfold positional
    exact if_neg htoken
  rw [ParseJNLPArgs, rawArgs_pairs hbody, hpositional]
  by_cases hcookie : a.key = lit "webcookie"
  · have hget' := hget ha
    rw [hcookie] at hget' ⊢
    by_cases hempty : a.value = []
    · rw [(read_eq_nil_iff a).mpr hempty] at hget' ⊢
      by_cases hfallback : fallback = []
      · rw [if_neg (fun h => h.2 hfallback), if_pos ⟨hempty, rfl⟩, hget', hfallback]
      · rw [if_pos ⟨hget', hfallback⟩, if_pos ⟨hempty, rfl⟩, Args.set, get_upsert, if_pos rfl]
    · have hne : a.read ≠ [] := (read_eq_nil_iff a).not.mpr hempty
      rw [if_neg (fun h => hne (hget'.symm.trans h.1)), if_neg (fun h => hempty h.1), hget']
  · rw [if_neg (fun h : a.value = [] ∧ _ => hcookie h.2)]
    split
    case isTrue => rw [Args.set, get_upsert, if_neg (Ne.symm hcookie), hget ha]
    case isFalse => exact hget ha

/-! ### A value that is missing -/

theorem get_upsert_ne {k k' v : Text} (hv : v ≠ []) (hk : out.get k' ≠ []) :
    Args.get (out.upsert (k, v)) k' ≠ [] := by
  rw [get_upsert]
  split
  case isTrue => exact hv
  case isFalse => exact hk

/-- No later pair takes a value away. -/
theorem get_namedPairs_ne {k : Text} (hraw : ∀ v ∈ raw, v ≠ []) (hk : out.get k ≠ []) :
    (namedPairs isLetter out raw).get k ≠ [] := by
  fun_induction namedPairs isLetter out raw with
  | case1 out name value rest out' ih =>
      refine ih (fun v hv => hraw v (by simp [hv])) ?_
      by_cases hflag : name.head? = some (.char '-') ∨ looksLikeFlag isLetter name = true
      · have hset : out' = out.upsert (trimDash name, value) := if_pos hflag
        rw [hset]
        exact get_upsert_ne (hraw value (by simp)) hk
      · have hsame : out' = out := if_neg hflag
        rwa [hsame]
  | case2 => exact hk

theorem get_positional_ne {k : Text} (hraw : ∀ v ∈ raw, v ≠ []) (hk : out.get k ≠ []) :
    (positional fallback raw out).get k ≠ [] := by
  unfold positional
  split
  case isFalse => exact hk
  case isTrue =>
    split
    case h_2 => exact hk
    case h_1 host port token rest =>
      have hhost : (out.set "hostname" host).get k ≠ [] := get_upsert_ne (hraw host (by simp)) hk
      have hport : ((out.set "hostname" host).set "kvmport" port).get k ≠ [] :=
        get_upsert_ne (hraw port (by simp)) hhost
      have hthree : (((out.set "hostname" host).set "kvmport" port).set "kvmtoken" token).get k ≠
          [] := get_upsert_ne (hraw token (by simp)) hport
      dsimp only
      split
      case h_1 cookie rest => exact get_upsert_ne (hraw cookie (by simp)) hthree
      case h_2 =>
        split
        case isTrue hfallback => exact get_upsert_ne hfallback hthree
        case isFalse => exact hthree

/-- What the pairs give is never empty again. -/
theorem get_ParseJNLPArgs_ne {k : Text}
    (hk : (namedPairs isLetter .empty (rawArgs body)).get k ≠ []) :
    (ParseJNLPArgs isLetter body fallback).get k ≠ [] := by
  have hraw : ∀ v ∈ rawArgs body, v ≠ [] := fun v hv => of_decide_eq_true (List.mem_filter.mp hv).2
  have hpositional : (positional fallback (rawArgs body)
      (namedPairs isLetter .empty (rawArgs body))).get k ≠ [] := get_positional_ne hraw hk
  rw [ParseJNLPArgs]
  split
  case isTrue hfallback => exact get_upsert_ne hfallback.2 hpositional
  case isFalse => exact hpositional

theorem exists_of_not_complete (h : ¬ Complete args) : ∃ pre a b post,
    args = pre ++ a :: b :: post ∧ (∀ p ∈ pre, p.value ≠ []) ∧ a.value = [] := by
  induction args with
  | nil => exact absurd (by simp [Complete]) h
  | cons a args ih =>
      cases args with
      | nil => exact absurd (by simp [Complete]) h
      | cons b post =>
          by_cases ha : a.value = []
          · exact ⟨[], a, b, post, rfl, by simp, ha⟩
          · have hrest : ¬ Complete (b :: post) := by
              intro hrest
              refine h ?_
              rw [Complete, List.dropLast_cons_cons, List.forall_mem_cons]
              exact ⟨ha, hrest⟩
            obtain ⟨pre, c, d, post', hargs, hpre, hc⟩ := ih hrest
            refine ⟨a :: pre, c, d, post', by rw [hargs, List.cons_append], ?_, hc⟩
            exact List.forall_mem_cons.mpr ⟨ha, hpre⟩

/-- The first name without a value is given the next name. -/
theorem get_of_not_complete (hbody : Body (pairTexts args) body) (h : ¬ Complete args) :
    ∃ a ∈ args, a.value = [] ∧ (ParseJNLPArgs isLetter body fallback).get a.key ≠ [] := by
  obtain ⟨pre, a, b, post, rfl, hpre, ha⟩ := exists_of_not_complete h
  refine ⟨a, by simp, ha, get_ParseJNLPArgs_ne ?_⟩
  have hraw : pairRaw (pre ++ a :: b :: post) = pairRaw pre ++
      a.flag :: b.flag :: ((if b.value = [] then [] else [b.read]) ++ pairRaw post) := by
    simp [pairRaw, ha]
  have hrest : ∀ v ∈ (if b.value = [] then [] else [b.read]) ++ pairRaw post, v ≠ [] := by
    intro v hv
    have hmem : v ∈ rawArgs body := by
      rw [rawArgs_pairs hbody, hraw]
      simp only [List.mem_append, List.mem_cons]
      rcases List.mem_append.mp hv with hv | hv
      · exact .inr (.inr (.inr (.inl hv)))
      · exact .inr (.inr (.inr (.inr hv)))
    exact of_decide_eq_true (List.mem_filter.mp hmem).2
  have hstep (out : Args) (raw : List Text) :
      namedPairs isLetter out (a.flag :: b.flag :: raw) =
        namedPairs isLetter (out.upsert (a.key, b.flag)) raw := rfl
  rw [rawArgs_pairs hbody, hraw, namedPairs_append hpre, hstep]
  refine get_namedPairs_ne hrest ?_
  rw [get_upsert, if_pos rfl]
  exact List.cons_ne_nil _ _

/-! ### Both forms -/

/-- The pairs that are read exactly: all values are UTF-8, only the last may be empty, and not if it
is the web cookie and there is another. -/
structure NamedArgs.Sound (l : NamedArgs) (fallback : Text) : Prop where
  complete : Complete l.args
  valid : ∀ a ∈ l.args, IsValid a.value
  cookie : ∀ a ∈ l.args, a.value = [] → a.key = lit "webcookie" → fallback = []

theorem NamedArgs.exact_iff (l : NamedArgs) (hbody : Body (pairTexts l.args) body) :
    (∀ a ∈ l.args, (ParseJNLPArgs isLetter body fallback).get a.key = a.value) ↔
      l.Sound fallback := by
  constructor
  · intro hexact
    have hcomplete : Complete l.args := by
      by_contra hincomplete
      obtain ⟨a, ha, hempty, hne⟩ := get_of_not_complete hbody hincomplete
      exact hne ((hexact a ha).trans hempty)
    refine ⟨hcomplete, fun a ha => ?_, fun a ha hempty hcookie => ?_⟩
    · by_cases hempty : a.value = []
      · rw [hempty]
        intro r hr
        cases hr
      · have hread := hexact a ha
        rw [get_ParseJNLPArgs l hcomplete hbody ha, if_neg (fun h => hempty h.1)] at hread
        exact (map_valid_eq_iff a.value).mp hread
    · have hread := hexact a ha
      rw [get_ParseJNLPArgs l hcomplete hbody ha, if_pos ⟨hempty, hcookie⟩] at hread
      rw [hread, hempty]
  · intro hsound a ha
    rw [get_ParseJNLPArgs l hsound.complete hbody ha]
    split
    case isTrue h => rw [hsound.cookie a ha h.1 h.2, h.1]
    case isFalse => exact (map_valid_eq_iff a.value).mpr (hsound.valid a ha)

/-- The four arguments in their fixed places. The closing tag of the token is overwritten. -/
structure PositionalArgs where
  host : Text
  port : Text
  token : Text
  cookie : Text
  tidy : ∀ v ∈ [host, port, token, cookie], Tidy v
  ne : ∀ v ∈ [host, port, token, cookie], v ≠ []
  no_flag : ∀ v ∈ [host, port, token, cookie], v.head? ≠ some (.char '-')

namespace PositionalArgs

variable (p : PositionalArgs)

def texts : List Text := [p.host, p.port, p.token ++ [stx], p.cookie]

/-- The map that the four arguments stand for. -/
def entries : List (Text × Text) :=
  [(lit "hostname", p.host), (lit "kvmport", p.port), (lit "kvmtoken", p.token ++ [stx]),
    (lit "webcookie", p.cookie)]

theorem cleanArg_texts : ∀ c ∈ p.texts, cleanArg c = c.map valid := by
  have htidy {v : Text} (hv : v ∈ [p.host, p.port, p.token, p.cookie]) :
      cleanArg v = v.map valid := cleanArg_eq (p.tidy v hv).nul (p.tidy v hv).trimmed
  have htoken := p.tidy p.token (by simp)
  have hsecret : cleanArg (p.token ++ [stx]) = (p.token ++ [stx]).map valid := by
    refine cleanArg_eq ?_ ⟨?_, ?_⟩
    · rw [List.mem_append, not_or]
      exact ⟨htoken.nul, by decide⟩
    · intro r hr
      rw [List.head?_append_of_ne_nil _ (p.ne p.token (by simp))] at hr
      exact htoken.trimmed.first r hr
    · intro r hr
      rw [List.getLast?_concat] at hr
      cases hr
      decide
  intro c hc
  simp only [texts, List.mem_cons, List.not_mem_nil, or_false] at hc
  rcases hc with rfl | rfl | rfl | rfl
  · exact htidy (by simp)
  · exact htidy (by simp)
  · exact hsecret
  · exact htidy (by simp)

theorem rawArgs_eq (hbody : Body p.texts body) : rawArgs body = p.texts.map (List.map valid) := by
  rw [rawArgs_of_body hbody p.cleanArg_texts, List.filter_eq_self]
  intro v hv
  obtain ⟨c, hc, rfl⟩ := List.mem_map.mp hv
  rw [decide_eq_true_eq, Ne, List.map_eq_nil_iff]
  simp only [texts, List.mem_cons, List.not_mem_nil, or_false] at hc
  rcases hc with rfl | rfl | rfl | rfl
  · exact p.ne _ (by simp)
  · exact p.ne _ (by simp)
  · simp
  · exact p.ne _ (by simp)

theorem head?_map_valid {v : Text} (h : v.head? ≠ some (.char '-')) :
    (v.map valid).head? ≠ some (.char '-') := by
  cases v with
  | nil => simp
  | cons r v =>
      cases r with
      | char c => simpa [valid] using h
      | stray b =>
          simp [valid]

theorem namedPairs_of_no_flag {name value : Text} (h : name.head? ≠ some (.char '-')) (out : Args)
    (rest : List Text) :
    namedPairs isLetter out (name :: value :: rest) = namedPairs isLetter out rest := by
  rw [namedPairs, if_neg]
  rintro (hflag | hflag)
  · exact h hflag
  · rw [looksLikeFlag, decide_eq_true_eq] at hflag
    exact h hflag.1

/-- The map that is read. -/
theorem rows_ParseJNLPArgs (hbody : Body p.texts body) :
    (ParseJNLPArgs isLetter body fallback).rows = p.entries.map fun e => (e.1, e.2.map valid) := by
  have hhost := head?_map_valid (p.no_flag p.host (by simp))
  have htoken : ((p.token ++ [stx]).map valid).head? ≠ some (.char '-') := by
    refine head?_map_valid ?_
    rw [List.head?_append_of_ne_nil _ (p.ne p.token (by simp))]
    exact p.no_flag p.token (by simp)
  have hpairs : namedPairs isLetter .empty (rawArgs body) = .empty := by
    rw [p.rawArgs_eq hbody, texts, List.map_cons, List.map_cons, List.map_cons,
      namedPairs_of_no_flag hhost, List.map_cons, namedPairs_of_no_flag htoken]
    rfl
  have hset : positional fallback (rawArgs body) .empty =
      (((Args.set .empty "hostname" (p.host.map valid)).set "kvmport" (p.port.map valid)).set
        "kvmtoken" ((p.token ++ [stx]).map valid)).set "webcookie" (p.cookie.map valid) := by
    rw [p.rawArgs_eq hbody]
    unfold positional
    exact if_pos rfl
  have hcookie : p.cookie.map valid ≠ [] := by
    rw [Ne, List.map_eq_nil_iff]
    exact p.ne p.cookie (by simp)
  rw [ParseJNLPArgs, hpairs, hset, if_neg]
  · rfl
  · rintro ⟨hnone, -⟩
    rw [Args.set, get_upsert, if_pos rfl] at hnone
    exact hcookie hnone

theorem exact_iff (hbody : Body p.texts body) :
    (ParseJNLPArgs isLetter body fallback).rows = p.entries ↔
      ∀ v ∈ [p.host, p.port, p.token, p.cookie], IsValid v := by
  have hsecret : (p.token ++ [stx]).map valid = p.token ++ [stx] ↔ p.token.map valid = p.token := by
    rw [List.map_append]
    exact List.append_left_inj [stx]
  simp only [p.rows_ParseJNLPArgs hbody, entries, List.map_cons, List.map_nil, List.cons.injEq,
    Prod.mk.injEq, true_and, and_true, hsecret, map_valid_eq_iff, List.forall_mem_cons,
    List.not_mem_nil, false_implies, implies_true]

end PositionalArgs

/-- The arguments of a body are read exactly, in pairs or in their fixed places, as long as they are
UTF-8, no value but the last is empty, and the last is not an empty web cookie for which there is
another. -/
theorem ParseJNLPArgs_exact_iff (isLetter : Rune → Bool) (body fallback : Text) :
    (∀ l : NamedArgs, Body (pairTexts l.args) body →
      ((∀ a ∈ l.args, (ParseJNLPArgs isLetter body fallback).get a.key = a.value) ↔
        l.Sound fallback)) ∧
    ∀ p : PositionalArgs, Body p.texts body →
      ((ParseJNLPArgs isLetter body fallback).rows = p.entries ↔
        ∀ v ∈ [p.host, p.port, p.token, p.cookie], IsValid v) :=
  ⟨fun l hbody => l.exact_iff hbody, fun p hbody => p.exact_iff hbody⟩

/-- The pairs of an empty `-a` and a token. -/
def emptyFirst : NamedArgs where
  args := [⟨['a'], [], by decide, by decide⟩, ⟨"kvmtoken".toList, lit "T1", by decide, by decide⟩]
  distinct := by decide
  token := ⟨_, List.mem_cons_of_mem _ List.mem_cons_self, rfl, by decide⟩

/-- The name `-kvmtoken` is taken for the value of `-a`, and the token is lost. -/
theorem emptyFirst_not_exact : ∃ body, Body (pairTexts emptyFirst.args) body ∧
    ¬ ∀ a ∈ emptyFirst.args,
      (ParseJNLPArgs (fun _ => true) body (lit "C1")).get a.key = a.value := by
  have hgap : ¬ openTag <:+: [] := by decide
  have hbody := Body.element hgap (c := lit "-a") (by decide) <|
    Body.element hgap (c := []) (by decide) <|
    Body.element hgap (c := lit "-kvmtoken") (by decide) <|
    Body.element hgap (c := lit "T1") (by decide) (Body.tail hgap)
  refine ⟨_, hbody, fun hexact => ?_⟩
  have hcomplete := ((emptyFirst.exact_iff hbody).mp hexact).complete
  exact hcomplete _ List.mem_cons_self rfl

/-- A body in four places, as the documentation shows it. -/
def tyan : PositionalArgs where
  host := lit "10.0.0.1"
  port := lit "7578"
  token := lit "abcd"
  cookie := lit "C1"
  tidy := by decide
  ne := by decide
  no_flag := by decide

/-- The same secret and cookie as pairs, and a value that is missing at the end. -/
def megarac : NamedArgs where
  args := [⟨"kvmtoken".toList, lit "abcd", by decide, by decide⟩,
    ⟨"webcookie".toList, lit "C1", by decide, by decide⟩, ⟨['x'], [], by decide, by decide⟩]
  distinct := by decide
  token := ⟨_, List.mem_cons_self, rfl, by decide⟩

theorem isValid_lit (s : String) : IsValid (lit s) := by
  intro r hr
  obtain ⟨c, -, rfl⟩ := List.mem_map.mp hr
  exact ⟨c, rfl⟩

theorem tyan_megarac_exact :
    (∃ body, Body (pairTexts megarac.args) body ∧ ∀ a ∈ megarac.args,
      (ParseJNLPArgs (fun _ => true) body (lit "C2")).get a.key = a.value) ∧
    ∃ body, Body tyan.texts body ∧
      (ParseJNLPArgs (fun _ => true) body (lit "C2")).rows = tyan.entries := by
  have hgap : ¬ openTag <:+: [] := by decide
  constructor
  · have hbody := Body.element hgap (c := lit "-kvmtoken") (by decide) <|
      Body.element hgap (c := lit "abcd") (by decide) <|
      Body.element hgap (c := lit "-webcookie") (by decide) <|
      Body.element hgap (c := lit "C1") (by decide) <|
      Body.element hgap (c := lit "-x") (by decide) <|
      Body.element hgap (c := []) (by decide) (Body.tail hgap)
    refine ⟨_, hbody, ((ParseJNLPArgs_exact_iff _ _ _).1 megarac hbody).mpr ⟨by decide, ?_, ?_⟩⟩
    · have hempty : IsValid [] := isValid_lit ""
      simp [megarac, isValid_lit, hempty]
    · decide
  · have hcookie : Body [lit "C1"] (openTag ++ (lit "C1" ++ (closeTag ++ []))) :=
      Body.element hgap (by decide) (Body.tail hgap)
    have hbody := Body.element hgap (c := lit "10.0.0.1") (by decide) <|
      Body.element hgap (c := lit "7578") (by decide) <|
      Body.corrupt hgap (c := lit "abcd") (by decide) hcookie
    refine ⟨_, hbody, ((ParseJNLPArgs_exact_iff _ _ _).2 tyan hbody).mpr ?_⟩
    simp [tyan, isValid_lit]

end Outband.Amiweb
