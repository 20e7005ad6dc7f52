import Mathlib.Data.List.Basic
import Mathlib.Data.List.TakeWhile
import Outband.Foundation.Utf8

/-!
# Paths of URLs

The path of a URL ends at the query or the fragment. Slashes separate its segments,
some of which are dots that are to be cleaned away, and a pattern reads the value of a
wildcard from a segment by decoding its escapes. A text that is pasted between two
slashes comes back as that value exactly when it is *plain*: it contains no character
with a meaning in a path, and it is not a dot segment.

## Implementation notes

A path is a sequence of bytes. The segments of a path are what follows its first
slash, split at the slashes; the last one is empty if the path ends with a slash.
-/

namespace Outband.Foundation.UrlPath

open Utf8

def slash : BitVec 8 := 0x2f

def percent : BitVec 8 := 0x25

def query : BitVec 8 := 0x3f

def fragment : BitVec 8 := 0x23

def dot : BitVec 8 := 0x2e

/-- A text without a slash, a percent sign, a question mark or a number sign, which is not a dot
segment. -/
structure Plain (s : Bytes) : Prop where
  clear : ∀ b ∈ s, b ∉ [slash, percent, query, fragment]
  not_dot : s ≠ [dot]
  not_dots : s ≠ [dot, dot]

instance (s : Bytes) : Decidable (Plain s) :=
  decidable_of_iff
    ((∀ b ∈ s, b ∉ [slash, percent, query, fragment]) ∧ s ≠ [dot] ∧ s ≠ [dot, dot])
    ⟨fun h => ⟨h.1, h.2.1, h.2.2⟩, fun h => ⟨h.1, h.2, h.3⟩⟩

variable {s t seg : Bytes} {segs : List Bytes}

/-! ### The end of a path -/

/-- A path ends before the first question mark or number sign. -/
def cut (target : Bytes) : Bytes := target.takeWhile fun b => b ∉ [query, fragment]

theorem notMem_of_mem_cut {b : BitVec 8} (h : b ∈ cut s) : b ∉ [query, fragment] := by
  rw [cut] at h
  simpa using List.mem_takeWhile_imp h

theorem cut_append_of_clear (h : ∀ b ∈ s, b ∉ [query, fragment]) (t : Bytes) :
    cut (s ++ t) = s ++ cut t :=
  List.takeWhile_append_of_pos fun b hb => decide_eq_true (h b hb)

theorem cut_of_clear (h : ∀ b ∈ s, b ∉ [query, fragment]) : cut s = s := by
  have happend := cut_append_of_clear h []
  have hnil : cut [] = [] := rfl
  rwa [List.append_nil, hnil, List.append_nil] at happend

theorem cut_append_of_not_clear (h : ¬ ∀ b ∈ s, b ∉ [query, fragment]) (t : Bytes) :
    cut (s ++ t) = cut s := by
  induction s with
  | nil => simp at h
  | cons b rest ih =>
      by_cases hb : b ∉ [query, fragment]
      · have hrest : ¬ ∀ c ∈ rest, c ∉ [query, fragment] := fun hrest =>
          h (List.forall_mem_cons.mpr ⟨hb, hrest⟩)
        simp only [cut, List.cons_append, List.takeWhile_cons, decide_eq_true hb, if_true]
        exact congrArg _ (ih hrest)
      · simp only [cut, List.cons_append, List.takeWhile_cons, decide_eq_false hb,
          Bool.false_eq_true, if_false]

/-! ### Escapes -/

def hexValue (b : BitVec 8) : Option (BitVec 8) :=
  if 0x30 ≤ b ∧ b ≤ 0x39 then some (b - 0x30)
  else if 0x41 ≤ b ∧ b ≤ 0x46 then some (b - 0x37)
  else if 0x61 ≤ b ∧ b ≤ 0x66 then some (b - 0x57)
  else none

/-- The text with its escapes decoded, unless one of them is malformed. -/
def unescape : Bytes → Option Bytes
  | [] => some []
  | b :: rest =>
      if b = percent then
        match rest with
        | hi :: lo :: rest => do
            let hi ← hexValue hi
            let lo ← hexValue lo
            let decoded ← unescape rest
            return (16 * hi + lo) :: decoded
        | _ => none
      else do
        let decoded ← unescape rest
        return b :: decoded

theorem unescape_of_notMem (h : percent ∉ s) : unescape s = some s := by
  induction s with
  | nil => rfl
  | cons b rest ih =>
      unfold unescape
      rw [if_neg (List.ne_of_not_mem_cons h).symm, ih (List.not_mem_of_not_mem_cons h)]
      rfl

/-- Decoding makes a text shorter unless it contains no escape. -/
theorem length_unescape (h : unescape s = some t) :
    t.length < s.length ∨ percent ∉ s ∧ t.length = s.length := by
  fun_induction unescape s generalizing t with
  | case1 =>
      cases h
      exact .inr ⟨List.not_mem_nil, rfl⟩
  | case2 hi lo rest ih =>
      obtain ⟨hi, -, h⟩ := Option.bind_eq_some_iff.mp h
      obtain ⟨lo, -, h⟩ := Option.bind_eq_some_iff.mp h
      obtain ⟨decoded, hdecoded, h⟩ := Option.bind_eq_some_iff.mp h
      cases h
      have := ih hdecoded
      simp only [List.length_cons]
      omega
  | case3 => cases h
  | case4 b rest hb ih =>
      obtain ⟨decoded, hdecoded, h⟩ := Option.bind_eq_some_iff.mp h
      cases h
      rcases ih hdecoded with hlt | ⟨hmem, heq⟩
      · exact .inl (Nat.succ_lt_succ hlt)
      · exact .inr ⟨List.not_mem_cons_of_ne_of_not_mem (Ne.symm hb) hmem, congrArg (· + 1) heq⟩

/-! ### Segments -/

theorem slash_notMem_of_mem (h : seg ∈ s.splitOn slash) : slash ∉ seg := by
  induction s generalizing seg with
  | nil =>
      rw [List.splitOn_nil, List.mem_singleton] at h
      simp [h]
  | cons b rest ih =>
      rw [List.splitOn_cons_eq_if_modifyHead] at h
      split_ifs at h with hb
      · rcases List.mem_cons.mp h with rfl | h
        · exact List.not_mem_nil
        · exact ih h
      · obtain ⟨first, more, hsplit⟩ := List.exists_cons_of_ne_nil (List.splitOn_ne_nil slash rest)
        rw [hsplit, List.modifyHead_cons] at h
        rcases List.mem_cons.mp h with rfl | h
        · refine List.not_mem_cons_of_ne_of_not_mem ?_ (ih (by simp [hsplit]))
          rintro rfl
          exact hb (beq_self_eq_true _)
        · exact ih (by simp [hsplit, h])

/-- A segment is a part of the text. -/
theorem sublist_of_mem (h : seg ∈ s.splitOn slash) : seg.Sublist s := by
  induction s generalizing seg with
  | nil =>
      rw [List.splitOn_nil, List.mem_singleton] at h
      simp [h]
  | cons b rest ih =>
      rw [List.splitOn_cons_eq_if_modifyHead] at h
      split_ifs at h with hb
      · rcases List.mem_cons.mp h with rfl | h
        · exact List.nil_sublist _
        · exact (ih h).cons _
      · obtain ⟨first, more, hsplit⟩ := List.exists_cons_of_ne_nil (List.splitOn_ne_nil slash rest)
        rw [hsplit, List.modifyHead_cons] at h
        rcases List.mem_cons.mp h with rfl | h
        · exact (ih (by simp [hsplit])).cons_cons _
        · exact (ih (by simp [hsplit, h])).cons _

/-! ### Dot segments -/

/-- A segment after the segments before it, the latest first. -/
def cleanStep (kept : List Bytes) (seg : Bytes) : List Bytes :=
  if seg = [] ∨ seg = [dot] then kept
  else if seg = [dot, dot] then kept.tail
  else seg :: kept

/-- The path without dot segments and double slashes. -/
def clean (segs : List Bytes) : List Bytes :=
  let kept := (segs.foldl cleanStep []).reverse
  if kept = [] then [[]] else if segs.getLast? = some [] then kept ++ [[]] else kept

/-- A segment that stays where it is. -/
def Stays (seg : Bytes) : Prop := seg ≠ [] ∧ seg ≠ [dot] ∧ seg ≠ [dot, dot]

instance (seg : Bytes) : Decidable (Stays seg) := inferInstanceAs (Decidable (_ ∧ _ ∧ _))

theorem foldl_cleanStep (h : ∀ seg ∈ segs, Stays seg) (kept : List Bytes) :
    segs.foldl cleanStep kept = segs.reverse ++ kept := by
  induction segs generalizing kept with
  | nil => rfl
  | cons seg rest ih =>
      obtain ⟨⟨hnil, hdot, hdots⟩, hrest⟩ := List.forall_mem_cons.mp h
      rw [List.foldl_cons, cleanStep, if_neg (by simp [hnil, hdot]), if_neg hdots, ih hrest,
        List.reverse_cons, List.append_assoc, List.singleton_append]

/-- Nothing is cleaned away if only the last segment may be empty and none is a dot segment. -/
theorem clean_eq_self (h : ∀ seg ∈ segs, Stays seg) (hlast : Stays seg ∨ seg = []) :
    clean (segs ++ [seg]) = segs ++ [seg] := by
  have hkept := foldl_cleanStep h []
  rw [List.append_nil] at hkept
  rw [clean, List.foldl_append, hkept, List.getLast?_concat]
  rcases hlast with ⟨hnil, hdot, hdots⟩ | rfl
  · simp [cleanStep, hnil, hdot, hdots]
  · rcases List.eq_nil_or_concat segs with rfl | ⟨init, last, rfl⟩
    · simp [cleanStep]
    · simp [cleanStep]

theorem mem_foldl_cleanStep {kept : List Bytes} (h : seg ∈ segs.foldl cleanStep kept) :
    seg ∈ kept ∨ seg ∈ segs ∧ Stays seg := by
  induction segs generalizing kept with
  | nil => exact .inl h
  | cons first rest ih =>
      rcases ih h with hkept | ⟨hmem, hstays⟩
      · rw [cleanStep] at hkept
        split_ifs at hkept with hfirst hdots
        · exact .inl hkept
        · exact .inl (List.mem_of_mem_tail hkept)
        · rcases List.mem_cons.mp hkept with rfl | hkept
          · exact .inr ⟨List.mem_cons_self, (not_or.mp hfirst).1, (not_or.mp hfirst).2, hdots⟩
          · exact .inl hkept
      · exact .inr ⟨List.mem_cons_of_mem _ hmem, hstays⟩

theorem mem_of_mem_clean (h : seg ∈ clean segs) (hnil : seg ≠ []) : seg ∈ segs ∧ Stays seg := by
  have hkept : seg ∈ (segs.foldl cleanStep []).reverse := by
    unfold clean at h
    dsimp only at h
    split_ifs at h
    · exact absurd (List.mem_singleton.mp h) hnil
    · exact (List.mem_append.mp h).resolve_right fun hlast => hnil (List.mem_singleton.mp hlast)
    · exact h
  exact (mem_foldl_cleanStep (List.mem_reverse.mp hkept)).resolve_left List.not_mem_nil

/-! ### Pasted texts -/

/-- What may follow a text that is pasted into a path: nothing, or a slash and more of the path. -/
structure Suffix (post : Bytes) : Prop where
  clear : ∀ b ∈ post, b ∉ [percent, query, fragment]
  slash_first : ∀ b ∈ post.head?, b = slash

instance (post : Bytes) : Decidable (Suffix post) :=
  decidable_of_iff
    ((∀ b ∈ post, b ∉ [percent, query, fragment]) ∧ ∀ b ∈ post.head?, b = slash)
    ⟨fun h => ⟨h.1, h.2⟩, fun h => ⟨h.1, h.2⟩⟩

/-- The segments of a suffix. -/
def following (post : Bytes) : List Bytes := if post = [] then [] else post.tail.splitOn slash

variable {post : Bytes}

theorem Suffix.eq_cons (h : Suffix post) (hnil : post ≠ []) : post = slash :: post.tail := by
  obtain ⟨b, rest, rfl⟩ := List.exists_cons_of_ne_nil hnil
  rw [h.slash_first b rfl, List.tail_cons]

theorem Suffix.cut_eq (h : Suffix post) : cut post = post :=
  cut_of_clear fun b hb hmem => h.clear b hb (List.mem_cons_of_mem _ hmem)

theorem splitOn_append_suffix (h : Suffix post) (s : Bytes) :
    (s ++ post).splitOn slash = s.splitOn slash ++ following post := by
  rw [following]
  split_ifs with hnil
  · rw [hnil, List.append_nil, List.append_nil]
  · rw [h.eq_cons hnil, List.splitOn_append_cons_self, List.tail_cons]

theorem Plain.slash_notMem (h : Plain s) : slash ∉ s := fun hmem => h.clear _ hmem (by decide)

theorem Plain.percent_notMem (h : Plain s) : percent ∉ s := fun hmem => h.clear _ hmem (by decide)

theorem Plain.stays (h : Plain s) (hnil : s ≠ []) : Stays s := ⟨hnil, h.not_dot, h.not_dots⟩

theorem Plain.cut_append (h : Plain s) (t : Bytes) : cut (s ++ t) = s ++ cut t :=
  cut_append_of_clear (fun b hb hmem => h.clear b hb (by simp_all)) t

/-- A plain text is a segment of its own. -/
theorem Plain.segments (h : Plain s) (hpost : Suffix post) :
    (cut (s ++ post)).splitOn slash = s :: following post := by
  rw [h.cut_append, hpost.cut_eq, splitOn_append_suffix hpost,
    List.splitOn_eq_singleton h.slash_notMem, List.singleton_append]

/-- A segment with an escape is no longer than the text, as the suffix has none. -/
theorem length_le_of_percent (hpost : Suffix post) (hmem : seg ∈ (cut (s ++ post)).splitOn slash)
    (hpercent : percent ∈ seg) : seg.length ≤ s.length := by
  by_cases hclear : ∀ b ∈ s, b ∉ [query, fragment]
  · rw [cut_append_of_clear hclear, hpost.cut_eq, splitOn_append_suffix hpost] at hmem
    rcases List.mem_append.mp hmem with hmem | hmem
    · exact (sublist_of_mem hmem).length_le
    · rw [following] at hmem
      split_ifs at hmem
      · exact absurd hmem List.not_mem_nil
      · have hin := List.mem_of_mem_tail ((sublist_of_mem hmem).subset hpercent)
        exact absurd List.mem_cons_self (hpost.clear percent hin)
  · rw [cut_append_of_not_clear hclear] at hmem
    exact ((sublist_of_mem hmem).trans (List.takeWhile_sublist _)).length_le

/-- Only a plain text comes back as the value of a segment. -/
theorem plain_of_unescape (hpost : Suffix post) (hmem : seg ∈ (cut (s ++ post)).splitOn slash)
    (hstays : Stays seg) (hvalue : unescape seg = some s) : Plain s := by
  have hpercent : percent ∉ seg := by
    intro hpercent
    have hle := length_le_of_percent hpost hmem hpercent
    rcases length_unescape hvalue with hlt | ⟨hno, -⟩
    · omega
    · exact hno hpercent
  have heq : seg = s := Option.some.inj ((unescape_of_notMem hpercent).symm.trans hvalue)
  subst heq
  refine ⟨fun b hb hreserved => ?_, hstays.2.1, hstays.2.2⟩
  have hcut : b ∉ [query, fragment] := notMem_of_mem_cut ((sublist_of_mem hmem).subset hb)
  simp only [List.mem_cons, List.not_mem_nil, or_false, not_or] at hreserved hcut
  rcases hreserved with rfl | rfl | rfl | rfl
  · exact slash_notMem_of_mem hmem hb
  · exact hpercent hb
  · exact hcut.1 rfl
  · exact hcut.2 rfl

/-! ### Patterns -/

/-- A segment of a pattern. -/
inductive Part
  | literal (text : Bytes)
  | wildcard
  deriving DecidableEq, Repr

/-- What may come after the segments of a pattern: nothing, a slash, or anything after a slash. -/
inductive Ending
  | exact
  | slash
  | subtree
  deriving DecidableEq, Repr

structure Pattern where
  parts : List Part
  ending : Ending
  deriving DecidableEq, Repr

/-- What a segment of a path reads as: a slash if nothing is behind the last one. -/
def decode (seg : Bytes) : Option Bytes := if seg = [] then some [slash] else unescape seg

def Ending.accepts : Ending → List Bytes → Bool
  | .exact, segs => segs = []
  | .slash, segs => segs.map decode = [some [UrlPath.slash]]
  | .subtree, segs => segs ≠ []

/-- What a segment of a pattern captures of a segment of a path, if it matches: a wildcard is for
everything but a slash. -/
def Part.captures (seg : Bytes) : Part → Option (List Bytes)
  | .literal text => if decode seg = some text then some [] else none
  | .wildcard =>
      if decode seg = some [slash] then none else (decode seg).map fun value => [value]

/-- The values of the wildcards, if the pattern matches. -/
def captures (ending : Ending) : List Part → List Bytes → Option (List Bytes)
  | [], segs => if ending.accepts segs then some [] else none
  | _ :: _, [] => none
  | part :: parts, seg :: segs => do
      let values ← part.captures seg
      let others ← captures ending parts segs
      return values ++ others

variable {ending ending' : Ending} {parts parts' : List Part} {values values' : List Bytes}

theorem captures_cons {part : Part} (h : captures ending (part :: parts) segs = some values) :
    ∃ seg rest value others, segs = seg :: rest ∧ part.captures seg = some value ∧
      captures ending parts rest = some others ∧ values = value ++ others := by
  cases segs with
  | nil => cases h
  | cons seg rest =>
      obtain ⟨value, hvalue, h⟩ := Option.bind_eq_some_iff.mp h
      obtain ⟨others, hothers, h⟩ := Option.bind_eq_some_iff.mp h
      cases h
      exact ⟨seg, rest, value, others, rfl, hvalue, hothers, rfl⟩

/-- Every value of a wildcard is what a nonempty segment is decoded to. -/
theorem unescape_of_captures (h : captures ending parts segs = some values) {v : Bytes}
    (hv : v ∈ values) : ∃ seg ∈ segs, seg ≠ [] ∧ unescape seg = some v := by
  induction parts generalizing segs values with
  | nil =>
      rw [captures] at h
      split_ifs at h
      cases h
      exact absurd hv List.not_mem_nil
  | cons part parts ih =>
      obtain ⟨seg, rest, value, others, rfl, hvalue, hothers, rfl⟩ := captures_cons h
      rcases List.mem_append.mp hv with hv | hv
      · cases part with
        | literal text =>
            rw [Part.captures] at hvalue
            split_ifs at hvalue
            cases hvalue
            exact absurd hv List.not_mem_nil
        | wildcard =>
            rw [Part.captures] at hvalue
            split_ifs at hvalue with hslash
            have hnil : seg ≠ [] := fun hnil => hslash (if_pos hnil)
            rw [decode, if_neg hnil] at hvalue
            obtain ⟨w, hw, rfl⟩ := Option.map_eq_some_iff.mp hvalue
            rw [List.mem_singleton.mp hv]
            exact ⟨seg, List.mem_cons_self, hnil, hw⟩
      · obtain ⟨found, hmem, hfound⟩ := ih hothers hv
        exact ⟨found, List.mem_cons_of_mem _ hmem, hfound⟩

/-- A segment that the pattern asks for where the other has ended. -/
def Ending.apart (part : Part) : Ending → Bool
  | .exact => true
  | .slash => part ≠ .literal [UrlPath.slash]
  | .subtree => false

/-- Patterns that tell themselves apart: two literals differ, or one pattern asks for a segment
where the other has ended. -/
def apart (ending ending' : Ending) : List Part → List Part → Bool
  | [], [] => ending ≠ ending' ∧ (ending = .exact ∨ ending' = .exact)
  | [], part :: _ => ending.apart part
  | part :: _, [] => ending'.apart part
  | .literal text :: parts, .literal text' :: parts' =>
      text ≠ text' ∨ apart ending ending' parts parts'
  | _ :: parts, _ :: parts' => apart ending ending' parts parts'

theorem not_accepts_of_apart {part : Part} (hapart : ending'.apart part = true)
    (h : captures ending (part :: parts) segs = some values) : ending'.accepts segs = false := by
  obtain ⟨seg, rest, value, others, rfl, hvalue, hothers, rfl⟩ := captures_cons h
  cases ending' with
  | exact => simp [Ending.accepts]
  | subtree => cases hapart
  | slash =>
      have hne : decode seg ≠ some [slash] := by
        cases part with
        | wildcard =>
            rw [Part.captures] at hvalue
            split_ifs at hvalue with hslash
            exact hslash
        | literal text =>
            rw [Part.captures] at hvalue
            split_ifs at hvalue with htext
            rintro hslash
            rw [htext, Option.some.injEq] at hslash
            exact of_decide_eq_true hapart (congrArg Part.literal hslash)
      simp [Ending.accepts, hne]

/-- No path matches two patterns that tell themselves apart. -/
theorem not_both_of_apart (hapart : apart ending ending' parts parts' = true)
    (h : captures ending parts segs = some values)
    (h' : captures ending' parts' segs = some values') : False := by
  fun_induction apart ending ending' parts parts' generalizing segs values values' with
  | case1 =>
      rw [captures] at h h'
      split_ifs at h h' with hends hends'
      cases ending <;> cases ending' <;> simp_all [Ending.accepts]
  | case2 part parts' =>
      rw [captures, not_accepts_of_apart hapart h'] at h
      cases h
  | case3 part parts =>
      rw [captures, not_accepts_of_apart hapart h] at h'
      cases h'
  | case4 text parts text' parts' ih =>
      obtain ⟨seg, rest, value, others, rfl, hvalue, hothers, rfl⟩ := captures_cons h
      obtain ⟨seg', rest', value', others', heq, hvalue', hothers', rfl⟩ := captures_cons h'
      cases heq
      rw [Part.captures] at hvalue hvalue'
      split_ifs at hvalue hvalue' with htext htext'
      have hsame : text = text' := Option.some.inj (htext.symm.trans htext')
      exact ih (by simpa [hsame] using hapart) hothers hothers'
  | case5 part parts part' parts' hne ih =>
      obtain ⟨seg, rest, value, others, rfl, -, hothers, rfl⟩ := captures_cons h
      obtain ⟨seg', rest', value', others', heq, -, hothers', rfl⟩ := captures_cons h'
      cases heq
      exact ih hapart hothers hothers'

end Outband.Foundation.UrlPath
