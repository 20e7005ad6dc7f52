import Outband.Foundation.Bytes

/-!
# Runes of a byte string

A text is read rune by rune as UTF-8. A byte that begins no complete sequence is
a rune of its own, the replacement character, so that every byte string has
runes. Bytes below 0x80 are their own runes; any other byte makes the runes
fewer than the bytes, the replacement characters left out.
-/

namespace Outband.Foundation.Utf8

abbrev Bytes := List (BitVec 8)

/-- The bytes of a text. -/
def encode (text : String) : Bytes :=
  (text.toList.flatMap String.utf8EncodeChar).map UInt8.toBitVec

@[simp]
theorem encode_append (s t : String) : encode (s ++ t) = encode s ++ encode t := by
  simp [encode]

theorem encode_injective : Function.Injective encode := by
  intro s t h
  have hbytes := List.map_injective_iff.mpr (fun _ _ => UInt8.toBitVec_inj.mp) h
  rw [← String.toByteArray_inj, ← String.ofList_toList (s := s), ← String.ofList_toList (s := t),
    String.toByteArray_ofList, String.toByteArray_ofList, List.utf8Encode, List.utf8Encode, hbytes]

/-- U+FFFD. -/
def runeError : Nat := 0xfffd

/-- The number of bytes that follow a leading byte, and the range of the first of them. -/
def lead (b : Nat) : Option (Nat × Nat × Nat) :=
  if 0xc2 ≤ b ∧ b ≤ 0xdf then some (1, 0x80, 0xbf)
  else if b = 0xe0 then some (2, 0xa0, 0xbf)
  else if b = 0xed then some (2, 0x80, 0x9f)
  else if 0xe1 ≤ b ∧ b ≤ 0xef then some (2, 0x80, 0xbf)
  else if b = 0xf0 then some (3, 0x90, 0xbf)
  else if 0xf1 ≤ b ∧ b ≤ 0xf3 then some (3, 0x80, 0xbf)
  else if b = 0xf4 then some (3, 0x80, 0x8f)
  else none

/-- The bytes `tail` complete a sequence. -/
def Completes (n lo hi : Nat) (tail : Bytes) : Prop :=
  tail.length = n ∧ (∀ b ∈ tail, 0x80 ≤ b.toNat ∧ b.toNat ≤ 0xbf) ∧
    ∀ b ∈ tail.head?, lo ≤ b.toNat ∧ b.toNat ≤ hi

instance (n lo hi : Nat) (tail : Bytes) : Decidable (Completes n lo hi tail) :=
  inferInstanceAs (Decidable (_ ∧ _ ∧ ∀ b ∈ tail.head?, _))

/-- The rune at the front of a text and the number of its bytes. -/
def decodeRune (b : BitVec 8) (rest : Bytes) : Nat × Nat :=
  if b.toNat < 0x80 then (b.toNat, 1)
  else
    match lead b.toNat with
    | none => (runeError, 1)
    | some (n, lo, hi) =>
        if Completes n lo hi (rest.take n) then
          ((rest.take n).foldl (fun r c => r * 64 + c.toNat % 64) (b.toNat % 2 ^ (6 - n)), n + 1)
        else (runeError, 1)

/-- The runes of a text of which the first `skip` bytes belong to a rune that has been read. -/
def runesFrom : Nat → Bytes → List Nat
  | _, [] => []
  | 0, b :: rest =>
      let (r, width) := decodeRune b rest
      r :: runesFrom (width - 1) rest
  | skip + 1, _ :: rest => runesFrom skip rest

def runes (text : Bytes) : List Nat := runesFrom 0 text

example : runes [0x61, 0xc3, 0xa9, 0xe9] = [0x61, 0xe9, runeError] := by decide

variable {b : BitVec 8} {rest text : Bytes} {p : Nat → Bool}

theorem decodeRune_of_lt (h : b.toNat < 0x80) : decodeRune b rest = (b.toNat, 1) := if_pos h

/-- A byte from 0x80 on is no rune, or the first byte of several. -/
theorem decodeRune_of_ge (h : 0x80 ≤ b.toNat) (rest : Bytes) : decodeRune b rest = (runeError, 1) ∨
    ∃ r n, decodeRune b rest = (r, n + 1) ∧ 1 ≤ n ∧ n ≤ rest.length := by
  unfold decodeRune
  rw [if_neg (by omega)]
  cases hlead : lead b.toNat with
  | none => exact .inl rfl
  | some l =>
      obtain ⟨n, lo, hi⟩ := l
      dsimp only
      split_ifs with hcompletes
      · refine .inr ⟨_, n, rfl, ?_, ?_⟩
        · unfold lead at hlead
          split_ifs at hlead <;> cases hlead <;> decide
        · have hlength := hcompletes.1
          rw [List.length_take] at hlength
          omega
      · exact .inl rfl

theorem runes_of_ascii (h : ∀ b ∈ text, b.toNat < 0x80) : runes text = text.map BitVec.toNat := by
  induction text with
  | nil => rfl
  | cons b rest ih =>
      have hrest := ih fun c hc => h c (by simp [hc])
      unfold runes runesFrom
      rw [decodeRune_of_lt (h b (by simp))]
      exact congrArg _ hrest

theorem length_runesFrom_le (skip : Nat) (text : Bytes) :
    (runesFrom skip text).length ≤ text.length - skip := by
  induction text generalizing skip with
  | nil => simp [runesFrom]
  | cons b rest ih =>
      cases skip with
      | zero =>
          have := ih ((decodeRune b rest).2 - 1)
          simp only [runesFrom, List.length_cons]
          omega
      | succ skip =>
          have := ih skip
          simp only [runesFrom, List.length_cons]
          omega

/-- With a byte from 0x80 on, the runes that are kept are fewer than the bytes, if the replacement
character is not kept. -/
theorem length_filter_runes_lt (hp : p runeError = false) (h : ∃ b ∈ text, 0x80 ≤ b.toNat) :
    ((runes text).filter p).length < text.length := by
  induction text with
  | nil => simp at h
  | cons b rest ih =>
      unfold runes runesFrom
      dsimp only
      by_cases hb : b.toNat < 0x80
      · have hrest : ∃ c ∈ rest, 0x80 ≤ c.toNat := by
          obtain ⟨c, hc, hge⟩ := h
          refine ⟨c, (List.mem_cons.mp hc).resolve_left ?_, hge⟩
          rintro rfl
          omega
        rw [decodeRune_of_lt hb, List.length_cons]
        refine lt_of_le_of_lt ?_ (Nat.succ_lt_succ (ih hrest))
        rw [List.filter_cons]
        split_ifs
        · exact le_rfl
        · exact Nat.le_succ _
      · rcases decodeRune_of_ge (Nat.not_lt.mp hb) rest with heq | ⟨r, n, heq, hpos, hle⟩
        · have hlength := (List.length_filter_le p (runes rest)).trans (length_runesFrom_le 0 rest)
          rw [heq, List.filter_cons_of_neg (by simp [hp]), List.length_cons]
          exact Nat.lt_succ_of_le hlength
        · rw [heq, List.length_cons]
          refine lt_of_le_of_lt (List.length_filter_le p _) ?_
          have := length_runesFrom_le n rest
          simp only [List.length_cons, Nat.add_sub_cancel]
          omega

end Outband.Foundation.Utf8
