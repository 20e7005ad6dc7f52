import Outband.Amt.Redir.RfbClient

/-!
# The framing of a tile

The payload of an LRE tile travels in a stored block, as a zlib stream, or bare,
and `unwrapRLE` tells which from the first bytes. Stored blocks and zlib streams
are always recognized. A bare tile is returned as it is unless its pixels agree
with the length of a stored block, whose complement is not compared, or its
subencoding has the low nibble of a zlib header.
-/

namespace Outband.Amt.Redir

/-- A payload in a stored block: its length and the complement of its length come first. -/
def storedBlock (p : Bytes) : Bytes :=
  [0, BitVec.ofNat 8 p.length, BitVec.ofNat 8 (p.length / 256),
    ~~~BitVec.ofNat 8 p.length, ~~~BitVec.ofNat 8 (p.length / 256)] ++ p

/-- A zlib stream of a payload: a member of method 8 that inflates to it. The trailer may be
missing. -/
def ZlibStream (H : RfbHost) (z p : Bytes) : Prop :=
  z[0]?.getD 0 &&& 0x0f = 8 ∧ ∃ failed, H.zlib z = some (p, failed)

/-- The test for a stored block. -/
def LooksStored (data : Bytes) : Prop :=
  5 < data.length ∧ data[0]?.getD 0 = 0 ∧
    (data[1]?.getD 0).toNat + 256 * (data[2]?.getD 0).toNat = data.length - 5

instance (data : Bytes) : Decidable (LooksStored data) :=
  inferInstanceAs (Decidable (_ ∧ _ ∧ _))

/-- Each framing of the payload is unwrapped to it. -/
structure Unambiguous (H : RfbHost) (p : Bytes) : Prop where
  stored : RfbClient.unwrapRLE H (storedBlock p) = .ok p
  zlib : ∀ z, ZlibStream H z p → RfbClient.unwrapRLE H z = .ok p
  bare : RfbClient.unwrapRLE H p = .ok p

theorem looksStored_storedBlock {p : Bytes} (hpos : 1 ≤ p.length) (hle : p.length ≤ 65535) :
    LooksStored (storedBlock p) := by
  have hlength : (storedBlock p).length = p.length + 5 := by simp [storedBlock]
  refine ⟨by omega, rfl, ?_⟩
  rw [hlength]
  change (BitVec.ofNat 8 p.length).toNat + 256 * (BitVec.ofNat 8 (p.length / 256)).toNat = _
  simp only [BitVec.toNat_ofNat]
  omega

/-- A first byte with the low nibble of a zlib header does not begin a stored block. -/
theorem not_looksStored {data : Bytes} (hmethod : data[0]?.getD 0 &&& 0x0f = 8) :
    ¬LooksStored data := by
  rintro ⟨-, hfirst, -⟩
  rw [hfirst] at hmethod
  cases hmethod

namespace RfbClient

variable {H : RfbHost} {p data : Bytes}

theorem unwrapRLE_eq (hne : data ≠ []) :
    unwrapRLE H data =
      if LooksStored data then .ok (data.drop 5)
      else if data[0]?.getD 0 &&& 0x0f = 8 then
        match H.zlib data with
        | none => .error (.returned .zlibHeader)
        | some (out, failed) =>
            if out ≠ [] then .ok out
            else if failed then .error (.returned .zlib)
            else .error (.returned .zlibEmptyOutput)
      else .ok data := by
  cases data with
  | nil => exact absurd rfl hne
  | cons b rest => rfl

/-- A zlib member gives what is inflated, when that is anything. -/
theorem unwrapRLE_of_method (hmethod : data[0]?.getD 0 &&& 0x0f = 8) :
    unwrapRLE H data = .ok p ↔ p ≠ [] ∧ ∃ failed, H.zlib data = some (p, failed) := by
  have hne : data ≠ [] := by
    rintro rfl
    cases hmethod
  rw [unwrapRLE_eq hne, if_neg (not_looksStored hmethod), if_pos hmethod]
  cases hz : H.zlib data with
  | none => simp
  | some r =>
      obtain ⟨out, failed⟩ := r
      dsimp only
      split_ifs with hout hfailed
      · simp only [Except.ok.injEq, Option.some.injEq, Prod.mk.injEq]
        constructor
        · rintro rfl
          exact ⟨hout, failed, rfl, rfl⟩
        · rintro ⟨-, -, h, -⟩
          exact h
      · simp_all
      · simp_all

/-- The framings of a payload are told apart exactly when the bare payload does not look like a
stored block and its subencoding does not look like a zlib header; the one exception is a zlib
member that inflates to itself. -/
theorem unwrapRLE_unambiguous_iff (H : RfbHost) (p : Bytes) (hpos : 1 ≤ p.length)
    (hle : p.length ≤ 65535) :
    Unambiguous H p ↔ ¬LooksStored p ∧
      (p[0]?.getD 0 &&& 0x0f = 8 → ∃ failed, H.zlib p = some (p, failed)) := by
  have hne : p ≠ [] := List.ne_nil_of_length_pos hpos
  have hbare : unwrapRLE H p = .ok p ↔ ¬LooksStored p ∧
      (p[0]?.getD 0 &&& 0x0f = 8 → ∃ failed, H.zlib p = some (p, failed)) := by
    by_cases hlooks : LooksStored p
    · rw [unwrapRLE_eq hne, if_pos hlooks]
      have hshort : p.drop 5 ≠ p := by
        intro h
        have := congrArg List.length h
        rw [List.length_drop] at this
        omega
      simp [hlooks, hshort]
    · by_cases hmethod : p[0]?.getD 0 &&& 0x0f = 8
      · rw [unwrapRLE_of_method hmethod]
        constructor
        · rintro ⟨-, hz⟩
          exact ⟨hlooks, fun _ => hz⟩
        · rintro ⟨-, hz⟩
          exact ⟨hne, hz hmethod⟩
      · rw [unwrapRLE_eq hne, if_neg hlooks, if_neg hmethod]
        exact ⟨fun _ => ⟨hlooks, fun h => absurd h hmethod⟩, fun _ => rfl⟩
  constructor
  · intro h
    exact hbare.mp h.bare
  · intro h
    refine ⟨?_, ?_, hbare.mpr h⟩
    · rw [unwrapRLE_eq (by simp [storedBlock]), if_pos (looksStored_storedBlock hpos hle)]
      rfl
    · rintro z ⟨hmethod, hz⟩
      exact (unwrapRLE_of_method hmethod).mpr ⟨hne, hz⟩

/-- A solid tile is told apart from both framings. -/
theorem unwrapRLE_unambiguous_solid :
    Unambiguous ⟨fun _ => none, fun _ => none⟩ [1, 0x1f, 0x00] :=
  (unwrapRLE_unambiguous_iff ⟨fun _ => none, fun _ => none⟩ [1, 0x1f, 0x00] (by decide)
    (by decide)).mpr ⟨by decide, fun h => absurd h (by decide)⟩

/-- The first pixel of a raw tile of three reads as the length of a stored block, although no
complement follows: what is left is half a pixel. A palette of eight colours is taken for a
zlib header. -/
theorem unwrapRLE_ambiguous :
    (decodeTile .rgb565 3 0 [2, 0, 0, 0, 0, 0] = .ok [2, 0, 0] ∧
      ∀ H, unwrapRLE H [0, 2, 0, 0, 0, 0, 0] = .ok [0, 0] ∧
        ¬Unambiguous H [0, 2, 0, 0, 0, 0, 0]) ∧
    (decodeTile .rgb332 2 8 [0, 1, 2, 3, 4, 5, 6, 7, 0x10] = .ok [1, 0] ∧
      ∀ H, H.zlib [8, 0, 1, 2, 3, 4, 5, 6, 7, 0x10] = none →
        unwrapRLE H [8, 0, 1, 2, 3, 4, 5, 6, 7, 0x10] = .error (.returned .zlibHeader) ∧
          ¬Unambiguous H [8, 0, 1, 2, 3, 4, 5, 6, 7, 0x10]) := by
  refine ⟨⟨rfl, fun H => ?_⟩, rfl, fun H hz => ?_⟩
  · have hcut : unwrapRLE H [0, 2, 0, 0, 0, 0, 0] = .ok [0, 0] := rfl
    refine ⟨hcut, fun h => ?_⟩
    have := hcut.symm.trans h.bare
    simp at this
  · have herror : unwrapRLE H [8, 0, 1, 2, 3, 4, 5, 6, 7, 0x10] =
        .error (.returned .zlibHeader) := by
      rw [unwrapRLE_eq (by simp), if_neg (by decide), if_pos (by decide), hz]
    exact ⟨herror, fun h => nomatch herror.symm.trans h.bare⟩

end RfbClient

end Outband.Amt.Redir
