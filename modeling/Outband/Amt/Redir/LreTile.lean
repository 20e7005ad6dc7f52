import Outband.Amt.Redir.RfbClient

/-!
# Decoding of LRE tiles

Each loop of `decodeLRE` sets the pixels of its tile from left to right. After
the values `vs` have been set the loop stands in `progress s vs`, so a loop is
specified by the values it adds: the indices packed into the data for a packed
palette, the runs of the data for the two run-length encodings.
-/

namespace Outband.Amt.Redir

open Foundation

variable {bpp : Depth} {pal vs : List (BitVec 16)} {s : Nat}

/-! ### Progress through a tile -/

/-- The first pixels are set to `vs`, the others still hold their initial value. -/
def progress (s : Nat) (vs : List (BitVec 16)) : Progress :=
  (vs.length, vs ++ List.replicate (s - vs.length) 0)

theorem progress_nil (s : Nat) : progress s [] = (0, List.replicate s 0) := rfl

theorem progress_complete (h : vs.length = s) : (progress s vs).2 = vs := by
  simp [progress, h]

/-- Setting the next pixel. -/
theorem setPix_progress (h : vs.length < s) (v : BitVec 16) :
    ((progress s vs).1 + 1, setPix (progress s vs).2 (progress s vs).1 v) =
      progress s (vs ++ [v]) := by
  obtain ⟨k, hk⟩ : ∃ k, s - vs.length = k + 1 := ⟨s - vs.length - 1, by omega⟩
  have hk' : s - (vs ++ [v]).length = k := by
    rw [List.length_append, List.length_singleton]
    omega
  unfold progress setPix
  rw [hk, hk', if_pos (by simp)]
  simp [List.replicate_succ]

/-- A run, as far as the tile goes. -/
theorem fillRun_progress {run : Nat} (hle : vs.length ≤ s) (v : BitVec 16) :
    fillRun s v run (progress s vs) =
      progress s (vs ++ List.replicate (min run (s - vs.length)) v) := by
  induction run generalizing vs with
  | zero => simp [fillRun]
  | succ run ih =>
      rw [show progress s vs = ((progress s vs).1, (progress s vs).2) from rfl, fillRun]
      by_cases hlt : vs.length < s
      · rw [if_pos (show (progress s vs).1 < s from hlt), setPix_progress hlt, ih]
        · rw [List.append_assoc, List.length_append, List.length_singleton,
            ← List.replicate_one, ← List.replicate_add]
          congr 3
          omega
        · rw [List.length_append, List.length_singleton]
          omega
      · rw [if_neg (show ¬ (progress s vs).1 < s from hlt)]
        simp [show s - vs.length = 0 by omega]

/-- A run that fits into the rest of the tile. -/
theorem fillRun_fits {run : Nat} (h : vs.length + run ≤ s) (v : BitVec 16) :
    fillRun s v run (progress s vs) = progress s (vs ++ List.replicate run v) := by
  rw [fillRun_progress (by omega), Nat.min_eq_left (by omega)]

/-! ### Colours -/

/-- The bytes of a pixel value on the wire, least significant first. -/
def colorBytes (bpp : Depth) (v : BitVec 16) : Bytes :=
  match bpp with
  | .rgb565 => [v.setWidth 8, (v >>> 8).setWidth 8]
  | .rgb332 => [v.setWidth 8]

/-- The pixel values of a format. -/
def Depth.Fits (bpp : Depth) (v : BitVec 16) : Prop := bpp = .rgb332 → v.toNat < 256

theorem readColor_colorBytes {v : BitVec 16} (h : bpp.Fits v) (rest : Bytes) :
    readColor bpp (colorBytes bpp v ++ rest) = .ok (v, rest) := by
  cases bpp with
  | rgb332 =>
      change Except.ok ((v.setWidth 8).setWidth 16, rest) = _
      congr 2
      apply BitVec.eq_of_toNat_eq
      have := h rfl
      simp only [BitVec.toNat_setWidth]
      omega
  | rgb565 =>
      change Except.ok
        (((v.setWidth 8).setWidth 16 ||| ((v >>> 8).setWidth 8).setWidth 16 <<< 8), rest) = _
      congr 2
      apply BitVec.eq_of_getLsbD_eq
      intro i hi
      by_cases hlow : i < 8
      · simp [hlow, hi]
      · have : i - 8 < 8 := by omega
        simp [hlow, hi, this, show 8 + (i - 8) = i by omega]

theorem readColors_colorBytes (h : ∀ v ∈ vs, bpp.Fits v) (rest : Bytes) :
    readColors bpp vs.length (vs.flatMap (colorBytes bpp) ++ rest) = .ok (vs, rest) := by
  induction vs with
  | nil => rfl
  | cons v vs ih =>
      rw [List.flatMap_cons, List.append_assoc, List.length_cons, readColors,
        readColor_colorBytes (h v (by simp))]
      change (readColors bpp vs.length _ >>= _) = _
      rw [ih fun v hv => h v (by simp [hv])]
      rfl

theorem rawLoop_colorBytes {new : List (BitVec 16)} (h : ∀ v ∈ new, bpp.Fits v)
    (hs : vs.length + new.length ≤ s) (rest : Bytes) :
    rawLoop bpp new.length (new.flatMap (colorBytes bpp) ++ rest) (progress s vs) =
      .ok (progress s (vs ++ new)) := by
  induction new generalizing vs with
  | nil => simp [rawLoop]
  | cons v new ih =>
      rw [List.length_cons] at hs
      rw [List.flatMap_cons, List.append_assoc, List.length_cons,
        show progress s vs = ((progress s vs).1, (progress s vs).2) from rfl, rawLoop,
        readColor_colorBytes (h v (by simp))]
      change rawLoop bpp new.length _ ((progress s vs).1 + 1, _) = _
      rw [setPix_progress (by omega), ih fun v hv => h v (by simp [hv])]
      · simp
      · rw [List.length_append, List.length_singleton]
        omega

/-! ### Packed palettes -/

/-- The indices packed into one byte, most significant first. -/
def packedIndices (br : Nat) (v : BitVec 8) : List Nat :=
  (indexShifts br).map fun i => (v.toNat >>> i) &&& (2 ^ br - 1)

/-- Colours of a palette, one for each index; an index past its end is a panic. -/
def lookups (pal : List (BitVec 16)) (idx : List Nat) : Except Stop (List (BitVec 16)) :=
  idx.mapM (rdSlice (.panic .palette) pal)

theorem lookups_nil : lookups pal [] = .ok [] := rfl

theorem lookups_cons (i : Nat) (idx : List Nat) :
    lookups pal (i :: idx) = rdSlice (.panic .palette) pal i >>= fun v =>
      (lookups pal idx).map (v :: ·) := by
  rw [lookups, List.mapM_cons]
  rfl

theorem lookups_append (idx idx' : List Nat) :
    lookups pal (idx ++ idx') = lookups pal idx >>= fun new =>
      (lookups pal idx').map (new ++ ·) := by
  induction idx with
  | nil =>
      rw [List.nil_append, lookups_nil]
      change _ = (lookups pal idx').map fun new => new
      cases lookups pal idx' <;> rfl
  | cons i idx ih =>
      rw [List.cons_append, lookups_cons, lookups_cons, ih]
      cases rdSlice (Stop.panic .palette) pal i with
      | error e => rfl
      | ok v =>
          cases lookups pal idx with
          | error e => rfl
          | ok new => cases lookups pal idx' <;> rfl

/-- All indices are in range, and the colours are those of the palette. -/
theorem lookups_ok {idx : List Nat} (h : ∀ i ∈ idx, i < pal.length) :
    lookups pal idx = .ok (idx.map fun i => pal[i]?.getD 0) := by
  induction idx with
  | nil => rfl
  | cons i idx ih =>
      have hi := h i (by simp)
      rw [lookups_cons, ih fun i hi => h i (by simp [hi]), rdSlice_ok hi]
      simp [bind, Except.bind, Except.map, hi]

theorem lookups_panic {idx : List Nat} (h : ¬ ∀ i ∈ idx, i < pal.length) :
    lookups pal idx = .error (.panic .palette) := by
  induction idx with
  | nil => simp at h
  | cons i idx ih =>
      rw [lookups_cons]
      by_cases hi : i < pal.length
      · have hrest : ¬ ∀ i ∈ idx, i < pal.length := fun hall => h (by simp [hi]; exact hall)
        rw [rdSlice_ok hi, ih hrest]
        rfl
      · rw [rdSlice_error (by omega)]
        rfl

theorem length_lookups {idx : List Nat} (h : lookups pal idx = .ok vs) :
    vs.length = idx.length := by
  by_cases hall : ∀ i ∈ idx, i < pal.length
  · rw [lookups_ok hall] at h
    cases h
    simp
  · rw [lookups_panic hall] at h
    cases h

theorem packedByte_spec {br : Nat} (v : BitVec 8) (shifts : List Nat) (hle : vs.length ≤ s) :
    packedByte pal s br v shifts (progress s vs) =
      (lookups pal ((shifts.map fun i => (v.toNat >>> i) &&& (2 ^ br - 1)).take
        (s - vs.length))).map fun new => progress s (vs ++ new) := by
  induction shifts generalizing vs with
  | nil => simp [packedByte, lookups_nil, Except.map]
  | cons i shifts ih =>
      rw [show progress s vs = ((progress s vs).1, (progress s vs).2) from rfl, packedByte]
      by_cases hlt : vs.length < s
      · obtain ⟨k, hk⟩ : ∃ k, s - vs.length = k + 1 := ⟨s - vs.length - 1, by omega⟩
        rw [if_pos (show (progress s vs).1 < s from hlt), hk, List.map_cons, List.take_succ_cons,
          lookups_cons]
        cases rdSlice (Stop.panic .palette) pal ((v.toNat >>> i) &&& (2 ^ br - 1)) with
        | error e => rfl
        | ok colour =>
            have hlen : (vs ++ [colour]).length = vs.length + 1 := by simp
            change packedByte pal s br v shifts ((progress s vs).1 + 1, _) = _
            rw [setPix_progress hlt, ih (by omega), hlen, show s - (vs.length + 1) = k by omega]
            cases lookups pal _ with
            | error e => rfl
            | ok new => simp [bind, Except.bind, Except.map]
      · rw [if_neg (show ¬ (progress s vs).1 < s from hlt), show s - vs.length = 0 by omega]
        simp [lookups_nil, Except.map]

/-- The loop looks up the indices of the data, as many as the tile has room for. -/
theorem packedLoop_spec {br : Nat} (data : Bytes) (hle : vs.length ≤ s) :
    packedLoop pal s br data (progress s vs) =
      (lookups pal ((data.flatMap (packedIndices br)).take (s - vs.length))).map
        fun new => progress s (vs ++ new) := by
  induction data generalizing vs with
  | nil => simp [packedLoop, lookups_nil, Except.map]
  | cons v data ih =>
      rw [packedLoop]
      by_cases hlt : vs.length < s
      · rw [if_pos (show (progress s vs).1 < s from hlt), packedByte_spec v _ hle,
          List.flatMap_cons, List.take_append, lookups_append]
        change Except.map _ (lookups pal ((packedIndices br v).take (s - vs.length))) >>= _ = _
        cases hnew : lookups pal ((packedIndices br v).take (s - vs.length)) with
        | error e => rfl
        | ok new =>
            have hlen := length_lookups hnew
            rw [List.length_take] at hlen
            change packedLoop pal s br data (progress s (vs ++ new)) = _
            rw [ih (by rw [List.length_append]; omega), List.length_append,
              show s - (vs.length + new.length) = s - vs.length - (packedIndices br v).length by
                omega]
            change _ = Except.map _ (Except.map _ _)
            cases lookups pal _ with
            | error e => rfl
            | ok more => simp [Except.map]
      · rw [if_neg (show ¬ (progress s vs).1 < s from hlt), show s - vs.length = 0 by omega]
        simp [lookups_nil, Except.map]

/-! ### Run lengths -/

/-- A run length on the wire: 255 for each full 255 beyond the first pixel, then the rest. -/
def runBytes (run : Nat) : Bytes :=
  List.replicate ((run - 1) / 255) 255 ++ [BitVec.ofNat 8 ((run - 1) % 255)]

theorem readRun_replicate (acc k : Nat) {d : Nat} (hd : d < 255) (rest : Bytes) :
    readRun acc (List.replicate k 255 ++ BitVec.ofNat 8 d :: rest) =
      .ok (acc + 255 * k + d, rest) := by
  induction k generalizing acc with
  | zero =>
      have hne : BitVec.ofNat 8 d ≠ 255 := by
        intro h
        have := congrArg BitVec.toNat h
        rw [BitVec.toNat_ofNat, Nat.mod_eq_of_lt (by omega)] at this
        exact absurd this (by simp; omega)
      rw [List.replicate_zero, List.nil_append, readRun, if_neg hne, BitVec.toNat_ofNat,
        Nat.mod_eq_of_lt (by omega)]
      rfl
  | succ k ih =>
      rw [List.replicate_succ, List.cons_append, readRun, if_pos rfl, ih]
      congr 2
      omega

theorem readRun_runBytes {run : Nat} (h : 0 < run) (rest : Bytes) :
    readRun 1 (runBytes run ++ rest) = .ok (run, rest) := by
  have hmod : (run - 1) % 255 < 255 := Nat.mod_lt _ (by omega)
  rw [runBytes, List.append_assoc, List.singleton_append, readRun_replicate _ _ hmod]
  congr 2
  omega

/-- A list of values given by runs. -/
def expandRuns (runs : List (BitVec 16 × Nat)) : List (BitVec 16) :=
  runs.flatMap fun r => List.replicate r.2 r.1

theorem expandRuns_cons (r : BitVec 16 × Nat) (runs : List (BitVec 16 × Nat)) :
    expandRuns (r :: runs) = List.replicate r.2 r.1 ++ expandRuns runs := by
  simp [expandRuns]

/-- One round of the loop over colours and runs. -/
theorem rleLoop_round {data rest rest' : Bytes} {p : Progress} {v : BitVec 16} {run : Nat}
    (hlt : p.1 < s) (hcolour : readColor bpp data = .ok (v, rest))
    (hrun : readRun 1 rest = .ok (run, rest')) :
    rleLoop bpp s data p = rleLoop bpp s rest' (fillRun s v run p) := by
  have hne : data ≠ [] := by
    rintro rfl
    have := length_lt_of_readColor hcolour
    simp at this
  conv_lhs => rw [rleLoop]
  rw [if_pos ⟨hlt, hne⟩]
  split
  case h_1 e he => simp [hcolour] at he
  case h_2 v' rest₁ hv =>
    rw [hcolour] at hv
    cases hv
    split
    case h_1 e he => simp [hrun] at he
    case h_2 run' rest₂ hr =>
      rw [hrun] at hr
      cases hr
      rfl

theorem rleLoop_runs {runs : List (BitVec 16 × Nat)}
    (h : ∀ r ∈ runs, bpp.Fits r.1 ∧ 0 < r.2) (hs : vs.length + (expandRuns runs).length = s) :
    rleLoop bpp s (runs.flatMap fun r => colorBytes bpp r.1 ++ runBytes r.2) (progress s vs) =
      .ok (progress s (vs ++ expandRuns runs)) := by
  induction runs generalizing vs with
  | nil =>
      rw [rleLoop]
      simp [expandRuns]
  | cons r runs ih =>
      obtain ⟨hfits, hpos⟩ := h r (by simp)
      rw [expandRuns_cons, List.length_append, List.length_replicate] at hs
      have hlt : (progress s vs).1 < s := by
        change vs.length < s
        omega
      rw [List.flatMap_cons, List.append_assoc,
        rleLoop_round hlt (readColor_colorBytes hfits _) (readRun_runBytes hpos _),
        fillRun_fits (by omega), ih fun r hr => h r (by simp [hr])]
      · rw [expandRuns_cons, List.append_assoc]
      · rw [List.length_append, List.length_replicate]
        omega

/-! ### Palettes with runs -/

/-- One palette index with its run; `short` is the form without a run length. -/
structure PaletteRun where
  index : Nat
  run : Nat
  short : Bool

/-- A run is at least one pixel, and only a single pixel has the short form. -/
structure PaletteRun.Valid (nPal : Nat) (r : PaletteRun) : Prop where
  index_lt : r.index < nPal
  run_pos : 0 < r.run
  short_one : r.short = true → r.run = 1

def PaletteRun.bytes (r : PaletteRun) : Bytes :=
  if r.short then [BitVec.ofNat 8 r.index]
  else BitVec.ofNat 8 (r.index + 128) :: runBytes r.run

/-- The pixels the runs stand for. -/
def expandPalette (pal : List (BitVec 16)) (runs : List PaletteRun) : List (BitVec 16) :=
  runs.flatMap fun r => List.replicate r.run (pal[r.index]?.getD 0)

theorem expandPalette_cons (r : PaletteRun) (runs : List PaletteRun) :
    expandPalette pal (r :: runs) =
      List.replicate r.run (pal[r.index]?.getD 0) ++ expandPalette pal runs := by
  simp [expandPalette]

theorem paletteLoop_round {idx : BitVec 8} {rest rest' : Bytes} {p : Progress} {v : BitVec 16}
    {run : Nat} (hlt : p.1 < s)
    (hcolour : rdSlice (Stop.panic .palette) pal (idx.toNat % 128) = .ok v)
    (hrun : readIndexRun idx rest = .ok (run, rest')) :
    paletteLoop pal s (idx :: rest) p = paletteLoop pal s rest' (fillRun s v run p) := by
  conv_lhs => rw [paletteLoop]
  rw [if_pos hlt, hcolour]
  dsimp only
  split
  case h_1 e he => simp [hrun] at he
  case h_2 run' rest₂ hr =>
    rw [hrun] at hr
    cases hr
    rfl

/-- Reading the two forms of an index back. -/
theorem PaletteRun.Valid.read {r : PaletteRun} (h : r.Valid pal.length) (hpal : pal.length ≤ 127)
    (rest : Bytes) :
    ∃ idx tail, r.bytes ++ rest = idx :: tail ∧ idx.toNat % 128 = r.index ∧
      readIndexRun idx tail = .ok (r.run, rest) := by
  have hidx := h.index_lt
  unfold bytes
  cases hshort : r.short with
  | true =>
      refine ⟨BitVec.ofNat 8 r.index, rest, rfl, ?_, ?_⟩
      · rw [BitVec.toNat_ofNat]
        omega
      · rw [readIndexRun, if_neg (by rw [BitVec.toNat_ofNat]; omega), h.short_one hshort]
  | false =>
      refine ⟨BitVec.ofNat 8 (r.index + 128), runBytes r.run ++ rest, rfl, ?_, ?_⟩
      · rw [BitVec.toNat_ofNat]
        omega
      · rw [readIndexRun, if_pos (by rw [BitVec.toNat_ofNat]; omega), readRun_runBytes h.run_pos]

theorem paletteLoop_runs {runs : List PaletteRun} (hpal : pal.length ≤ 127)
    (h : ∀ r ∈ runs, r.Valid pal.length)
    (hs : vs.length + (expandPalette pal runs).length = s) :
    paletteLoop pal s (runs.flatMap PaletteRun.bytes) (progress s vs) =
      .ok (progress s (vs ++ expandPalette pal runs)) := by
  induction runs generalizing vs with
  | nil =>
      rw [List.flatMap_nil, paletteLoop]
      simp [expandPalette]
  | cons r runs ih =>
      have hr := h r (by simp)
      have hpos := hr.run_pos
      rw [expandPalette_cons, List.length_append, List.length_replicate] at hs
      have hlt : (progress s vs).1 < s := by
        change vs.length < s
        omega
      obtain ⟨idx, tail, hbytes, hmod, hrun⟩ := hr.read hpal (runs.flatMap PaletteRun.bytes)
      have hcolour : rdSlice (Stop.panic .palette) pal (idx.toNat % 128) =
          .ok (pal[r.index]?.getD 0) := by
        rw [hmod, rdSlice_ok hr.index_lt, List.getElem?_eq_getElem hr.index_lt]
        rfl
      rw [List.flatMap_cons, hbytes, paletteLoop_round hlt hcolour hrun, fillRun_fits (by omega),
        ih fun r hr => h r (by simp [hr])]
      · rw [expandPalette_cons, List.append_assoc]
      · rw [List.length_append, List.length_replicate]
        omega

end Outband.Amt.Redir
