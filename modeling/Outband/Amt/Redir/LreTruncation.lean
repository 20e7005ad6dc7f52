import Outband.Amt.Redir.RfbSafety

/-!
# LRE payloads that end early

`Supplies` lists the payloads that hold a colour for each pixel of a tile, and
`Cut` those that end behind whole units of their subencoding before the tile is
complete. Raw and solid tiles run out of data in the middle of a colour, which is
an error. The other loops stop as soon as the data is used up, and nothing tells
that exit from a complete tile: a payload that is cut is drawn, with the rest of
its tile black.
-/

namespace Outband.Amt.Redir

open Foundation

variable {bpp : Depth} {pal vs : List (BitVec 16)} {s : Nat} {data rest : Bytes} {p q : Progress}

/-! ### What has been read -/

/-- A colour that is read stands at the front of the data. -/
theorem readColor_sound {v : BitVec 16} (h : readColor bpp data = .ok (v, rest)) :
    bpp.Fits v ∧ data = colorBytes bpp v ++ rest := by
  unfold readColor at h
  split at h
  case h_1 lo hi _ =>
    cases h
    refine ⟨nofun, ?_⟩
    change lo :: hi :: rest = _ :: _ :: rest
    congr 1
    · apply BitVec.eq_of_getLsbD_eq
      intro i hi
      simp [hi]
    · congr 1
      apply BitVec.eq_of_getLsbD_eq
      intro i hi
      simp [hi, show 8 + i < 16 by omega, show i < 16 by omega]
  case h_2 b _ =>
    cases h
    refine ⟨fun _ => ?_, ?_⟩
    · rw [BitVec.toNat_setWidth]
      omega
    · change b :: rest = _ :: rest
      congr 1
      apply BitVec.eq_of_getLsbD_eq
      intro i hi
      simp [hi]
  case h_3 => cases h

theorem readColors_sound {n : Nat} (h : readColors bpp n data = .ok (vs, rest)) :
    vs.length = n ∧ (∀ v ∈ vs, bpp.Fits v) ∧ data = vs.flatMap (colorBytes bpp) ++ rest := by
  induction n generalizing data vs with
  | zero =>
      cases h
      exact ⟨rfl, nofun, rfl⟩
  | succ n ih =>
      obtain ⟨⟨v, data₁⟩, hcolour, h⟩ := exists_of_bind_ok h
      obtain ⟨⟨vs₁, data₂⟩, hcolours, h⟩ := exists_of_bind_ok h
      cases h
      obtain ⟨hfits, rfl⟩ := readColor_sound hcolour
      obtain ⟨hlen, hall, rfl⟩ := ih hcolours
      refine ⟨congrArg Nat.succ hlen, ?_, by simp⟩
      intro w hw
      rcases List.mem_cons.mp hw with rfl | hw
      · exact hfits
      · exact hall w hw

theorem readRun_split {run n : Nat} (h : readRun run data = .ok (n, rest)) :
    ∃ k d, d < 255 ∧ data = List.replicate k 255 ++ BitVec.ofNat 8 d :: rest ∧
      n = run + 255 * k + d := by
  induction data generalizing run with
  | nil => cases h
  | cons b data ih =>
      rw [readRun] at h
      split_ifs at h with hfull
      · obtain ⟨k, d, hd, rfl, rfl⟩ := ih h
        refine ⟨k + 1, d, hd, ?_, by omega⟩
        rw [hfull, List.replicate_succ]
        rfl
      · cases h
        have hne : b.toNat ≠ 255 := fun heq => hfull (BitVec.eq_of_toNat_eq heq)
        exact ⟨0, b.toNat, by omega, by simp, by omega⟩

/-- A run length that is read stands at the front of the data. -/
theorem readRun_sound {n : Nat} (h : readRun 1 data = .ok (n, rest)) :
    0 < n ∧ data = runBytes n ++ rest := by
  obtain ⟨k, d, hd, rfl, rfl⟩ := readRun_split h
  refine ⟨by omega, ?_⟩
  rw [runBytes, show (1 + 255 * k + d - 1) / 255 = k by omega,
    show (1 + 255 * k + d - 1) % 255 = d by omega, List.append_assoc]
  rfl

/-- A palette index that is read with its run stands at the front of the data. -/
theorem readIndexRun_sound {idx : BitVec 8} {n : Nat} (hidx : idx.toNat % 128 < pal.length)
    (h : readIndexRun idx data = .ok (n, rest)) :
    ∃ r : PaletteRun, r.Valid pal.length ∧ r.index = idx.toNat % 128 ∧ r.run = n ∧
      idx :: data = r.bytes ++ rest := by
  unfold readIndexRun at h
  split_ifs at h with hlong
  · obtain ⟨hpos, rfl⟩ := readRun_sound h
    refine ⟨⟨idx.toNat % 128, n, false⟩, ⟨hidx, hpos, nofun⟩, rfl, rfl, ?_⟩
    change idx :: _ = BitVec.ofNat 8 (idx.toNat % 128 + 128) :: _
    rw [show idx.toNat % 128 + 128 = idx.toNat by omega, BitVec.ofNat_toNat, BitVec.setWidth_eq]
    rfl
  · cases h
    refine ⟨⟨idx.toNat % 128, 1, true⟩, ⟨hidx, Nat.one_pos, fun _ => rfl⟩, rfl, rfl, ?_⟩
    change idx :: _ = BitVec.ofNat 8 (idx.toNat % 128) :: _
    rw [show idx.toNat % 128 = idx.toNat by omega, BitVec.ofNat_toNat, BitVec.setWidth_eq]
    rfl

/-! ### The two loops over runs -/

/-- Colours and run lengths on the wire. -/
def rleBytes (bpp : Depth) (runs : List (BitVec 16 × Nat)) : Bytes :=
  runs.flatMap fun r => colorBytes bpp r.1 ++ runBytes r.2

theorem rleLoop_full (h : s ≤ p.1) (data : Bytes) : rleLoop bpp s data p = .ok p := by
  rw [rleLoop, if_neg (by omega)]

theorem rleLoop_nil (s : Nat) (p : Progress) : rleLoop bpp s [] p = .ok p := by
  rw [rleLoop]
  simp

/-- The loop goes through whole runs until the tile is full. -/
theorem rleLoop_prefix {runs : List (BitVec 16 × Nat)} (hp : WithinTile s p)
    (hruns : ∀ r ∈ runs, bpp.Fits r.1 ∧ 0 < r.2) (rest : Bytes) :
    ∃ q, rleLoop bpp s (rleBytes bpp runs ++ rest) p = rleLoop bpp s rest q ∧
      q.1 = min (p.1 + (expandRuns runs).length) s := by
  induction runs generalizing p with
  | nil => exact ⟨p, rfl, (Nat.min_eq_left hp.1).symm⟩
  | cons r runs ih =>
      obtain ⟨hfits, hpos⟩ := hruns r (by simp)
      by_cases hlt : p.1 < s
      · obtain ⟨hin, hcount⟩ := fillRun_within hp r.1 r.2
        obtain ⟨q, hrest, hq⟩ := ih hin fun r hr => hruns r (by simp [hr])
        refine ⟨q, ?_, ?_⟩
        · rw [rleBytes, List.flatMap_cons, List.append_assoc, List.append_assoc,
            rleLoop_round hlt (readColor_colorBytes hfits _) (readRun_runBytes hpos _)]
          exact hrest
        · rw [hq, hcount, expandRuns_cons, List.length_append, List.length_replicate]
          omega
      · refine ⟨p, ?_, by have := hp.1; omega⟩
        rw [rleLoop_full (by omega), rleLoop_full (by omega)]

/-- The number of pixels set by whole runs that fill the tile, or that are all of the data. -/
theorem rleLoop_init {runs : List (BitVec 16 × Nat)} (rest : Bytes)
    (hruns : ∀ r ∈ runs, bpp.Fits r.1 ∧ 0 < r.2)
    (hend : s ≤ (expandRuns runs).length ∨ rest = []) :
    ∃ q, rleLoop bpp s (rleBytes bpp runs ++ rest) (0, List.replicate s 0) = .ok q ∧
      q.1 = min (expandRuns runs).length s := by
  obtain ⟨q, hloop, hq⟩ := rleLoop_prefix (withinTile_init s) hruns rest
  rw [Nat.zero_add] at hq
  refine ⟨q, ?_, hq⟩
  rw [hloop]
  rcases hend with hfull | rfl
  · exact rleLoop_full (by omega) rest
  · exact rleLoop_nil s q

/-- The loop ends behind whole runs: those that fill the tile, or all of the data. -/
theorem rleLoop_sound (hp : WithinTile s p) (h : rleLoop bpp s data p = .ok q) :
    ∃ runs rest, (∀ r ∈ runs, bpp.Fits r.1 ∧ 0 < r.2) ∧ data = rleBytes bpp runs ++ rest ∧
      q.1 = min (p.1 + (expandRuns runs).length) s ∧ (q.1 < s → rest = []) := by
  fun_induction rleLoop bpp s data p with
  | case1 data p hgo e he => cases h
  | case2 data p hgo v rest hcolour e he => cases h
  | case3 data p hgo v rest hcolour run rest' hrun ih =>
      obtain ⟨hin, hcount⟩ := fillRun_within hp v run
      obtain ⟨runs, tail, hvalid, rfl, hq, htail⟩ := ih hin h
      obtain ⟨hfits, rfl⟩ := readColor_sound hcolour
      obtain ⟨hpos, rfl⟩ := readRun_sound hrun
      refine ⟨(v, run) :: runs, tail, ?_, by simp [rleBytes], ?_, htail⟩
      · intro r hr
        rcases List.mem_cons.mp hr with rfl | hr
        · exact ⟨hfits, hpos⟩
        · exact hvalid r hr
      · rw [hq, hcount, expandRuns_cons, List.length_append, List.length_replicate]
        omega
  | case4 data p hstop =>
      cases h
      refine ⟨[], data, List.forall_mem_nil _, rfl, (Nat.min_eq_left hp.1).symm, ?_⟩
      intro hlt
      by_contra hne
      exact hstop ⟨hlt, hne⟩

theorem paletteLoop_full (h : s ≤ p.1) (data : Bytes) : paletteLoop pal s data p = .ok p := by
  cases data with
  | nil => rw [paletteLoop]
  | cons idx rest => rw [paletteLoop, if_neg (by omega)]

theorem paletteLoop_prefix {runs : List PaletteRun} (hp : WithinTile s p)
    (hpal : pal.length ≤ 127) (hruns : ∀ r ∈ runs, r.Valid pal.length) (rest : Bytes) :
    ∃ q, paletteLoop pal s (runs.flatMap PaletteRun.bytes ++ rest) p = paletteLoop pal s rest q ∧
      q.1 = min (p.1 + (expandPalette pal runs).length) s := by
  induction runs generalizing p with
  | nil => exact ⟨p, rfl, (Nat.min_eq_left hp.1).symm⟩
  | cons r runs ih =>
      have hr := hruns r (by simp)
      by_cases hlt : p.1 < s
      · obtain ⟨idx, tail, hbytes, hmod, hrun⟩ :=
          hr.read hpal (runs.flatMap PaletteRun.bytes ++ rest)
        have hcolour : rdSlice (Stop.panic .palette) pal (idx.toNat % 128) =
            .ok (pal.get ⟨r.index, hr.index_lt⟩) := by
          rw [hmod, rdSlice_ok hr.index_lt]
          rfl
        obtain ⟨hin, hcount⟩ := fillRun_within hp (pal.get ⟨r.index, hr.index_lt⟩) r.run
        obtain ⟨q, hrest, hq⟩ := ih hin fun r hr => hruns r (by simp [hr])
        refine ⟨q, ?_, ?_⟩
        · rw [List.flatMap_cons, List.append_assoc, hbytes, paletteLoop_round hlt hcolour hrun]
          exact hrest
        · rw [hq, hcount, expandPalette_cons, List.length_append, List.length_replicate]
          omega
      · refine ⟨p, ?_, by have := hp.1; omega⟩
        rw [paletteLoop_full (by omega), paletteLoop_full (by omega)]

theorem paletteLoop_init {runs : List PaletteRun} (rest : Bytes) (hpal : pal.length ≤ 127)
    (hruns : ∀ r ∈ runs, r.Valid pal.length)
    (hend : s ≤ (expandPalette pal runs).length ∨ rest = []) :
    ∃ q, paletteLoop pal s (runs.flatMap PaletteRun.bytes ++ rest) (0, List.replicate s 0) = .ok q ∧
      q.1 = min (expandPalette pal runs).length s := by
  obtain ⟨q, hloop, hq⟩ := paletteLoop_prefix (withinTile_init s) hpal hruns rest
  rw [Nat.zero_add] at hq
  refine ⟨q, ?_, hq⟩
  rw [hloop]
  rcases hend with hfull | rfl
  · exact paletteLoop_full (by omega) rest
  · rw [paletteLoop]

theorem paletteLoop_sound (hp : WithinTile s p) (h : paletteLoop pal s data p = .ok q) :
    ∃ (runs : List PaletteRun) (rest : Bytes), (∀ r ∈ runs, r.Valid pal.length) ∧
      data = runs.flatMap PaletteRun.bytes ++ rest ∧
      q.1 = min (p.1 + (expandPalette pal runs).length) s ∧ (q.1 < s → rest = []) := by
  fun_induction paletteLoop pal s data p with
  | case1 p =>
      cases h
      exact ⟨[], [], List.forall_mem_nil _, rfl, (Nat.min_eq_left hp.1).symm, fun _ => rfl⟩
  | case2 p idx rest hlt e he => cases h
  | case3 p idx rest hlt v hv e he => cases h
  | case4 p idx rest hlt v hv run rest' hrun ih =>
      have hidx : idx.toNat % 128 < pal.length := by
        by_contra hge
        rw [rdSlice_error (by omega)] at hv
        cases hv
      obtain ⟨hin, hcount⟩ := fillRun_within hp v run
      obtain ⟨runs, tail, hvalid, rfl, hq, htail⟩ := ih hin h
      obtain ⟨r, hr, -, rfl, hbytes⟩ := readIndexRun_sound hidx hrun
      refine ⟨r :: runs, tail, ?_, by rw [hbytes, List.flatMap_cons, List.append_assoc], ?_, htail⟩
      · intro r' hr'
        rcases List.mem_cons.mp hr' with rfl | hr'
        · exact hr
        · exact hvalid r' hr'
      · rw [hq, hcount, expandPalette_cons, List.length_append, List.length_replicate]
        omega
  | case5 p idx rest hlt =>
      cases h
      exact ⟨[], idx :: rest, List.forall_mem_nil _, rfl, (Nat.min_eq_left hp.1).symm,
        fun h => (hlt h).elim⟩

/-! ### Complete and cut payloads -/

/-- The data begins with the colours `vs`. -/
def Colours (bpp : Depth) (vs : List (BitVec 16)) (data rest : Bytes) : Prop :=
  (∀ v ∈ vs, bpp.Fits v) ∧ data = vs.flatMap (colorBytes bpp) ++ rest

theorem Colours.read (h : Colours bpp vs data rest) :
    readColors bpp vs.length data = .ok (vs, rest) := by
  obtain ⟨hfits, rfl⟩ := h
  exact readColors_colorBytes hfits rest

/-- The payload holds a colour for each of the `s` pixels of a tile; what follows is not used. -/
inductive Supplies (bpp : Depth) (s : Nat) (sub : BitVec 8) (data : Bytes) : Prop
  | raw (vs : List (BitVec 16)) (rest : Bytes) (hsub : sub.toNat = 0)
      (colours : Colours bpp vs data rest) (complete : vs.length = s)
  | solid (v : BitVec 16) (rest : Bytes) (hsub : sub.toNat = 1)
      (colours : Colours bpp [v] data rest)
  | packed (pal : List (BitVec 16)) (rest : Bytes) (hsub : sub.toNat = pal.length)
      (two_le : 2 ≤ pal.length) (le : pal.length ≤ 16) (colours : Colours bpp pal data rest)
      (complete : s ≤ (rest.flatMap (packedIndices (indexBits pal.length))).length)
  | rle (runs : List (BitVec 16 × Nat)) (rest : Bytes) (hsub : sub.toNat = 128)
      (valid : ∀ r ∈ runs, bpp.Fits r.1 ∧ 0 < r.2) (hdata : data = rleBytes bpp runs ++ rest)
      (complete : s ≤ (expandRuns runs).length)
  | paletteRle (pal : List (BitVec 16)) (runs : List PaletteRun) (rest : Bytes)
      (hsub : sub.toNat = pal.length + 128) (two_le : 2 ≤ pal.length)
      (colours : Colours bpp pal data (runs.flatMap PaletteRun.bytes ++ rest))
      (valid : ∀ r ∈ runs, r.Valid pal.length)
      (complete : s ≤ (expandPalette pal runs).length)

/-- The payload ends behind whole indices or runs, before the `s` pixels of a tile are complete. -/
inductive Cut (bpp : Depth) (s : Nat) (sub : BitVec 8) (data : Bytes) : Prop
  | packed (pal : List (BitVec 16)) (rest : Bytes) (hsub : sub.toNat = pal.length)
      (two_le : 2 ≤ pal.length) (le : pal.length ≤ 16) (colours : Colours bpp pal data rest)
      (short : (rest.flatMap (packedIndices (indexBits pal.length))).length < s)
  | rle (runs : List (BitVec 16 × Nat)) (hsub : sub.toNat = 128)
      (valid : ∀ r ∈ runs, bpp.Fits r.1 ∧ 0 < r.2) (hdata : data = rleBytes bpp runs)
      (short : (expandRuns runs).length < s)
  | paletteRle (pal : List (BitVec 16)) (runs : List PaletteRun)
      (hsub : sub.toNat = pal.length + 128) (two_le : 2 ≤ pal.length)
      (colours : Colours bpp pal data (runs.flatMap PaletteRun.bytes))
      (valid : ∀ r ∈ runs, r.Valid pal.length)
      (short : (expandPalette pal runs).length < s)

variable {sub : BitVec 8}

theorem decodeTile_rle (data : Bytes) :
    decodeTile bpp s 128 data = (do
      let p ← rleLoop bpp s data (progress s [])
      pure p.2 : Except Stop (List (BitVec 16))) := by
  unfold decodeTile
  rw [if_neg (by decide), if_neg (by decide), if_neg (by decide), if_pos rfl]
  rfl

theorem Colours.unique {vs' : List (BitVec 16)} {rest' : Bytes} (h : Colours bpp vs data rest)
    (h' : Colours bpp vs' data rest') (hlen : vs.length = vs'.length) :
    vs = vs' ∧ rest = rest' := by
  have hread := h.read
  rw [hlen, h'.read] at hread
  cases hread
  exact ⟨rfl, rfl⟩

/-- No payload both holds a whole tile and ends before it. -/
theorem Supplies.not_cut (h : Supplies bpp s sub data) : ¬ Cut bpp s sub data := by
  intro hcut
  cases hcut with
  | packed pal rest hsub two_le le colours short =>
      cases h with
      | packed pal' rest' hsub' _ _ colours' complete =>
          obtain ⟨rfl, rfl⟩ := colours.unique colours' (by omega)
          omega
      | _ => omega
  | rle runs hsub valid hdata short =>
      cases h with
      | rle runs' rest' _ valid' hdata' complete =>
          obtain ⟨q, hloop, hq⟩ := rleLoop_init (s := s) [] valid (.inr rfl)
          obtain ⟨q', hloop', hq'⟩ := rleLoop_init rest' valid' (.inl complete)
          rw [List.append_nil, ← hdata, hdata', hloop'] at hloop
          cases hloop
          omega
      | _ => omega
  | paletteRle pal runs hsub two_le colours valid short =>
      cases h with
      | paletteRle pal' runs' rest' hsub' _ colours' valid' complete =>
          have hle := sub.isLt
          obtain ⟨rfl, hbytes⟩ := colours.unique colours' (by omega)
          obtain ⟨q, hloop, hq⟩ := paletteLoop_init (s := s) [] (by omega) valid (.inr rfl)
          obtain ⟨q', hloop', hq'⟩ :=
            paletteLoop_init rest' (by omega) valid' (.inl complete)
          rw [List.append_nil, hbytes, hloop'] at hloop
          cases hloop
          omega
      | _ => omega

/-- The number of pixels a packed payload sets. -/
theorem packedLoop_init {br : Nat}
    (hidx : ∀ i ∈ (rest.flatMap (packedIndices br)).take s, i < pal.length) :
    ∃ q, packedLoop pal s br rest (progress s []) = .ok q := by
  rw [packedLoop_spec rest (Nat.zero_le s)]
  simp only [List.length_nil, Nat.sub_zero]
  rw [lookups_ok hidx]
  exact ⟨_, rfl⟩

theorem eq_ofNat_of_toNat {n : Nat} (h : sub.toNat = n) : sub = BitVec.ofNat 8 n := by
  rw [← h, BitVec.ofNat_toNat, BitVec.setWidth_eq]

/-- A payload that is cut is decoded all the same. -/
theorem decodeTile_cut (h : Cut bpp s sub data) (hrange : IndicesInRange bpp s sub data) :
    ∃ tile, decodeTile bpp s sub data = .ok tile := by
  cases h with
  | packed pal rest hsub two_le le colours short =>
      have hread := colours.read
      obtain ⟨q, hq⟩ := packedLoop_init (hrange.packed (by omega) pal rest (hsub ▸ hread))
      rw [hsub] at hq
      rw [eq_ofNat_of_toNat hsub, decodeTile_packed two_le le, hread]
      change ∃ tile, (packedLoop _ _ _ _ _ >>= _) = _
      rw [hq]
      exact ⟨_, rfl⟩
  | rle runs hsub valid hdata short =>
      obtain ⟨q, hloop, -⟩ := rleLoop_init (s := s) [] valid (.inr rfl)
      rw [List.append_nil, ← hdata] at hloop
      obtain rfl : sub = 128 := eq_ofNat_of_toNat hsub
      rw [decodeTile_rle, progress_nil, hloop]
      exact ⟨_, rfl⟩
  | paletteRle pal runs hsub two_le colours valid short =>
      have hle := sub.isLt
      obtain ⟨q, hloop, -⟩ := paletteLoop_init (s := s) [] (by omega) valid (.inr rfl)
      rw [List.append_nil] at hloop
      rw [eq_ofNat_of_toNat hsub, decodeTile_paletteRle two_le (by omega), colours.read]
      change ∃ tile, (paletteLoop _ _ _ _ >>= _) = _
      rw [progress_nil, hloop]
      exact ⟨_, rfl⟩

theorem rawLoop_sound {n : Nat} (h : rawLoop bpp n data p = .ok q) :
    ∃ vs rest, readColors bpp n data = .ok (vs, rest) := by
  induction n generalizing data p with
  | zero => exact ⟨[], data, rfl⟩
  | succ n ih =>
      rw [show p = (p.1, p.2) from rfl, rawLoop] at h
      obtain ⟨⟨v, data₁⟩, hcolour, h⟩ := exists_of_bind_ok h
      obtain ⟨vs, rest, hcolours⟩ := ih h
      refine ⟨v :: vs, rest, ?_⟩
      rw [readColors, hcolour]
      change (readColors bpp n data₁ >>= _) = _
      rw [hcolours]
      rfl

/-- A payload that is decoded holds the whole tile or is cut. -/
theorem supplies_or_cut {tile : List (BitVec 16)} (h : decodeTile bpp s sub data = .ok tile) :
    Supplies bpp s sub data ∨ Cut bpp s sub data := by
  unfold decodeTile at h
  dsimp only at h
  split_ifs at h with h0 h1 hpacked h128 hruns
  · obtain ⟨q, hloop, -⟩ := exists_of_bind_ok h
    obtain ⟨vs, rest, hread⟩ := rawLoop_sound hloop
    obtain ⟨hlen, hcolours⟩ := readColors_sound hread
    exact .inl (.raw vs rest (congrArg BitVec.toNat h0) hcolours hlen)
  · obtain ⟨⟨v, rest⟩, hread, -⟩ := exists_of_bind_ok h
    obtain ⟨hfits, hdata⟩ := readColor_sound hread
    refine .inl (.solid v rest (congrArg BitVec.toNat h1) ⟨?_, by simpa using hdata⟩)
    simpa using hfits
  · obtain ⟨⟨pal, rest⟩, hread, -⟩ := exists_of_bind_ok h
    obtain ⟨hlen, hcolours⟩ := readColors_sound hread
    by_cases hfull : s ≤ (rest.flatMap (packedIndices (indexBits pal.length))).length
    · exact .inl (.packed pal rest hlen.symm (by omega) (by omega) hcolours hfull)
    · exact .inr (.packed pal rest hlen.symm (by omega) (by omega) hcolours (by omega))
  · obtain ⟨q, hloop, -⟩ := exists_of_bind_ok h
    obtain ⟨runs, rest, hvalid, hdata, hq, hrest⟩ := rleLoop_sound (withinTile_init s) hloop
    by_cases hfull : s ≤ (expandRuns runs).length
    · exact .inl (.rle runs rest (congrArg BitVec.toNat h128) hvalid hdata hfull)
    · simp only [Nat.zero_add] at hq
      rw [hrest (by omega), List.append_nil] at hdata
      exact .inr (.rle runs (congrArg BitVec.toNat h128) hvalid hdata (by omega))
  · have hlt := sub.isLt
    generalize hn : sub.toNat - 128 = n at h
    obtain ⟨⟨pal, rest⟩, hread, h⟩ := exists_of_bind_ok h
    obtain ⟨q, hloop, -⟩ := exists_of_bind_ok h
    obtain ⟨hlen, hcolours⟩ := readColors_sound hread
    obtain ⟨runs, tail, hvalid, rfl, hq, htail⟩ := paletteLoop_sound (withinTile_init s) hloop
    by_cases hfull : s ≤ (expandPalette pal runs).length
    · exact .inl (.paletteRle pal runs tail (by omega) (by omega) hcolours hvalid hfull)
    · simp only [Nat.zero_add] at hq
      rw [htail (by omega), List.append_nil] at hcolours
      exact .inr (.paletteRle pal runs (by omega) (by omega) hcolours hvalid (by omega))

/-! ### The framebuffer of a call that stops -/

/-- An access that fails leaves the framebuffer as it is at that moment. -/
def keeping {α : Type} (fb : Bytes) (x : Except Stop α) : Except (Stop × Bytes) α :=
  x.mapError fun e => (e, fb)

theorem mapError_keeping {α : Type} (fb : Bytes) (x : Except Stop α) :
    (keeping fb x).mapError Prod.fst = x := by
  cases x <;> rfl

def putPixelInPlace (fb : Bytes) (off : Nat) (pixel : Bytes) : Except (Stop × Bytes) Bytes :=
  forUp (fun k fb => keeping fb (wrSlice (.panic .framebuffer) fb (off + k) (pixel[k]?.getD 0)))
    0 4 fb

namespace RfbClient

/-- `blitPixel` with the framebuffer it leaves behind. -/
def blitPixelInPlace (c : RfbClient) (x y : Int) (tw : Nat) (tile : List (BitVec 16))
    (row col : Nat) (fb : Bytes) : Except (Stop × Bytes) Bytes :=
  match clip (y + row) c.h, clip (x + col) c.w with
  | some dy, some dx => do
      let v ← keeping fb (rdSlice (.panic .tile) tile (row * tw + col))
      putPixelInPlace fb ((dy * c.w + dx) * 4) (rgbx c.bpp v)
  | _, _ => .ok fb

/-- `decodeLRE` with the framebuffer it leaves behind when it stops. -/
def decodeLREInPlace (c : RfbClient) (data : Bytes) (x y : Int) (tw th : Nat) :
    Except (Stop × Option Bytes) RfbClient :=
  match data with
  | [] => .error (.returned .emptyLRE, c.fb)
  | sub :: data =>
      match decodeTile c.bpp (tw * th) sub data with
      | .error e => .error (e, c.fb)
      | .ok tile =>
          match c.fb with
          | none => .ok c
          | some fb =>
              match forRect (c.blitPixelInPlace x y tw tile) th tw fb with
              | .error (e, fb) => .error (e, some fb)
              | .ok fb => .ok { c with fb := some fb }

variable {c : RfbClient} {x y : Int} {tw th : Nat} {tile : List (BitVec 16)} {fb : Bytes}

theorem mapError_blitPixelInPlace (row col : Nat) (fb : Bytes) :
    (c.blitPixelInPlace x y tw tile row col fb).mapError Prod.fst =
      c.blitPixel x y tw tile row col fb := by
  unfold blitPixelInPlace blitPixel
  cases clip (y + row) c.h with
  | none => rfl
  | some dy =>
      cases clip (x + col) c.w with
      | none => rfl
      | some dx =>
          have hput : ∀ off pixel, (putPixelInPlace fb off pixel).mapError Prod.fst =
              putPixel fb off pixel :=
            fun off pixel => mapError_forUp (fun k fb => mapError_keeping fb _) 0 4 fb
          dsimp only
          cases rdSlice (Stop.panic .tile) tile (row * tw + col) with
          | error e => rfl
          | ok v => exact hput _ _

/-- Apart from the framebuffer that is left behind the two are the same. -/
theorem mapError_decodeLREInPlace (c : RfbClient) (data : Bytes) (x y : Int) (tw th : Nat) :
    (c.decodeLREInPlace data x y tw th).mapError Prod.fst = c.decodeLRE data x y tw th := by
  cases data with
  | nil => rfl
  | cons sub data =>
      unfold decodeLREInPlace decodeLRE
      dsimp only
      cases decodeTile c.bpp (tw * th) sub data with
      | error e => rfl
      | ok tile =>
          cases hfb : c.fb with
          | none => rfl
          | some fb =>
              have hblit : (forRect (c.blitPixelInPlace x y tw tile) th tw fb).mapError Prod.fst =
                  forRect (c.blitPixel x y tw tile) th tw fb :=
                mapError_forUp (fun row fb =>
                  mapError_forUp (fun col fb => mapError_blitPixelInPlace row col fb) 0 tw fb)
                  0 th fb
              change _ = (forRect (c.blitPixel x y tw tile) th tw fb >>= _)
              rw [← hblit]
              dsimp only
              cases forRect (c.blitPixelInPlace x y tw tile) th tw fb with
              | error e => rfl
              | ok fb' => rfl

/-- A call either returns after the payload has supplied a colour for each pixel, or it
returns an error and leaves the framebuffer as it was. -/
def AllOrNothing (c : RfbClient) (payload : Bytes) (x y : Int) (tw th : Nat) : Prop :=
  (∃ c' sub data, c.decodeLREInPlace payload x y tw th = .ok c' ∧ payload = sub :: data ∧
    Supplies c.bpp (tw * th) sub data) ∨
  ∃ e, c.decodeLREInPlace payload x y tw th = .error (.returned e, c.fb)

/-- A tile that is decoded is drawn. -/
theorem decodeLREInPlace_ok {sub : BitVec 8} {data : Bytes} (hc : c.Fits)
    (htile : decodeTile c.bpp (tw * th) sub data = .ok tile) (hlen : tile.length = tw * th) :
    ∃ c', c.decodeLREInPlace (sub :: data) x y tw th = .ok c' := by
  have hok : ∃ c', c.decodeLRE (sub :: data) x y tw th = .ok c' := by
    unfold decodeLRE
    dsimp only
    rw [htile]
    cases hfb : c.fb with
    | none => exact ⟨c, rfl⟩
    | some fb =>
        obtain ⟨fb', hblit, -⟩ := blit_spec (x := x) (y := y) (hc fb hfb) hlen
        change ∃ c', (forRect _ th tw fb >>= _) = _
        rw [hblit]
        exact ⟨_, rfl⟩
  obtain ⟨c', hc'⟩ := hok
  rw [← mapError_decodeLREInPlace] at hc'
  exact ⟨c', of_mapError_ok hc'⟩

/-- What is left is to compare the payload with the tile. -/
theorem allOrNothing_cons_iff {sub : BitVec 8} {data : Bytes} (hc : c.Fits) :
    c.AllOrNothing (sub :: data) x y tw th ↔
      IndicesInRange c.bpp (tw * th) sub data ∧ ¬ Cut c.bpp (tw * th) sub data := by
  by_cases hrange : IndicesInRange c.bpp (tw * th) sub data
  · have hordinary := decodeTile_ordinary hrange
    cases htile : decodeTile c.bpp (tw * th) sub data with
    | ok tile =>
        rw [htile] at hordinary
        obtain ⟨c', hc'⟩ := decodeLREInPlace_ok (x := x) (y := y) hc htile hordinary
        constructor
        · rintro (⟨c'', sub', data', -, heq, hsupplies⟩ | ⟨e, he⟩)
          · cases heq
            exact ⟨hrange, hsupplies.not_cut⟩
          · rw [hc'] at he
            cases he
        · rintro ⟨-, hcut⟩
          exact .inl ⟨c', sub, data, hc', rfl, (supplies_or_cut htile).resolve_right hcut⟩
    | error stop =>
        rw [htile] at hordinary
        cases stop with
        | panic site => exact hordinary.elim
        | returned e =>
            have hstop : c.decodeLREInPlace (sub :: data) x y tw th =
                .error (.returned e, c.fb) := by
              unfold decodeLREInPlace
              dsimp only
              rw [htile]
            refine iff_of_true (.inr ⟨e, hstop⟩) ⟨hrange, ?_⟩
            intro hcut
            obtain ⟨tile, hok⟩ := decodeTile_cut hcut hrange
            rw [htile] at hok
            cases hok
  · refine iff_of_false ?_ fun h => hrange h.1
    have hpanics : (c.decodeLREInPlace (sub :: data) x y tw th).mapError Prod.fst =
        .error (.panic .palette) := by
      rw [mapError_decodeLREInPlace]
      exact decodeLRE_panics hrange
    rintro (⟨c', sub', data', hok, -⟩ | ⟨e, he⟩)
    · rw [hok] at hpanics
      cases hpanics
    · rw [he] at hpanics
      cases hpanics

/-- `decodeLRE` is all or nothing if and only if the payload names no index beyond its palette
and is not cut. -/
theorem decodeLRE_allOrNothing_iff (hc : c.Fits) (payload : Bytes) (x y : Int) (tw th : Nat) :
    c.AllOrNothing payload x y tw th ↔ ∀ sub data, payload = sub :: data →
      IndicesInRange c.bpp (tw * th) sub data ∧ ¬ Cut c.bpp (tw * th) sub data := by
  cases payload with
  | nil => exact iff_of_true (.inr ⟨.emptyLRE, rfl⟩) nofun
  | cons sub data =>
      rw [allOrNothing_cons_iff hc]
      constructor
      · rintro h _ _ ⟨⟩
        exact h
      · exact fun h => h sub data rfl

/-- A black screen of two pixels. -/
def twoPixels : RfbClient := ({} : RfbClient).resize 2 1

/-- A run of white pixels can be read. -/
theorem fits_white (n : Nat) (hn : 0 < n) :
    ∀ r ∈ [((0xffff : BitVec 16), n)], Depth.rgb565.Fits r.1 ∧ 0 < r.2 := by
  intro r hr
  obtain rfl := List.mem_singleton.mp hr
  exact ⟨nofun, hn⟩

/-- A run of two white pixels completes the tile. -/
theorem decodeLRE_allOrNothing_twoPixels :
    twoPixels.AllOrNothing [128, 0xff, 0xff, 1] 0 0 2 1 := by
  apply (decodeLRE_allOrNothing_iff (resize_fits _ 2 1) _ 0 0 2 1).mpr
  rintro sub data ⟨⟩
  have hsupplies : Supplies twoPixels.bpp (2 * 1) 128 [0xff, 0xff, 1] :=
    .rle [(0xffff, 2)] [] rfl (fits_white 2 (by decide)) rfl (by decide)
  refine ⟨⟨?_, ?_⟩, hsupplies.not_cut⟩
  · rintro ⟨-, hpacked⟩
    exact absurd hpacked (by decide)
  · intro hruns
    exact absurd hruns (by decide)

/-- A run of one white pixel for a tile of two is drawn, and no error is returned. -/
theorem decodeLRE_short_run : ¬ twoPixels.AllOrNothing [128, 0xff, 0xff, 0] 0 0 2 1 := by
  intro hall
  exact ((allOrNothing_cons_iff (resize_fits _ 2 1)).mp hall).2
    (.rle [(0xffff, 1)] rfl (fits_white 1 (by decide)) rfl (by decide))

end RfbClient

end Outband.Amt.Redir
