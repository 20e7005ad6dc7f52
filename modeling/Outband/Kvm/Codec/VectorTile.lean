import Outband.Kvm.Codec.BitStream
import Outband.Kvm.Codec.Placement

/-!
# Vector-quantized tiles

A vector-quantized tile is 64 cache colours, each named by an entry of an index
bitmap or all by the first slot. `vqPlanes` stores them as three planes of 64
samples, which is how a 4:4:4 tile is stored. A 4:2:0 tile has four luma blocks
in front of its chroma, so that a conversion in that mode takes the planes for
luma and the chroma from what the tile before has left there.
-/

namespace Outband.Kvm.Codec

open Foundation

namespace Decoder

variable {d d' s : Decoder} {h : FrameHeader} {F : Site → Prop} {tx ty : Nat}

/-! ### The bitmap -/

/-- The cache slot that entry `i` of the index bitmap names; without a bitmap it is the first. -/
def bitmapIndex (d : Decoder) (i : Nat) : Except Site Nat :=
  if d.vq.BitMapBits = 0 then pure 0
  else do
    let r ← forUp (fun _ r => r.skipKbits d.vq.BitMapBits) 0 i d.toReader
    let sel ← r.lookKbits d.vq.BitMapBits
    pure sel.toNat

/-- The cache colour that entry `i` of the index bitmap stands for. -/
def bitmapColor (d : Decoder) (i : Nat) : Except Site (Nat × Nat × Nat) := do
  let sel ← d.bitmapIndex i
  vqColor d.vq sel

theorem skipEntries (hr : d.toReader.Ready) {bits : Nat} (hb : bits ≤ 32) (i : Nat) :
    ∃ r, forUp (fun _ r => r.skipKbits bits) 0 i d.toReader = .ok r ∧ r.Ready := by
  have hloop : Meets (forUp (fun _ (r : Reader) => r.skipKbits bits) 0 i d.toReader)
      Reader.Ready fun _ => False := by
    apply meets_forUp (I := fun _ (r : Reader) => r.Ready) hr
    intro _ r _ _ hready
    obtain ⟨r', hskip, hadv⟩ := Reader.skipKbits_spec hready hb
    rw [hskip]
    exact hadv.ready
  exact hloop.exists_ok

/-- Every entry names one of the four slots. -/
theorem bitmapIndex_ok (hd : d.store.Valid) (hr : d.toReader.Ready) (i : Nat) :
    ∃ sel, d.bitmapIndex i = .ok sel ∧ sel < 4 := by
  have hbits : d.vq.BitMapBits ≤ 2 := hd.vqBits
  unfold bitmapIndex
  split_ifs with hzero
  · exact ⟨0, rfl, by decide⟩
  · obtain ⟨r, hskip, hready⟩ := skipEntries hr (show d.vq.BitMapBits ≤ 32 by omega) i
    obtain ⟨sel, hlook⟩ := Reader.lookKbits_ok hready d.vq.BitMapBits
    have hlt : sel.toNat < 4 := Nat.lt_of_lt_of_le (lookKbits_lt hlook (by omega))
      (Nat.pow_le_pow_right (by decide) hbits)
    rw [hskip]
    change ∃ v, (r.lookKbits d.vq.BitMapBits >>= _) = _ ∧ _
    rw [hlook]
    exact ⟨_, rfl, hlt⟩

/-- As long as the payload lasts, entry `i` is the `i`-th group of bits of the stream. -/
theorem bitmapIndex_eq_bitsAt {words : List (BitVec 32)} {k : Nat}
    (hat : d.toReader.At words k) (hbits : d.vq.BitMapBits ≠ 0) (hle : d.vq.BitMapBits ≤ 2)
    {i : Nat} (henough : 2 + (k + i * d.vq.BitMapBits) / 32 ≤ words.length) :
    d.bitmapIndex i =
      .ok (Reader.bitsAt words (k + i * d.vq.BitMapBits) d.vq.BitMapBits) := by
  have hloop : Meets (forUp (fun _ (r : Reader) => r.skipKbits d.vq.BitMapBits) 0 i d.toReader)
      (fun r => r.At words (k + (0 + i) * d.vq.BitMapBits)) fun _ => False := by
    apply meets_forUp (I := fun n r => Reader.At words (k + n * d.vq.BitMapBits) r)
    · simpa using hat
    · intro n r _ hn hr
      have hmul : (n + 1) * d.vq.BitMapBits ≤ i * d.vq.BitMapBits :=
        Nat.mul_le_mul_right _ (by omega)
      rw [Nat.succ_mul] at hmul
      obtain ⟨r', hskip, hr'⟩ := hr.skipKbits (show d.vq.BitMapBits ≤ 31 by omega) (by omega)
      rw [hskip, Nat.succ_mul, ← Nat.add_assoc]
      exact hr'
  obtain ⟨r, hskip, hr⟩ := hloop.exists_ok
  rw [Nat.zero_add] at hr
  have hlt := Reader.bitsAt_lt words (k + i * d.vq.BitMapBits) d.vq.BitMapBits
  have hpow : 2 ^ d.vq.BitMapBits ≤ 2 ^ 2 := Nat.pow_le_pow_right (by decide) hle
  rw [bitmapIndex, if_neg hbits, hskip]
  change (r.lookKbits d.vq.BitMapBits >>= _) = _
  rw [hr.lookKbits (by omega)]
  change Except.ok (BitVec.ofNat 16 _).toNat = _
  rw [BitVec.toNat_ofNat, Nat.mod_eq_of_lt (by omega)]

theorem bitmapColor_ok (hd : d.store.Valid) (hr : d.toReader.Ready) (i : Nat) :
    ∃ color, d.bitmapColor i = .ok color ∧ IsColor color := by
  obtain ⟨sel, hsel, hlt⟩ := bitmapIndex_ok hd hr i
  rw [bitmapColor, hsel]
  exact (meets_vqColor (F := fun _ => False) hd hlt).exists_ok

/-! ### The planes -/

/-- The Y, Cb and Cr of a colour, by the number of the plane. -/
def component (color : Nat × Nat × Nat) (plane : Nat) : Nat :=
  if plane = 0 then color.1 else if plane = 1 then color.2.1 else color.2.2

/-- A tile with the first `n` colours in its planes. -/
def planes (tile : Fin 768 → Nat) (color : Nat → Nat × Nat × Nat) (n : Nat) (j : Fin 768) : Nat :=
  if j.val < 192 ∧ j.val % 64 < n then component (color (j.val % 64)) (j.val / 64) else tile j

theorem planes_zero (tile : Fin 768 → Nat) (color : Nat → Nat × Nat × Nat) :
    planes tile color 0 = tile := by
  funext j
  exact if_neg fun h => Nat.not_lt_zero _ h.2

/-- The next colour fills one more cell of each plane. -/
theorem planes_storeColor {tile : Fin 768 → Nat} {color : Nat → Nat × Nat × Nat} {n : Nat}
    (hs : s.yuvTile = planes tile color n) (hn : n < 64) :
    (s.storeColor n (color n)).yuvTile = planes tile color (n + 1) := by
  funext j
  have h0 : (Fin.ofNat 768 n).val = n := Nat.mod_eq_of_lt (by omega)
  have h1 : (Fin.ofNat 768 (n + 64)).val = n + 64 := Nat.mod_eq_of_lt (by omega)
  have h2 : (Fin.ofNat 768 (n + 128)).val = n + 128 := Nat.mod_eq_of_lt (by omega)
  simp only [storeColor, Function.update_apply, Fin.ext_iff, h0, h1, h2, hs]
  unfold planes
  by_cases hcr : j.val = n + 128
  · rw [if_pos hcr, if_pos (by omega), show j.val % 64 = n by omega, show j.val / 64 = 2 by omega]
    rfl
  · rw [if_neg hcr]
    by_cases hcb : j.val = n + 64
    · rw [if_pos hcb, if_pos (by omega), show j.val % 64 = n by omega, show j.val / 64 = 1 by omega]
      rfl
    · rw [if_neg hcb]
      by_cases hy : j.val = n
      · rw [if_pos hy, if_pos (by omega), show j.val % 64 = n by omega,
          show j.val / 64 = 0 by omega]
        rfl
      · rw [if_neg hy]
        have hiff : j.val < 192 ∧ j.val % 64 < n + 1 ↔ j.val < 192 ∧ j.val % 64 < n := by omega
        simp only [hiff]

theorem bitmapColor_plain (hzero : d.vq.BitMapBits = 0) (i : Nat) :
    d.bitmapColor i = vqColor d.vq 0 := by
  rw [bitmapColor, bitmapIndex, if_pos hzero, pure_bind]

/-- An entry that is looked up where the entries before it end. -/
theorem bitmapColor_entry {r : Reader} {sel : BitVec 16} {i : Nat} (hbits : d.vq.BitMapBits ≠ 0)
    (hskipped : forUp (fun _ r => r.skipKbits d.vq.BitMapBits) 0 i d.toReader = .ok r)
    (hlook : r.lookKbits d.vq.BitMapBits = .ok sel) :
    d.bitmapColor i = vqColor d.vq sel.toNat := by
  have hindex : d.bitmapIndex i = .ok sel.toNat := by
    rw [bitmapIndex, if_neg hbits, hskipped]
    change (r.lookKbits d.vq.BitMapBits >>= _) = _
    rw [hlook]
    rfl
  rw [bitmapColor, hindex]
  rfl

variable {color : Nat → Nat × Nat × Nat}

/-- What is known of a tile while its planes are filled. -/
structure Filling (d : Decoder) (color : Nat → Nat × Nat × Nat) (n : Nat) (s : Decoder) :
    Prop where
  tile : s.yuvTile = planes d.yuvTile color n
  buffer : s.decodeBuf = d.decodeBuf
  cache : s.vq = d.vq

theorem Filling.start (d : Decoder) (color : Nat → Nat × Nat × Nat) : Filling d color 0 d :=
  ⟨(planes_zero _ _).symm, rfl, rfl⟩

theorem Filling.storeColor {n : Nat} (hs : Filling d color n s) (hn : n < 64) :
    Filling d color (n + 1) (s.storeColor n (color n)) :=
  ⟨planes_storeColor hs.tile hn, hs.buffer, hs.cache⟩

/-- The one-colour form fills all planes with the colour of the first slot. -/
theorem meets_plain (hcolor : ∀ i < 64, color i = color 0) :
    Meets (forUp (fun i d => pure (d.storeColor i (color 0))) 0 64 d)
      (Filling d color (0 + 64)) F := by
  apply meets_forUp (I := Filling d color) (.start d color)
  intro n s _ hn hs
  rw [← hcolor n (by omega)]
  exact hs.storeColor (by omega)

/-- One entry of an index bitmap. -/
theorem meets_vqPixel_eq {n : Nat} (hd : d.store.Valid) (hbits : d.vq.BitMapBits ≠ 0)
    (hn : n < 64) (hcolor : d.bitmapColor n = .ok (color n)) (hs : Filling d color n s)
    (hready : s.toReader.Ready)
    (hskipped : forUp (fun _ r => r.skipKbits d.vq.BitMapBits) 0 n d.toReader = .ok s.toReader) :
    Meets (vqPixel d.vq.BitMapBits n s) (fun s' => Filling d color (n + 1) s' ∧
      s'.toReader.Ready ∧
      forUp (fun _ r => r.skipKbits d.vq.BitMapBits) 0 (n + 1) d.toReader = .ok s'.toReader) F := by
  have hle : d.vq.BitMapBits ≤ 2 := hd.vqBits
  obtain ⟨sel, hlook⟩ := Reader.lookKbits_ok hready d.vq.BitMapBits
  obtain ⟨r, hskip, hadv⟩ := Reader.skipKbits_spec hready (show d.vq.BitMapBits ≤ 32 by omega)
  rw [bitmapColor_entry hbits hskipped hlook] at hcolor
  have hnext : forUp (fun _ r => r.skipKbits d.vq.BitMapBits) 0 (n + 1) d.toReader = .ok r := by
    rw [forUp_snoc hskipped, hskip]
  have hfilled := hs.storeColor hn
  rw [vqPixel, hlook]
  change Meets (vqColor s.vq sel.toNat >>= _) _ _
  rw [hs.cache, hcolor]
  change Meets (s.toReader.skipKbits d.vq.BitMapBits >>= _) _ _
  rw [hskip]
  exact ⟨⟨hfilled.tile, hfilled.buffer, hfilled.cache⟩, hadv.ready, hnext⟩

/-- The planes of a tile hold the colours of the bitmap, and nothing else of the tile changes. -/
theorem meets_vqPlanes_eq (hd : d.store.Valid) (hr : d.toReader.Ready)
    (hcolor : ∀ i < 64, d.bitmapColor i = .ok (color i)) :
    Meets d.vqPlanes (fun s => Step 0 d s ∧ Filling d color (0 + 64) s) F := by
  apply (meets_vqPlanes hd hr).and
  unfold vqPlanes
  split_ifs with hzero
  · have hfirst : vqColor d.vq 0 = .ok (color 0) :=
      (bitmapColor_plain hzero 0).symm.trans (hcolor 0 (by decide))
    have hvalue : Meets (vqColor d.vq 0) (fun c => c = color 0) F := by rw [hfirst]; rfl
    apply hvalue.bind
    rintro _ rfl
    apply meets_plain
    intro i hi
    exact Except.ok.inj
      ((hcolor i hi).symm.trans ((bitmapColor_plain hzero i).trans hfirst))
  · have hloop : Meets (forUp (vqPixel d.vq.BitMapBits) 0 64 d) (fun s =>
        Filling d color (0 + 64) s ∧ s.toReader.Ready ∧
        forUp (fun _ r => r.skipKbits d.vq.BitMapBits) 0 (0 + 64) d.toReader = .ok s.toReader)
        F := by
      apply meets_forUp (I := fun n (s : Decoder) => Filling d color n s ∧ s.toReader.Ready ∧
        forUp (fun _ r => r.skipKbits d.vq.BitMapBits) 0 n d.toReader = .ok s.toReader)
      · exact ⟨.start d color, hr, rfl⟩
      · intro n s _ hn ⟨hs, hready, hskipped⟩
        exact meets_vqPixel_eq hd hzero (by omega) (hcolor n (by omega)) hs hready hskipped
    exact hloop.imp fun s hs => hs.1

/-! ### The conversion -/

/-- The colours of the bitmap. -/
def bitmapColors (d : Decoder) (i : Nat) : Nat × Nat × Nat :=
  (d.bitmapColor i).toOption.getD (0, 0, 0)

theorem bitmapColors_eq (hd : d.store.Valid) (hr : d.toReader.Ready) (i : Nat) :
    d.bitmapColor i = .ok (d.bitmapColors i) := by
  obtain ⟨color, hcolor, -⟩ := bitmapColor_ok hd hr i
  rw [bitmapColors, hcolor]
  rfl

/-- A 4:4:4 conversion finds the planes where they are. -/
theorem sample_planes (hmode : d.mode420 = 0) (hs : s.yuvTile = planes d.yuvTile color 64)
    (hsmode : s.mode420 = d.mode420) {r c : Nat} (hr : r < 8) (hc : c < 8) :
    s.sample r c = color (r * 8 + c) := by
  have h0 : (Fin.ofNat 768 (r * 8 + c)).val = r * 8 + c := Nat.mod_eq_of_lt (by omega)
  have h1 : (Fin.ofNat 768 (64 + (r * 8 + c))).val = 64 + (r * 8 + c) :=
    Nat.mod_eq_of_lt (by omega)
  have h2 : (Fin.ofNat 768 (128 + (r * 8 + c))).val = 128 + (r * 8 + c) :=
    Nat.mod_eq_of_lt (by omega)
  rw [sample, if_pos (hsmode.trans hmode), hs]
  unfold planes
  rw [h0, h1, h2, if_pos (by omega), if_pos (by omega), if_pos (by omega),
    show (r * 8 + c) % 64 = r * 8 + c by omega, show (64 + (r * 8 + c)) % 64 = r * 8 + c by omega,
    show (128 + (r * 8 + c)) % 64 = r * 8 + c by omega, show (r * 8 + c) / 64 = 0 by omega,
    show (64 + (r * 8 + c)) / 64 = 1 by omega, show (128 + (r * 8 + c)) / 64 = 2 by omega]
  rfl

/-- Sample `entry` of a luma block: the Y, Cb or Cr of an entry in the first three blocks,
and what the tile before has left in the fourth. -/
def lumaBlock (tile : Fin 768 → Nat) (color : Nat → Nat × Nat × Nat) (block entry : Nat) : Nat :=
  match block with
  | 0 => (color entry).1
  | 1 => (color entry).2.1
  | 2 => (color entry).2.2
  | _ => tile (Fin.ofNat 768 (192 + entry))

/-- What a 4:2:0 conversion finds at row `r` and column `c`; both chroma blocks are left over. -/
def misread (d : Decoder) (r c : Nat) : Nat × Nat × Nat :=
  (lumaBlock d.yuvTile d.bitmapColors (r / 8 * 2 + c / 8) (r % 8 * 8 + c % 8),
    d.yuvTile (Fin.ofNat 768 (256 + (r / 2 * 8 + c / 2))),
    d.yuvTile (Fin.ofNat 768 (320 + (r / 2 * 8 + c / 2))))

theorem planes_block (tile : Fin 768 → Nat) (color : Nat → Nat × Nat × Nat) {block entry : Nat}
    (hblock : block < 4) (hentry : entry < 64) :
    planes tile color 64 (Fin.ofNat 768 (block * 64 + entry)) =
      lumaBlock tile color block entry := by
  have hval : (Fin.ofNat 768 (block * 64 + entry)).val = block * 64 + entry :=
    Nat.mod_eq_of_lt (by omega)
  rw [planes, hval, show (block * 64 + entry) % 64 = entry by omega,
    show (block * 64 + entry) / 64 = block by omega]
  match block, hblock with
  | 0, _ => exact if_pos (by omega)
  | 1, _ => exact if_pos (by omega)
  | 2, _ => exact if_pos (by omega)
  | 3, _ => exact if_neg (by omega)

/-- The chroma blocks are not filled. -/
theorem planes_behind (tile : Fin 768 → Nat) (color : Nat → Nat × Nat × Nat) {q : Nat}
    (hlow : 192 ≤ q) (hhigh : q < 768) :
    planes tile color 64 (Fin.ofNat 768 q) = tile (Fin.ofNat 768 q) := by
  have hval : (Fin.ofNat 768 q).val = q := Nat.mod_eq_of_lt hhigh
  rw [planes, hval, if_neg (by omega)]

theorem sample_misread (hmode : d.mode420 ≠ 0)
    (hs : s.yuvTile = planes d.yuvTile d.bitmapColors 64) (hsmode : s.mode420 = d.mode420)
    {r c : Nat} (hr : r < 16) (hc : c < 16) : s.sample r c = d.misread r c := by
  rw [sample, if_neg (fun h => hmode (hsmode.symm.trans h)), hs,
    planes_block _ _ (by omega) (by omega), planes_behind _ _ (by omega) (by omega),
    planes_behind _ _ (by omega) (by omega)]
  rfl

/-! ### Cache colours on the screen -/

/-- The sample is the last one of its pixel, and the pixel is on the screen. -/
def Shown (d : Decoder) (tx ty r c : Nat) : Prop :=
  d.Drawn tx ty r c ∧
    ∀ r' c', d.Drawn tx ty r' c' → Later r c r' c' → d.target tx ty r' c' ≠ d.target tx ty r c

/-- Every pixel of the tile shows the cache colour of its entry of the bitmap. -/
def ShowsCache (d : Decoder) (tx ty : Nat) (entry : Nat → Nat → Nat) : Prop :=
  ∃ d' f, d.decompressVQ tx ty = .ok d' ∧ d'.toFrame = .ok f ∧
    ∀ r c, d.Shown tx ty r c → ∃ index color, d.bitmapIndex (entry r c) = .ok index ∧
      vqColor d.vq index = .ok color ∧
      f.pixel (d.target tx ty r c) = (rgbOf color).rgbx

theorem rgbx_injective {x y : Rgb} (heq : x.rgbx = y.rgbx) : x = y := by
  have hred := congrFun heq 0
  have hgreen := congrFun heq 1
  have hblue := congrFun heq 2
  cases x
  cases y
  simp_all [Rgb.rgbx]

/-- What the pixels of a tile show, and the tile they have been converted from. -/
theorem decompressVQ_samples (hd : Laid h d) (hr : d.toReader.Ready) (hgrid : d.InGrid tx ty)
    (hmode : h.mode420 ≤ 1) :
    ∃ (s d' : Decoder) (f : Frame), d.decompressVQ tx ty = .ok d' ∧ d'.toFrame = .ok f ∧
      s.mode420 = d.mode420 ∧ s.yuvTile = planes d.yuvTile d.bitmapColors 64 ∧
      ∀ r c, d.Shown tx ty r c → f.pixel (d.target tx ty r c) = (s.sampleColor r c).rgbx := by
  obtain ⟨s, hplanes, hstep, hfilled⟩ := (meets_vqPlanes_eq (F := fun _ => False) hd.valid hr
    fun i _ => bitmapColors_eq hd.valid hr i).exists_ok
  have hsmode : s.mode420 = d.mode420 := congrArg Geometry.mode420 hstep.geometry
  obtain ⟨hdrawn, htarget⟩ := drawn_of_geometry hstep.geometry tx ty
  have hsgrid : s.InGrid tx ty := by
    have hwidth : s.tmpWidthBy16 = d.tmpWidthBy16 := congrArg Geometry.tmpWidthBy16 hstep.geometry
    have hheight : s.tmpHeightBy16 = d.tmpHeightBy16 :=
      congrArg Geometry.tmpHeightBy16 hstep.geometry
    rw [InGrid, tileSize, hwidth, hheight, hsmode]
    exact hgrid
  obtain ⟨d', f, f', hconvert, -, hf', -, hover⟩ := convert_overlaid (hd.step hstep) hsgrid hmode
  refine ⟨s, d', f', ?_, hf', hsmode, hfilled.tile, ?_⟩
  · rw [decompressVQ, hplanes]
    exact hconvert
  · rw [hdrawn, htarget] at hover
    exact fun r c hshown => hover.inside r c hshown.1 hshown.2

theorem Shown.bounds {r c : Nat} (h : d.Shown tx ty r c) : r < d.tileSize ∧ c < d.tileSize := by
  obtain ⟨⟨hr, hc, -⟩, -⟩ := h
  refine ⟨Nat.lt_of_lt_of_le hr ?_, hc⟩
  unfold tileRows tileSize rows420
  split_ifs <;> decide

/-- The cache colours are shown when the samples a conversion finds are converted alike. -/
theorem showsCache_iff_samples (hd : Laid h d) (hr : d.toReader.Ready) (hgrid : d.InGrid tx ty)
    (hmode : h.mode420 ≤ 1) (entry : Nat → Nat → Nat) :
    d.ShowsCache tx ty entry ↔ ∀ r c, d.Shown tx ty r c →
      (if d.mode420 = 0 then rgbOf (d.bitmapColors (r * 8 + c)) else rgbOf (d.misread r c)) =
        rgbOf (d.bitmapColors (entry r c)) := by
  obtain ⟨s, d', f, hrun, hf, hsmode, htile, hshows⟩ := decompressVQ_samples hd hr hgrid hmode
  have hsample : ∀ r c, d.Shown tx ty r c → s.sampleColor r c =
      if d.mode420 = 0 then rgbOf (d.bitmapColors (r * 8 + c)) else rgbOf (d.misread r c) := by
    intro r c hshown
    obtain ⟨hrow, hcol⟩ := hshown.bounds
    unfold tileSize at hrow hcol
    unfold sampleColor
    split_ifs with hmode0
    · rw [if_pos hmode0] at hrow hcol
      rw [sample_planes hmode0 htile hsmode hrow hcol]
    · rw [if_neg hmode0] at hrow hcol
      rw [sample_misread hmode0 htile hsmode hrow hcol]
  constructor
  · rintro ⟨d'', f', hrun', hf', hall⟩ r c hshown
    obtain rfl : d' = d'' := Except.ok.inj (hrun.symm.trans hrun')
    obtain rfl : f = f' := Except.ok.inj (hf.symm.trans hf')
    obtain ⟨index, color, hindex, hcolor, hpixel⟩ := hall r c hshown
    have hentry : d.bitmapColor (entry r c) = .ok color := by
      rw [bitmapColor, hindex]
      exact hcolor
    rw [bitmapColors_eq hd.valid hr] at hentry
    rw [← hsample r c hshown, Except.ok.inj hentry]
    exact rgbx_injective ((hshows r c hshown).symm.trans hpixel)
  · intro hall
    refine ⟨d', f, hrun, hf, ?_⟩
    intro r c hshown
    obtain ⟨index, hindex, -⟩ := bitmapIndex_ok hd.valid hr (entry r c)
    have hcolor := bitmapColors_eq hd.valid hr (entry r c)
    rw [bitmapColor, hindex] at hcolor
    refine ⟨index, _, hindex, hcolor, ?_⟩
    rw [hshows r c hshown, hsample r c hshown, hall r c hshown]

/-- A vector-quantized tile shows the cache colours if and only if the frame is 4:4:4, or what
the 4:2:0 conversion finds in place of each colour happens to be converted alike. -/
theorem decompressVQ_shows_iff (hd : Laid h d) (hr : d.toReader.Ready) (hgrid : d.InGrid tx ty)
    (hmode : h.mode420 ≤ 1) (entry : Nat → Nat → Nat)
    (hentry : d.mode420 = 0 → ∀ r c, entry r c = r * 8 + c) :
    d.ShowsCache tx ty entry ↔ d.mode420 = 0 ∨ ∀ r c, d.Shown tx ty r c →
      rgbOf (d.misread r c) = rgbOf (d.bitmapColors (entry r c)) := by
  rw [showsCache_iff_samples hd hr hgrid hmode entry]
  by_cases hmode0 : d.mode420 = 0
  · simp only [hmode0, if_true, true_or, iff_true]
    intro r c _
    rw [hentry hmode0]
  · simp only [hmode0, if_false, false_or]

/-- The header of a 4:2:0 frame of one tile. -/
def tileHeader : FrameHeader :=
  { destX := 16, destY := 16, jpegTableSelector := 0, jpegYUVTableMapping := 0,
    advanceTableSelector := 0, rc4Enable := 0, mode420 := 1, compressSize := 12 }

/-- A fresh decoder behind the header of a one-colour tile in black, which is all of the payload
but zeros. -/
def blackIn (h : FrameHeader) (qt : Fin 4 → Fin 64 → BitVec 64) : Decoder :=
  { (New.setGeometry h).ensureBuffers with
    qt := qt
    recv := [0, 0, 0]
    index := 2
    newbits := 25
    vq := { Color := fun i => [0x00008080, 0x00FF8080, 0x00808080, 0x00C08080].getD i 0,
            Index := Function.update (fun i => i.val) 0 0 } }

def blackTile (qt : Fin 4 → Fin 64 → BitVec 64) : Decoder := blackIn tileHeader qt

theorem readVQHeader_black (qt : Fin 4 → Fin 64 → BitVec 64) :
    (({ (New.setGeometry tileHeader).ensureBuffers with qt := qt }.startStream
      [0x50000000, 0, 0]).readPosition false >>= fun d => d.readVQHeader 0 1) =
      .ok (blackTile qt) := by
  rfl

theorem laid_blackIn (h : FrameHeader) (qt : Fin 4 → Fin 64 → BitVec 64) :
    Laid h (blackIn h qt) := by
  have hstart := laid_ensureBuffers valid_new h
  have hvalid : (blackIn h qt).store.Valid :=
    { hstart.valid with
      vqIndex := by
        change ∀ i : Fin 4, Function.update (fun i : Fin 4 => i.val) 0 0 i < 4
        decide
      vqBits := Nat.zero_le _ }
  exact hstart.of_geometry hvalid rfl

theorem ready_blackIn (h : FrameHeader) (qt : Fin 4 → Fin 64 → BitVec 64) :
    (blackIn h qt).toReader.Ready :=
  ⟨show 2 ≤ 3 by decide, show 2 ≤ 3 by decide, show 1 ≤ 25 ∧ 25 ≤ 32 by decide⟩

theorem inGrid_blackTile (qt : Fin 4 → Fin 64 → BitVec 64) : (blackTile qt).InGrid 0 0 :=
  show 0 < 16 / 16 ∧ 0 < 16 / 16 by decide

/-- All entries of the bitmap are black. -/
theorem bitmapColors_blackTile (qt : Fin 4 → Fin 64 → BitVec 64) (i : Nat) :
    (blackTile qt).bitmapColors i = (0, 128, 128) := by
  have hcache : (blackTile qt).vq = (blackTile fun _ _ => 0).vq := rfl
  rw [bitmapColors, bitmapColor_plain rfl, hcache]
  decide

theorem shown_blackTile (qt : Fin 4 → Fin 64 → BitVec 64) : (blackTile qt).Shown 0 0 0 0 := by
  have htarget : ∀ r c, (blackTile qt).target 0 0 r c =
      ((0 * 16 * 16 + 0 * 16 + r * 16 + c) % 16, (0 * 16 * 16 + 0 * 16 + r * 16 + c) / 16) :=
    fun r c => rfl
  have hscreen : (blackTile qt).OnScreen ((blackTile qt).target 0 0 0 0) := by
    rw [htarget]
    exact show 0 < 16 ∧ 0 < 16 by decide
  refine ⟨⟨show 0 < 16 by decide, show 0 < 16 by decide, hscreen⟩, ?_⟩
  intro r c ⟨_, hc, _⟩ hlater
  change c < 16 at hc
  rw [htarget, htarget]
  simp only [ne_eq, Prod.mk.injEq]
  unfold Later at hlater
  omega

/-- In a 4:4:4 frame the tile is black. -/
theorem decompressVQ_shows_black :
    (blackIn { tileHeader with mode420 := 0 } fun _ _ => 0).ShowsCache 0 0
      fun r c => r * 8 + c := by
  have hgrid : (blackIn { tileHeader with mode420 := 0 } fun _ _ => 0).InGrid 0 0 :=
    show 0 < 16 / 8 ∧ 0 < 16 / 8 by decide
  have hmode : (blackIn { tileHeader with mode420 := 0 } fun _ _ => 0).mode420 = 0 := rfl
  exact (decompressVQ_shows_iff (laid_blackIn _ _) (ready_blackIn _ _) hgrid (by decide) _
    fun _ _ _ => rfl).mpr (.inl hmode)

/-- A black 4:2:0 tile at the start of a session comes out green: its luma is right, and its
chroma is the 0 of a tile that has never been filled. -/
theorem blackTile_discoloured :
    ∃ d₀ d, New.prepare tileHeader [0x50000000, 0, 0] = .ok d₀ ∧
      (d₀.readPosition false >>= fun d => d.readVQHeader 0 1) = .ok d ∧
      Laid tileHeader d ∧ d.toReader.Ready ∧ d.InGrid 0 0 ∧
      ∀ entry, ¬ d.ShowsCache 0 0 entry := by
  obtain ⟨qt, hprepare⟩ := New.prepare_plain [0x50000000, 0, 0] (show tileHeader.rc4Enable ≠ 1 by
    decide) (by decide)
  have hlaid : Laid tileHeader (blackTile qt) := laid_blackIn tileHeader qt
  have hready : (blackTile qt).toReader.Ready := ready_blackIn tileHeader qt
  refine ⟨_, blackTile qt, hprepare, readVQHeader_black qt, hlaid, hready, inGrid_blackTile qt, ?_⟩
  intro entry hshows
  have hsame := (showsCache_iff_samples hlaid hready (inGrid_blackTile qt) (by decide) entry).mp
    hshows 0 0 (shown_blackTile qt)
  have hmisread : (blackTile qt).misread 0 0 = (0, 0, 0) := by
    have hluma : ((blackTile qt).misread 0 0).1 = ((blackTile qt).bitmapColors 0).1 := rfl
    rw [bitmapColors_blackTile] at hluma
    exact Prod.ext hluma rfl
  have hmode : (blackTile qt).mode420 ≠ 0 := show 1 ≠ 0 by decide
  rw [if_neg hmode, bitmapColors_blackTile, hmisread] at hsame
  exact absurd (congrArg Rgb.green hsame) (by decide)

end Decoder

end Outband.Kvm.Codec
