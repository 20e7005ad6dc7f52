import Mathlib.Data.Fin.VecNotation
import Mathlib.Data.Fintype.Basic
import Mathlib.Tactic.FinCases
import Outband.Foundation.Raster
import Outband.Kvm.Codec.FrameInvariant

/-!
# Where the pixels of a tile go

A conversion writes one pixel of the decode buffer for each sample of the tile,
and the copy at the end of `Decode` shows the buffer as a frame. `Laid` collects
what the header of a frame fixes about the decoders of that frame. From it follow
the position of every sample and the pixel of the frame that displays it.

## Implementation notes

In 4:2:0 mode a tile starts in a row of the padded width, but its own rows are
`realWidth` apart. The two widths agree for some resolutions only, and for the
others the rows of a tile drift to the left; for the narrowest screens they overlap.
-/

namespace Outband.Kvm.Codec

open Foundation

/-! ### Colours -/

/-- A colour of a frame. -/
structure Rgb where
  red : BitVec 8
  green : BitVec 8
  blue : BitVec 8
  deriving DecidableEq, Repr

/-- A colour value cut to the range of a byte. -/
def shade (v : Int) : BitVec 8 := BitVec.ofNat 8 (min v.toNat 255)

/-- The colour of a sample of luma and both chroma. -/
def rgbOf (sample : Nat × Nat × Nat) : Rgb :=
  let (yv, cb, cr) := sample
  let y := calcRGBofY (Fin.ofNat 256 yv)
  { red := shade (y + calcRGBofCrToR (Fin.ofNat 256 cr))
    green := shade
      (y + calcRGBofCbToG (Fin.ofNat 256 cb) + calcRGBofCrToG (Fin.ofNat 256 cr))
    blue := shade (y + calcRGBofCbToB (Fin.ofNat 256 cb)) }

/-- The bytes of a pixel of the decode buffer. -/
def Rgb.bgr (c : Rgb) : Fin 3 → Option (BitVec 8) := ![some c.blue, some c.green, some c.red]

/-- The bytes of a pixel of a frame. -/
def Rgb.rgbx (c : Rgb) : Fin 4 → Option (BitVec 8) :=
  ![some c.red, some c.green, some c.blue, some 0]

theorem clampRange_eq {v : Int} (hv : v < 639) : Decoder.clampRange v = .ok (shade v) := by
  unfold Decoder.clampRange shade
  split_ifs with hneg
  · rw [rd_ok (show (v + 256).toNat < 1408 by omega)]
    unfold rangeLimitTable rangeLimit
    simp only [Except.ok.injEq]
    congr 1
    split_ifs <;> omega
  · rw [show min v.toNat 255 = 0 by omega]
    rfl

/-- The colour values of a sample are below the end of the run of 255s in the table. -/
theorem colors_eq {yv cb cr : Nat} (hy : yv ≤ 255) (hcb : cb ≤ 255) (hcr : cr ≤ 255) :
    ∃ blue green red, Decoder.colors yv cb cr = .ok (blue, green, red) ∧
      blue < 639 ∧ green < 639 ∧ red < 639 ∧
      rgbOf (yv, cb, cr) = { red := shade red, green := shade green, blue := shade blue } := by
  have hyval : Fin.ofNat 256 yv = ⟨yv, by omega⟩ := Fin.ext (Nat.mod_eq_of_lt (by omega))
  have hcbval : Fin.ofNat 256 cb = ⟨cb, by omega⟩ := Fin.ext (Nat.mod_eq_of_lt (by omega))
  have hcrval : Fin.ofNat 256 cr = ⟨cr, by omega⟩ := Fin.ext (Nat.mod_eq_of_lt (by omega))
  simp only [Decoder.colors, rgbOf, hyval, hcbval, hcrval, rd_ok (show yv < 256 by omega),
    rd_ok (show cb < 256 by omega), rd_ok (show cr < 256 by omega)]
  refine ⟨_, _, _, rfl, ?_, ?_, ?_, rfl⟩
  · unfold calcRGBofY calcRGBofCbToB descale
    omega
  · unfold calcRGBofY calcRGBofCbToG calcRGBofCrToG descale
    omega
  · unfold calcRGBofY calcRGBofCrToR descale
    omega

namespace Decoder

variable {d d' d₀ : Decoder} {h : FrameHeader} {recv : List (BitVec 32)} {F : Site → Prop}

/-! ### One pixel -/

/-- A pixel inside the buffer takes the colour of its sample, and no other pixel changes. -/
theorem meets_putPixel_eq {buf : List (BitVec 8)} {p yv cb cr : Nat} (hy : yv ≤ 255)
    (hcb : cb ≤ 255) (hcr : cr ≤ 255) (hp : p * 3 + 2 < buf.length) :
    Meets (putPixel buf (p * 3) yv cb cr) (fun buf' =>
      unitAt 3 buf' = Function.update (unitAt 3 buf) p (rgbOf (yv, cb, cr)).bgr) F := by
  obtain ⟨blue, green, red, hcolors, hblue, hgreen, hred, hrgb⟩ := colors_eq hy hcb hcr
  simp only [putPixel, hcolors]
  change Meets (clampRange blue >>= _) _ _
  rw [clampRange_eq hblue]
  apply (meets_wrSlice_unit (p := p) (0 : Fin 3) (shade blue) (show p * 3 < _ by omega)).bind
  rintro buf₁ ⟨hlen₁, hview₁⟩
  rw [clampRange_eq hgreen]
  apply (meets_wrSlice_unit (p := p) (1 : Fin 3) (shade green) (show p * 3 + 1 < _ by omega)).bind
  rintro buf₂ ⟨hlen₂, hview₂⟩
  rw [clampRange_eq hred]
  apply (meets_wrSlice_unit (p := p) (2 : Fin 3) (shade red) (show p * 3 + 2 < _ by omega)).imp
  rintro buf' ⟨-, hview⟩
  rw [hview, hview₂, hview₁, hrgb]
  simp only [Function.update_self, Function.update_idem]
  congr 1
  funext i
  fin_cases i <;> rfl

/-! ### One tile -/

/-- Rows and columns of a tile of the grid. -/
def tileSize (d : Decoder) : Nat := if d.mode420 = 0 then 8 else 16

/-- Luma and both chroma of row `r` and column `c` of a tile. -/
def sample (d : Decoder) (r c : Nat) : Nat × Nat × Nat :=
  if d.mode420 = 0 then
    (d.yuvTile (Fin.ofNat 768 (r * 8 + c)), d.yuvTile (Fin.ofNat 768 (64 + (r * 8 + c))),
      d.yuvTile (Fin.ofNat 768 (128 + (r * 8 + c))))
  else
    (d.yuvTile (Fin.ofNat 768 ((r / 8 * 2 + c / 8) * 64 + (r % 8 * 8 + c % 8))),
      d.yuvTile (Fin.ofNat 768 (256 + (r / 2 * 8 + c / 2))),
      d.yuvTile (Fin.ofNat 768 (320 + (r / 2 * 8 + c / 2))))

/-- The colour of a sample. -/
def sampleColor (d : Decoder) (r c : Nat) : Rgb := rgbOf (d.sample r c)

/-- The first position of a tile in the decode buffer. -/
def tileStart (d : Decoder) (tx ty : Nat) : Nat :=
  if d.mode420 = 0 then d.off444 tx ty else d.off420 tx ty

/-- The position of a sample in the decode buffer. -/
def position (d : Decoder) (tx ty r c : Nat) : Nat := d.tileStart tx ty + r * d.realWidth + c

/-- The rows of a tile that are converted. -/
def tileRows (d : Decoder) (ty : Nat) : Nat := if d.mode420 = 0 then 8 else d.rows420 ty

/-- The columns of a tile that are converted. -/
def tileColumns (d : Decoder) (tx : Nat) : Nat := if d.mode420 = 0 then d.limit444 tx else 16

/-- The positions a conversion writes: in 4:4:4 mode those above the lower edge of the screen. -/
def Visible (d : Decoder) (p : Nat) : Prop := d.mode420 = 0 → p < d.realWidth * d.realH

variable {tx ty : Nat}

theorem Painted.frame (h : Painted d d') :
    d'.geometry = d.geometry ∧ d'.yuvTile = d.yuvTile := by
  obtain ⟨buf, prev, rfl, -, -⟩ := h
  exact ⟨rfl, rfl⟩

/-- Pixels below the screen keep their colour. -/
theorem meets_putVisible_eq {p yv cb cr : Nat} (hy : yv ≤ 255) (hcb : cb ≤ 255) (hcr : cr ≤ 255)
    (hp : p * 3 + 2 < d.decodeBuf.length) :
    Meets (d.putVisible (p * 3) yv cb cr) (fun d' => unitAt 3 d'.decodeBuf =
      if p < d.realWidth * d.realH then
        Function.update (unitAt 3 d.decodeBuf) p (rgbOf (yv, cb, cr)).bgr
      else unitAt 3 d.decodeBuf) F := by
  unfold putVisible
  by_cases hvisible : p < d.realWidth * d.realH
  · rw [if_pos (by omega), if_pos hvisible]
    apply (meets_putPixel_eq hy hcb hcr hp).bind
    intro buf' hunit
    exact hunit
  · rw [if_neg (by omega), if_neg hvisible]
    obtain ⟨blue, green, red, hcolors, -⟩ := colors_eq hy hcb hcr
    rw [hcolors]
    rfl

/-- One pixel of a 4:4:4 tile. -/
theorem meets_pixel444_eq {off r c : Nat} (hd : d.store.Valid) (hmode : d.mode420 = 0)
    (hfit : (off + r * d.realWidth + c) * 3 + 2 < d.bufAlloc) :
    Meets (pixel444 off r c d) (fun d' => Painted d d' ∧ unitAt 3 d'.decodeBuf =
      if off + r * d.realWidth + c < d.realWidth * d.realH then
        Function.update (unitAt 3 d.decodeBuf) (off + r * d.realWidth + c)
          (d.sampleColor r c).bgr
      else unitAt 3 d.decodeBuf) F := by
  have hbuf : d.decodeBuf.length = d.bufAlloc := hd.decodeBuf
  have hlen : d.prevYUV.length = d.bufAlloc := hd.prevYUV
  apply (meets_pixel444 hd hfit).and
  unfold pixel444
  simp only
  rw [wrSlice_ok (by omega)]
  change Meets (wrSlice Site.prevYUV _ _ _ >>= _) _ _
  rw [wrSlice_ok (by simp only [List.length_set]; omega)]
  change Meets (wrSlice Site.prevYUV _ _ _ >>= _) _ _
  rw [wrSlice_ok (by simp only [List.length_set]; omega)]
  simp only [sampleColor, sample, if_pos hmode]
  exact meets_putVisible_eq (hd.yuvTile _) (hd.yuvTile _) (hd.yuvTile _)
    (hbuf ▸ hfit : _ < d.decodeBuf.length)

/-- One pixel of a 4:2:0 tile. -/
theorem meets_pixel420_eq {off r c : Nat} (hd : d.store.Valid) (hmode : d.mode420 ≠ 0)
    (hfit : (off + r * d.realWidth + c) * 3 + 2 < d.bufAlloc) :
    Meets (pixel420 off r c d) (fun d' => Painted d d' ∧ unitAt 3 d'.decodeBuf =
      Function.update (unitAt 3 d.decodeBuf) (off + r * d.realWidth + c)
        (d.sampleColor r c).bgr) F := by
  have hbuf : d.decodeBuf.length = d.bufAlloc := hd.decodeBuf
  apply (meets_pixel420 hd hfit).and
  simp only [sampleColor, sample, if_neg hmode]
  apply (meets_putPixel_eq (hd.yuvTile _) (hd.yuvTile _) (hd.yuvTile _)
    (hbuf ▸ hfit : _ < d.decodeBuf.length)).bind
  intro buf' hunit
  exact hunit

/-- A conversion overlays the decode buffer with the colours of the samples. -/
theorem meets_convert_overlaid (hd : d.store.Valid) (hfit : d.TileFits tx ty) :
    Meets (d.convertYUVtoRGB tx ty) (fun d' => Painted d d' ∧
      Overlaid (fun r c => r < d.tileRows ty ∧ c < d.tileColumns tx ∧
          d.Visible (d.position tx ty r c)) (d.position tx ty)
        (fun r c => (d.sampleColor r c).bgr) (unitAt 3 d.decodeBuf) (unitAt 3 d'.decodeBuf)) F := by
  unfold TileFits at hfit
  unfold convertYUVtoRGB
  split_ifs with hmode
  · rw [if_pos hmode] at hfit
    have hposition : d.position tx ty = fun r c => d.off444 tx ty + r * d.realWidth + c := by
      funext r c
      rw [position, tileStart, if_pos hmode]
    simp only [tileRows, tileColumns, if_pos hmode, hposition]
    apply meets_forRect_overlaid _ (fun s => unitAt 3 s.decodeBuf) (Painted.refl d)
    · intro r c s hr hc hs hvisible
      have hvalid := hs.valid hd
      obtain ⟨buf, prev, rfl, -, -⟩ := id hs
      apply (meets_pixel444_eq hvalid hmode (hfit.pixel hr hc)).imp
      intro s' ⟨hs', hview⟩
      exact ⟨hs.trans hs', hview.trans (if_pos (hvisible hmode))⟩
    · intro r c s hr hc hs hvisible
      have hvalid := hs.valid hd
      have hbelow : ¬ d.off444 tx ty + r * d.realWidth + c < d.realWidth * d.realH :=
        fun hlt => hvisible fun _ => hlt
      obtain ⟨buf, prev, rfl, -, -⟩ := id hs
      apply (meets_pixel444_eq hvalid hmode (hfit.pixel hr hc)).imp
      intro s' ⟨hs', hview⟩
      exact ⟨hs.trans hs', hview.trans (if_neg hbelow)⟩
  · rw [if_neg hmode] at hfit
    have hposition : d.position tx ty = fun r c => d.off420 tx ty + r * d.realWidth + c := by
      funext r c
      rw [position, tileStart, if_neg hmode]
    simp only [tileRows, tileColumns, if_neg hmode, hposition]
    apply meets_forRect_overlaid _ (fun s => unitAt 3 s.decodeBuf) (Painted.refl d)
    · intro r c s hr hc hs _
      have hvalid := hs.valid hd
      obtain ⟨buf, prev, rfl, -, -⟩ := id hs
      apply (meets_pixel420_eq hvalid hmode (hfit.pixel hr hc)).imp
      intro s' ⟨hs', hview⟩
      exact ⟨hs.trans hs', hview⟩
    · intro r c s _ _ _ hvisible
      exact (hvisible fun hmode' => (hmode hmode').elim).elim

/-! ### The frame -/

/-- The point `(x, y)` lies on the screen. -/
def OnScreen (d : Decoder) (p : Nat × Nat) : Prop := p.1 < d.realWidth ∧ p.2 < d.realH

instance (d : Decoder) (p : Nat × Nat) : Decidable (d.OnScreen p) :=
  inferInstanceAs (Decidable (_ ∧ _))

/-- The bytes of pixel `(x, y)` of a frame; there are none off the screen. -/
def Frame.pixel (f : Frame) (p : Nat × Nat) : Fin 4 → Option (BitVec 8) :=
  if p.1 < f.W ∧ p.2 < f.H then unitAt 4 f.Pix (p.2 * f.W + p.1) else fun _ => none

/-- Blue, green, red become red, green, blue, 0. -/
def swapped (u : Fin 3 → Option (BitVec 8)) : Fin 4 → Option (BitVec 8) :=
  ![u 2, u 1, u 0, some 0]

/-- The copy of one pixel. -/
theorem meets_copyPixel_eq (hscreen : ScreenFits h d.geometry) (hd : d.store.Valid) {y x : Nat}
    (hy : y < d.realH) (hx : x < d.realWidth) {pix : List (BitVec 8)}
    (hpix : pix.length = d.realWidth * d.realH * 4) :
    Meets (d.copyPixel y x pix) (fun pix' => pix'.length = d.realWidth * d.realH * 4 ∧
      unitAt 4 pix' = Function.update (unitAt 4 pix) (y * d.realWidth + x)
        (swapped (unitAt 3 d.decodeBuf (y * d.bufStride + x)))) F := by
  have hbuf : d.decodeBuf.length = d.bufAlloc := hd.decodeBuf
  have hstride : d.realWidth ≤ d.bufStride := hscreen.stride
  have halloc : d.realH * d.bufStride * 3 ≤ d.bufAlloc := hscreen.alloc
  have hsource : y * d.bufStride + x < d.bufStride * d.realH := position_lt (by omega) hy
  have htarget : y * d.realWidth + x < d.realWidth * d.realH := position_lt hx hy
  rw [Nat.mul_comm d.realH] at halloc
  unfold copyPixel
  simp only [show y * d.bufStride * 3 + x * 3 = (y * d.bufStride + x) * 3 by omega]
  generalize y * d.bufStride + x = p at hsource ⊢
  generalize y * d.realWidth + x = q at htarget ⊢
  apply (meets_rdSlice_unit (p := p) (2 : Fin 3) (show p * 3 + 2 < _ by omega)).bind
  intro red hred
  apply (meets_wrSlice_unit (p := q) (0 : Fin 4) red (show q * 4 < _ by omega)).bind
  intro pix₁ ⟨hlen₁, hview₁⟩
  apply (meets_rdSlice_unit (p := p) (1 : Fin 3) (show p * 3 + 1 < _ by omega)).bind
  intro green hgreen
  apply (meets_wrSlice_unit (p := q) (1 : Fin 4) green (show q * 4 + 1 < _ by omega)).bind
  intro pix₂ ⟨hlen₂, hview₂⟩
  apply (meets_rdSlice_unit (p := p) (0 : Fin 3) (show p * 3 < _ by omega)).bind
  intro blue hblue
  apply (meets_wrSlice_unit (p := q) (2 : Fin 4) blue (show q * 4 + 2 < _ by omega)).bind
  intro pix₃ ⟨hlen₃, hview₃⟩
  apply (meets_wrSlice_unit (p := q) (3 : Fin 4) 0 (show q * 4 + 3 < _ by omega)).imp
  intro pix' ⟨hlen, hview⟩
  refine ⟨by omega, ?_⟩
  rw [hview, hview₃, hview₂, hview₁, swapped, hred, hgreen, hblue]
  simp only [Function.update_self, Function.update_idem]
  congr 1
  funext i
  fin_cases i <;> rfl

/-- A frame shows the decode buffer, row by row. -/
theorem meets_toFrame_eq (hscreen : ScreenFits h d.geometry) (hd : d.store.Valid) :
    Meets d.toFrame (fun f => (∀ p, d.OnScreen p →
        f.pixel p = swapped (unitAt 3 d.decodeBuf (p.2 * d.bufStride + p.1))) ∧
      ∀ p, ¬ d.OnScreen p → f.pixel p = fun _ => none) F := by
  have hcopy : Meets (forRect d.copyPixel d.realH d.realWidth
      (List.replicate (d.realWidth * d.realH * 4) 0))
      (fun pix => pix.length = d.realWidth * d.realH * 4 ∧
        Overlaid (fun y x => y < d.realH ∧ x < d.realWidth ∧ True)
          (fun y x => y * d.realWidth + x)
          (fun y x => swapped (unitAt 3 d.decodeBuf (y * d.bufStride + x)))
          (unitAt 4 (List.replicate (d.realWidth * d.realH * 4) 0)) (unitAt 4 pix)) F := by
    apply meets_forRect_overlaid (fun _ _ => True) (unitAt 4)
      (J := fun (pix : List (BitVec 8)) => pix.length = d.realWidth * d.realH * 4)
    · exact List.length_replicate
    · intro y x pix hy hx hpix _
      exact meets_copyPixel_eq hscreen hd hy hx hpix
    · exact fun _ _ _ _ _ _ hfalse => (hfalse True.intro).elim
  apply hcopy.bind
  intro pix ⟨_, hover⟩
  refine ⟨?_, fun p hp => if_neg hp⟩
  rintro ⟨x, y⟩ ⟨hx, hy⟩
  refine (if_pos ⟨hx, hy⟩).trans ?_
  apply hover.inside y x ⟨hy, hx, True.intro⟩
  intro y' x' ⟨_, hx', _⟩ hlater heq
  obtain ⟨rfl, rfl⟩ := position_inj hx' hx heq
  unfold Later at hlater
  omega

/-! ### Decoders of a frame -/

/-- A decoder at work on a frame with this header. -/
structure Laid (h : FrameHeader) (d : Decoder) : Prop where
  valid : d.store.Valid
  layout : Layout h d.geometry

theorem laid_ensureBuffers (hd : d.store.Valid) (h : FrameHeader) :
    Laid h (d.setGeometry h).ensureBuffers :=
  ⟨valid_ensureBuffers (valid_setGeometry hd), layout_ensureBuffers d h⟩

/-- What keeps the invariant and the geometry keeps the layout. -/
theorem Laid.of_geometry (hd : Laid h d) (hvalid : d'.store.Valid)
    (hgeometry : d'.geometry = d.geometry) : Laid h d' :=
  ⟨hvalid, hgeometry ▸ hd.layout⟩

theorem Laid.step {b : Nat} (hd : Laid h d) (hstep : Step b d d') : Laid h d' :=
  hd.of_geometry hstep.valid hstep.geometry

theorem geometry_of_prepare (h₀ : d.prepare h recv = .ok d₀) :
    d₀.geometry = (d.setGeometry h).ensureBuffers.geometry := by
  obtain ⟨⟨d₁, recv₁⟩, hdecrypt, hrest⟩ := exists_of_bind_ok h₀
  obtain ⟨d₂, hload, heq⟩ := exists_of_bind_ok hrest
  cases heq
  have hgeometry := ((meets_decryptPayload (F := fun _ => True) _ h recv).of_eq_ok hdecrypt).2.1
  by_cases hsel : SelectorsFit h
  · obtain ⟨qt, hqt⟩ := loadQuantizationTables_ok (d := d₁) hsel
    rw [hqt] at hload
    cases hload
    exact hgeometry
  · obtain ⟨e, he⟩ := faults_loadQuantizationTables (d := d₁) hsel
    rw [hload] at he
    cases he

/-- Every macro block of a frame starts with the layout of its header. -/
theorem laid_of_heads {s : Decoder} (hd : Reachable d) (hs : Heads d h recv s) : Laid h s := by
  obtain ⟨d₀, h₀, hlen, hvisits⟩ := hs
  have hprepared := prepared_of_prepare hd.valid h₀
  have hround := round_of_visits hprepared.valid (hprepared.ready hlen) hvisits
  refine ⟨hround.valid, ?_⟩
  rw [hround.geometry, geometry_of_prepare h₀]
  exact layout_ensureBuffers d h

/-- The tile at `(tx, ty)` belongs to the grid of the padded screen. -/
def InGrid (d : Decoder) (tx ty : Nat) : Prop :=
  tx < d.tmpWidthBy16 / d.tileSize ∧ ty < d.tmpHeightBy16 / d.tileSize

instance (d : Decoder) (tx ty : Nat) : Decidable (d.InGrid tx ty) :=
  inferInstanceAs (Decidable (_ ∧ _))

theorem tileSize_pos (d : Decoder) : 0 < d.tileSize := by
  unfold tileSize
  split_ifs <;> decide

/-- A tile of the grid lies on the padded screen, and starts on the screen. -/
theorem InGrid.bounds (hgrid : d.InGrid tx ty) (hd : Laid h d) (hmode : h.mode420 ≤ 1) :
    (tx + 1) * d.tileSize ≤ d.width ∧ (ty + 1) * d.tileSize ≤ d.height ∧
      d.realWidth ≤ d.width ∧ d.width < d.realWidth + d.tileSize := by
  have hwidth : d.width = roundUp h.destX (gridOf h) := hd.layout.width
  have hreal : d.realWidth = h.destX := hd.layout.realWidth
  have hcolumns : d.tmpWidthBy16 = d.width := hd.layout.tmpWidthBy16
  have hrows : d.tmpHeightBy16 = d.height := hd.layout.tmpHeightBy16
  have hmode420 : d.mode420 = h.mode420 := hd.layout.mode420
  have hsize : gridOf h = d.tileSize := by
    unfold gridOf tileSize
    rw [hmode420]
    split_ifs <;> omega
  have hpos := d.tileSize_pos
  obtain ⟨hx, hy⟩ := hgrid
  have hx' : (tx + 1) * d.tileSize ≤ d.tmpWidthBy16 := (Nat.le_div_iff_mul_le hpos).mp hx
  have hy' : (ty + 1) * d.tileSize ≤ d.tmpHeightBy16 := (Nat.le_div_iff_mul_le hpos).mp hy
  rw [hsize] at hwidth
  have hle := le_roundUp (v := h.destX) hpos
  have hlt := roundUp_lt (v := h.destX) hpos
  refine ⟨?_, ?_, ?_, ?_⟩ <;> omega

/-- The columns of a 4:4:4 tile that starts on the screen end with the screen. -/
theorem lt_limit444 {c : Nat} (hx : tx * 8 < d.realWidth) :
    c < d.limit444 tx ↔ c < 8 ∧ tx * 8 + c < d.realWidth := by
  unfold limit444
  simp only
  split_ifs <;> omega

theorem InGrid.tileFits (hgrid : d.InGrid tx ty) (hd : Laid h d) (hmode : h.mode420 ≤ 1) :
    d.TileFits tx ty := by
  obtain ⟨hx, hy, hreal, hlt⟩ := hgrid.bounds hd hmode
  have halloc : d.width * d.height * 3 ≤ d.bufAlloc := hd.layout.alloc
  have hheight : (ty + 1) * d.tileSize * d.width ≤ d.width * d.height := by
    rw [Nat.mul_comm d.width]
    exact Nat.mul_le_mul_right _ hy
  unfold TileFits
  split_ifs with hmode0
  · have hsize : d.tileSize = 8 := if_pos hmode0
    rw [hsize] at hx hheight hlt
    have hstart : tx * 8 < d.realWidth := by omega
    have hlimit : tx * 8 + d.limit444 tx ≤ d.realWidth := by
      by_contra hover
      have := (lt_limit444 (c := d.realWidth - tx * 8) hstart).mp (by omega)
      omega
    have hrows : (ty + 1) * 8 * d.realWidth ≤ (ty + 1) * 8 * d.width :=
      Nat.mul_le_mul_left _ hreal
    have hsplit : (ty + 1) * 8 * d.realWidth = ty * 8 * d.realWidth + 8 * d.realWidth := by ring
    refine .inr (.inr ?_)
    unfold off444
    omega
  · have hsize : d.tileSize = 16 := if_neg hmode0
    rw [hsize] at hx hheight
    have hrows : (d.rows420 ty - 1) * d.realWidth ≤ 15 * d.width := by
      apply Nat.mul_le_mul _ hreal
      unfold rows420
      split_ifs <;> omega
    have hsplit : (ty + 1) * 16 * d.width = ty * 16 * d.width + 16 * d.width := by ring
    refine .inr (.inr ?_)
    unfold off420
    omega

/-! ### Placement -/

/-- The pixel of the frame that displays a sample. In 4:2:0 mode the position is read
back with the padded width, whatever width it was written with. -/
def target (d : Decoder) (tx ty r c : Nat) : Nat × Nat :=
  if d.mode420 = 0 then (tx * 8 + c, ty * 8 + r)
  else (d.position tx ty r c % d.width, d.position tx ty r c / d.width)

/-- The samples that are converted to a pixel of the screen. -/
def Drawn (d : Decoder) (tx ty r c : Nat) : Prop :=
  r < d.tileRows ty ∧ c < d.tileSize ∧ d.OnScreen (d.target tx ty r c)

/-- Where the pixels of a tile go is a matter of the geometry. -/
theorem drawn_of_geometry (hg : d'.geometry = d.geometry) (tx ty : Nat) :
    d'.Drawn tx ty = d.Drawn tx ty ∧ d'.target tx ty = d.target tx ty := by
  have hwidth : d'.width = d.width := congrArg Geometry.width hg
  have hheight : d'.height = d.height := congrArg Geometry.height hg
  have hreal : d'.realWidth = d.realWidth := congrArg Geometry.realWidth hg
  have hrealH : d'.realH = d.realH := congrArg Geometry.realH hg
  have hmode : d'.mode420 = d.mode420 := congrArg Geometry.mode420 hg
  have htarget : d'.target tx ty = d.target tx ty := by
    funext r c
    simp only [target, position, tileStart, off444, off420, hwidth, hreal, hmode]
  refine ⟨?_, htarget⟩
  funext r c
  simp only [Drawn, OnScreen, tileRows, rows420, tileSize, htarget, hheight, hreal, hrealH, hmode]

theorem Laid.target_index (hd : Laid h d) (tx ty r c : Nat) :
    (d.target tx ty r c).2 * d.bufStride + (d.target tx ty r c).1 = d.position tx ty r c := by
  have hstride : d.bufStride = if d.mode420 = 0 then d.realWidth else d.width :=
    hd.layout.bufStride
  rw [hstride]
  unfold target
  split_ifs with hmode
  · rw [position, tileStart, if_pos hmode, off444]
    ring
  · exact Nat.div_add_mod' _ _

theorem target_unique (hd : Laid h d) (hgrid : d.InGrid tx ty) (hmode : h.mode420 ≤ 1)
    {p : Nat × Nat} {r c : Nat} (hp : d.OnScreen p) (hc : c < d.tileColumns tx)
    (heq : p.2 * d.bufStride + p.1 = d.position tx ty r c) : p = d.target tx ty r c := by
  have hstride : d.bufStride = if d.mode420 = 0 then d.realWidth else d.width :=
    hd.layout.bufStride
  obtain ⟨hx, -, hreal, hlt⟩ := hgrid.bounds hd hmode
  obtain ⟨x, y⟩ := p
  obtain ⟨hpx, -⟩ : x < d.realWidth ∧ y < d.realH := hp
  have hindex := hd.target_index tx ty r c
  rw [← heq, hstride] at hindex
  by_cases hmode0 : d.mode420 = 0
  · rw [tileSize, if_pos hmode0] at hx hlt
    rw [tileColumns, if_pos hmode0, lt_limit444 (by omega)] at hc
    rw [target, if_pos hmode0] at hindex ⊢
    rw [if_pos hmode0] at hindex
    obtain ⟨hrow, hcol⟩ := position_inj hc.2 hpx hindex
    exact Prod.ext hcol.symm hrow.symm
  · rw [target, if_neg hmode0] at hindex ⊢
    rw [if_neg hmode0] at hindex
    have hmod : d.position tx ty r c % d.width < d.width := Nat.mod_lt _ (by omega)
    obtain ⟨hrow, hcol⟩ := position_inj hmod (by omega) hindex
    exact Prod.ext hcol.symm hrow.symm

/-- Of the samples with a pixel on the screen, all are converted. -/
theorem drawn_iff (hd : Laid h d) (hgrid : d.InGrid tx ty) (hmode : h.mode420 ≤ 1) (r c : Nat) :
    (r < d.tileRows ty ∧ c < d.tileColumns tx ∧ d.Visible (d.position tx ty r c)) ∧
      d.OnScreen (d.target tx ty r c) ↔ d.Drawn tx ty r c := by
  obtain ⟨hx, -, hreal, hlt⟩ := hgrid.bounds hd hmode
  unfold Drawn
  by_cases hmode0 : d.mode420 = 0
  · rw [tileSize, if_pos hmode0] at hx hlt ⊢
    rw [tileColumns, if_pos hmode0, lt_limit444 (by omega)]
    constructor
    · exact fun ⟨⟨hr, hc, _⟩, hscreen⟩ => ⟨hr, hc.1, hscreen⟩
    · rintro ⟨hr, hc, hscreen⟩
      have hon := hscreen
      rw [target, if_pos hmode0] at hon
      refine ⟨⟨hr, ⟨hc, hon.1⟩, fun _ => ?_⟩, hscreen⟩
      have hindex := hd.target_index tx ty r c
      have hstride : d.bufStride = if d.mode420 = 0 then d.realWidth else d.width :=
        hd.layout.bufStride
      rw [hstride, if_pos hmode0] at hindex
      rw [← hindex]
      exact position_lt hscreen.1 hscreen.2
  · rw [tileColumns, tileSize, if_neg hmode0, if_neg hmode0]
    constructor
    · exact fun ⟨⟨hr, hc, _⟩, hscreen⟩ => ⟨hr, hc, hscreen⟩
    · exact fun ⟨hr, hc, hscreen⟩ => ⟨⟨hr, hc, fun h => (hmode0 h).elim⟩, hscreen⟩

theorem Laid.meets_toFrame (hd : Laid h d) :
    Meets d.toFrame (fun f => (∀ p, d.OnScreen p →
        f.pixel p = swapped (unitAt 3 d.decodeBuf (p.2 * d.bufStride + p.1))) ∧
      ∀ p, ¬ d.OnScreen p → f.pixel p = fun _ => none) F :=
  meets_toFrame_eq hd.layout.screenFits hd.valid

theorem Laid.pixel_eq {f : Frame} {p : Nat × Nat} (hd : Laid h d) (hf : d.toFrame = .ok f)
    (hp : d.OnScreen p) :
    f.pixel p = swapped (unitAt 3 d.decodeBuf (p.2 * d.bufStride + p.1)) :=
  ((hd.meets_toFrame (F := fun _ => True)).of_eq_ok hf).1 p hp

/-- A conversion overlays the frame with the colours of the samples. -/
theorem convert_overlaid (hd : Laid h d) (hgrid : d.InGrid tx ty) (hmode : h.mode420 ≤ 1) :
    ∃ d' f f', d.convertYUVtoRGB tx ty = .ok d' ∧ d.toFrame = .ok f ∧ d'.toFrame = .ok f' ∧
      Painted d d' ∧ Overlaid (d.Drawn tx ty) (d.target tx ty)
        (fun r c => (d.sampleColor r c).rgbx) f.pixel f'.pixel := by
  obtain ⟨d', hconvert, hpainted, hover⟩ := (meets_convert_overlaid (F := fun _ => False)
    hd.valid (hgrid.tileFits hd hmode)).exists_ok
  have hgeometry := hpainted.frame.1
  have hd' := hd.of_geometry (hpainted.valid hd.valid) hgeometry
  obtain ⟨f, hf, hon, hoff⟩ := (hd.meets_toFrame (F := fun _ => False)).exists_ok
  obtain ⟨f', hf', hon', hoff'⟩ := (hd'.meets_toFrame (F := fun _ => False)).exists_ok
  refine ⟨d', f, f', hconvert, hf, hf', hpainted, ?_⟩
  obtain ⟨buf, prev, rfl, -, -⟩ := hpainted
  apply (hover.through (fun p => p.2 * d.bufStride + p.1) d.OnScreen swapped _ _ hon
    (fun p hp => hon' p hp) _).congr
  · exact drawn_iff hd hgrid hmode
  · exact fun r c _ => hd.target_index tx ty r c
  · exact fun p r c hp hcell heq => target_unique hd hgrid hmode hp hcell.2.1 heq
  · intro p hp
    rw [hoff p hp]
    exact hoff' p hp

/-- The place of a sample in a screen that is cut into tiles. -/
def gridPoint (d : Decoder) (tx ty r c : Nat) : Nat × Nat :=
  (tx * d.tileSize + c, ty * d.tileSize + r)

/-- A conversion shows every sample at its place, and changes no other pixel. -/
def InPlace (d : Decoder) (tx ty : Nat) : Prop :=
  ∃ d' f f', d.convertYUVtoRGB tx ty = .ok d' ∧ d.toFrame = .ok f ∧ d'.toFrame = .ok f' ∧
    (∀ r c, r < d.tileSize → c < d.tileSize → d.OnScreen (d.gridPoint tx ty r c) →
      f'.pixel (d.gridPoint tx ty r c) = (d.sampleColor r c).rgbx) ∧
    ∀ p, (∀ r c, r < d.tileSize → c < d.tileSize → d.gridPoint tx ty r c ≠ p) →
      f'.pixel p = f.pixel p

theorem target_eq_gridPoint (hd : Laid h d) (hgrid : d.InGrid tx ty) (hmode : h.mode420 ≤ 1)
    (halign : d.mode420 = 0 ∨ d.realWidth = d.width) {r c : Nat} (hc : c < d.tileSize) :
    d.target tx ty r c = d.gridPoint tx ty r c := by
  obtain ⟨hx, -, -, -⟩ := hgrid.bounds hd hmode
  unfold target gridPoint
  split_ifs with hmode0
  · rw [tileSize, if_pos hmode0]
  · have hwidth := halign.resolve_left hmode0
    rw [tileSize, if_neg hmode0] at hx hc ⊢
    have hposition : d.position tx ty r c = (ty * 16 + r) * d.width + (tx * 16 + c) := by
      rw [position, tileStart, if_neg hmode0, off420, hwidth]
      ring
    obtain ⟨hrow, hcol⟩ := position_inj (Nat.mod_lt (d.position tx ty r c) (by omega))
      (by omega : tx * 16 + c < d.width) ((Nat.div_add_mod' _ _).trans hposition)
    exact Prod.ext hcol hrow

/-- Where the two widths agree, whole tiles are converted in place. -/
theorem inPlace_of_aligned (hd : Laid h d) (hgrid : d.InGrid tx ty) (hmode : h.mode420 ≤ 1)
    (halign : d.mode420 = 0 ∨ d.realWidth = d.width) (hrows : d.tileRows ty = d.tileSize) :
    d.InPlace tx ty := by
  obtain ⟨d', f, f', hconvert, hf, hf', -, hover⟩ := convert_overlaid hd hgrid hmode
  have htarget : ∀ {r c}, c < d.tileSize → d.target tx ty r c = d.gridPoint tx ty r c :=
    target_eq_gridPoint hd hgrid hmode halign
  refine ⟨d', f, f', hconvert, hf, hf', ?_, ?_⟩
  · intro r c hr hc hscreen
    rw [← htarget hc] at hscreen ⊢
    apply hover.inside r c ⟨hrows.symm ▸ hr, hc, hscreen⟩
    intro r' c' ⟨_, hc', _⟩ hlater heq
    rw [htarget hc, htarget hc', gridPoint, gridPoint, Prod.mk.injEq] at heq
    unfold Later at hlater
    omega
  · intro p hp
    apply hover.outside
    intro r c ⟨hr, hc, _⟩
    rw [htarget hc]
    exact hp r c (hrows ▸ hr) hc

/-- Every tile of the grid is converted, to the pixels that display the positions of its
samples. They are those of the grid unless the screen is narrower than the padded one. -/
theorem convertYUVtoRGB_placed (hd : Laid h d) (hgrid : d.InGrid tx ty) (hmode : h.mode420 ≤ 1) :
    (∃ d' f f', d.convertYUVtoRGB tx ty = .ok d' ∧ d.toFrame = .ok f ∧ d'.toFrame = .ok f' ∧
      Overlaid (d.Drawn tx ty) (d.target tx ty) (fun r c => (d.sampleColor r c).rgbx)
        f.pixel f'.pixel) ∧
    (d.mode420 = 0 ∨ d.realWidth = d.width → d.tileRows ty = d.tileSize → d.InPlace tx ty) := by
  obtain ⟨d', f, f', hconvert, hf, hf', -, hover⟩ := convert_overlaid hd hgrid hmode
  exact ⟨⟨d', f, f', hconvert, hf, hf', hover⟩, inPlace_of_aligned hd hgrid hmode⟩

/-- The header of a 4:2:0 frame of 17×2 pixels. -/
def narrowHeader : FrameHeader :=
  { destX := 17, destY := 2, jpegTableSelector := 0, jpegYUVTableMapping := 0,
    advanceTableSelector := 0, rc4Enable := 0, mode420 := 1, compressSize := 0 }

/-- A fresh decoder at the start of such a frame. -/
def narrowDecoder : Decoder := (New.setGeometry narrowHeader).ensureBuffers

theorem laid_narrowDecoder : Laid narrowHeader narrowDecoder :=
  laid_ensureBuffers valid_new narrowHeader

theorem convertYUVtoRGB_placed_narrow :
    (∃ d' f f', narrowDecoder.convertYUVtoRGB 0 0 = .ok d' ∧ narrowDecoder.toFrame = .ok f ∧
      d'.toFrame = .ok f' ∧
      Overlaid (narrowDecoder.Drawn 0 0) (narrowDecoder.target 0 0)
        (fun r c => (narrowDecoder.sampleColor r c).rgbx) f.pixel f'.pixel) ∧
    (narrowDecoder.mode420 = 0 ∨ narrowDecoder.realWidth = narrowDecoder.width →
      narrowDecoder.tileRows 0 = narrowDecoder.tileSize → narrowDecoder.InPlace 0 0) :=
  convertYUVtoRGB_placed laid_narrowDecoder (by decide) (by decide)

/-- The second row of a tile is written fifteen positions too early here, so that nothing
reaches the second pixel of the second row of the screen. -/
theorem narrow_misplaced :
    Laid narrowHeader narrowDecoder ∧ ¬ BadResolution narrowHeader ∧
      narrowHeader.mode420 ≤ 1 ∧ narrowDecoder.InGrid 0 0 ∧ ¬ narrowDecoder.InPlace 0 0 := by
  refine ⟨laid_narrowDecoder, by decide, by decide, by decide, ?_⟩
  rintro ⟨d', f, f', hconvert, hf, hf', hplaced, -⟩
  obtain ⟨d'', g, g', hconvert', hg, hg', -, hover⟩ :=
    convert_overlaid laid_narrowDecoder (by decide : narrowDecoder.InGrid 0 0) (by decide)
  obtain rfl : d' = d'' := Except.ok.inj (hconvert.symm.trans hconvert')
  obtain rfl : f = g := Except.ok.inj (hf.symm.trans hg)
  obtain rfl : f' = g' := Except.ok.inj (hf'.symm.trans hg')
  have hshown : f'.pixel (1, 1) = (narrowDecoder.sampleColor 1 1).rgbx :=
    hplaced 1 1 (by decide) (by decide) (by decide)
  have hkept : f'.pixel (1, 1) = f.pixel (1, 1) := by
    apply hover.outside
    intro r c ⟨_, hc, _⟩ heq
    change c < 16 at hc
    have hposition : narrowDecoder.position 0 0 r c = r * 17 + c := by
      change 0 * 16 * 32 + 0 * 16 + r * 17 + c = r * 17 + c
      omega
    rw [target, if_neg (by decide), hposition, Prod.mk.injEq] at heq
    change (r * 17 + c) % 32 = 1 ∧ (r * 17 + c) / 32 = 1 at heq
    omega
  have hblack : f.pixel (1, 1) 1 = some 0 := by
    have hscreen : narrowDecoder.OnScreen (1, 1) := by decide
    refine (congrFun (laid_narrowDecoder.pixel_eq hf hscreen) 1).trans ?_
    change (List.replicate (32 * 16 * 3) (0 : BitVec 8))[33 * 3 + 1]? = some 0
    rw [List.getElem?_replicate, if_pos (by decide)]
  rw [← hkept, hshown] at hblack
  exact absurd hblack (by decide)

end Decoder

end Outband.Kvm.Codec
