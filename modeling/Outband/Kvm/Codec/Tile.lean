import Outband.Kvm.Codec.Decoder

/-!
# Tiles stay inside the buffers

The pixel part of a macro block reads and writes the two frame buffers at
addresses computed from the tile position. `TileFits` says that the last pixel
of a tile lies inside them. With it no access of a tile is out of range, and
without it some access is.

`Step b d d'` is what every part of a macro block does otherwise: it keeps the
invariant, the geometry and the position, and it consumes at least `b` bits.
-/

namespace Outband.Kvm.Codec.Decoder

open Foundation

/-- Screen, grid and buffer sizes. They are fixed for the length of a frame. -/
structure Geometry where
  width : Nat
  height : Nat
  realWidth : Nat
  realH : Nat
  tmpWidthBy16 : Nat
  tmpHeightBy16 : Nat
  mode420 : Nat
  bufStride : Nat
  bufAlloc : Nat

variable {d d' d'' : Decoder} {F : Site → Prop} {b b' : Nat}

def geometry (d : Decoder) : Geometry :=
  { width := d.width, height := d.height, realWidth := d.realWidth, realH := d.realH,
    tmpWidthBy16 := d.tmpWidthBy16, tmpHeightBy16 := d.tmpHeightBy16, mode420 := d.mode420,
    bufStride := d.bufStride, bufAlloc := d.bufAlloc }

/-- The part of the decoder the invariant is about. -/
structure Store where
  decodeBuf : List (BitVec 8)
  prevYUV : List Nat
  bufAlloc : Nat
  yuvTile : Fin 768 → Nat
  vq : ColorCache

def store (d : Decoder) : Store :=
  { decodeBuf := d.decodeBuf, prevYUV := d.prevYUV, bufAlloc := d.bufAlloc,
    yuvTile := d.yuvTile, vq := d.vq }

/-- Both buffers have the allocated size, samples are bytes, and the cache
indices name one of its four slots. -/
structure Store.Valid (s : Store) : Prop where
  decodeBuf : s.decodeBuf.length = s.bufAlloc
  prevYUV : s.prevYUV.length = s.bufAlloc
  yuvTile : ∀ i, s.yuvTile i ≤ 255
  vqIndex : ∀ i, s.vq.Index i < 4
  vqBits : s.vq.BitMapBits ≤ 2

/-- The effect of a part of a macro block. -/
structure Step (b : Nat) (d d' : Decoder) : Prop where
  valid : d'.store.Valid
  geometry : d'.geometry = d.geometry
  txb : d'.txb = d.txb
  tyb : d'.tyb = d.tyb
  reader : d.toReader.Advances b d'.toReader

theorem Step.refl (hd : d.store.Valid) (hr : d.toReader.Ready) : Step 0 d d :=
  ⟨hd, rfl, rfl, rfl, .refl hr⟩

theorem Step.trans (h : Step b d d') (h' : Step b' d' d'') : Step (b + b') d d'' :=
  ⟨h'.valid, h'.geometry.trans h.geometry, h'.txb.trans h.txb, h'.tyb.trans h.tyb,
    h.reader.trans h'.reader⟩

theorem Step.mono (h : Step b d d') (hle : b' ≤ b) : Step b' d d' :=
  ⟨h.valid, h.geometry, h.txb, h.tyb, h.reader.mono hle⟩

/-! ### Colours -/

theorem calcRGBofY_le (i : Fin 256) : calcRGBofY i ≤ 300 := by
  unfold calcRGBofY descale
  omega

theorem calcRGBofCbToB_le (i : Fin 256) : calcRGBofCbToB i ≤ 300 := by
  unfold calcRGBofCbToB descale
  omega

theorem calcRGBofCbToG_le (i : Fin 256) : calcRGBofCbToG i ≤ 300 := by
  unfold calcRGBofCbToG descale
  omega

theorem calcRGBofCrToG_le (i : Fin 256) : calcRGBofCrToG i ≤ 300 := by
  unfold calcRGBofCrToG descale
  omega

theorem calcRGBofCrToR_le (i : Fin 256) : calcRGBofCrToR i ≤ 300 := by
  unfold calcRGBofCrToR descale
  omega

/-- The colours of a pixel made of bytes stay inside the range-limit table. -/
theorem colors_spec {yv cb cr : Nat} (hy : yv ≤ 255) (hcb : cb ≤ 255) (hcr : cr ≤ 255) :
    ∃ blue green red, colors yv cb cr = .ok (blue, green, red) ∧
      blue ≤ 900 ∧ green ≤ 900 ∧ red ≤ 900 := by
  have hY := calcRGBofY_le ⟨yv, by omega⟩
  have hB := calcRGBofCbToB_le ⟨cb, by omega⟩
  have hbG := calcRGBofCbToG_le ⟨cb, by omega⟩
  have hrG := calcRGBofCrToG_le ⟨cr, by omega⟩
  have hR := calcRGBofCrToR_le ⟨cr, by omega⟩
  simp only [colors, rd_ok (show yv < 256 by omega), rd_ok (show cb < 256 by omega),
    rd_ok (show cr < 256 by omega)]
  exact ⟨_, _, _, rfl, by omega, by omega, by omega⟩

theorem clampRange_ok {v : Int} (hv : v ≤ 900) : ∃ x, clampRange v = .ok x := by
  unfold clampRange
  split_ifs
  · rw [rd_ok (show (v + 256).toNat < 1408 by omega)]
    exact ⟨_, rfl⟩
  · exact ⟨0, rfl⟩

/-- A pixel inside the buffer is written. -/
theorem meets_putPixel {buf : List (BitVec 8)} {pi yv cb cr : Nat} (hy : yv ≤ 255)
    (hcb : cb ≤ 255) (hcr : cr ≤ 255) (hpi : pi + 2 < buf.length) :
    Meets (putPixel buf pi yv cb cr) (fun buf' => buf'.length = buf.length) F := by
  obtain ⟨blue, green, red, hcolors, hblue, hgreen, hred⟩ := colors_spec hy hcb hcr
  obtain ⟨x, hx⟩ := clampRange_ok hblue
  obtain ⟨y, hy⟩ := clampRange_ok hgreen
  obtain ⟨z, hz⟩ := clampRange_ok hred
  simp only [putPixel, hcolors]
  change Meets (clampRange blue >>= _) _ _
  rw [hx]
  change Meets (wrSlice Site.decodeBuf buf pi x >>= _) _ _
  rw [wrSlice_ok (by omega)]
  change Meets (clampRange green >>= _) _ _
  rw [hy]
  change Meets (wrSlice Site.decodeBuf _ (pi + 1) y >>= _) _ _
  rw [wrSlice_ok (by simp only [List.length_set]; omega)]
  change Meets (clampRange red >>= _) _ _
  rw [hz]
  change Meets (wrSlice Site.decodeBuf _ (pi + 2) z) _ _
  rw [wrSlice_ok (by simp only [List.length_set]; omega)]
  simp

/-- A pixel outside the buffer is not. -/
theorem faults_putPixel {buf : List (BitVec 8)} {pi yv cb cr : Nat}
    (hpi : buf.length ≤ pi + 2) : Faults (putPixel buf pi yv cb cr) := by
  apply Faults.bind_right
  rintro ⟨blue, green, red⟩ -
  apply Faults.bind_right
  intro x _
  apply Faults.bind_right
  intro buf₁ hbuf₁
  apply Faults.bind_right
  intro y _
  apply Faults.bind_right
  intro buf₂ hbuf₂
  apply Faults.bind_right
  intro z _
  have hlen₁ := length_of_wrSlice hbuf₁
  have hlen₂ := length_of_wrSlice hbuf₂
  exact ⟨_, wrSlice_error (by omega)⟩

/-! ### Conversion -/

/-- Only the contents of the two buffers change. -/
def Painted (d d' : Decoder) : Prop :=
  ∃ buf prev, d' = { d with decodeBuf := buf, prevYUV := prev } ∧
    buf.length = d.decodeBuf.length ∧ prev.length = d.prevYUV.length

theorem Painted.refl (d : Decoder) : Painted d d := ⟨d.decodeBuf, d.prevYUV, rfl, rfl, rfl⟩

theorem Painted.trans (h : Painted d d') (h' : Painted d' d'') : Painted d d'' := by
  obtain ⟨buf, prev, rfl, hbuf, hprev⟩ := h
  obtain ⟨buf', prev', rfl, hbuf', hprev'⟩ := h'
  exact ⟨buf', prev', rfl, hbuf'.trans hbuf, hprev'.trans hprev⟩

theorem Painted.valid (h : Painted d d') (hd : d.store.Valid) : d'.store.Valid := by
  obtain ⟨buf, prev, rfl, hbuf, hprev⟩ := h
  exact { hd with decodeBuf := hbuf.trans hd.decodeBuf, prevYUV := hprev.trans hd.prevYUV }

theorem Painted.toReader (h : Painted d d') : d'.toReader = d.toReader := by
  obtain ⟨buf, prev, rfl, -, -⟩ := h
  rfl

theorem Painted.step (h : Painted d d') (hd : d.store.Valid) (hr : d.toReader.Ready) :
    Step 0 d d' := by
  have hvalid := h.valid hd
  obtain ⟨buf, prev, rfl, -, -⟩ := h
  exact ⟨hvalid, rfl, rfl, rfl, .refl hr⟩

theorem meets_putPixel_length (buf : List (BitVec 8)) (pi yv cb cr : Nat) :
    Meets (putPixel buf pi yv cb cr) (fun buf' => buf'.length = buf.length) fun _ => True := by
  apply (Meets.trivial (colors yv cb cr)).bind
  rintro ⟨blue, green, red⟩ -
  apply (Meets.trivial (clampRange blue)).bind
  intro x _
  apply (meets_wrSlice_length _ buf pi x).bind
  intro buf₁ hbuf₁
  apply (Meets.trivial (clampRange green)).bind
  intro y _
  apply (meets_wrSlice_length _ buf₁ (pi + 1) y).bind
  intro buf₂ hbuf₂
  apply (Meets.trivial (clampRange red)).bind
  intro z _
  apply (meets_wrSlice_length _ buf₂ (pi + 2) z).imp
  intro buf₃ hbuf₃
  exact hbuf₃.trans (hbuf₂.trans hbuf₁)

/-- Nothing but the buffers changes, in bounds or not. -/
theorem painted_putVisible (d : Decoder) (pi yv cb cr : Nat) :
    Meets (d.putVisible pi yv cb cr) (Painted d) fun _ => True := by
  unfold putVisible
  split_ifs
  · apply (meets_putPixel_length d.decodeBuf pi yv cb cr).bind
    intro buf hbuf
    exact ⟨buf, d.prevYUV, rfl, hbuf, rfl⟩
  · apply (Meets.trivial (colors yv cb cr)).bind
    intro _ _
    exact .refl d

theorem meets_putVisible {pi yv cb cr : Nat} (hy : yv ≤ 255) (hcb : cb ≤ 255) (hcr : cr ≤ 255)
    (hpi : pi + 2 < d.decodeBuf.length) :
    Meets (d.putVisible pi yv cb cr) (Painted d) F := by
  apply (painted_putVisible d pi yv cb cr).combine (R := fun _ => True)
  unfold putVisible
  split_ifs
  · apply (meets_putPixel hy hcb hcr hpi).bind
    intro _ _
    exact True.intro
  · obtain ⟨blue, green, red, hcolors, -⟩ := colors_spec hy hcb hcr
    rw [hcolors]
    exact True.intro

theorem painted_pixel444 (off r c : Nat) (d : Decoder) :
    Meets (pixel444 off r c d) (Painted d) fun _ => True := by
  apply (meets_wrSlice_length _ d.prevYUV _ _).bind
  intro prev₁ hprev₁
  apply (meets_wrSlice_length _ prev₁ _ _).bind
  intro prev₂ hprev₂
  apply (meets_wrSlice_length _ prev₂ _ _).bind
  intro prev₃ hprev₃
  apply (painted_putVisible _ _ _ _ _).imp
  intro d' hd'
  have hprev : Painted d { d with prevYUV := prev₃ } :=
    ⟨d.decodeBuf, prev₃, rfl, rfl, hprev₃.trans (hprev₂.trans hprev₁)⟩
  exact hprev.trans hd'

theorem meets_pixel444 {off r c : Nat} (hd : d.store.Valid)
    (hfit : (off + r * d.realWidth + c) * 3 + 2 < d.bufAlloc) :
    Meets (pixel444 off r c d) (Painted d) F := by
  have hbuf : d.decodeBuf.length = d.bufAlloc := hd.decodeBuf
  have hlen : d.prevYUV.length = d.bufAlloc := hd.prevYUV
  apply (painted_pixel444 off r c d).combine (R := fun _ => True)
  unfold pixel444
  simp only
  rw [wrSlice_ok (by omega)]
  change Meets (wrSlice Site.prevYUV _ _ _ >>= _) _ _
  rw [wrSlice_ok (by simp only [List.length_set]; omega)]
  change Meets (wrSlice Site.prevYUV _ _ _ >>= _) _ _
  rw [wrSlice_ok (by simp only [List.length_set]; omega)]
  apply (meets_putVisible (hd.yuvTile _) (hd.yuvTile _) (hd.yuvTile _) _).imp
  · exact fun _ _ => True.intro
  · change _ < d.decodeBuf.length
    omega

theorem faults_pixel444 {off r c : Nat} (hd : d.store.Valid)
    (hfit : d.bufAlloc ≤ (off + r * d.realWidth + c) * 3 + 2) :
    Faults (pixel444 off r c d) := by
  have hlen : d.prevYUV.length = d.bufAlloc := hd.prevYUV
  apply Faults.bind_right
  intro prev₁ hprev₁
  apply Faults.bind_right
  intro prev₂ hprev₂
  have hlen₁ := length_of_wrSlice hprev₁
  have hlen₂ := length_of_wrSlice hprev₂
  rw [wrSlice_error (by omega)]
  exact ⟨_, rfl⟩

theorem painted_pixel420 (off r c : Nat) (d : Decoder) :
    Meets (pixel420 off r c d) (Painted d) fun _ => True := by
  apply (meets_putPixel_length d.decodeBuf _ _ _ _).bind
  intro buf hbuf
  exact ⟨buf, d.prevYUV, rfl, hbuf, rfl⟩

theorem meets_pixel420 {off r c : Nat} (hd : d.store.Valid)
    (hfit : (off + r * d.realWidth + c) * 3 + 2 < d.bufAlloc) :
    Meets (pixel420 off r c d) (Painted d) F := by
  have hbuf : d.decodeBuf.length = d.bufAlloc := hd.decodeBuf
  apply (meets_putPixel (hd.yuvTile _) (hd.yuvTile _) (hd.yuvTile _) (by omega)).bind
  intro buf hlen
  exact ⟨buf, d.prevYUV, rfl, hlen, rfl⟩

theorem faults_pixel420 {off r c : Nat} (hd : d.store.Valid)
    (hfit : d.bufAlloc ≤ (off + r * d.realWidth + c) * 3 + 2) :
    Faults (pixel420 off r c d) := by
  have hbuf : d.decodeBuf.length = d.bufAlloc := hd.decodeBuf
  exact (faults_putPixel (by omega)).bind _

theorem clamp255_le (v : Int) : clamp255 v ≤ 255 := by
  unfold clamp255
  split_ifs <;> omega

theorem painted_pixelPass2 (off r c : Nat) (d : Decoder) :
    Meets (pixelPass2 off r c d) (Painted d) fun _ => True := by
  apply (Meets.trivial _).bind
  intro py _
  apply (Meets.trivial _).bind
  intro pcb _
  apply (Meets.trivial _).bind
  intro pcr _
  exact painted_putVisible _ _ _ _ _

theorem meets_pixelPass2 {off r c : Nat} (hd : d.store.Valid)
    (hfit : (off + r * d.realWidth + c) * 3 + 2 < d.bufAlloc) :
    Meets (pixelPass2 off r c d) (Painted d) F := by
  have hbuf : d.decodeBuf.length = d.bufAlloc := hd.decodeBuf
  have hlen : d.prevYUV.length = d.bufAlloc := hd.prevYUV
  unfold pixelPass2
  simp only
  rw [rdSlice_ok (by omega), rdSlice_ok (by omega), rdSlice_ok (by omega)]
  exact meets_putVisible (clamp255_le _) (clamp255_le _) (clamp255_le _) (by omega)

theorem faults_pixelPass2 {off r c : Nat} (hd : d.store.Valid)
    (hfit : d.bufAlloc ≤ (off + r * d.realWidth + c) * 3 + 2) :
    Faults (pixelPass2 off r c d) := by
  have hlen : d.prevYUV.length = d.bufAlloc := hd.prevYUV
  apply Faults.bind_right
  intro py _
  apply Faults.bind_right
  intro pcb _
  rw [rdSlice_error (by omega)]
  exact ⟨_, rfl⟩

/-- A rectangle of pixels whose last one lies inside the buffers. -/
def RectFits (d : Decoder) (off rows cols : Nat) : Prop :=
  rows = 0 ∨ cols = 0 ∨ (off + (rows - 1) * d.realWidth + cols) * 3 ≤ d.bufAlloc

instance (d : Decoder) (off rows cols : Nat) : Decidable (d.RectFits off rows cols) :=
  inferInstanceAs (Decidable (_ ∨ _ ∨ _))

/-- Every pixel of the rectangle lies inside the buffers. -/
theorem RectFits.pixel {off rows cols r c : Nat} (hfit : d.RectFits off rows cols)
    (hr : r < rows) (hc : c < cols) : (off + r * d.realWidth + c) * 3 + 2 < d.bufAlloc := by
  have hrow : r * d.realWidth ≤ (rows - 1) * d.realWidth := Nat.mul_le_mul_right _ (by omega)
  rcases hfit with hfit | hfit | hfit
  · omega
  · omega
  · omega

/-- A pixel body whose only faults are pixels outside the buffers. -/
structure PixelBody (body : Nat → Nat → Nat → Decoder → Except Site Decoder) : Prop where
  painted : ∀ off r c d, Meets (body off r c d) (Painted d) fun _ => True
  inside : ∀ off r c d, d.store.Valid → (off + r * d.realWidth + c) * 3 + 2 < d.bufAlloc →
    Meets (body off r c d) (Painted d) fun _ => False
  outside : ∀ off r c d, d.store.Valid → d.bufAlloc ≤ (off + r * d.realWidth + c) * 3 + 2 →
    Faults (body off r c d)

theorem pixelBody_pixel444 : PixelBody pixel444 :=
  ⟨painted_pixel444, fun _ _ _ _ => meets_pixel444, fun _ _ _ _ => faults_pixel444⟩

theorem pixelBody_pixel420 : PixelBody pixel420 :=
  ⟨painted_pixel420, fun _ _ _ _ => meets_pixel420, fun _ _ _ _ => faults_pixel420⟩

theorem pixelBody_pixelPass2 : PixelBody pixelPass2 :=
  ⟨painted_pixelPass2, fun _ _ _ _ => meets_pixelPass2, fun _ _ _ _ => faults_pixelPass2⟩

variable {body : Nat → Nat → Nat → Decoder → Except Site Decoder} {off rows cols : Nat}

theorem PixelBody.meets_rect (hbody : PixelBody body) (hd : d.store.Valid)
    (hfit : d.RectFits off rows cols) :
    Meets (forRect (body off) rows cols d) (Painted d) fun _ => False := by
  apply meets_forRect (I := Painted d) (.refl d)
  intro r c s hr hc hs
  apply (hbody.inside off r c s (hs.valid hd) _).imp
  · intro s' hs'
    exact hs.trans hs'
  · obtain ⟨buf, prev, rfl, -, -⟩ := hs
    exact hfit.pixel hr hc

theorem PixelBody.faults_rect (hbody : PixelBody body) (hd : d.store.Valid)
    (hfit : ¬ d.RectFits off rows cols) : Faults (forRect (body off) rows cols d) := by
  unfold RectFits at hfit
  push Not at hfit
  obtain ⟨hrows, hcols, hlast⟩ := hfit
  apply faults_forRect (I := Painted d) (.refl d) (by omega) (by omega)
  · intro r c s hs
    apply (hbody.painted off r c s).imp
    intro s' hs'
    exact hs.trans hs'
  · intro s hs
    apply hbody.outside off _ _ s (hs.valid hd)
    obtain ⟨buf, prev, rfl, -, -⟩ := hs
    change d.bufAlloc ≤ (off + (rows - 1) * d.realWidth + (cols - 1)) * 3 + 2
    omega

/-! ### Tiles -/

/-- The last pixel of the tile at `(tx, ty)` lies inside the buffers. -/
def TileFits (d : Decoder) (tx ty : Nat) : Prop :=
  if d.mode420 = 0 then d.RectFits (d.off444 tx ty) 8 (d.limit444 tx)
  else d.RectFits (d.off420 tx ty) (d.rows420 ty) 16

/-- Second passes have a tile in 4:4:4 mode only. -/
def Pass2Fits (d : Decoder) (tx ty : Nat) : Prop := d.mode420 = 0 → d.TileFits tx ty

instance (d : Decoder) (tx ty : Nat) : Decidable (d.TileFits tx ty) :=
  inferInstanceAs (Decidable (if d.mode420 = 0 then d.RectFits (d.off444 tx ty) 8 (d.limit444 tx)
    else d.RectFits (d.off420 tx ty) (d.rows420 ty) 16))

instance (d : Decoder) (tx ty : Nat) : Decidable (d.Pass2Fits tx ty) :=
  inferInstanceAs (Decidable (_ → _))

variable {tx ty : Nat}

theorem meets_convertYUVtoRGB (hd : d.store.Valid) (hfit : d.TileFits tx ty) :
    Meets (d.convertYUVtoRGB tx ty) (Painted d) fun _ => False := by
  unfold TileFits at hfit
  unfold convertYUVtoRGB
  split_ifs with hmode
  · rw [if_pos hmode] at hfit
    exact pixelBody_pixel444.meets_rect hd hfit
  · rw [if_neg hmode] at hfit
    exact pixelBody_pixel420.meets_rect hd hfit

theorem faults_convertYUVtoRGB (hd : d.store.Valid) (hfit : ¬ d.TileFits tx ty) :
    Faults (d.convertYUVtoRGB tx ty) := by
  unfold TileFits at hfit
  unfold convertYUVtoRGB
  split_ifs with hmode
  · rw [if_pos hmode] at hfit
    exact pixelBody_pixel444.faults_rect hd hfit
  · rw [if_neg hmode] at hfit
    exact pixelBody_pixel420.faults_rect hd hfit

theorem meets_convertYUVToRGBPass2 (hd : d.store.Valid) (hfit : d.Pass2Fits tx ty) :
    Meets (d.convertYUVToRGBPass2 tx ty) (Painted d) fun _ => False := by
  unfold convertYUVToRGBPass2
  split_ifs with hmode
  · exact .refl d
  · have htile := hfit (by omega)
    rw [TileFits, if_pos (by omega)] at htile
    exact pixelBody_pixelPass2.meets_rect hd htile

theorem faults_convertYUVToRGBPass2 (hd : d.store.Valid) (hfit : ¬ d.Pass2Fits tx ty) :
    Faults (d.convertYUVToRGBPass2 tx ty) := by
  unfold Pass2Fits at hfit
  push Not at hfit
  obtain ⟨hmode, htile⟩ := hfit
  rw [TileFits, if_pos hmode] at htile
  rw [convertYUVToRGBPass2, if_neg (by omega)]
  exact pixelBody_pixelPass2.faults_rect hd htile

end Outband.Kvm.Codec.Decoder
