import Outband.Kvm.Codec.Placement
import Outband.Kvm.Codec.Totality

/-!
# Frames over the frames before them

The decode buffer is kept between frames. A macro block writes the pixels that its tile covers, and
what covers no pixel leaves the picture of the frame before in place. A pixel of the screen keeps
its colour over any number of frames of one size as long as no tile covers it.

## Implementation notes

`Kept` collects what a conversion goes by besides the samples. Everything in front of the
conversion keeps it, whether it is free of faults or not.
-/

namespace Outband.Kvm.Codec.Decoder

open Foundation

variable {d d' d'' d₀ s : Decoder} {h h' : FrameHeader} {recv : List (BitVec 32)} {q : Nat}

/-! ### Conversions -/

/-- A write of one pixel leaves the others. -/
theorem meets_putPixel_others (buf : List (BitVec 8)) (p yv cb cr : Nat) :
    Meets (putPixel buf (p * 3) yv cb cr)
      (fun buf' => ∀ q, q ≠ p → unitAt 3 buf' q = unitAt 3 buf q) fun _ => True := by
  have hwrite : ∀ (buf : List (BitVec 8)) (k : Fin 3) (x : BitVec 8),
      Meets (wrSlice Site.decodeBuf buf (p * 3 + k.val) x)
        (fun buf' => ∀ q, q ≠ p → unitAt 3 buf' q = unitAt 3 buf q) fun _ => True := by
    intro buf k x
    by_cases hlt : p * 3 + k.val < buf.length
    · apply (meets_wrSlice_unit k x hlt).imp
      rintro buf' ⟨-, hview⟩ q hq
      rw [hview, Function.update_of_ne hq]
    · rw [wrSlice_error (Nat.not_lt.mp hlt)]
      exact True.intro
  apply (Meets.trivial (colors yv cb cr)).bind
  rintro ⟨blue, green, red⟩ -
  apply (Meets.trivial (clampRange blue)).bind
  intro x _
  apply (hwrite buf 0 x).bind
  intro buf₁ h₁
  apply (Meets.trivial (clampRange green)).bind
  intro y _
  apply (hwrite buf₁ 1 y).bind
  intro buf₂ h₂
  apply (Meets.trivial (clampRange red)).bind
  intro z _
  apply (hwrite buf₂ 2 z).imp
  intro buf₃ h₃ q hq
  rw [h₃ q hq, h₂ q hq, h₁ q hq]

/-- Only the pixel at `p` may change. -/
def Others (p : Nat) (d d' : Decoder) : Prop :=
  ∀ q, q ≠ p → unitAt 3 d'.decodeBuf q = unitAt 3 d.decodeBuf q

theorem others_putVisible (d : Decoder) (p yv cb cr : Nat) :
    Meets (d.putVisible (p * 3) yv cb cr) (Others p d) fun _ => True := by
  unfold putVisible
  split_ifs
  · apply (meets_putPixel_others d.decodeBuf p yv cb cr).bind
    intro buf hbuf
    exact hbuf
  · apply (Meets.trivial (colors yv cb cr)).bind
    intro _ _ q _
    rfl

theorem others_pixel444 (off r c : Nat) (d : Decoder) :
    Meets (pixel444 off r c d) (Others (off + r * d.realWidth + c) d) fun _ => True := by
  apply (Meets.trivial _).bind
  intro prev₁ _
  apply (Meets.trivial _).bind
  intro prev₂ _
  apply (Meets.trivial _).bind
  intro prev₃ _
  exact others_putVisible { d with prevYUV := prev₃ } _ _ _ _

theorem others_pixel420 (off r c : Nat) (d : Decoder) :
    Meets (pixel420 off r c d) (Others (off + r * d.realWidth + c) d) fun _ => True := by
  apply (meets_putPixel_others d.decodeBuf _ _ _ _).bind
  intro buf hbuf
  exact hbuf

theorem others_pixelPass2 (off r c : Nat) (d : Decoder) :
    Meets (pixelPass2 off r c d) (Others (off + r * d.realWidth + c) d) fun _ => True := by
  apply (Meets.trivial _).bind
  intro py _
  apply (Meets.trivial _).bind
  intro pcb _
  apply (Meets.trivial _).bind
  intro pcr _
  exact others_putVisible d _ _ _ _

/-- A rectangle of pixels leaves those outside of it. -/
theorem others_rect {body : Nat → Nat → Nat → Decoder → Except Site Decoder}
    (hpainted : ∀ off r c d, Meets (body off r c d) (Painted d) fun _ => True)
    (hothers : ∀ off r c d,
      Meets (body off r c d) (Others (off + r * d.realWidth + c) d) fun _ => True)
    (d : Decoder) {off rows cols : Nat}
    (hq : ∀ r c, r < rows → c < cols → off + r * d.realWidth + c ≠ q) :
    Meets (forRect (body off) rows cols d)
      (fun d' => unitAt 3 d'.decodeBuf q = unitAt 3 d.decodeBuf q) fun _ => True := by
  have hloop : Meets (forRect (body off) rows cols d)
      (fun d' => Painted d d' ∧ unitAt 3 d'.decodeBuf q = unitAt 3 d.decodeBuf q)
      fun _ => True := by
    apply meets_forRect
    · exact ⟨.refl d, rfl⟩
    · rintro r c s hr hc ⟨hs, hview⟩
      apply ((hpainted off r c s).and (hothers off r c s)).imp
      rintro s' ⟨hs', hother⟩
      have hwidth : s.realWidth = d.realWidth := congrArg Geometry.realWidth hs.frame.1
      refine ⟨hs.trans hs', ?_⟩
      rw [hother q (hwidth.symm ▸ (hq r c hr hc).symm), hview]
  exact hloop.imp fun _ h => h.2

/-- A sample of the tile at `(tx, ty)` has the position `q` in the decode buffer. -/
def Covers (d : Decoder) (tx ty q : Nat) : Prop :=
  ∃ r c, r < d.tileRows ty ∧ c < d.tileColumns tx ∧ d.position tx ty r c = q

theorem position_of_mode {tx ty r c : Nat} :
    d.position tx ty r c =
      (if d.mode420 = 0 then d.off444 tx ty else d.off420 tx ty) + r * d.realWidth + c := rfl

theorem meets_convert_outside (d : Decoder) {tx ty : Nat} (hq : ¬ d.Covers tx ty q) :
    Meets (d.convertYUVtoRGB tx ty)
      (fun d' => unitAt 3 d'.decodeBuf q = unitAt 3 d.decodeBuf q) fun _ => True := by
  unfold convertYUVtoRGB
  split_ifs with hmode
  · apply others_rect painted_pixel444 others_pixel444 d
    intro r c hr hc heq
    refine hq ⟨r, c, ?_, ?_, ?_⟩
    · rwa [tileRows, if_pos hmode]
    · rwa [tileColumns, if_pos hmode]
    · rwa [position_of_mode, if_pos hmode]
  · apply others_rect painted_pixel420 others_pixel420 d
    intro r c hr hc heq
    refine hq ⟨r, c, ?_, ?_, ?_⟩
    · rwa [tileRows, if_neg hmode]
    · rwa [tileColumns, if_neg hmode]
    · rwa [position_of_mode, if_neg hmode]

theorem meets_pass2_outside (d : Decoder) {tx ty : Nat} (hq : ¬ d.Covers tx ty q) :
    Meets (d.convertYUVToRGBPass2 tx ty)
      (fun d' => unitAt 3 d'.decodeBuf q = unitAt 3 d.decodeBuf q) fun _ => True := by
  unfold convertYUVToRGBPass2
  split_ifs with hmode
  · rfl
  · have hmode : d.mode420 = 0 := not_not.mp hmode
    apply others_rect painted_pixelPass2 others_pixelPass2 d
    intro r c hr hc heq
    refine hq ⟨r, c, ?_, ?_, ?_⟩
    · rwa [tileRows, if_pos hmode]
    · rwa [tileColumns, if_pos hmode]
    · rwa [position_of_mode, if_pos hmode]

/-! ### What precedes a conversion -/

/-- Screen, tile and picture are the same. -/
structure Kept (d d' : Decoder) : Prop where
  decodeBuf : d'.decodeBuf = d.decodeBuf
  geometry : d'.geometry = d.geometry
  txb : d'.txb = d.txb
  tyb : d'.tyb = d.tyb

theorem Kept.refl (d : Decoder) : Kept d d := ⟨rfl, rfl, rfl, rfl⟩

theorem Kept.trans (h : Kept d d') (h' : Kept d' d'') : Kept d d'' :=
  ⟨h'.decodeBuf.trans h.decodeBuf, h'.geometry.trans h.geometry, h'.txb.trans h.txb,
    h'.tyb.trans h.tyb⟩

theorem Kept.bind {x : Except Site Decoder} {f : Decoder → Except Site Decoder}
    (h : Meets x (Kept d) fun _ => True) (hf : ∀ d', Meets (f d') (Kept d') fun _ => True) :
    Meets (x >>= f) (Kept d) fun _ => True := by
  apply h.bind
  intro d' hd'
  exact (hf d').imp fun d'' hd'' => hd'.trans hd''

theorem kept_forUp {body : Nat → Decoder → Except Site Decoder}
    (hbody : ∀ i s, Meets (body i s) (Kept s) fun _ => True) (n : Nat) (d : Decoder) :
    Meets (forUp body 0 n d) (Kept d) fun _ => True := by
  apply meets_forUp (I := fun _ => Kept d) (.refl d)
  intro i s _ _ hs
  exact (hbody i s).imp fun s' hs' => hs.trans hs'

theorem kept_unitY (d : Decoder) (u : Fin 6) (b : Fin 4) :
    Meets (d.unitY u b) (Kept d) fun _ => True := by
  apply (Meets.trivial _).bind
  rintro ⟨r, coeff, pred⟩ -
  exact ⟨rfl, rfl, rfl, rfl⟩

theorem kept_unitCb (d : Decoder) (u : Fin 6) (b : Fin 4) :
    Meets (d.unitCb u b) (Kept d) fun _ => True := by
  apply (Meets.trivial _).bind
  rintro ⟨r, coeff, pred⟩ -
  exact ⟨rfl, rfl, rfl, rfl⟩

theorem kept_unitCr (d : Decoder) (u : Fin 6) (b : Fin 4) :
    Meets (d.unitCr u b) (Kept d) fun _ => True := by
  apply (Meets.trivial _).bind
  rintro ⟨r, coeff, pred⟩ -
  exact ⟨rfl, rfl, rfl, rfl⟩

theorem kept_units444 (d : Decoder) (b : Fin 4) :
    Meets (d.units444 b) (Kept d) fun _ => True :=
  Kept.bind (kept_unitY d 0 b) fun d₁ => Kept.bind (kept_unitCb d₁ 1 (b + 1)) fun d₂ =>
    kept_unitCr d₂ 2 (b + 1)

theorem kept_units420 (d : Decoder) (b : Fin 4) :
    Meets (d.units420 b) (Kept d) fun _ => True :=
  Kept.bind (kept_unitY d 0 b) fun d₁ => Kept.bind (kept_unitY d₁ 1 b) fun d₂ =>
    Kept.bind (kept_unitY d₂ 2 b) fun d₃ => Kept.bind (kept_unitY d₃ 3 b) fun d₄ =>
      Kept.bind (kept_unitCb d₄ 4 (b + 1)) fun d₅ => kept_unitCr d₅ 5 (b + 1)

theorem kept_units (d : Decoder) (b : Fin 4) : Meets (d.units b) (Kept d) fun _ => True := by
  unfold units
  split_ifs
  · exact kept_units420 d b
  · exact kept_units444 d b

theorem kept_vqPixel (bits i : Nat) (d : Decoder) :
    Meets (vqPixel bits i d) (Kept d) fun _ => True := by
  apply (Meets.trivial _).bind
  intro sel _
  apply (Meets.trivial _).bind
  intro color _
  apply (Meets.trivial _).bind
  intro r _
  exact ⟨rfl, rfl, rfl, rfl⟩

theorem kept_vqPlanes (d : Decoder) : Meets d.vqPlanes (Kept d) fun _ => True := by
  unfold vqPlanes
  split_ifs
  · apply (Meets.trivial _).bind
    intro color _
    have hstore : ∀ (i : Nat) (s : Decoder),
        Meets (pure (s.storeColor i color) : Except Site Decoder) (Kept s) fun _ => True :=
      fun _ _ => ⟨rfl, rfl, rfl, rfl⟩
    exact kept_forUp hstore 64 d
  · exact kept_forUp (kept_vqPixel _) 64 d

theorem kept_updateReadBuf (d : Decoder) (b : Nat) :
    Meets (d.updateReadBuf b) (Kept d) fun _ => True := by
  apply (Meets.trivial _).bind
  intro r _
  exact ⟨rfl, rfl, rfl, rfl⟩

theorem kept_readSlot (i : Nat) (d : Decoder) : Meets (readSlot i d) (Kept d) fun _ => True := by
  apply (Meets.trivial _).bind
  intro r0 _
  apply (Meets.trivial _).bind
  intro indices _
  apply (Meets.trivial _).bind
  intro colors _
  apply (kept_updateReadBuf _ _).imp
  exact fun d' hd' => ⟨hd'.decodeBuf, hd'.geometry, hd'.txb, hd'.tyb⟩

theorem kept_readVQHeader (d : Decoder) (bits count : Nat) :
    Meets (d.readVQHeader bits count) (Kept d) fun _ => True := by
  apply (kept_forUp kept_readSlot count _).imp
  exact fun d' hd' => ⟨hd'.decodeBuf, hd'.geometry, hd'.txb, hd'.tyb⟩

/-! ### Macro blocks -/

/-- The macro block at the head of the stream has a tile that covers `q`. -/
def Touches (d : Decoder) (q : Nat) : Prop :=
  ∃ kind skip, kindOf d.code = some (kind, skip) ∧
    (d.placed skip).Covers (d.placed skip).txb (d.placed skip).tyb q

theorem covers_of_geometry (hg : d'.geometry = d.geometry) (tx ty q : Nat) :
    d'.Covers tx ty q ↔ d.Covers tx ty q := by
  have hwidth : d'.width = d.width := congrArg Geometry.width hg
  have hheight : d'.height = d.height := congrArg Geometry.height hg
  have hreal : d'.realWidth = d.realWidth := congrArg Geometry.realWidth hg
  have hmode : d'.mode420 = d.mode420 := congrArg Geometry.mode420 hg
  simp only [Covers, tileRows, tileColumns, rows420, limit444, position, tileStart, off444, off420,
    hwidth, hheight, hreal, hmode]

/-- What a computation does to the pixel at `q`. -/
def Leaves (q : Nat) (d d' : Decoder) : Prop := unitAt 3 d'.decodeBuf q = unitAt 3 d.decodeBuf q

theorem Kept.leaves (h : Kept d d') : Leaves q d d' := by
  rw [Leaves, h.decodeBuf]

/-- The body of a macro block leaves the pixels that its tile does not cover. -/
theorem leaves_decompress (d : Decoder) (kind : Kind) (hq : ¬ d.Covers d.txb d.tyb q) :
    Meets (d.decompress kind) (Leaves q d) fun _ => True := by
  cases kind with
  | jpeg b =>
      apply (kept_units d b).bind
      intro d₁ h₁
      apply (meets_convert_outside d₁ ((covers_of_geometry h₁.geometry _ _ q).not.mpr hq)).imp
      exact fun d₂ h₂ => h₂.trans h₁.leaves
  | pass2 b =>
      apply (kept_units444 d b).bind
      intro d₁ h₁
      apply (meets_pass2_outside d₁ ((covers_of_geometry h₁.geometry _ _ q).not.mpr hq)).imp
      exact fun d₂ h₂ => h₂.trans h₁.leaves
  | vq bits count =>
      apply (kept_readVQHeader d bits count).bind
      intro d₁ h₁
      apply (kept_vqPlanes d₁).bind
      intro d₂ h₂
      have h := h₁.trans h₂
      rw [h₁.txb, h₁.tyb]
      apply (meets_convert_outside d₂ ((covers_of_geometry h.geometry _ _ q).not.mpr hq)).imp
      exact fun d₃ h₃ => h₃.trans h.leaves

theorem leaves_moveBlockIndex (d : Decoder) : d.moveBlockIndex.decodeBuf = d.decodeBuf := by
  unfold moveBlockIndex
  simp only
  split_ifs <;> rfl

theorem leaves_tileBlock (hr : d.toReader.Ready) {kind : Kind} {skip : Bool}
    (hq : ¬ (d.placed skip).Covers (d.placed skip).txb (d.placed skip).tyb q) :
    Meets (d.tileBlock kind skip) (Leaves q d) fun _ => True := by
  rw [tileBlock, readPosition_eq hr]
  have hplaced : (d.placed skip).decodeBuf = d.decodeBuf := by
    cases skip <;> rfl
  apply (kept_updateReadBuf (d.placed skip) _).bind
  intro d₁ h₁
  have hcovers := (covers_of_geometry h₁.geometry _ _ q).not.mpr hq
  rw [← h₁.txb, ← h₁.tyb] at hcovers
  apply (leaves_decompress d₁ kind hcovers).bind
  intro d₂ h₂
  have hbuf : d₁.decodeBuf = d.decodeBuf := h₁.decodeBuf.trans hplaced
  rw [Leaves, hbuf] at h₂
  exact (congrArg (unitAt 3 · q) (leaves_moveBlockIndex d₂)).trans h₂

theorem leaves_unknownBlock (d : Decoder) :
    Meets d.unknownBlock (Leaves q d) fun _ => True := by
  apply (kept_updateReadBuf d 3).bind
  intro d₁ h₁
  exact (congrArg (unitAt 3 · q) (leaves_moveBlockIndex d₁)).trans h₁.leaves

/-- One round of the loop. -/
theorem leaves_macroBlock {cw : Int} (hr : d.toReader.Ready) (hq : ¬ d.Touches q) :
    Meets (d.macroBlock cw) (Sum.elim (Leaves q d) (Leaves q d)) fun _ => True := by
  have hcontinue : ∀ d', Leaves q d d' →
      Sum.elim (Leaves q d) (Leaves q d) (d'.continueBelow cw) := by
    intro d' hd'
    unfold continueBelow
    split_ifs
    · exact hd'
    · exact hd'
  rw [macroBlock_eq hr]
  cases hkind : kindOf d.code with
  | some block =>
      obtain ⟨kind, skip⟩ := block
      apply (leaves_tileBlock hr fun hcovers => hq ⟨kind, skip, hkind, hcovers⟩).bind
      exact hcontinue
  | none =>
      by_cases hend : d.code = 9
      · simp only [if_pos hend]
        exact Eq.refl (unitAt 3 d.decodeBuf q)
      · simp only [if_neg hend]
        apply (leaves_unknownBlock d).bind
        exact hcontinue

/-! ### Frames -/

/-- Two headers of one size and mode. -/
structure SameScreen (h h' : FrameHeader) : Prop where
  destX : h'.destX = h.destX
  destY : h'.destY = h.destY
  mode420 : h'.mode420 = h.mode420

theorem SameScreen.layout {g : Geometry} (hsame : SameScreen h h') (hg : Layout h g) :
    Layout h' g := by
  have hgrid : gridOf h' = gridOf h := by
    rw [gridOf, gridOf, hsame.mode420]
  constructor
  · rw [hgrid, hsame.destX, hg.width]
  · rw [hgrid, hsame.destY, hg.height]
  · rw [hsame.destX, hg.realWidth]
  · rw [hsame.destY, hg.realH]
  · exact hg.tmpWidthBy16
  · exact hg.tmpHeightBy16
  · rw [hsame.mode420, hg.mode420]
  · exact hg.bufStride
  · exact hg.alloc

/-- Buffers of the right size are used again. -/
theorem decodeBuf_ensureBuffers (hd : Layout h d.geometry) :
    (d.setGeometry h).ensureBuffers.decodeBuf = d.decodeBuf := by
  have halloc : d.width * d.height * 3 ≤ d.bufAlloc := hd.alloc
  have hwidth : d.width = roundUp h.destX (gridOf h) := hd.width
  have hheight : d.height = roundUp h.destY (gridOf h) := hd.height
  rw [hwidth, hheight] at halloc
  have henough : ¬ (d.setGeometry h).bufAlloc <
      (d.setGeometry h).width * (d.setGeometry h).height * 3 := Nat.not_lt.mpr halloc
  simp only [ensureBuffers, if_neg henough]
  rfl

theorem decodeBuf_of_prepare (h₀ : d.prepare h recv = .ok d₀) :
    d₀.decodeBuf = (d.setGeometry h).ensureBuffers.decodeBuf := by
  obtain ⟨⟨d₁, recv₁⟩, hdecrypt, hrest⟩ := exists_of_bind_ok h₀
  obtain ⟨d₂, hload, heq⟩ := exists_of_bind_ok hrest
  cases heq
  have hstore := ((meets_decryptPayload (F := fun _ => True) _ h recv).of_eq_ok hdecrypt).1
  by_cases hsel : SelectorsFit h
  · obtain ⟨qt, hqt⟩ := loadQuantizationTables_ok (d := d₁) hsel
    rw [hqt] at hload
    cases hload
    exact congrArg Store.decodeBuf hstore
  · obtain ⟨e, he⟩ := faults_loadQuantizationTables (d := d₁) hsel
    rw [hload] at he
    cases he

/-- No tile of the frame covers `q`. -/
def Quiet (d : Decoder) (h : FrameHeader) (recv : List (BitVec 32)) (q : Nat) : Prop :=
  ∀ s, Heads d h recv s → ¬ s.Touches q

theorem laid_of_prepare (hd : d.store.Valid) (h₀ : d.prepare h recv = .ok d₀) : Laid h d₀ := by
  refine ⟨(prepared_of_prepare hd h₀).valid, ?_⟩
  rw [geometry_of_prepare h₀]
  exact layout_ensureBuffers d h

/-- A payload of less than two words has no macro blocks. -/
theorem loop_of_decode {fuel : Nat} (hrun : d.decode fuel h recv = some (.ok d')) :
    ∃ d₀, d.prepare h recv = .ok d₀ ∧ (d' = d₀ ∨ 2 ≤ d₀.recv.length ∧
      Loop.Returns (macroBlock (compressWords h)) d₀ (.ok d')) := by
  unfold decode at hrun
  cases hprep : d.prepare h recv with
  | error e =>
      rw [hprep] at hrun
      cases hrun
  | ok d₀ =>
      refine ⟨d₀, rfl, ?_⟩
      rw [hprep] at hrun
      by_cases hlen : d₀.recv.length < 2
      · simp only [if_pos hlen] at hrun
        cases hrun
        exact .inl rfl
      · simp only [if_neg hlen] at hrun
        exact .inr ⟨Nat.not_lt.mp hlen, fuel, hrun⟩

theorem laid_of_decode {fuel : Nat} (hd : d.store.Valid)
    (hrun : d.decode fuel h recv = some (.ok d')) : Laid h d' := by
  obtain ⟨d₀, hprep, rfl | ⟨hlen, hreturns⟩⟩ := loop_of_decode hrun
  · exact laid_of_prepare hd hprep
  · have h₀ := prepared_of_prepare hd hprep
    have hround := round_of_returns h₀.valid (h₀.ready hlen) hreturns
    exact (laid_of_prepare hd hprep).of_geometry hround.valid hround.geometry

/-- Decoding leaves the pixels that no tile covers as they are after the preparation. -/
theorem leaves_decode {fuel : Nat} (hd : d.store.Valid) (hquiet : d.Quiet h recv q)
    (hrun : d.decode fuel h recv = some (.ok d')) :
    ∃ d₀, d.prepare h recv = .ok d₀ ∧ Leaves q d₀ d' := by
  obtain ⟨d₀, hprep, rfl | ⟨hlen, hreturns⟩⟩ := loop_of_decode hrun
  · exact ⟨_, hprep, rfl⟩
  · have h₀ := prepared_of_prepare hd hprep
    have hready := h₀.ready hlen
    refine ⟨d₀, hprep, ?_⟩
    apply hreturns.meets_visits (I := Leaves q d₀) (F := fun _ => True) _ rfl
    intro s hvisits hs
    have hsound := round_of_visits h₀.valid hready hvisits
    have hhead := hquiet s ⟨d₀, hprep, hlen, hvisits⟩
    apply (leaves_macroBlock hsound.reader.ready hhead).imp
    rintro (s' | s') hs'
    · exact hs'.trans hs
    · exact hs'.trans hs

/-! ### Runs of frames -/

variable {frame : List (BitVec 8)} {f : Frame} {p : Nat × Nat}

/-- An accepted frame is answered with the picture of the decoder after it. -/
theorem Accepted.exists_decode {out : Except DecodeError Frame} (hacc : Accepted frame h recv)
    (hdecodes : Decodes d frame (.ok (d', out))) :
    ∃ fuel f, d.decode fuel h recv = some (.ok d') ∧ d'.toFrame = .ok f ∧ out = .ok f := by
  obtain ⟨fuel, hrun⟩ := hdecodes
  rw [hacc.decode_eq, Option.map_eq_some_iff] at hrun
  obtain ⟨x, hdecode, hcopy⟩ := hrun
  obtain ⟨d₁, rfl, hrest⟩ := exists_of_bind_ok hcopy
  obtain ⟨f, hf, heq⟩ := exists_of_bind_ok hrest
  cases heq
  exact ⟨fuel, f, hdecode, hf, rfl⟩

/-- The position of a pixel of the screen in the decode buffer. -/
def bufferIndex (h : FrameHeader) (p : Nat × Nat) : Nat :=
  p.2 * (if h.mode420 = 0 then h.destX else roundUp h.destX (gridOf h)) + p.1

theorem Laid.bufferIndex_eq (hd : Laid h d) (p : Nat × Nat) :
    bufferIndex h p = p.2 * d.bufStride + p.1 := by
  have hstride : d.bufStride = if d.mode420 = 0 then d.realWidth else d.width :=
    hd.layout.bufStride
  have hreal : d.realWidth = h.destX := hd.layout.realWidth
  have hwidth : d.width = roundUp h.destX (gridOf h) := hd.layout.width
  have hmode : d.mode420 = h.mode420 := hd.layout.mode420
  rw [bufferIndex, hstride, hreal, hwidth, hmode]

/-- The next frame of a stream, seen from a pixel of the screen: one of the same size with no
tile over the pixel, or one that is rejected and shows nothing new. -/
inductive Delta (h : FrameHeader) (p : Nat × Nat) : Decoder × Frame → Decoder × Frame → Prop
  | quiet {d d' : Decoder} {f f' : Frame} {frame : List (BitVec 8)} {h' : FrameHeader}
      {recv : List (BitVec 32)} (hacc : Accepted frame h' recv) (hsame : SameScreen h h')
      (hquiet : d.Quiet h' recv (bufferIndex h p))
      (hdecodes : Decodes d frame (.ok (d', .ok f'))) : Delta h p (d, f) (d', f')
  | rejected {d d' : Decoder} {f : Frame} {frame : List (BitVec 8)} {e : DecodeError}
      (hdecodes : Decodes d frame (.ok (d', .error e))) : Delta h p (d, f) (d', f)

/-- The picture is the one of the decoder. -/
structure Showing (h : FrameHeader) (s : Decoder × Frame) : Prop where
  laid : Laid h s.1
  toFrame : s.1.toFrame = .ok s.2

theorem Showing.pixel_eq {s : Decoder × Frame} (hs : Showing h s)
    (hp : p.1 < h.destX ∧ p.2 < h.destY) :
    s.2.pixel p = swapped (unitAt 3 s.1.decodeBuf (bufferIndex h p)) := by
  have hreal : s.1.realWidth = h.destX := hs.laid.layout.realWidth
  have hrealH : s.1.realH = h.destY := hs.laid.layout.realH
  have hscreen : s.1.OnScreen p := by
    rw [OnScreen, hreal, hrealH]
    exact hp
  rw [hs.laid.pixel_eq hs.toFrame hscreen, hs.laid.bufferIndex_eq]

theorem SameScreen.symm (hsame : SameScreen h h') : SameScreen h' h :=
  ⟨hsame.destX.symm, hsame.destY.symm, hsame.mode420.symm⟩

/-- One frame. -/
theorem Delta.keeps {s s' : Decoder × Frame} (hstep : Delta h p s s') (hs : Showing h s) :
    Showing h s' ∧ Leaves (bufferIndex h p) s.1 s'.1 := by
  cases hstep with
  | quiet hacc hsame hquiet hdecodes =>
      obtain ⟨hlaid, -⟩ := hs
      obtain ⟨fuel, f, hrun, hf, heq⟩ := hacc.exists_decode hdecodes
      cases heq
      obtain ⟨d₀, hprep, hleaves⟩ := leaves_decode hlaid.valid hquiet hrun
      have hlaid' := laid_of_decode hlaid.valid hrun
      refine ⟨⟨⟨hlaid'.valid, hsame.symm.layout hlaid'.layout⟩, hf⟩, ?_⟩
      have hbuf := decodeBuf_of_prepare hprep
      rw [decodeBuf_ensureBuffers (hsame.layout hlaid.layout)] at hbuf
      rw [Leaves, hbuf] at hleaves
      exact hleaves
  | @rejected d d' f frame e hdecodes =>
      rcases accepted_or_rejected frame with ⟨h', recv, hacc⟩ | ⟨e', hrejected⟩
      · obtain ⟨fuel, f, -, -, heq⟩ := hacc.exists_decode hdecodes
        cases heq
      · obtain ⟨fuel, hrun⟩ := hdecodes
        rw [hrejected] at hrun
        cases hrun
        exact ⟨hs, rfl⟩

theorem keeps_of_run {s s' : Decoder × Frame} (hrun : Relation.ReflTransGen (Delta h p) s s')
    (hs : Showing h s) : Showing h s' ∧ Leaves (bufferIndex h p) s.1 s'.1 := by
  induction hrun with
  | refl => exact ⟨hs, rfl⟩
  | tail _ hstep ih =>
      obtain ⟨hshowing, hleaves⟩ := hstep.keeps ih.1
      exact ⟨hshowing, hleaves.trans ih.2⟩

/-- A pixel keeps its colour through any number of frames of one size and mode that have no
tile over it, whatever else they and the rejected frames between them hold. -/
theorem pixel_kept {d₁ d₂ : Decoder} {f₁ f₂ : Frame} (hd : Reachable d)
    (hacc : Accepted frame h recv) (hfirst : Decodes d frame (.ok (d₁, .ok f₁)))
    (hrun : Relation.ReflTransGen (Delta h p) (d₁, f₁) (d₂, f₂))
    (hp : p.1 < h.destX ∧ p.2 < h.destY) : f₂.pixel p = f₁.pixel p := by
  obtain ⟨fuel, f, hdecode, hf, heq⟩ := hacc.exists_decode hfirst
  cases heq
  have hshowing : Showing h (d₁, f₁) := ⟨laid_of_decode hd.valid hdecode, hf⟩
  obtain ⟨hshowing', hleaves⟩ := keeps_of_run hrun hshowing
  rw [hshowing'.pixel_eq hp, hshowing.pixel_eq hp]
  exact congrArg swapped hleaves

/-- The frame is decoded by every decoder that other frames leave behind. -/
theorem exists_decodes_blockFrame (hd : Reachable d) :
    ∃ d' f, Decodes d blockFrame (.ok (d', .ok f)) := by
  have hvalid := hd.valid
  obtain ⟨d', out, hdecodes, -⟩ := total_of_frameSafe hvalid (frameSafe_blockFrame hvalid)
    (frameBounded_blockFrame hvalid)
  obtain ⟨fuel, f, -, -, rfl⟩ := accepted_blockFrame.exists_decode hdecodes
  exact ⟨d', f, hdecodes⟩

/-- Its block has the left tile, eight pixels wide and high. -/
theorem AtBlock.touches_iff (hd : AtBlock [] d) (q : Nat) :
    d.Touches q ↔ q / 16 < 8 ∧ q % 16 < 8 := by
  have hmode : d.mode420 = 0 := hd.layout.mode420
  have hreal : d.realWidth = 16 := hd.layout.realWidth
  have hcolumns : d.tileColumns 0 = 8 := by
    rw [tileColumns, if_pos hmode, limit444, hreal]
    decide
  have hrows : d.tileRows 0 = 8 := if_pos hmode
  have hposition (r c : Nat) : d.position 0 0 r c = r * 16 + c := by
    rw [position_of_mode, if_pos hmode, off444, hreal]
    omega
  have hcovers : d.Touches q ↔ d.Covers 0 0 q := by
    rw [Touches, hd.code]
    constructor
    · rintro ⟨kind, skip, hkind, hcovers⟩
      cases hkind
      change d.Covers d.txb d.tyb q at hcovers
      rwa [hd.txb, hd.tyb] at hcovers
    · intro hcovers
      refine ⟨.jpeg 0, false, rfl, ?_⟩
      change d.Covers d.txb d.tyb q
      rwa [hd.txb, hd.tyb]
  rw [hcovers]
  simp only [Covers, hcolumns, hrows, hposition]
  constructor
  · rintro ⟨r, c, hr, hc, rfl⟩
    omega
  · rintro ⟨hr, hc⟩
    exact ⟨q / 16, q % 16, hr, hc, by omega⟩

theorem quiet_blockFrame (hd : d.store.Valid) (hq : ¬ (q / 16 < 8 ∧ q % 16 < 8)) :
    d.Quiet blockHeader blockWords q := by
  intro s hs htouches
  rcases (heads_blockFrame hd hs).2 with hblock | hend
  · exact hq ((hblock.touches_iff q).mp htouches)
  · obtain ⟨kind, skip, hkind, -⟩ := htouches
    rw [hend] at hkind
    cases hkind

/-- A pixel of the right tile through a frame that is rejected and one that draws the left tile. -/
theorem pixel_kept_block : ∃ d₁ f₁ d₂ f₂, Decodes New blockFrame (.ok (d₁, .ok f₁)) ∧
    Decodes d₁ [] (.ok (d₁, .error (.frameTooShort 0))) ∧
    (∃ s, d₁.Heads blockHeader blockWords s ∧ s.Touches 0) ∧
    Decodes d₁ blockFrame (.ok (d₂, .ok f₂)) ∧ f₂.pixel (10, 3) = f₁.pixel (10, 3) := by
  obtain ⟨d₁, f₁, hfirst⟩ := exists_decodes_blockFrame (d := New) .refl
  have hd₁ : Reachable d₁ := .tail .refl ⟨_, _, hfirst⟩
  have hrejected : Decodes d₁ [] (.ok (d₁, .error (.frameTooShort 0))) := ⟨0, rfl⟩
  obtain ⟨d₂, f₂, hsecond⟩ := exists_decodes_blockFrame hd₁
  obtain ⟨s, hs, hblock⟩ := exists_head_blockFrame hd₁.valid
  refine ⟨d₁, f₁, d₂, f₂, hfirst, hrejected, ⟨s, hs, (hblock.touches_iff 0).mpr (by decide)⟩,
    hsecond, ?_⟩
  have hquiet := quiet_blockFrame (q := bufferIndex blockHeader (10, 3)) hd₁.valid (by decide)
  exact pixel_kept .refl accepted_blockFrame hfirst
    (.tail (.single (.rejected hrejected))
      (.quiet accepted_blockFrame ⟨rfl, rfl, rfl⟩ hquiet hsecond))
    (by decide)

end Outband.Kvm.Codec.Decoder
