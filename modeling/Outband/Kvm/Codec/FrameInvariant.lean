import Outband.Kvm.Codec.Frame
import Outband.Kvm.Codec.MacroBlock

/-!
# Decoders between frames

A decoder is used for many frames. `Reachable` collects the decoders that any
sequence of earlier frames can leave behind, and every one of them satisfies the
invariant of the buffers. What precedes the macro-block loop fails only at the
table selectors of the header, and what follows it never does.
-/

namespace Outband.Kvm.Codec

open Foundation

variable {F : Site → Prop}

theorem Rc4State.meets_rc4Crypt (s : Rc4State) {buf : List (BitVec 32)} {n : Nat}
    (hn : n ≤ buf.length) :
    Meets (s.rc4Crypt buf n) (fun out => out.2.length = buf.length) F := by
  apply meets_forUp (I := fun _ (out : Rc4State × List (BitVec 32)) =>
    out.2.length = buf.length)
  · rfl
  · rintro i ⟨s', buf'⟩ - hi (hlen : buf'.length = buf.length)
    change Meets (rdSlice Site.recv buf' i >>= _) _ _
    rw [rdSlice_ok (by omega)]
    change Meets (wrSlice Site.recv buf' i _ >>= _) _ _
    rw [wrSlice_ok (by omega)]
    simpa using hlen

theorem le_roundUp {v n : Nat} (hn : 0 < n) : v ≤ roundUp v n := by
  have := Nat.mod_lt v hn
  unfold roundUp
  split_ifs <;> omega

theorem roundUp_lt {v n : Nat} (hn : 0 < n) : roundUp v n < v + n := by
  have := Nat.mod_lt v hn
  unfold roundUp
  split_ifs <;> omega

namespace Decoder

variable {d d' : Decoder} {h : FrameHeader} {recv : List (BitVec 32)}

/-! ### Before the loop -/

/-- The buffers hold the screen of the frame. -/
structure ScreenFits (h : FrameHeader) (g : Geometry) : Prop where
  realWidth : g.realWidth = h.destX
  realH : g.realH = h.destY
  stride : g.realWidth ≤ g.bufStride
  alloc : g.realH * g.bufStride * 3 ≤ g.bufAlloc

theorem valid_setGeometry (hd : d.store.Valid) : (d.setGeometry h).store.Valid :=
  { hd with vqIndex := fun i => i.isLt }

theorem valid_ensureBuffers (hd : d.store.Valid) : d.ensureBuffers.store.Valid := by
  by_cases halloc : d.bufAlloc < d.width * d.height * 3
  · simp only [ensureBuffers, if_pos halloc]
    exact { hd with decodeBuf := List.length_replicate, prevYUV := List.length_replicate }
  · simp only [ensureBuffers, if_neg halloc]
    exact hd

/-- The tiles of 4:2:0 mode are twice as wide and high. -/
def gridOf (h : FrameHeader) : Nat := if h.mode420 = 1 then 16 else 8

/-- Screen, grid and buffers as the header of a frame asks for them. -/
structure Layout (h : FrameHeader) (g : Geometry) : Prop where
  width : g.width = roundUp h.destX (gridOf h)
  height : g.height = roundUp h.destY (gridOf h)
  realWidth : g.realWidth = h.destX
  realH : g.realH = h.destY
  tmpWidthBy16 : g.tmpWidthBy16 = g.width
  tmpHeightBy16 : g.tmpHeightBy16 = g.height
  mode420 : g.mode420 = h.mode420
  bufStride : g.bufStride = if g.mode420 = 0 then g.realWidth else g.width
  alloc : g.width * g.height * 3 ≤ g.bufAlloc

theorem layout_ensureBuffers (d : Decoder) (h : FrameHeader) :
    Layout h (d.setGeometry h).ensureBuffers.geometry := by
  by_cases halloc : (d.setGeometry h).bufAlloc <
      (d.setGeometry h).width * (d.setGeometry h).height * 3
  · simp only [ensureBuffers, if_pos halloc]
    exact ⟨rfl, rfl, rfl, rfl, rfl, rfl, rfl, rfl, Nat.le_refl _⟩
  · simp only [ensureBuffers, if_neg halloc]
    exact ⟨rfl, rfl, rfl, rfl, rfl, rfl, rfl, rfl, Nat.not_lt.mp halloc⟩

theorem Layout.screenFits {g : Geometry} (hg : Layout h g) : ScreenFits h g := by
  have hgrid : 0 < gridOf h := by
    unfold gridOf
    split_ifs <;> decide
  have hwidth : g.realWidth ≤ g.width := by
    rw [hg.width, hg.realWidth]
    exact le_roundUp hgrid
  have hheight : g.realH ≤ g.height := by
    rw [hg.height, hg.realH]
    exact le_roundUp hgrid
  have hstride : g.realWidth ≤ g.bufStride ∧ g.bufStride ≤ g.width := by
    rw [hg.bufStride]
    split_ifs
    · exact ⟨Nat.le_refl _, hwidth⟩
    · exact ⟨hwidth, Nat.le_refl _⟩
  refine ⟨hg.realWidth, hg.realH, hstride.1, ?_⟩
  calc
    g.realH * g.bufStride * 3 ≤ g.height * g.width * 3 :=
      Nat.mul_le_mul_right 3 (Nat.mul_le_mul hheight hstride.2)
    _ = g.width * g.height * 3 := by rw [Nat.mul_comm g.height]
    _ ≤ g.bufAlloc := hg.alloc

theorem screenFits_setGeometry (d : Decoder) (h : FrameHeader) :
    ScreenFits h (d.setGeometry h).ensureBuffers.geometry :=
  (layout_ensureBuffers d h).screenFits

theorem meets_decryptPayload (d : Decoder) (h : FrameHeader) (recv : List (BitVec 32)) :
    Meets (d.decryptPayload h recv)
      (fun out => out.1.store = d.store ∧ out.1.geometry = d.geometry ∧
        out.2.length = recv.length) F := by
  by_cases hrc4 : h.rc4Enable = 1
  · rw [decryptPayload, if_pos hrc4]
    apply (Rc4State.meets_rc4Crypt _ (Nat.min_le_right _ _)).bind
    rintro ⟨s, recv'⟩ hlen
    exact ⟨rfl, rfl, hlen⟩
  · rw [decryptPayload, if_neg hrc4]
    exact ⟨rfl, rfl, rfl⟩

/-- Both table selectors name one of the eight tables. -/
def SelectorsFit (h : FrameHeader) : Prop :=
  h.jpegTableSelector < 8 ∧ h.advanceTableSelector < 8

instance (h : FrameHeader) : Decidable (SelectorsFit h) :=
  inferInstanceAs (Decidable (h.jpegTableSelector < 8 ∧ h.advanceTableSelector < 8))

theorem chrominance_ok {selector : Nat} (hsel : selector < 8) :
    ∃ table, chrominance h selector = .ok table := by
  unfold chrominance
  split_ifs
  · exact ⟨_, rdSlice_ok (show selector < tblY.length from hsel)⟩
  · exact ⟨_, rdSlice_ok (show selector < tblUV.length from hsel)⟩

theorem loadQuantizationTables_ok (hsel : SelectorsFit h) :
    ∃ qt, d.loadQuantizationTables h = .ok { d with qt := qt } := by
  obtain ⟨uv, huv⟩ := chrominance_ok (h := h) hsel.1
  obtain ⟨uv2, huv2⟩ := chrominance_ok (h := h) hsel.2
  unfold loadQuantizationTables
  rw [rdSlice_ok (show h.jpegTableSelector < tblY.length from hsel.1),
    rdSlice_ok (show h.advanceTableSelector < tblY.length from hsel.2), huv, huv2]
  exact ⟨_, rfl⟩

theorem faults_loadQuantizationTables (hsel : ¬ SelectorsFit h) :
    Faults (d.loadQuantizationTables h) := by
  unfold loadQuantizationTables
  by_cases hfirst : h.jpegTableSelector < 8
  · apply Faults.bind_right
    intro y _
    apply Faults.bind_right
    intro uv _
    have hsecond : tblY.length ≤ h.advanceTableSelector := by
      change 8 ≤ h.advanceTableSelector
      unfold SelectorsFit at hsel
      omega
    rw [rdSlice_error hsecond]
    exact ⟨_, rfl⟩
  · rw [rdSlice_error (show tblY.length ≤ h.jpegTableSelector from Nat.not_lt.mp hfirst)]
    exact ⟨_, rfl⟩

/-- The decoder at the first macro block of a frame. -/
structure Prepared (h : FrameHeader) (recv : List (BitVec 32)) (d : Decoder) : Prop where
  valid : d.store.Valid
  screen : ScreenFits h d.geometry
  words : d.recv.length = recv.length
  index : d.index = 2
  newbits : d.newbits = 32

theorem meets_prepare (hd : d.store.Valid) (hsel : SelectorsFit h) :
    Meets (d.prepare h recv) (Prepared h recv) F := by
  have hvalid : (d.setGeometry h).ensureBuffers.store.Valid :=
    valid_ensureBuffers (valid_setGeometry hd)
  have hscreen := d.screenFits_setGeometry h
  apply (meets_decryptPayload _ h recv).bind
  rintro ⟨d₁, recv₁⟩ ⟨hstore, hgeometry, hlen⟩
  obtain ⟨qt, hqt⟩ := loadQuantizationTables_ok (d := d₁) hsel
  change Meets (d₁.loadQuantizationTables h >>= _) _ _
  rw [hqt]
  rw [← hstore] at hvalid
  rw [← hgeometry] at hscreen
  exact ⟨hvalid, hscreen, hlen, rfl, rfl⟩

theorem faults_prepare (hsel : ¬ SelectorsFit h) : Faults (d.prepare h recv) := by
  apply Faults.bind_right
  rintro ⟨d₁, recv₁⟩ -
  exact (faults_loadQuantizationTables hsel).bind _

/-- A payload that is not encrypted is taken as it is. -/
theorem prepare_plain (d : Decoder) (recv : List (BitVec 32)) (hrc4 : h.rc4Enable ≠ 1)
    (hsel : SelectorsFit h) :
    ∃ qt, d.prepare h recv =
      .ok ({ (d.setGeometry h).ensureBuffers with qt := qt }.startStream recv) := by
  rw [prepare]
  generalize (d.setGeometry h).ensureBuffers = d₁
  obtain ⟨qt, hqt⟩ := loadQuantizationTables_ok (d := d₁) hsel
  rw [decryptPayload, if_neg hrc4]
  change ∃ qt, (d₁.loadQuantizationTables h >>= _) = _
  rw [hqt]
  exact ⟨qt, rfl⟩

theorem Prepared.ready (hd : Prepared h recv d) (hlen : 2 ≤ d.recv.length) :
    d.toReader.Ready := by
  refine ⟨hlen, ?_, ?_⟩
  · rw [hd.index]
    exact hlen
  · rw [hd.newbits]
    decide

/-! ### After the loop -/

theorem meets_copyPixel (hscreen : ScreenFits h d.geometry) (hd : d.store.Valid) {y x : Nat}
    (hy : y < d.realH) (hx : x < d.realWidth) {pix : List (BitVec 8)}
    (hpix : pix.length = d.realWidth * d.realH * 4) :
    Meets (d.copyPixel y x pix) (fun pix' => pix'.length = d.realWidth * d.realH * 4) F := by
  have hbuf : d.decodeBuf.length = d.bufAlloc := hd.decodeBuf
  have hstride : d.realWidth ≤ d.bufStride := hscreen.stride
  have halloc : d.realH * d.bufStride * 3 ≤ d.bufAlloc := hscreen.alloc
  have hrow : (y + 1) * d.bufStride ≤ d.realH * d.bufStride := Nat.mul_le_mul_right _ hy
  have hline : (y + 1) * d.realWidth ≤ d.realH * d.realWidth := Nat.mul_le_mul_right _ hy
  rw [Nat.succ_mul] at hrow hline
  rw [Nat.mul_comm d.realWidth d.realH] at hpix ⊢
  unfold copyPixel
  simp only
  rw [rdSlice_ok (show y * d.bufStride * 3 + x * 3 + 2 < d.decodeBuf.length by omega)]
  change Meets (wrSlice Site.pix pix _ _ >>= _) _ _
  rw [wrSlice_ok (by omega)]
  change Meets (rdSlice Site.decodeBuf d.decodeBuf _ >>= _) _ _
  rw [rdSlice_ok (show y * d.bufStride * 3 + x * 3 + 1 < d.decodeBuf.length by omega)]
  change Meets (wrSlice Site.pix _ _ _ >>= _) _ _
  rw [wrSlice_ok (by simp only [List.length_set]; omega)]
  change Meets (rdSlice Site.decodeBuf d.decodeBuf _ >>= _) _ _
  rw [rdSlice_ok (show y * d.bufStride * 3 + x * 3 < d.decodeBuf.length by omega)]
  change Meets (wrSlice Site.pix _ _ _ >>= _) _ _
  rw [wrSlice_ok (by simp only [List.length_set]; omega)]
  change Meets (wrSlice Site.pix _ _ _) _ _
  rw [wrSlice_ok (by simp only [List.length_set]; omega)]
  simpa using hpix

theorem meets_toFrame (hscreen : ScreenFits h d.geometry) (hd : d.store.Valid) :
    Meets d.toFrame (fun f => f.W = h.destX ∧ f.H = h.destY ∧
      f.Pix.length = 4 * f.W * f.H) F := by
  have hcopy : Meets (forRect d.copyPixel d.realH d.realWidth
      (List.replicate (d.realWidth * d.realH * 4) 0))
      (fun pix => pix.length = d.realWidth * d.realH * 4) F := by
    apply meets_forRect (I := fun (pix : List (BitVec 8)) => pix.length = d.realWidth * d.realH * 4)
    · exact List.length_replicate
    · intro y x pix hy hx hpix
      exact meets_copyPixel hscreen hd hy hx hpix
  apply hcopy.bind
  intro pix hpix
  refine ⟨hscreen.realWidth, hscreen.realH, ?_⟩
  change pix.length = 4 * d.realWidth * d.realH
  rw [hpix, Nat.mul_assoc 4, Nat.mul_comm 4]

/-! ### Whole frames -/

theorem Round.trans {b b' : Nat} {d'' : Decoder} (h : Round b d d') (h' : Round b' d' d'') :
    Round (b + b') d d'' :=
  ⟨h'.valid, h'.geometry.trans h.geometry, h.reader.trans h'.reader⟩

variable {cw : Int} {s : Decoder}

/-- Every round of the loop starts in the invariant. -/
theorem round_of_visits (hd : d.store.Valid) (hr : d.toReader.Ready)
    (h : Loop.Visits (macroBlock cw) d s) : Round 0 d s := by
  apply h.invariant (I := Round 0 d) (F := fun _ => True) (Q := fun _ => True)
  · intro s hs
    apply (meets_macroBlock_of_valid hs.valid hs.reader.ready).imp
    intro out hout
    cases out with
    | inl s' =>
        obtain ⟨hround, -⟩ := hout
        have := hs.trans hround
        exact ⟨this.valid, this.geometry, this.reader.mono (Nat.zero_le _)⟩
    | inr s' => exact True.intro
  · exact ⟨hd, rfl, .refl hr⟩

/-- The loop ends in the invariant, when it ends well. -/
theorem round_of_returns (hd : d.store.Valid) (hr : d.toReader.Ready)
    (h : Loop.Returns (macroBlock cw) d (.ok s)) : Round 0 d s := by
  obtain ⟨head, hvisits, hend⟩ := h.exists_visit
  have hhead := round_of_visits hd hr hvisits
  rcases hend with ⟨e, -, hne⟩ | ⟨out, hout, heq⟩
  · cases hne
  · cases heq
    have hlast := (meets_macroBlock_of_valid hhead.valid hhead.reader.ready).of_eq_ok hout
    exact hhead.trans hlast

/-- A header whose resolution is rejected. -/
def BadResolution (h : FrameHeader) : Prop :=
  h.destX = 0 ∨ h.destY = 0 ∨ maxResolution < h.destX ∨ maxResolution < h.destY

instance (h : FrameHeader) : Decidable (BadResolution h) :=
  inferInstanceAs (Decidable (_ ∨ _ ∨ _ ∨ _))

/-- The frame has a header with a supported resolution, and its payload is `recv`. -/
def Accepted (frame : List (BitVec 8)) (h : FrameHeader) (recv : List (BitVec 32)) : Prop :=
  ∃ compressed, parseFrameHeader frame = .ok (h, compressed) ∧ ¬ BadResolution h ∧
    recv = makeIntArray compressed

variable {frame : List (BitVec 8)}

/-- A frame that is not accepted is answered with an error. -/
theorem accepted_or_rejected (frame : List (BitVec 8)) :
    (∃ h recv, Accepted frame h recv) ∨
      ∃ e, ∀ (d : Decoder) fuel, d.Decode fuel frame = some (.ok (d, .error e)) := by
  cases hparse : parseFrameHeader frame with
  | error e =>
      refine .inr ⟨e, ?_⟩
      intro d fuel
      rw [Decode, hparse]
  | ok parsed =>
      obtain ⟨h, compressed⟩ := parsed
      by_cases hbad : BadResolution h
      · refine .inr ⟨.badResolution h.destX h.destY, ?_⟩
        intro d fuel
        rw [Decode, hparse]
        exact if_pos hbad
      · exact .inl ⟨h, _, compressed, hparse, hbad, rfl⟩

theorem Accepted.unique {h' : FrameHeader} {recv' : List (BitVec 32)}
    (hacc : Accepted frame h recv) (hacc' : Accepted frame h' recv') : h = h' ∧ recv = recv' := by
  obtain ⟨compressed, hparse, -, rfl⟩ := hacc
  obtain ⟨compressed', hparse', -, rfl⟩ := hacc'
  rw [hparse] at hparse'
  cases hparse'
  exact ⟨rfl, rfl⟩

/-- What `Decode` does after `decode`. -/
def copyOut (out : Except Site Decoder) : Except Site (Decoder × Except DecodeError Frame) := do
  let d ← out
  let frame ← d.toFrame
  pure (d, .ok frame)

/-- A frame that is accepted is decoded and copied out. -/
theorem Accepted.decode_eq (hacc : Accepted frame h recv) (d : Decoder) (fuel : Nat) :
    d.Decode fuel frame = (d.decode fuel h recv).map copyOut := by
  obtain ⟨compressed, hparse, hres, rfl⟩ := hacc
  rw [Decode, hparse]
  change (if BadResolution h then _ else _) = _
  rw [if_neg hres]
  cases d.decode fuel h (makeIntArray compressed) with
  | none => rfl
  | some out =>
      cases out with
      | error e => rfl
      | ok d' => rfl

/-- A round of the macro-block loop of this frame starts in `s`. -/
def Heads (d : Decoder) (h : FrameHeader) (recv : List (BitVec 32)) (s : Decoder) : Prop :=
  ∃ d₀, d.prepare h recv = .ok d₀ ∧ 2 ≤ d₀.recv.length ∧
    Loop.Visits (macroBlock (compressWords h)) d₀ s

/-- Decoders that earlier frames can leave behind. -/
def Reachable : Decoder → Prop :=
  Relation.ReflTransGen (fun d d' => ∃ frame out, Decodes d frame (.ok (d', out))) New

theorem prepared_of_prepare {d₀ : Decoder} (hd : d.store.Valid) (h₀ : d.prepare h recv = .ok d₀) :
    Prepared h recv d₀ := by
  by_cases hsel : SelectorsFit h
  · exact (meets_prepare (F := fun _ => True) hd hsel).of_eq_ok h₀
  · have hfault : Faults (d.prepare h recv) := faults_prepare hsel
    obtain ⟨e, he⟩ := hfault
    rw [h₀] at he
    cases he

theorem valid_of_decode {fuel : Nat} (hd : d.store.Valid)
    (h' : d.decode fuel h recv = some (.ok d')) :
    d'.store.Valid ∧ ScreenFits h d'.geometry := by
  unfold decode at h'
  cases hprep : d.prepare h recv with
  | error e =>
      rw [hprep] at h'
      cases h'
  | ok d₀ =>
      have h₀ := prepared_of_prepare hd hprep
      rw [hprep] at h'
      by_cases hlen : d₀.recv.length < 2
      · simp only [if_pos hlen] at h'
        cases h'
        exact ⟨h₀.valid, h₀.screen⟩
      · simp only [if_neg hlen] at h'
        have hround := round_of_returns h₀.valid (h₀.ready (by omega)) ⟨fuel, h'⟩
        refine ⟨hround.valid, ?_⟩
        rw [hround.geometry]
        exact h₀.screen

/-- One call keeps the invariant, whatever the frame holds. -/
theorem valid_of_decodes {out : Except DecodeError Frame} (hd : d.store.Valid)
    (h' : Decodes d frame (.ok (d', out))) : d'.store.Valid := by
  obtain ⟨fuel, hrun⟩ := h'
  rcases accepted_or_rejected frame with ⟨h, recv, hacc⟩ | ⟨e, hrejected⟩
  · rw [hacc.decode_eq, Option.map_eq_some_iff] at hrun
    obtain ⟨out', hdecode, hcopy⟩ := hrun
    cases out' with
    | error e => cases hcopy
    | ok d₁ =>
        obtain ⟨hvalid, hscreen⟩ := valid_of_decode hd hdecode
        obtain ⟨f, hf, -⟩ := (meets_toFrame (F := fun _ => False) hscreen hvalid).exists_ok
        change (d₁.toFrame >>= _) = _ at hcopy
        rw [hf] at hcopy
        cases hcopy
        exact hvalid
  · rw [hrejected] at hrun
    cases hrun
    exact hd

theorem valid_new : New.store.Valid :=
  ⟨rfl, rfl, fun _ => Nat.zero_le _, fun _ => Nat.zero_lt_succ _, Nat.zero_le _⟩

theorem Reachable.valid (hd : Reachable d) : d.store.Valid := by
  induction hd with
  | refl => exact valid_new
  | tail _ hstep ih =>
      obtain ⟨frame, out, hdecodes⟩ := hstep
      exact valid_of_decodes ih hdecodes

end Decoder

end Outband.Kvm.Codec
