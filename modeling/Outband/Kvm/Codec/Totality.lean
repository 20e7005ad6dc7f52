import Outband.Kvm.Codec.Termination

/-!
# Totality of Decode

`Total d frame` is what a caller of `Decode` expects: an error, or a frame of a
supported size with four bytes for every pixel. It needs table selectors below
eight and rounds that are all safe, and with a loop that ends these are enough.
Entropy coded data, RC4 and the copy into the frame add no condition.
-/

namespace Outband.Kvm.Codec.Decoder

open Foundation

variable {d d' : Decoder} {h : FrameHeader} {recv : List (BitVec 32)} {frame : List (BitVec 8)}

/-- A frame of a supported size with four bytes for every pixel. -/
structure Frame.WellFormed (f : Frame) : Prop where
  width : 1 ≤ f.W ∧ f.W ≤ 1500
  height : 1 ≤ f.H ∧ f.H ≤ 1500
  pixels : f.Pix.length = 4 * f.W * f.H

/-- `Decode` returns an error or a well-formed frame. -/
def Total (d : Decoder) (frame : List (BitVec 8)) : Prop :=
  ∃ d' out, Decodes d frame (.ok (d', out)) ∧ ∀ f, out = .ok f → f.WellFormed

/-- The header selects existing tables and every macro block is safe. -/
def FrameSafe (d : Decoder) (frame : List (BitVec 8)) : Prop :=
  ∀ h recv, Accepted frame h recv → SelectorsFit h ∧ ∀ s, d.Heads h recv s → s.HeadSafe

/-- No macro block goes back to the last word of a payload that is shorter than the header
states. -/
def FrameBounded (d : Decoder) (frame : List (BitVec 8)) : Prop :=
  ∀ h recv, Accepted frame h recv → ∀ s, d.Heads h recv s → ¬ s.Overruns (compressWords h)

/-- A payload that is decoded has selected existing tables. -/
theorem selectorsFit_of_decode {fuel : Nat} (hrun : d.decode fuel h recv = some (.ok d')) :
    SelectorsFit h := by
  by_contra hsel
  have hfault : Faults (d.prepare h recv) := faults_prepare hsel
  obtain ⟨e, he⟩ := hfault
  rw [decode, he] at hrun
  cases hrun

/-- A payload that is decoded holds safe macro blocks only. -/
theorem headSafe_of_decode {fuel : Nat} (hd : d.store.Valid)
    (hrun : d.decode fuel h recv = some (.ok d')) {s : Decoder} (hs : d.Heads h recv s) :
    s.HeadSafe := by
  obtain ⟨d₀, hprep, hlen, hvisits⟩ := hs
  have h₀ := prepared_of_prepare hd hprep
  have hround := round_of_visits h₀.valid (h₀.ready hlen) hvisits
  rw [decode, hprep] at hrun
  simp only [if_neg (show ¬ d₀.recv.length < 2 by omega)] at hrun
  have hreturns : Loop.Returns (macroBlock (compressWords h)) d₀ (.ok d') := ⟨fuel, hrun⟩
  by_contra hunsafe
  have hround : Faults (s.macroBlock (compressWords h)) :=
    faults_macroBlock hround.valid hround.reader.ready hunsafe
  obtain ⟨e, he⟩ := hround
  have hfault : Loop.Returns (macroBlock (compressWords h)) d₀ (.error e) :=
    hvisits.returns_iff.mpr (Loop.returns_fault he)
  cases hreturns.unique hfault

/-- Safe macro blocks are decoded without a fault. -/
theorem decode_ok_of_safe {fuel : Nat} {out : Except Site Decoder} (hd : d.store.Valid)
    (hsel : SelectorsFit h) (hsafe : ∀ s, d.Heads h recv s → s.HeadSafe)
    (hrun : d.decode fuel h recv = some out) : ∃ d', out = .ok d' := by
  obtain ⟨d₀, hprep, h₀⟩ := (meets_prepare (F := fun _ => False) hd hsel).exists_ok
  rw [decode, hprep] at hrun
  by_cases hlen : d₀.recv.length < 2
  · simp only [if_pos hlen] at hrun
    exact ⟨d₀, (Option.some.inj hrun).symm⟩
  · simp only [if_neg hlen] at hrun
    have hr := h₀.ready (Nat.not_lt.mp hlen)
    have hreturns : Loop.Returns (macroBlock (compressWords h)) d₀ out := ⟨fuel, hrun⟩
    obtain ⟨s, hvisits, hend⟩ := hreturns.exists_visit
    have hround := round_of_visits h₀.valid hr hvisits
    have hhead := hsafe s ⟨d₀, hprep, Nat.not_lt.mp hlen, hvisits⟩
    rcases hend with ⟨e, he, -⟩ | ⟨d', -, hd'⟩
    · exact ((meets_macroBlock hround.valid hround.reader.ready hhead).of_eq_error he).elim
    · exact ⟨d', hd'⟩

theorem frameSafe_of_total (hd : d.store.Valid) (htotal : Total d frame) : FrameSafe d frame := by
  intro h recv hacc
  obtain ⟨d', out, ⟨fuel, hrun⟩, -⟩ := htotal
  rw [hacc.decode_eq, Option.map_eq_some_iff] at hrun
  obtain ⟨out', hdecode, hcopy⟩ := hrun
  cases out' with
  | error e => cases hcopy
  | ok d₁ => exact ⟨selectorsFit_of_decode hdecode, fun s hs => headSafe_of_decode hd hdecode hs⟩

/-- A frame that `Decode` returns is well formed. -/
theorem wellFormed_of_decodes {f : Frame} (hd : d.store.Valid)
    (hdecodes : Decodes d frame (.ok (d', .ok f))) : f.WellFormed := by
  obtain ⟨fuel, hrun⟩ := hdecodes
  rcases accepted_or_rejected frame with ⟨h, recv, hacc⟩ | ⟨e, hrejected⟩
  · rw [hacc.decode_eq, Option.map_eq_some_iff] at hrun
    obtain ⟨out, hdecode, hcopy⟩ := hrun
    cases out with
    | error e => cases hcopy
    | ok d₁ =>
        obtain ⟨hvalid, hscreen⟩ := valid_of_decode hd hdecode
        obtain ⟨f', hf', hW, hH, hpix⟩ :=
          (meets_toFrame (F := fun _ => False) hscreen hvalid).exists_ok
        change (d₁.toFrame >>= _) = _ at hcopy
        rw [hf'] at hcopy
        cases hcopy
        obtain ⟨-, -, hres, -⟩ := hacc
        unfold BadResolution maxResolution at hres
        exact ⟨by omega, by omega, hpix⟩
  · rw [hrejected] at hrun
    cases hrun

theorem total_of_frameSafe (hd : d.store.Valid) (hsafe : FrameSafe d frame)
    (hbounded : FrameBounded d frame) : Total d frame := by
  rcases accepted_or_rejected frame with ⟨h, recv, hacc⟩ | ⟨e, hrejected⟩
  · obtain ⟨hsel, hheads⟩ := hsafe h recv hacc
    obtain ⟨fuel, out, hrun⟩ := exists_decode hd (hbounded h recv hacc)
    obtain ⟨d₁, rfl⟩ := decode_ok_of_safe hd hsel hheads hrun
    obtain ⟨hvalid, hscreen⟩ := valid_of_decode hd hrun
    obtain ⟨f, hf, -⟩ := (meets_toFrame (F := fun _ => False) hscreen hvalid).exists_ok
    have hdecodes : Decodes d frame (.ok (d₁, .ok f)) := by
      refine ⟨fuel, ?_⟩
      rw [hacc.decode_eq, hrun]
      change some (d₁.toFrame >>= _) = _
      rw [hf]
      rfl
    refine ⟨d₁, .ok f, hdecodes, ?_⟩
    rintro f' ⟨⟩
    exact wellFormed_of_decodes hd hdecodes
  · refine ⟨d, .error e, ⟨0, hrejected d 0⟩, ?_⟩
    rintro f ⟨⟩

/-- When `Decode` delivers: safe frames are necessary, and with bounded ones enough. -/
theorem decode_total (hd : Reachable d) (frame : List (BitVec 8)) :
    (Total d frame → FrameSafe d frame) ∧
      (FrameSafe d frame → FrameBounded d frame → Total d frame) :=
  ⟨frameSafe_of_total hd.valid, total_of_frameSafe hd.valid⟩

/-! ### A frame of one block -/

/-- A screen of two tiles side by side, with a payload that the header states too long. -/
def blockHeader : FrameHeader := { smallHeader 100 with destX := 16 }

/-- A JPEG block of 18 bits behind its code, and the code that ends the frame. -/
def blockWords : List (BitVec 32) := [0x02802400, 0]

def blockFrame : List (BitVec 8) :=
  (smallFrame 0 100 [0x00, 0x24, 0x80, 0x02, 0x00, 0x00, 0x00, 0x00]).set 13 16

theorem accepted_blockFrame : Accepted blockFrame blockHeader blockWords :=
  ⟨_, rfl, by decide, rfl⟩

section

variable (rest : List (BitVec 32)) (p : BitVec 16)

theorem block_unitY :
    ∃ coeff pred, decodeHuffmanDataUnit false p ⟨0x28024000 :: 0 :: rest, 2, 28⟩ =
      .ok (⟨0x00900000 :: 0 :: rest, 2, 22⟩, coeff, pred) := ⟨_, _, rfl⟩

theorem block_unitCb :
    ∃ coeff pred, decodeHuffmanDataUnit true p ⟨0x00900000 :: 0 :: rest, 2, 22⟩ =
      .ok (⟨0x09000000 :: 0 :: rest, 2, 18⟩, coeff, pred) := ⟨_, _, rfl⟩

theorem block_unitCr :
    ∃ coeff pred, decodeHuffmanDataUnit true p ⟨0x09000000 :: 0 :: rest, 2, 18⟩ =
      .ok (⟨0x90000000 :: 0 :: rest, 2, 14⟩, coeff, pred) := ⟨_, _, rfl⟩

end

/-- The decoder at the block, with any words behind the two registers. -/
structure AtBlock (rest : List (BitVec 32)) (d : Decoder) : Prop where
  valid : d.store.Valid
  layout : Layout blockHeader d.geometry
  reader : d.toReader = ⟨0x02802400 :: 0 :: rest, 2, 32⟩
  txb : d.txb = 0
  tyb : d.tyb = 0

variable {rest : List (BitVec 32)}

theorem AtBlock.ready (hd : AtBlock rest d) : d.toReader.Ready := by
  rw [hd.reader]
  exact ⟨Nat.le_add_left 2 _, Nat.le_add_left 2 _, Nat.le_add_left 1 31, Nat.le_refl 32⟩

theorem AtBlock.code (hd : AtBlock rest d) : d.code = 0 := by
  have hword : d.word0 = 0x02802400 := by
    rw [word0, show d.recv = 0x02802400 :: 0 :: rest from congrArg Reader.recv hd.reader]
    rfl
  rw [Decoder.code, hword]
  decide

theorem AtBlock.tileFits (hd : AtBlock rest d) : d.TileFits d.txb d.tyb := by
  have hmode : d.mode420 = 0 := hd.layout.mode420
  have hreal : d.realWidth = 16 := hd.layout.realWidth
  have hwidth : d.width = 16 := hd.layout.width
  have hheight : d.height = 8 := hd.layout.height
  have halloc : d.width * d.height * 3 ≤ d.bufAlloc := hd.layout.alloc
  rw [hwidth, hheight] at halloc
  rw [TileFits, if_pos hmode, hd.txb, hd.tyb]
  have hlimit : d.limit444 0 = 8 := by
    rw [limit444, hreal]
    decide
  rw [RectFits, hlimit, off444, hreal]
  omega

/-- The round of the block takes 22 bits, which are all in the registers. -/
theorem AtBlock.round (hd : AtBlock rest d) : ∃ d', d.macroBlock 25 = .ok (.inl d') ∧
    d'.toReader = ⟨0x90000000 :: 0 :: rest, 2, 14⟩ := by
  have hposition : d.toReader.updateReadBuf 4 = .ok ⟨0x28024000 :: 0 :: rest, 2, 28⟩ := by
    rw [hd.reader]
    rfl
  have havail : d.toReader.Available 4 := by
    left
    rw [hd.reader]
    exact (show 4 < 32 by decide)
  obtain ⟨d', htile, hreader, -⟩ := exists_jpegTile hd.valid hd.ready hd.layout.mode420 hd.tileFits
    hposition havail
    (units444_ok 0 (block_unitY rest) (block_unitCb rest) (block_unitCr rest))
  have hmoved := (toReader_moveBlockIndex d').trans hreader
  refine ⟨d'.moveBlockIndex, ?_, hmoved⟩
  rw [macroBlock_eq hd.ready, hd.code]
  change (d.tileBlock (.jpeg 0) false >>= _) = _
  rw [htile]
  change Except.ok (d'.moveBlockIndex.continueBelow 25) = _
  have hindex : d'.moveBlockIndex.index = 2 := congrArg Reader.index hmoved
  rw [continueBelow, hindex]
  rfl

theorem AtBlock.safe (hd : AtBlock rest d) : d.HeadSafe := by
  by_contra hunsafe
  have hfaults : Faults (d.macroBlock 25) := faults_macroBlock hd.valid hd.ready hunsafe
  obtain ⟨e, he⟩ := hfaults
  obtain ⟨d', hstep, -⟩ := hd.round
  rw [hstep] at he
  cases he

theorem AtBlock.lengthened (hd : AtBlock [] d) : AtBlock [0] (Streamed.lengthened d) := by
  refine ⟨hd.valid, hd.layout, ?_, hd.txb, hd.tyb⟩
  change Streamed.lengthened d.toReader = _
  rw [hd.reader]
  rfl

theorem AtBlock.not_overruns (hd : AtBlock [] d) : ¬ d.Overruns 25 := by
  rintro ⟨-, -, hclamps⟩
  obtain ⟨d', hstep, hreader⟩ := hd.lengthened.round
  rw [Clamps, hstep, hd.reader] at hclamps
  change 2 < d'.index at hclamps
  have hindex : d'.index = 2 := congrArg Reader.index hreader
  omega

/-- The end of a frame reads no bits. -/
theorem not_overruns_of_end {cw : Int} (hr : d.toReader.Ready) (hend : d.code = 9) :
    ¬ d.Overruns cw := by
  rintro ⟨-, -, hclamps⟩
  have hcode : (Streamed.lengthened d).code = 9 := by
    rw [code, word0_lengthened hr]
    exact hend
  rw [Clamps, macroBlock_eq (ready_lengthened hr), hcode] at hclamps
  exact absurd hr.index (Nat.not_le.mpr hclamps)

/-- The loop starts at the block. -/
theorem atBlock_of_prepare {d₀ : Decoder} (hd : d.store.Valid)
    (hprep : d.prepare blockHeader blockWords = .ok d₀) : AtBlock [] d₀ := by
  have h₀ := prepared_of_prepare hd hprep
  obtain ⟨qt, hplain⟩ := prepare_plain (h := blockHeader) d blockWords Nat.zero_ne_one
    ⟨Nat.zero_lt_succ _, Nat.zero_lt_succ _⟩
  rw [hplain] at hprep
  cases hprep
  exact ⟨h₀.valid, layout_ensureBuffers d blockHeader, rfl, rfl, rfl⟩

theorem exists_head_blockFrame (hd : d.store.Valid) :
    ∃ s, d.Heads blockHeader blockWords s ∧ AtBlock [] s := by
  have hsel : SelectorsFit blockHeader := by decide
  obtain ⟨d₀, hprep, -⟩ := (meets_prepare (F := fun _ => False) hd hsel).exists_ok
  have hblock := atBlock_of_prepare hd hprep
  exact ⟨d₀, ⟨d₀, hprep, hblock.ready.words, .refl⟩, hblock⟩

/-- After the block the loop is at the end of the frame. -/
theorem heads_blockFrame {s : Decoder} (hd : d.store.Valid)
    (hs : d.Heads blockHeader blockWords s) : s.toReader.Ready ∧ (AtBlock [] s ∨ s.code = 9) := by
  obtain ⟨d₀, hprep, -, hvisits⟩ := hs
  have hblock := atBlock_of_prepare hd hprep
  rcases hvisits.cases_head with rfl | ⟨s₁, hstep, hrest⟩
  · exact ⟨hblock.ready, .inl hblock⟩
  · obtain ⟨d₁, hround, hreader⟩ := hblock.round
    have heq : Except.ok (Sum.inl s₁) = Except.ok (Sum.inl d₁) := hstep.symm.trans hround
    cases heq
    have hready : s₁.toReader.Ready := by
      rw [hreader]
      exact ⟨Nat.le_refl 2, Nat.le_refl 2, by decide⟩
    have hcode : s₁.code = 9 := by
      have hword : s₁.word0 = 0x90000000 := by
        rw [word0, show s₁.recv = [0x90000000, 0] from congrArg Reader.recv hreader]
        rfl
      rw [Decoder.code, hword]
      decide
    rcases hrest.cases_head with rfl | ⟨s₂, hend, -⟩
    · exact ⟨hready, .inr hcode⟩
    · rw [macroBlock_eq hready, hcode] at hend
      cases hend

theorem frameSafe_blockFrame (hd : d.store.Valid) : FrameSafe d blockFrame := by
  intro h recv hacc
  obtain ⟨rfl, rfl⟩ := hacc.unique accepted_blockFrame
  refine ⟨by decide, ?_⟩
  intro s hs
  rcases (heads_blockFrame hd hs).2 with hblock | hend
  · exact hblock.safe
  · rw [HeadSafe, hend]
    exact .inl rfl

theorem frameBounded_blockFrame (hd : d.store.Valid) : FrameBounded d blockFrame := by
  intro h recv hacc s hs
  obtain ⟨rfl, rfl⟩ := hacc.unique accepted_blockFrame
  obtain ⟨hready, hblock | hend⟩ := heads_blockFrame hd hs
  · exact hblock.not_overruns
  · exact not_overruns_of_end hready hend

/-- A frame with a JPEG block is decoded, although its header states a longer payload. -/
theorem decode_total_block : Accepted blockFrame blockHeader blockWords ∧
    (∃ s, New.Heads blockHeader blockWords s ∧ s.code = 0) ∧ Total New blockFrame := by
  obtain ⟨s, hs, hblock⟩ := exists_head_blockFrame valid_new
  exact ⟨accepted_blockFrame, ⟨s, hs, hblock.code⟩, (decode_total .refl blockFrame).2
    (frameSafe_blockFrame valid_new) (frameBounded_blockFrame valid_new)⟩

/-! ### A selector of eight -/

/-- A header with a table selector of eight and nothing behind it. -/
def badSelectorFrame : List (BitVec 8) := smallFrame 8 0 []

/-- The call runs off the table of luminance tables. -/
theorem decode_badSelector :
    Reachable New ∧ (∀ fuel, New.Decode fuel badSelectorFrame = some (.error .tblY)) ∧
      ¬ Total New badSelectorFrame := by
  have hacc : Accepted badSelectorFrame { smallHeader 0 with jpegTableSelector := 8 } [] :=
    ⟨_, rfl, by decide, rfl⟩
  have hprep : New.prepare { smallHeader 0 with jpegTableSelector := 8 } [] = .error .tblY := by
    rw [prepare]
    generalize (New.setGeometry _).ensureBuffers = d₁
    rfl
  have hfault : ∀ fuel, New.Decode fuel badSelectorFrame = some (.error .tblY) := by
    intro fuel
    rw [hacc.decode_eq, decode, hprep]
    rfl
  refine ⟨.refl, hfault, ?_⟩
  rintro ⟨d', out, ⟨fuel, hrun⟩, -⟩
  rw [hfault] at hrun
  cases hrun

end Outband.Kvm.Codec.Decoder
