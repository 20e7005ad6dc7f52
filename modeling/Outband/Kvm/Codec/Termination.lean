import Outband.Kvm.Codec.Refill

/-!
# Termination of the macro-block loop

`remaining` counts the bits in word 1 and in the words that are still to be
loaded. A round lowers it as long as none of its refills goes back to the last
word; one that does can restore it. The loop leaves when `index` reaches the
number of words the header states, and `index` never exceeds the number of
words there are, so only payloads that are shorter than the header states can
keep it going.
-/

namespace Outband.Kvm.Codec

open Foundation
open Streamed (lengthened)

namespace Reader

variable {r r' r'' : Reader} {b b' : Nat}

/-- The bits behind word 0. -/
def remaining (r : Reader) : Nat := 32 * (r.recv.length - r.index) + r.newbits

theorem Advances.remaining_lt (h : Advances b r r') (hb : 0 < b)
    (hleft : r'.index < r.recv.length) : r'.remaining < r.remaining := by
  have hmono := h.index
  have hlen := h.length
  have hconsumed := h.consumed hleft
  unfold remaining
  omega

end Reader

namespace Decoder

variable {d d' : Decoder} {cw : Int}

/-! ### The loop -/

/-- A safe round of a payload that is shorter than the header states goes back to the last word. -/
def Overruns (cw : Int) (d : Decoder) : Prop :=
  (d.recv.length : Int) < cw ∧ d.HeadSafe ∧ d.Clamps cw

theorem remaining_lt (hd : d.store.Valid) (hr : d.toReader.Ready) (hover : ¬ d.Overruns cw)
    (hstep : d.macroBlock cw = .ok (.inl d')) :
    d'.toReader.remaining < d.toReader.remaining := by
  obtain ⟨hround, hbelow⟩ := (meets_macroBlock_of_valid hd hr).of_eq_ok hstep
  by_cases hshort : (d.recv.length : Int) < cw
  · have hsafe : d.HeadSafe := by
      by_contra hunsafe
      have hfaults : Faults (d.macroBlock cw) := faults_macroBlock hd hr hunsafe
      obtain ⟨e, he⟩ := hfaults
      rw [hstep] at he
      cases he
    have hsame := macroBlock_lengthened hd hr hsafe fun hclamps => hover ⟨hshort, hsafe, hclamps⟩
    rw [hstep] at hsame
    obtain ⟨hlonger, -⟩ :=
      (meets_macroBlock_of_valid (d := lengthened d) hd (ready_lengthened hr)).of_eq_ok hsame
    have hindex : d'.index ≤ d.recv.length := hround.reader.length ▸ hround.reader.ready.index
    have hlt := hlonger.reader.remaining_lt (by decide) (by
      rw [length_lengthened]
      exact Nat.lt_succ_of_le hindex)
    have hlen := hround.reader.length
    have hmono := hround.reader.index
    unfold Reader.remaining at hlt ⊢
    rw [length_lengthened, length_lengthened] at hlt
    change 32 * (d'.recv.length + 1 - d'.index) + d'.newbits <
      32 * (d.recv.length + 1 - d.index) + d.newbits at hlt
    omega
  · exact hround.reader.remaining_lt (by decide) (by omega)

theorem returns_of_visits (hd : d.store.Valid) (hr : d.toReader.Ready)
    (hover : ∀ s, Loop.Visits (macroBlock cw) d s → ¬ s.Overruns cw) :
    ∃ out, Loop.Returns (macroBlock cw) d out := by
  apply Loop.exists_returns (I := Loop.Visits (macroBlock cw) d) (fun s => s.toReader.remaining)
  · intro s hs
    have hround := round_of_visits hd hr hs
    cases hstep : s.macroBlock cw with
    | error e => exact True.intro
    | ok out =>
        cases out with
        | inr s' => exact True.intro
        | inl s' =>
            have hlt := remaining_lt hround.valid hround.reader.ready (hover s hs) hstep
            exact ⟨hs.tail hstep, hlt⟩
  · exact .refl

theorem exists_decode {h : FrameHeader} {recv : List (BitVec 32)} (hd : d.store.Valid)
    (hheads : ∀ s, d.Heads h recv s → ¬ s.Overruns (compressWords h)) :
    ∃ fuel out, d.decode fuel h recv = some out := by
  unfold decode
  cases hprep : d.prepare h recv with
  | error e => exact ⟨0, _, rfl⟩
  | ok d₀ =>
      have h₀ := prepared_of_prepare hd hprep
      by_cases hlen : d₀.recv.length < 2
      · exact ⟨0, _, if_pos hlen⟩
      · obtain ⟨out, fuel, hfuel⟩ := returns_of_visits h₀.valid (h₀.ready (by omega)) fun s hs =>
          hheads s ⟨d₀, hprep, by omega, hs⟩
        exact ⟨fuel, out, (if_neg hlen).trans hfuel⟩

/-- The loop of `decode` ends when no macro block goes back to the last word of a
payload that is shorter than the header states. -/
theorem decode_terminates {h : FrameHeader} {recv : List (BitVec 32)} (hd : Reachable d)
    (hheads : ∀ s, d.Heads h recv s → ¬ s.Overruns (compressWords h)) :
    ∃ fuel out, d.decode fuel h recv = some out :=
  exists_decode hd.valid hheads

theorem heads_length {h : FrameHeader} {recv : List (BitVec 32)} {s : Decoder}
    (hd : d.store.Valid) (hs : d.Heads h recv s) : s.recv.length = recv.length := by
  obtain ⟨d₀, hprep, hlen, hvisits⟩ := hs
  have h₀ := prepared_of_prepare hd hprep
  have hround := round_of_visits h₀.valid (h₀.ready hlen) hvisits
  exact hround.reader.length.trans h₀.words

/-- A payload as long as the header states is not overrun. -/
theorem not_overruns_of_le {h : FrameHeader} {recv : List (BitVec 32)} (hd : d.store.Valid)
    (hle : compressWords h ≤ recv.length) (s : Decoder) (hs : d.Heads h recv s) :
    ¬ s.Overruns (compressWords h) := by
  rintro ⟨hlt, -⟩
  have hlen := heads_length hd hs
  omega

/-! ### A loop without end -/

/-- A macro block of 32 bits. -/
def endlessWord : BitVec 32 := 0x0FC00A00

section Endless
variable (rest : List (BitVec 32)) (i : Nat) (p : BitVec 16)

theorem endless_unitY :
    ∃ coeff pred, decodeHuffmanDataUnit false p ⟨0xFC00A000 :: 0xFC00A000 :: rest, i, 28⟩ =
      .ok (⟨0x000FC00A :: 0 :: rest, i, 8⟩, coeff, pred) := ⟨_, _, rfl⟩

theorem endless_unitCb :
    ∃ coeff pred, decodeHuffmanDataUnit true p ⟨0x000FC00A :: 0 :: rest, i, 8⟩ =
      .ok (⟨0x00FC00A0 :: 0 :: rest, i, 4⟩, coeff, pred) := ⟨_, _, rfl⟩

theorem skipKbits_refill {r0 r1 refill : BitVec 32} {newbits b k : Nat} (hb : newbits ≤ b)
    (hk : Reader.clampedIndex ⟨r0 :: r1 :: rest, i, newbits⟩ = k)
    (hrefill : rdSlice Site.recv (r0 :: r1 :: rest) k = .ok refill) :
    Reader.skipKbits ⟨r0 :: r1 :: rest, i, newbits⟩ b =
      .ok ⟨((r0 <<< b) ||| ((r1.setWidth 64 ||| (refill.setWidth 64 >>> newbits)) >>>
        (32 - b)).setWidth 32) :: (refill <<< (b - newbits)) :: rest, k + 1,
        32 + newbits - b⟩ := by
  rw [Reader.skipKbits, if_pos hb, hk, hrefill]
  rfl

theorem endless_unitCr {k : Nat}
    (hk : Reader.clampedIndex ⟨0x03F00280 :: 0 :: rest, i, 2⟩ = k)
    (hrefill : rdSlice Site.recv (0x03F00280 :: 0 :: rest) k = .ok endlessWord) :
    ∃ coeff pred, decodeHuffmanDataUnit true p ⟨0x00FC00A0 :: 0 :: rest, i, 4⟩ =
      .ok (⟨endlessWord :: endlessWord :: rest, k + 1, 32⟩, coeff, pred) := by
  have hdc : decodeHuffmanDataUnit true p ⟨0x00FC00A0 :: 0 :: rest, i, 4⟩ =
      (acLoop (htAC true) 63 1 ⟨0x03F00280 :: 0 :: rest, i, 2⟩
        (Function.update (fun _ => 0) 0 (p.signExtend 32)) >>= fun out =>
          .ok (out.1, out.2, p)) := rfl
  have hsymbol : readSymbol (htAC true) ⟨0x03F00280 :: 0 :: rest, i, 2⟩ =
      (Reader.skipKbits ⟨0x03F00280 :: 0 :: rest, i, 2⟩ 2 >>= fun r => .ok (r, 0)) := rfl
  rw [hdc, acLoop, hsymbol, skipKbits_refill rest i (Nat.le_refl 2) hk hrefill]
  exact ⟨_, _, rfl⟩

end Endless

theorem unitY_ok {r : Reader} (u : Fin 6) (q : Fin 4)
    (h : ∃ coeff pred, decodeHuffmanDataUnit false d.dcY d.toReader = .ok (r, coeff, pred)) :
    ∃ d', d.unitY u q = .ok d' ∧ d'.toReader = r := by
  obtain ⟨coeff, pred, hunit⟩ := h
  rw [unitY, hunit]
  exact ⟨_, rfl, rfl⟩

theorem unitCb_ok {r : Reader} (u : Fin 6) (q : Fin 4)
    (h : ∃ coeff pred, decodeHuffmanDataUnit true d.dcCb d.toReader = .ok (r, coeff, pred)) :
    ∃ d', d.unitCb u q = .ok d' ∧ d'.toReader = r := by
  obtain ⟨coeff, pred, hunit⟩ := h
  rw [unitCb, hunit]
  exact ⟨_, rfl, rfl⟩

theorem unitCr_ok {r : Reader} (u : Fin 6) (q : Fin 4)
    (h : ∃ coeff pred, decodeHuffmanDataUnit true d.dcCr d.toReader = .ok (r, coeff, pred)) :
    ∃ d', d.unitCr u q = .ok d' ∧ d'.toReader = r := by
  obtain ⟨coeff, pred, hunit⟩ := h
  rw [unitCr, hunit]
  exact ⟨_, rfl, rfl⟩

/-- The reader goes through the three units of a 4:4:4 tile. -/
theorem units444_ok {r₁ r₂ r₃ : Reader} (q : Fin 4)
    (hY : ∀ p, ∃ coeff pred, decodeHuffmanDataUnit false p d.toReader = .ok (r₁, coeff, pred))
    (hCb : ∀ p, ∃ coeff pred, decodeHuffmanDataUnit true p r₁ = .ok (r₂, coeff, pred))
    (hCr : ∀ p, ∃ coeff pred, decodeHuffmanDataUnit true p r₂ = .ok (r₃, coeff, pred)) :
    ∃ d', d.units444 q = .ok d' ∧ d'.toReader = r₃ := by
  obtain ⟨d₁, hunitY, h₁⟩ := unitY_ok 0 q (hY d.dcY)
  obtain ⟨d₂, hunitCb, h₂⟩ := unitCb_ok 1 (q + 1) (h₁ ▸ hCb d₁.dcCb)
  obtain ⟨d₃, hunitCr, h₃⟩ := unitCr_ok 2 (q + 1) (h₂ ▸ hCr d₂.dcCr)
  refine ⟨d₃, ?_, h₃⟩
  rw [units444, hunitY]
  change (d₁.unitCb 1 (q + 1) >>= _) = _
  rw [hunitCb]
  exact hunitCr

/-- The payload: any number of words from three on. -/
def endlessPayload (n : Nat) : List (BitVec 32) := List.replicate (n + 3) endlessWord

/-- The refill of the last unit: the next word, or the last one again. -/
theorem endless_refill {n i : Nat} (hi : 2 ≤ i) :
    ∃ k, Reader.clampedIndex ⟨0x03F00280 :: 0 :: List.replicate (n + 1) endlessWord, i, 2⟩ = k ∧
      rdSlice Site.recv (0x03F00280 :: 0 :: List.replicate (n + 1) endlessWord) k =
        .ok endlessWord ∧ 2 ≤ k ∧ k ≤ n + 2 := by
  refine ⟨_, rfl, ?_⟩
  unfold Reader.clampedIndex
  simp only [List.length_cons, List.length_replicate]
  obtain ⟨j, hj, hlt⟩ : ∃ j, (if n + 1 + 1 + 1 - 1 < i then n + 1 + 1 + 1 - 1 else i) = j + 2 ∧
      j ≤ n := by
    split_ifs
    · exact ⟨n, by omega, Nat.le_refl n⟩
    · exact ⟨i - 2, by omega, by omega⟩
  rw [hj]
  refine ⟨?_, by omega, by omega⟩
  simp [rdSlice, show j < n + 1 by omega]

theorem units444_endless {n i : Nat} (hi : 2 ≤ i) (q : Fin 4)
    (hd : d.toReader =
      ⟨0xFC00A000 :: 0xFC00A000 :: List.replicate (n + 1) endlessWord, i, 28⟩) :
    ∃ d' k, d.units444 q = .ok d' ∧ d'.toReader = ⟨endlessPayload n, k, 32⟩ ∧
      2 ≤ k ∧ k ≤ n + 3 := by
  obtain ⟨k, hk, hrefill, hlow, hhigh⟩ := endless_refill (n := n) hi
  obtain ⟨d', hunits, hreader⟩ := units444_ok q (fun p => hd ▸ endless_unitY _ i p)
    (endless_unitCb _ i) fun p => endless_unitCr _ i p hk hrefill
  exact ⟨d', k + 1, hunits, hreader, by omega, by omega⟩

/-- An 8×8 screen in 4:4:4 mode. -/
def smallGeometry : Geometry :=
  { width := 8, height := 8, realWidth := 8, realH := 8, tmpWidthBy16 := 8, tmpHeightBy16 := 8,
    mode420 := 0, bufStride := 8, bufAlloc := 192 }

/-- The decoder at the head of every round of a loop without end. -/
structure Endless (n : Nat) (d : Decoder) : Prop where
  valid : d.store.Valid
  geometry : d.geometry = smallGeometry
  reader : ∃ i, d.toReader = ⟨endlessPayload n, i, 32⟩ ∧ 2 ≤ i ∧ i ≤ n + 3
  txb : d.txb = 0
  tyb : d.tyb = 0

theorem Endless.ready {n : Nat} (hd : Endless n d) : d.toReader.Ready := by
  obtain ⟨i, hreader, -, hhigh⟩ := hd.reader
  rw [hreader]
  refine ⟨?_, ?_, Nat.le_add_left 1 31, Nat.le_refl 32⟩
  · simp [endlessPayload]
  · simpa [endlessPayload] using hhigh

theorem Endless.code {n : Nat} (hd : Endless n d) : d.code = 0 := by
  obtain ⟨i, hreader, -⟩ := hd.reader
  have hword : d.word0 = endlessWord := by
    rw [word0, show d.recv = endlessPayload n from congrArg Reader.recv hreader]
    rfl
  rw [Decoder.code, hword]
  decide

theorem tileFits_small (h : d.geometry = smallGeometry) : d.TileFits 0 0 := by
  have hmode : d.mode420 = 0 := congrArg Geometry.mode420 h
  have hreal : d.realWidth = 8 := congrArg Geometry.realWidth h
  have halloc : d.bufAlloc = 192 := congrArg Geometry.bufAlloc h
  rw [TileFits, if_pos hmode]
  simp [RectFits, off444, limit444, hreal, halloc]

theorem Endless.move {n : Nat} (hd : Endless n d) : Endless n d.moveBlockIndex := by
  have hmode : d.mode420 = 0 := congrArg Geometry.mode420 hd.geometry
  have hwidth : d.tmpWidthBy16 = 8 := congrArg Geometry.tmpWidthBy16 hd.geometry
  have hheight : d.tmpHeightBy16 = 8 := congrArg Geometry.tmpHeightBy16 hd.geometry
  have hmove : d.moveBlockIndex = { d with txb := 0, tyb := 0 } := by
    simp [moveBlockIndex, hmode, hwidth, hheight]
  rw [hmove]
  exact ⟨hd.valid, hd.geometry, hd.reader, rfl, rfl⟩

/-- A JPEG block at the next tile of a 4:4:4 screen, with units that leave the reader at `r'`. -/
theorem exists_jpegTile {r r' : Reader} {q : Fin 4} (hd : d.store.Valid) (hr : d.toReader.Ready)
    (hmode : d.mode420 = 0) (hfit : d.TileFits d.txb d.tyb)
    (hposition : d.toReader.updateReadBuf 4 = .ok r) (havail : d.toReader.Available 4)
    (hunits : ∃ d', { d with toReader := r }.units444 q = .ok d' ∧ d'.toReader = r') :
    ∃ d', d.tileBlock (.jpeg q) false = .ok d'.moveBlockIndex ∧ d'.toReader = r' ∧
      Step 4 d d' := by
  have hread : d.readPosition false = .ok { d with toReader := r } := by
    change (d.toReader.updateReadBuf 4 >>= _) = _
    rw [hposition]
    rfl
  have h₁ : Step 4 d { d with toReader := r } :=
    (meets_updateReadBuf (F := fun _ => True) hd hr (by decide) havail).of_eq_ok hread
  obtain ⟨d₂, hunits, hreader⟩ := hunits
  have h₂ : Step 0 { d with toReader := r } d₂ :=
    (meets_units444 (F := fun _ => True) h₁.valid h₁.reader.ready q).of_eq_ok hunits
  obtain ⟨d₃, hconvert, h₃⟩ := (meets_convertYUVtoRGB h₂.valid
    ((tileFits_congr (h₂.geometry.trans h₁.geometry) _ _).mpr hfit)).exists_ok
  refine ⟨d₃, ?_, h₃.toReader.trans hreader, (h₁.trans h₂).trans (h₃.step h₂.valid h₂.reader.ready)⟩
  have hone : ¬ { d with toReader := r }.mode420 = 1 := by
    change ¬ d.mode420 = 1
    omega
  rw [tileBlock, hread]
  change ({ d with toReader := r }.decompressJPEG d.txb d.tyb q >>= _) = _
  rw [decompressJPEG, units, if_neg hone, hunits]
  change (d₂.convertYUVtoRGB d.txb d.tyb >>= _) = _
  rw [hconvert]
  rfl

theorem Endless.tile {n : Nat} (hd : Endless n d) :
    ∃ d', d.tileBlock (.jpeg 0) false = .ok d' ∧ Endless n d' := by
  obtain ⟨i, hreader, hlow, -⟩ := hd.reader
  let r : Reader :=
    ⟨0xFC00A000 :: 0xFC00A000 :: List.replicate (n + 1) endlessWord, i, 28⟩
  have hposition : d.toReader.updateReadBuf 4 = .ok r := by
    rw [hreader]
    rfl
  have havail : d.toReader.Available 4 := by
    left
    rw [hreader]
    exact (show 4 < 32 by decide)
  have hfit : d.TileFits d.txb d.tyb := by
    rw [hd.txb, hd.tyb]
    exact tileFits_small hd.geometry
  obtain ⟨d₂, k, hunits, hreader₂, hk⟩ :=
    units444_endless (d := { d with toReader := r }) hlow 0 rfl
  obtain ⟨d', htile, hreader', hstep⟩ := exists_jpegTile hd.valid hd.ready
    (congrArg Geometry.mode420 hd.geometry) hfit hposition havail ⟨d₂, hunits, hreader₂⟩
  refine ⟨_, htile, Endless.move ?_⟩
  exact ⟨hstep.valid, hstep.geometry.trans hd.geometry, ⟨k, hreader', hk⟩,
    hstep.txb.trans hd.txb, hstep.tyb.trans hd.tyb⟩

theorem endless_round {n : Nat} (hd : Endless n d) (hcw : (n + 3 : Int) < cw) :
    ∃ d', d.macroBlock cw = .ok (.inl d') ∧ Endless n d' := by
  obtain ⟨d', htile, hd'⟩ := hd.tile
  refine ⟨d', ?_, hd'⟩
  obtain ⟨i, hreader, -, hhigh⟩ := hd'.reader
  have hindex : d'.index = i := congrArg Reader.index hreader
  rw [macroBlock_eq hd.ready, hd.code]
  change (d.tileBlock (.jpeg 0) false >>= _) = _
  rw [htile]
  change Except.ok (d'.continueBelow cw) = _
  rw [continueBelow, if_neg (by omega)]

/-- An 8×8 frame in 4:4:4 mode that states `size` bytes of compressed data. -/
def smallHeader (size : Int) : FrameHeader :=
  { destX := 8, destY := 8, jpegTableSelector := 0, jpegYUVTableMapping := 0,
    advanceTableSelector := 0, rc4Enable := 0, mode420 := 0, compressSize := size }

theorem endless_prepare (n : Nat) (size : Int) :
    ∃ d, New.prepare (smallHeader size) (endlessPayload n) = .ok d ∧ Endless n d := by
  obtain ⟨qt, hprep⟩ := prepare_plain (h := smallHeader size) New (endlessPayload n)
    Nat.zero_ne_one ⟨Nat.zero_lt_succ _, Nat.zero_lt_succ _⟩
  have hvalid : (New.setGeometry (smallHeader size)).ensureBuffers.store.Valid :=
    valid_ensureBuffers (valid_setGeometry valid_new)
  have hgeometry : (New.setGeometry (smallHeader size)).ensureBuffers.geometry =
      smallGeometry := by
    simp [ensureBuffers, setGeometry, smallHeader, geometry, New, roundUp, smallGeometry]
  refine ⟨_, hprep, hvalid, hgeometry, ⟨2, rfl, Nat.le_refl 2, ?_⟩, rfl, rfl⟩
  exact Nat.le_add_left 2 (n + 1)

/-- A payload of this word alone, of any length from three words on, keeps the
loop going for ever when the header states a longer one. -/
theorem endless_decode {n : Nat} {size : Int}
    (hsize : (n + 3 : Int) < compressWords (smallHeader size)) (fuel : Nat) :
    New.decode fuel (smallHeader size) (endlessPayload n) = none := by
  obtain ⟨d, hprep, hd⟩ := endless_prepare n size
  have hlen := hd.ready.words
  rw [decode, hprep]
  change (if d.recv.length < 2 then _ else _) = _
  rw [if_neg (by omega)]
  cases hrun : Loop.run (macroBlock (compressWords (smallHeader size))) fuel d with
  | none => rfl
  | some out =>
      have hnever := Loop.not_returns (r := out) (I := Endless n)
        (fun s hs => endless_round hs hsize) hd
      exact (hnever ⟨fuel, hrun⟩).elim

/-- The bytes of a frame of 8×8 pixels in 4:4:4 mode. -/
def smallFrame (selector size : BitVec 8) (payload : List (BitVec 8)) : List (BitVec 8) :=
  List.replicate 13 0 ++ [8, 0, 8, 0] ++ List.replicate 27 0 ++ [selector] ++
    List.replicate 24 0 ++ [size, 0, 0, 0] ++ List.replicate 13 0 ++ payload

/-- Three words that the header calls fifty. -/
def endlessFrame : List (BitVec 8) :=
  smallFrame 0 200 [0x00, 0x0A, 0xC0, 0x0F, 0x00, 0x0A, 0xC0, 0x0F, 0x00, 0x0A, 0xC0, 0x0F]

theorem decode_endless :
    Reachable New ∧ Accepted endlessFrame (smallHeader 200) (endlessPayload 0) ∧
      ¬ ∃ fuel out, New.decode fuel (smallHeader 200) (endlessPayload 0) = some out := by
  refine ⟨.refl, ⟨_, rfl, by decide, rfl⟩, ?_⟩
  rintro ⟨fuel, out, hout⟩
  rw [endless_decode (by decide)] at hout
  cases hout

theorem decode_terminates_three :
    ∃ fuel out, New.decode fuel (smallHeader 12) (endlessPayload 0) = some out :=
  decode_terminates .refl (not_overruns_of_le valid_new (by decide))

end Decoder

end Outband.Kvm.Codec
