import Outband.Ilo.Dvc.Stream
import Outband.Ilo.Dvc.Untouched

/-!
# The size of the screen

A screen mode is given by numbers of at most eight bits: a number of blocks of
16 pixels across, a number of 16 pixels down, and the lines of the last row of
blocks. No screen is therefore wider than 4080 or higher than 4335 pixels.

`Shown` are the decoders whose framebuffer the client may be sent: between two
bytes, at a loop head, and behind the side effects of a state, which is where
the calls of the controller stand.
-/

namespace Outband.Ilo.Dvc.Decoder

open Foundation

variable {d d' h : Decoder} {st : State} {bs : List (BitVec 8)} {b : BitVec 8}

/-- The numbers a screen size is made of fit in eight bits, and so does the screen. -/
structure Small (d : Decoder) : Prop where
  newx : d.newx ≤ 255
  sizeX : d.sizeX ≤ 255
  sizeY : d.sizeY ≤ 255
  width : d.FB.Width ≤ 4080
  height : d.FB.Height ≤ 4335

theorem Small.of_rest (hs : Small d) (hrest : d'.rest = d.rest) : Small d' where
  newx := (congrArg Rest.newx hrest).trans_le hs.newx
  sizeX := (congrArg Rest.sizeX hrest).trans_le hs.sizeX
  sizeY := (congrArg Rest.sizeY hrest).trans_le hs.sizeY
  width := (congrArg Rest.width hrest).trans_le hs.width
  height := (congrArg Rest.height hrest).trans_le hs.height

theorem small_alignByte (hs : Small d) : Meets d.alignByte Small fun _ => True := by
  obtain ⟨c, acc, cnt, heq, -⟩ := d.alignByte_spec
  rw [heq]
  exact ⟨hs.newx, hs.sizeX, hs.sizeY, hs.width, hs.height⟩

theorem small_dispatchCommand (hs : Small d) : Meets d.dispatchCommand Small fun _ => True := by
  by_cases h5 : d.cmdLast = 5
  · rw [dispatchCommand, h5]
    exact ⟨show 50 ≤ 255 by decide, hs.sizeX, hs.sizeY, hs.width, hs.height⟩
  by_cases h9 : d.cmdLast = 9
  · rw [dispatchCommand, h9]
    exact small_alignByte hs
  exact (rest_dispatchCommand d h5 h9).imp fun _ hrest => hs.of_rest hrest

/-- A code that selects a part of a screen size has at most eight bits. -/
theorem Looked.code_le (hlooked : Looked d st) (hst : st ∈ [.movexy0, .mode0, .mode1, .mode2]) :
    d.code ≤ 255 := by
  have hwidth : d.bitsToRead st = widthOf d.bitsPerColor d.blockHeight st :=
    congrFun hlooked.valid.widths st
  have hle : d.bitsToRead st ≤ 8 := by
    rw [hwidth]
    exact widthOf_le hlooked.valid.bitsPerColor.2 st
  have hpos : 0 < d.bitsToRead st := by
    have hbpc : 2 ≤ d.bitsPerColor := hlooked.valid.bitsPerColor.1
    have hwide : zeroWidth st ≠ true := by
      revert hst
      cases st <;> decide
    rw [hwidth, Nat.pos_iff_ne_zero, Ne, widthOf_eq_zero_iff hbpc]
    exact hwide
  have hpow : 2 ^ d.bitsToRead st ≤ 2 ^ 8 := Nat.pow_le_pow_right (by decide) hle
  have hcode := hlooked.code hpos
  omega

theorem small_mode2 (hs : Small d) (hcode : d.code ≤ 255) (hblock : d.blockWidth = 16) :
    Small d.mode2 := by
  have hwidth : d.sizeX * d.blockWidth ≤ 4080 := by
    rw [hblock]
    have hsize := hs.sizeX
    omega
  have hheight : d.sizeY * 16 + d.code ≤ 4335 := by
    have hsize := hs.sizeY
    omega
  have hhalf (e : Decoder) : e.setHalfHeight.rest = e.rest := by
    unfold setHalfHeight
    split_ifs <;> rfl
  simp only [mode2]
  split_ifs
  · exact ⟨hs.newx, hs.sizeX, hs.sizeY, hs.width, hs.height⟩
  · have hresized : Small { d.enterMode with
        FB := d.enterMode.FB.Resize d.enterMode.screenX d.enterMode.screenY } :=
      ⟨hs.newx, hs.sizeX, hs.sizeY, hwidth, hheight⟩
    exact (hresized.of_rest (hhalf _)).of_rest rfl

/-- The side effects of a state keep the screen small. -/
theorem small_dispatch (hlooked : Looked d st) (hs : Small d) :
    Meets (d.dispatch st) (fun r => Small r.1) fun _ => True := by
  by_cases htouch : st ∈ touching
  · cases st with
    | hunt =>
        change Meets (if d.nextState ≠ .hunt then _ else _) _ _
        split_ifs
        · exact ⟨hs.newx, hs.sizeX, hs.sizeY, hs.width, hs.height⟩
        · exact hs
    | timeout =>
        simp only [dispatch]
        apply Meets.bind (P := Small)
        · apply small_alignByte
          split_ifs
          · exact ⟨hs.newx, hs.sizeX, hs.sizeY, hs.width, hs.height⟩
          · exact hs
        · intro d₁ hs₁
          exact ⟨hs₁.newx, hs₁.sizeX, hs₁.sizeY, hs₁.width, hs₁.height⟩
    | corp =>
        change Meets (if d.code ≠ 0 then _ else _) _ _
        split_ifs
        · exact hs
        · apply (small_dispatchCommand hs).bind
          intro d₁ hs₁
          exact ⟨hs₁.newx, hs₁.sizeX, hs₁.sizeY, hs₁.width, hs₁.height⟩
    | movexy0 =>
        refine ⟨?_, hs.sizeX, hs.sizeY, hs.width, hs.height⟩
        change (if d.sizeX < d.code then 0 else d.code) ≤ 255
        have hcode := hlooked.code_le (by decide)
        split_ifs <;> omega
    | mode0 => exact ⟨hlooked.code_le (by decide), hs.sizeX, hs.sizeY, hs.width, hs.height⟩
    | mode1 => exact ⟨hs.newx, hs.newx, hlooked.code_le (by decide), hs.width, hs.height⟩
    | mode2 => exact small_mode2 hs (hlooked.code_le (by decide)) hlooked.valid.blockWidth
    | _ => exact absurd htouch (by decide)
  · exact (keeps_dispatch d htouch).imp fun _ hkeeps => hs.of_rest hkeeps.rest

theorem Small.read {r : Decoder} (hs : Small d) (hread : Read d r) (hinv : Inv d) :
    Small r.lookupNext := by
  obtain ⟨c, heq, -⟩ := d.getBits_spec (hinv.width_le d.state)
  rw [hread.getBits] at heq
  cases heq
  exact ⟨hs.newx, hs.sizeX, hs.sizeY, hs.width, hs.height⟩

/-- So does a round of the bit loop. -/
theorem small_bitStep (hinv : Inv d) (hs : Small d) :
    Meets d.bitStep (Sum.elim Small fun r => Small r.1) fun _ => True := by
  by_cases hbits : d.Enabled
  · obtain ⟨r, hread⟩ := hinv.exists_read hbits
    rw [hread.bitStep_eq hbits]
    apply (small_dispatch hread.looked (hs.read hread hinv)).bind
    rintro ⟨d₁, hungOK⟩ hs₁
    cases hungOK with
    | false => exact hs₁
    | true =>
        apply (keeps_finishBlock d₁).bind
        intro d₂ hkeeps
        have hs₂ : Small d₂ := Small.of_rest hs₁ hkeeps.rest
        split_ifs
        · exact hs₂
        · exact ⟨hs₂.newx, hs₂.sizeX, hs₂.sizeY, hs₂.width, hs₂.height⟩
        · exact ⟨hs₂.newx, hs₂.sizeX, hs₂.sizeY, hs₂.width, hs₂.height⟩
  · rw [bitStep_short hbits]
    exact hs

/-! ### Streams -/

/-- The memory invariant with the bounds of the screen. -/
structure Bounded (d : Decoder) : Prop where
  inv : Inv d
  small : Small d

theorem bounded_bitStep (hd : Bounded d) :
    Meets d.bitStep (Sum.elim Bounded fun r => Bounded r.1) fun _ => True := by
  have hinv : Meets d.bitStep (Sum.elim Inv fun r => Inv r.1) fun _ => True :=
    (meets_bitStep hd.inv).mono (fun _ h => h) fun _ _ => trivial
  apply (hinv.and (small_bitStep hd.inv hd.small)).imp
  rintro (d' | r) ⟨hinv', hsmall⟩
  · exact ⟨hinv', hsmall⟩
  · exact ⟨hinv', hsmall⟩

theorem Bounded.accept {d₀ : Decoder} (hd : Bounded d) (haccept : d.accept b = .ok d₀) :
    Bounded d₀ := by
  have hinv : Inv d₀ := by
    obtain ⟨d₁, haccept', hnew⟩ := accept_spec hd.inv b
    rw [haccept] at haccept'
    cases haccept'
    exact hnew.inv
  refine ⟨hinv, ?_⟩
  obtain ⟨z, nx, st, code, heq, -⟩ := d.addBits_spec b.isLt
  rw [Decoder.accept, heq] at haccept
  cases haccept
  exact ⟨hd.small.newx, hd.small.sizeX, hd.small.sizeY, hd.small.width, hd.small.height⟩

theorem Fed.bounded {ok : Decoder → Prop} (hfed : Fed ok bs d) : Bounded d := by
  induction hfed with
  | new => exact ⟨inv_NewDecoder, by decide, by decide, by decide, by decide, by decide⟩
  | feed _ _ done ih =>
      obtain ⟨d₀, haccept, -⟩ := accept_spec ih.inv _
      exact ((feeds_iff haccept).mp done).meets (fun _ => bounded_bitStep) (ih.accept haccept)

theorem HeadOf.bounded (hhead : HeadOf d b h) (hd : Bounded d) : Bounded h := by
  obtain ⟨d₀, haccept, hvisits⟩ := hhead
  exact hvisits.invariant (fun _ => bounded_bitStep) (hd.accept haccept)

/-- The decoders whose framebuffer may be sent. -/
inductive Shown : Decoder → Prop
  | fed {bs : List (BitVec 8)} {d : Decoder} (run : Fed (fun _ => True) bs d) : Shown d
  | head {bs : List (BitVec 8)} {b : BitVec 8} {d h : Decoder} (run : Fed (fun _ => True) bs d)
      (head : HeadOf d b h) : Shown h
  | dispatched {bs : List (BitVec 8)} {b : BitVec 8} {d h r d' : Decoder} {hungOK : Bool}
      (run : Fed (fun _ => True) bs d) (head : HeadOf d b h) (bits : h.Enabled)
      (read : h.getBits (h.bitsToRead h.state) = .ok r)
      (done : r.lookupNext.dispatch h.state = .ok (d', hungOK)) : Shown d'

/-- A framebuffer that may be sent has fewer than 2^16 rows and columns and converts to four
bytes a pixel. -/
theorem Shown.toRGBX (hshown : Shown d) :
    d.FB.Width < 65536 ∧ d.FB.Height < 65536 ∧
      ∃ pix, d.FB.ToRGBX = .ok pix ∧ pix.length = d.FB.Width * d.FB.Height * 4 := by
  have hd : d.FB.Sized ∧ Small d := by
    cases hshown with
    | fed run => exact ⟨run.bounded.inv.valid.pixels, run.bounded.small⟩
    | head run head =>
        have hhead := head.bounded run.bounded
        exact ⟨hhead.inv.valid.pixels, hhead.small⟩
    | dispatched run head bits read done =>
        have hhead := head.bounded run.bounded
        obtain ⟨r', hread⟩ := hhead.inv.exists_read bits
        obtain rfl : r' = _ := Except.ok.inj (hread.getBits.symm.trans read)
        exact ⟨(hread.looked.effect_of_ok done).valid.pixels,
          (small_dispatch hread.looked (hhead.small.read hread hhead.inv)).of_eq_ok done⟩
  have hwidth := hd.2.width
  have hheight := hd.2.height
  obtain ⟨pix, hpix, hlength⟩ := (Framebuffer.meets_ToRGBX hd.1).exists_ok
  exact ⟨by omega, by omega, pix, hpix, hlength⟩

end Outband.Ilo.Dvc.Decoder
