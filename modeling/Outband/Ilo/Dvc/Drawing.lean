import Outband.Ilo.Dvc.Blocks

/-!
# What a block shows

A block is built pixel by pixel and painted when it is full. `Drawing` carries the
pixels that have been pushed for the block under construction next to the decoder.
Before a block in the last row is painted, `clipBlock` blanks it from pixel `yClipped`
on, and the block shows what has been pushed if and only if none of the blanked
pixels is on the screen, or they are black anyway.

## Implementation notes

`pushPixel` is always given `lastColor`, so that the pixels of a round are as many
copies of the new `lastColor` as the count has grown by.
-/

namespace Outband.Ilo.Dvc.Decoder

open Foundation

variable {d d' d'' h : Decoder} {st : State} {F : Site → Prop}

/-! ### Pushing pixels -/

/-- Copies of `lastColor` have been added to the block, if anything. -/
structure Appends (d d' : Decoder) : Prop where
  le : d.pixelCount ≤ d'.pixelCount
  block : ∀ i : Fin 256, d'.block i =
    if d.pixelCount ≤ i ∧ i < d'.pixelCount then d'.lastColor else d.block i

theorem Appends.of_same (hcount : d'.pixelCount = d.pixelCount) (hblock : d'.block = d.block) :
    Appends d d' where
  le := hcount.ge
  block i := by
    rw [hcount, hblock, if_neg (by omega)]

theorem Appends.trans (h : Appends d d') (h' : Appends d' d'')
    (hcolor : d''.lastColor = d'.lastColor) : Appends d d'' where
  le := h.le.trans h'.le
  block i := by
    have hle := h.le
    have hle' := h'.le
    rw [h'.block, h.block, hcolor]
    split_ifs <;> first | rfl | omega

theorem appends_pushPixel (d : Decoder) :
    Meets (d.pushPixel d.lastColor)
      (fun r => Appends d r.1 ∧ r.1.lastColor = d.lastColor) fun _ => True := by
  unfold pushPixel
  split_ifs
  · exact ⟨.of_same rfl rfl, rfl⟩
  · by_cases hlt : d.pixelCount < 256
    · rw [wr_ok hlt]
      refine ⟨⟨Nat.le_succ _, fun i => ?_⟩, rfl⟩
      change Function.update d.block ⟨d.pixelCount, hlt⟩ d.lastColor i =
        if d.pixelCount ≤ i ∧ i < d.pixelCount + 1 then d.lastColor else d.block i
      by_cases hi : i = ⟨d.pixelCount, hlt⟩
      · subst hi
        simp
      · have hne : i.val ≠ d.pixelCount := fun heq => hi (Fin.ext heq)
        rw [Function.update_of_ne hi, if_neg (by omega)]
    · rw [wr_error (by omega)]
      trivial

theorem appends_repeatPixel (d : Decoder) (n : Nat) :
    Meets (repeatPixel n d) (fun d' => Appends d d' ∧ d'.lastColor = d.lastColor)
      fun _ => True := by
  induction n generalizing d with
  | zero => exact ⟨.of_same rfl rfl, rfl⟩
  | succ n ih =>
      apply (appends_pushPixel d).bind
      rintro ⟨d₁, pushed⟩ ⟨happends, hcolor⟩
      dsimp only
      split_ifs
      · exact (ih d₁).imp fun _ h => ⟨happends.trans h.1 h.2, h.2.trans hcolor⟩
      · exact ⟨happends, hcolor⟩

/-- A pixel that has become the new `lastColor`. -/
theorem appends_pushNew {px : BitVec 32} (hcount : d'.pixelCount = d.pixelCount)
    (hblock : d'.block = d.block) (hcolor : d'.lastColor = px) :
    Meets (do let (e, _) ← d'.pushPixel px; pure e) (Appends d) fun _ => True := by
  subst hcolor
  apply (appends_pushPixel d').bind
  rintro ⟨e, pushed⟩ ⟨happends, -⟩
  exact ⟨hcount ▸ happends.le, hcount ▸ hblock ▸ happends.block⟩

theorem appends_pixRGBB (d : Decoder) : Meets d.pixRGBB (Appends d) fun _ => True := by
  apply (Meets.trivial _).bind
  rintro ⟨cache, found⟩ _
  dsimp only
  split_ifs
  · exact .of_same rfl rfl
  · apply (Meets.trivial _).bind
    intro px _
    exact appends_pushNew rfl rfl rfl

theorem appends_pixelFromCache (d : Decoder) :
    Meets d.pixelFromCache (Appends d) fun _ => True := by
  apply (Meets.trivial _).bind
  rintro ⟨cache, color⟩ _
  dsimp only
  split_ifs
  · exact .of_same rfl rfl
  · apply (Meets.trivial _).bind
    intro px _
    exact appends_pushNew rfl rfl rfl

/-- The states outside `idle` add pixels, and `reset` gives the block up. -/
theorem appends_dispatch (d : Decoder) (hst : Dvc.idle st = false) (hreset : st ≠ .reset) :
    Meets (d.dispatch st) (fun r => Appends d r.1) fun _ => True := by
  have hpush {x : Except Site Decoder} (hx : Meets x (Appends d) fun _ => True) :
      Meets (x >>= fun d' => pure (d', true)) (fun r => Appends d r.1) fun _ => True :=
    hx.bind fun _ h => h
  cases st with
  | pixlru1 | pixlru0 | pixcode1 | pixcode2 | pixcode3 | pixcode4 =>
      apply (Meets.trivial _).bind
      intro rank _
      exact hpush ((appends_pixelFromCache { d with code := rank }).imp fun _ h => ⟨h.le, h.block⟩)
  | pixrptstd1 =>
      change Meets (if d.code = 7 then _ else _) _ _
      split_ifs
      · exact .of_same rfl rfl
      · exact .of_same rfl rfl
      · exact hpush ((appends_repeatPixel { d with code := d.code + 2 } _).imp fun _ h =>
          ⟨h.1.le, h.1.block⟩)
  | pixrptstd2 =>
      exact hpush ((appends_repeatPixel { d with code := d.code + 8 } _).imp fun _ h =>
        ⟨h.1.le, h.1.block⟩)
  | pixrptnstd => exact hpush ((appends_repeatPixel d _).imp fun _ h => h.1)
  | pixdup =>
      apply (appends_pushPixel d).bind
      rintro ⟨d₁, pushed⟩ ⟨happends, -⟩
      exact happends
  | pixgrey => exact hpush ((appends_pixRGBB _).imp fun _ h => ⟨h.le, h.block⟩)
  | pixrgbb => exact hpush (appends_pixRGBB d)
  | latched =>
      simp only [dispatch]
      split_ifs <;> exact .of_same rfl rfl
  | hunt =>
      change Meets (if d.nextState ≠ .hunt then _ else _) _ _
      split_ifs <;> exact .of_same rfl rfl
  | pixcode | pixrgbr | pixrgbg | pixels | pixrpt | pixrpt1 | pixfan | pixspec | exit =>
      exact .of_same rfl rfl
  | reset => exact absurd rfl hreset
  | _ => exact absurd hst (by decide)

/-- The side effects of a round add pixels to the block or give it up. -/
theorem Inv.appends_dispatch {r : Decoder} (hd : Inv d) (hbits : d.Enabled)
    (hread : d.getBits (d.bitsToRead d.state) = .ok r)
    (hdispatch : r.lookupNext.dispatch d.state = .ok (d', true)) :
    d'.shape.Valid ∧ (d'.pixelCount = 0 ∨ Appends d d') := by
  obtain ⟨r', hr⟩ := hd.exists_read hbits
  obtain rfl : r' = r := Except.ok.inj (hr.getBits.symm.trans hread)
  have heffect := hr.looked.effect_of_ok hdispatch
  refine ⟨heffect.valid, ?_⟩
  by_cases hidle : Dvc.idle d.state = true ∨ d.state = .reset
  · exact .inl (heffect.idle hidle)
  · obtain ⟨c, rfl⟩ := hd.of_getBits hread
    push Not at hidle
    have happends :=
      (Decoder.appends_dispatch _ (by simpa using hidle.1) hidle.2).of_eq_ok hdispatch
    exact .inr ⟨happends.le, happends.block⟩

/-- So does the whole round, which gives a full block up when it has painted it. -/
theorem appends_bitStep (hd : Inv d) :
    Meets d.bitStep (fun r => (r.elim id Prod.fst).pixelCount = 0 ∨ Appends d (r.elim id Prod.fst))
      fun _ => True := by
  rcases bitStep_cases hd with ⟨-, heq⟩ | ⟨-, heq⟩ | ⟨-, -, -, heq⟩ | ⟨hroom, hexit, hbits, -⟩
  · rw [heq]
    exact .inr (.of_same rfl rfl)
  · rw [heq]
    exact .inr (.of_same rfl rfl)
  · rw [heq]
    trivial
  · obtain ⟨r, d', e, hparts⟩ := hd.exists_parts hbits hexit hroom
    obtain ⟨hvalid, happends⟩ := hd.appends_dispatch hbits hparts.read.getBits hparts.dispatch
    rw [hparts.bitStep]
    have hfinish : Meets d'.finishBlock _ fun _ => False := meets_finishBlock hvalid
    rcases hfinish.of_eq_ok hparts.finishBlock with rfl | ⟨-, -, hstep⟩
    · exact happends.imp id fun h => ⟨h.le, h.block⟩
    · exact .inl hstep.pixelCount

/-! ### Blocks under construction -/

/-- A decoder between two bytes or at a loop head, with the pixels pushed for its block. -/
structure Drawing where
  dec : Decoder := NewDecoder
  inLoop : Bool := false
  pushed : List (BitVec 32) := []

/-- The pixels that have been pushed between `h` and `d`. -/
def pushedSince (h d : Decoder) : List (BitVec 32) :=
  List.replicate (d.pixelCount - h.pixelCount) d.lastColor

namespace Drawing

def next (p : Drawing) (d : Decoder) (inLoop : Bool) : Drawing where
  dec := d
  inLoop := inLoop
  pushed := if d.pixelCount = 0 then [] else p.pushed ++ pushedSince p.dec d

/-- A fault ends the run. -/
def step : Move → Drawing → Option Drawing
  | .byte b, p =>
      if p.inLoop then none
      else match p.dec.accept b with
        | .ok d => some (p.next d true)
        | .error _ => none
  | .round, p =>
      if p.inLoop then
        match p.dec.bitStep with
        | .ok (.inl d) => some (p.next d true)
        | .ok (.inr (d, _)) => some (p.next d false)
        | .error _ => none
      else none

theorem step_eq (m : Move) (p : Drawing) : step m p = observe Drawing.dec Drawing.inLoop
    (fun _ d p => p.next d true) (fun d p => p.next d true) (fun d p => p.next d false) m p := by
  cases m <;> rfl

end Drawing

/-- The block of `d` holds the pixels that have been pushed for it. -/
structure Holds (pushed : List (BitVec 32)) (d : Decoder) : Prop where
  length : pushed.length = d.pixelCount
  block : ∀ i : Fin 256, i < d.pixelCount → pushed[i.val]? = some (d.block i)

theorem Holds.appends {pushed : List (BitVec 32)} (h : Holds pushed d) (happends : Appends d d') :
    Holds (pushed ++ pushedSince d d') d' where
  length := by
    have hle := happends.le
    rw [List.length_append, pushedSince, List.length_replicate, h.length]
    omega
  block i hi := by
    rw [happends.block i]
    by_cases hold : i < d.pixelCount
    · rw [List.getElem?_append_left (h.length ▸ hold), h.block i hold, if_neg (by omega)]
    · rw [List.getElem?_append_right (by rw [h.length]; omega), if_pos ⟨by omega, hi⟩, pushedSince,
        List.getElem?_replicate_of_lt (by rw [h.length]; omega)]

/-- The invariant of a run. -/
structure Drawing.Sound (p : Drawing) : Prop where
  inv : Inv p.dec
  holds : Holds p.pushed p.dec

theorem Drawing.Sound.next {p : Drawing} (hp : p.Sound) (hd : Inv d)
    (happends : d.pixelCount = 0 ∨ Appends p.dec d) (inLoop : Bool) : (p.next d inLoop).Sound := by
  refine ⟨hd, ?_⟩
  change Holds (if d.pixelCount = 0 then [] else _) d
  split_ifs with hcount
  · exact ⟨hcount.symm, fun i hi => by omega⟩
  · exact hp.holds.appends (happends.resolve_left hcount)

theorem Drawing.Sound.step {m : Move} {p p' : Drawing} (hp : p.Sound)
    (hstep : Drawing.step m p = some p') : p'.Sound := by
  rw [Drawing.step_eq] at hstep
  cases observed_of_observe hstep with
  | @byte b d _ haccept =>
      obtain ⟨d₀, haccept', hnew⟩ := accept_spec hp.inv b
      obtain ⟨z, nx, st, code, heq, -⟩ := p.dec.addBits_spec b.isLt
      cases haccept.symm.trans haccept'
      refine hp.next hnew.inv (.inr ?_) true
      rw [Decoder.accept, heq] at haccept
      cases haccept
      exact .of_same rfl rfl
  | goOn hround =>
      have hinv := (meets_bitStep hp.inv).of_eq_ok hround
      exact hp.next hinv ((appends_bitStep hp.inv).of_eq_ok hround) true
  | leave hround =>
      have hinv := (meets_bitStep hp.inv).of_eq_ok hround
      exact hp.next hinv ((appends_bitStep hp.inv).of_eq_ok hround) false

theorem Drawing.sound_of_reached {p : Drawing}
    (hreached : Reached Drawing.step (fun _ _ => True) {} p) : p.Sound :=
  hreached.invariant ⟨inv_NewDecoder, rfl, fun _ hi => absurd hi (Nat.not_lt_zero _)⟩
    fun _ _ _ hp _ hstep => hp.step hstep

/-! ### Painting a full block -/

/-- The round from the loop head `h` has completed a block: `d` is about to paint it. -/
structure Completes (h d : Decoder) : Prop where
  enabled : h.Enabled
  dispatched : ∃ r, h.getBits (h.bitsToRead h.state) = .ok r ∧
    r.lookupNext.dispatch h.state = .ok (d, true)
  next : d.nextState = .pixels
  full : d.pixelCount = 16 * d.blockHeight

/-- The cell in row `row` and column `col` of the current block is on the screen. -/
def CellShown (d : Decoder) (row col : Nat) : Prop :=
  d.FB.OnScreen (d.lastx * 16) (d.lasty * d.blockHeight) row col

/-- Where the framebuffer holds that cell. -/
def cellIndex (d : Decoder) (row col : Nat) : Nat :=
  d.FB.cellAt (d.lastx * 16) (d.lasty * d.blockHeight) row col

/-- The screen of `d'` is that of `d` with `pixels` in place of the current block. -/
structure Shows (pixels : List (BitVec 32)) (d d' : Decoder) : Prop where
  width : d'.FB.Width = d.FB.Width
  height : d'.FB.Height = d.FB.Height
  inside : ∀ row < d.blockHeight, ∀ col < 16, d.CellShown row col →
    d'.FB.Pixels[d.cellIndex row col]? = pixels[16 * row + col]?
  outside : ∀ i, (∀ row < d.blockHeight, ∀ col < 16, d.CellShown row col →
    d.cellIndex row col ≠ i) → d'.FB.Pixels[i]? = d.FB.Pixels[i]?

/-- The current block is not clipped, or only where it is black or off the screen. -/
def ClipHidden (pixels : List (BitVec 32)) (d : Decoder) : Prop :=
  d.yClipped = 0 ∨ d.lasty ≠ d.sizeY ∨ ∀ row < d.blockHeight, ∀ col < 16, d.CellShown row col →
    d.yClipped ≤ 16 * row + col → pixels[16 * row + col]? = some (d.colorRemap 0)

/-- The block that `clipBlock` leaves of a full one. -/
def clipped (d : Decoder) (i : Fin 256) : BitVec 32 :=
  if 0 < d.yClipped ∧ d.lasty = d.sizeY ∧ d.yClipped ≤ i then d.colorRemap 0 else d.block i

theorem meets_fill (block : Fin 256 → BitVec 32) (fill : BitVec 32) (start : Nat) :
    Meets (forUp (fun i block => wr Site.block block i fill) start (256 - start) block)
      (fun block' => block' = fun i : Fin 256 => if start ≤ i then fill else block i) F := by
  have hloop : Meets (forUp (fun i block => wr Site.block block i fill) start (256 - start) block)
      (fun block' => block' = fun i : Fin 256 =>
        if start ≤ i ∧ i < start + (256 - start) then fill else block i) F := by
    apply meets_forUp (I := fun n block' => block' = fun i : Fin 256 =>
      if start ≤ i ∧ i < n then fill else block i)
    · funext i
      rw [if_neg (by omega)]
    · rintro n block' hstart hn rfl
      rw [wr_ok (show n < 256 by omega)]
      simp only [Meets.ok_iff]
      funext i
      by_cases hi : i = ⟨n, by omega⟩
      · subst hi
        simp [hstart]
      · have hne : i.val ≠ n := fun heq => hi (Fin.ext heq)
        rw [Function.update_of_ne hi]
        exact if_congr (by omega) rfl rfl
  apply hloop.imp
  rintro block' rfl
  funext i
  exact if_congr (by omega) rfl rfl

theorem clipBlock_spec (hcount : d.pixelCount ≠ 0) :
    d.clipBlock = .ok { d with block := d.clipped } := by
  unfold clipBlock
  split_ifs with hclip
  · obtain ⟨block, hblock, heq⟩ := (meets_fill (F := fun _ => False) d.block (d.colorRemap 0)
      d.yClipped).exists_ok
    have hsame : d.clipped = block := by
      rw [heq]
      funext i
      simp only [clipped, hclip, true_and]
    rw [rd_ok (by decide)]
    change (forUp _ _ _ _ >>= _) = _
    rw [hsame]
    exact congrArg (· >>= _) hblock
  · have hsame : d.clipped = d.block := by
      funext i
      rw [clipped, if_neg fun h => hclip ⟨hcount, h.1, h.2.1⟩]
    rw [hsame]
    rfl

/-- A full block is painted as it has been clipped. -/
theorem nextBlock_full (hvalid : d.shape.Valid) (hcount : d.pixelCount ≠ 0)
    (hvideo : d.videoDetected = true) :
    Meets (d.nextBlock 1) (fun d' => Framebuffer.Pasted d.clipped (d.lastx * 16)
      (d.lasty * d.blockHeight) (fun row col => row < d.blockHeight ∧ col < 16) d.FB d'.FB) F := by
  have hblock : d.blockWidth = 16 := hvalid.blockWidth
  have hheight : d.blockHeight = 8 ∨ d.blockHeight = 16 := hvalid.blockHeight
  rw [nextBlock, clipBlock_spec hcount]
  change Meets (paintBlocks d.videoDetected 1 (d.lastx * d.blockWidth) (d.lasty * d.blockHeight)
    { d with block := d.clipped }.started) _ _
  rw [hvideo, hblock, paintBlocks_succ]
  apply (Framebuffer.PasteBlock_spec hvalid.pixels d.clipped (d.lastx * 16)
    (d.lasty * d.blockHeight) (show d.blockHeight ≤ 16 by omega)).bind
  intro fb hfb
  split_ifs
  · exact hfb
  · exact hfb

variable {p : Drawing}

theorem Drawing.Sound.shown_iff (hp : p.Sound) (hdone : Completes p.dec d)
    (hvideo : d.videoDetected = true) :
    (∃ d', d.nextBlock 1 = .ok d' ∧ Shows (p.pushed ++ pushedSince p.dec d) d d') ↔
      ClipHidden (p.pushed ++ pushedSince p.dec d) d := by
  obtain ⟨hinv, hholds⟩ := hp
  obtain ⟨r, hread, hdispatch⟩ := hdone.dispatched
  obtain ⟨hvalid, happends⟩ := hinv.appends_dispatch hdone.enabled hread hdispatch
  have hheight : d.blockHeight = 8 ∨ d.blockHeight = 16 := hvalid.blockHeight
  have hcount := hdone.full
  have hpixels := hholds.appends (happends.resolve_left (by omega))
  obtain ⟨d', hnext, hpasted⟩ :=
    (nextBlock_full (F := fun _ => False) hvalid (by omega) hvideo).exists_ok
  have hpainted : ∀ row < d.blockHeight, ∀ col < 16, d.CellShown row col →
      d'.FB.Pixels[d.cellIndex row col]? =
        if 0 < d.yClipped ∧ d.lasty = d.sizeY ∧ d.yClipped ≤ 16 * row + col
        then some (d.colorRemap 0) else (p.pushed ++ pushedSince p.dec d)[16 * row + col]? := by
    intro row hrow col hcol hshown
    have hlt : row * 16 + col < 256 := by omega
    have hcell := hpixels.block ⟨row * 16 + col, hlt⟩ (by change row * 16 + col < _; omega)
    dsimp only at hcell
    rw [cellIndex, hpasted.plotted.inside row col ⟨⟨hrow, hcol⟩, hshown⟩, Framebuffer.blockCell,
      dif_pos hlt, clipped, Nat.mul_comm 16 row, hcell]
    exact apply_ite some _ _ _
  constructor
  · rintro ⟨e, he, hshows⟩
    obtain rfl : d' = e := Except.ok.inj (hnext.symm.trans he)
    by_cases hzero : d.yClipped = 0
    · exact .inl hzero
    · by_cases hlast : d.lasty = d.sizeY
      · refine .inr (.inr fun row hrow col hcol hshown hclip => ?_)
        rw [← hshows.inside row hrow col hcol hshown, hpainted row hrow col hcol hshown,
          if_pos ⟨by omega, hlast, hclip⟩]
      · exact .inr (.inl hlast)
  · intro hhidden
    refine ⟨d', hnext, hpasted.width, hpasted.height, ?_, ?_⟩
    · intro row hrow col hcol hshown
      rw [hpainted row hrow col hcol hshown]
      split_ifs with hclip
      · obtain ⟨hpos, hlast, hle⟩ := hclip
        rcases hhidden with hzero | hother | hblack
        · omega
        · exact absurd hlast hother
        · exact (hblack row hrow col hcol hshown hle).symm
      · rfl
    · intro i hi
      exact hpasted.plotted.outside i fun row col hcell => hi row hcell.1.1 col hcell.1.2 hcell.2

/-- A block that is complete shows the pixels that have been pushed for it if and only if nothing
of it that is on the screen is clipped, or only what is black. -/
theorem block_shown_iff (hreached : Reached Drawing.step (fun _ _ => True) {} p)
    (hdone : Completes p.dec d) (hvideo : d.videoDetected = true) :
    (∃ d', d.nextBlock 1 = .ok d' ∧ Shows (p.pushed ++ pushedSince p.dec d) d d') ↔
      ClipHidden (p.pushed ++ pushedSince p.dec d) d :=
  (Drawing.sound_of_reached hreached).shown_iff hdone hvideo

/-- A test whether the round from `h` completes a block and leads to a decoder with a property. -/
def completesWith (h : Decoder) (Q : Decoder → Prop) [DecidablePred Q] : Bool :=
  decide (h.bitsToRead h.state ≤ h.ibBcnt) &&
    (h.getBits (h.bitsToRead h.state) >>= fun r => r.lookupNext.dispatch h.state).toOption.any
      fun r => decide (r.2 = true ∧ r.1.nextState = .pixels ∧
        r.1.pixelCount = 16 * r.1.blockHeight ∧ Q r.1)

theorem exists_completes {Q : Decoder → Prop} [DecidablePred Q] (htest : h.completesWith Q = true) :
    ∃ d, Completes h d ∧ Q d := by
  rw [completesWith, Bool.and_eq_true, decide_eq_true_eq] at htest
  obtain ⟨hbits, hround⟩ := htest
  obtain ⟨⟨d, hungOK⟩, hround, rfl, hnext, hfull, hQ⟩ := exists_ok_of_any hround
  obtain ⟨r, hread, hdispatch⟩ := exists_of_bind_ok hround
  exact ⟨d, ⟨hbits, ⟨r, hread, hdispatch⟩, hnext, hfull⟩, hQ⟩

/-- Bytes with the number of rounds after each. -/
def moves (bytes : List (BitVec 8 × Nat)) : List Move :=
  bytes.flatMap fun b => .byte b.1 :: List.replicate b.2 .round

/-- A white block on a screen of eight lines: the lines below are blanked. -/
theorem block_shown_eight : ∃ p d, Reached Drawing.step (fun _ _ => True) {} p ∧
    Completes p.dec d ∧ d.FB.Height = 8 ∧ d.yClipped = 128 ∧
    ∃ d', d.nextBlock 1 = .ok d' ∧ Shows (p.pushed ++ pushedSince p.dec d) d d' := by
  have htest : ((exec Drawing.step (fun _ _ => True)
      (moves [(13, 8), (16, 2), (16, 3), (240, 5), (255, 5), (63, 0)]) {}).any fun p => decide
        (p.dec.completesWith (fun d => d.videoDetected = true ∧ d.FB.Height = 8 ∧ d.lasty = 0 ∧
          d.yClipped = 128) = true)) = true := by
    decide +kernel
  obtain ⟨p, hreached, hround⟩ := exists_reached_of_exec htest
  obtain ⟨d, hdone, hvideo, hheight, hlasty, hclip⟩ := exists_completes hround
  refine ⟨p, d, hreached, hdone, hheight, hclip, (block_shown_iff hreached hdone hvideo).mpr ?_⟩
  refine .inr (.inr ?_)
  rintro row - col hcol ⟨-, hrow⟩ hle
  rw [hlasty] at hrow
  omega

/-- A white block on a screen of ten lines: the last four lines are blanked. -/
theorem block_clipped : ¬ ∀ p d, Reached Drawing.step (fun _ _ => True) {} p →
    Completes p.dec d → d.videoDetected = true →
    ∃ d', d.nextBlock 1 = .ok d' ∧ Shows (p.pushed ++ pushedSince p.dec d) d d' := by
  have htest : ((exec Drawing.step (fun _ _ => True)
      (moves [(13, 8), (16, 2), (80, 3), (240, 5), (255, 5), (63, 0)]) {}).any fun p => decide
        (p.dec.completesWith (fun d => d.videoDetected = true ∧ d.FB.Width = 16 ∧
          d.FB.Height = 10 ∧ d.blockHeight = 16 ∧ d.lastx = 0 ∧ d.lasty = 0 ∧ d.sizeY = 0 ∧
          d.yClipped = 96 ∧ (p.pushed ++ pushedSince p.dec d)[96]? ≠ some (d.colorRemap 0)) =
            true)) = true := by
    decide +kernel
  obtain ⟨p, hreached, hround⟩ := exists_reached_of_exec htest
  obtain ⟨d, hdone, hvideo, hwidth, hheight, hblock, hlastx, hlasty, hsize, hclip, hwhite⟩ :=
    exists_completes hround
  intro hall
  have hshown : d.CellShown 6 0 :=
    ⟨by rw [hwidth, hlastx]; decide, by rw [hheight, hlasty, hblock]; decide⟩
  have hhidden := ((Drawing.sound_of_reached hreached).shown_iff hdone hvideo).mp
    (hall p d hreached hdone hvideo)
  rcases hhidden with hzero | hother | hblack
  · omega
  · omega
  · exact hwhite (hblack 6 (by omega) 0 (by decide) hshown (by omega))

end Outband.Ilo.Dvc.Decoder
