import Outband.Ilo.Dvc.Dispatch

/-!
# What the states leave alone

Most states work on the block, the colour cache and the record of commands. The
count of zeros, the bit buffer, the size of the screen and the palette are not theirs:
`Rest` and `Palette` collect these fields, and the lemmas say which helpers and states
keep them.
-/

namespace Outband.Ilo.Dvc

open Foundation

/-- The fields that only the bit loop and the screen modes change. -/
structure Rest where
  zeroCount : Nat
  ibAcc : Nat
  ibBcnt : Nat
  newx : Nat
  sizeX : Nat
  sizeY : Nat
  width : Nat
  height : Nat

/-- The colour depth and the pixels of the colours. Only a command changes them. -/
structure Palette where
  bitsPerColor : Nat
  colorRemap : Fin 32768 → BitVec 32

namespace Framebuffer

variable {f f' : Framebuffer}

/-- Painting keeps the size of the screen, wherever it paints. -/
theorem size_PasteBlock (f : Framebuffer) (block : Fin 256 → BitVec 32) (x y w h : Nat) :
    Meets (f.PasteBlock block x y w h)
      (fun f' => f'.Width = f.Width ∧ f'.Height = f.Height) fun _ => True := by
  have hrow (f₁ : Framebuffer) (dst src : Nat) (hsize : f₁.Width = f.Width ∧ f₁.Height = f.Height) :
      Meets (f₁.pasteRow block x w dst src)
        (fun f' => f'.Width = f.Width ∧ f'.Height = f.Height) fun _ => True := by
    unfold pasteRow
    apply meets_forUp (I := fun _ (f' : Framebuffer) => f'.Width = f.Width ∧ f'.Height = f.Height)
    · exact hsize
    · intro col f₂ _ _ hsize₂
      split_ifs
      · apply (Meets.trivial _).bind
        intro px _
        apply (Meets.trivial _).bind
        intro pixels _
        exact hsize₂
      · exact hsize₂
  unfold PasteBlock
  apply meets_forUp (I := fun _ (f' : Framebuffer) => f'.Width = f.Width ∧ f'.Height = f.Height)
  · exact ⟨rfl, rfl⟩
  · intro row f₁ _ _ hsize
    dsimp only
    split_ifs
    · exact hsize
    · exact hrow f₁ _ _ hsize

end Framebuffer

namespace Decoder

variable {d d' d'' : Decoder} {st : State}

def rest (d : Decoder) : Rest :=
  { zeroCount := d.zeroCount, ibAcc := d.ibAcc, ibBcnt := d.ibBcnt, newx := d.newx,
    sizeX := d.sizeX, sizeY := d.sizeY, width := d.FB.Width, height := d.FB.Height }

def palette (d : Decoder) : Palette :=
  { bitsPerColor := d.bitsPerColor, colorRemap := d.colorRemap }

/-- Neither the rest nor the palette has changed. -/
structure Keeps (d d' : Decoder) : Prop where
  rest : d'.rest = d.rest
  palette : d'.palette = d.palette

theorem Keeps.trans (h : Keeps d d') (h' : Keeps d' d'') : Keeps d d'' :=
  ⟨h'.rest.trans h.rest, h'.palette.trans h.palette⟩

theorem keeps_pushPixel (d : Decoder) (value : BitVec 32) :
    Meets (d.pushPixel value) (fun r => Keeps d r.1) fun _ => True := by
  unfold pushPixel
  split_ifs
  · exact ⟨rfl, rfl⟩
  · apply (Meets.trivial _).bind
    intro block _
    exact ⟨rfl, rfl⟩

theorem keeps_repeatPixel (d : Decoder) (n : Nat) :
    Meets (repeatPixel n d) (Keeps d) fun _ => True := by
  induction n generalizing d with
  | zero => exact ⟨rfl, rfl⟩
  | succ n ih =>
      apply (keeps_pushPixel d _).bind
      rintro ⟨d₁, pushed⟩ hkeeps
      dsimp only
      split_ifs
      · exact (ih d₁).imp fun _ h => hkeeps.trans h
      · exact hkeeps

/-- A pixel is added, whether or not the block is full. -/
theorem keeps_pushAny (d : Decoder) (px : BitVec 32) :
    Meets (do let (d', _) ← d.pushPixel px; pure d') (Keeps d) fun _ => True := by
  apply (keeps_pushPixel d px).bind
  rintro ⟨d₁, pushed⟩ hkeeps
  exact hkeeps

theorem keeps_pixRGBB (d : Decoder) : Meets d.pixRGBB (Keeps d) fun _ => True := by
  apply (Meets.trivial _).bind
  rintro ⟨cache, found⟩ _
  dsimp only
  split_ifs
  · exact ⟨rfl, rfl⟩
  · apply (Meets.trivial _).bind
    intro px _
    exact (keeps_pushAny _ px).imp fun _ h => ⟨h.rest, h.palette⟩

theorem keeps_pixelFromCache (d : Decoder) : Meets d.pixelFromCache (Keeps d) fun _ => True := by
  apply (Meets.trivial _).bind
  rintro ⟨cache, color⟩ _
  dsimp only
  split_ifs
  · exact ⟨rfl, rfl⟩
  · apply (Meets.trivial _).bind
    intro px _
    exact (keeps_pushAny _ px).imp fun _ h => ⟨h.rest, h.palette⟩

theorem keeps_paintBlocks (paint : Bool) (count px py : Nat) (d : Decoder) :
    Meets (paintBlocks paint count px py d) (Keeps d) fun _ => True := by
  induction count generalizing px d with
  | zero => exact ⟨rfl, rfl⟩
  | succ count ih =>
      have hpaint : Meets (d.paintBlock paint px py)
          (fun fb => fb.Width = d.FB.Width ∧ fb.Height = d.FB.Height) fun _ => True := by
        cases paint with
        | true => exact d.FB.size_PasteBlock d.block px py 16 d.blockHeight
        | false => exact ⟨rfl, rfl⟩
      apply hpaint.bind
      rintro fb ⟨hwidth, hheight⟩
      have hkeeps : Keeps d { d with FB := fb, lastx := d.lastx + 1 } := by
        refine ⟨?_, rfl⟩
        simp only [rest, hwidth, hheight]
      dsimp only
      split_ifs
      · exact hkeeps
      · exact (ih _ _).imp fun _ h => hkeeps.trans h

theorem keeps_nextBlock (d : Decoder) (count : Nat) :
    Meets (d.nextBlock count) (Keeps d) fun _ => True := by
  have hclip : Meets d.clipBlock (Keeps d) fun _ => True := by
    unfold clipBlock
    split_ifs
    · apply (Meets.trivial _).bind
      intro fill _
      apply (Meets.trivial _).bind
      intro block _
      exact ⟨rfl, rfl⟩
    · exact ⟨rfl, rfl⟩
  apply hclip.bind
  intro d₁ hkeeps
  exact (keeps_paintBlocks _ _ _ _ _).imp fun _ h => hkeeps.trans ⟨h.rest, h.palette⟩

theorem keeps_finishBlock (d : Decoder) : Meets d.finishBlock (Keeps d) fun _ => True := by
  unfold finishBlock
  split_ifs
  · apply (keeps_nextBlock d 1).bind
    intro d₁ hkeeps
    apply (Meets.trivial _).bind
    intro cache _
    exact ⟨hkeeps.rest, hkeeps.palette⟩
  · exact ⟨rfl, rfl⟩

theorem keeps_storeCommand (d : Decoder) : Meets d.storeCommand (Keeps d) fun _ => True := by
  unfold storeCommand
  split_ifs
  · apply (Meets.trivial _).bind
    intro buf _
    exact ⟨rfl, rfl⟩
  · exact ⟨rfl, rfl⟩

theorem keeps_print1 (d : Decoder) :
    Meets (d.dispatch .print1) (fun r => Keeps d r.1) fun _ => True := by
  simp only [dispatch]
  split_ifs <;> exact ⟨rfl, rfl⟩

theorem keeps_latched (d : Decoder) :
    Meets (d.dispatch .latched) (fun r => Keeps d r.1) fun _ => True := by
  simp only [dispatch]
  split_ifs <;> exact ⟨rfl, rfl⟩

theorem keeps_setVideoDecryption (d : Decoder) (n : Nat) : Keeps d (d.setVideoDecryption n) := by
  unfold setVideoDecryption
  split_ifs <;> exact ⟨rfl, rfl⟩

theorem rest_setBitsPerColor (d : Decoder) (n : Nat) :
    Meets (d.setBitsPerColor n) (fun d' => d'.rest = d.rest) fun _ => True := by
  unfold setBitsPerColor buildPixelTable
  dsimp only
  split_ifs
  · rfl
  · exact True.intro
  · rfl

/-- The command that ends a power cycle sets `newx`, and the one that aligns the buffer takes bits
from it. The others leave the rest alone. -/
theorem rest_dispatchCommand (d : Decoder) (h5 : d.cmdLast ≠ 5) (h9 : d.cmdLast ≠ 9) :
    Meets d.dispatchCommand (fun d' => d'.rest = d.rest) fun _ => True := by
  unfold dispatchCommand
  split
  case h_3 =>
    split_ifs
    · apply (Meets.trivial _).bind
      intro fps _
      rfl
    · rfl
  case h_5 hlast => exact absurd hlast h5
  case h_7 hlast => exact absurd hlast h9
  case h_9 =>
    apply (Meets.trivial _).bind
    intro n _
    exact rest_setBitsPerColor d n
  case h_10 =>
    apply (Meets.trivial _).bind
    intro n _
    exact (keeps_setVideoDecryption d n).rest
  case h_11 =>
    apply (Meets.trivial _).bind
    intro n _
    apply (rest_setBitsPerColor d n).bind
    intro d₁ hrest
    apply (Meets.trivial _).bind
    intro cipher _
    have hcipher := (keeps_setVideoDecryption d₁ cipher).rest.trans hrest
    apply (Meets.trivial _).bind
    intro licensed _
    apply (Meets.trivial _).bind
    intro flags _
    exact hcipher
  all_goals rfl

/-- The states that take bits or choose a screen size. -/
def touching : List State := [.hunt, .timeout, .corp, .movexy0, .mode0, .mode1, .mode2]

/-- The other states keep the rest of the decoder and the palette. -/
theorem keeps_dispatch (d : Decoder) (hst : st ∉ touching) :
    Meets (d.dispatch st) (fun r => Keeps d r.1) fun _ => True := by
  have hnext {x : Except Site Decoder} (hx : Meets x (Keeps d) fun _ => True) :
      Meets (x >>= fun d' => pure (d', true)) (fun r => Keeps d r.1) fun _ => True :=
    hx.bind fun _ h => h
  cases st with
  | pixlru1 | pixlru0 | pixcode1 | pixcode2 | pixcode3 | pixcode4 =>
      apply (Meets.trivial _).bind
      intro rank _
      exact hnext ((keeps_pixelFromCache _).imp fun _ h => ⟨h.rest, h.palette⟩)
  | pixrptstd1 =>
      change Meets (if d.code = 7 then _ else _) _ _
      split_ifs
      · exact ⟨rfl, rfl⟩
      · exact ⟨rfl, rfl⟩
      · exact hnext ((keeps_repeatPixel _ _).imp fun _ h => ⟨h.rest, h.palette⟩)
  | pixrptstd2 | pixrptnstd =>
      exact hnext ((keeps_repeatPixel _ _).imp fun _ h => ⟨h.rest, h.palette⟩)
  | pixdup =>
      apply (keeps_pushPixel _ _).bind
      rintro ⟨d₁, pushed⟩ hkeeps
      exact hkeeps
  | pixgrey | pixrgbb => exact hnext ((keeps_pixRGBB _).imp fun _ h => ⟨h.rest, h.palette⟩)
  | firmware =>
      apply (keeps_storeCommand d).bind
      intro d₁ hkeeps
      exact ⟨hkeeps.rest, hkeeps.palette⟩
  | print1 => exact keeps_print1 d
  | latched => exact keeps_latched d
  | blkdup | blkrptstd | blkrptnstd =>
      exact hnext ((keeps_nextBlock _ _).imp fun _ h => ⟨h.rest, h.palette⟩)
  | hunt | timeout | corp | movexy0 | mode0 | mode1 | mode2 => exact absurd (by decide) hst
  | _ => exact ⟨rfl, rfl⟩

/-- Only the commands that set the colour depth change the palette. -/
theorem palette_dispatchCommand (d : Decoder) (h11 : d.cmdLast ≠ 11) (h13 : d.cmdLast ≠ 13) :
    Meets d.dispatchCommand (fun d' => d'.palette = d.palette) fun _ => True := by
  unfold dispatchCommand
  split
  case h_3 =>
    split_ifs
    · apply (Meets.trivial _).bind
      intro fps _
      rfl
    · rfl
  case h_7 =>
    obtain ⟨c, acc, cnt, heq, -⟩ := d.alignByte_spec
    rw [heq]
    rfl
  case h_9 hlast => exact absurd hlast h11
  case h_10 =>
    apply (Meets.trivial _).bind
    intro n _
    exact (keeps_setVideoDecryption d n).palette
  case h_11 hlast => exact absurd hlast h13
  all_goals rfl

/-- And only where a command is dispatched. -/
theorem palette_dispatch (d : Decoder) (hst : st ≠ .corp) :
    Meets (d.dispatch st) (fun r => r.1.palette = d.palette) fun _ => True := by
  by_cases htouch : st ∈ touching
  · cases st with
    | hunt =>
        change Meets (if d.nextState ≠ .hunt then _ else _) _ _
        split_ifs <;> rfl
    | timeout =>
        simp only [dispatch]
        split_ifs
        · obtain ⟨c, acc, cnt, heq, -⟩ := { d with nextState := .latched }.alignByte_spec
          rw [heq]
          rfl
        · obtain ⟨c, acc, cnt, heq, -⟩ := d.alignByte_spec
          rw [heq]
          rfl
    | mode2 =>
        change d.mode2.palette = d.palette
        simp only [mode2]
        split_ifs
        · rfl
        · unfold setHalfHeight
          split_ifs <;> rfl
    | corp => exact absurd rfl hst
    | movexy0 | mode0 | mode1 => rfl
    | _ => exact absurd htouch (by decide)
  · exact (keeps_dispatch d htouch).imp fun _ h => h.palette

end Decoder

end Outband.Ilo.Dvc
