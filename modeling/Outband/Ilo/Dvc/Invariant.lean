import Mathlib.Tactic.Ring
import Outband.Ilo.Dvc.CacheRefinement
import Outband.Ilo.Dvc.Decoder

/-!
# The memory invariant of the DVC decoder

`Shape` is the part of the decoder that bounds its memory accesses: the colour
cache, the widths of the states, the block geometry, the colour channels and
the framebuffer. `Shape.Valid` is the invariant over it. Each function of the
decoder gets one specification: it keeps the invariant and does not fault.

## Implementation notes

A record update of the decoder that leaves the shape alone leaves `d.shape`
unchanged by definition, so a proof of `d.shape.Valid` is also a proof for the
updated decoder.
-/

namespace Outband.Ilo.Dvc

open Foundation

/-! ### The state graph -/

/-- Every state that reads a cache index of some width, and `latched`. -/
def indexStates : List State := [.latched, .pixlru0, .pixcode1, .pixcode2, .pixcode3, .pixcode4]

theorem pixcodeFor_mem (n : Nat) : ColorCache.pixcodeFor n ∈ indexStates := by
  unfold ColorCache.pixcodeFor indexStates
  split_ifs <;> simp

/-- The successors of a state that are not in the two tables. -/
def detours : State → List State
  | .pixlru1 | .pixlru0 | .pixcode1 | .pixcode2 | .pixcode3 | .pixcode4 => [.latched]
  | .pixgrey | .pixrgbb | .pixrptstd2 | .pixrptnstd | .pixdup | .timeout => [.latched]
  | .pixrptstd1 => [.latched, .pixrptnstd, .pixrptstd2]
  | .pixfan => indexStates
  | .corp => [.exit, .print0]
  | .print1 => [.start]
  | _ => []

/-- Every state that a round from `st` can select before it looks for a full
block. In `pixcode` the tables have no say. -/
def successors : State → List State
  | .pixcode => indexStates
  | st => next0 st :: next1Init st :: detours st

/-- The states in which no block is under construction. -/
def idle : State → Bool
  | .start | .cmd | .cmd0 | .cmdx | .movexy0 | .movexy1 | .moveshortx | .movelongx => true
  | .extcmd | .extcmd1 | .extcmd2 | .firmware | .corp | .mode0 | .mode1 | .mode2 => true
  | .timeout | .blkrpt | .blkrpt1 | .blkrptstd | .blkrptnstd | .blkdup | .print0 | .print1 => true
  | _ => false

/-- The states that read no bits. -/
def zeroWidth : State → Bool
  | .reset | .timeout | .pixdup | .blkdup | .pixcode | .exit => true
  | _ => false

/-- Only four states can select themselves; three of them are allowed to. -/
theorem eq_of_self_mem_successors {st : State} (h : st ∈ successors st) :
    st = .print1 ∨ st = .latched ∨ st = .hunt ∨ st = .exit := by
  revert h
  cases st <;> decide

/-- A block is abandoned only through `reset`. -/
theorem idle_of_mem_successors {st nx : State} (h : nx ∈ successors st) (hnx : idle nx = true) :
    idle st = true ∨ st = .reset := by
  revert hnx
  revert nx
  cases st <;> decide

/-- After a state without bits comes one with bits. -/
theorem zeroWidth_of_mem_successors {st nx : State} (h : nx ∈ successors st)
    (hst : zeroWidth st = true) (hexit : st ≠ .exit) : zeroWidth nx = false := by
  revert hst hexit
  revert nx
  cases st <;> decide

theorem exit_mem_successors {st : State} (h : State.exit ∈ successors st) :
    st = .corp ∨ st = .exit := by
  revert h
  cases st <;> decide

/-- The width of a state: four states read a colour channel, four a position. -/
def widthOf (bitsPerColor blockHeight : Nat) (st : State) : Nat :=
  if st = .pixgrey ∨ st = .pixrgbr ∨ st = .pixrgbg ∨ st = .pixrgbb then bitsPerColor
  else if st = .movelongx ∨ st = .movexy0 ∨ st = .movexy1 ∨ st = .blkrptnstd then
    if blockHeight = 8 then 8 else 7
  else bitsToReadInit st

theorem bitsToReadInit_le (st : State) : bitsToReadInit st ≤ 8 := by
  cases st <;> decide

theorem bitsToReadInit_eq_zero_iff (st : State) :
    bitsToReadInit st = 0 ↔ zeroWidth st = true := by
  cases st <;> decide

theorem widthOf_le {bpc bh : Nat} (hbpc : bpc ≤ 5) (st : State) : widthOf bpc bh st ≤ 8 := by
  have := bitsToReadInit_le st
  unfold widthOf
  split_ifs <;> omega

theorem widthOf_eq_zero_iff {bpc bh : Nat} (hbpc : 2 ≤ bpc) (st : State) :
    widthOf bpc bh st = 0 ↔ zeroWidth st = true := by
  unfold widthOf
  split_ifs with hcolor hpos
  · rcases hcolor with rfl | rfl | rfl | rfl <;> simp [zeroWidth] <;> omega
  · rcases hpos with rfl | rfl | rfl | rfl <;> simp [zeroWidth]
  · rcases hpos with rfl | rfl | rfl | rfl <;> simp [zeroWidth]
  · exact bitsToReadInit_eq_zero_iff st

/-! ### Valid shapes -/

/-- The part of the decoder that bounds its memory accesses. -/
structure Shape where
  cache : ColorCache
  widths : State → Nat
  blockWidth : Nat
  blockHeight : Nat
  bitsPerColor : Nat
  pixelCount : Nat
  red : Nat
  green : Nat
  blue : Nat
  FB : Framebuffer

def Decoder.shape (d : Decoder) : Shape :=
  { cache := d.toColorCache, widths := d.bitsToRead, blockWidth := d.blockWidth,
    blockHeight := d.blockHeight, bitsPerColor := d.bitsPerColor, pixelCount := d.pixelCount,
    red := d.red, green := d.green, blue := d.blue, FB := d.FB }

/-- A cache that refines a move-to-front list of colours below 32768, with an
index width in both of its places. -/
structure ColorCache.Sound (c : ColorCache) : Prop where
  refines : ∃ r : Recency 17 Nat, Refines c r ∧ ∀ e ∈ r.entries, e.1 < 32768
  pixcode : c.pixcode ∈ indexStates
  pixfan : c.next1 .pixfan = .pixcode ∨ c.next1 .pixfan ∈ indexStates
  next1 : ∀ st, st ≠ .pixfan → c.next1 st = next1Init st

/-- The memory invariant. -/
structure Shape.Valid (s : Shape) : Prop where
  cache : s.cache.Sound
  widths : s.widths = widthOf s.bitsPerColor s.blockHeight
  blockWidth : s.blockWidth = 16
  blockHeight : s.blockHeight = 8 ∨ s.blockHeight = 16
  bitsPerColor : 2 ≤ s.bitsPerColor ∧ s.bitsPerColor ≤ 5
  pixelCount : s.pixelCount ≤ s.blockHeight * 16
  red : s.red < 2 ^ 15
  green : s.green < 2 ^ 15
  blue : s.blue < 2 ^ 15
  pixels : s.FB.Pixels.length = s.FB.Width * s.FB.Height

namespace ColorCache.Sound

variable {c c' : ColorCache}

/-- Every cached colour is a valid index of the remap table. -/
theorem color_lt (h : c.Sound) {i : Fin 17} (hi : i.val < c.ccActive) : c.ccColor i < 32768 := by
  obtain ⟨r, href, hlt⟩ := h.refines
  exact hlt _ (List.mem_of_getElem? (href.represents.rank i hi))

theorem active_le (h : c.Sound) : c.ccActive ≤ 17 := by
  obtain ⟨r, href, -⟩ := h.refines
  exact href.represents.active_le

/-- The tables stay sound when the index width is left alone or set. -/
theorem of_pixcodeStep (h : c.Sound) (hstep : PixcodeStep c c')
    (href : ∃ r : Recency 17 Nat, Refines c' r ∧ ∀ e ∈ r.entries, e.1 < 32768) : c'.Sound := by
  rcases hstep with ⟨hpix, hnext⟩ | ⟨n, hpix, hnext⟩
  · exact ⟨href, hpix ▸ h.pixcode, hnext ▸ h.pixfan, hnext ▸ h.next1⟩
  · refine ⟨href, hpix ▸ pixcodeFor_mem n, .inr ?_, ?_⟩
    · simpa [hnext] using pixcodeFor_mem n
    · intro st hst
      rw [hnext, Function.update_of_ne hst]
      exact h.next1 st hst

theorem cacheReset (h : c.Sound) : c.cacheReset.Sound := by
  refine h.of_pixcodeStep (.inl ⟨rfl, rfl⟩) ⟨.empty, ⟨represents_of_empty rfl, ?_⟩, ?_⟩
  · intro hpos
    exact absurd hpos (Nat.lt_irrefl 0)
  · intro e he
    cases he

theorem cacheLRU (h : c.Sound) {color : Nat} (hcolor : color < 32768) :
    ∃ c' f, ColorCache.cacheLRU c color = .ok (c', f) ∧ c'.Sound := by
  obtain ⟨r, href, hlt⟩ := h.refines
  obtain ⟨c', f, hc', hrep, -, -, hpix, hstep⟩ := cacheLRU_spec href.represents color href.pixcode
  refine ⟨c', f, hc', h.of_pixcodeStep hstep ⟨r.use color, ⟨hrep, fun _ => hpix⟩, ?_⟩⟩
  intro e he
  rcases List.mem_cons.mp (List.mem_of_mem_take he) with rfl | he
  · exact hcolor
  · exact hlt e (List.mem_of_mem_eraseP he)

theorem cacheFind (h : c.Sound) (index : Nat) :
    ∃ c' v, ColorCache.cacheFind c index = .ok (c', v) ∧ c'.Sound ∧
      (v = -1 ∨ ∃ color : Nat, v = color ∧ color < 32768) := by
  obtain ⟨r, href, hlt⟩ := h.refines
  obtain ⟨c', v, hc', hrep, hv, hactive, hpix, hnext⟩ := cacheFind_spec href.represents index
  have hset : 0 < c'.ccActive → PixcodeSet c' := by
    intro hpos
    rw [PixcodeSet, hactive, hpix, hnext]
    exact href.pixcode (hactive ▸ hpos)
  cases hentry : r.entries[index]? with
  | none =>
      rw [Recency.front, hentry] at hrep
      refine ⟨c', v, hc', h.of_pixcodeStep (.inl ⟨hpix, hnext⟩) ⟨r, ⟨hrep, hset⟩, hlt⟩, .inl ?_⟩
      simpa [hentry] using hv
  | some entry =>
      have hmem := List.mem_of_getElem? hentry
      rw [Recency.front, hentry] at hrep
      refine ⟨c', v, hc', h.of_pixcodeStep (.inl ⟨hpix, hnext⟩)
        ⟨r.use entry.1, ⟨hrep, hset⟩, ?_⟩, .inr ⟨entry.1, ?_, hlt entry hmem⟩⟩
      · intro e he
        rcases List.mem_cons.mp (List.mem_of_mem_take he) with rfl | he
        · exact hlt entry hmem
        · exact hlt e (List.mem_of_mem_eraseP he)
      · simpa [hentry] using hv

theorem cachePrune (h : c.Sound) : ∃ c', ColorCache.cachePrune c = .ok c' ∧ c'.Sound := by
  obtain ⟨r, href, hlt⟩ := h.refines
  obtain ⟨c', hc', hrep, hpix, hstep⟩ := cachePrune_spec href.represents
  refine ⟨c', hc', h.of_pixcodeStep hstep ⟨r.prune, ⟨hrep, fun _ => hpix⟩, ?_⟩⟩
  intro e he
  obtain ⟨e', he', rfl⟩ := List.mem_map.mp he
  exact hlt e' (List.mem_of_mem_filter he')

end ColorCache.Sound

/-! ### The framebuffer -/

namespace Framebuffer

variable {f f' f'' : Framebuffer}

/-- Drawing changes neither the screen size nor the number of pixels. -/
structure SameSize (f f' : Framebuffer) : Prop where
  width : f'.Width = f.Width
  height : f'.Height = f.Height
  length : f'.Pixels.length = f.Pixels.length

theorem SameSize.refl (f : Framebuffer) : SameSize f f := ⟨rfl, rfl, rfl⟩

theorem SameSize.trans (h : SameSize f f') (h' : SameSize f' f'') : SameSize f f'' :=
  ⟨h'.width.trans h.width, h'.height.trans h.height, h'.length.trans h.length⟩

/-- The size of a framebuffer as the memory invariant states it. -/
def Sized (f : Framebuffer) : Prop := f.Pixels.length = f.Width * f.Height

theorem Sized.of_sameSize (h : f.Sized) (hs : SameSize f f') : f'.Sized := by
  rw [Sized, hs.length, hs.width, hs.height]
  exact h

theorem sized_Clear (f : Framebuffer) : f.Clear.Sized := by
  simp [Sized, Clear]

theorem sized_Resize (f : Framebuffer) (w h : Nat) : (f.Resize w h).Sized := by
  simp [Sized, Resize]

variable {F : Site → Prop}

/-- A row on the screen is written inside the pixel slice. -/
theorem meets_pasteRow (hf : f.Sized) (block : Fin 256 → BitVec 32) {x fy src : Nat}
    (hfy : fy < f.Height) (hsrc : src + 16 ≤ 256) :
    Meets (f.pasteRow block x 16 (fy * f.Width + x) src) (SameSize f) F := by
  apply meets_forUp (I := fun _ => SameSize f)
  · exact SameSize.refl f
  · intro col f' _ hcol hf'
    by_cases hx : x + col < f'.Width
    · simp only [hx, if_true]
      rw [hf'.width] at hx
      have hrow : fy * f.Width + x + col < f'.Pixels.length := by
        rw [hf'.length, hf]
        calc
          fy * f.Width + x + col < fy * f.Width + f.Width := by omega
          _ = (fy + 1) * f.Width := by ring
          _ ≤ f.Height * f.Width := Nat.mul_le_mul_right _ hfy
          _ = f.Width * f.Height := Nat.mul_comm _ _
      rw [rd_ok (show src + col < 256 by omega)]
      change Meets (wrSlice Site.pixels f'.Pixels _ _ >>= _) _ _
      rw [wrSlice_ok hrow]
      exact hf'.trans ⟨rfl, rfl, List.length_set⟩
    · simpa [hx] using hf'

/-- A block of at most 16 rows is painted at any position without a fault. -/
theorem meets_PasteBlock (hf : f.Sized) (block : Fin 256 → BitVec 32) (x y : Nat) {h : Nat}
    (hh : h ≤ 16) : Meets (f.PasteBlock block x y 16 h) (SameSize f) F := by
  apply meets_forUp (I := fun _ => SameSize f)
  · exact SameSize.refl f
  · intro row f' _ hrow hf'
    by_cases hy : f'.Height ≤ y + row
    · simpa [hy] using hf'
    · simp only [hy, if_false]
      have hstep := meets_pasteRow (F := F) (x := x) (hf.of_sameSize hf') block
        (Nat.lt_of_not_le hy) (show row * 16 + 16 ≤ 256 by omega)
      exact hstep.imp fun _ h => hf'.trans h

/-- The conversion for the RFB client stays inside both slices. -/
theorem meets_ToRGBX (hf : f.Sized) :
    Meets f.ToRGBX (fun out => out.length = f.Width * f.Height * 4) F := by
  unfold ToRGBX
  apply meets_forUp (I := fun _ (out : List (BitVec 8)) => out.length = f.Width * f.Height * 4)
  · simp
  · intro i out _ hi hout
    rw [Sized] at hf
    rw [rgbxRound, rdSlice_ok (show i < f.Pixels.length by omega)]
    change Meets (wrSlice Site.rgbx out (i * 4) _ >>= _) _ _
    rw [wrSlice_ok (by omega)]
    change Meets (wrSlice Site.rgbx _ (i * 4 + 1) _ >>= _) _ _
    rw [wrSlice_ok (by simp only [List.length_set]; omega)]
    change Meets (wrSlice Site.rgbx _ (i * 4 + 2) _ >>= _) _ _
    rw [wrSlice_ok (by simp only [List.length_set]; omega)]
    change Meets (wrSlice Site.rgbx _ (i * 4 + 3) _) _ _
    rw [wrSlice_ok (by simp only [List.length_set]; omega)]
    simpa using hout

end Framebuffer

/-! ### The helpers of the decoder -/

/-- The part of the decoder that drives the bit loop. -/
structure Control where
  state : State
  ibAcc : Nat
  ibBcnt : Nat
  cmdCount : Nat
  cmdLast : Nat

namespace Decoder

variable {d d' d'' : Decoder} {F : Site → Prop}

def control (d : Decoder) : Control :=
  { state := d.state, ibAcc := d.ibAcc, ibBcnt := d.ibBcnt, cmdCount := d.cmdCount,
    cmdLast := d.cmdLast }

/-- Taking at most eight bits: what is left, and a code of that many bits. -/
theorem getBits_spec (d : Decoder) {n : Nat} (hn : n ≤ 8) :
    ∃ c, d.getBits n =
        .ok { d with code := c, ibAcc := d.ibAcc >>> n, ibBcnt := d.ibBcnt - n } ∧
      (0 < n → c < 2 ^ n) ∧ (n = 1 → c = d.ibAcc &&& 1) := by
  by_cases h1 : n = 1
  · subst h1
    refine ⟨d.ibAcc &&& 1, rfl, fun _ => ?_, fun _ => rfl⟩
    rw [Nat.and_one_is_mod]
    exact Nat.mod_lt _ (by decide)
  by_cases h0 : n = 0
  · subst h0
    exact ⟨d.code, rfl, by simp, by simp⟩
  have hmask : d.ibAcc &&& getMask ⟨n, by omega⟩ < 256 := by
    calc
      d.ibAcc &&& getMask ⟨n, by omega⟩ ≤ getMask ⟨n, by omega⟩ := Nat.and_le_right
      _ = 2 ^ n - 1 := getMask_eq _
      _ ≤ 2 ^ 8 - 1 := Nat.sub_le_sub_right (Nat.pow_le_pow_right (by decide) hn) 1
      _ < 256 := by decide
  refine ⟨reversal ⟨_, hmask⟩ >>> (8 - n), ?_, ?_, by omega⟩
  · rw [getBits, if_neg h1, if_neg h0, rd_ok (show n < 9 by omega)]
    change (rd Site.reversal reversal _ >>= _) = _
    rw [rd_ok hmask]
    rfl
  · intro _
    rw [Nat.shiftRight_eq_div_pow]
    apply Nat.div_lt_of_lt_mul
    rw [← Nat.pow_add, show 8 - n + n = 8 by omega]
    exact reversal_lt _

/-- The effect of a helper that adds pixels to the block. -/
structure PixelStep (d d' : Decoder) : Prop where
  valid : d'.shape.Valid
  control : d'.control = d.control
  next : d'.nextState = d.nextState ∨ d'.nextState = .latched

theorem PixelStep.trans (h : PixelStep d d') (h' : PixelStep d' d'') : PixelStep d d'' := by
  refine ⟨h'.valid, h'.control.trans h.control, ?_⟩
  rcases h'.next with hn | hn
  · rw [hn]
    exact h.next
  · exact .inr hn

theorem meets_pushPixel (h : d.shape.Valid) (value : BitVec 32) :
    Meets (d.pushPixel value) (fun r => PixelStep d r.1) F := by
  have hcount : d.pixelCount ≤ d.blockHeight * 16 := h.pixelCount
  have hwidth : d.blockWidth = 16 := h.blockWidth
  have hheight : d.blockHeight = 8 ∨ d.blockHeight = 16 := h.blockHeight
  unfold pushPixel
  split_ifs with hfull
  · exact ⟨h, rfl, .inr rfl⟩
  · rw [hwidth] at hfull
    rw [wr_ok (show d.pixelCount < 256 by omega)]
    refine ⟨{ h with pixelCount := ?_ }, rfl, .inl rfl⟩
    change d.pixelCount + 1 ≤ d.blockHeight * 16
    omega

theorem meets_repeatPixel (h : d.shape.Valid) (n : Nat) :
    Meets (repeatPixel n d) (PixelStep d) F := by
  induction n generalizing d with
  | zero => exact ⟨h, rfl, .inl rfl⟩
  | succ n ih =>
      rw [repeatPixel]
      apply (meets_pushPixel h d.lastColor).bind
      rintro ⟨d', pushed⟩ hstep
      cases pushed with
      | true => exact (ih hstep.valid).imp fun _ h => hstep.trans h
      | false => exact hstep

/-- A literal colour of at most fifteen bits is cached and painted. -/
theorem meets_pixRGBB (h : d.shape.Valid) (hcode : d.code < 2 ^ 15) :
    Meets d.pixRGBB (PixelStep d) F := by
  have hcolor : d.red ||| d.green ||| d.code < 2 ^ 15 :=
    Nat.or_lt_two_pow (Nat.or_lt_two_pow h.red h.green) hcode
  obtain ⟨c, f, hc, hsound⟩ := h.cache.cacheLRU hcolor
  have hvalid : { d with blue := d.code, toColorCache := c }.shape.Valid :=
    { h with cache := hsound, blue := hcode }
  rw [pixRGBB]
  change Meets (ColorCache.cacheLRU d.shape.cache _ >>= _) _ _
  rw [hc]
  change Meets (if f ≠ 0 then _ else _) _ _
  split_ifs with hf
  · exact ⟨hvalid, rfl, .inr rfl⟩
  · change Meets (rd Site.colorRemap d.colorRemap _ >>= _) _ _
    rw [rd_ok hcolor]
    apply (meets_pushPixel _ _).bind
    · rintro ⟨d', pushed⟩ hstep
      exact ⟨hstep.valid, hstep.control, hstep.next⟩
    · exact hvalid

theorem meets_pixelFromCache (h : d.shape.Valid) : Meets d.pixelFromCache (PixelStep d) F := by
  obtain ⟨c, v, hc, hsound, hv⟩ := h.cache.cacheFind d.code
  have hvalid : { d with toColorCache := c }.shape.Valid := { h with cache := hsound }
  rw [pixelFromCache]
  change Meets (ColorCache.cacheFind d.shape.cache _ >>= _) _ _
  rw [hc]
  change Meets (if v = -1 then _ else _) _ _
  rcases hv with rfl | ⟨color, rfl, hlt⟩
  · exact ⟨hvalid, rfl, .inr rfl⟩
  · rw [if_neg (by omega)]
    change Meets (rd Site.colorRemap d.colorRemap color >>= _) _ _
    rw [rd_ok hlt]
    apply (meets_pushPixel _ _).bind
    · rintro ⟨d', pushed⟩ hstep
      exact ⟨hstep.valid, hstep.control, hstep.next⟩
    · exact hvalid

/-- The rank is read from a slot that exists. -/
theorem meets_cacheRank (d : Decoder) (st : State) : Meets (d.cacheRank st) (fun _ => True) F := by
  unfold cacheRank
  split_ifs
  · exact meets_rd (by decide) trivial
  all_goals trivial

/-- The effect of `nextBlock`: the block is painted and given up. -/
structure BlockStep (d d' : Decoder) : Prop where
  valid : d'.shape.Valid
  control : d'.control = d.control
  next : d'.nextState = .start
  pixelCount : d'.pixelCount = 0

theorem meets_paintBlocks (h : d.shape.Valid) (paint : Bool) (count px py : Nat) :
    Meets (paintBlocks paint count px py d)
      (fun d' => d'.shape.Valid ∧ d'.control = d.control ∧ d'.nextState = d.nextState ∧
        d'.pixelCount = d.pixelCount) F := by
  induction count generalizing px d with
  | zero => exact ⟨h, rfl, rfl, rfl⟩
  | succ count ih =>
      have hfb : d.FB.Sized := h.pixels
      have hheight : d.blockHeight = 8 ∨ d.blockHeight = 16 := h.blockHeight
      have hpaint : Meets (d.paintBlock paint px py) d.FB.SameSize F := by
        cases paint with
        | true => exact Framebuffer.meets_PasteBlock hfb d.block px py (by omega)
        | false => exact Framebuffer.SameSize.refl _
      rw [paintBlocks]
      apply hpaint.bind
      intro fb hsize
      have hvalid : { d with FB := fb, lastx := d.lastx + 1 }.shape.Valid :=
        { h with pixels := hfb.of_sameSize hsize }
      change Meets (if d.sizeX ≤ d.lastx + 1 then _ else _) _ _
      split_ifs
      · exact ⟨hvalid, rfl, rfl, rfl⟩
      · exact ih hvalid (px + 16)

theorem meets_nextBlock (h : d.shape.Valid) (count : Nat) :
    Meets (d.nextBlock count) (BlockStep d) F := by
  have hfill : Meets d.clipBlock (fun d' => ∃ block, d' = { d with block := block }) F := by
    unfold clipBlock
    split_ifs
    · rw [rd_ok (by decide)]
      change Meets (forUp _ d.yClipped _ d.block >>= _) _ _
      apply Meets.bind (P := fun _ => True)
      · apply meets_forUp (I := fun _ _ => True) trivial
        intro i block _ hi _
        exact meets_wr (by omega) trivial
      · intro block _
        exact ⟨block, rfl⟩
    · exact ⟨d.block, rfl⟩
  rw [nextBlock]
  apply hfill.bind
  rintro _ ⟨block, rfl⟩
  have hvalid : { d with block := block, pixelCount := 0, nextState := .start }.shape.Valid :=
    { h with pixelCount := Nat.zero_le _ }
  apply (meets_paintBlocks hvalid d.videoDetected count _ _).imp
  rintro d' ⟨hd', hcontrol, hnext, hcount⟩
  exact ⟨hd', hcontrol, hnext, hcount⟩

/-- The effect of a command that changes neither the block nor the bit loop. -/
structure QuietStep (d d' : Decoder) : Prop where
  valid : d'.shape.Valid
  control : d'.control = d.control
  next : d'.nextState = d.nextState
  pixelCount : d'.pixelCount = d.pixelCount

/-- Any number selects a depth of two to five bits, in step with the literal states. -/
theorem meets_setBitsPerColor (h : d.shape.Valid) (n : Nat) :
    Meets (d.setBitsPerColor n) (QuietStep d) F := by
  have hbpc : 2 ≤ 5 - (n &&& 3) ∧ 5 - (n &&& 3) ≤ 5 := by
    have : n &&& 3 ≤ 3 := Nat.and_le_right
    omega
  have hpow : 2 ^ ((5 - (n &&& 3)) * 3) ≤ 32768 := by
    calc
      2 ^ ((5 - (n &&& 3)) * 3) ≤ 2 ^ (5 * 3) :=
        Nat.pow_le_pow_right (by decide) (Nat.mul_le_mul_right 3 hbpc.2)
      _ = 32768 := by decide
  simp only [setBitsPerColor, buildPixelTable, if_pos hbpc, if_pos hpow, Meets.pure_iff]
  refine ⟨{ h with widths := ?_, bitsPerColor := hbpc }, rfl, rfl, rfl⟩
  funext st
  have hold : d.bitsToRead st = widthOf d.bitsPerColor d.blockHeight st := congrFun h.widths st
  simp only [shape, hold, widthOf]
  split_ifs <;> simp_all

theorem setPositionBits_widths {w : State → Nat} {bpc bh : Nat} (h : w = widthOf bpc bh)
    (bh' : Nat) (st : State) :
    (if st = .movelongx ∨ st = .movexy0 ∨ st = .movexy1 ∨ st = .blkrptnstd then
        if bh' = 8 then 8 else 7
      else w st) = widthOf bpc bh' st := by
  subst h
  unfold widthOf
  split_ifs with hpos h8 hcolor hcolor hcolor
  · rcases hpos with rfl | rfl | rfl | rfl <;> simp at hcolor
  · rfl
  · rcases hpos with rfl | rfl | rfl | rfl <;> simp at hcolor
  · rfl
  · rfl
  · rfl

/-- With an empty block the height can change, in step with the position states. -/
theorem setHalfHeight_spec (h : d.shape.Valid) (hcount : d.pixelCount = 0) :
    QuietStep d d.setHalfHeight := by
  have hset (bh : Nat) (hbh : bh = 8 ∨ bh = 16) :
      QuietStep d ({ d with blockHeight := bh }.setPositionBits (if bh = 8 then 8 else 7)) := by
    refine ⟨{ h with widths := ?_, blockHeight := hbh, pixelCount := ?_ }, rfl, rfl, rfl⟩
    · funext st
      exact setPositionBits_widths h.widths bh st
    · change d.pixelCount ≤ _
      omega
  unfold setHalfHeight
  split_ifs
  · exact hset 8 (.inl rfl)
  · exact ⟨h, rfl, rfl, rfl⟩
  · exact hset 16 (.inr rfl)
  · exact ⟨h, rfl, rfl, rfl⟩

end Decoder

end Outband.Ilo.Dvc
