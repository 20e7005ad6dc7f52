import Outband.Foundation.Raster
import Outband.Ilo.Dvc.ScreenSize

/-!
# Painting blocks

`PasteBlock` writes the pixels of a block that lie on the screen and no others. In
`nextBlock` the loop over the blocks of a run ends at the right edge of the screen,
and a run is as good as the same number of single blocks: what these paint beyond
the edge is clipped.
-/

namespace Outband.Ilo.Dvc

open Foundation

namespace Framebuffer

variable {f f' : Framebuffer} {F : Site → Prop}

/-- The cell in row `row` and column `col` of a block at `(x, y)` is on the screen. -/
def OnScreen (f : Framebuffer) (x y row col : Nat) : Prop := x + col < f.Width ∧ y + row < f.Height

/-- Where the framebuffer holds that cell. -/
def cellAt (f : Framebuffer) (x y row col : Nat) : Nat := (y + row) * f.Width + x + col

/-- The pixel of that cell. -/
def blockCell (block : Fin 256 → BitVec 32) (row col : Nat) : BitVec 32 :=
  if h : row * 16 + col < 256 then block ⟨row * 16 + col, h⟩ else 0

theorem cellAt_lt {x y row col : Nat} (hf : f.Sized) (h : f.OnScreen x y row col) :
    f.cellAt x y row col < f.Pixels.length := by
  rw [hf, cellAt, Nat.add_assoc]
  exact position_lt h.1 h.2

theorem cellAt_inj {x y row col row' col' : Nat} (h : f.OnScreen x y row col)
    (h' : f.OnScreen x y row' col') (heq : f.cellAt x y row col = f.cellAt x y row' col') :
    row = row' ∧ col = col' := by
  rw [cellAt, cellAt, Nat.add_assoc, Nat.add_assoc] at heq
  have hpos := position_inj h.1 h'.1 heq
  omega

/-- The cells of a block of `height` rows that are on the screen have been painted. -/
structure Pasted (block : Fin 256 → BitVec 32) (x y : Nat) (cells : Nat → Nat → Prop)
    (f f' : Framebuffer) : Prop where
  width : f'.Width = f.Width
  height : f'.Height = f.Height
  plotted : Plotted (fun row col => cells row col ∧ f.OnScreen x y row col) (f.cellAt x y)
    (blockCell block) f.Pixels f'.Pixels

theorem Pasted.congr {block : Fin 256 → BitVec 32} {x y : Nat} {cells cells' : Nat → Nat → Prop}
    (h : Pasted block x y cells f f')
    (hcells : ∀ row col, f.OnScreen x y row col → (cells row col ↔ cells' row col)) :
    Pasted block x y cells' f f' :=
  ⟨h.width, h.height, h.plotted.congr fun row col => and_congr_left (hcells row col)⟩

/-- A row of a block on the screen. -/
theorem pasteRow_spec {block : Fin 256 → BitVec 32} {x y row : Nat} {f₀ : Framebuffer}
    (hf : f₀.Sized) (hy : y + row < f₀.Height) (hrow : row < 16)
    (h : Pasted block x y (fun r c => r < row ∧ c < 16) f₀ f) :
    Meets (f.pasteRow block x 16 ((y + row) * f.Width + x) (row * 16))
      (Pasted block x y (fun r c => r < row + 1 ∧ c < 16) f₀) F := by
  have hloop : Meets (f.pasteRow block x 16 ((y + row) * f.Width + x) (row * 16))
      (Pasted block x y (fun r c => r < row ∧ c < 16 ∨ r = row ∧ c < 0 + 16) f₀) F := by
    apply meets_forUp (I := fun n => Pasted block x y
      (fun r c => r < row ∧ c < 16 ∨ r = row ∧ c < n) f₀)
    · exact h.congr fun r c _ => by omega
    · intro col f' _ hcol hf'
      by_cases hx : x + col < f'.Width
      · have hon : f₀.OnScreen x y row col := ⟨hf'.width ▸ hx, hy⟩
        have hlt := cellAt_lt hf hon
        have hat : (y + row) * f.Width + x + col = f₀.cellAt x y row col := by
          rw [h.width, cellAt]
        have hcell : block ⟨row * 16 + col, by omega⟩ = blockCell block row col := by
          rw [blockCell, dif_pos]
        simp only [hx, if_true]
        rw [rd_ok (show row * 16 + col < 256 by omega)]
        change Meets (wrSlice Site.pixels f'.Pixels _ _ >>= _) _ _
        rw [hat, wrSlice_ok (hf'.plotted.length ▸ hlt), hcell]
        refine ⟨hf'.width, hf'.height, ?_⟩
        have hset := hf'.plotted.set hlt fun r c hcells => cellAt_inj hcells.2 hon
        refine hset.congr fun r c => ?_
        constructor
        · rintro (⟨hcells, hvis⟩ | ⟨rfl, rfl⟩)
          · exact ⟨by omega, hvis⟩
          · exact ⟨by omega, hon⟩
        · rintro ⟨hcells, hvis⟩
          by_cases hsame : r = row ∧ c = col
          · exact .inr hsame
          · exact .inl ⟨by omega, hvis⟩
      · simp only [hx, if_false]
        refine hf'.congr fun r c hvis => ?_
        have hlt : x + c < f'.Width := hf'.width ▸ hvis.1
        omega
  exact hloop.imp fun f' hf' => hf'.congr fun r c _ => by omega

/-- A block of at most 16 rows: the part on the screen is painted and nothing else changes. -/
theorem PasteBlock_spec (hf : f.Sized) (block : Fin 256 → BitVec 32) (x y : Nat) {h : Nat}
    (hh : h ≤ 16) : Meets (f.PasteBlock block x y 16 h)
      (Pasted block x y (fun row col => row < h ∧ col < 16) f) F := by
  have hloop : Meets (f.PasteBlock block x y 16 h)
      (Pasted block x y (fun row col => row < 0 + h ∧ col < 16) f) F := by
    apply meets_forUp (I := fun n => Pasted block x y (fun row col => row < n ∧ col < 16) f)
    · refine ⟨rfl, rfl, (Plotted.refl _ _ _).congr fun row col => ?_⟩
      simp
    · intro row f' _ hrow hf'
      by_cases hy : f'.Height ≤ y + row
      · simp only [hy, if_true]
        refine hf'.congr fun r c hvis => ?_
        have hlt : y + r < f'.Height := hf'.height ▸ hvis.2
        omega
      · simp only [hy, if_false]
        rw [hf'.height] at hy
        exact pasteRow_spec hf (by omega) (by omega) hf'
  exact hloop.imp fun f' hf' => hf'.congr fun row col _ => by omega

/-- A block beyond the right edge is clipped. -/
theorem PasteBlock_past (block : Fin 256 → BitVec 32) {x : Nat} (y w h : Nat) (hx : f.Width ≤ x) :
    f.PasteBlock block x y w h = .ok f := by
  have hrow (dst src : Nat) : f.pasteRow block x w dst src = .ok f := by
    have hloop : Meets (f.pasteRow block x w dst src) (fun f' => f' = f) fun _ => False := by
      apply meets_forUp (I := fun _ f' => f' = f) rfl
      rintro col f' - - rfl
      simp only [show ¬ x + col < f'.Width by omega, if_false]
      exact rfl
    obtain ⟨f', hok, rfl⟩ := hloop.exists_ok
    exact hok
  have hloop : Meets (f.PasteBlock block x y w h) (fun f' => f' = f) fun _ => False := by
    apply meets_forUp (I := fun _ f' => f' = f) rfl
    rintro row f' - - rfl
    dsimp only
    split_ifs
    · exact rfl
    · rw [hrow]
      exact rfl
  obtain ⟨f', hok, rfl⟩ := hloop.exists_ok
  exact hok

end Framebuffer

namespace Decoder

variable {d : Decoder} {n : Nat}

/-! ### Runs of blocks -/

/-- `n` calls of `nextBlock(1)`, one behind the other. -/
def singleBlocks : Nat → Decoder → Except Site Decoder
  | 0, d => .ok d
  | n + 1, d => d.nextBlock 1 >>= singleBlocks n

/-- A decoder whose block has been given up. -/
def started (d : Decoder) : Decoder := { d with pixelCount := 0, nextState := .start }

/-- An empty block is not clipped. -/
theorem nextBlock_empty (hcount : d.pixelCount = 0) (hvideo : d.videoDetected = true) (n : Nat) :
    d.nextBlock n =
      paintBlocks true n (d.lastx * d.blockWidth) (d.lasty * d.blockHeight) d.started := by
  have hclip : d.clipBlock = .ok d := by
    rw [clipBlock, if_neg (by simp [hcount])]
    rfl
  rw [nextBlock, hclip]
  change paintBlocks d.videoDetected n _ _ d.started = _
  rw [hvideo]

/-- One round of the paint loop. -/
theorem paintBlocks_succ (n px py : Nat) (d : Decoder) :
    paintBlocks true (n + 1) px py d =
      (d.FB.PasteBlock d.block px py 16 d.blockHeight >>= fun fb =>
        if d.sizeX ≤ d.lastx + 1 then .ok { d with FB := fb, lastx := d.lastx + 1 }
        else paintBlocks true n (px + 16) py { d with FB := fb, lastx := d.lastx + 1 }) := rfl

/-- A state in which block after block is painted: nothing of the next block is there yet, and the
screen is as wide as its blocks. -/
structure Painting (d : Decoder) : Prop where
  blockWidth : d.blockWidth = 16
  pixelCount : d.pixelCount = 0
  videoDetected : d.videoDetected = true
  width : d.FB.Width = 16 * d.sizeX

/-- A block that is painted beyond the right edge leaves the screen alone. -/
theorem Painting.nextBlock_past (hd : Painting d) (hpast : d.sizeX ≤ d.lastx) :
    d.nextBlock 1 = .ok { d.started with lastx := d.lastx + 1 } := by
  have hx : d.started.FB.Width ≤ d.lastx * d.blockWidth := by
    change d.FB.Width ≤ _
    rw [hd.width, hd.blockWidth]
    omega
  rw [nextBlock_empty hd.pixelCount hd.videoDetected, paintBlocks_succ,
    Framebuffer.PasteBlock_past _ _ _ _ hx]
  exact if_pos (Nat.le_succ_of_le hpast)

theorem Painting.singleBlocks_past (hd : Painting d) (hpast : d.sizeX ≤ d.lastx) (n : Nat) :
    (singleBlocks n d).map Decoder.FB = .ok d.FB := by
  induction n generalizing d with
  | zero => rfl
  | succ n ih =>
      rw [singleBlocks, hd.nextBlock_past hpast]
      have hnext : Painting { d.started with lastx := d.lastx + 1 } :=
        ⟨hd.blockWidth, rfl, hd.videoDetected, hd.width⟩
      exact ih hnext (Nat.le_succ_of_le hpast)

theorem started_eq (hcount : d.pixelCount = 0) (hstart : d.nextState = .start) : d.started = d := by
  rw [started, ← hcount, ← hstart]

/-- A single block that is painted on the screen. -/
theorem Painting.nextBlock_one (hd : Painting d) (hstart : d.nextState = .start) :
    d.nextBlock 1 = (d.FB.PasteBlock d.block (d.lastx * 16) (d.lasty * d.blockHeight) 16
      d.blockHeight).map fun fb => { d with FB := fb, lastx := d.lastx + 1 } := by
  rw [nextBlock_empty hd.pixelCount hd.videoDetected, started_eq hd.pixelCount hstart,
    paintBlocks_succ, hd.blockWidth]
  cases d.FB.PasteBlock d.block (d.lastx * 16) (d.lasty * d.blockHeight) 16 d.blockHeight with
  | error e => rfl
  | ok fb =>
      change (if _ then _ else _) = _
      split_ifs <;> rfl

/-- The paint loop and single blocks paint the same, and get as far on the screen. -/
theorem Painting.paintBlocks_eq (hd : Painting d) (hstart : d.nextState = .start) (n : Nat) :
    (paintBlocks true n (d.lastx * 16) (d.lasty * d.blockHeight) d).map Decoder.FB =
        (singleBlocks n d).map Decoder.FB ∧
      (d.lastx + n ≤ d.sizeX →
        paintBlocks true n (d.lastx * 16) (d.lasty * d.blockHeight) d = singleBlocks n d) := by
  induction n generalizing d with
  | zero => exact ⟨rfl, fun _ => rfl⟩
  | succ n ih =>
      rw [paintBlocks_succ, singleBlocks, hd.nextBlock_one hstart]
      have hwidth := d.FB.size_PasteBlock d.block (d.lastx * 16) (d.lasty * d.blockHeight) 16
        d.blockHeight
      cases hpaste : d.FB.PasteBlock d.block (d.lastx * 16) (d.lasty * d.blockHeight) 16
          d.blockHeight with
      | error e => exact ⟨rfl, fun _ => rfl⟩
      | ok fb =>
          rw [hpaste] at hwidth
          have hnext : Painting { d with FB := fb, lastx := d.lastx + 1 } :=
            ⟨hd.blockWidth, hd.pixelCount, hd.videoDetected, hwidth.1.trans hd.width⟩
          have hrest := ih hnext hstart
          rw [show (d.lastx + 1) * 16 = d.lastx * 16 + 16 by ring] at hrest
          change Except.map _ (if _ then _ else _) = Except.map _ (singleBlocks n _) ∧
            (_ → (if _ then _ else _) = singleBlocks n _)
          by_cases hlast : d.sizeX ≤ d.lastx + 1
          · rw [if_pos hlast, hnext.singleBlocks_past hlast]
            refine ⟨rfl, fun hn => ?_⟩
            obtain rfl : n = 0 := by omega
            rfl
          · rw [if_neg hlast]
            exact ⟨hrest.1, fun hn => hrest.2 (show d.lastx + 1 + n ≤ d.sizeX by omega)⟩

/-- A run of blocks paints what single blocks paint, and ends where they end unless it reaches the
right edge. -/
theorem nextBlock_repeat (hblock : d.blockWidth = 16) (hcount : d.pixelCount = 0)
    (hvideo : d.videoDetected = true) (hwidth : d.FB.Width = 16 * d.sizeX) (n : Nat) :
    (d.nextBlock n).map Decoder.FB = (singleBlocks n d).map Decoder.FB ∧
      (d.lastx + n ≤ d.sizeX →
        (d.nextBlock n).map Decoder.lastx = (singleBlocks n d).map Decoder.lastx) := by
  have hpainting : Painting d.started := ⟨hblock, rfl, hvideo, hwidth⟩
  obtain ⟨hFB, hsame⟩ := hpainting.paintBlocks_eq rfl n
  rw [nextBlock_empty hcount hvideo, hblock]
  cases n with
  | zero => exact ⟨rfl, fun _ => rfl⟩
  | succ n =>
      have hsingle : singleBlocks (n + 1) d = singleBlocks (n + 1) d.started := by
        rw [singleBlocks, singleBlocks, nextBlock_empty hcount hvideo,
          nextBlock_empty (d := d.started) rfl hvideo]
        rfl
      rw [hsingle]
      exact ⟨hFB, fun hn => congrArg (Except.map Decoder.lastx) (hsame hn)⟩

/-- The last block of a row, on a screen of two blocks. -/
def lastBlock : Decoder :=
  { NewDecoder with sizeX := 2, sizeY := 1, lastx := 1, FB := ({} : Framebuffer).Resize 32 16 }

/-- Three blocks from there paint one, and one block is one block. -/
theorem nextBlock_repeat_last :
    (lastBlock.nextBlock 3).map Decoder.FB = (singleBlocks 3 lastBlock).map Decoder.FB ∧
      (lastBlock.nextBlock 1).map Decoder.lastx = (singleBlocks 1 lastBlock).map Decoder.lastx :=
  ⟨(nextBlock_repeat rfl rfl rfl rfl 3).1, (nextBlock_repeat rfl rfl rfl rfl 1).2 (by decide)⟩

end Decoder

end Outband.Ilo.Dvc
