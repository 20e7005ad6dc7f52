import Outband.Amt.Redir.LreTruncation

/-!
# Raw rectangles and raw tiles

A rectangle of raw pixels reaches the framebuffer in two ways. `blitRAW` draws
while it reads and skips the bytes of a pixel that is clipped; `decodeLRE` with
subencoding 0 reads the whole tile and clips it afterwards. The two pixel loops
run in step: what `blitRAW` has still to read are the bytes of the tile's pixels
from the current one on.
-/

namespace Outband.Amt.Redir

open Foundation

variable {bpp : Depth} {data : Bytes}

theorem length_colorBytes (bpp : Depth) (v : BitVec 16) :
    (colorBytes bpp v).length = bpp.bpp := by
  cases bpp <;> rfl

/-- Enough bytes for a pixel are a pixel. -/
theorem exists_readColor (h : bpp.bpp ≤ data.length) :
    ∃ v rest, readColor bpp data = .ok (v, rest) := by
  cases bpp with
  | rgb332 =>
      obtain ⟨b, rest, rfl⟩ := List.exists_cons_of_length_pos h
      exact ⟨_, rest, rfl⟩
  | rgb565 =>
      match data, h with
      | lo :: hi :: rest, _ => exact ⟨_, rest, rfl⟩

/-- Raw data is the bytes of its pixels. -/
theorem exists_colors {n : Nat} (h : data.length = n * bpp.bpp) :
    ∃ vs : List (BitVec 16), vs.length = n ∧ (∀ v ∈ vs, bpp.Fits v) ∧
      data = vs.flatMap (colorBytes bpp) := by
  induction n generalizing data with
  | zero =>
      refine ⟨[], rfl, nofun, List.eq_nil_of_length_eq_zero ?_⟩
      rwa [Nat.zero_mul] at h
  | succ n ih =>
      rw [Nat.succ_mul] at h
      obtain ⟨v, rest, hread⟩ := exists_readColor (show bpp.bpp ≤ data.length by omega)
      obtain ⟨hv, rfl⟩ := readColor_sound hread
      rw [List.length_append, length_colorBytes] at h
      obtain ⟨vs, rfl, hvs, rfl⟩ := ih (show rest.length = n * bpp.bpp by omega)
      refine ⟨v :: vs, rfl, ?_, by rw [List.flatMap_cons]⟩
      intro w hw
      rcases List.mem_cons.mp hw with rfl | hw
      · exact hv
      · exact hvs w hw

namespace RfbClient

variable {c : RfbClient} {x y : Int} {tw th : Nat} {vs : List (BitVec 16)}

/-- `blitRAW` stands before pixel `i` of the values `vs`. -/
def BeforePixel (c : RfbClient) (vs : List (BitVec 16)) (i : Nat) (fb : Bytes) (raw : Raw) : Prop :=
  raw = .more fb ((vs.drop i).flatMap (colorBytes c.bpp))

/-- The two loops do the same for a pixel. -/
theorem alike_blitPixel {row col : Nat} {fb : Bytes} {raw : Raw} (hvs : ∀ v ∈ vs, c.bpp.Fits v)
    (hi : row * tw + col < vs.length) (hraw : c.BeforePixel vs (row * tw + col) fb raw) :
    Alike Eq (c.BeforePixel vs (row * tw + (col + 1))) (c.blitPixel x y tw vs row col fb)
      (c.blitRawPixel x y row col raw) := by
  subst hraw
  rw [List.drop_eq_getElem_cons hi, List.flatMap_cons]
  unfold blitPixel blitRawPixel
  dsimp only
  split
  case h_1 dy dx _ _ =>
    rw [readColor_colorBytes (hvs _ (List.getElem_mem hi)), rdSlice_ok hi]
    change Alike Eq _ (putPixel fb _ _) (putPixel fb _ _ >>= _)
    cases putPixel fb ((dy * c.w + dx) * 4) (rgbx c.bpp vs[row * tw + col]) with
    | ok fb' => exact rfl
    | error e => exact rfl
  case h_2 =>
    rw [List.drop_left' (length_colorBytes c.bpp _)]
    exact rfl

/-- So do the whole loops. -/
theorem alike_blit {fb : Bytes} (hvs : ∀ v ∈ vs, c.bpp.Fits v) (hlen : vs.length = tw * th) :
    Alike Eq (fun fb' raw => ∃ rest, raw = .more fb' rest)
      (forRect (c.blitPixel x y tw vs) th tw fb)
      (forRect (c.blitRawPixel x y) th tw (.more fb (vs.flatMap (colorBytes c.bpp)))) := by
  have hloop : Alike Eq (c.BeforePixel vs (th * tw + 0)) (forRect (c.blitPixel x y tw vs) th tw fb)
      (forRect (c.blitRawPixel x y) th tw (.more fb (vs.flatMap (colorBytes c.bpp)))) := by
    apply alike_forRect (R := fun row col => c.BeforePixel vs (row * tw + col))
    · rw [Nat.zero_mul]
      exact rfl
    · intro row col fb' raw hrow hcol hraw
      exact alike_blitPixel hvs (hlen ▸ position_lt hcol hrow) hraw
    · intro row fb' raw _ hraw
      rwa [Nat.succ_mul]
  exact hloop.imp fun fb' raw hraw => ⟨_, hraw⟩

/-- A raw rectangle and the raw tile of the same bytes are drawn alike, wherever they lie: on
a framebuffer of the right size both succeed. -/
theorem blitRAW_eq_decodeLRE (c : RfbClient) (x y : Int) (tw th : Nat) (data : Bytes) (hw : 1 ≤ tw)
    (hh : 1 ≤ th) (hlen : data.length = tw * th * c.bpp.bpp) :
    c.blitRAW x y tw th data = c.decodeLRE (0 :: data) x y tw th ∧
      (c.Fits → ∃ c', c.decodeLRE (0 :: data) x y tw th = .ok c') := by
  obtain ⟨vs, hcount, hvs, rfl⟩ := exists_colors hlen
  have htile : decodeTile c.bpp (tw * th) 0 (vs.flatMap (colorBytes c.bpp)) = .ok vs := by
    have hloop : rawLoop c.bpp vs.length (vs.flatMap (colorBytes c.bpp) ++ [])
        (progress (tw * th) []) = .ok (progress (tw * th) ([] ++ vs)) :=
      rawLoop_colorBytes hvs (by simp [hcount]) []
    rw [List.append_nil, progress_nil, hcount] at hloop
    unfold decodeTile
    dsimp only
    rw [if_pos rfl, hloop]
    exact congrArg Except.ok (progress_complete hcount)
  unfold decodeLRE blitRAW
  dsimp only
  rw [htile]
  cases hfb : c.fb with
  | none => exact ⟨rfl, fun _ => ⟨c, rfl⟩⟩
  | some fb =>
      dsimp only
      rw [if_neg (by omega)]
      have halike : Alike Eq (fun fb' raw => ∃ rest, raw = .more fb' rest)
          (forRect (c.blitPixel x y tw vs) th tw fb)
          (forRect (c.blitRawPixel x y) th tw (.more fb (vs.flatMap (colorBytes c.bpp)))) :=
        alike_blit hvs hcount
      constructor
      · change _ = (forRect (c.blitPixel x y tw vs) th tw fb >>= _)
        cases hblit : forRect (c.blitPixel x y tw vs) th tw fb with
        | ok fb' =>
            rw [hblit] at halike
            obtain ⟨raw, hraw, rest, rfl⟩ := halike.exists_ok
            rw [hraw]
            rfl
        | error e =>
            rw [hblit] at halike
            obtain ⟨e', hraw, rfl⟩ := halike.exists_error
            rw [hraw]
            rfl
      · intro hc
        obtain ⟨fb', hblit, -⟩ := blit_spec (x := x) (y := y) (hc fb hfb) hcount
        refine ⟨{ c with fb := some fb' }, ?_⟩
        change (forRect (c.blitPixel x y tw vs) th tw fb >>= _) = _
        rw [hblit]
        rfl

/-- Two pixels of a row that begins to the left of the screen. -/
theorem blitRAW_eq_decodeLRE_clipped :
    (({} : RfbClient).resize 1 1).blitRAW (-1) 0 2 1 [0x00, 0xf8, 0x1f, 0x00] =
      (({} : RfbClient).resize 1 1).decodeLRE [0, 0x00, 0xf8, 0x1f, 0x00] (-1) 0 2 1 ∧
    ∃ c', (({} : RfbClient).resize 1 1).decodeLRE [0, 0x00, 0xf8, 0x1f, 0x00] (-1) 0 2 1 =
      .ok c' :=
  have hsame := blitRAW_eq_decodeLRE (({} : RfbClient).resize 1 1) (-1) 0 2 1
    [0x00, 0xf8, 0x1f, 0x00] (by decide) (by decide) rfl
  ⟨hsame.1, hsame.2 (resize_fits _ 1 1)⟩

end RfbClient

end Outband.Amt.Redir
