import Outband.Foundation.Digits
import Outband.Foundation.Raster
import Outband.Amt.Redir.LreTile

/-!
# Round trip of LRE tiles

`Encoded` lists the payloads that stand for a tile, one constructor for each
subencoding. `decodeLRE` of any of them draws the tile: `blit_spec` describes
the framebuffer after the nested loops pixel by pixel, and the round trip puts
the two together.
-/

namespace Outband.Amt.Redir

open Foundation

variable {bpp : Depth} {pal vs : List (BitVec 16)} {s : Nat}

/-! ### Packing of indices -/

/-- One byte of packed indices, most significant first. -/
def packByte (br : Nat) (slots : List Nat) : BitVec 8 :=
  BitVec.ofNat 8 (ofDigitsMsb (2 ^ br) slots)

/-- A byte that packs as many indices as it has room for. -/
theorem packedIndices_packByte {br : Nat} (hbr : br * (8 / br) = 8) {slots : List Nat}
    (hlen : slots.length = 8 / br) (hlt : ∀ d ∈ slots, d < 2 ^ br) :
    packedIndices br (packByte br slots) = slots := by
  have hbyte : (packByte br slots).toNat = ofDigitsMsb (2 ^ br) slots := by
    have := ofDigitsMsb_lt hlt
    rw [← pow_mul, hlen, hbr] at this
    rw [packByte, BitVec.toNat_ofNat, Nat.mod_eq_of_lt this]
  apply List.ext_getElem
  · simp [packedIndices, indexShifts, hlen]
  · intro k hk hk'
    have hshift : 8 - br * (k + 1) = br * (slots.length - 1 - k) := by
      rw [hlen, Nat.sub_sub, Nat.mul_sub, hbr, Nat.add_comm 1 k]
    simp only [packedIndices, indexShifts, List.getElem_map, List.getElem_range,
      Nat.and_two_pow_sub_one_eq_mod, Nat.shiftRight_eq_div_pow]
    rw [hbyte, hshift, pow_mul]
    exact ofDigitsMsb_digit hlt hk'

theorem indexBits_mul (nPal : Nat) : indexBits nPal * (8 / indexBits nPal) = 8 := by
  unfold indexBits
  split_ifs <;> rfl

/-! ### The payloads of a tile -/

/-- `payload` stands for the pixel values `tile`. -/
inductive Encoded (bpp : Depth) : List (BitVec 16) → Bytes → Prop
  | raw (tile : List (BitVec 16)) (fits : ∀ v ∈ tile, bpp.Fits v) :
      Encoded bpp tile (0 :: tile.flatMap (colorBytes bpp))
  | solid (n : Nat) (v : BitVec 16) (fits : bpp.Fits v) :
      Encoded bpp (List.replicate n v) (1 :: colorBytes bpp v)
  /-- The indices of the pixels fill bytes one after the other; `pad` completes the last one. -/
  | packed (pal : List (BitVec 16)) (idx pad : List Nat) (bytes : List (List Nat))
      (fits : ∀ v ∈ pal, bpp.Fits v) (two_le : 2 ≤ pal.length) (le : pal.length ≤ 16)
      (index_lt : ∀ i ∈ idx, i < pal.length)
      (slots : bytes.flatten = idx ++ pad)
      (full : ∀ b ∈ bytes, b.length = 8 / indexBits pal.length)
      (slot_lt : ∀ b ∈ bytes, ∀ d ∈ b, d < 2 ^ indexBits pal.length)
      (last : pad.length < 8 / indexBits pal.length) :
      Encoded bpp (idx.map fun i => pal[i]?.getD 0)
        (BitVec.ofNat 8 pal.length :: (pal.flatMap (colorBytes bpp) ++
          bytes.map (packByte (indexBits pal.length))))
  | rle (runs : List (BitVec 16 × Nat)) (valid : ∀ r ∈ runs, bpp.Fits r.1 ∧ 0 < r.2) :
      Encoded bpp (expandRuns runs)
        (128 :: runs.flatMap fun r => colorBytes bpp r.1 ++ runBytes r.2)
  | paletteRle (pal : List (BitVec 16)) (runs : List PaletteRun)
      (fits : ∀ v ∈ pal, bpp.Fits v) (two_le : 2 ≤ pal.length) (le : pal.length ≤ 127)
      (valid : ∀ r ∈ runs, r.Valid pal.length) :
      Encoded bpp (expandPalette pal runs)
        (BitVec.ofNat 8 (pal.length + 128) :: (pal.flatMap (colorBytes bpp) ++
          runs.flatMap PaletteRun.bytes))

/-- The indices packed into bytes are read back, and the padding is not looked at. -/
theorem packedLoop_packed {idx pad : List Nat} {bytes : List (List Nat)} {br : Nat}
    (hbr : br * (8 / br) = 8) (hidx : ∀ i ∈ idx, i < pal.length)
    (hslots : bytes.flatten = idx ++ pad) (hfull : ∀ b ∈ bytes, b.length = 8 / br)
    (hlt : ∀ b ∈ bytes, ∀ d ∈ b, d < 2 ^ br) :
    packedLoop pal idx.length br (bytes.map (packByte br)) (progress idx.length []) =
      .ok (progress idx.length (idx.map fun i => pal[i]?.getD 0)) := by
  have hflat : (bytes.map (packByte br)).flatMap (packedIndices br) = idx ++ pad := by
    rw [← hslots, List.flatMap_map, List.flatMap]
    congr 1
    conv_rhs => rw [← List.map_id bytes]
    apply List.map_congr_left
    intro b hb
    exact packedIndices_packByte hbr (hfull b hb) (hlt b hb)
  rw [packedLoop_spec _ (by simp), hflat]
  simp only [List.length_nil, Nat.sub_zero, List.take_left, List.nil_append]
  rw [lookups_ok hidx]
  rfl

/-- The subencoding of a packed palette is the number of its colours. -/
theorem decodeTile_packed {n : Nat} (hn : 2 ≤ n) (hn' : n ≤ 16) (data : Bytes) :
    decodeTile bpp s (BitVec.ofNat 8 n) data = (do
      let (pal, data) ← readColors bpp n data
      let p ← packedLoop pal s (indexBits n) data (progress s [])
      pure p.2 : Except Stop (List (BitVec 16))) := by
  have hnat : (BitVec.ofNat 8 n).toNat = n := by
    rw [BitVec.toNat_ofNat]
    omega
  have hne : ∀ m : BitVec 8, m.toNat < 2 → BitVec.ofNat 8 n ≠ m := by
    rintro m hm rfl
    omega
  unfold decodeTile
  rw [if_neg (hne 0 (by decide)), if_neg (hne 1 (by decide)), hnat, if_pos (by omega)]
  rfl

/-- The subencoding of a palette with runs is the number of its colours above 128. -/
theorem decodeTile_paletteRle {n : Nat} (hn : 2 ≤ n) (hn' : n ≤ 127) (data : Bytes) :
    decodeTile bpp s (BitVec.ofNat 8 (n + 128)) data = (do
      let (pal, data) ← readColors bpp n data
      let p ← paletteLoop pal s data (progress s [])
      pure p.2 : Except Stop (List (BitVec 16))) := by
  have hnat : (BitVec.ofNat 8 (n + 128)).toNat = n + 128 := by
    rw [BitVec.toNat_ofNat]
    omega
  have hne : ∀ m : BitVec 8, m.toNat < 129 → BitVec.ofNat 8 (n + 128) ≠ m := by
    rintro m hm rfl
    omega
  unfold decodeTile
  rw [if_neg (hne 0 (by decide)), if_neg (hne 1 (by decide)), hnat, if_neg (by omega),
    if_neg (hne 128 (by decide)), if_pos (by omega), Nat.add_sub_cancel]
  rfl

/-- Every payload of a tile is decoded to it. -/
theorem decodeTile_encoded {tile : List (BitVec 16)} {payload : Bytes}
    (h : Encoded bpp tile payload) :
    ∃ sub data, payload = sub :: data ∧ decodeTile bpp tile.length sub data = .ok tile := by
  cases h with
  | raw _ fits =>
      refine ⟨0, _, rfl, ?_⟩
      have hloop := rawLoop_colorBytes fits
        (show ([] : List (BitVec 16)).length + tile.length ≤ tile.length by simp) []
      rw [List.append_nil] at hloop
      unfold decodeTile
      rw [if_pos rfl]
      change (rawLoop bpp tile.length _ (progress tile.length []) >>= _) = _
      rw [hloop]
      exact congrArg _ (progress_complete rfl)
  | solid n v fits =>
      refine ⟨1, _, rfl, ?_⟩
      have hcolour := readColor_colorBytes fits []
      rw [List.append_nil] at hcolour
      unfold decodeTile
      rw [if_neg (by decide), if_pos rfl, hcolour]
      change Except.ok (fillRun _ v _ (progress _ [])).2 = _
      rw [fillRun_fits (by simp), progress_complete (by simp)]
      simp
  | packed pal idx pad bytes fits two_le le index_lt slots full slot_lt last =>
      refine ⟨_, _, rfl, ?_⟩
      rw [decodeTile_packed two_le le, readColors_colorBytes fits, List.length_map]
      change (packedLoop pal idx.length _ _ _ >>= _) = _
      rw [packedLoop_packed (indexBits_mul _) index_lt slots full slot_lt]
      exact congrArg _ (progress_complete (by simp))
  | rle runs valid =>
      refine ⟨128, _, rfl, ?_⟩
      have hloop := rleLoop_runs valid
        (show ([] : List (BitVec 16)).length + _ = (expandRuns runs).length by simp)
      unfold decodeTile
      rw [if_neg (by decide), if_neg (by decide), if_neg (by decide), if_pos rfl]
      change (rleLoop bpp _ _ (progress _ []) >>= _) = _
      rw [hloop]
      exact congrArg _ (progress_complete (by simp))
  | paletteRle pal runs fits two_le le valid =>
      refine ⟨_, _, rfl, ?_⟩
      rw [decodeTile_paletteRle two_le le, readColors_colorBytes fits]
      change (paletteLoop pal _ _ _ >>= _) = _
      rw [paletteLoop_runs le valid (by simp)]
      exact congrArg _ (progress_complete (by simp))

/-! ### Drawing -/

theorem rgbx_length (bpp : Depth) (v : BitVec 16) : (rgbx bpp v).length = 4 := by
  cases bpp <;> rfl

/-- Four bytes are written and the others stay. -/
theorem putPixel_spec {fb pixel : Bytes} {off : Nat} (hpixel : pixel.length = 4)
    (hoff : off + 4 ≤ fb.length) :
    ∃ fb', putPixel fb off pixel = .ok fb' ∧ fb'.length = fb.length ∧
      (∀ k < 4, fb'[off + k]? = pixel[k]?) ∧
      ∀ i, ¬ (off ≤ i ∧ i < off + 4) → fb'[i]? = fb[i]? := by
  have hloop : Meets (putPixel fb off pixel) (fun fb' => fb'.length = fb.length ∧
      (∀ k < 0 + 4, fb'[off + k]? = pixel[k]?) ∧
      ∀ i, ¬ (off ≤ i ∧ i < off + (0 + 4)) → fb'[i]? = fb[i]?) fun _ => False := by
    apply meets_forUp (I := fun n (fb' : Bytes) => fb'.length = fb.length ∧
      (∀ k < n, fb'[off + k]? = pixel[k]?) ∧
      ∀ i, ¬ (off ≤ i ∧ i < off + n) → fb'[i]? = fb[i]?)
    · exact ⟨rfl, fun k hk => by omega, fun i _ => rfl⟩
    · rintro n fb' - hn ⟨hlen, hin, hout⟩
      rw [wrSlice_ok (by omega)]
      refine ⟨by rw [List.length_set, hlen], fun k hk => ?_, fun i hi => ?_⟩
      · by_cases hkn : k = n
        · subst hkn
          rw [List.getElem?_set_self (by omega), List.getElem?_eq_getElem (by omega)]
          rfl
        · rw [List.getElem?_set_ne (by omega), hin k (by omega)]
      · rw [List.getElem?_set_ne (by omega), hout i (by omega)]
  exact hloop.exists_ok

theorem clip_eq_some {p : Int} {size n : Nat} :
    clip p size = some n ↔ p = n ∧ n < size := by
  unfold clip
  split_ifs with h
  · rw [Option.some.injEq]
    omega
  · simp only [false_iff]
    omega

/-- `off` is where the framebuffer holds the pixel of the cell in row `row` and column `col` of
a tile at `x`, `y`. -/
def RfbClient.CellAt (c : RfbClient) (x y : Int) (row col off : Nat) : Prop :=
  ∃ dx dy : Nat, x + col = dx ∧ y + row = dy ∧ dx < c.w ∧ dy < c.h ∧ off = (dy * c.w + dx) * 4

/-- The framebuffer `fb'` is `fb` with the given cells of the tile drawn: each that lies inside
has its colour, and every byte that belongs to none of them is unchanged. -/
structure RfbClient.Drawn (c : RfbClient) (x y : Int) (tw : Nat) (tile : List (BitVec 16))
    (cells : Nat → Nat → Prop) (fb fb' : Bytes) : Prop where
  length : fb'.length = fb.length
  inside : ∀ row col off, cells row col → c.CellAt x y row col off →
    ∀ k < 4, fb'[off + k]? = (rgbx c.bpp (tile[row * tw + col]?.getD 0))[k]?
  outside : ∀ i, (∀ row col off, cells row col → c.CellAt x y row col off →
    ¬ (off ≤ i ∧ i < off + 4)) → fb'[i]? = fb[i]?

namespace RfbClient

variable {c : RfbClient} {x y : Int} {tw th row col : Nat} {tile : List (BitVec 16)}
variable {cells cells' : Nat → Nat → Prop} {fb fb' : Bytes}

theorem CellAt.inj {row' col' off off' : Nat} (h : c.CellAt x y row col off)
    (h' : c.CellAt x y row' col' off') (hover : off < off' + 4) (hover' : off' < off + 4) :
    row = row' ∧ col = col' := by
  obtain ⟨dx, dy, hx, hy, hdx, -, rfl⟩ := h
  obtain ⟨dx', dy', hx', hy', hdx', -, rfl⟩ := h'
  obtain ⟨rfl, rfl⟩ := position_inj hdx hdx'
    (show dy * c.w + dx = dy' * c.w + dx' by omega)
  omega

theorem Drawn.congr (h : c.Drawn x y tw tile cells fb fb')
    (hcells : ∀ row col, cells row col ↔ cells' row col) : c.Drawn x y tw tile cells' fb fb' := by
  obtain rfl : cells = cells' := by
    funext row col
    exact propext (hcells row col)
  exact h

/-- Drawing one more cell. -/
theorem blitPixel_spec (hfb : fb.length = c.w * c.h * 4) (hrow : row < th) (hcol : col < tw)
    (htile : tile.length = tw * th) (h : c.Drawn x y tw tile cells fb fb') :
    Meets (c.blitPixel x y tw tile row col fb')
      (c.Drawn x y tw tile (fun r k => cells r k ∨ r = row ∧ k = col) fb) fun _ => False := by
  unfold blitPixel
  split
  case h_1 dy dx hdy hdx =>
    obtain ⟨hy, hdy⟩ := clip_eq_some.mp hdy
    obtain ⟨hx, hdx⟩ := clip_eq_some.mp hdx
    have hcell : c.CellAt x y row col ((dy * c.w + dx) * 4) := ⟨dx, dy, hx, hy, hdx, hdy, rfl⟩
    have hidx : row * tw + col < tile.length := by
      rw [htile]
      exact position_lt hcol hrow
    have hpos := position_lt hdx hdy
    obtain ⟨fb'', hput, hlen, hin, hout⟩ := putPixel_spec (rgbx_length c.bpp tile[row * tw + col])
      (show (dy * c.w + dx) * 4 + 4 ≤ fb'.length by rw [h.length, hfb]; omega)
    rw [rdSlice_ok hidx]
    change Meets (putPixel fb' _ _) _ _
    rw [hput]
    refine ⟨hlen.trans h.length, ?_, ?_⟩
    · intro r k off hdrawn hoff j hj
      by_cases hsame : r = row ∧ k = col
      · obtain ⟨rfl, rfl⟩ := hsame
        obtain ⟨dx', dy', hx', hy', -, -, rfl⟩ := hoff
        obtain rfl : dx = dx' := by omega
        obtain rfl : dy = dy' := by omega
        rw [hin j hj, List.getElem?_eq_getElem hidx]
        rfl
      · have hold : cells r k := hdrawn.resolve_right hsame
        rw [hout _ fun hover => hsame (hoff.inj hcell (by omega) (by omega)),
          h.inside r k off hold hoff j hj]
    · intro i hi
      rw [hout i (hi row col _ (.inr ⟨rfl, rfl⟩) hcell)]
      exact h.outside i fun r k off hdrawn => hi r k off (.inl hdrawn)
  case h_2 hnone =>
    have hclipped : ∀ off, ¬ c.CellAt x y row col off := by
      rintro off ⟨dx, dy, hx, hy, hdx, hdy, -⟩
      exact hnone dy dx (clip_eq_some.mpr ⟨hy, hdy⟩) (clip_eq_some.mpr ⟨hx, hdx⟩)
    refine ⟨h.length, ?_, fun i hi => h.outside i fun r k off hdrawn => hi r k off (.inl hdrawn)⟩
    rintro r k off (hdrawn | ⟨rfl, rfl⟩) hoff
    · exact h.inside r k off hdrawn hoff
    · exact absurd hoff (hclipped off)

/-- The nested loops draw every cell of the tile. -/
theorem blit_spec (hfb : fb.length = c.w * c.h * 4) (htile : tile.length = tw * th) :
    ∃ fb', forRect (c.blitPixel x y tw tile) th tw fb = .ok fb' ∧
      c.Drawn x y tw tile (fun row col => row < th ∧ col < tw) fb fb' := by
  have hloop : Meets (forRect (c.blitPixel x y tw tile) th tw fb)
      (c.Drawn x y tw tile (fun row col => row < 0 + th ∧ col < tw) fb) fun _ => False := by
    apply meets_forUp (I := fun n => c.Drawn x y tw tile (fun row col => row < n ∧ col < tw) fb)
    · exact ⟨rfl, fun _ _ _ hnone => by omega, fun _ _ => rfl⟩
    · intro n fb₁ _ hn h₁
      have hrow : Meets (forUp (c.blitPixel x y tw tile n) 0 tw fb₁)
          (c.Drawn x y tw tile
            (fun row col => (row < n ∧ col < tw) ∨ row = n ∧ col < 0 + tw) fb) fun _ => False := by
        apply meets_forUp (I := fun m => c.Drawn x y tw tile
          (fun row col => (row < n ∧ col < tw) ∨ row = n ∧ col < m) fb)
        · exact h₁.congr fun row col => by omega
        · intro m fb₂ _ hm h₂
          apply (blitPixel_spec hfb (by omega) (by omega) htile h₂).imp
          intro fb₃ h₃
          exact h₃.congr fun row col => by omega
      apply hrow.imp
      intro fb₂ h₂
      exact h₂.congr fun row col => by omega
  obtain ⟨fb', hok, hdrawn⟩ := hloop.exists_ok
  exact ⟨fb', hok, hdrawn.congr fun row col => by omega⟩

/-- Every payload of a tile is drawn: `decodeLRE` returns no error, each pixel inside the
framebuffer gets its colour and every other byte stays. -/
theorem decodeLRE_encoded (c : RfbClient) (fb payload : Bytes) (x y : Int) (tw th : Nat)
    (tile : List (BitVec 16)) (hfb : c.fb = some fb) (hlen : fb.length = c.w * c.h * 4)
    (htile : tile.length = tw * th) (hpayload : Encoded c.bpp tile payload) :
    ∃ fb', c.decodeLRE payload x y tw th = .ok { c with fb := some fb' } ∧
      fb'.length = fb.length ∧
      (∀ row < th, ∀ col < tw, ∀ dx < c.w, ∀ dy < c.h, x + col = dx → y + row = dy →
        ∀ k < 4, fb'[(dy * c.w + dx) * 4 + k]? =
          (rgbx c.bpp (tile[row * tw + col]?.getD 0))[k]?) ∧
      ∀ i, (∀ row < th, ∀ col < tw, ∀ dx < c.w, ∀ dy < c.h, x + col = dx → y + row = dy →
        ¬ ((dy * c.w + dx) * 4 ≤ i ∧ i < (dy * c.w + dx) * 4 + 4)) → fb'[i]? = fb[i]? := by
  obtain ⟨sub, data, rfl, hdecode⟩ := decodeTile_encoded hpayload
  obtain ⟨fb', hblit, hdrawn⟩ := blit_spec (x := x) (y := y) hlen htile
  refine ⟨fb', ?_, hdrawn.length, ?_, ?_⟩
  · unfold decodeLRE
    dsimp only
    rw [← htile, hdecode, hfb]
    change (forRect (c.blitPixel x y tw tile) th tw fb >>= _) = _
    rw [hblit]
    rfl
  · intro row hrow col hcol dx hdx dy hdy hx hy
    exact hdrawn.inside row col _ ⟨hrow, hcol⟩ ⟨dx, dy, hx, hy, hdx, hdy, rfl⟩
  · intro i hi
    apply hdrawn.outside i
    rintro row col off ⟨hrow, hcol⟩ ⟨dx, dy, hx, hy, hdx, hdy, rfl⟩
    exact hi row hrow col hcol dx hdx dy hdy hx hy

/-- A red and a blue pixel, one index bit each. -/
theorem encoded_red_blue : Encoded .rgb565 [0xf800, 0x001f]
    [2, 0x00, 0xf8, 0x1f, 0x00, 0x40] := by
  apply Encoded.packed [0xf800, 0x001f] [0, 1] [0, 0, 0, 0, 0, 0]
    [[0, 1, 0, 0, 0, 0, 0, 0]]
  · intro v _ h
    cases h
  all_goals decide

/-- The tile sticks out to the left of a framebuffer of one pixel: only the blue pixel shows. -/
theorem decodeLRE_encoded_red_blue :
    ∃ fb', (({} : RfbClient).resize 1 1).decodeLRE [2, 0x00, 0xf8, 0x1f, 0x00, 0x40] (-1) 0 2 1 =
      .ok { ({} : RfbClient).resize 1 1 with fb := some fb' } ∧ fb'[2]? = some 0xf8 := by
  obtain ⟨fb', hdecode, -, hinside, -⟩ := decodeLRE_encoded (({} : RfbClient).resize 1 1)
    [0, 0, 0, 0xff] [2, 0x00, 0xf8, 0x1f, 0x00, 0x40] (-1) 0 2 1 [0xf800, 0x001f] rfl rfl rfl
    encoded_red_blue
  refine ⟨fb', hdecode, ?_⟩
  exact (hinside 0 (by decide) 1 (by decide) 0 (by decide) 0 (by decide) rfl rfl 2
    (by decide)).trans (by decide)

end RfbClient

end Outband.Amt.Redir
