import Outband.Amt.Redir.LreRoundTrip

/-!
# Index safety of the RFB client

The indices of a tile or of the framebuffer are always in range: the tile is as
large as its rectangle, and every position is clipped. The size of a palette and
the indices into it come from the peer separately, and nothing compares them.
`run_returns_iff` says that `Run` ends by returning an error exactly when no
rectangle it comes to names an index beyond its palette.
-/

namespace Outband.Amt.Redir

open Foundation

variable {bpp : Depth} {pal : List (BitVec 16)} {s : Nat} {data : Bytes} {p : Progress}

/-- The client stops with an error it returns. -/
def Stop.Ordinary : Stop → Prop
  | .returned _ => True
  | .panic _ => False

/-! ### Tiles -/

/-- The number of pixels set stays within the tile, and the tile keeps its size. -/
def WithinTile (s : Nat) (p : Progress) : Prop := p.1 ≤ s ∧ p.2.length = s

theorem length_setPix (tile : List (BitVec 16)) (i : Nat) (v : BitVec 16) :
    (setPix tile i v).length = tile.length := by
  unfold setPix
  split_ifs
  · exact List.length_set
  · rfl

theorem fillRun_within (h : WithinTile s p) (v : BitVec 16) (run : Nat) :
    WithinTile s (fillRun s v run p) ∧ (fillRun s v run p).1 = min (p.1 + run) s := by
  induction run generalizing p with
  | zero => exact ⟨h, by simp only [fillRun]; have := h.1; omega⟩
  | succ run ih =>
      rw [show p = (p.1, p.2) from rfl, fillRun]
      split_ifs with hlt
      · obtain ⟨hin, heq⟩ := @ih (p.1 + 1, setPix p.2 p.1 v)
          ⟨hlt, (length_setPix _ _ _).trans h.2⟩
        refine ⟨hin, heq.trans ?_⟩
        simp only
        omega
      · have := h.1
        exact ⟨h, by simp only; omega⟩

theorem readColor_ordinary (bpp : Depth) (data : Bytes) :
    Meets (readColor bpp data) (fun _ => True) Stop.Ordinary := by
  unfold readColor
  split <;> trivial

theorem readColors_ordinary (bpp : Depth) (n : Nat) (data : Bytes) :
    Meets (readColors bpp n data) (fun r => r.1.length = n) Stop.Ordinary := by
  induction n generalizing data with
  | zero => exact rfl
  | succ n ih =>
      rw [readColors]
      apply (readColor_ordinary bpp data).bind
      rintro ⟨v, rest⟩ -
      apply (ih rest).bind
      rintro ⟨vs, rest'⟩ hlen
      exact congrArg Nat.succ hlen

theorem readRun_ordinary (run : Nat) (data : Bytes) :
    Meets (readRun run data) (fun _ => True) Stop.Ordinary := by
  induction data generalizing run with
  | nil => trivial
  | cons d data ih =>
      rw [readRun]
      split_ifs
      · exact ih _
      · trivial

theorem rawLoop_ordinary (n : Nat) (data : Bytes) (hp : p.2.length = s) :
    Meets (rawLoop bpp n data p) (fun q => q.2.length = s) Stop.Ordinary := by
  induction n generalizing data p with
  | zero => exact hp
  | succ n ih =>
      rw [show p = (p.1, p.2) from rfl, rawLoop]
      apply (readColor_ordinary bpp data).bind
      intro r _
      exact ih r.2 ((length_setPix _ _ _).trans hp)

theorem rleLoop_ordinary (hp : WithinTile s p) :
    Meets (rleLoop bpp s data p) (fun q => q.2.length = s) Stop.Ordinary := by
  fun_induction rleLoop bpp s data p with
  | case1 data p h e he =>
      have := readColor_ordinary bpp data
      rwa [he] at this
  | case2 data p h v rest hcolour e he =>
      have := readRun_ordinary 1 rest
      rwa [he] at this
  | case3 data p h v rest hcolour run rest' hrun ih => exact ih (fillRun_within hp v run).1
  | case4 data p h => exact hp.2

/-- The indices a payload with runs names, as far as the tile goes. -/
def paletteIndices (room : Nat) (data : Bytes) : List Nat :=
  match data with
  | [] => []
  | idx :: rest =>
      if 0 < room then
        (idx.toNat % 128) ::
          match hrun : readIndexRun idx rest with
          | .error _ => []
          | .ok (run, rest') => paletteIndices (room - run) rest'
      else []
termination_by data.length
decreasing_by
  have := length_le_of_readIndexRun hrun
  simp only [List.length_cons]
  omega

theorem mem_paletteIndices_cons {room i run : Nat} {idx : BitVec 8} {rest rest' : Bytes}
    (hroom : 0 < room) (hrun : readIndexRun idx rest = .ok (run, rest')) :
    i ∈ paletteIndices room (idx :: rest) ↔
      i = idx.toNat % 128 ∨ i ∈ paletteIndices (room - run) rest' := by
  rw [paletteIndices, if_pos hroom, List.mem_cons]
  split
  case h_1 e he => simp [hrun] at he
  case h_2 run' rest₂ hr =>
    rw [hrun] at hr
    cases hr
    rfl

theorem mem_paletteIndices_head {room : Nat} {idx : BitVec 8} {rest : Bytes} (hroom : 0 < room) :
    idx.toNat % 128 ∈ paletteIndices room (idx :: rest) := by
  rw [paletteIndices, if_pos hroom]
  exact List.mem_cons_self

theorem paletteIndices_truncated {room : Nat} {idx : BitVec 8} {rest : Bytes} {e : Stop}
    (hrun : readIndexRun idx rest = .error e) {i : Nat}
    (h : i ∈ paletteIndices room (idx :: rest)) : i = idx.toNat % 128 := by
  rw [paletteIndices] at h
  split_ifs at h
  · rcases List.mem_cons.mp h with h | h
    · exact h
    · split at h
      case h_1 => cases h
      case h_2 run rest' hr => simp [hrun] at hr
  · cases h

theorem paletteLoop_ordinary (hp : WithinTile s p)
    (hidx : ∀ i ∈ paletteIndices (s - p.1) data, i < pal.length) :
    Meets (paletteLoop pal s data p) (fun q => q.2.length = s) Stop.Ordinary := by
  fun_induction paletteLoop pal s data p with
  | case1 p => exact hp.2
  | case2 p idx rest hlt e he =>
      have := hidx _ (mem_paletteIndices_head (by omega))
      rw [rdSlice_ok this] at he
      cases he
  | case3 p idx rest hlt v hv e he =>
      unfold readIndexRun at he
      split_ifs at he
      have := readRun_ordinary 1 rest
      rwa [he] at this
  | case4 p idx rest hlt v hv run rest' hrun ih =>
      obtain ⟨hin, heq⟩ := fillRun_within hp v run
      apply ih hin
      intro i hi
      apply hidx i ((mem_paletteIndices_cons (by omega) hrun).mpr (.inr _))
      rwa [heq, show s - min (p.1 + run) s = s - p.1 - run by omega] at hi
  | case5 p idx rest hlt => exact hp.2

theorem paletteLoop_panics (hp : WithinTile s p)
    (hidx : ¬ ∀ i ∈ paletteIndices (s - p.1) data, i < pal.length) :
    paletteLoop pal s data p = .error (.panic .palette) := by
  fun_induction paletteLoop pal s data p with
  | case1 p =>
      rw [paletteIndices] at hidx
      simp at hidx
  | case2 p idx rest hlt e he =>
      unfold rdSlice at he
      split at he
      · cases he
      · cases he
        rfl
  | case3 p idx rest hlt v hv e he =>
      exfalso
      apply hidx
      intro i hi
      rw [paletteIndices_truncated he hi]
      by_contra hge
      rw [rdSlice_error (by omega)] at hv
      cases hv
  | case4 p idx rest hlt v hv run rest' hrun ih =>
      obtain ⟨hin, heq⟩ := fillRun_within hp v run
      apply ih hin
      intro hall
      apply hidx
      intro i hi
      rcases (mem_paletteIndices_cons (by omega) hrun).mp hi with rfl | hi
      · by_contra hge
        rw [rdSlice_error (by omega)] at hv
        cases hv
      · apply hall
        rwa [heq, show s - min (p.1 + run) s = s - p.1 - run by omega]
  | case5 p idx rest hlt =>
      rw [paletteIndices, if_neg (by omega)] at hidx
      simp at hidx

/-- Every palette index that the payload names for a tile of `s` pixels is below the size of the
palette. The other subencodings have no palette. -/
structure IndicesInRange (bpp : Depth) (s : Nat) (sub : BitVec 8) (data : Bytes) : Prop where
  packed : 1 < sub.toNat ∧ sub.toNat < 17 → ∀ pal rest,
    readColors bpp sub.toNat data = .ok (pal, rest) →
      ∀ i ∈ (rest.flatMap (packedIndices (indexBits sub.toNat))).take s, i < pal.length
  runs : 129 < sub.toNat → ∀ pal rest,
    readColors bpp (sub.toNat - 128) data = .ok (pal, rest) →
      ∀ i ∈ paletteIndices s rest, i < pal.length

theorem packedLoop_ordinary {br : Nat} (hidx : ∀ i ∈ (data.flatMap (packedIndices br)).take s,
    i < pal.length) :
    Meets (packedLoop pal s br data (0, List.replicate s 0)) (fun q => q.2.length = s)
      Stop.Ordinary := by
  rw [← progress_nil, packedLoop_spec data (Nat.zero_le s)]
  simp only [List.length_nil, Nat.sub_zero]
  rw [lookups_ok hidx]
  simp [Except.map, progress]

theorem packedLoop_panics {br : Nat} (hidx : ¬ ∀ i ∈ (data.flatMap (packedIndices br)).take s,
    i < pal.length) :
    packedLoop pal s br data (0, List.replicate s 0) = .error (.panic .palette) := by
  rw [← progress_nil, packedLoop_spec data (Nat.zero_le s)]
  simp only [List.length_nil, Nat.sub_zero]
  rw [lookups_panic hidx]
  rfl

theorem withinTile_init (s : Nat) : WithinTile s (0, List.replicate s 0) :=
  ⟨Nat.zero_le s, List.length_replicate⟩

theorem decodeTile_ordinary {sub : BitVec 8} (h : IndicesInRange bpp s sub data) :
    Meets (decodeTile bpp s sub data) (fun tile => tile.length = s) Stop.Ordinary := by
  unfold decodeTile
  dsimp only
  split_ifs with h0 h1 hpacked h128 hruns
  · apply (rawLoop_ordinary s data (withinTile_init s).2).bind
    exact fun q hq => hq
  · apply (readColor_ordinary bpp data).bind
    exact fun r _ => (fillRun_within (withinTile_init s) r.1 s).1.2
  · apply (readColors_ordinary bpp sub.toNat data).bind_of_eq
    rintro ⟨pal, rest⟩ hpal
    apply (packedLoop_ordinary (h.packed hpacked pal rest hpal)).bind
    exact fun q hq => hq
  · apply (rleLoop_ordinary (withinTile_init s)).bind
    exact fun q hq => hq
  · have hrange := h.runs hruns
    generalize sub.toNat - 128 = n at hrange
    apply (readColors_ordinary bpp n data).bind_of_eq
    rintro ⟨pal, rest⟩ hpal
    apply (paletteLoop_ordinary (withinTile_init s) (hrange pal rest hpal)).bind
    exact fun q hq => hq
  · trivial

/-- A payload that is out of range has a palette. -/
theorem exists_palette_of_not_inRange {sub : BitVec 8} (h : ¬ IndicesInRange bpp s sub data) :
    (1 < sub.toNat ∧ sub.toNat < 17 ∧ ∃ pal rest,
      readColors bpp sub.toNat data = .ok (pal, rest) ∧
        ¬ ∀ i ∈ (rest.flatMap (packedIndices (indexBits sub.toNat))).take s, i < pal.length) ∨
      (129 < sub.toNat ∧ ∃ pal rest, readColors bpp (sub.toNat - 128) data = .ok (pal, rest) ∧
        ¬ ∀ i ∈ paletteIndices s rest, i < pal.length) := by
  by_contra hnone
  rw [not_or] at hnone
  refine h ⟨fun hpacked pal rest hpal => ?_, fun hruns pal rest hpal => ?_⟩
  · by_contra hidx
    exact hnone.1 ⟨hpacked.1, hpacked.2, pal, rest, hpal, hidx⟩
  · by_contra hidx
    exact hnone.2 ⟨hruns, pal, rest, hpal, hidx⟩

theorem decodeTile_panics {sub : BitVec 8} (h : ¬ IndicesInRange bpp s sub data) :
    decodeTile bpp s sub data = .error (.panic .palette) := by
  rcases exists_palette_of_not_inRange h with ⟨hlo, hhi, pal, rest, hpal, hidx⟩ |
    ⟨hlo, pal, rest, hpal, hidx⟩
  · have hsub : ∀ m : BitVec 8, m.toNat < 2 → sub ≠ m := by
      rintro m hm rfl
      omega
    unfold decodeTile
    rw [if_neg (hsub 0 (by decide)), if_neg (hsub 1 (by decide)), if_pos ⟨hlo, hhi⟩, hpal]
    change (packedLoop pal s _ rest (0, List.replicate s 0) >>= _) = _
    rw [packedLoop_panics hidx]
    rfl
  · have hsub : ∀ m : BitVec 8, m.toNat < 129 → sub ≠ m := by
      rintro m hm rfl
      omega
    unfold decodeTile
    rw [if_neg (hsub 0 (by decide)), if_neg (hsub 1 (by decide)), if_neg (by omega),
      if_neg (hsub 128 (by decide)), if_pos hlo, hpal]
    change (paletteLoop pal s rest (0, List.replicate s 0) >>= _) = _
    rw [paletteLoop_panics (withinTile_init s) hidx]
    rfl

namespace RfbClient

variable {H : RfbHost} {c : RfbClient} {st st₀ : RfbClient × Bytes}

/-! ### Rectangles -/

/-- The framebuffer has four bytes for each pixel. -/
def Fits (c : RfbClient) : Prop := ∀ fb, c.fb = some fb → fb.length = c.w * c.h * 4

theorem resize_fits (c : RfbClient) (w h : Nat) : (c.resize w h).Fits := by
  rintro fb ⟨⟩
  simp [resize, List.length_flatten]

theorem readFull_spec (n : Nat) (input : Bytes) :
    Meets (readFull n input) (fun r => r.2.length ≤ input.length) Stop.Ordinary := by
  unfold readFull
  split_ifs
  · change (input.drop n).length ≤ _
    rw [List.length_drop]
    omega
  · trivial

theorem write_fits (hc : c.Fits) (msg : Bytes) :
    Meets (c.write H msg) Fits Stop.Ordinary := by
  unfold write
  split
  · trivial
  · exact hc

theorem decodeLRE_safe {sub : BitVec 8} {data : Bytes} {x y : Int} {tw th : Nat} (hc : c.Fits)
    (h : IndicesInRange c.bpp (tw * th) sub data) :
    Meets (c.decodeLRE (sub :: data) x y tw th) Fits Stop.Ordinary := by
  unfold decodeLRE
  apply (decodeTile_ordinary h).bind
  intro tile htile
  cases hfb : c.fb with
  | none => exact hc
  | some fb =>
      obtain ⟨fb', hblit, hdrawn⟩ := blit_spec (x := x) (y := y) (hc fb hfb) htile
      dsimp only
      rw [hblit]
      rintro _ ⟨⟩
      exact hdrawn.length.trans (hc fb hfb)

theorem decodeLRE_panics {sub : BitVec 8} {data : Bytes} {x y : Int} {tw th : Nat}
    (h : ¬ IndicesInRange c.bpp (tw * th) sub data) :
    c.decodeLRE (sub :: data) x y tw th = .error (.panic .palette) := by
  unfold decodeLRE
  dsimp only
  rw [decodeTile_panics h]
  rfl

/-- The framebuffer a raw rectangle has reached. -/
def Raw.fb : Raw → Bytes
  | .more fb _ => fb
  | .done fb => fb

theorem blitRawPixel_safe {x y : Int} {row col : Nat} {raw : Raw}
    (h : raw.fb.length = c.w * c.h * 4) :
    Meets (c.blitRawPixel x y row col raw) (fun raw' => raw'.fb.length = c.w * c.h * 4)
      Stop.Ordinary := by
  cases raw with
  | done fb => exact h
  | more fb data =>
      have hlen : fb.length = c.w * c.h * 4 := h
      unfold blitRawPixel
      dsimp only
      split
      case h_1 dy dx hdy hdx =>
        have hpos := position_lt (clip_eq_some.mp hdx).2 (clip_eq_some.mp hdy).2
        split
        case h_1 => exact h
        case h_2 v data' hcolour =>
          obtain ⟨fb', hput, hlen', -⟩ := putPixel_spec (rgbx_length c.bpp v)
            (show (dy * c.w + dx) * 4 + 4 ≤ fb.length by omega)
          rw [hput]
          exact hlen'.trans hlen
      case h_2 => exact h

theorem blitRAW_safe {x y : Int} {tw th : Nat} {data : Bytes} (hc : c.Fits) :
    Meets (c.blitRAW x y tw th data) Fits Stop.Ordinary := by
  unfold blitRAW
  cases hfb : c.fb with
  | none => exact hc
  | some fb =>
      dsimp only
      split_ifs
      · exact hc
      · have hloop : Meets (forRect (c.blitRawPixel x y) th tw (.more fb data))
            (fun raw => raw.fb.length = c.w * c.h * 4) Stop.Ordinary :=
          meets_forRect (I := fun raw : Raw => raw.fb.length = c.w * c.h * 4) (hc fb hfb)
            fun row col raw _ _ hraw => blitRawPixel_safe hraw
        apply hloop.bind
        intro raw hraw
        cases raw with
        | more fb' rest =>
            rintro _ ⟨⟩
            exact hraw
        | done fb' =>
            rintro _ ⟨⟩
            exact hraw

/-- The input begins with an encoding-16 rectangle of `s` pixels whose payload has subencoding
`sub` and goes on with `data`. -/
def LreRect (H : RfbHost) (input : Bytes) (s : Nat) (sub : BitVec 8) (data : Bytes) : Prop :=
  ∃ hdr lenBuf wrapped input₁ input₂ input₃, readFull 12 input = .ok (hdr, input₁) ∧
    (rectHeader hdr).enc = 16 ∧ s = (rectHeader hdr).w * (rectHeader hdr).h ∧
    readFull 4 input₁ = .ok (lenBuf, input₂) ∧ bigEndian lenBuf ≤ 8 <<< 20 ∧
    readFull (bigEndian lenBuf) input₂ = .ok (wrapped, input₃) ∧
    unwrapRLE H wrapped = .ok (sub :: data)

/-- The condition on the rectangle at the front of the input. -/
def RectInRange (H : RfbHost) (st : RfbClient × Bytes) : Prop :=
  ∀ s sub data, LreRect H st.2 s sub data → IndicesInRange st.1.bpp s sub data

/-- What the steps of the stream preserve. -/
def Kept (st₀ st : RfbClient × Bytes) : Prop := st.1.Fits ∧ st.2.length ≤ st₀.2.length

theorem unwrapRLE_ordinary (data : Bytes) :
    Meets (unwrapRLE H data) (fun _ => True) Stop.Ordinary := by
  unfold unwrapRLE
  split
  · trivial
  · split_ifs
    · trivial
    · split
      · trivial
      · split_ifs <;> trivial
    · trivial

theorem readRLE_safe {x y w h : Nat} {input : Bytes} (hc : c.Fits)
    (hrange : ∀ lenBuf wrapped input₂ input₃ sub data, readFull 4 input = .ok (lenBuf, input₂) →
      bigEndian lenBuf ≤ 8 <<< 20 →
      readFull (bigEndian lenBuf) input₂ = .ok (wrapped, input₃) →
      unwrapRLE H wrapped = .ok (sub :: data) → IndicesInRange c.bpp (w * h) sub data) :
    Meets (c.readRLE H x y w h input) (Kept (c, input)) Stop.Ordinary := by
  unfold readRLE
  apply (readFull_spec 4 input).bind_of_eq
  rintro ⟨lenBuf, input₂⟩ hlenBuf
  dsimp only
  split_ifs with hlong
  · trivial
  · apply (readFull_spec _ input₂).bind_of_eq
    rintro ⟨wrapped, input₃⟩ hwrapped
    apply (unwrapRLE_ordinary wrapped).bind_of_eq
    intro payload hpayload
    have hlen₂ := (readFull_spec 4 input).of_eq_ok hlenBuf
    have hlen₃ := (readFull_spec _ input₂).of_eq_ok hwrapped
    cases payload with
    | nil => trivial
    | cons sub data =>
        have hidx :=
          hrange lenBuf wrapped input₂ input₃ sub data hlenBuf (by omega) hwrapped hpayload
        apply (decodeLRE_safe hc hidx).bind
        intro c' hc'
        exact ⟨hc', Nat.le_trans hlen₃ hlen₂⟩

theorem requestUpdate_fits (hc : c.Fits) (incremental : Bool) :
    Meets (c.requestUpdate H incremental) Fits Stop.Ordinary := write_fits hc _

theorem readRect_safe (hc : st.1.Fits) (h : RectInRange H st) :
    Meets (readRect H st) (Kept st) Stop.Ordinary := by
  unfold readRect
  apply (readFull_spec 12 st.2).bind_of_eq
  rintro ⟨hdr, input⟩ hhdr
  have hlen := (readFull_spec 12 st.2).of_eq_ok hhdr
  change Meets (st.1.readRectBody H (rectHeader hdr) input) _ _
  unfold readRectBody
  split_ifs with hsize hraw hlre
  · apply (requestUpdate_fits (resize_fits _ _ _) false).bind
    intro c' hc'
    exact ⟨hc', hlen⟩
  · apply (readFull_spec _ input).bind_of_eq
    rintro ⟨data, input'⟩ hdata
    have hlen' := (readFull_spec _ input).of_eq_ok hdata
    apply (blitRAW_safe hc).bind
    intro c' hc'
    exact ⟨hc', Nat.le_trans hlen' hlen⟩
  · apply (readRLE_safe hc _).imp
    · intro st' hkept
      exact ⟨hkept.1, Nat.le_trans hkept.2 hlen⟩
    · intro lenBuf wrapped input₂ input₃ sub data h₁ hle h₂ h₃
      exact h _ sub data
        ⟨hdr, lenBuf, wrapped, input, input₂, input₃, hhdr, hlre, rfl, h₁, hle, h₂, h₃⟩
  · trivial

theorem readRect_panics (h : ¬ RectInRange H st) :
    readRect H st = .error (.panic .palette) := by
  unfold RectInRange at h
  push Not at h
  obtain ⟨s, sub, data, hrect, hidx⟩ := h
  obtain ⟨hdr, lenBuf, wrapped, input₁, input₂, input₃, hhdr, henc, rfl, hlen, hle, hdata,
    hunwrap⟩ := hrect
  unfold readRect
  rw [hhdr]
  change st.1.readRectBody H (rectHeader hdr) input₁ = _
  unfold readRectBody
  rw [if_neg (by omega), if_neg (by omega), if_pos henc]
  unfold readRLE
  rw [hlen]
  change (if 8 <<< 20 < bigEndian lenBuf then _ else _) = _
  rw [if_neg (by omega), hdata]
  change (unwrapRLE H wrapped >>= _) = _
  rw [hunwrap]
  change (st.1.decodeLRE (sub :: data) _ _ _ _ >>= _) = _
  rw [decodeLRE_panics hidx]
  rfl

/-! ### Runs -/

/-- `readRect` is called in the state `st` during the run from `st₀`. -/
def RectAt (H : RfbHost) (st₀ st : RfbClient × Bytes) : Prop :=
  ∃ (c : RfbClient) (body hdr input : Bytes) (k : Nat),
    Loop.Visits (serverMessage H) st₀ (c, 0 :: body) ∧ readFull 3 body = .ok (hdr, input) ∧
      k < bigEndian (slice hdr 1 3) ∧ forUp (fun _ => readRect H) 0 k (c, input) = .ok st

theorem readRects_safe {n : Nat} (hc : st.1.Fits)
    (h : ∀ k < n, ∀ st', forUp (fun _ => readRect H) 0 k st = .ok st' → RectInRange H st') :
    Meets (forUp (fun _ => readRect H) 0 n st) (Kept st) Stop.Ordinary := by
  have hloop : Meets (forUp (fun _ => readRect H) 0 n st)
      (fun st' => forUp (fun _ => readRect H) 0 (0 + n) st = .ok st' ∧ Kept st st')
      Stop.Ordinary := by
    apply meets_forUp (I := fun k st' => forUp (fun _ => readRect H) 0 k st = .ok st' ∧ Kept st st')
    · exact ⟨rfl, hc, le_rfl⟩
    · rintro k st' - hk ⟨hrun, hkept⟩
      have hsafe := readRect_safe hkept.1 (h k (by omega) st' hrun)
      cases hrect : readRect H st' with
      | error e =>
          rw [hrect] at hsafe
          exact hsafe
      | ok st'' =>
          rw [hrect] at hsafe
          refine ⟨(forUp_snoc hrun).trans hrect, hsafe.1, Nat.le_trans hsafe.2 hkept.2⟩
  exact hloop.imp fun _ h => h.2

theorem emit_fits (hc : c.Fits) : c.emit.Fits := by
  unfold emit
  split
  · exact hc
  · exact hc

theorem readUpdate_safe {body : Bytes} (hc : c.Fits)
    (h : ∀ st', RectAt H (c, 0 :: body) st' → RectInRange H st') :
    Meets (c.readUpdate H body) (Kept (c, body)) Stop.Ordinary := by
  unfold readUpdate
  apply (readFull_spec 3 body).bind_of_eq
  rintro ⟨hdr, input⟩ hhdr
  have hlen := (readFull_spec 3 body).of_eq_ok hhdr
  have hrects : Meets (forUp (fun _ => readRect H) 0 (bigEndian (slice hdr 1 3)) (c, input))
      (Kept (c, input)) Stop.Ordinary :=
    readRects_safe hc fun k hk st' hst' => h st' ⟨c, body, hdr, input, k, .refl, hhdr, hk, hst'⟩
  apply hrects.bind
  rintro ⟨c', input'⟩ hkept
  apply (requestUpdate_fits (emit_fits hkept.1) true).bind
  intro c'' hc''
  exact ⟨hc'', Nat.le_trans hkept.2 hlen⟩

theorem readCutText_safe {body : Bytes} (hc : c.Fits) :
    Meets (c.readCutText body) (Kept (c, body)) Stop.Ordinary := by
  unfold readCutText
  apply (readFull_spec 3 body).bind
  rintro ⟨_, input₁⟩ h₁
  apply (readFull_spec 4 input₁).bind
  rintro ⟨ln, input₂⟩ h₂
  apply (readFull_spec (bigEndian ln) input₂).bind
  rintro ⟨_, input₃⟩ h₃
  exact ⟨hc, Nat.le_trans h₃ (Nat.le_trans h₂ h₁)⟩

/-- One message whose rectangles are in range; it uses up at least its first byte. -/
theorem serverMessage_safe (hc : st.1.Fits)
    (h : ∀ st', RectAt H st st' → RectInRange H st') :
    Meets (serverMessage H st)
      (Sum.elim (fun st' => st'.1.Fits ∧ st'.2.length < st.2.length) fun _ => True)
      Stop.Ordinary := by
  obtain ⟨c, bytes⟩ := st
  unfold serverMessage
  cases bytes with
  | nil => trivial
  | cons typ body =>
      dsimp only
      split_ifs with hupdate hbell hcut
      · subst hupdate
        exact (readUpdate_safe hc h).map fun st' hst' => ⟨hst'.1, Nat.lt_succ_of_le hst'.2⟩
      · exact ⟨hc, Nat.lt_succ_self _⟩
      · exact (readCutText_safe hc).map fun st' hst' => ⟨hst'.1, Nat.lt_succ_of_le hst'.2⟩
      · trivial

theorem RectAt.trans {st₁ : RfbClient × Bytes} (hvisits : Loop.Visits (serverMessage H) st₀ st₁)
    (h : RectAt H st₁ st) : RectAt H st₀ st := by
  obtain ⟨c, body, hdr, input, k, hvisits', hrest⟩ := h
  exact ⟨c, body, hdr, input, k, hvisits.trans hvisits', hrest⟩

/-- Runs whose rectangles are in range end with an error that is returned. -/
theorem run_returns (hc : st₀.1.Fits) (h : ∀ st, RectAt H st₀ st → RectInRange H st) :
    ∃ e, Run H st₀.1 st₀.2 (.returned e) := by
  have hstep : ∀ st, (Loop.Visits (serverMessage H) st₀ st ∧ st.1.Fits) →
      Meets (serverMessage H st) (Sum.elim (fun st' =>
        (Loop.Visits (serverMessage H) st₀ st' ∧ st'.1.Fits) ∧ st'.2.length < st.2.length)
        fun _ => True) Stop.Ordinary := by
    rintro st ⟨hvisits, hfits⟩
    have hsafe := serverMessage_safe hfits fun st' hst' => h st' (hst'.trans hvisits)
    cases hmsg : serverMessage H st with
    | error e =>
        rw [hmsg] at hsafe
        exact hsafe
    | ok x =>
        rw [hmsg] at hsafe
        cases x with
        | inl st' => exact ⟨⟨hvisits.tail hmsg, hsafe.1⟩, hsafe.2⟩
        | inr out => exact out.elim
  obtain ⟨r, hr⟩ := Loop.exists_returns (fun st : RfbClient × Bytes => st.2.length)
    (fun st hst => (hstep st hst).mono (fun _ hx => hx) fun _ _ => trivial) ⟨.refl, hc⟩
  have hmeets := hr.meets (Q := fun _ => True) (fun st hst => (hstep st hst).imp fun x hx => by
    cases x with
    | inl st' => exact hx.1
    | inr out => trivial) ⟨.refl, hc⟩
  match r, hr, hmeets with
  | .error (.returned e), hr, _ => exact ⟨e, hr⟩

/-- A run that comes to a rectangle out of range ends in a panic. -/
theorem run_panics (hrect : RectAt H st₀ st) (h : ¬ RectInRange H st) :
    Run H st₀.1 st₀.2 (.panic .palette) := by
  obtain ⟨c, body, hdr, input, k, hvisits, hhdr, hk, hst⟩ := hrect
  have hrects : forUp (fun _ => readRect H) 0 (bigEndian (slice hdr 1 3)) (c, input) =
      .error (.panic .palette) := by
    obtain ⟨m, hm⟩ : ∃ m, bigEndian (slice hdr 1 3) = k + (m + 1) :=
      ⟨bigEndian (slice hdr 1 3) - k - 1, by omega⟩
    rw [hm, forUp_add, hst]
    change (readRect H st >>= _) = _
    rw [readRect_panics h]
    rfl
  have hmsg : serverMessage H (c, 0 :: body) = .error (.panic .palette) := by
    change (c.readUpdate H body).map Sum.inl = _
    unfold readUpdate
    rw [hhdr]
    change ((forUp (fun _ => readRect H) 0 (bigEndian (slice hdr 1 3)) (c, input) >>= _)).map _ = _
    rw [hrects]
    rfl
  exact hvisits.returns_iff.mpr (Loop.returns_fault hmsg)

/-- After the RFB handshake, `Run` ends by returning an error exactly when every palette index
named by the rectangles it comes to is in range; otherwise it panics at the first that is not. -/
theorem run_returns_iff (H : RfbHost) (c : RfbClient) (w h : Nat) (input : Bytes) :
    (∃ e, Run H (c.resize w h) input (.returned e)) ↔
      ∀ st, RectAt H (c.resize w h, input) st → RectInRange H st := by
  constructor
  · rintro ⟨e, hrun⟩ st hrect
    by_contra hbad
    have := (run_panics hrect hbad).unique hrun
    cases this
  · intro hall
    exact @run_returns H (c.resize w h, input) (resize_fits c w h) hall

/-- One rectangle of one pixel, packed with three colours and the index 3. -/
def threeColours : Bytes :=
  [0, 0, 0, 1, 0, 0, 0, 0, 0, 1, 0, 1, 0, 0, 0, 16, 0, 0, 0, 8, 3, 0, 0, 0, 0, 0, 0, 0xc0]

theorem run_panics_threeColours :
    Run ⟨fun _ => none, fun _ => none⟩ (({} : RfbClient).resize 1 1) threeColours
      (.panic .palette) :=
  ⟨1, by decide⟩

end RfbClient

end Outband.Amt.Redir
