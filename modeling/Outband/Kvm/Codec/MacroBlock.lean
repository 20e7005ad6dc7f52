import Outband.Kvm.Codec.Tile

/-!
# Rounds of the macro-block loop

Which rounds of the loop of `decode` are free of faults. Entropy coded data is
never a problem: `skipKbits` does not run off the payload and every symbol stays
inside its table. What can go wrong is in the header of a macro block, where
`updateReadBuf` needs a word to refill from, and in the position of its tile.
`HeadSafe` states both of the decoder at the head of a round, and a round faults
exactly when it fails.
-/

namespace Outband.Kvm.Codec.Decoder

open Foundation

variable {d d' : Decoder} {F : Site → Prop} {b : Nat}

theorem Step.bind {x : Except Site Decoder} {f : Decoder → Except Site Decoder}
    (h : Meets x (Step b d) F) (hf : ∀ d', Step b d d' → Meets (f d') (Step 0 d') F) :
    Meets (x >>= f) (Step b d) F := by
  apply h.bind
  intro d' hd'
  apply (hf d' hd').imp
  intro d'' hd''
  exact hd'.trans hd''

/-! ### Entropy coded units -/

theorem Store.Valid.storeUnit (hd : d.store.Valid) (u : Fin 6) {samples : Fin 64 → Nat}
    (hsamples : ∀ i, samples i ≤ 255) : (d.storeUnit u samples).store.Valid := by
  refine { hd with yuvTile := ?_ }
  intro i
  change (if h : _ then samples _ else d.yuvTile i) ≤ 255
  split_ifs
  · exact hsamples _
  · exact hd.yuvTile i

theorem meets_unitY (hd : d.store.Valid) (hr : d.toReader.Ready) (u : Fin 6) (q : Fin 4) :
    Meets (d.unitY u q) (Step 0 d) F := by
  apply (meets_decodeHuffmanDataUnit hr false d.dcY).bind
  rintro ⟨r, coeff, pred⟩ hadv
  exact ⟨Store.Valid.storeUnit hd u (inverseDCT_le coeff _), rfl, rfl, rfl, hadv⟩

theorem meets_unitCb (hd : d.store.Valid) (hr : d.toReader.Ready) (u : Fin 6) (q : Fin 4) :
    Meets (d.unitCb u q) (Step 0 d) F := by
  apply (meets_decodeHuffmanDataUnit hr true d.dcCb).bind
  rintro ⟨r, coeff, pred⟩ hadv
  exact ⟨Store.Valid.storeUnit hd u (inverseDCT_le coeff _), rfl, rfl, rfl, hadv⟩

theorem meets_unitCr (hd : d.store.Valid) (hr : d.toReader.Ready) (u : Fin 6) (q : Fin 4) :
    Meets (d.unitCr u q) (Step 0 d) F := by
  apply (meets_decodeHuffmanDataUnit hr true d.dcCr).bind
  rintro ⟨r, coeff, pred⟩ hadv
  exact ⟨Store.Valid.storeUnit hd u (inverseDCT_le coeff _), rfl, rfl, rfl, hadv⟩

theorem meets_units444 (hd : d.store.Valid) (hr : d.toReader.Ready) (q : Fin 4) :
    Meets (d.units444 q) (Step 0 d) F := by
  apply Step.bind (meets_unitY hd hr 0 q)
  intro d₁ h₁
  apply Step.bind (meets_unitCb h₁.valid h₁.reader.ready 1 (q + 1))
  intro d₂ h₂
  exact meets_unitCr h₂.valid h₂.reader.ready 2 (q + 1)

theorem meets_units420 (hd : d.store.Valid) (hr : d.toReader.Ready) (q : Fin 4) :
    Meets (d.units420 q) (Step 0 d) F := by
  apply Step.bind (meets_unitY hd hr 0 q)
  intro d₁ h₁
  apply Step.bind (meets_unitY h₁.valid h₁.reader.ready 1 q)
  intro d₂ h₂
  apply Step.bind (meets_unitY h₂.valid h₂.reader.ready 2 q)
  intro d₃ h₃
  apply Step.bind (meets_unitY h₃.valid h₃.reader.ready 3 q)
  intro d₄ h₄
  apply Step.bind (meets_unitCb h₄.valid h₄.reader.ready 4 (q + 1))
  intro d₅ h₅
  exact meets_unitCr h₅.valid h₅.reader.ready 5 (q + 1)

theorem meets_units (hd : d.store.Valid) (hr : d.toReader.Ready) (q : Fin 4) :
    Meets (d.units q) (Step 0 d) F := by
  unfold units
  split_ifs
  · exact meets_units420 hd hr q
  · exact meets_units444 hd hr q

/-! ### Vector-quantized planes -/

/-- The components of a cache colour are bytes. -/
def IsColor (color : Nat × Nat × Nat) : Prop :=
  color.1 ≤ 255 ∧ color.2.1 ≤ 255 ∧ color.2.2 ≤ 255

theorem masked_le (color mask : BitVec 32) (k : Nat) :
    ((color &&& mask) >>> k).toNat ≤ mask.toNat / 2 ^ k := by
  rw [BitVec.toNat_ushiftRight, Nat.shiftRight_eq_div_pow, BitVec.toNat_and]
  exact Nat.div_le_div_right Nat.and_le_right

theorem meets_vqColor (hd : d.store.Valid) {sel : Nat} (hsel : sel < 4) :
    Meets (vqColor d.vq sel) IsColor F := by
  unfold vqColor
  rw [rd_ok hsel]
  change Meets (rd Site.vqColor d.vq.Color (d.vq.Index ⟨sel, hsel⟩) >>= _) _ _
  rw [rd_ok (show d.vq.Index ⟨sel, hsel⟩ < 4 from hd.vqIndex _)]
  refine ⟨masked_le _ 0x00FF0000 16, masked_le _ 0x0000FF00 8, ?_⟩
  exact (BitVec.toNat_and _ _).trans_le Nat.and_le_right

theorem update_le {tile : Fin 768 → Nat} (h : ∀ i, tile i ≤ 255) {v : Nat} (hv : v ≤ 255)
    (k i : Fin 768) : Function.update tile k v i ≤ 255 := by
  rw [Function.update_apply]
  split_ifs
  · exact hv
  · exact h i

theorem Store.Valid.storeColor (hd : d.store.Valid) (i : Nat) {color : Nat × Nat × Nat}
    (hcolor : IsColor color) : (d.storeColor i color).store.Valid := by
  obtain ⟨hy, hcb, hcr⟩ := hcolor
  exact { hd with yuvTile := update_le (update_le (update_le hd.yuvTile hy _) hcb _) hcr _ }

theorem lookKbits_lt {r : Reader} {v : BitVec 16} (h : r.lookKbits b = .ok v) (hb : b ≤ 32) :
    v.toNat < 2 ^ b := by
  unfold Reader.lookKbits at h
  cases hword : rdSlice Site.recv r.recv 0 with
  | error e =>
      rw [hword] at h
      cases h
  | ok word =>
      rw [hword] at h
      cases h
      have hpow : 2 ^ b * 2 ^ (32 - b) = 2 ^ 32 := by rw [← Nat.pow_add, Nat.add_sub_cancel' hb]
      have hshift : word.toNat / 2 ^ (32 - b) < 2 ^ b :=
        Nat.div_lt_of_lt_mul (by rw [Nat.mul_comm, hpow]; exact word.isLt)
      calc ((word >>> (32 - b)).setWidth 16).toNat
          ≤ (word >>> (32 - b)).toNat := by
            rw [BitVec.toNat_setWidth]
            exact Nat.mod_le _ _
        _ = word.toNat / 2 ^ (32 - b) := by
            rw [BitVec.toNat_ushiftRight, Nat.shiftRight_eq_div_pow]
        _ < 2 ^ b := hshift

theorem meets_vqPixel (hd : d.store.Valid) (hr : d.toReader.Ready) (hb : b ≤ 2) (i : Nat) :
    Meets (vqPixel b i d) (Step 0 d) F := by
  obtain ⟨sel, hsel⟩ := Reader.lookKbits_ok hr b
  obtain ⟨r, hskip, hadv⟩ := Reader.skipKbits_spec hr (show b ≤ 32 by omega)
  have hlt : sel.toNat < 4 :=
    Nat.lt_of_lt_of_le (lookKbits_lt hsel (by omega)) (Nat.pow_le_pow_right (by decide) hb)
  rw [vqPixel, hsel]
  change Meets (vqColor d.vq sel.toNat >>= _) _ _
  apply (meets_vqColor hd hlt).bind
  intro color hcolor
  rw [hskip]
  exact ⟨hd.storeColor i hcolor, rfl, rfl, rfl, hadv.mono (Nat.zero_le _)⟩

theorem meets_vqPlanes (hd : d.store.Valid) (hr : d.toReader.Ready) :
    Meets d.vqPlanes (Step 0 d) F := by
  unfold vqPlanes
  split_ifs
  · apply (meets_vqColor hd (by decide)).bind
    intro color hcolor
    apply meets_forUp (I := fun _ => Step 0 d) (.refl hd hr)
    intro i s _ _ hs
    exact hs.trans ⟨hs.valid.storeColor i hcolor, rfl, rfl, rfl, .refl hs.reader.ready⟩
  · apply meets_forUp (I := fun _ => Step 0 d) (.refl hd hr)
    intro i s _ _ hs
    apply (meets_vqPixel hs.valid hs.reader.ready hd.vqBits i).imp
    intro s' hs'
    exact hs.trans hs'

/-! ### Headers -/

theorem meets_updateReadBuf (hd : d.store.Valid) (hr : d.toReader.Ready) (hb : b ≤ 32)
    (havail : d.toReader.Available b) : Meets (d.updateReadBuf b) (Step b d) F := by
  obtain ⟨r, hread, hadv⟩ := Reader.updateReadBuf_spec hr hb havail
  rw [updateReadBuf, hread]
  exact ⟨hd, rfl, rfl, rfl, hadv⟩

theorem faults_updateReadBuf (havail : ¬ d.toReader.Available b) :
    Faults (d.updateReadBuf b) := by
  rw [updateReadBuf, Reader.updateReadBuf_error havail]
  exact ⟨_, rfl⟩

/-- The next 32 bits of the stream. -/
def word0 (d : Decoder) : BitVec 32 := d.recv.getD 0 0

theorem rdSlice_word0 (hr : d.toReader.Ready) : rdSlice Site.recv d.recv 0 = .ok d.word0 := by
  have hlen := hr.words
  have hword : d.recv[0]? = some d.recv[0] := List.getElem?_eq_getElem (by omega)
  rw [rdSlice_ok (by omega), word0, List.getD_eq_getElem?_getD, hword]
  rfl

/-- The next slot of a VQ header finds the bits it needs. -/
def SlotAvailable (d : Decoder) : Prop := d.toReader.Available (slotBits d.word0)

instance (d : Decoder) : Decidable d.SlotAvailable :=
  inferInstanceAs (Decidable (d.toReader.Available (slotBits d.word0)))

theorem slotBits_le (r0 : BitVec 32) : 3 ≤ slotBits r0 ∧ slotBits r0 ≤ 32 := by
  unfold slotBits
  split_ifs <;> decide

/-- A slot changes the cache and then only consumes bits. -/
theorem readSlot_eq (hr : d.toReader.Ready) {i : Nat} (hi : i < 4) :
    ∃ vq : ColorCache, readSlot i d = { d with vq := vq }.updateReadBuf (slotBits d.word0) ∧
      vq.BitMapBits = d.vq.BitMapBits ∧ ((∀ j, d.vq.Index j < 4) → ∀ j, vq.Index j < 4) := by
  have hindex : ((d.word0 >>> 29) &&& 3).toNat < 4 := by
    rw [BitVec.toNat_and]
    exact Nat.lt_of_le_of_lt Nat.and_le_right (by decide)
  obtain ⟨colors, hcolors⟩ : ∃ colors,
      slotColors d.vq d.word0 ((d.word0 >>> 29) &&& 3).toNat = .ok colors := by
    unfold slotColors
    split_ifs
    · exact ⟨_, rfl⟩
    · exact ⟨_, wr_ok hindex⟩
  refine ⟨{ d.vq with
    Index := Function.update d.vq.Index ⟨i, hi⟩ ((d.word0 >>> 29) &&& 3).toNat,
    Color := colors }, ?_, rfl, ?_⟩
  · rw [readSlot, rdSlice_word0 hr]
    change (wr Site.vqIndex d.vq.Index i _ >>= _) = _
    rw [wr_ok hi]
    change (slotColors d.vq d.word0 _ >>= _) = _
    rw [hcolors]
    rfl
  · intro hlt j
    change Function.update d.vq.Index ⟨i, hi⟩ _ j < 4
    rw [Function.update_apply]
    split_ifs
    · exact hindex
    · exact hlt j

theorem meets_readSlot (hd : d.store.Valid) (hr : d.toReader.Ready) {i : Nat} (hi : i < 4)
    (havail : d.SlotAvailable) : Meets (readSlot i d) (Step 3 d) F := by
  obtain ⟨vq, hslot, hbits, hindex⟩ := readSlot_eq hr hi
  have hvalid : { d with vq := vq }.store.Valid :=
    { hd with vqIndex := hindex hd.vqIndex, vqBits := hbits.trans_le hd.vqBits }
  rw [hslot]
  apply (meets_updateReadBuf (d := { d with vq := vq }) hvalid hr (slotBits_le _).2 havail).imp
  intro d' hd'
  exact Step.mono ⟨hd'.valid, hd'.geometry, hd'.txb, hd'.tyb, hd'.reader⟩ (slotBits_le _).1

theorem faults_readSlot (hr : d.toReader.Ready) {i : Nat} (hi : i < 4)
    (havail : ¬ d.SlotAvailable) : Faults (readSlot i d) := by
  obtain ⟨vq, hslot, -⟩ := readSlot_eq hr hi
  rw [hslot]
  exact faults_updateReadBuf (d := { d with vq := vq }) havail

/-- Every slot of a VQ header of `count` slots finds the bits it needs. -/
def SlotsAvailable (d : Decoder) (count : Nat) : Prop :=
  ∀ k < count, Meets (forUp readSlot 0 k d) SlotAvailable fun _ => True

theorem meets_slots (hd : d.store.Valid) (hr : d.toReader.Ready) {count : Nat}
    (hcount : count ≤ 4) (havail : d.SlotsAvailable count) :
    Meets (forUp readSlot 0 count d) (Step 0 d) F := by
  have hloop : Meets (forUp readSlot 0 count d)
      (fun s => Step 0 d s ∧ forUp readSlot 0 (0 + count) d = .ok s) F := by
    apply meets_forUp (I := fun k s => Step 0 d s ∧ forUp readSlot 0 k d = .ok s)
    · exact ⟨.refl hd hr, rfl⟩
    · rintro k s - hk ⟨hs, hrun⟩
      have hslot := (havail k (by omega)).of_eq_ok hrun
      obtain ⟨s', hs', hstep⟩ :=
        (meets_readSlot hs.valid hs.reader.ready (show k < 4 by omega) hslot).exists_ok
      rw [hs']
      refine ⟨(hs.trans hstep).mono (Nat.zero_le _), ?_⟩
      rw [forUp_add, hrun]
      change (readSlot (0 + k) s >>= _) = _
      rw [Nat.zero_add, hs']
      rfl
  exact hloop.imp fun _ hs => hs.1

theorem faults_slots (hd : d.store.Valid) (hr : d.toReader.Ready) {count : Nat}
    (hcount : count ≤ 4) (havail : ¬ d.SlotsAvailable count) :
    Faults (forUp readSlot 0 count d) := by
  induction count with
  | zero => exact (havail fun k hk => absurd hk (Nat.not_lt_zero k)).elim
  | succ count ih =>
      rw [forUp_add]
      by_cases hfirst : d.SlotsAvailable count
      · obtain ⟨s, hrun, hs⟩ := (meets_slots hd hr (by omega) hfirst).exists_ok
        have hlast : ¬ s.SlotAvailable := by
          intro hslot
          apply havail
          intro k hk
          rcases Nat.lt_succ_iff_lt_or_eq.mp hk with hlt | rfl
          · exact hfirst k hlt
          · rw [hrun]
            exact hslot
        rw [hrun]
        exact (faults_readSlot hs.reader.ready (show 0 + count < 4 by omega) hlast).bind _
      · exact (ih (by omega) hfirst).bind _

/-- The decoder in front of the slots of a VQ header. -/
def withBitMapBits (d : Decoder) (bits : Nat) : Decoder :=
  { d with vq := { d.vq with BitMapBits := bits } }

theorem Store.Valid.withBitMapBits (hd : d.store.Valid) {bits : Nat} (hbits : bits ≤ 2) :
    (d.withBitMapBits bits).store.Valid := { hd with vqBits := hbits }

/-! ### Macro blocks -/

/-- The kinds the dispatch can select. -/
def Kind.Valid : Kind → Prop
  | .vq bits count => bits ≤ 2 ∧ count ≤ 4
  | _ => True

theorem kindOf_valid {code : Nat} {kind : Kind} {skip : Bool}
    (h : kindOf code = some (kind, skip)) : kind.Valid := by
  unfold kindOf at h
  split at h <;> simp only [Option.some.injEq, Prod.mk.injEq, reduceCtorEq] at h <;>
    obtain ⟨rfl, rfl⟩ := h <;> simp [Kind.Valid]

/-- The body of a macro block of this kind is free of faults. -/
def KindSafe (d : Decoder) : Kind → Prop
  | .jpeg _ => d.TileFits d.txb d.tyb
  | .pass2 _ => d.Pass2Fits d.txb d.tyb
  | .vq bits count => (d.withBitMapBits bits).SlotsAvailable count ∧ d.TileFits d.txb d.tyb

theorem tileFits_congr (h : d'.geometry = d.geometry) (tx ty : Nat) :
    d'.TileFits tx ty ↔ d.TileFits tx ty := by
  have hmode : d'.mode420 = d.mode420 := congrArg Geometry.mode420 h
  have hwidth : d'.width = d.width := congrArg Geometry.width h
  have hheight : d'.height = d.height := congrArg Geometry.height h
  have hreal : d'.realWidth = d.realWidth := congrArg Geometry.realWidth h
  have halloc : d'.bufAlloc = d.bufAlloc := congrArg Geometry.bufAlloc h
  simp only [TileFits, RectFits, off444, off420, limit444, rows420, hmode, hwidth, hheight, hreal,
    halloc]

theorem Step.pass2Fits (h : Step b d d') :
    d'.Pass2Fits d.txb d.tyb ↔ d.Pass2Fits d.txb d.tyb := by
  have hmode : d'.mode420 = d.mode420 := congrArg Geometry.mode420 h.geometry
  unfold Pass2Fits
  rw [hmode, tileFits_congr h.geometry]

theorem meets_decompress {kind : Kind} (hkind : kind.Valid) (hd : d.store.Valid)
    (hr : d.toReader.Ready) (hsafe : d.KindSafe kind) :
    Meets (d.decompress kind) (Step 0 d) fun _ => False := by
  cases kind with
  | jpeg q =>
      apply Step.bind (meets_units hd hr q)
      intro d₁ h₁
      apply (meets_convertYUVtoRGB h₁.valid ((tileFits_congr h₁.geometry _ _).mpr hsafe)).imp
      intro d₂ h₂
      exact h₂.step h₁.valid h₁.reader.ready
  | pass2 q =>
      apply Step.bind (meets_units444 hd hr q)
      intro d₁ h₁
      apply (meets_convertYUVToRGBPass2 h₁.valid (h₁.pass2Fits.mpr hsafe)).imp
      intro d₂ h₂
      exact h₂.step h₁.valid h₁.reader.ready
  | vq bits count =>
      obtain ⟨hslots, hfit⟩ := hsafe
      have hvalid := Store.Valid.withBitMapBits hd hkind.1
      have hheader : Meets (d.readVQHeader bits count) (Step 0 d) fun _ => False := by
        apply (meets_slots hvalid hr hkind.2 hslots).imp
        intro d₁ h₁
        exact ⟨h₁.valid, h₁.geometry, h₁.txb, h₁.tyb, h₁.reader⟩
      apply Step.bind hheader
      intro d₁ h₁
      apply Step.bind (meets_vqPlanes h₁.valid h₁.reader.ready)
      intro d₂ h₂
      have hfit₂ := (tileFits_congr (h₂.geometry.trans h₁.geometry) _ _).mpr hfit
      rw [h₁.txb, h₁.tyb]
      apply (meets_convertYUVtoRGB h₂.valid hfit₂).imp
      intro d₃ h₃
      exact h₃.step h₂.valid h₂.reader.ready

theorem faults_decompress {kind : Kind} (hkind : kind.Valid) (hd : d.store.Valid)
    (hr : d.toReader.Ready) (hsafe : ¬ d.KindSafe kind) : Faults (d.decompress kind) := by
  cases kind with
  | jpeg q =>
      apply Faults.bind_right
      intro d₁ hunits
      have h₁ := (meets_units (F := fun _ => True) hd hr q).of_eq_ok hunits
      exact faults_convertYUVtoRGB h₁.valid fun hfit =>
        hsafe ((tileFits_congr h₁.geometry _ _).mp hfit)
  | pass2 q =>
      apply Faults.bind_right
      intro d₁ hunits
      have h₁ := (meets_units444 (F := fun _ => True) hd hr q).of_eq_ok hunits
      exact faults_convertYUVToRGBPass2 h₁.valid fun hfit => hsafe (h₁.pass2Fits.mp hfit)
  | vq bits count =>
      have hvalid := Store.Valid.withBitMapBits hd hkind.1
      by_cases hslots : (d.withBitMapBits bits).SlotsAvailable count
      · apply Faults.bind_right
        intro d₁ hheader
        have h₁ := (meets_slots (F := fun _ => True) hvalid hr hkind.2 hslots).of_eq_ok hheader
        apply Faults.bind_right
        intro d₂ hplanes
        have h₂ := (meets_vqPlanes (F := fun _ => True) h₁.valid h₁.reader.ready).of_eq_ok hplanes
        apply faults_convertYUVtoRGB h₂.valid
        rw [tileFits_congr (h₂.geometry.trans h₁.geometry), h₁.txb, h₁.tyb]
        exact fun hfit => hsafe ⟨hslots, hfit⟩
      · exact (faults_slots hvalid hr hkind.2 hslots).bind _

/-- The bits of the code and the position of a macro block. -/
def positionBits (skip : Bool) : Nat := if skip then 20 else 4

/-- What a round leaves behind, apart from the next tile. -/
structure Round (b : Nat) (d d' : Decoder) : Prop where
  valid : d'.store.Valid
  geometry : d'.geometry = d.geometry
  reader : d.toReader.Advances b d'.toReader

/-- The decoder at the tile of a macro block. -/
def placed (d : Decoder) (skip : Bool) : Decoder :=
  if skip then { d with
    txb := ((d.word0 &&& 0x0FF00000) >>> 20).toNat, tyb := ((d.word0 &&& 0x000FF000) >>> 12).toNat }
  else d

theorem readPosition_eq (hr : d.toReader.Ready) (skip : Bool) :
    d.readPosition skip = (d.placed skip).updateReadBuf (positionBits skip) := by
  cases skip with
  | false => rfl
  | true =>
      change (d.readSkipPosition >>= _) = _
      rw [readSkipPosition, rdSlice_word0 hr]
      rfl

theorem meets_readPosition (hd : d.store.Valid) (hr : d.toReader.Ready) {skip : Bool}
    (havail : d.toReader.Available (positionBits skip)) :
    Meets (d.readPosition skip) (Round 4 d) F := by
  rw [readPosition_eq hr]
  cases skip with
  | false =>
      apply (meets_updateReadBuf (b := 4) hd hr (by decide) havail).imp
      intro d' hd'
      exact ⟨hd'.valid, hd'.geometry, hd'.reader⟩
  | true =>
      apply (meets_updateReadBuf (d := d.placed true) (b := 20) hd hr (by decide) havail).imp
      intro d' hd'
      exact ⟨hd'.valid, hd'.geometry, Reader.Advances.mono hd'.reader (by decide)⟩

theorem faults_readPosition (hr : d.toReader.Ready) {skip : Bool}
    (havail : ¬ d.toReader.Available (positionBits skip)) : Faults (d.readPosition skip) := by
  rw [readPosition_eq hr]
  apply faults_updateReadBuf
  cases skip with
  | false => exact havail
  | true => exact havail

theorem Round.move (h : Round b d d') : Round b d d'.moveBlockIndex := by
  obtain ⟨hvalid, hgeometry, hreader⟩ := h
  unfold moveBlockIndex
  simp only
  split_ifs <;> exact ⟨hvalid, hgeometry, hreader⟩

/-- The position of a macro block can be read, and its body there is free of faults. -/
def BlockSafe (d : Decoder) (kind : Kind) (skip : Bool) : Prop :=
  d.toReader.Available (positionBits skip) ∧
    Meets (d.readPosition skip) (fun d' => d'.KindSafe kind) fun _ => True

theorem meets_tileBlock {kind : Kind} (hkind : kind.Valid) {skip : Bool} (hd : d.store.Valid)
    (hr : d.toReader.Ready) (hsafe : d.BlockSafe kind skip) :
    Meets (d.tileBlock kind skip) (Round 4 d) fun _ => False := by
  obtain ⟨havail, hbody⟩ := hsafe
  obtain ⟨d₁, hposition, h₁⟩ := (meets_readPosition hd hr havail).exists_ok
  have hkindSafe := hbody.of_eq_ok hposition
  rw [tileBlock, hposition]
  change Meets (d₁.decompress kind >>= _) _ _
  apply (meets_decompress hkind h₁.valid h₁.reader.ready hkindSafe).bind
  intro d₂ h₂
  apply Round.move
  exact ⟨h₂.valid, h₂.geometry.trans h₁.geometry, h₁.reader.trans h₂.reader⟩

theorem faults_tileBlock {kind : Kind} (hkind : kind.Valid) {skip : Bool} (hd : d.store.Valid)
    (hr : d.toReader.Ready) (hsafe : ¬ d.BlockSafe kind skip) :
    Faults (d.tileBlock kind skip) := by
  by_cases havail : d.toReader.Available (positionBits skip)
  · obtain ⟨d₁, hposition, hunsafe⟩ := Meets.exists_of_not fun hbody => hsafe ⟨havail, hbody⟩
    have h₁ := (meets_readPosition (F := fun _ => True) hd hr havail).of_eq_ok hposition
    rw [tileBlock, hposition]
    exact (faults_decompress hkind h₁.valid h₁.reader.ready hunsafe).bind _
  · exact (faults_readPosition hr havail).bind _

theorem meets_unknownBlock (hd : d.store.Valid) (hr : d.toReader.Ready)
    (havail : d.toReader.Available 3) : Meets d.unknownBlock (Round 3 d) F := by
  apply (meets_updateReadBuf hd hr (by decide) havail).bind
  intro d₁ h₁
  apply Round.move
  exact ⟨h₁.valid, h₁.geometry, h₁.reader⟩

/-- The code of the next macro block. -/
def code (d : Decoder) : Nat := ((d.word0 >>> 28) &&& 15).toNat

/-- The next round is free of faults. -/
def HeadSafe (d : Decoder) : Prop :=
  match kindOf d.code with
  | some (kind, skip) => d.BlockSafe kind skip
  | none => d.code = 9 ∨ d.toReader.Available 3

variable {cw : Int}

/-- A round goes on below the stated number of words, or it leaves the loop. -/
def RoundEnds (cw : Int) (d : Decoder) : Decoder ⊕ Decoder → Prop :=
  Sum.elim (fun d' => Round 3 d d' ∧ (d'.index : Int) < cw) (Round 0 d)

theorem Round.continueBelow (h : Round 3 d d') : RoundEnds cw d (d'.continueBelow cw) := by
  unfold Decoder.continueBelow
  split_ifs with hend
  · exact ⟨h.valid, h.geometry, h.reader.mono (by decide)⟩
  · exact ⟨h, by omega⟩

theorem macroBlock_eq (hr : d.toReader.Ready) :
    d.macroBlock cw = match kindOf d.code with
      | some (kind, skip) => d.tileBlock kind skip >>= fun d => pure (d.continueBelow cw)
      | none =>
          if d.code = 9 then pure (.inr d)
          else d.unknownBlock >>= fun d => pure (d.continueBelow cw) := by
  rw [macroBlock, rdSlice_word0 hr]
  rfl

/-- A safe round is free of faults and keeps the invariant. -/
theorem meets_macroBlock (hd : d.store.Valid) (hr : d.toReader.Ready) (hsafe : d.HeadSafe) :
    Meets (d.macroBlock cw) (RoundEnds cw d) fun _ => False := by
  unfold HeadSafe at hsafe
  rw [macroBlock_eq hr]
  cases hkind : kindOf d.code with
  | some block =>
      obtain ⟨kind, skip⟩ := block
      rw [hkind] at hsafe
      apply (meets_tileBlock (kindOf_valid hkind) hd hr hsafe).bind
      intro d' hd'
      exact Round.continueBelow ⟨hd'.valid, hd'.geometry, hd'.reader.mono (by decide)⟩
  | none =>
      rw [hkind] at hsafe
      by_cases hend : d.code = 9
      · simp only [if_pos hend]
        exact ⟨hd, rfl, .refl hr⟩
      · simp only [if_neg hend]
        apply (meets_unknownBlock hd hr (hsafe.resolve_left hend)).bind
        intro d' hd'
        exact hd'.continueBelow

/-- Any other round runs into a fault. -/
theorem faults_macroBlock (hd : d.store.Valid) (hr : d.toReader.Ready) (hsafe : ¬ d.HeadSafe) :
    Faults (d.macroBlock cw) := by
  unfold HeadSafe at hsafe
  rw [macroBlock_eq hr]
  cases hkind : kindOf d.code with
  | some block =>
      obtain ⟨kind, skip⟩ := block
      rw [hkind] at hsafe
      exact (faults_tileBlock (kindOf_valid hkind) hd hr hsafe).bind _
  | none =>
      rw [hkind] at hsafe
      push Not at hsafe
      simp only [if_neg hsafe.1]
      exact ((faults_updateReadBuf hsafe.2).bind _).bind _

/-- What every round does, safe or not. -/
theorem meets_macroBlock_of_valid (hd : d.store.Valid) (hr : d.toReader.Ready) :
    Meets (d.macroBlock cw) (RoundEnds cw d) fun _ => True := by
  by_cases hsafe : d.HeadSafe
  · exact (meets_macroBlock hd hr hsafe).mono (fun _ h => h) fun _ h => h.elim
  · obtain ⟨e, he⟩ := faults_macroBlock hd hr hsafe
    rw [he]
    exact True.intro

end Outband.Kvm.Codec.Decoder
