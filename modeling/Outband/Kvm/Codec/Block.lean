import Outband.Kvm.Codec.Reader

/-!
# Data units of the AMI video codec

A translation of `internal/kvm/codec/idct.go`: the entropy decoding of one 8×8
block of coefficients and the integer transform that turns it into samples.

## Implementation notes

The source keeps the coefficients of all six units of a macro block in one
array. It clears the whole array at the start of every unit and then uses only
the unit's own 64 cells, so here a unit has 64 coefficients of its own. The
functions with the array are `acLoopInto` and `decodeHuffmanDataUnitInto`, and
`decodeHuffmanDataUnitInto_eq` says that they differ in nothing else.
-/

namespace Outband.Kvm.Codec

open Foundation

/-! ### Entropy decoding -/

/-- Two bytes as one index. -/
def wordHiLo (hi lo : BitVec 8) : BitVec 16 := hi ++ lo

/-- Read one symbol: the code length from the next 16 bits, then the symbol from
the length and the distance to the first code of that length. -/
def readSymbol (ht : HuffmanTable) (r : Reader) : Except Site (Reader × BitVec 8) := do
  let r0 ← rdSlice .recv r.recv 0
  let len ← rd .huffmanLen ht.Len ((r0 >>> 16) &&& 0xFFFF).toNat
  let look ← r.lookKbits len
  let r ← r.skipKbits len
  let minor ← rd .minorCode ht.minorCode len
  let value ← rd .huffmanV ht.V (wordHiLo (BitVec.ofNat 8 len) ((look - minor).setWidth 8)).toNat
  pure (r, value.setWidth 8)

/-- The coefficient loop of a unit, from position `b5` on. Every round moves on
by at least one position, so 63 rounds are all it takes. -/
def acLoop (ht : HuffmanTable) :
    Nat → Nat → Reader → (Fin 64 → BitVec 32) → Except Site (Reader × (Fin 64 → BitVec 32))
  | 0, _, r, coeff => .ok (r, coeff)
  | rounds + 1, b5, r, coeff => do
      let (r, b7) ← readSymbol ht r
      let b8 := (b7 &&& 15).toNat
      let b9 := (b7.sshiftRight 4 &&& 15).toNat
      if b8 = 0 then
        if b9 = 15 then
          if 64 ≤ b5 + 16 then pure (r, coeff) else acLoop ht rounds (b5 + 16) r coeff
        else pure (r, coeff)
      else do
        let pos ← rd .dezigzag dezigzag (b5 + b9)
        let (r, value) ← r.getKbits b8
        let coeff ← wr .dctCoeff coeff pos (value.signExtend 32)
        if 64 ≤ b5 + b9 + 1 then pure (r, coeff) else acLoop ht rounds (b5 + b9 + 1) r coeff

/-- The first coefficient of a unit and the predictor of the next one. -/
def readDC (chroma : Bool) (dcPred : BitVec 16) (r : Reader) :
    Except Site (Reader × BitVec 32 × BitVec 16) := do
  let (r, b4) ← readSymbol (htDC chroma) r
  if b4 = 0 then pure (r, dcPred.signExtend 32, dcPred)
  else do
    let (r, value) ← r.getKbits b4.toNat
    let dc := dcPred.signExtend 32 + value.signExtend 32
    pure (r, dc, dc.setWidth 16)

/-- Decode one unit with the tables of its component. Returns the coefficients
and the updated predictor. -/
def decodeHuffmanDataUnit (chroma : Bool) (dcPred : BitVec 16) (r : Reader) :
    Except Site (Reader × (Fin 64 → BitVec 32) × BitVec 16) := do
  let (r, dc, dcPred) ← readDC chroma dcPred r
  let (r, coeff) ← acLoop (htAC chroma) 63 1 r (Function.update (fun _ => 0) 0 dc)
  pure (r, coeff, dcPred)

/-- The coefficient loop with the array of all units, which has the unit at `off`. -/
def acLoopInto (ht : HuffmanTable) (off : Nat) :
    Nat → Nat → Reader → (Fin 384 → BitVec 32) → Except Site (Reader × (Fin 384 → BitVec 32))
  | 0, _, r, dctCoeff => .ok (r, dctCoeff)
  | rounds + 1, b5, r, dctCoeff => do
      let (r, b7) ← readSymbol ht r
      let b8 := (b7 &&& 15).toNat
      let b9 := (b7.sshiftRight 4 &&& 15).toNat
      if b8 = 0 then
        if b9 = 15 then
          if 64 ≤ b5 + 16 then pure (r, dctCoeff) else acLoopInto ht off rounds (b5 + 16) r dctCoeff
        else pure (r, dctCoeff)
      else do
        let pos ← rd .dezigzag dezigzag (b5 + b9)
        let (r, value) ← r.getKbits b8
        let dctCoeff ← wr .dctCoeff dctCoeff (off + pos) (value.signExtend 32)
        if 64 ≤ b5 + b9 + 1 then pure (r, dctCoeff)
        else acLoopInto ht off rounds (b5 + b9 + 1) r dctCoeff

/-- Decode one unit into a cleared array of all units. -/
def decodeHuffmanDataUnitInto (chroma : Bool) (dcPred : BitVec 16) (off : Nat) (r : Reader) :
    Except Site (Reader × (Fin 384 → BitVec 32) × BitVec 16) := do
  let (r, dc, dcPred) ← readDC chroma dcPred r
  let dctCoeff ← wr .dctCoeff (fun _ => 0) off dc
  let (r, dctCoeff) ← acLoopInto (htAC chroma) off 63 1 r dctCoeff
  pure (r, dctCoeff, dcPred)

/-! ### Inverse transform -/

/-- `(a * b) >> 8` -/
def multiply (a b : BitVec 32) : BitVec 32 := (a * b).sshiftRight 8

/-- The one-dimensional transform; the source has it once for columns and once for rows. -/
def transform8 (v : Fin 8 → BitVec 32) : Fin 8 → BitVec 32 :=
  let tmp10 := v 0 + v 4
  let tmp11 := v 0 - v 4
  let tmp13 := v 2 + v 6
  let tmp12 := multiply (v 2 - v 6) 362 - tmp13
  let a0 := tmp10 + tmp13
  let a3 := tmp10 - tmp13
  let a1 := tmp11 + tmp12
  let a2 := tmp11 - tmp12
  let z13 := v 5 + v 3
  let z10 := v 5 - v 3
  let z11 := v 1 + v 7
  let z12 := v 1 - v 7
  let u7 := z11 + z13
  let u11 := multiply (z11 - z13) 362
  let z5 := multiply (z10 + z12) 473
  let u10 := multiply z12 277 - z5
  let u12 := (multiply z10 (-669) + z5) - u7
  let v6 := u11 - u12
  let v5 := u10 + v6
  fun i => match i with
    | 0 => a0 + u7
    | 1 => a1 + u12
    | 2 => a2 + v6
    | 3 => a3 - v5
    | 4 => a3 + v5
    | 5 => a2 - v6
    | 6 => a1 - u12
    | 7 => a0 - u7

/-- `int32((int64(c) * qt) >> 16)` -/
def dequantize (coeff : Fin 64 → BitVec 32) (qt : Fin 64 → BitVec 64) (i : Fin 64) : BitVec 32 :=
  ((coeff i).signExtend 64 * qt i).sshiftRight 16 |>.setWidth 32

/-- Cell `8 * row + col` of a block. -/
def cell (row col : Fin 8) : Fin 64 := ⟨8 * row + col, by omega⟩

/-- The column pass; a column with a first coefficient only is constant. -/
def columnPass (coeff : Fin 64 → BitVec 32) (qt : Fin 64 → BitVec 64) (col : Fin 8) :
    Fin 8 → BitVec 32 :=
  if ∀ k : Fin 8, k ≠ 0 → coeff (cell k col) = 0 then fun _ => dequantize coeff qt (cell 0 col)
  else transform8 fun k => dequantize coeff qt (cell k col)

/-- `128 + ((v >> 3) & 1023) + 256` stays inside the range-limit table. -/
def limitIndex (v : BitVec 32) : Fin 1408 :=
  ⟨128 + (v.sshiftRight 3 &&& 1023).toNat + 256, by
    have : (v.sshiftRight 3 &&& 1023).toNat ≤ 1023 := by
      rw [BitVec.toNat_and]
      exact Nat.and_le_right
    omega⟩

/-- A block has eight rows. -/
theorem row_lt (i : Fin 64) : i.val / 8 < 8 := by omega

/-- A row has eight samples. -/
theorem col_lt (i : Fin 64) : i.val % 8 < 8 := by omega

/-- Dequantize and transform a block, and clamp the samples to bytes. -/
def inverseDCT (coeff : Fin 64 → BitVec 32) (qt : Fin 64 → BitVec 64) (i : Fin 64) : Nat :=
  let row := transform8 fun k => columnPass coeff qt k ⟨i / 8, row_lt i⟩
  rangeLimitTableShort (limitIndex (row ⟨i % 8, col_lt i⟩))

/-! ### What a unit guarantees -/

variable {r : Reader}

theorem lenFrom_le {i n : Nat} {l : List (Nat × Nat)} (h : ∀ p ∈ l, p.2 ≤ n) :
    lenFrom i l ≤ n := by
  induction l with
  | nil => exact Nat.zero_le n
  | cons p l ih =>
      rw [lenFrom]
      split_ifs
      · exact h p List.mem_cons_self
      · exact ih fun q hq => h q (List.mem_cons_of_mem _ hq)

/-- Tables whose code lengths fit in a 16-bit window. -/
def HuffmanTable.Short (ht : HuffmanTable) : Prop := ∀ i, ht.Len i ≤ 16

theorem short_loadHuffmanTable {nrcodes values : List Nat} {huffcode : List (Nat × Nat)}
    (h : ∀ p ∈ huffcode.tail, p.2 ≤ 16) : (loadHuffmanTable nrcodes values huffcode).Short := by
  intro i
  simp only [loadHuffmanTable]
  split_ifs
  · exact (Nat.mod_le _ _).trans (lenFrom_le h)
  · exact Nat.zero_le _

theorem short_htDC (chroma : Bool) : (htDC chroma).Short := by
  cases chroma with
  | false => exact short_loadHuffmanTable (by decide)
  | true => exact short_loadHuffmanTable (by decide)

theorem short_htAC (chroma : Bool) : (htAC chroma).Short := by
  cases chroma with
  | false => exact short_loadHuffmanTable (by decide)
  | true => exact short_loadHuffmanTable (by decide)

theorem getD_le {l : List Nat} {n : Nat} (h : ∀ v ∈ l, v ≤ n) (k : Nat) : l.getD k 0 ≤ n := by
  rw [List.getD_eq_getElem?_getD]
  cases hv : l[k]? with
  | none => exact Nat.zero_le n
  | some v => exact h v (List.mem_of_getElem? hv)

/-- The symbol of a table is 0 or one of the values it was built from. -/
theorem V_loadHuffmanTable {nrcodes values : List Nat} {huffcode : List (Nat × Nat)} {n : Nat}
    (h : ∀ v ∈ values, v ≤ n) (i : Fin 65536) :
    ((loadHuffmanTable nrcodes values huffcode).V i).toNat ≤ n := by
  simp only [loadHuffmanTable]
  split_ifs
  · rw [BitVec.toNat_ofNat]
    exact (Nat.mod_le _ _).trans (getD_le h _)
  · exact Nat.zero_le n

theorem V_htDC_le (chroma : Bool) (i : Fin 65536) : ((htDC chroma).V i).toNat ≤ 11 := by
  cases chroma with
  | false => exact V_loadHuffmanTable (by decide) i
  | true => exact V_loadHuffmanTable (by decide) i

theorem readSymbol_spec {ht : HuffmanTable} (hht : ht.Short) (h : r.Ready) :
    ∃ r' i, readSymbol ht r = .ok (r', (ht.V i).setWidth 8) ∧ r.Advances 0 r' := by
  have hlen := h.words
  obtain ⟨window, hwindow⟩ : ∃ window : Fin 65536,
      ((r.recv[0] >>> 16) &&& 0xFFFF).toNat = window.val := by
    refine ⟨⟨((r.recv[0] >>> 16) &&& 0xFFFF).toNat, ?_⟩, rfl⟩
    rw [BitVec.toNat_and]
    exact Nat.lt_of_le_of_lt Nat.and_le_right (by decide)
  have h16 := hht window
  obtain ⟨look, hlook⟩ := Reader.lookKbits_ok h (ht.Len window)
  obtain ⟨r', hr', hadv⟩ := Reader.skipKbits_spec h (show ht.Len window ≤ 32 by omega)
  let symbol : BitVec 16 := wordHiLo (BitVec.ofNat 8 (ht.Len window))
    ((look - ht.minorCode ⟨ht.Len window, by omega⟩).setWidth 8)
  refine ⟨r', ⟨symbol.toNat, symbol.isLt⟩, ?_, hadv.mono (Nat.zero_le _)⟩
  rw [readSymbol, rdSlice_ok (by omega)]
  change (rd Site.huffmanLen ht.Len _ >>= _) = _
  rw [hwindow, rd_ok window.isLt]
  change (r.lookKbits (ht.Len window) >>= _) = _
  rw [hlook]
  change (r.skipKbits (ht.Len window) >>= _) = _
  rw [hr']
  change (rd Site.minorCode ht.minorCode (ht.Len window) >>= _) = _
  rw [rd_ok (show ht.Len window < 17 by omega)]
  change (rd Site.huffmanV ht.V symbol.toNat >>= _) = _
  rw [rd_ok symbol.isLt]
  rfl

theorem dezigzag_lt (i : Fin 79) : dezigzag i < 64 := by
  revert i
  decide

theorem nibble_le (v : BitVec 8) : (v &&& 15).toNat ≤ 15 := by
  rw [BitVec.toNat_and]
  exact Nat.and_le_right

/-- The coefficient loop ends inside the block, whatever the stream holds. -/
theorem meets_acLoop {F : Site → Prop} {ht : HuffmanTable} (hht : ht.Short) (h : r.Ready)
    {rounds b5 : Nat} (hb5 : b5 ≤ 63) (coeff : Fin 64 → BitVec 32) :
    Meets (acLoop ht rounds b5 r coeff) (fun out => r.Advances 0 out.1) F := by
  induction rounds generalizing b5 r coeff with
  | zero => exact .refl h
  | succ rounds ih =>
      obtain ⟨r₁, i, hsymbol, hadv⟩ := readSymbol_spec hht h
      have hsize := nibble_le ((ht.V i).setWidth 8)
      have hrun := nibble_le (((ht.V i).setWidth 8).sshiftRight 4)
      have hrest {b5' : Nat} {r' : Reader} (hr' : r.Advances 0 r')
          (hb5' : ¬ 64 ≤ b5') (coeff' : Fin 64 → BitVec 32) :
          Meets (acLoop ht rounds b5' r' coeff') (fun out => r.Advances 0 out.1) F :=
        (ih hr'.ready (by omega) coeff').imp fun _ hout => hr'.trans hout
      rw [acLoop, hsymbol]
      change Meets (if ((ht.V i).setWidth 8 &&& 15).toNat = 0 then _ else _) _ _
      by_cases hzero : ((ht.V i).setWidth 8 &&& 15).toNat = 0
      · rw [if_pos hzero]
        split_ifs with h15 hend
        · exact hadv
        · exact hrest hadv hend coeff
        · exact hadv
      · obtain ⟨r₂, value, hvalue, hadv₂⟩ := Reader.getKbits_spec hadv.ready
          (show ((ht.V i).setWidth 8 &&& 15).toNat ≤ 16 by omega)
        have hpos : b5 + (((ht.V i).setWidth 8).sshiftRight 4 &&& 15).toNat < 79 := by omega
        have hadvs : r.Advances 0 r₂ := (hadv.trans hadv₂).mono (Nat.zero_le _)
        rw [if_neg hzero, rd_ok hpos]
        change Meets (r₁.getKbits _ >>= _) _ _
        rw [hvalue]
        change Meets (wr Site.dctCoeff coeff _ _ >>= _) _ _
        rw [wr_ok (dezigzag_lt _)]
        change Meets (if 64 ≤ _ then _ else _) _ _
        split_ifs with hend
        · exact hadvs
        · exact hrest hadvs hend _

theorem meets_readDC {F : Site → Prop} (h : r.Ready) (chroma : Bool) (dcPred : BitVec 16) :
    Meets (readDC chroma dcPred r) (fun out => r.Advances 0 out.1) F := by
  obtain ⟨r₁, i, hsymbol, hadv⟩ := readSymbol_spec (short_htDC chroma) h
  have hsize : (((htDC chroma).V i).setWidth 8).toNat ≤ 16 := by
    have := V_htDC_le chroma i
    rw [BitVec.toNat_setWidth]
    omega
  rw [readDC, hsymbol]
  change Meets (if ((htDC chroma).V i).setWidth 8 = 0 then _ else _) _ _
  split_ifs
  · exact hadv
  · obtain ⟨r₂, value, hvalue, hadv₂⟩ := Reader.getKbits_spec hadv.ready hsize
    rw [hvalue]
    exact (hadv.trans hadv₂).mono (Nat.zero_le _)

/-- A unit is read without a fault, even behind the end of the payload. -/
theorem meets_decodeHuffmanDataUnit {F : Site → Prop} (h : r.Ready) (chroma : Bool)
    (dcPred : BitVec 16) :
    Meets (decodeHuffmanDataUnit chroma dcPred r) (fun out => r.Advances 0 out.1) F := by
  apply (meets_readDC h chroma dcPred).bind
  rintro ⟨r₁, dc, pred⟩ hadv
  apply (meets_acLoop (short_htAC chroma) hadv.ready (by decide) _).bind
  rintro ⟨r₂, coeff⟩ hadv₂
  exact hadv.trans hadv₂

/-! ### Faults of a unit -/

section Faults
variable {F : Site → Prop}

theorem meets_skipKbits_site (hF : F .recv) (r : Reader) (b : Nat) :
    Meets (r.skipKbits b) (fun _ => True) F := by
  unfold Reader.skipKbits Reader.shift
  split_ifs
  · apply (meets_rdSlice_site hF).bind
    intro r0 _
    apply (meets_rdSlice_site hF).bind
    intro r1 _
    apply (meets_rdSlice_site hF).bind
    intro refill _
    apply (meets_wrSlice_site hF).bind
    intro recv _
    apply (meets_wrSlice_site hF).bind
    intro recv _
    exact True.intro
  · apply (meets_rdSlice_site hF).bind
    intro r0 _
    apply (meets_rdSlice_site hF).bind
    intro r1 _
    apply (meets_wrSlice_site hF).bind
    intro recv _
    apply (meets_wrSlice_site hF).bind
    intro recv _
    exact True.intro

theorem meets_lookKbits_site (hF : F .recv) (r : Reader) (b : Nat) :
    Meets (r.lookKbits b) (fun _ => True) F := by
  apply (meets_rdSlice_site hF).bind
  intro r0 _
  exact True.intro

theorem meets_getKbits_site (hrecv : F .recv) (hneg : F .negPow2) (r : Reader) (b : Nat) :
    Meets (r.getKbits b) (fun _ => True) F := by
  apply (meets_lookKbits_site hrecv r b).bind
  intro value _
  split_ifs
  · apply (meets_rd_site hneg).bind
    intro neg _
    apply (meets_skipKbits_site hrecv r b).bind
    intro r' _
    exact True.intro
  · apply (meets_skipKbits_site hrecv r b).bind
    intro r' _
    exact True.intro

/-- Reading a symbol never asks for the scan order. -/
theorem meets_readSymbol_site (ht : HuffmanTable) (r : Reader) :
    Meets (readSymbol ht r) (fun _ => True) (· ≠ Site.dezigzag) := by
  apply (meets_rdSlice_site (by decide)).bind
  intro r0 _
  apply (meets_rd_site (by decide)).bind
  intro len _
  apply (meets_lookKbits_site (by decide) r len).bind
  intro look _
  apply (meets_skipKbits_site (by decide) r len).bind
  intro r' _
  apply (meets_rd_site (by decide)).bind
  intro minor _
  apply (meets_rd_site (by decide)).bind
  intro value _
  exact True.intro

theorem meets_acLoopInto_site (ht : HuffmanTable) (off : Nat) {rounds b5 : Nat} (hb5 : b5 ≤ 63)
    (r : Reader) (dctCoeff : Fin 384 → BitVec 32) :
    Meets (acLoopInto ht off rounds b5 r dctCoeff) (fun _ => True) (· ≠ Site.dezigzag) := by
  induction rounds generalizing b5 r dctCoeff with
  | zero => exact True.intro
  | succ rounds ih =>
      apply (meets_readSymbol_site ht r).bind
      rintro ⟨r₁, b7⟩ _
      have hrun := nibble_le (b7.sshiftRight 4)
      dsimp only
      split_ifs with hzero h15 hend
      · exact True.intro
      · exact ih (by omega) r₁ dctCoeff
      · exact True.intro
      · rw [rd_ok (show b5 + (b7.sshiftRight 4 &&& 15).toNat < 79 by omega)]
        apply (meets_getKbits_site (by decide) (by decide) r₁ _).bind
        rintro ⟨r₂, value⟩ _
        apply (meets_wr_site (by decide)).bind
        intro dctCoeff' _
        exact True.intro
      · rw [rd_ok (show b5 + (b7.sshiftRight 4 &&& 15).toNat < 79 by omega)]
        apply (meets_getKbits_site (by decide) (by decide) r₁ _).bind
        rintro ⟨r₂, value⟩ _
        apply (meets_wr_site (by decide)).bind
        intro dctCoeff' _
        exact ih (by omega) r₂ dctCoeff'

/-- Whatever the stream holds, the scan order is only read at its 79 entries. -/
theorem meets_decodeHuffmanDataUnitInto_site (chroma : Bool) (dcPred : BitVec 16) (off : Nat)
    (r : Reader) :
    Meets (decodeHuffmanDataUnitInto chroma dcPred off r) (fun _ => True)
      (· ≠ Site.dezigzag) := by
  have hdc : Meets (readDC chroma dcPred r) (fun _ => True) (· ≠ Site.dezigzag) := by
    apply (meets_readSymbol_site _ r).bind
    rintro ⟨r₁, b4⟩ _
    dsimp only
    split_ifs
    · exact True.intro
    · apply (meets_getKbits_site (by decide) (by decide) r₁ _).bind
      rintro ⟨r₂, value⟩ _
      exact True.intro
  apply hdc.bind
  rintro ⟨r₁, dc, pred⟩ _
  apply (meets_wr_site (by decide)).bind
  intro dctCoeff _
  apply (meets_acLoopInto_site _ off (by decide) r₁ dctCoeff).bind
  rintro ⟨r₂, dctCoeff'⟩ _
  exact True.intro

end Faults

/-! ### The array of all units -/

/-- The cells of one unit inside an array that is zero elsewhere. -/
def embedUnit (off : Nat) (coeff : Fin 64 → BitVec 32) : Fin 384 → BitVec 32 := fun i =>
  if h : off ≤ i.val ∧ i.val < off + 64 then coeff ⟨i - off, by omega⟩ else 0

theorem embedUnit_apply {off : Nat} (hoff : off + 64 ≤ 384) (coeff : Fin 64 → BitVec 32)
    (p : Fin 64) : embedUnit off coeff ⟨off + p, by omega⟩ = coeff p := by
  rw [embedUnit, dif_pos ⟨Nat.le_add_right off p, Nat.add_lt_add_left p.isLt off⟩]
  exact congrArg coeff (Fin.ext (Nat.add_sub_cancel_left off p))

theorem embedUnit_update {off : Nat} (hoff : off + 64 ≤ 384) (coeff : Fin 64 → BitVec 32)
    (p : Fin 64) (v : BitVec 32) :
    embedUnit off (Function.update coeff p v) =
      Function.update (embedUnit off coeff) ⟨off + p, by omega⟩ v := by
  funext i
  by_cases hi : i = ⟨off + p, by omega⟩
  · subst hi
    rw [embedUnit_apply hoff, Function.update_self, Function.update_self]
  · rw [Function.update_of_ne hi, embedUnit, embedUnit]
    split_ifs with hin
    · apply Function.update_of_ne
      intro hp
      apply hi
      apply Fin.ext
      have hval : i.val - off = p.val := congrArg Fin.val hp
      change i.val = off + p.val
      omega
    · rfl

theorem acLoopInto_eq {ht : HuffmanTable} {off : Nat} (hoff : off + 64 ≤ 384) (rounds b5 : Nat)
    (r : Reader) (coeff : Fin 64 → BitVec 32) :
    acLoopInto ht off rounds b5 r (embedUnit off coeff) =
      (acLoop ht rounds b5 r coeff).map fun out => (out.1, embedUnit off out.2) := by
  induction rounds generalizing b5 r coeff with
  | zero => rfl
  | succ rounds ih =>
      rw [acLoopInto, acLoop]
      cases readSymbol ht r with
      | error e => rfl
      | ok out =>
          obtain ⟨r₁, b7⟩ := out
          change (if (b7 &&& 15).toNat = 0 then _ else _) =
            Except.map _ (if (b7 &&& 15).toNat = 0 then _ else _)
          by_cases hzero : (b7 &&& 15).toNat = 0
          · rw [if_pos hzero, if_pos hzero]
            split_ifs
            · rfl
            · exact ih _ _ _
            · rfl
          · rw [if_neg hzero, if_neg hzero]
            by_cases hpos : b5 + (b7.sshiftRight 4 &&& 15).toNat < 79
            · rw [rd_ok hpos]
              change (r₁.getKbits _ >>= _) = Except.map _ (r₁.getKbits _ >>= _)
              cases r₁.getKbits (b7 &&& 15).toNat with
              | error e => rfl
              | ok out =>
                  have hcell := dezigzag_lt ⟨_, hpos⟩
                  change (wr Site.dctCoeff (embedUnit off coeff) _ _ >>= _) =
                    Except.map _ (wr Site.dctCoeff coeff _ _ >>= _)
                  rw [wr_ok hcell, wr_ok (show off + dezigzag ⟨_, hpos⟩ < 384 by omega),
                    ← embedUnit_update hoff coeff ⟨_, hcell⟩]
                  change (if 64 ≤ _ then _ else _) = Except.map _ (if 64 ≤ _ then _ else _)
                  split_ifs
                  · rfl
                  · exact ih _ _ _
            · rw [rd_error (by omega)]
              rfl

/-- The unit at `off` is decoded as on its own, and the other cells are zero. -/
theorem decodeHuffmanDataUnitInto_eq {off : Nat} (hoff : off + 64 ≤ 384) (chroma : Bool)
    (dcPred : BitVec 16) (r : Reader) :
    decodeHuffmanDataUnitInto chroma dcPred off r =
      (decodeHuffmanDataUnit chroma dcPred r).map fun out =>
        (out.1, embedUnit off out.2.1, out.2.2) := by
  rw [decodeHuffmanDataUnitInto, decodeHuffmanDataUnit]
  cases readDC chroma dcPred r with
  | error e => rfl
  | ok out =>
      obtain ⟨r₁, dc, pred⟩ := out
      have hzero : (fun _ => 0) = embedUnit off fun _ => 0 := by
        funext i
        rw [embedUnit]
        split_ifs <;> rfl
      change (wr Site.dctCoeff (fun _ => 0) off dc >>= _) = Except.map _ (acLoop _ _ _ _ _ >>= _)
      rw [wr_ok (show off < 384 by omega), hzero]
      change (acLoopInto _ _ _ _ _
        (Function.update (embedUnit off fun _ => 0) ⟨off + (0 : Fin 64), _⟩ dc) >>= _) = _
      rw [← embedUnit_update hoff, acLoopInto_eq hoff]
      cases acLoop (htAC chroma) 63 1 r₁ (Function.update (fun _ => 0) 0 dc) with
      | error e => rfl
      | ok out => rfl

/-- The samples of a block are bytes. -/
theorem rangeLimit_le (i : Fin 1408) : rangeLimitTableShort i ≤ 255 := by
  unfold rangeLimitTableShort rangeLimit
  split_ifs <;> omega

theorem inverseDCT_le (coeff : Fin 64 → BitVec 32) (qt : Fin 64 → BitVec 64) (i : Fin 64) :
    inverseDCT coeff qt i ≤ 255 := rangeLimit_le _

end Outband.Kvm.Codec
