import Outband.Foundation.Loop
import Outband.Kvm.Codec.Block

/-!
# The AMI video decoder

A translation of `internal/kvm/codec`: the decoder record, the colour
conversion, the tiles and one round of the macro-block loop of `decode`. Every
access whose index depends on the frame is checked.

## Implementation notes

Buffers, coordinates and samples are natural numbers; a tile that starts to the
right of the screen makes `limit` negative in the source and its loop empty.
Scratch arrays that are filled and read within one call (`workspace`, the tile
planes, the signed word) are local.
-/

namespace Outband.Kvm.Codec

open Foundation

/-! ### State -/

/-- The colour cache of the vector-quantized tiles. -/
structure ColorCache where
  Color : Fin 4 → BitVec 32 := fun _ => 0
  Index : Fin 4 → Nat := fun _ => 0
  BitMapBits : Nat := 0

structure Rc4State where
  x : Nat := 0
  y : Nat := 0
  m : Fin 256 → Nat := fun _ => 0

/-- The state carried across frames and through the macro blocks of one. -/
structure Decoder extends Reader where
  width : Nat := 0
  height : Nat := 0
  realWidth : Nat := 0
  realH : Nat := 0
  tmpWidthBy16 : Nat := 0
  tmpHeightBy16 : Nat := 0
  mode420 : Nat := 1
  qt : Fin 4 → Fin 64 → BitVec 64 := fun _ _ => 0
  dcY : BitVec 16 := 0
  dcCb : BitVec 16 := 0
  dcCr : BitVec 16 := 0
  yuvTile : Fin 768 → Nat := fun _ => 0
  decodeBuf : List (BitVec 8) := []
  bufStride : Nat := 0
  bufAlloc : Nat := 0
  prevYUV : List Nat := []
  rc4 : Rc4State := {}
  rc4SetupDone : Bool := false
  vq : ColorCache := {}
  txb : Nat := 0
  tyb : Nat := 0

/-- A decoder with freshly initialized tables. -/
def New : Decoder := {}

namespace Decoder

/-! ### Colour conversion -/

/-- Blue, green and red of one pixel before clamping. -/
def colors (yv cb cr : Nat) : Except Site (Int × Int × Int) := do
  let y ← rd .calcRGB calcRGBofY yv
  let cbB ← rd .calcRGB calcRGBofCbToB cb
  let cbG ← rd .calcRGB calcRGBofCbToG cb
  let crG ← rd .calcRGB calcRGBofCrToG cr
  let crR ← rd .calcRGB calcRGBofCrToR cr
  pure (y + cbB, y + cbG + crG, y + crR)

/-- Negative values are 0, the others are looked up. -/
def clampRange (v : Int) : Except Site (BitVec 8) :=
  if 0 ≤ v then rd .rangeLimit rangeLimitTable (v + 256).toNat else pure 0

/-- Write one pixel as blue, green and red at byte `pi`. -/
def putPixel (buf : List (BitVec 8)) (pi yv cb cr : Nat) : Except Site (List (BitVec 8)) := do
  let (blue, green, red) ← colors yv cb cr
  let b ← clampRange blue
  let buf ← wrSlice .decodeBuf buf pi b
  let g ← clampRange green
  let buf ← wrSlice .decodeBuf buf (pi + 1) g
  let r ← clampRange red
  wrSlice .decodeBuf buf (pi + 2) r

/-- The columns of a 4:4:4 tile that are converted: none to the right of the
screen, and all eight when the tile starts exactly at its edge. -/
def limit444 (d : Decoder) (tx : Nat) : Nat :=
  let limit : Int := (d.realWidth : Int) - tx * 8
  if limit = 0 ∨ 8 < limit then 8 else limit.toNat

/-- `if pi < d.realWidth*d.realH*3 { … }`: pixels below the screen are not written. -/
def putVisible (d : Decoder) (pi yv cb cr : Nat) : Except Site Decoder :=
  if pi < d.realWidth * d.realH * 3 then do
    let buf ← putPixel d.decodeBuf pi yv cb cr
    pure { d with decodeBuf := buf }
  else do
    let _ ← colors yv cb cr
    pure d

/-- One pixel of a 4:4:4 tile: remember it, then convert it. -/
def pixel444 (off r c : Nat) (d : Decoder) : Except Site Decoder := do
  let idx := r * 8 + c
  let pi := (off + r * d.realWidth + c) * 3
  let yv := d.yuvTile (Fin.ofNat 768 idx)
  let cb := d.yuvTile (Fin.ofNat 768 (64 + idx))
  let cr := d.yuvTile (Fin.ofNat 768 (128 + idx))
  let prev ← wrSlice .prevYUV d.prevYUV pi yv
  let prev ← wrSlice .prevYUV prev (pi + 1) cb
  let prev ← wrSlice .prevYUV prev (pi + 2) cr
  { d with prevYUV := prev }.putVisible pi yv cb cr

/-- One pixel of a 4:2:0 tile: four luma blocks share one block of each chroma. -/
def pixel420 (off r c : Nat) (d : Decoder) : Except Site Decoder := do
  let blk := r / 8 * 2 + c / 8
  let pos := r % 8 * 8 + c % 8
  let chroma := r / 2 * 8 + c / 2
  let pi := (off + r * d.realWidth + c) * 3
  let yv := d.yuvTile (Fin.ofNat 768 (blk * 64 + pos))
  let cb := d.yuvTile (Fin.ofNat 768 (256 + chroma))
  let cr := d.yuvTile (Fin.ofNat 768 (320 + chroma))
  let buf ← putPixel d.decodeBuf pi yv cb cr
  pure { d with decodeBuf := buf }

/-- The rows of a 4:2:0 tile, with the special case for a height of 608. -/
def rows420 (d : Decoder) (ty : Nat) : Nat := if d.height = 608 ∧ ty = 37 then 8 else 16

/-- The first pixel of a tile. -/
def off444 (d : Decoder) (tx ty : Nat) : Nat := ty * 8 * d.realWidth + tx * 8

/-- The first pixel of a tile: rows of the grid have the padded width here. -/
def off420 (d : Decoder) (tx ty : Nat) : Nat := ty * 16 * d.width + tx * 16

def convertYUVtoRGB (d : Decoder) (tx ty : Nat) : Except Site Decoder :=
  if d.mode420 = 0 then forRect (pixel444 (d.off444 tx ty)) 8 (d.limit444 tx) d
  else forRect (pixel420 (d.off420 tx ty)) (d.rows420 ty) 16 d

def clamp255 (v : Int) : Nat := if v < 0 then 0 else if 255 < v then 255 else v.toNat

/-- One pixel of a second pass: a correction of the remembered pixel. -/
def pixelPass2 (off r c : Nat) (d : Decoder) : Except Site Decoder := do
  let idx := r * 8 + c
  let pi := (off + r * d.realWidth + c) * 3
  let py ← rdSlice .prevYUV d.prevYUV pi
  let pcb ← rdSlice .prevYUV d.prevYUV (pi + 1)
  let pcr ← rdSlice .prevYUV d.prevYUV (pi + 2)
  let yv := clamp255 (py + ((d.yuvTile (Fin.ofNat 768 idx) : Int) - 128))
  let cb := clamp255 (pcb + ((d.yuvTile (Fin.ofNat 768 (64 + idx)) : Int) - 128))
  let cr := clamp255 (pcr + ((d.yuvTile (Fin.ofNat 768 (128 + idx)) : Int) - 128))
  d.putVisible pi yv cb cr

/-- Second passes exist in 4:4:4 mode only. -/
def convertYUVToRGBPass2 (d : Decoder) (tx ty : Nat) : Except Site Decoder :=
  if d.mode420 ≠ 0 then pure d
  else forRect (pixelPass2 (d.off444 tx ty)) 8 (d.limit444 tx) d

/-! ### Tiles -/

/-- Store the samples of unit `u` at its place in the tile. -/
def storeUnit (d : Decoder) (u : Fin 6) (samples : Fin 64 → Nat) : Decoder :=
  { d with yuvTile := fun i =>
      if h : u.val * 64 ≤ i.val ∧ i.val < u.val * 64 + 64 then
        samples ⟨i.val - u.val * 64, by omega⟩
      else d.yuvTile i }

/-- `d.dcY = d.decodeHuffmanDataUnit(…); d.inverseDCT(off, qtIdx)` for unit `u`. -/
def unitY (d : Decoder) (u : Fin 6) (qtIdx : Fin 4) : Except Site Decoder := do
  let (r, coeff, pred) ← decodeHuffmanDataUnit false d.dcY d.toReader
  pure ({ d with toReader := r, dcY := pred }.storeUnit u (inverseDCT coeff (d.qt qtIdx)))

def unitCb (d : Decoder) (u : Fin 6) (qtIdx : Fin 4) : Except Site Decoder := do
  let (r, coeff, pred) ← decodeHuffmanDataUnit true d.dcCb d.toReader
  pure ({ d with toReader := r, dcCb := pred }.storeUnit u (inverseDCT coeff (d.qt qtIdx)))

def unitCr (d : Decoder) (u : Fin 6) (qtIdx : Fin 4) : Except Site Decoder := do
  let (r, coeff, pred) ← decodeHuffmanDataUnit true d.dcCr d.toReader
  pure ({ d with toReader := r, dcCr := pred }.storeUnit u (inverseDCT coeff (d.qt qtIdx)))

/-- The three units of a 4:4:4 tile. -/
def units444 (d : Decoder) (b : Fin 4) : Except Site Decoder := do
  let d ← d.unitY 0 b
  let d ← d.unitCb 1 (b + 1)
  d.unitCr 2 (b + 1)

/-- The six units of a 4:2:0 tile. -/
def units420 (d : Decoder) (b : Fin 4) : Except Site Decoder := do
  let d ← d.unitY 0 b
  let d ← d.unitY 1 b
  let d ← d.unitY 2 b
  let d ← d.unitY 3 b
  let d ← d.unitCb 4 (b + 1)
  d.unitCr 5 (b + 1)

/-- The units of a JPEG tile; modes other than 1 have three of them. -/
def units (d : Decoder) (b : Fin 4) : Except Site Decoder :=
  if d.mode420 = 1 then d.units420 b else d.units444 b

def decompressJPEG (d : Decoder) (tx ty : Nat) (b : Fin 4) : Except Site Decoder := do
  let d ← d.units b
  d.convertYUVtoRGB tx ty

def decompressJPEGPass2 (d : Decoder) (tx ty : Nat) (b : Fin 4) : Except Site Decoder := do
  let d ← d.units444 b
  d.convertYUVToRGBPass2 tx ty

/-- The three components of cache colour `sel`. -/
def vqColor (vq : ColorCache) (sel : Nat) : Except Site (Nat × Nat × Nat) := do
  let index ← rd .vqIndex vq.Index sel
  let color ← rd .vqColor vq.Color index
  pure (((color &&& 0x00FF0000) >>> 16).toNat, ((color &&& 0x0000FF00) >>> 8).toNat,
    (color &&& 0x000000FF).toNat)

/-- Store the components of a colour at position `i` of the three planes. -/
def storeColor (d : Decoder) (i : Nat) (color : Nat × Nat × Nat) : Decoder :=
  let tile := Function.update d.yuvTile (Fin.ofNat 768 i) color.1
  let tile := Function.update tile (Fin.ofNat 768 (i + 64)) color.2.1
  { d with yuvTile := Function.update tile (Fin.ofNat 768 (i + 128)) color.2.2 }

/-- One pixel of a tile with an index bitmap. -/
def vqPixel (bits i : Nat) (d : Decoder) : Except Site Decoder := do
  let sel ← d.toReader.lookKbits bits
  let color ← vqColor d.vq sel.toNat
  let r ← d.toReader.skipKbits bits
  pure { d.storeColor i color with toReader := r }

/-- Fill the planes of a vector-quantized tile. -/
def vqPlanes (d : Decoder) : Except Site Decoder :=
  if d.vq.BitMapBits = 0 then do
    let color ← vqColor d.vq 0
    forUp (fun i d => pure (d.storeColor i color)) 0 64 d
  else forUp (vqPixel d.vq.BitMapBits) 0 64 d

def decompressVQ (d : Decoder) (tx ty : Nat) : Except Site Decoder := do
  let d ← d.vqPlanes
  d.convertYUVtoRGB tx ty

/-! ### Macro blocks -/

def updateReadBuf (d : Decoder) (i : Nat) : Except Site Decoder := do
  let r ← d.toReader.updateReadBuf i
  pure { d with toReader := r }

/-- The bits one cache slot takes in a VQ header: 27 with a new colour, else 3. -/
def slotBits (r0 : BitVec 32) : Nat := if (r0 >>> 31) &&& 1 = 0 then 3 else 27

/-- The colours after one slot of a VQ header has been read. -/
def slotColors (vq : ColorCache) (r0 : BitVec 32) (index : Nat) :
    Except Site (Fin 4 → BitVec 32) :=
  if (r0 >>> 31) &&& 1 = 0 then pure vq.Color
  else wr .vqColor vq.Color index ((r0 >>> 5) &&& 0x00FFFFFF)

/-- One slot of a VQ header. -/
def readSlot (i : Nat) (d : Decoder) : Except Site Decoder := do
  let r0 ← rdSlice .recv d.recv 0
  let index := ((r0 >>> 29) &&& 3).toNat
  let indices ← wr .vqIndex d.vq.Index i index
  let colors ← slotColors d.vq r0 index
  { d with vq := { d.vq with Index := indices, Color := colors } }.updateReadBuf (slotBits r0)

def readVQHeader (d : Decoder) (bits count : Nat) : Except Site Decoder :=
  forUp readSlot 0 count { d with vq := { d.vq with BitMapBits := bits } }

def readSkipPosition (d : Decoder) : Except Site Decoder := do
  let r0 ← rdSlice .recv d.recv 0
  pure { d with
    txb := ((r0 &&& 0x0FF00000) >>> 20).toNat, tyb := ((r0 &&& 0x000FF000) >>> 12).toNat }

/-- The next tile in the grid, which has tiles of 8×8 or 16×16. -/
def moveBlockIndex (d : Decoder) : Decoder :=
  let size := if d.mode420 = 0 then 8 else 16
  if d.tmpWidthBy16 / size ≤ d.txb + 1 then
    { d with txb := 0, tyb := if d.tmpHeightBy16 / size ≤ d.tyb + 1 then 0 else d.tyb + 1 }
  else { d with txb := d.txb + 1 }

/-- What a macro block holds. -/
inductive Kind
  | jpeg (b : Fin 4)
  | pass2 (b : Fin 4)
  | vq (bits count : Nat)
  deriving DecidableEq, Repr

/-- The codes of the macro blocks with a tile, and whether they carry a position. -/
def kindOf (code : Nat) : Option (Kind × Bool) :=
  match code with
  | 0 => some (.jpeg 0, false)
  | 8 => some (.jpeg 0, true)
  | 2 => some (.pass2 2, false)
  | 10 => some (.pass2 2, true)
  | 5 => some (.vq 0 1, false)
  | 13 => some (.vq 0 1, true)
  | 6 => some (.vq 1 2, false)
  | 14 => some (.vq 1 2, true)
  | 7 => some (.vq 2 4, false)
  | 15 => some (.vq 2 4, true)
  | 4 => some (.jpeg 2, false)
  | 12 => some (.jpeg 2, true)
  | _ => none

/-- The code and the position of a macro block, taken off the stream. -/
def readPosition (d : Decoder) (skip : Bool) : Except Site Decoder :=
  if skip then do
    let d ← d.readSkipPosition
    d.updateReadBuf 20
  else d.updateReadBuf 4

/-- The body of a macro block. -/
def decompress (d : Decoder) (kind : Kind) : Except Site Decoder :=
  match kind with
  | .jpeg b => d.decompressJPEG d.txb d.tyb b
  | .pass2 b => d.decompressJPEGPass2 d.txb d.tyb b
  | .vq bits count => do
      let d ← d.readVQHeader bits count
      d.decompressVQ d.txb d.tyb

/-- A macro block with a tile. -/
def tileBlock (d : Decoder) (kind : Kind) (skip : Bool) : Except Site Decoder := do
  let d ← d.readPosition skip
  let d ← d.decompress kind
  pure d.moveBlockIndex

/-- A macro block of unknown type: three bits are dropped. -/
def unknownBlock (d : Decoder) : Except Site Decoder := do
  let d ← d.updateReadBuf 3
  pure d.moveBlockIndex

/-- `if d.index >= compressWords { return }` -/
def continueBelow (compressWords : Int) (d : Decoder) : Decoder ⊕ Decoder :=
  if compressWords ≤ d.index then .inr d else .inl d

/-- One round of the macro-block loop. Code 9 ends the frame. -/
def macroBlock (compressWords : Int) (d : Decoder) : Except Site (Decoder ⊕ Decoder) := do
  let r0 ← rdSlice .recv d.recv 0
  let code := ((r0 >>> 28) &&& 15).toNat
  match kindOf code with
  | some (kind, skip) => do
      let d ← d.tileBlock kind skip
      pure (d.continueBelow compressWords)
  | none =>
      if code = 9 then pure (.inr d)
      else do
        let d ← d.unknownBlock
        pure (d.continueBelow compressWords)

end Decoder

end Outband.Kvm.Codec
