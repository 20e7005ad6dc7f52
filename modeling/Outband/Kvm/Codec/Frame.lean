import Outband.Kvm.Codec.Decoder

/-!
# Frames of the AMI video codec

A translation of `parseFrameHeader`, `makeIntArray`, the RC4 layer, `decode` and
`Decode` of `internal/kvm/codec`. `Decode` ends in a frame, in one of two
errors, in a fault, or not at all: its macro-block loop is unbounded, so it is
executed with fuel and `Decodes` says that some amount of it is enough. Header
fields that only the parse reads are left out.
-/

namespace Outband.Kvm.Codec

open Foundation

/-! ### Header and payload -/

/-- The header fields the decoder consumes. -/
structure FrameHeader where
  destX : Nat
  destY : Nat
  jpegTableSelector : Nat
  jpegYUVTableMapping : Nat
  advanceTableSelector : Nat
  rc4Enable : Nat
  mode420 : Nat
  compressSize : Int
  deriving DecidableEq, Repr

def videoHdrSize : Nat := 39

def asp2000HeaderSize : Nat := 86

def maxResolution : Nat := 1500

/-- The errors of `Decode`. -/
inductive DecodeError
  | frameTooShort (got : Nat)
  | badResolution (x y : Nat)
  deriving DecidableEq, Repr

/-- The texts of the errors. -/
def DecodeError.text : DecodeError → String
  | .frameTooShort got => "kvm/codec: frame too short: " ++ toString got ++ " < " ++
      toString asp2000HeaderSize
  | .badResolution x y => "kvm/codec: bad resolution " ++ toString x ++ "x" ++ toString y

/-- Byte `i` of a header whose length has been checked. -/
def byteAt (b : List (BitVec 8)) (i : Nat) : Nat := (b.getD i 0).toNat

def le16 (b : List (BitVec 8)) (i : Nat) : Nat := byteAt b i + 256 * byteAt b (i + 1)

/-- A little-endian 32-bit number as a signed one. -/
def le32 (b : List (BitVec 8)) (i : Nat) : Int :=
  (BitVec.ofNat 32 (le16 b i + 65536 * le16 b (i + 2))).toInt

/-- The bytes of the signature `ASP-2000`. -/
def signature : List (BitVec 8) := [0x41, 0x53, 0x50, 0x2D, 0x32, 0x30, 0x30, 0x30]

/-- Drop the 39-byte wrapper of older firmware. -/
def unwrapVideoHdr (frame : List (BitVec 8)) : List (BitVec 8) :=
  if videoHdrSize + 8 ≤ frame.length ∧ (frame.drop 19).take 8 = signature then
    frame.drop videoHdrSize
  else frame

/-- The header and the payload of a frame. -/
def parseFrameHeader (frame : List (BitVec 8)) :
    Except DecodeError (FrameHeader × List (BitVec 8)) :=
  let b := unwrapVideoHdr frame
  if b.length < asp2000HeaderSize then .error (.frameTooShort b.length)
  else .ok
    ({ destX := le16 b 13, destY := le16 b 15, jpegTableSelector := byteAt b 44,
       jpegYUVTableMapping := byteAt b 45, advanceTableSelector := byteAt b 47,
       rc4Enable := byteAt b 53, mode420 := byteAt b 55, compressSize := le32 b 69 },
      b.drop asp2000HeaderSize)

/-- Word `i` of a payload; bytes behind its end are 0. -/
def wordAt (b : List (BitVec 8)) (i : Nat) : BitVec 32 :=
  (b.getD (i * 4) 0).setWidth 32 ||| ((b.getD (i * 4 + 1) 0).setWidth 32 <<< 8) |||
    ((b.getD (i * 4 + 2) 0).setWidth 32 <<< 16) ||| ((b.getD (i * 4 + 3) 0).setWidth 32 <<< 24)

def makeIntArray (b : List (BitVec 8)) : List (BitVec 32) :=
  let pad := (4 - b.length % 4) % 4
  (List.range ((b.length + pad) / 4)).map (wordAt b)

/-! ### RC4 -/

namespace Rc4State

/-- The key `fedcba9876543210`, repeated to 256 bytes. -/
def expandedKey (i : Nat) : Nat :=
  [0x66, 0x65, 0x64, 0x63, 0x62, 0x61, 0x39, 0x38,
    0x37, 0x36, 0x35, 0x34, 0x33, 0x32, 0x31, 0x30].getD (i % 16) 0

/-- One round of the key schedule; the bytes of the key are not negative. -/
def keyRound (acc : (Fin 256 → Nat) × Nat) (i : Fin 256) : (Fin 256 → Nat) × Nat :=
  let (m, j) := acc
  let v := m i
  let j := (j + v + expandedKey i) &&& 0xFF
  let m := Function.update m i (m (Fin.ofNat 256 j))
  (Function.update m (Fin.ofNat 256 j) v, j)

def decodeRC4Setup : Rc4State :=
  { m := ((List.finRange 256).foldl keyRound (fun i => i.val, 0)).1 }

/-- One word of the keystream. -/
def next (s : Rc4State) : Rc4State × BitVec 32 :=
  let x := (s.x + 1) &&& 0xFF
  let a := s.m (Fin.ofNat 256 x)
  let y := (s.y + a) &&& 0xFF
  let b := s.m (Fin.ofNat 256 y)
  let m := Function.update s.m (Fin.ofNat 256 x) b
  let m := Function.update m (Fin.ofNat 256 y) a
  ({ x := x, y := y, m := m }, BitVec.ofNat 32 (m (Fin.ofNat 256 ((a + b) &&& 0xFF))))

/-- XOR the first `n` words of a buffer with the keystream. -/
def rc4Crypt (s : Rc4State) (buf : List (BitVec 32)) (n : Nat) :
    Except Site (Rc4State × List (BitVec 32)) :=
  forUp (fun i (s, buf) => do
    let (s, key) := Rc4State.next s
    let word ← rdSlice .recv buf i
    let buf ← wrSlice .recv buf i (word ^^^ key)
    pure (s, buf)) 0 n (s, buf)

end Rc4State

/-! ### One frame -/

def roundUp (v n : Nat) : Nat := if v % n ≠ 0 then v + n - v % n else v

namespace Decoder

/-- Buffers grow when a frame needs more than was ever allocated. -/
def ensureBuffers (d : Decoder) : Decoder :=
  let d := { d with bufStride := if d.mode420 = 0 then d.realWidth else d.width }
  let need := d.width * d.height * 3
  if d.bufAlloc < need then
    { d with
      decodeBuf := List.replicate need 0, prevYUV := List.replicate need 0, bufAlloc := need }
  else d

/-- The geometry and the colour cache at the start of a frame. -/
def setGeometry (d : Decoder) (h : FrameHeader) : Decoder :=
  let grid := if h.mode420 = 1 then 16 else 8
  { d with
    vq := { d.vq with
      Index := fun i => i.val
      Color := fun i => [0x00008080, 0x00FF8080, 0x00808080, 0x00C08080].getD i 0 }
    width := roundUp h.destX grid
    height := roundUp h.destY grid
    realWidth := h.destX
    realH := h.destY
    tmpWidthBy16 := roundUp h.destX grid
    tmpHeightBy16 := roundUp h.destY grid
    mode420 := h.mode420 }

/-- Decrypt the payload when the header asks for it; the key schedule runs once per session. -/
def decryptPayload (d : Decoder) (h : FrameHeader) (recv : List (BitVec 32)) :
    Except Site (Decoder × List (BitVec 32)) :=
  if h.rc4Enable = 1 then do
    let s := if d.rc4SetupDone then d.rc4 else Rc4State.decodeRC4Setup
    let n := min (h.compressSize.tdiv 4 * 4).toNat recv.length
    let (s, recv) ← s.rc4Crypt recv n
    pure ({ d with rc4 := s, rc4SetupDone := true }, recv)
  else pure (d, recv)

/-- The table for chrominance: that of luminance when the header maps it. -/
def chrominance (h : FrameHeader) (selector : Nat) : Except Site (List Int) :=
  if h.jpegYUVTableMapping = 1 then rdSlice .tblY tblY selector
  else rdSlice .tblUV tblUV selector

/-- The four quantization tables, all with scale 16. -/
def loadQuantizationTables (d : Decoder) (h : FrameHeader) : Except Site Decoder := do
  let y ← rdSlice .tblY tblY h.jpegTableSelector
  let uv ← chrominance h h.jpegTableSelector
  let y2 ← rdSlice .tblY tblY h.advanceTableSelector
  let uv2 ← chrominance h h.advanceTableSelector
  pure { d with qt := fun i => loadQuantizationTable ([y, uv, y2, uv2].getD i []) 16 }

/-- The reader and the predictors at the start of the macro-block loop. -/
def startStream (d : Decoder) (recv : List (BitVec 32)) : Decoder :=
  { d with
    recv := recv, index := 2, newbits := 32, txb := 0, tyb := 0, dcY := 0, dcCb := 0, dcCr := 0 }

/-- What `decode` does before its loop. -/
def prepare (d : Decoder) (h : FrameHeader) (recv : List (BitVec 32)) : Except Site Decoder := do
  let (d, recv) ← (d.setGeometry h).ensureBuffers.decryptPayload h recv
  let d ← d.loadQuantizationTables h
  pure (d.startStream recv)

/-- Words of compressed data, as the header states them. -/
def compressWords (h : FrameHeader) : Int := h.compressSize.tdiv 4

/-- Decode a payload, with at most `fuel` rounds of the macro-block loop. -/
def decode (fuel : Nat) (d : Decoder) (h : FrameHeader) (recv : List (BitVec 32)) :
    Option (Except Site Decoder) :=
  match d.prepare h recv with
  | .error e => some (.error e)
  | .ok d =>
      if d.recv.length < 2 then some (.ok d)
      else Loop.run (macroBlock (compressWords h)) fuel d

/-- A decoded frame of 32-bit pixels. -/
structure Frame where
  W : Nat
  H : Nat
  Pix : List (BitVec 8)

/-- One pixel of the copy: blue, green, red become red, green, blue, 0. -/
def copyPixel (d : Decoder) (y x : Nat) (pix : List (BitVec 8)) :
    Except Site (List (BitVec 8)) := do
  let si := y * d.bufStride * 3 + x * 3
  let di := (y * d.realWidth + x) * 4
  let r ← rdSlice .decodeBuf d.decodeBuf (si + 2)
  let pix ← wrSlice .pix pix di r
  let g ← rdSlice .decodeBuf d.decodeBuf (si + 1)
  let pix ← wrSlice .pix pix (di + 1) g
  let b ← rdSlice .decodeBuf d.decodeBuf si
  let pix ← wrSlice .pix pix (di + 2) b
  wrSlice .pix pix (di + 3) 0

/-- The decode buffer as a frame. -/
def toFrame (d : Decoder) : Except Site Frame := do
  let pix ← forRect d.copyPixel d.realH d.realWidth
    (List.replicate (d.realWidth * d.realH * 4) 0)
  pure { W := d.realWidth, H := d.realH, Pix := pix }

/-- Decode one frame: a frame and the decoder after it, or one of the two errors. -/
def Decode (fuel : Nat) (d : Decoder) (frame : List (BitVec 8)) :
    Option (Except Site (Decoder × Except DecodeError Frame)) :=
  match parseFrameHeader frame with
  | .error e => some (.ok (d, .error e))
  | .ok (h, compressed) =>
      if h.destX = 0 ∨ h.destY = 0 ∨ maxResolution < h.destX ∨ maxResolution < h.destY then
        some (.ok (d, .error (.badResolution h.destX h.destY)))
      else
        match d.decode fuel h (makeIntArray compressed) with
        | none => none
        | some (.error e) => some (.error e)
        | some (.ok d) => some (do
            let frame ← d.toFrame
            pure (d, .ok frame))

/-- Decoding `frame` ends, with outcome `out`. -/
def Decodes (d : Decoder) (frame : List (BitVec 8))
    (out : Except Site (Decoder × Except DecodeError Frame)) : Prop :=
  ∃ fuel, d.Decode fuel frame = some out

end Decoder

end Outband.Kvm.Codec
