import Outband.Foundation.Loop
import Outband.Ilo.Dvc.Cache

/-!
# The DVC decoder

A translation of `internal/ilo/rc/dvc.go`: the framebuffer, the decoder record,
its helpers, the dispatch over states and the bit loop. Every access to an array
whose index comes from the stream is checked, and a bound that is passed stops
the computation with the array as its fault. The calls the decoder makes on its
controller are kept in order in `ctl`.

## Implementation notes

Coordinates, counters and colours are never negative in the source and are
natural numbers here; `timeoutCount` starts at -1 and is an integer. The bit
buffer is a 64-bit word, and only `addBits` can overflow it. The tables
`reversal`, `left` and `right`, which `NewDecoder` fills in once, are constants.
-/

namespace Outband.Ilo.Dvc

open Foundation

/-- The calls of the decoder on its `Controller`. -/
inductive Event
  | setCipher (cipher : Nat)
  | sendAck
  | refreshScreen
  | onPower (on : Bool)
  | onLicensed (flags : Nat)
  | onFlags (flags : Nat)
  | onFramerate (fps : Nat)
  | onStatus (field : Nat) (text : String)
  | onText (text : String)
  | onResize (width height : Nat)
  | onFrame
  | onSeize
  | onExit
  deriving DecidableEq, Repr

/-! ### Framebuffer -/

/-- `0x00RRGGBB` pixels, row by row. -/
structure Framebuffer where
  Width : Nat := 0
  Height : Nat := 0
  Generation : Nat := 0
  Pixels : List (BitVec 32) := []
  deriving DecidableEq, Repr

namespace Framebuffer

def Resize (f : Framebuffer) (w h : Nat) : Framebuffer :=
  { f with Width := w, Height := h, Pixels := List.replicate (w * h) 0,
           Generation := f.Generation + 1 }

def Clear (f : Framebuffer) : Framebuffer :=
  { f with Pixels := List.replicate (f.Width * f.Height) 0, Generation := f.Generation + 1 }

/-- The inner loop of `PasteBlock`: one row of the block, clipped on the right. -/
def pasteRow (f : Framebuffer) (block : Fin 256 → BitVec 32) (x w dst src : Nat) :
    Except Site Framebuffer :=
  forUp (fun col f => do
    if x + col < f.Width then do
      let px ← rd .block block (src + col)
      let pixels ← wrSlice .pixels f.Pixels (dst + col) px
      pure { f with Pixels := pixels }
    else pure f) 0 w f

/-- Copy a block of `h` rows of `w` pixels to `(x, y)`, clipped to the framebuffer. -/
def PasteBlock (f : Framebuffer) (block : Fin 256 → BitVec 32) (x y w h : Nat) :
    Except Site Framebuffer :=
  forUp (fun row f => do
    let fy := y + row
    if f.Height ≤ fy then pure f
    else f.pasteRow block x w (fy * f.Width + x) (row * 16)) 0 h f

/-- One round of the loop in `ToRGBX`: the four bytes of pixel `i`. -/
def rgbxRound (f : Framebuffer) (i : Nat) (out : List (BitVec 8)) :
    Except Site (List (BitVec 8)) := do
  let px ← rdSlice .pixels f.Pixels i
  let off := i * 4
  let out ← wrSlice .rgbx out off ((px >>> 16).setWidth 8)
  let out ← wrSlice .rgbx out (off + 1) ((px >>> 8).setWidth 8)
  let out ← wrSlice .rgbx out (off + 2) (px.setWidth 8)
  wrSlice .rgbx out (off + 3) 0

/-- The pixels as bytes R, G, B, 0. The result has the size of the screen, the
loop has the length of the pixel slice. -/
def ToRGBX (f : Framebuffer) : Except Site (List (BitVec 8)) :=
  forUp f.rgbxRound 0 f.Pixels.length (List.replicate (f.Width * f.Height * 4) 0)

end Framebuffer

/-! ### Decoder state -/

/-- The decoder record. The colour cache is its first part. -/
structure Decoder extends ColorCache where
  FB : Framebuffer := {}
  ctl : List Event := []
  bitsToRead : State → Nat := bitsToReadInit
  ibAcc : Nat := 0
  ibBcnt : Nat := 0
  zeroCount : Nat := 0
  state : State := .reset
  nextState : State := .reset
  code : Nat := 0
  countBytes : Nat := 0
  blockWidth : Nat := 16
  blockHeight : Nat := 16
  bitsPerColor : Nat := 5
  colorRemap : Fin 32768 → BitVec 32 := fun _ => 0
  block : Fin 256 → BitVec 32 := fun _ => 0
  pixelCount : Nat := 0
  lastx : Nat := 0
  lasty : Nat := 0
  newx : Nat := 0
  sizeX : Nat := 0
  sizeY : Nat := 0
  yClipped : Nat := 0
  screenX : Nat := 0
  screenY : Nat := 0
  videoDetected : Bool := true
  red : Nat := 0
  green : Nat := 0
  blue : Nat := 0
  lastColor : BitVec 32 := 0
  cmdBuf : Fin 256 → Nat := fun _ => 0
  cmdCount : Nat := 0
  cmdLast : Nat := 0
  printChan : Nat := 0
  printStr : String := ""
  fatalCount : Nat := 0
  timeoutCount : Int := -1

namespace Decoder

/-- Append a call to the controller's record. -/
def emit (d : Decoder) (e : Event) : Decoder := { d with ctl := d.ctl ++ [e] }

/-! ### Bit buffer -/

/-- Append a byte to the bit buffer. More than 30 zero bits in a row force `hunt`. -/
def addBits (d : Decoder) (c : Nat) : Except Site (Decoder × Nat) := do
  let d := { d with ibAcc := (d.ibAcc ||| (c <<< d.ibBcnt)) % 2 ^ 64, ibBcnt := d.ibBcnt + 8 }
  let r ← rd .right right c
  let d := { d with zeroCount := d.zeroCount + r }
  if 30 < d.zeroCount then pure ({ d with nextState := .hunt, state := .hunt }, 4)
  else if c ≠ 0 then do
    let l ← rd .left left c
    pure ({ d with zeroCount := l }, 0)
  else pure (d, 0)

/-- Take `n` bits from the buffer, the first one as the most significant. -/
def getBits (d : Decoder) (n : Nat) : Except Site Decoder := do
  if n = 1 then
    pure { d with code := d.ibAcc &&& 1, ibAcc := d.ibAcc >>> 1, ibBcnt := d.ibBcnt - 1 }
  else if n = 0 then pure d
  else do
    let mask ← rd .getMask getMask n
    let val := d.ibAcc &&& mask
    let rev ← rd .reversal reversal val
    pure { d with ibBcnt := d.ibBcnt - n, ibAcc := d.ibAcc >>> n, code := rev >>> (8 - n) }

/-! ### Colours and block geometry -/

/-- The pixel `buildPixelTable` stores for colour `v` at `bpc` bits per channel. -/
def pixelOf (bpc v : Nat) : BitVec 32 :=
  match bpc with
  | 5 => BitVec.ofNat 32 (((v &&& 0x1F) <<< 3) ||| ((v &&& 0x3E0) <<< 6) ||| ((v &&& 0x7C00) <<< 9))
  | 4 => BitVec.ofNat 32 (((v &&& 0xF) <<< 4) ||| ((v &&& 0xF0) <<< 8) ||| ((v &&& 0xF00) <<< 12))
  | 3 => BitVec.ofNat 32 (((v &&& 0xF) <<< 5) ||| ((v &&& 0xF0) <<< 11) ||| ((v &&& 0xF00) <<< 15))
  | _ => BitVec.ofNat 32 (((v &&& 0xF) <<< 6) ||| ((v &&& 0xF0) <<< 15) ||| ((v &&& 0xF00) <<< 18))

/-- Fill the first `2^(3·bpc)` entries of the remap table; other depths than 2
to 5 leave it alone. -/
def buildPixelTable (d : Decoder) (bpc : Nat) : Except Site Decoder :=
  if 2 ≤ bpc ∧ bpc ≤ 5 then
    if 2 ^ (bpc * 3) ≤ 32768 then
      pure { d with colorRemap := fun v =>
        if v.val < 2 ^ (bpc * 3) then pixelOf bpc v else d.colorRemap v }
    else throw .colorRemap
  else pure d

def setBitsPerColor (d : Decoder) (n : Nat) : Except Site Decoder :=
  let bpc := 5 - (n &&& 3)
  let d : Decoder := { d with
    bitsPerColor := bpc
    bitsToRead := fun (s : State) =>
      if s = .pixgrey ∨ s = .pixrgbr ∨ s = .pixrgbg ∨ s = .pixrgbb then bpc else d.bitsToRead s }
  d.buildPixelTable bpc

/-- Give the four position states the width `w`. -/
def setPositionBits (d : Decoder) (w : Nat) : Decoder :=
  { d with bitsToRead := fun (s : State) =>
      if s = .movelongx ∨ s = .movexy0 ∨ s = .movexy1 ∨ s = .blkrptnstd then w else d.bitsToRead s }

/-- Wide screens use blocks of half height and positions of eight bits. -/
def setHalfHeight (d : Decoder) : Decoder :=
  if 1616 < d.screenX then
    if d.blockHeight ≠ 8 then { d with blockHeight := 8 }.setPositionBits 8 else d
  else if d.blockHeight ≠ 16 then { d with blockHeight := 16 }.setPositionBits 7
  else d

/-- `if paint { d.FB.PasteBlock(d.block[:], px, py, 16, d.blockHeight) }` -/
def paintBlock (d : Decoder) (paint : Bool) (px py : Nat) : Except Site Framebuffer :=
  if paint then d.FB.PasteBlock d.block px py 16 d.blockHeight else pure d.FB

/-- The paint loop of `nextBlock`: `count` blocks, or fewer at the right edge. -/
def paintBlocks (paint : Bool) : Nat → Nat → Nat → Decoder → Except Site Decoder
  | 0, _, _, d => .ok d
  | count + 1, px, py, d => do
      let fb ← d.paintBlock paint px py
      let d := { d with FB := fb, lastx := d.lastx + 1 }
      if d.sizeX ≤ d.lastx then pure d else paintBlocks paint count (px + 16) py d

/-- Blank the part of a block in the last row that lies below the screen. -/
def clipBlock (d : Decoder) : Except Site Decoder :=
  if d.pixelCount ≠ 0 ∧ 0 < d.yClipped ∧ d.lasty = d.sizeY then do
    let fill ← rd .colorRemap d.colorRemap 0
    let block ← forUp (fun i block => wr .block block i fill) d.yClipped (256 - d.yClipped) d.block
    pure { d with block := block }
  else pure d

/-- Paint the current block `count` times and go back to `start`. -/
def nextBlock (d : Decoder) (count : Nat) : Except Site Decoder := do
  let paint := d.videoDetected
  let d ← d.clipBlock
  let d := { d with pixelCount := 0, nextState := .start }
  paintBlocks paint count (d.lastx * d.blockWidth) (d.lasty * d.blockHeight) d

/-- Append a pixel to the block; a full block is an error that latches. -/
def pushPixel (d : Decoder) (value : BitVec 32) : Except Site (Decoder × Bool) := do
  if d.blockHeight * d.blockWidth ≤ d.pixelCount then pure ({ d with nextState := .latched }, false)
  else do
    let block ← wr .block d.block d.pixelCount value
    pure ({ d with block := block, pixelCount := d.pixelCount + 1 }, true)

/-- `for i := 0; i < n; i++ { if !d.pushPixel(d.lastColor) { return true } }` -/
def repeatPixel : Nat → Decoder → Except Site Decoder
  | 0, d => .ok d
  | n + 1, d => do
      let (d, pushed) ← d.pushPixel d.lastColor
      if pushed then repeatPixel n d else pure d

/-- The last channel of a literal colour: a colour already cached is an error. -/
def pixRGBB (d : Decoder) : Except Site Decoder := do
  let d := { d with blue := d.code }
  let color := d.red ||| d.green ||| d.blue
  let (cache, found) ← d.toColorCache.cacheLRU color
  let d := { d with toColorCache := cache }
  if found ≠ 0 then pure { d with nextState := .latched }
  else do
    let px ← rd .colorRemap d.colorRemap color
    let (d, _) ← { d with lastColor := px }.pushPixel px
    pure d

/-- A pixel taken from the cache by rank. -/
def pixelFromCache (d : Decoder) : Except Site Decoder := do
  let (cache, color) ← d.toColorCache.cacheFind d.code
  let d := { d with toColorCache := cache }
  if color = -1 then pure { d with nextState := .latched }
  else do
    let px ← rd .colorRemap d.colorRemap color.toNat
    let (d, _) ← { d with lastColor := px }.pushPixel px
    pure d

/-! ### Commands -/

/-- Ciphers other than none, RC4, AES-128 and AES-256 select none. -/
def setVideoDecryption (d : Decoder) (cipher : Nat) : Decoder :=
  if cipher ≤ 3 then d.emit (.setCipher cipher) else d.emit (.setCipher 0)

/-- Drop the bits up to the next byte boundary. -/
def alignByte (d : Decoder) : Except Site Decoder :=
  if d.ibBcnt &&& 7 ≠ 0 then d.getBits (d.ibBcnt &&& 7) else pure d

/-- Execute the command whose last byte is `cmdLast`. -/
def dispatchCommand (d : Decoder) : Except Site Decoder := do
  match d.cmdLast with
  | 1 => pure { d with nextState := .exit }
  | 2 => pure { d with nextState := .print0 }
  | 3 => do
      if d.cmdCount ≠ 0 then do
        let fps ← rd .cmdBuf d.cmdBuf 0
        pure (d.emit (.onFramerate fps))
      else pure (d.emit (.onFramerate 0))
  | 4 => pure (d.emit (.onPower true))
  | 5 =>
      let d := d.emit (.onPower false)
      pure { d with FB := d.FB.Clear, newx := 50, code := 38 }
  | 6 =>
      let d := { d with FB := d.FB.Clear }
      pure ((d.emit (.onStatus 2 "")).emit .onFrame)
  | 9 => d.alignByte
  | 10 => pure (d.emit .onSeize)
  | 11 => do
      let n ← rd .cmdBuf d.cmdBuf 0
      d.setBitsPerColor n
  | 12 => do
      let n ← rd .cmdBuf d.cmdBuf 0
      pure (d.setVideoDecryption n)
  | 13 => do
      let n ← rd .cmdBuf d.cmdBuf 0
      let d ← d.setBitsPerColor n
      let n ← rd .cmdBuf d.cmdBuf 1
      let d := d.setVideoDecryption n
      let n ← rd .cmdBuf d.cmdBuf 2
      let d := d.emit (.onLicensed n)
      let n ← rd .cmdBuf d.cmdBuf 3
      pure (d.emit (.onFlags n))
  | 16 => pure (d.emit .sendAck)
  | 128 => pure (d.emit .onFrame)
  | _ => pure d

/-- The first half of `mode2`: forget the block and the cache, compute the new size. -/
def enterMode (d : Decoder) : Decoder :=
  let d := { d with
    toColorCache := d.toColorCache.cacheReset, lastx := 0, lasty := 0, pixelCount := 0 }
  let d := { d with screenX := d.sizeX * d.blockWidth, screenY := d.sizeY * 16 + d.code }
  { d with
    videoDetected := decide (d.screenX ≠ 0 ∧ d.screenY ≠ 0)
    yClipped := if 0 < d.code then 256 - 16 * d.code else 0 }

/-- The calls at the end of `mode2`. -/
def announceMode (d : Decoder) : Decoder :=
  (d.emit (.onResize d.screenX d.screenY)).emit
    (.onStatus 2 (toString d.screenX ++ "x" ++ toString d.screenY))

/-- A new screen size. -/
def mode2 (d : Decoder) : Decoder :=
  let d := d.enterMode
  if !d.videoDetected then { d with FB := d.FB.Clear }.emit (.onStatus 2 "no video")
  else { d with FB := d.FB.Resize d.screenX d.screenY }.setHalfHeight.announceMode

/-! ### The state machine -/

/-- The rank a cache state asks for: with one entry its own rank, else what the
state or the bits say. -/
def cacheRank (d : Decoder) (st : State) : Except Site Nat :=
  if d.ccActive = 1 then rd .ccUsage d.ccUsage 0
  else if st = .pixlru0 then pure 0
  else if st = .pixlru1 then pure 1
  else pure (if d.code ≠ 0 then d.code + 1 else d.code)

/-- The buffer part of state `firmware`: store the byte before this one. -/
def storeCommand (d : Decoder) : Except Site Decoder :=
  if d.cmdCount ≠ 0 then do
    let buf ← wr .cmdBuf d.cmdBuf (d.cmdCount - 1) d.cmdLast
    pure { d with cmdBuf := buf }
  else pure d

/-- The side effects of state `st`. The result says whether to go on; it is
always true. States not listed have no side effect. -/
def dispatch (d : Decoder) (st : State) : Except Site (Decoder × Bool) := do
  match st with
  | .pixlru1 | .pixlru0 | .pixcode1 | .pixcode2 | .pixcode3 | .pixcode4 =>
      let rank ← d.cacheRank st
      let d ← { d with code := rank }.pixelFromCache
      pure (d, true)
  | .pixrptstd1 =>
      if d.code = 7 then pure ({ d with nextState := .pixrptnstd }, true)
      else if d.code = 6 then pure ({ d with nextState := .pixrptstd2 }, true)
      else do
        let d ← repeatPixel (d.code + 2) { d with code := d.code + 2 }
        pure (d, true)
  | .pixrptstd2 =>
      let d ← repeatPixel (d.code + 8) { d with code := d.code + 8 }
      pure (d, true)
  | .pixrptnstd =>
      let d ← repeatPixel d.code d
      pure (d, true)
  | .pixdup =>
      let (d, _) ← d.pushPixel d.lastColor
      pure (d, true)
  | .pixcode => pure ({ d with nextState := d.pixcode }, true)
  | .pixrgbr => pure ({ d with red := d.code <<< (d.bitsPerColor * 2) }, true)
  | .pixrgbg => pure ({ d with green := d.code <<< d.bitsPerColor }, true)
  | .pixgrey =>
      let d ← { d with
        red := d.code <<< (d.bitsPerColor * 2), green := d.code <<< d.bitsPerColor }.pixRGBB
      pure (d, true)
  | .pixrgbb =>
      let d ← d.pixRGBB
      pure (d, true)
  | .movexy0 => pure ({ d with newx := if d.sizeX < d.code then 0 else d.code }, true)
  | .mode0 => pure ({ d with newx := d.code }, true)
  | .movexy1 =>
      let newy := if d.blockHeight = 16 then d.code &&& 0x7F else d.code
      pure ({ d with lastx := d.newx, lasty := newy }, true)
  | .moveshortx =>
      let code := d.lastx + d.code + 1
      pure ({ d with
        code := code, lastx := if d.blockHeight = 16 then code &&& 0x7F else code }, true)
  | .movelongx =>
      pure ({ d with lastx := if d.blockHeight = 16 then d.code &&& 0x7F else d.code }, true)
  | .timeout =>
      let d := if d.timeoutCount = d.countBytes - 1 then { d with nextState := .latched } else d
      let d ← d.alignByte
      pure ({ d with timeoutCount := d.countBytes }.emit .onFrame, true)
  | .firmware =>
      let d ← d.storeCommand
      pure ({ d with cmdCount := d.cmdCount + 1, cmdLast := d.code }, true)
  | .corp =>
      if d.code ≠ 0 then pure (d, true)
      else do
        let d ← d.dispatchCommand
        pure ({ d with cmdCount := 0 }, true)
  | .print0 => pure ({ d with printChan := d.code, printStr := "" }, true)
  | .print1 =>
      if d.code ≠ 0 then pure ({ d with printStr := d.printStr.push (Char.ofNat d.code) }, true)
      else
        let d :=
          if d.printChan = 1 ∨ d.printChan = 2 then d.emit (.onStatus (2 + d.printChan) d.printStr)
          else if d.printChan = 4 then d.emit (.onText d.printStr)
          else d
        pure ({ d with nextState := .start }, true)
  | .reset =>
      pure ({ d with
        toColorCache := d.toColorCache.cacheReset, pixelCount := 0, lastx := 0, lasty := 0,
        red := 0, green := 0, blue := 0, fatalCount := 0, timeoutCount := -1, cmdCount := 0 }, true)
  | .latched =>
      let d := if d.fatalCount = 40 ∨ d.fatalCount = 11680 then d.emit .refreshScreen else d
      let d := { d with fatalCount := d.fatalCount + 1 }
      let d := if d.fatalCount = 120000 then d.emit .refreshScreen else d
      let d :=
        if d.fatalCount = 12000000 then { d.emit .refreshScreen with fatalCount := 41 } else d
      pure (d, true)
  | .blkdup =>
      let d ← d.nextBlock 1
      pure (d, true)
  | .blkrptstd =>
      let d ← { d with code := d.code + 2 }.nextBlock (d.code + 2)
      pure (d, true)
  | .blkrptnstd =>
      let d ← d.nextBlock d.code
      pure (d, true)
  | .mode1 => pure ({ d with sizeX := d.newx, sizeY := d.code }, true)
  | .mode2 => pure (d.mode2, true)
  | .hunt =>
      if d.nextState ≠ .hunt then
        pure ({ d with ibBcnt := 0, ibAcc := 0, zeroCount := 0, countBytes := 0 }, true)
      else pure (d, true)
  | .exit => pure (d.emit .onExit, true)
  | _ => pure (d, true)

/-- Look up the successor of the current state for the code just read. -/
def lookupNext (d : Decoder) : Decoder :=
  { d with nextState := if d.code = 0 then next0 d.state else d.next1 d.state }

/-- A block is complete: paint it and drop the colours it did not use. -/
def finishBlock (d : Decoder) : Except Site Decoder := do
  if d.nextState = .pixels ∧ d.pixelCount = d.blockHeight * d.blockWidth then do
    let d ← d.nextBlock 1
    let cache ← d.toColorCache.cachePrune
    pure { d with toColorCache := cache }
  else pure d

/-- A state that maps to itself without being allowed to. -/
def Hangs (d : Decoder) : Prop :=
  d.state = d.nextState ∧ d.state ≠ .print1 ∧ d.state ≠ .latched ∧ d.state ≠ .hunt

instance (d : Decoder) : Decidable d.Hangs :=
  inferInstanceAs (Decidable (d.state = d.nextState ∧ d.state ≠ .print1 ∧ d.state ≠ .latched ∧
    d.state ≠ .hunt))

/-- One round of the loop in `processBits`: go on, or leave with a return code. -/
def bitStep (d : Decoder) : Except Site (Decoder ⊕ Decoder × Nat) := do
  let need := d.bitsToRead d.state
  if d.ibBcnt < need then pure (.inr (d, 0))
  else do
    let d ← d.getBits need
    let st := d.state
    let (d, hungOK) ← d.lookupNext.dispatch st
    if !hungOK then pure (.inr (d, 6))
    else do
      let d ← d.finishBlock
      if d.Hangs then pure (.inr (d, 6))
      else if st = .exit then pure (.inr ({ d with state := d.nextState }, 1))
      else pure (.inl { d with state := d.nextState })

/-- What `processBits` does before its loop. The code of `addBits` is dropped. -/
def accept (d : Decoder) (b : BitVec 8) : Except Site Decoder := do
  let (d, _) ← d.addBits b.toNat
  pure { d with countBytes := d.countBytes + 1 }

/-- Process one byte, with at most `fuel` rounds of the bit loop. -/
def Feed (fuel : Nat) (d : Decoder) (b : BitVec 8) : Option (Except Site (Decoder × Nat)) :=
  match d.accept b with
  | .error e => some (.error e)
  | .ok d => Loop.run bitStep fuel d

end Decoder

/-- A decoder made by `NewDecoder` on an empty framebuffer. -/
def NewDecoder : Decoder :=
  { colorRemap := fun v => Decoder.pixelOf 5 v }

end Outband.Ilo.Dvc
