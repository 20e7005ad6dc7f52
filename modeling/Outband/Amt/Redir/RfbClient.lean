import Mathlib.Data.BitVec
import Outband.Foundation.Loop
import Outband.Amt.Redir.Session

/-!
# The RFB client of the AMT KVM stream

`rfbClient` (`internal/amt/redir/rfbclient.go`) reads framebuffer updates off an
authenticated redirection socket. Rectangles are raw pixels or LRE tiles, and
either is converted to RGBX and clipped to the framebuffer.

## Implementation notes

An index expression of the source is a checked access that stops with `panic`;
the errors the code returns are `returned`. `decodeLRE` keeps `data[ptr:]`
instead of `data` and `ptr`: every read of `data` stands behind a test of `ptr`
against its length, and the pattern match is that test. The inflater and the
outcome of each write are parameters.
-/

namespace Outband.Amt.Redir

open Foundation

/-- The pixel formats: one byte RGB332 or two bytes RGB565. -/
inductive Depth
  | rgb332 | rgb565
  deriving DecidableEq, Repr

def Depth.bpp : Depth → Nat
  | .rgb332 => 1
  | .rgb565 => 2

/-- The index expressions whose range does not follow from the statement they stand in. -/
inductive Site
  | palette | tile | framebuffer
  deriving DecidableEq, Repr

/-- The errors the client returns. -/
inductive RfbError
  | read
  | unexpectedEof
  | write (err : IoError)
  | unknownMessage (typ : BitVec 8)
  | unsupportedEncoding (enc : Int)
  | rleDatalen (datalen : Nat)
  | emptyRlePayload
  | zlibHeader
  | zlib
  | zlibEmptyOutput
  | emptyLRE
  | subencoding (sub : BitVec 8)
  deriving DecidableEq, Repr

/-- Why the client stops. -/
inductive Stop
  | panic (site : Site)
  | returned (err : RfbError)
  deriving DecidableEq, Repr

/-- What the client takes from outside: the outcome of inflating a zlib member, with the
bytes read before any error, and the outcome of the `n`th write. -/
structure RfbHost where
  zlib : Bytes → Option (Bytes × Bool)
  writeErr : Nat → Option IoError

structure RfbClient where
  bpp : Depth := .rgb565
  w : Nat := 0
  h : Nat := 0
  /-- The RGBX framebuffer, absent before the first `resize`. -/
  fb : Option Bytes := none
  written : List Bytes := []
  frames : List (Nat × Nat × Bytes) := []

/-! ### Pixels -/

/-- The RGBX bytes of a pixel value. -/
def rgbx (bpp : Depth) (v : BitVec 16) : Bytes :=
  match bpp with
  | .rgb565 => [((v >>> 8) &&& 248).setWidth 8, ((v >>> 3) &&& 252).setWidth 8,
      ((v &&& 31) <<< 3).setWidth 8, 0xff]
  | .rgb332 => [v.setWidth 8 &&& 0xe0, (v.setWidth 8 &&& 0x1c) <<< 3,
      (v.setWidth 8 &&& 0x03) <<< 6, 0xff]

/-- Write the four bytes of a pixel, in order. -/
def putPixel (fb : Bytes) (off : Nat) (pixel : Bytes) : Except Stop Bytes :=
  forUp (fun k fb => wrSlice (.panic .framebuffer) fb (off + k) (pixel[k]?.getD 0)) 0 4 fb

/-- The framebuffer column or row at a signed position, when it is inside. -/
def clip (p : Int) (size : Nat) : Option Nat :=
  if 0 ≤ p ∧ p < size then some p.toNat else none

/-- The bytes of one pixel of the stream. -/
def readColor (bpp : Depth) (data : Bytes) : Except Stop (BitVec 16 × Bytes) :=
  match bpp, data with
  | .rgb565, lo :: hi :: rest => .ok (lo.setWidth 16 ||| (hi.setWidth 16 <<< 8), rest)
  | .rgb332, b :: rest => .ok (b.setWidth 16, rest)
  | _, _ => .error (.returned .unexpectedEof)

/-- `n` colours, one after the other. -/
def readColors (bpp : Depth) : Nat → Bytes → Except Stop (List (BitVec 16) × Bytes)
  | 0, data => .ok ([], data)
  | n + 1, data => do
      let (v, data) ← readColor bpp data
      let (vs, data) ← readColors bpp n data
      pure (v :: vs, data)

/-! ### LRE tiles -/

/-- Assign pixel `i` when it lies in the tile. -/
def setPix (tile : List (BitVec 16)) (i : Nat) (v : BitVec 16) : List (BitVec 16) :=
  if i < tile.length then tile.set i v else tile

/-- The tile and the number of its pixels that have been set. -/
abbrev Progress := Nat × List (BitVec 16)

/-- Set a run of pixels, at most to the end of the tile. -/
def fillRun (s : Nat) (v : BitVec 16) : Nat → Progress → Progress
  | 0, p => p
  | run + 1, (rlecount, tile) =>
      if rlecount < s then fillRun s v run (rlecount + 1, setPix tile rlecount v)
      else (rlecount, tile)

/-- Subencoding 0: a colour for each of the `n` pixels that are left. -/
def rawLoop (bpp : Depth) : Nat → Bytes → Progress → Except Stop Progress
  | 0, _, p => .ok p
  | n + 1, data, (i, tile) => do
      let (v, data) ← readColor bpp data
      rawLoop bpp n data (i + 1, setPix tile i v)

/-- The rest of a run length: 255 means that another byte follows. -/
def readRun (run : Nat) : Bytes → Except Stop (Nat × Bytes)
  | [] => .error (.returned .unexpectedEof)
  | d :: rest => if d = 255 then readRun (run + 255) rest else .ok (run + d.toNat, rest)

/-- The number of bits of an index into a packed palette of `nPal` colours. -/
def indexBits (nPal : Nat) : Nat := if nPal = 2 then 1 else if nPal ≤ 4 then 2 else 4

/-- The shifts that bring the indices of one byte down, first index first. -/
def indexShifts (br : Nat) : List Nat := (List.range (8 / br)).map fun k => 8 - br * (k + 1)

/-- The indices packed into one byte. -/
def packedByte (pal : List (BitVec 16)) (s br : Nat) (v : BitVec 8) :
    List Nat → Progress → Except Stop Progress
  | [], p => .ok p
  | i :: shifts, (rlecount, tile) =>
      if rlecount < s then do
        let colour ← rdSlice (.panic .palette) pal ((v.toNat >>> i) &&& (2 ^ br - 1))
        packedByte pal s br v shifts (rlecount + 1, setPix tile rlecount colour)
      else .ok (rlecount, tile)

def packedLoop (pal : List (BitVec 16)) (s br : Nat) :
    Bytes → Progress → Except Stop Progress
  | [], p => .ok p
  | v :: data, p =>
      if p.1 < s then packedByte pal s br v (indexShifts br) p >>= packedLoop pal s br data
      else .ok p

theorem length_lt_of_readColor {bpp : Depth} {data rest : Bytes} {v : BitVec 16}
    (h : readColor bpp data = .ok (v, rest)) : rest.length < data.length := by
  unfold readColor at h
  split at h
  · cases h
    simp only [List.length_cons]
    omega
  · cases h
    simp
  · cases h

theorem length_lt_of_readRun {run n : Nat} {data rest : Bytes}
    (h : readRun run data = .ok (n, rest)) : rest.length < data.length := by
  induction data generalizing run with
  | nil => cases h
  | cons d data ih =>
      rw [readRun] at h
      split_ifs at h
      · have := ih h
        simp only [List.length_cons]
        omega
      · cases h
        simp

/-- Subencoding 128: a colour and a run length, until the tile or the data ends. -/
def rleLoop (bpp : Depth) (s : Nat) (data : Bytes) (p : Progress) : Except Stop Progress :=
  if p.1 < s ∧ data ≠ [] then
    match hcolour : readColor bpp data with
    | .error e => .error e
    | .ok (v, rest) =>
        match hrun : readRun 1 rest with
        | .error e => .error e
        | .ok (run, rest') => rleLoop bpp s rest' (fillRun s v run p)
  else .ok p
termination_by data.length
decreasing_by
  have := length_lt_of_readColor hcolour
  have := length_lt_of_readRun hrun
  omega

/-- The run length behind a palette index: one pixel, or a coded run when its top bit is set. -/
def readIndexRun (idx : BitVec 8) (data : Bytes) : Except Stop (Nat × Bytes) :=
  if 127 < idx.toNat then readRun 1 data else .ok (1, data)

theorem length_le_of_readIndexRun {idx : BitVec 8} {n : Nat} {data rest : Bytes}
    (h : readIndexRun idx data = .ok (n, rest)) : rest.length ≤ data.length := by
  unfold readIndexRun at h
  split_ifs at h
  · exact (length_lt_of_readRun h).le
  · cases h
    exact le_rfl

/-- Subencodings above 129: a palette index with or without a run length. -/
def paletteLoop (pal : List (BitVec 16)) (s : Nat) (data : Bytes) (p : Progress) :
    Except Stop Progress :=
  match data with
  | [] => .ok p
  | idx :: rest =>
      if p.1 < s then
        match rdSlice (.panic .palette) pal (idx.toNat % 128) with
        | .error e => .error e
        | .ok v =>
            match hrun : readIndexRun idx rest with
            | .error e => .error e
            | .ok (run, rest') => paletteLoop pal s rest' (fillRun s v run p)
      else .ok p
termination_by data.length
decreasing_by
  have := length_le_of_readIndexRun hrun
  simp only [List.length_cons]
  omega

/-- The pixels of an LRE tile of `s` pixels. -/
def decodeTile (bpp : Depth) (s : Nat) (sub : BitVec 8) (data : Bytes) :
    Except Stop (List (BitVec 16)) :=
  let tile := List.replicate s 0
  if sub = 0 then do
    let p ← rawLoop bpp s data (0, tile)
    pure p.2
  else if sub = 1 then do
    let (v, _) ← readColor bpp data
    pure (fillRun s v s (0, tile)).2
  else if 1 < sub.toNat ∧ sub.toNat < 17 then do
    let (pal, data) ← readColors bpp sub.toNat data
    let p ← packedLoop pal s (indexBits sub.toNat) data (0, tile)
    pure p.2
  else if sub = 128 then do
    let p ← rleLoop bpp s data (0, tile)
    pure p.2
  else if 129 < sub.toNat then do
    let (pal, data) ← readColors bpp (sub.toNat - 128) data
    let p ← paletteLoop pal s data (0, tile)
    pure p.2
  else .error (.returned (.subencoding sub))

namespace RfbClient

variable (H : RfbHost)

/-! ### Drawing -/

/-- Copy one pixel of a tile to the framebuffer, when it is inside. -/
def blitPixel (c : RfbClient) (x y : Int) (tw : Nat) (tile : List (BitVec 16)) (row col : Nat)
    (fb : Bytes) : Except Stop Bytes :=
  match clip (y + row) c.h, clip (x + col) c.w with
  | some dy, some dx => do
      let v ← rdSlice (.panic .tile) tile (row * tw + col)
      putPixel fb ((dy * c.w + dx) * 4) (rgbx c.bpp v)
  | _, _ => .ok fb

def decodeLRE (c : RfbClient) (data : Bytes) (x y : Int) (tw th : Nat) : Except Stop RfbClient :=
  match data with
  | [] => .error (.returned .emptyLRE)
  | sub :: data => do
      let tile ← decodeTile c.bpp (tw * th) sub data
      match c.fb with
      | none => pure c
      | some fb => do
          let fb ← forRect (c.blitPixel x y tw tile) th tw fb
          pure { c with fb := some fb }

/-- The pixel loop of `blitRAW` stops early when the data ends. -/
inductive Raw
  | more (fb data : Bytes)
  | done (fb : Bytes)

/-- One pixel of a raw rectangle. Outside the framebuffer its bytes are skipped. -/
def blitRawPixel (c : RfbClient) (x y : Int) (row col : Nat) : Raw → Except Stop Raw
  | .done fb => .ok (.done fb)
  | .more fb data =>
      match clip (y + row) c.h, clip (x + col) c.w with
      | some dy, some dx =>
          match readColor c.bpp data with
          | .error _ => .ok (.done fb)
          | .ok (v, data) => do
              let fb ← putPixel fb ((dy * c.w + dx) * 4) (rgbx c.bpp v)
              pure (.more fb data)
      | _, _ => .ok (.more fb (data.drop c.bpp.bpp))

def blitRAW (c : RfbClient) (x y : Int) (tw th : Nat) (data : Bytes) : Except Stop RfbClient :=
  match c.fb with
  | none => .ok c
  | some fb =>
      if tw < 1 ∨ th < 1 then .ok c
      else do
        match ← forRect (c.blitRawPixel x y) th tw (.more fb data) with
        | .more fb _ | .done fb => pure { c with fb := some fb }

/-- A new framebuffer: black, with the fourth byte of each pixel set. -/
def resize (c : RfbClient) (w h : Nat) : RfbClient :=
  { c with w, h, fb := some ((List.replicate (w * h) [0, 0, 0, 0xff]).flatten) }

/-! ### The stream -/

/-- `io.ReadFull`. -/
def readFull (n : Nat) (input : Bytes) : Except Stop (Bytes × Bytes) :=
  if n ≤ input.length then .ok (input.take n, input.drop n) else .error (.returned .read)

/-- `binary.BigEndian`, of any width. -/
def bigEndian (b : Bytes) : Nat := b.foldl (fun n x => n * 256 + x.toNat) 0

/-- The fields of a slice `b[i:j]`. -/
def slice (b : Bytes) (i j : Nat) : Bytes := (b.take j).drop i

/-- `int32` of an unsigned 32-bit value. -/
def int32 (n : Nat) : Int := if n < 2 ^ 31 then n else (n : Int) - 2 ^ 32

def write (c : RfbClient) (msg : Bytes) : Except Stop RfbClient :=
  match H.writeErr c.written.length with
  | some e => .error (.returned (.write e))
  | none => .ok { c with written := c.written ++ [msg] }

def requestUpdate (c : RfbClient) (incremental : Bool) : Except Stop RfbClient :=
  c.write H [3, if incremental then 1 else 0, 0, 0, 0, 0, BitVec.ofNat 8 (c.w / 256),
    BitVec.ofNat 8 c.w, BitVec.ofNat 8 (c.h / 256), BitVec.ofNat 8 c.h]

def unwrapRLE (data : Bytes) : Except Stop Bytes :=
  match data with
  | [] => .error (.returned .emptyRlePayload)
  | b :: _ =>
      if 5 < data.length ∧ b = 0 ∧
          (data[1]?.getD 0).toNat + 256 * (data[2]?.getD 0).toNat = data.length - 5 then
        .ok (data.drop 5)
      else if b &&& 0x0f = 8 then
        match H.zlib data with
        | none => .error (.returned .zlibHeader)
        | some (out, failed) =>
            if out ≠ [] then .ok out
            else if failed then .error (.returned .zlib)
            else .error (.returned .zlibEmptyOutput)
      else .ok data

def readRLE (c : RfbClient) (x y w h : Nat) (input : Bytes) :
    Except Stop (RfbClient × Bytes) := do
  let (lenBuf, input) ← readFull 4 input
  let datalen := bigEndian lenBuf
  if 8 <<< 20 < datalen then .error (.returned (.rleDatalen datalen))
  else
    let (data, input) ← readFull datalen input
    let payload ← unwrapRLE H data
    let c ← c.decodeLRE payload x y w h
    pure (c, input)

/-- The fields of a rectangle header. -/
structure RectHeader where
  x : Nat
  y : Nat
  w : Nat
  h : Nat
  enc : Int

def rectHeader (hdr : Bytes) : RectHeader where
  x := bigEndian (slice hdr 0 2)
  y := bigEndian (slice hdr 2 4)
  w := bigEndian (slice hdr 4 6)
  h := bigEndian (slice hdr 6 8)
  enc := int32 (bigEndian (slice hdr 8 12))

/-- A rectangle behind its header. -/
def readRectBody (c : RfbClient) (r : RectHeader) (input : Bytes) :
    Except Stop (RfbClient × Bytes) :=
  if r.enc = -223 then do
    let c ← (c.resize r.w r.h).requestUpdate H false
    pure (c, input)
  else if r.enc = 0 then do
    let (data, input) ← readFull (r.w * r.h * c.bpp.bpp) input
    let c ← c.blitRAW r.x r.y r.w r.h data
    pure (c, input)
  else if r.enc = 16 then c.readRLE H r.x r.y r.w r.h input
  else .error (.returned (.unsupportedEncoding r.enc))

def readRect (st : RfbClient × Bytes) : Except Stop (RfbClient × Bytes) := do
  let (hdr, input) ← readFull 12 st.2
  st.1.readRectBody H (rectHeader hdr) input

/-- Hand a copy of the framebuffer to the frame handler. -/
def emit (c : RfbClient) : RfbClient :=
  match c.fb with
  | some (b :: pix) => { c with frames := c.frames ++ [(c.w, c.h, b :: pix)] }
  | _ => c

/-- A framebuffer update: its rectangles, the frame, and the request for the next one. -/
def readUpdate (c : RfbClient) (input : Bytes) : Except Stop (RfbClient × Bytes) := do
  let (hdr, input) ← readFull 3 input
  let (c, input) ← forUp (fun _ => readRect H) 0 (bigEndian (slice hdr 1 3)) (c, input)
  let c ← c.emit.requestUpdate H true
  pure (c, input)

def readCutText (c : RfbClient) (input : Bytes) : Except Stop (RfbClient × Bytes) := do
  let (_, input) ← readFull 3 input
  let (ln, input) ← readFull 4 input
  let (_, input) ← readFull (bigEndian ln) input
  pure (c, input)

/-- One turn of the loop of `Run`. The loop has no exit but an error. -/
def serverMessage (st : RfbClient × Bytes) : Except Stop ((RfbClient × Bytes) ⊕ Empty) :=
  match st.2 with
  | [] => .error (.returned .read)
  | typ :: input =>
      if typ = 0 then (st.1.readUpdate H input).map .inl
      else if typ = 2 then .ok (.inl (st.1, input))
      else if typ = 3 then (st.1.readCutText input).map .inl
      else .error (.returned (.unknownMessage typ))

/-- `Run` on the bytes `input` stops for the reason `e`. -/
def Run (c : RfbClient) (input : Bytes) (e : Stop) : Prop :=
  Loop.Returns (serverMessage H) (c, input) (.error e)

end RfbClient

end Outband.Amt.Redir
