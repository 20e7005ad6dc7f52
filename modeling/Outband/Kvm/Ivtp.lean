import Mathlib.Data.BitVec
import Outband.Foundation.Loop

/-!
# The IVTP read loop

The AMI console sends packets of seven header bytes and a payload
(`internal/kvm/ivtp.go`). `Client.readLoop` (`internal/kvm/client.go`)
collects the video fragments of a frame in one buffer, hands each complete frame
to the decoder, and skips every other packet.

## Implementation notes

`calls` records the calls of `handleFrame` with their arguments; that call is
taken to return. A turn that fails keeps the state it had reached, except for
the input.
-/

namespace Outband.Kvm.Ivtp

open Foundation

abbrev Bytes := List (BitVec 8)

def HeaderSize : Nat := 7

def opVideoFragment : BitVec 8 := 5

def maxFrameBytes : Nat := 8 <<< 20

/-- A packet header. -/
structure Header where
  typ : BitVec 8
  size : BitVec 32
  status : BitVec 16

/-- `binary.LittleEndian.PutUint16` and `PutUint32`: `n` bytes, least significant first. -/
def putLE {w : Nat} (n : Nat) (v : BitVec w) : Bytes :=
  (List.range n).map fun k => (v >>> (8 * k)).setWidth 8

/-- `binary.LittleEndian.Uint16` and `Uint32`. -/
def getLE (w : Nat) (b : Bytes) : BitVec w :=
  BitVec.ofNat w (b.foldr (fun x n => x.toNat + 256 * n) 0)

namespace Header

def marshal (h : Header) : Bytes := h.typ :: (putLE 4 h.size ++ putLE 2 h.status)

end Header

/-- The errors the loop returns. -/
inductive ReadLoopError
  | eof | unexpectedEof | frameTooLarge
  deriving DecidableEq, Repr

/-- `io.ReadFull`. -/
def readFull (n : Nat) (input : Bytes) : Except ReadLoopError (Bytes × Bytes) :=
  if n ≤ input.length then .ok (input.take n, input.drop n)
  else if input = [] then .error .eof else .error .unexpectedEof

/-- `bufio.Reader.Discard`. -/
def discard (n : Nat) (input : Bytes) : Except ReadLoopError Bytes :=
  if n ≤ input.length then .ok (input.drop n) else .error .eof

def readHeader (input : Bytes) : Except ReadLoopError (Header × Bytes) := do
  let (b, rest) ← readFull HeaderSize input
  pure ({ typ := b[0]?.getD 0, size := getLE 32 ((b.drop 1).take 4),
          status := getLE 16 ((b.drop 5).take 2) }, rest)

/-- The state at the head of the loop. -/
structure ReadLoop where
  input : Bytes
  frame : Bytes := []
  seq : Nat := 0
  calls : List (Nat × Bytes) := []

namespace ReadLoop

/-- Hand over a complete frame and empty the buffer. -/
def handleFrame (s : ReadLoop) : ReadLoop :=
  { s with seq := s.seq + 1, calls := s.calls ++ [(s.seq + 1, s.frame)], frame := [] }

/-- The data of a fragment behind its number. -/
def readFragment (s : ReadLoop) (fragNum : BitVec 16) (dataLen : Nat) :
    Except (ReadLoopError × ReadLoop) ReadLoop :=
  let frame := if fragNum &&& 0x7fff = 0 then [] else s.frame
  if maxFrameBytes < frame.length + dataLen then .error (.frameTooLarge, { s with frame })
  else
    match readFull dataLen s.input with
    | .error e => .error (e, { s with frame := frame ++ List.replicate dataLen 0 })
    | .ok (data, input) =>
        let s := { s with input, frame := frame ++ data }
        if fragNum &&& 0x8000 ≠ 0 then .ok s.handleFrame else .ok s

/-- One turn of the loop: one packet. A fragment too short for its number and every packet of
another type are skipped. -/
def readPacket (s : ReadLoop) : Except (ReadLoopError × ReadLoop) (ReadLoop ⊕ Empty) :=
  match readHeader s.input with
  | .error e => .error (e, s)
  | .ok (h, input) =>
      if h.typ = opVideoFragment ∧ 2 ≤ h.size.toNat then
        match readFull 2 input with
        | .error e => .error (e, s)
        | .ok (fn, input) =>
            ({ s with input }.readFragment (getLE 16 fn) (h.size.toNat - 2)).map .inl
      else
        match discard h.size.toNat input with
        | .error e => .error (e, s)
        | .ok input => .ok (.inl { s with input })

end ReadLoop

end Outband.Kvm.Ivtp
