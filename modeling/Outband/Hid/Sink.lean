import Outband.Foundation.Outbox
import Outband.Foundation.Transition
import Outband.Hid.Keysyms
import Outband.Kvm.Ivtp

/-!
# The HID sinks

A sink is called by the RFB reader and runs one goroutine for every pasted text.
Each of them builds a report and writes it in a second step. `KeyEvent` updates
the held keys and builds the report of the new state under a lock. The iLO
paste types through `KeyEvent`; the AMI paste builds its own reports
(`internal/kvm/hid.go`, `internal/ilo/rc/hid.go`).

## Implementation notes

The text of a paste is the list of its runes. `hidSeq` belongs to the process,
so a session may start with any value, and the reports of the mouse and of other
sessions draw numbers in between. Every write succeeds: a connection on which a
write has failed carries no further report. `Channel.Send` of the iLO, which
encrypts a report and writes it without a lock, is taken as one step.
-/

namespace Outband.Hid

open Foundation
open Kvm.Ivtp (Bytes putLE getLE Header)

/-- The two kinds of sinks. -/
inductive Device
  | ami
  | ilo
  deriving DecidableEq, Repr

/-! ### Reports -/

/-- The bytes of a USB report: the modifiers, a zero, and six keys. -/
def usbReport (modifiers : BitVec 8) (keys : List (BitVec 8)) : Bytes :=
  [modifiers, 0] ++ (keys.take 6 ++ List.replicate (6 - keys.length) 0)

def Held.usb (h : Held) : Bytes := usbReport h.mods h.pressed

/-- The report of a keyboard on which nothing is held. -/
def released : Bytes := Held.usb {}

/-- The IUSB header, with its checksum still 0. -/
def iusbHeader (reportField : BitVec 32) (device proto ifnum : BitVec 8) (seq : BitVec 32) :
    Bytes :=
  [0x49, 0x55, 0x53, 0x42, 0x20, 0x20, 0x20, 0x20, 1, 0, 32, 0] ++ putLE 4 reportField ++
    [0, device, proto, 0x80, 2, ifnum, 0, 0] ++ putLE 4 seq ++ [0, 0, 0, 0]

def finishChecksum (header : Bytes) : Bytes := header.set 11 (-header.sum)

def opHIDPkt : BitVec 8 := 6

/-- The AMI packet of a keyboard report. -/
def keyboardReport (seq : BitVec 32) (usb : Bytes) : Bytes :=
  Header.marshal ⟨opHIDPkt, 41, 0⟩ ++ finishChecksum (iusbHeader 9 48 16 0 seq) ++ [8] ++ usb

/-- The iLO record of a keyboard report. -/
def KeyboardReport (modifiers : BitVec 8) (keys : List (BitVec 8)) : Bytes :=
  [0x01, 0] ++ usbReport modifiers keys

/-- What a sink writes for a keyboard state. -/
def Device.report (seq : BitVec 32) (h : Held) : Device → Bytes
  | ami => keyboardReport seq h.usb
  | ilo => KeyboardReport h.mods h.pressed

/-- The USB report in what is written. -/
def Device.usbOf (report : Bytes) : Device → Bytes
  | ami => report.drop 40
  | ilo => report.drop 2

/-- The sequence number in an AMI packet. -/
def seqOf (report : Bytes) : BitVec 32 := getLE 32 ((report.drop 31).take 4)

/-! ### Key strokes -/

/-- The state a key stroke leaves and the state its report shows, if it has one. -/
structure Stroke where
  held : Held
  report : Option Held
  deriving DecidableEq

/-- `KeyEvent` up to its write. -/
def KeyEvent (h : Held) (keysym : BitVec 32) (down : Bool) : Stroke :=
  match h.keyEvent keysym down with
  | some h' => ⟨h', some h'⟩
  | none => ⟨h, none⟩

/-- The key down of a pasted character, unless it is skipped. -/
def Device.press (h : Held) (r : Nat) : Device → Option Stroke
  | ami =>
      match asciiToUsage r with
      | some (usage, shift) =>
          some ⟨h, some { mods := if shift then modLeftShift else 0, pressed := [usage] }⟩
      | none => none
  | ilo => if r > 0x80 ∧ r > 0xff then none else some (KeyEvent h (BitVec.ofNat 32 r) true)

/-- The key up. -/
def Device.release (h : Held) (r : Nat) : Device → Stroke
  | ami => ⟨h, some {}⟩
  | ilo => KeyEvent h (BitVec.ofNat 32 r) false

/-- Where the goroutine of a paste stands: before the next character, behind its key down or
behind its key up. -/
inductive Paste
  | typing (runes : List Nat)
  | pressed (r : Nat) (rest : List Nat)
  | released (rest : List Nat)
  | finished
  deriving DecidableEq, Repr

/-- The next section of a paste. -/
def Device.resume (dev : Device) (h : Held) : Paste → Option (Paste × Stroke)
  | .typing [] => some (.finished, ⟨h, none⟩)
  | .typing (r :: rest) =>
      match dev.press h r with
      | some stroke => some (.pressed r rest, stroke)
      | none => some (.typing rest, ⟨h, none⟩)
  | .pressed r rest => some (.released rest, dev.release h r)
  | .released rest => some (.typing rest, ⟨h, none⟩)
  | .finished => none

/-- Where a paste looks at its context: the AMI paste in each of its delays, the iLO paste before
each character. -/
def Device.cancellable : Device → Paste → Bool
  | ami, .pressed .. | ami, .released _ | ilo, .typing (_ :: _) => true
  | _, _ => false

/-! ### The sinks and their goroutines -/

inductive Goroutine
  | reader
  | paste (i : Nat)
  deriving DecidableEq, Repr

/-- A sink with its goroutines and the reports they have built and written. -/
structure HIDSink where
  held : Held := {}
  cancelled : Bool := false
  hidSeq : BitVec 32
  pastes : List Paste := []
  out : Outbox Goroutine Bytes := {}
  deriving DecidableEq

/-- The sections of the code: `KeyEvent` and `CutText` of the reader up to the write, the next
section of a paste, a paste that sees its context cancelled, the write of a report, a number drawn
for another report, and the end of the context. -/
inductive Act
  | keyEvent (keysym : BitVec 32) (down : Bool)
  | cutText (runes : List Nat)
  | resume (i : Nat)
  | cancel (i : Nat)
  | send (g : Goroutine)
  | draw
  | endSession
  deriving DecidableEq

namespace HIDSink

variable (dev : Device)

def stroke (g : Goroutine) (st : Stroke) (s : HIDSink) : HIDSink :=
  match st.report with
  | none => { s with held := st.held }
  | some h => { s with
      held := st.held
      hidSeq := s.hidSeq + 1
      out := s.out.post g (dev.report s.hidSeq h) }

def goOn (i : Nat) (p : Paste) (s : HIDSink) : HIDSink := { s with pastes := s.pastes.set i p }

/-- A goroutine goes on when its report is written. -/
def step : Act → HIDSink → Option HIDSink
  | .keyEvent keysym down, s =>
      if s.out.Idle .reader then some (s.stroke dev .reader (KeyEvent s.held keysym down))
      else none
  | .cutText runes, s =>
      if s.out.Idle .reader then some { s with pastes := s.pastes ++ [.typing runes] } else none
  | .resume i, s =>
      if s.out.Idle (.paste i) then
        match s.pastes[i]?.bind (dev.resume s.held) with
        | some (p, st) => some ((s.stroke dev (.paste i) st).goOn i p)
        | none => none
      else none
  | .cancel i, s =>
      if s.out.Idle (.paste i) ∧ s.cancelled = true ∧ s.pastes[i]?.any dev.cancellable = true then
        some (s.goOn i .finished)
      else none
  | .send g, s => (s.out.deliver g).map fun out => { s with out }
  | .draw, s => some { s with hidSeq := s.hidSeq + 1 }
  | .endSession, s => some { s with cancelled := true }

/-- A run of a sink, with any start of the sequence numbers. -/
def Run (ok : Act → HIDSink → Prop) (s : HIDSink) : Prop :=
  ∃ seq, Reached (step dev) ok { hidSeq := seq } s

/-- No goroutine has anything left to do. -/
def Quiet (s : HIDSink) : Prop := s.out.pending = [] ∧ ∀ p ∈ s.pastes, p = .finished

instance (s : HIDSink) : Decidable s.Quiet := inferInstanceAs (Decidable (_ ∧ _))

/-- The report the last of `reports` shows; before the first one nothing is held. -/
def seen (reports : List (Posting Bytes)) : Bytes :=
  (reports.getLast?.map fun p => dev.usbOf p.item).getD released

end HIDSink

end Outband.Hid
