import Outband.Foundation.Transition
import Outband.Rfb.Messages

/-!
# An RFB session and its frame source

`Serve` (`internal/rfb/server.go`) runs against a `FrameSource` that other
goroutines update, and next to its own reader. A `Session` is the state the three
share. The actions are the sections between two accesses to that state, so that
a run is an interleaving of any number of `Update` calls, of the client's
messages and of the steps of `Serve`.

## Implementation notes

The calls of `Update` between their two sections differ in nothing, so they are
counted. What `Serve` hands to its writer is kept as a list of messages, each of
which is written at once; a write that fails leaves a part of its message
behind. Two fields record the past and are read by no step: `lastRead`, the frame `Serve`
read last, and `dropped`, whether a full request has been dropped since the last
frame was written.
-/

namespace Outband.Rfb

open Foundation

/-- A framebuffer of four bytes a pixel. -/
structure Frame where
  W : Int
  H : Int
  Pix : Bytes
  deriving DecidableEq, Repr

/-- `uint16` of a machine integer. -/
def uint16 (n : Int) : Nat := (n % 65536).toNat

/-- The size of a frame as a message header gives it. -/
def headerSize (w h : Int) : Nat × Nat := (uint16 w, uint16 h)

def Frame.header (f : Frame) : Nat × Nat := headerSize f.W f.H

/-- The length `Update` asks of a `w × h` buffer, in 64-bit arithmetic. -/
def pixLength (w h : Int) : Int := (w * h * 4).bmod (2 ^ 64)

/-! ### The frame source -/

/-- The fields of a `FrameSource`: the frame and the one-slot channel. -/
structure FrameSource where
  frame : Frame
  changed : Bool := false

/-- `NewFrameSource`, with its placeholder. -/
def NewFrameSource (w h : Int) : FrameSource :=
  let (w, h) := if w ≤ 0 ∨ h ≤ 0 then (640, 480) else (w, h)
  { frame := ⟨w, h, List.replicate (w * h * 4).toNat 0⟩ }

/-- What `Update` accepts. -/
def Accepts (w h : Int) (pix : Bytes) : Prop :=
  ¬ (w ≤ 0 ∨ h ≤ 0 ∨ (pix.length : Int) < pixLength w h)

instance (w h : Int) (pix : Bytes) : Decidable (Accepts w h pix) :=
  inferInstanceAs (Decidable (¬ _))

/-! ### What the server writes -/

def writeServerInit (width height : Int) (name : Bytes) : Bytes :=
  putUint 2 (uint16 width) ++ putUint 2 (uint16 height) ++ [32, 24, 0, 1] ++ putUint 2 255 ++
    putUint 2 255 ++ putUint 2 255 ++ [0, 8, 16, 0, 0, 0] ++ putUint 4 name.length ++ name

/-- The name of the desktop, "Outband KVM". -/
def desktopName : Bytes := ("Outband KVM".toList).map fun c => BitVec.ofNat 8 c.toNat

/-- The header of an update of one rectangle at the origin. -/
def updateHeader (w h : Int) (enc : BitVec 32) : Bytes :=
  [0, 0] ++ putUint 2 1 ++ putUint 2 0 ++ putUint 2 0 ++ putUint 2 (uint16 w) ++
    putUint 2 (uint16 h) ++ putUint 4 enc.toNat

def writeDesktopSize (newW newH : Int) : Bytes := updateHeader newW newH encDesktopSize

def encRaw : BitVec 32 := 0

/-- A frame without a size is not written. -/
def writeFrame (f : Frame) : Bytes :=
  if f.W = 0 ∨ f.H = 0 then [] else updateHeader f.W f.H encRaw ++ f.Pix

/-- An entry of the log: a message of the server, or the client's word that it knows
DesktopSize. -/
inductive Event
  | serverInit (w h : Int)
  | advertised
  | desktopSize (w h : Int)
  | raw (f : Frame)
  deriving DecidableEq, Repr

def Event.bytes : Event → Bytes
  | serverInit w h => writeServerInit w h desktopName
  | advertised => []
  | desktopSize w h => writeDesktopSize w h
  | raw f => writeFrame f

/-- The frame of a message has the property, or a frame of the size it gives. -/
def Event.Holds (P : Frame → Prop) : Event → Prop
  | serverInit w h | desktopSize w h => ∃ f, P f ∧ f.W = w ∧ f.H = h
  | raw f => P f
  | advertised => True

/-! ### The session -/

/-- Where `Serve` stands: in the handshake, turned away by it, before its first frame, in one of
the two selects, before it reads a frame, with a frame that has still to be announced, or before
it writes. -/
inductive Phase
  | handshake
  | refused
  | initialized
  | idle
  | waiting
  | reading
  | loaded (f : Frame)
  | writing (f : Frame)
  | stopped
  deriving DecidableEq, Repr

/-- The reader runs once `Serve` has read its first frame. -/
def Phase.reads : Phase → Bool
  | .handshake | .refused | .initialized => false
  | _ => true

structure Session where
  source : FrameSource
  /-- The calls of `Update` that have stored their frame and not yet signalled. -/
  signalling : Nat := 0
  phase : Phase := .handshake
  lastW : Int := 0
  lastH : Int := 0
  desktopSizeOK : Bool := false
  /-- The one-slot channel of update requests, with the incremental flag. -/
  reqc : Option Bool := none
  log : List Event := []
  torn : Bytes := []
  lastRead : Option Frame := none
  dropped : Bool := false

/-- The sections of the code that share the session. -/
inductive Act
  | store (w h : Int) (pix : Bytes)
  | signal
  | client (e : Effect)
  | serverInit
  | start
  | take
  | receive
  | read
  | announce
  | write
  | writeFails (n : Nat)
  | stop
  deriving DecidableEq, Repr

namespace Session

/-- A session on a new source. -/
def new (w h : Int) : Session := { source := NewFrameSource w h }

def Reading (s : Session) : Prop := s.phase.reads = true

instance (s : Session) : Decidable s.Reading := inferInstanceAs (Decidable (_ = true))

theorem reading_of {s : Session} {phase : Phase} (h : s.phase = phase)
    (hreads : phase.reads = true := by rfl) : s.Reading := by
  rw [Reading, h, hreads]

theorem not_reading_of {s : Session} {phase : Phase} (h : s.phase = phase)
    (hreads : phase.reads = false := by rfl) : ¬ s.Reading := by
  rw [Reading, h, hreads]
  decide

theorem Reading.phase_ne {s : Session} {phase : Phase} (h : s.Reading)
    (hreads : phase.reads = false := by rfl) : s.phase ≠ phase := by
  rintro rfl
  exact not_reading_of rfl hreads h

/-- The locked section of `Update`. -/
def store (s : Session) (w h : Int) (pix : Bytes) : Session :=
  if Accepts w h pix then
    { s with source.frame := ⟨w, h, pix⟩, signalling := s.signalling + 1 }
  else s

/-- The non-blocking send of a request. -/
def request (s : Session) (incremental : Bool) : Session :=
  match s.reqc with
  | none => { s with reqc := some incremental }
  | some _ => { s with dropped := s.dropped || !incremental }

/-- What the reader does to the session. -/
def client (s : Session) : Effect → Session
  | .desktopSizeOK => { s with desktopSizeOK := true, log := s.log ++ [.advertised] }
  | .request incremental => s.request incremental
  | .keyEvent .. | .pointerEvent .. | .cutText _ => s

/-- `f` has another size than the one the server keeps. -/
def Resized (s : Session) (f : Frame) : Prop := f.W ≠ s.lastW ∨ f.H ≠ s.lastH

instance (s : Session) (f : Frame) : Decidable (s.Resized f) :=
  inferInstanceAs (Decidable (_ ∨ _))

/-- The DesktopSize message in front of `f`, if it needs one. -/
def announcement (s : Session) (f : Frame) : List Event :=
  if s.Resized f ∧ s.desktopSizeOK = true then [.desktopSize f.W f.H] else []

/-- The messages `Serve` is about to write. -/
def upcoming (s : Session) : List Event :=
  match s.phase with
  | .handshake => [.serverInit s.source.frame.W s.source.frame.H]
  | .loaded f => s.announcement f
  | .writing f => [.raw f]
  | _ => []

/-! Each section of the code as an update of the session. -/

def signal (s : Session) : Session :=
  { s with source.changed := true, signalling := s.signalling - 1 }

def serverInit (s : Session) : Session :=
  { s with
    phase := .initialized
    log := s.log ++ [.serverInit s.source.frame.W s.source.frame.H] }

def start (s : Session) : Session :=
  { s with
    phase := .idle
    lastW := s.source.frame.W
    lastH := s.source.frame.H
    lastRead := some s.source.frame }

def take (s : Session) (incremental : Bool) : Session :=
  { s with reqc := none, phase := if incremental then .waiting else .reading }

def receive (s : Session) : Session := { s with source.changed := false, phase := .reading }

def read (s : Session) : Session :=
  { s with phase := .loaded s.source.frame, lastRead := some s.source.frame }

def announce (s : Session) (f : Frame) : Session :=
  { s with phase := .writing f, lastW := f.W, lastH := f.H, log := s.log ++ s.announcement f }

def write (s : Session) (f : Frame) : Session :=
  { s with phase := .idle, log := s.log ++ [.raw f], dropped := false }

/-- The phase of a `Serve` that returns. -/
def halted (s : Session) : Phase := if s.phase = .handshake then .refused else .stopped

theorem halted_cases (s : Session) : s.halted = .refused ∨ s.halted = .stopped := by
  rw [halted]
  split_ifs
  · exact .inl rfl
  · exact .inr rfl

theorem halted_ne (s : Session) (f : Frame) :
    ¬ (s.halted = .loaded f ∨ s.halted = .writing f) := by
  rcases halted_cases s with h | h <;> simp [h]

def fail (s : Session) (n : Nat) : Session :=
  { s with phase := s.halted, torn := (s.upcoming.flatMap Event.bytes).take n }

def stop (s : Session) : Session := { s with phase := s.halted }

/-- The step of a session, defined where the section can be entered. -/
def step : Act → Session → Option Session
  | .store w h pix, s => some (s.store w h pix)
  | .signal, s => if s.signalling = 0 then none else some s.signal
  | .client e, s => if s.Reading then some (s.client e) else none
  | .serverInit, s =>
      match s.phase with
      | .handshake => some s.serverInit
      | _ => none
  | .start, s =>
      match s.phase with
      | .initialized => some s.start
      | _ => none
  | .take, s =>
      match s.phase, s.reqc with
      | .idle, some incremental => some (s.take incremental)
      | _, _ => none
  | .receive, s =>
      match s.phase, s.source.changed with
      | .waiting, true => some s.receive
      | _, _ => none
  | .read, s =>
      match s.phase with
      | .reading => some s.read
      | _ => none
  | .announce, s =>
      match s.phase with
      | .loaded f => some (s.announce f)
      | _ => none
  | .write, s =>
      match s.phase with
      | .writing f => some (s.write f)
      | _ => none
  | .writeFails n, s => if s.upcoming = [] then none else some (s.fail n)
  | .stop, s =>
      match s.phase with
      | .handshake | .idle | .waiting => some s.stop
      | _ => none

/-- What a step can be, with the guard of its section. -/
inductive Next (s : Session) : Act → Session → Prop
  | store (w h : Int) (pix : Bytes) : Next s (.store w h pix) (s.store w h pix)
  | signal (pending : s.signalling ≠ 0) : Next s .signal s.signal
  | client (e : Effect) (reading : s.Reading) : Next s (.client e) (s.client e)
  | serverInit (phase : s.phase = .handshake) : Next s .serverInit s.serverInit
  | start (phase : s.phase = .initialized) : Next s .start s.start
  | take (incremental : Bool) (phase : s.phase = .idle) (pending : s.reqc = some incremental) :
      Next s .take (s.take incremental)
  | receive (phase : s.phase = .waiting) (changed : s.source.changed = true) :
      Next s .receive s.receive
  | read (phase : s.phase = .reading) : Next s .read s.read
  | announce (f : Frame) (phase : s.phase = .loaded f) : Next s .announce (s.announce f)
  | write (f : Frame) (phase : s.phase = .writing f) : Next s .write (s.write f)
  | fail (n : Nat) (writes : s.upcoming ≠ []) : Next s (.writeFails n) (s.fail n)
  | stop (phase : s.phase = .handshake ∨ s.phase = .idle ∨ s.phase = .waiting) :
      Next s .stop s.stop

theorem next_of_step {a : Act} {s s' : Session} (h : step a s = some s') : Next s a s' := by
  cases a with
  | store w h' pix =>
      cases h
      exact .store w h' pix
  | signal =>
      rw [step] at h
      split at h
      case isTrue => cases h
      case isFalse hpending =>
        cases h
        exact .signal hpending
  | client e =>
      rw [step] at h
      split at h
      case isTrue hreading =>
        cases h
        exact .client e hreading
      case isFalse => cases h
  | writeFails n =>
      rw [step] at h
      split at h
      case isTrue => cases h
      case isFalse hwrites =>
        cases h
        exact .fail n hwrites
  | take =>
      rw [step] at h
      split at h
      case h_1 incremental hphase hreqc =>
        cases h
        exact .take incremental hphase hreqc
      case h_2 => cases h
  | receive =>
      rw [step] at h
      split at h
      case h_1 hphase hchanged =>
        cases h
        exact .receive hphase hchanged
      case h_2 => cases h
  | stop =>
      rw [step] at h
      split at h
      case h_1 hphase | h_2 hphase | h_3 hphase =>
        cases h
        exact .stop (by simp [hphase])
      case h_4 => cases h
  | serverInit =>
      rw [step] at h
      split at h
      case h_1 hphase =>
        cases h
        exact .serverInit hphase
      case h_2 => cases h
  | start =>
      rw [step] at h
      split at h
      case h_1 hphase =>
        cases h
        exact .start hphase
      case h_2 => cases h
  | read =>
      rw [step] at h
      split at h
      case h_1 hphase =>
        cases h
        exact .read hphase
      case h_2 => cases h
  | announce =>
      rw [step] at h
      split at h
      case h_1 f hphase =>
        cases h
        exact .announce f hphase
      case h_2 => cases h
  | write =>
      rw [step] at h
      split at h
      case h_1 f hphase =>
        cases h
        exact .write f hphase
      case h_2 => cases h

/-- A run of a session on a source made with the size `w × h`. -/
def Run (ok : Act → Session → Prop) (w h : Int) (s : Session) : Prop :=
  Reached step ok (new w h) s

/-! ### The frames of a session -/

section Frames
variable {P : Frame → Prop} {ok : Act → Session → Prop} {a : Act} {s s' : Session}

/-- Every frame the session holds or has written has the property `P`. -/
structure Holds (P : Frame → Prop) (s : Session) : Prop where
  source : P s.source.frame
  held : ∀ f, s.phase = .loaded f ∨ s.phase = .writing f → P f
  kept : s.Reading → s.phase ≠ .stopped → ∃ f, P f ∧ f.W = s.lastW ∧ f.H = s.lastH
  logged : ∀ e ∈ s.log, e.Holds P

theorem Holds.kept_of {phase : Phase} (hs : Holds P s) (hphase : s.phase = phase)
    (hreads : phase.reads = true := by rfl) (hrunning : phase ≠ .stopped := by simp) :
    ∃ f, P f ∧ f.W = s.lastW ∧ f.H = s.lastH :=
  hs.kept (reading_of hphase hreads) (hphase ▸ hrunning)

theorem holds_snoc {log : List Event} {e : Event} (hlog : ∀ e ∈ log, e.Holds P)
    (he : e.Holds P) : ∀ e' ∈ log ++ [e], e'.Holds P := by
  intro e' hmem
  rcases List.mem_append.mp hmem with hold | hnew
  · exact hlog e' hold
  · obtain rfl := List.mem_singleton.mp hnew
    exact he

theorem Holds.client (hs : Holds P s) (e : Effect) : Holds P (s.client e) := by
  cases e with
  | desktopSizeOK => exact ⟨hs.source, hs.held, hs.kept, holds_snoc hs.logged trivial⟩
  | request incremental =>
      rw [Session.client, Session.request]
      split
      · exact ⟨hs.source, hs.held, hs.kept, hs.logged⟩
      · exact ⟨hs.source, hs.held, hs.kept, hs.logged⟩
  | keyEvent | pointerEvent | cutText => exact hs

theorem Holds.announce {f : Frame} (hs : Holds P s) (hf : P f) : Holds P (s.announce f) where
  source := hs.source
  held f' hf' := by
    rcases hf' with hf' | hf' <;> cases hf'
    exact hf
  kept _ _ := ⟨f, hf, rfl, rfl⟩
  logged := by
    change ∀ e ∈ s.log ++ s.announcement f, e.Holds P
    rw [announcement]
    split_ifs
    · exact holds_snoc hs.logged ⟨f, hf, rfl, rfl⟩
    · rw [List.append_nil]
      exact hs.logged

/-- A property of the stored frames passes to every frame of the session. -/
theorem Holds.next (hs : Holds P s) (hnext : Next s a s')
    (hstore : ∀ w h pix, a = .store w h pix → Accepts w h pix → P ⟨w, h, pix⟩) :
    Holds P s' := by
  cases hnext with
  | store w h pix =>
      rw [Session.store]
      split_ifs with haccepts
      · exact ⟨hstore w h pix rfl haccepts, hs.held, hs.kept, hs.logged⟩
      · exact hs
  | signal => exact ⟨hs.source, hs.held, hs.kept, hs.logged⟩
  | client e => exact hs.client e
  | serverInit hphase =>
      refine ⟨hs.source, ?_, ?_, holds_snoc hs.logged ⟨s.source.frame, hs.source, rfl, rfl⟩⟩
      · rintro f (hf | hf) <;> cases hf
      · exact fun hreading => absurd rfl hreading.phase_ne
  | start hphase =>
      refine ⟨hs.source, ?_, fun _ _ => ⟨s.source.frame, hs.source, rfl, rfl⟩, hs.logged⟩
      rintro f (hf | hf) <;> cases hf
  | take incremental hphase =>
      refine ⟨hs.source, ?_, fun _ _ => hs.kept_of hphase, hs.logged⟩
      cases incremental <;> rintro f (hf | hf) <;> cases hf
  | receive hphase =>
      refine ⟨hs.source, ?_, fun _ _ => hs.kept_of hphase, hs.logged⟩
      rintro f (hf | hf) <;> cases hf
  | read hphase =>
      refine ⟨hs.source, ?_, fun _ _ => hs.kept_of hphase, hs.logged⟩
      rintro f (hf | hf) <;> cases hf
      exact hs.source
  | announce f hphase => exact hs.announce (hs.held f (.inl hphase))
  | write f hphase =>
      refine ⟨hs.source, ?_, fun _ _ => hs.kept_of hphase,
        holds_snoc hs.logged (hs.held f (.inr hphase))⟩
      rintro f (hf | hf) <;> cases hf
  | fail n | stop =>
      refine ⟨hs.source, fun f hf => absurd hf (halted_ne s f), fun hreading hrunning => ?_,
        hs.logged⟩
      exact absurd (halted_cases s) (not_or.mpr ⟨hreading.phase_ne, hrunning⟩)

/-- A property of the first frame and of the stored frames is one of all frames, in every run. -/
theorem holds_of_run {w h : Int} (hnew : P (NewFrameSource w h).frame)
    (hstore : ∀ w h pix s, ok (.store w h pix) s → Accepts w h pix → P ⟨w, h, pix⟩)
    (hrun : Run ok w h s) : Holds P s := by
  refine hrun.invariant (I := Holds P)
    ⟨hnew, ?_, fun hreading => absurd rfl hreading.phase_ne, ?_⟩ ?_
  · rintro f (hf | hf) <;> cases hf
  · intro e he
    cases he
  · intro a s s' hs hok hstep
    refine hs.next (next_of_step hstep) ?_
    rintro w h pix rfl haccepts
    exact hstore w h pix s hok haccepts

end Frames

end Session

end Outband.Rfb
