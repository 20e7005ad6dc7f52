import Outband.Amt.Redir.RfbFrames
import Outband.Ilo.Dvc.ScreenSize
import Outband.Kvm.Bridge
import Outband.Kvm.Codec.Totality
import Outband.Rfb.Server

/-!
# What an RFB server sends

The header of an update and its pixels are written one behind the other without
a look at their lengths. `parseOutput` reads the stream the way a client does: a
`ServerInit`, then updates of one rectangle, a Raw rectangle with four bytes for
each pixel its header gives. The frames of the three back ends have the length
and the size that make the stream parse.
-/

namespace Outband.Rfb

open Foundation

/-! ### The client's side of the stream -/

/-- A rectangle of an update, with the data behind its header. -/
structure Rect where
  w : Nat
  h : Nat
  enc : BitVec 32
  data : Bytes
  deriving DecidableEq, Repr

/-- A DesktopSize rectangle has no data, a Raw one four bytes for each pixel. -/
def Rect.WellFormed (r : Rect) : Prop :=
  (r.enc = encDesktopSize ∧ r.data = []) ∨ (r.enc = encRaw ∧ r.data.length = 4 * r.w * r.h)

/-- The size, the pixel format and the name of a desktop. -/
structure Desktop where
  w : Nat
  h : Nat
  format : Bytes
  name : Bytes
  deriving DecidableEq, Repr

def parseServerInit (b : Bytes) : Option (Desktop × Bytes) :=
  let n := getUint (slice b 20 24)
  if 24 + n ≤ b.length then
    some (⟨getUint (slice b 0 2), getUint (slice b 2 4), slice b 4 20, slice b 24 (24 + n)⟩,
      b.drop (24 + n))
  else none

/-- The length of the data behind the header of a rectangle. -/
def dataLength (w h : Nat) (enc : BitVec 32) : Option Nat :=
  if enc = encDesktopSize then some 0
  else if enc = encRaw then some (4 * w * h)
  else none

/-- An update of one rectangle. -/
def parseUpdate (b : Bytes) : Option (Rect × Bytes) :=
  if 16 ≤ b.length ∧ b[0]? = some 0 ∧ getUint (slice b 2 4) = 1 then
    let w := getUint (slice b 8 10)
    let h := getUint (slice b 10 12)
    let enc := BitVec.ofNat 32 (getUint (slice b 12 16))
    match dataLength w h enc with
    | none => none
    | some n =>
        if 16 + n ≤ b.length then some (⟨w, h, enc, slice b 16 (16 + n)⟩, b.drop (16 + n))
        else none
  else none

theorem parseUpdate_shorter {b rest : Bytes} {r : Rect} (h : parseUpdate b = some (r, rest)) :
    rest.length < b.length := by
  rw [parseUpdate] at h
  split at h
  case isTrue hheader =>
    dsimp only at h
    split at h
    case h_1 => cases h
    case h_2 n _ =>
      split at h
      case isTrue hlen =>
        cases h
        rw [List.length_drop]
        omega
      case isFalse => cases h
  case isFalse => cases h

/-- The updates up to the end of the stream. -/
def parseUpdates (b : Bytes) : Option (List Rect) :=
  if b = [] then some []
  else
    match _hnext : parseUpdate b with
    | none => none
    | some (r, rest) => (parseUpdates rest).map (r :: ·)
termination_by b.length
decreasing_by exact parseUpdate_shorter _hnext

/-- A whole stream. -/
def parseOutput (b : Bytes) : Option (Desktop × List Rect) :=
  match parseServerInit b with
  | none => none
  | some (desktop, rest) => (parseUpdates rest).map (desktop, ·)

/-! ### Messages and their bytes -/

section Messages
variable {w h : Int} {enc : BitVec 32} {data rest : Bytes} {f : Frame} {e : Event}
variable {log : List Event}

theorem uint16_lt (n : Int) : uint16 n < 256 ^ 2 := by
  rw [uint16]
  omega

theorem getUint_uint16 (n : Int) : getUint (putUint 2 (uint16 n)) = uint16 n :=
  getUint_putUint_of_lt (uint16_lt n)

theorem length_updateHeader (w h : Int) (enc : BitVec 32) :
    (updateHeader w h enc).length = 16 := by
  simp [updateHeader]

/-- A field of a message, found at its offset. -/
theorem slice_of_eq {b part : Bytes} {i j : Nat} (before after : Bytes)
    (h : b = before ++ (part ++ after)) (hi : before.length = i) (hj : i + part.length = j) :
    slice b i j = part := by
  rw [h]
  exact slice_append before part after hi hj

/-- The fields of an update stand where the client looks for them. -/
theorem parseUpdate_append (hdata : dataLength (uint16 w) (uint16 h) enc = some data.length) :
    parseUpdate (updateHeader w h enc ++ (data ++ rest)) =
      some (⟨uint16 w, uint16 h, enc, data⟩, rest) := by
  have hcount : slice (updateHeader w h enc ++ (data ++ rest)) 2 4 = putUint 2 1 :=
    slice_of_eq [0, 0]
      (putUint 2 0 ++ putUint 2 0 ++ putUint 2 (uint16 w) ++ putUint 2 (uint16 h) ++
        putUint 4 enc.toNat ++ data ++ rest) (by simp [updateHeader]) rfl rfl
  have hwidth : slice (updateHeader w h enc ++ (data ++ rest)) 8 10 = putUint 2 (uint16 w) :=
    slice_of_eq ([0, 0] ++ putUint 2 1 ++ putUint 2 0 ++ putUint 2 0)
      (putUint 2 (uint16 h) ++ putUint 4 enc.toNat ++ data ++ rest)
      (by simp [updateHeader]) rfl rfl
  have hheight : slice (updateHeader w h enc ++ (data ++ rest)) 10 12 = putUint 2 (uint16 h) :=
    slice_of_eq ([0, 0] ++ putUint 2 1 ++ putUint 2 0 ++ putUint 2 0 ++ putUint 2 (uint16 w))
      (putUint 4 enc.toNat ++ data ++ rest) (by simp [updateHeader]) rfl rfl
  have henc : slice (updateHeader w h enc ++ (data ++ rest)) 12 16 = putUint 4 enc.toNat :=
    slice_of_eq ([0, 0] ++ putUint 2 1 ++ putUint 2 0 ++ putUint 2 0 ++ putUint 2 (uint16 w) ++
      putUint 2 (uint16 h)) (data ++ rest) (by simp [updateHeader]) rfl rfl
  have hbits : BitVec.ofNat 32 (getUint (putUint 4 enc.toNat)) = enc := by
    rw [getUint_putUint_of_lt enc.isLt, BitVec.ofNat_toNat, BitVec.setWidth_eq]
  have hslice : slice (updateHeader w h enc ++ (data ++ rest)) 16 (16 + data.length) = data :=
    slice_append _ data rest (length_updateHeader w h enc) rfl
  have hdrop : (updateHeader w h enc ++ (data ++ rest)).drop (16 + data.length) = rest := by
    rw [← List.append_assoc]
    exact List.drop_left' (by rw [List.length_append, length_updateHeader])
  have hlength : (updateHeader w h enc ++ (data ++ rest)).length =
      16 + (data.length + rest.length) := by
    rw [List.length_append, length_updateHeader, List.length_append]
  have hguard : 16 ≤ (updateHeader w h enc ++ (data ++ rest)).length ∧
      (updateHeader w h enc ++ (data ++ rest))[0]? = some 0 ∧ getUint (putUint 2 1) = 1 :=
    ⟨by omega, rfl, rfl⟩
  rw [parseUpdate, hcount, if_pos hguard]
  simp only [hwidth, hheight, henc, hbits, getUint_uint16, hdata]
  rw [if_pos (by omega), hslice, hdrop]

theorem parseServerInit_append (w h : Int) {name : Bytes} (hname : name.length < 256 ^ 4)
    (rest : Bytes) :
    ∃ desktop, parseServerInit (writeServerInit w h name ++ rest) = some (desktop, rest) := by
  have hcount : slice (writeServerInit w h name ++ rest) 20 24 = putUint 4 name.length :=
    slice_of_eq (putUint 2 (uint16 w) ++ putUint 2 (uint16 h) ++ [32, 24, 0, 1] ++ putUint 2 255 ++
      putUint 2 255 ++ putUint 2 255 ++ [0, 8, 16, 0, 0, 0]) (name ++ rest)
      (by simp [writeServerInit]) rfl rfl
  have hlength : (writeServerInit w h name).length = 24 + name.length := by
    simp [writeServerInit]
    omega
  have hfits : 24 + name.length ≤ (writeServerInit w h name ++ rest).length := by
    rw [List.length_append]
    omega
  have hdrop : (writeServerInit w h name ++ rest).drop (24 + name.length) = rest :=
    List.drop_left' hlength
  rw [parseServerInit, hcount, getUint_putUint_of_lt hname]
  simp only [if_pos hfits, hdrop]
  exact ⟨_, rfl⟩

theorem dataLength_desktopSize (w h : Nat) : dataLength w h encDesktopSize = some 0 := rfl

theorem parseUpdates_of_update {b : Bytes} {r : Rect} (h : parseUpdate b = some (r, rest)) :
    parseUpdates b = (parseUpdates rest).map (r :: ·) := by
  have hne : b ≠ [] := by
    rintro rfl
    exact absurd (parseUpdate_shorter h) (Nat.not_lt_zero _)
  rw [parseUpdates, if_neg hne]
  split
  case h_1 hnone =>
    rw [h] at hnone
    cases hnone
  case h_2 r' rest' hsome =>
    rw [h] at hsome
    cases hsome
    rfl

/-- A frame that fits the fields of a header, with four bytes for each pixel. -/
structure Frame.WellSized (f : Frame) : Prop where
  width : 0 < f.W ∧ f.W < 65536
  height : 0 < f.H ∧ f.H < 65536
  pixels : (f.Pix.length : Int) = 4 * f.W * f.H

theorem uint16_of_lt {n : Int} (h0 : 0 < n) (h : n < 65536) : (uint16 n : Int) = n := by
  rw [uint16]
  omega

theorem Frame.WellSized.length (hf : f.WellSized) :
    f.Pix.length = 4 * uint16 f.W * uint16 f.H := by
  apply Int.ofNat.inj
  change (f.Pix.length : Int) = ((4 * uint16 f.W * uint16 f.H : Nat) : Int)
  rw [Int.natCast_mul, Int.natCast_mul, uint16_of_lt hf.width.1 hf.width.2,
    uint16_of_lt hf.height.1 hf.height.2, hf.pixels]
  rfl

/-- The rectangle a message carries. -/
def Event.rects : Event → List Rect
  | serverInit .. | advertised => []
  | desktopSize w h => [⟨uint16 w, uint16 h, encDesktopSize, []⟩]
  | raw f => [⟨uint16 f.W, uint16 f.H, encRaw, f.Pix⟩]

/-- Everything but the first message. -/
def Event.IsUpdate : Event → Prop
  | serverInit .. => False
  | desktopSize .. | raw _ | advertised => True

theorem Event.rects_wellFormed (he : e.Holds Frame.WellSized) :
    ∀ r ∈ e.rects, r.WellFormed := by
  cases e with
  | serverInit | advertised => simp [rects]
  | desktopSize w h =>
      rintro r hr
      obtain rfl := List.mem_singleton.mp hr
      exact .inl ⟨rfl, rfl⟩
  | raw f =>
      rintro r hr
      obtain rfl := List.mem_singleton.mp hr
      exact .inr ⟨rfl, he.length⟩

theorem parseUpdates_event (hupdate : e.IsUpdate) (he : e.Holds Frame.WellSized) (rest : Bytes) :
    parseUpdates (e.bytes ++ rest) = (parseUpdates rest).map (e.rects ++ ·) := by
  cases e with
  | serverInit => exact hupdate.elim
  | advertised => simp [Event.bytes, Event.rects]
  | desktopSize w h =>
      have hparse : parseUpdate (updateHeader w h encDesktopSize ++ ([] ++ rest)) =
          some (⟨uint16 w, uint16 h, encDesktopSize, []⟩, rest) :=
        parseUpdate_append (dataLength_desktopSize (uint16 w) (uint16 h))
      exact parseUpdates_of_update hparse
  | raw f =>
      have hbytes : (Event.raw f).bytes ++ rest =
          updateHeader f.W f.H encRaw ++ (f.Pix ++ rest) := by
        have hsize : ¬ (f.W = 0 ∨ f.H = 0) := by
          have hwidth := he.width
          have hheight := he.height
          omega
        rw [Event.bytes, writeFrame, if_neg hsize, List.append_assoc]
      rw [hbytes]
      apply parseUpdates_of_update
      apply parseUpdate_append
      rw [he.length]
      rfl

theorem parseUpdates_log (hupdates : ∀ e ∈ log, e.IsUpdate)
    (hlog : ∀ e ∈ log, e.Holds Frame.WellSized) :
    parseUpdates (log.flatMap Event.bytes) = some (log.flatMap Event.rects) := by
  induction log with
  | nil => simp [parseUpdates]
  | cons e log ih =>
      rw [List.forall_mem_cons] at hupdates hlog
      rw [List.flatMap_cons, List.flatMap_cons, parseUpdates_event hupdates.1 hlog.1,
        ih hupdates.2 hlog.2, Option.map_some]

/-- A log of a `ServerInit` and the updates behind it. -/
def Opens (log : List Event) : Prop :=
  ∃ w h updates, log = .serverInit w h :: updates ∧ ∀ e ∈ updates, e.IsUpdate

theorem opens_serverInit (w h : Int) : Opens [.serverInit w h] := ⟨w, h, [], rfl, by simp⟩

theorem Opens.append {more : List Event} (hlog : Opens log) (hmore : ∀ e ∈ more, e.IsUpdate) :
    Opens (log ++ more) := by
  obtain ⟨w, h, updates, rfl, hupdates⟩ := hlog
  exact ⟨w, h, updates ++ more, rfl, List.forall_mem_append.mpr ⟨hupdates, hmore⟩⟩

theorem Opens.snoc (hlog : Opens log) (he : e.IsUpdate) : Opens (log ++ [e]) :=
  hlog.append (by simpa using he)

/-- The stream of a log of well-sized frames parses as its messages. -/
theorem Opens.parseOutput (hopens : Opens log) (hlog : ∀ e ∈ log, e.Holds Frame.WellSized) :
    ∃ desktop, parseOutput (log.flatMap Event.bytes) = some (desktop, log.flatMap Event.rects) := by
  obtain ⟨w, h, updates, rfl, hupdates⟩ := hopens
  rw [List.forall_mem_cons] at hlog
  obtain ⟨desktop, hdesktop⟩ := parseServerInit_append w h
    (show desktopName.length < 256 ^ 4 by decide) (updates.flatMap Event.bytes)
  refine ⟨desktop, ?_⟩
  have hbytes : (Event.serverInit w h :: updates).flatMap Event.bytes =
      writeServerInit w h desktopName ++ updates.flatMap Event.bytes := rfl
  rw [hbytes, Rfb.parseOutput, hdesktop]
  change (parseUpdates (updates.flatMap Event.bytes)).map _ = _
  rw [parseUpdates_log hupdates hlog.2]
  rfl

end Messages

/-! ### The frames of the back ends -/

open Kvm (Backend)

/-- The size each bridge makes its frame source with. -/
def initialSize : Backend → Int × Int
  | .ami | .ilo => (1024, 768)
  | .amt => (800, 600)

/-- The frames a back end hands to `Update`: what `Decode` returns, the framebuffer of the DVC
decoder, and what the AMT client emits. -/
inductive Produced : Backend → Int → Int → Bytes → Prop
  | ami {d d' : Kvm.Codec.Decoder} {frame : Bytes} {f : Kvm.Codec.Decoder.Frame}
      (reachable : d.Reachable) (decoded : d.Decodes frame (.ok (d', .ok f))) :
      Produced .ami f.W f.H f.Pix
  | ilo {d : Ilo.Dvc.Decoder} {pix : Bytes} (shown : d.Shown)
      (converted : d.FB.ToRGBX = .ok pix) : Produced .ilo d.FB.Width d.FB.Height pix
  | amt {H : Amt.Redir.RfbHost} {c : Amt.Redir.RfbClient} {w h : Nat} {pix : Bytes}
      (painted : Amt.Redir.RfbClient.Painted H c) (emitted : c.Emits (w, h, pix)) :
      Produced .amt w h pix

theorem wellSized_of_nat {w h : Nat} {pix : Bytes} (haccepts : Accepts w h pix) (hw : w < 65536)
    (hh : h < 65536) (hpix : pix.length = 4 * w * h) : Frame.WellSized ⟨w, h, pix⟩ := by
  rw [Accepts, not_or, not_or] at haccepts
  obtain ⟨hw0, hh0, -⟩ := haccepts
  refine ⟨?_, ?_, ?_⟩
  · change 0 < (w : Int) ∧ (w : Int) < 65536
    omega
  · change 0 < (h : Int) ∧ (h : Int) < 65536
    omega
  · change (pix.length : Int) = 4 * (w : Int) * (h : Int)
    rw [hpix, Int.natCast_mul, Int.natCast_mul]
    rfl

/-- A frame of a back end that `Update` accepts fits its header. -/
theorem Produced.wellSized {b : Backend} {w h : Int} {pix : Bytes} (hframe : Produced b w h pix)
    (haccepts : Accepts w h pix) : Frame.WellSized ⟨w, h, pix⟩ := by
  cases hframe with
  | ami reachable decoded =>
      have hf := Kvm.Codec.Decoder.wellFormed_of_decodes reachable.valid decoded
      have hwidth := hf.width
      have hheight := hf.height
      exact wellSized_of_nat haccepts (by omega) (by omega) hf.pixels
  | ilo shown converted =>
      obtain ⟨hwidth, hheight, pix', hpix, hlength⟩ := shown.toRGBX
      obtain rfl : pix' = pix := Except.ok.inj (hpix.symm.trans converted)
      refine wellSized_of_nat haccepts hwidth hheight ?_
      rw [hlength, Nat.mul_comm, Nat.mul_assoc]
  | amt painted emitted =>
      obtain ⟨hwidth, hheight, hlength⟩ := painted.emits emitted
      refine wellSized_of_nat haccepts hwidth hheight ?_
      rw [hlength, Nat.mul_comm, Nat.mul_assoc]

theorem wellSized_initial (b : Backend) :
    (NewFrameSource (initialSize b).1 (initialSize b).2).frame.WellSized := by
  cases b with
  | ami | ilo | amt =>
      refine ⟨by decide, by decide, ?_⟩
      change ((List.replicate _ _).length : Int) = _
      rw [List.length_replicate]
      decide

/-! ### The stream of a session -/

namespace Session

variable {a : Act} {s s' : Session}

/-- The bytes behind the security phase. -/
def wire (s : Session) : Bytes := s.log.flatMap Event.bytes ++ s.torn

/-- The server stores the frames of one back end. -/
def FramesFrom (b : Backend) (a : Act) (_ : Session) : Prop :=
  ∀ w h pix, a = .store w h pix → Produced b w h pix

/-- What the server has written, phase by phase. Only a server that has returned may leave a part
of a message behind. -/
def Shape (s : Session) : Prop :=
  match s.phase with
  | .handshake => s.log = [] ∧ s.torn = []
  | .refused => s.log = [] ∧
      ∃ e : Event, Opens [e] ∧ e.Holds Frame.WellSized ∧ s.torn <+: e.bytes
  | .stopped => Opens s.log ∧ ∃ more : List Event,
      (∀ e ∈ more, e.IsUpdate ∧ e.Holds Frame.WellSized) ∧ s.torn <+: more.flatMap Event.bytes
  | _ => Opens s.log ∧ s.torn = []

theorem Shape.snoc {e : Event} (hs : Shape s) (hreading : s.Reading) (he : e.IsUpdate)
    (hphase : s'.phase = s.phase) (hlog : s'.log = s.log ++ [e]) (htorn : s'.torn = s.torn) :
    Shape s' := by
  rw [Shape] at hs ⊢
  rw [Reading] at hreading
  rw [hphase, hlog, htorn]
  generalize s.phase = phase at *
  cases phase with
  | handshake | refused | initialized => cases hreading
  | idle | waiting | reading | loaded | writing | stopped => exact ⟨hs.1.snoc he, hs.2⟩

theorem Shape.client (hs : Shape s) (hreading : s.Reading) (e : Effect) : Shape (s.client e) := by
  cases e with
  | desktopSizeOK => exact hs.snoc (e := .advertised) hreading trivial rfl rfl rfl
  | request incremental =>
      rw [Session.client, Session.request]
      split
      · exact hs
      · exact hs
  | keyEvent | pointerEvent | cutText => exact hs

/-- A message that does not get through leaves a part of itself behind. -/
theorem Shape.fail (hs : Shape s) (hsized : Holds Frame.WellSized s) (n : Nat)
    (hwrites : s.upcoming ≠ []) : Shape (s.fail n) := by
  have htake : (s.fail n).torn <+: s.upcoming.flatMap Event.bytes := List.take_prefix _ _
  rw [upcoming] at hwrites htake
  rw [Shape] at hs ⊢
  rw [show (s.fail n).phase = s.halted from rfl, halted]
  split at hwrites
  case h_1 hphase =>
    rw [hphase] at hs htake ⊢
    exact ⟨hs.1, .serverInit s.source.frame.W s.source.frame.H, opens_serverInit _ _,
      ⟨s.source.frame, hsized.source, rfl, rfl⟩, by simpa using htake⟩
  case h_2 f hphase =>
    rw [hphase] at hs htake ⊢
    refine ⟨hs.1, s.announcement f, ?_, htake⟩
    rw [announcement]
    split_ifs
    · intro e he
      obtain rfl := List.mem_singleton.mp he
      exact ⟨trivial, f, hsized.held f (.inl hphase), rfl, rfl⟩
    · simp
  case h_3 f hphase =>
    rw [hphase] at hs htake ⊢
    refine ⟨hs.1, [.raw f], ?_, htake⟩
    intro e he
    obtain rfl := List.mem_singleton.mp he
    exact ⟨trivial, hsized.held f (.inr hphase)⟩
  case h_4 => exact absurd rfl hwrites

theorem Shape.next (hs : Shape s) (hsized : Holds Frame.WellSized s) (hnext : Next s a s') :
    Shape s' := by
  cases hnext with
  | store w h pix =>
      rw [Session.store]
      split_ifs
      · exact hs
      · exact hs
  | signal => exact hs
  | client e hreading => exact hs.client hreading e
  | fail n hwrites => exact hs.fail hsized n hwrites
  | serverInit hphase =>
      rw [Shape, hphase] at hs
      refine ⟨?_, hs.2⟩
      change Opens (s.log ++ _)
      rw [hs.1]
      exact opens_serverInit _ _
  | take incremental hphase =>
      rw [Shape, hphase] at hs
      cases incremental <;> exact hs
  | start hphase | receive hphase | read hphase =>
      rw [Shape, hphase] at hs
      exact hs
  | announce f hphase =>
      rw [Shape, hphase] at hs
      refine ⟨?_, hs.2⟩
      change Opens (s.log ++ s.announcement f)
      rw [announcement]
      split_ifs
      · exact hs.1.snoc trivial
      · rw [List.append_nil]
        exact hs.1
  | write f hphase =>
      rw [Shape, hphase] at hs
      exact ⟨hs.1.snoc trivial, hs.2⟩
  | stop hphase =>
      rw [Shape] at hs ⊢
      rw [show s.stop.phase = s.halted from rfl, halted]
      rcases hphase with hphase | hphase | hphase
      · rw [hphase] at hs ⊢
        exact ⟨hs.1, .serverInit s.source.frame.W s.source.frame.H, opens_serverInit _ _,
          ⟨s.source.frame, hsized.source, rfl, rfl⟩, by simp [stop, hs.2]⟩
      · rw [hphase] at hs ⊢
        exact ⟨hs.1, [], by simp, by simp [stop, hs.2]⟩
      · rw [hphase] at hs ⊢
        exact ⟨hs.1, [], by simp, by simp [stop, hs.2]⟩

theorem Shape.opens (hs : Shape s) (hlog : s.log ≠ []) : Opens s.log := by
  rw [Shape] at hs
  generalize s.phase = phase at *
  cases phase with
  | handshake | refused => exact absurd hs.1 hlog
  | initialized | idle | waiting | reading | loaded | writing | stopped => exact hs.1

theorem Shape.torn (hs : Shape s) (htorn : s.torn ≠ []) :
    ∃ more : List Event, Opens (s.log ++ more) ∧ (∀ e ∈ more, e.Holds Frame.WellSized) ∧
      s.torn <+: more.flatMap Event.bytes := by
  rw [Shape] at hs
  generalize s.phase = phase at *
  cases phase with
  | handshake | initialized | idle | waiting | reading | loaded | writing =>
      exact absurd hs.2 htorn
  | refused =>
      obtain ⟨hlog, e, hopens, he, hprefix⟩ := hs
      refine ⟨[e], by simpa [hlog] using hopens, by simpa using he, by simpa using hprefix⟩
  | stopped =>
      obtain ⟨hopens, more, hmore, hprefix⟩ := hs
      exact ⟨more, hopens.append fun e he => (hmore e he).1, fun e he => (hmore e he).2, hprefix⟩

/-- The messages that make the stream whole; none are needed while `Serve` runs. -/
theorem Shape.completes (hs : Shape s) (hsized : Holds Frame.WellSized s) :
    ∃ more : List Event, Opens (s.log ++ more) ∧ (∀ e ∈ more, e.Holds Frame.WellSized) ∧
      s.torn <+: more.flatMap Event.bytes ∧ (s.torn = [] → s.log ≠ [] → more = []) := by
  by_cases htorn : s.torn = []
  · by_cases hlog : s.log = []
    · refine ⟨[.serverInit s.source.frame.W s.source.frame.H], ?_, ?_, ?_, ?_⟩
      · rw [hlog]
        exact opens_serverInit _ _
      · intro e he
        obtain rfl := List.mem_singleton.mp he
        exact ⟨s.source.frame, hsized.source, rfl, rfl⟩
      · rw [htorn]
        exact List.nil_prefix
      · exact fun _ hne => absurd hlog hne
    · refine ⟨[], ?_, by simp, ?_, fun _ _ => rfl⟩
      · rw [List.append_nil]
        exact hs.opens hlog
      · rw [htorn]
        exact List.nil_prefix
  · obtain ⟨more, hopens, hmore, hprefix⟩ := hs.torn htorn
    exact ⟨more, hopens, hmore, hprefix, fun hnil => absurd hnil htorn⟩

theorem shape_new (w h : Int) : Shape (new w h) := ⟨rfl, rfl⟩

theorem holds_and_shape_of_run {b : Backend}
    (hrun : Run (FramesFrom b) (initialSize b).1 (initialSize b).2 s) :
    Holds Frame.WellSized s ∧ Shape s := by
  have hsized : ∀ {s}, Run (FramesFrom b) (initialSize b).1 (initialSize b).2 s →
      Holds Frame.WellSized s := fun hrun =>
    holds_of_run (wellSized_initial b)
      (fun w h pix s hok haccepts => (hok w h pix rfl).wellSized haccepts) hrun
  refine ⟨hsized hrun, ?_⟩
  induction hrun with
  | init => exact shape_new _ _
  | step run _ taken ih => exact ih.next (hsized run) (next_of_step taken)

/-- What a client has received of a session with one of the three back ends is the beginning of a
well-formed stream, and a whole one when the server has written all its messages. -/
theorem output_parses {b : Backend}
    (hrun : Run (FramesFrom b) (initialSize b).1 (initialSize b).2 s) {sent : Bytes}
    (hsent : sent <+: s.wire) :
    ∃ rest desktop rects, parseOutput (sent ++ rest) = some (desktop, rects) ∧
      (∀ r ∈ rects, r.WellFormed) ∧
      (sent = s.wire → s.torn = [] → s.log ≠ [] → rest = []) := by
  obtain ⟨hsized, hshape⟩ := holds_and_shape_of_run hrun
  obtain ⟨more, hopens, hmore, ⟨missing, hmissing⟩, hwhole⟩ := hshape.completes hsized
  obtain ⟨unsent, hunsent⟩ := hsent
  have hevents : ∀ e ∈ s.log ++ more, e.Holds Frame.WellSized := by
    intro e he
    exact (List.mem_append.mp he).elim (hsized.logged e) (hmore e)
  obtain ⟨desktop, hdesktop⟩ := hopens.parseOutput hevents
  have hbytes : sent ++ (unsent ++ missing) = (s.log ++ more).flatMap Event.bytes := by
    rw [← List.append_assoc, hunsent, wire, List.append_assoc, hmissing, List.flatMap_append]
  refine ⟨unsent ++ missing, desktop, (s.log ++ more).flatMap Event.rects, ?_, ?_, ?_⟩
  · rw [hbytes, hdesktop]
  · intro r hr
    obtain ⟨e, he, hrect⟩ := List.mem_flatMap.mp hr
    exact Event.rects_wellFormed (hevents e he) r hrect
  · rintro rfl htorn hlog
    have hnone : unsent = [] := List.append_right_eq_self.mp hunsent
    have hcomplete : missing = [] := by
      rw [hwhole htorn hlog] at hmissing
      exact (List.append_eq_nil_iff.mp hmissing).2
    rw [hnone, hcomplete, List.append_nil]

/-- A session on a console of one pixel: the change of size and the frame. -/
def pixelActs : List Act :=
  [.serverInit, .start, .client .desktopSizeOK, .store 1 1 [0, 0, 0, 0xff],
    .client (.request false), .take, .read, .announce, .write]

theorem framesFrom_pixelActs (s : Session) (ha : a ∈ pixelActs) : FramesFrom .amt a s := by
  rintro w h pix rfl
  obtain ⟨rfl, rfl, rfl⟩ : w = 1 ∧ h = 1 ∧ pix = [0, 0, 0, 0xff] := by
    simpa [pixelActs] using ha
  exact .amt (H := ⟨fun _ => none, fun _ => none⟩) (.handshake {} 1 1) rfl

theorem output_parses_pixel : ∃ s, Run (FramesFrom .amt) 800 600 s ∧
    s.log = [.serverInit 800 600, .advertised, .desktopSize 1 1, .raw ⟨1, 1, [0, 0, 0, 0xff]⟩] ∧
    ∃ desktop rects, parseOutput s.wire = some (desktop, rects) ∧ ∀ r ∈ rects, r.WellFormed := by
  have htest : ((exec step (fun a _ => a ∈ pixelActs) pixelActs (new 800 600)).any fun s =>
      decide (s.torn = [] ∧ s.log = [.serverInit 800 600, .advertised, .desktopSize 1 1,
        .raw ⟨1, 1, [0, 0, 0, 0xff]⟩])) = true := by
    decide +kernel
  obtain ⟨s, hs, htorn, hlog⟩ := exists_reached_of_exec htest
  have hrun : Run (FramesFrom .amt) 800 600 s := hs.mono fun a s ha => framesFrom_pixelActs s ha
  obtain ⟨rest, desktop, rects, hparse, hrects, hrest⟩ := output_parses hrun List.prefix_rfl
  rw [hrest rfl htorn (by simp [hlog]), List.append_nil] at hparse
  exact ⟨s, hrun, hlog, desktop, rects, hparse, hrects⟩

end Session

end Outband.Rfb
