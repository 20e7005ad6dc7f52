import Outband.Hid.Sink
import Outband.Kvm.Reassembly

/-!
# The order of the keyboard reports

Building a report and writing it are two steps, so that another goroutine may
write a later report in between. The reports of an AMI paste show no state of
the sink: its key up releases whatever the user holds, and a paste that is
cancelled behind a key down leaves the key down. `InOrder` excludes both, and a
sequence counter that has wrapped around.
-/

namespace Outband.Hid

open Foundation
open Kvm.Ivtp (Bytes getLE putLE)

/-! ### What a report shows -/

theorem Held.usb_eq (h : Held) :
    h.usb = h.mods :: 0 :: (h.pressed ++ List.replicate (6 - h.pressed.length) 0) := by
  rw [usb, usbReport, List.take_of_length_le h.room]
  rfl

theorem usbOf_report (dev : Device) (seq : BitVec 32) (h : Held) :
    dev.usbOf (dev.report seq h) = h.usb := by
  cases dev with
  | ami => rfl
  | ilo => rfl

theorem seqOf_report (seq : BitVec 32) (h : Held) : seqOf (Device.ami.report seq h) = seq := by
  change getLE 32 (putLE 4 seq) = seq
  exact Kvm.Ivtp.getLE_putLE_four seq

theorem KeyEvent_report (h : Held) (keysym : BitVec 32) (down : Bool) :
    (KeyEvent h keysym down = ⟨h, none⟩) ∨
      (KeyEvent h keysym down).report = some (KeyEvent h keysym down).held := by
  rw [KeyEvent]
  split
  · exact .inr rfl
  · exact .inl rfl

/-- The paste is behind the key down of a character. -/
def Paste.IsPressed : Paste → Prop
  | pressed .. => True
  | typing _ | released _ | finished => False

instance : DecidablePred Paste.IsPressed
  | .pressed .. => inferInstanceAs (Decidable True)
  | .typing _ | .released _ | .finished => inferInstanceAs (Decidable False)

/-- What a section of a paste reports: nothing and no change, the new state, the key down of an
AMI paste, or its key up. -/
inductive Reports (dev : Device) (h : Held) (p p' : Paste) (st : Stroke) : Prop
  | nothing (same : st = ⟨h, none⟩) (typing : dev = .ami → ¬ p.IsPressed)
  | state (shown : st.report = some st.held)
  | down (ami : dev = .ami) (pressed : p'.IsPressed)
  | up (ami : dev = .ami) (pressed : p.IsPressed) (same : st = ⟨h, some {}⟩)

theorem reports_keyEvent {dev : Device} {h : Held} {p p' : Paste} {keysym : BitVec 32}
    {down : Bool} (hilo : dev ≠ .ami) : Reports dev h p p' (KeyEvent h keysym down) := by
  rcases KeyEvent_report h keysym down with hsame | hshown
  · exact .nothing hsame fun hami => absurd hami hilo
  · exact .state hshown

theorem reports_resume {dev : Device} {h : Held} {p p' : Paste} {st : Stroke}
    (hresume : dev.resume h p = some (p', st)) : Reports dev h p p' st := by
  cases p with
  | typing runes =>
      cases runes with
      | nil =>
          cases hresume
          exact .nothing rfl fun _ => id
      | cons r rest =>
          rw [Device.resume] at hresume
          split at hresume
          case h_1 st' hpress =>
            cases hresume
            cases dev with
            | ami => exact .down rfl trivial
            | ilo =>
                rw [Device.press] at hpress
                split_ifs at hpress
                cases hpress
                exact reports_keyEvent (by decide)
          case h_2 =>
            cases hresume
            exact .nothing rfl fun _ => id
  | pressed r rest =>
      cases hresume
      cases dev with
      | ami => exact .up rfl trivial rfl
      | ilo => exact reports_keyEvent (by decide)
  | released rest =>
      cases hresume
      exact .nothing rfl fun _ => id
  | finished => cases hresume

namespace HIDSink

variable {dev : Device} {a : Act} {s s' : HIDSink} {g : Goroutine} {st : Stroke} {i j : Nat}

/-! ### The condition on a step -/

/-- The sequence counter stands above the numbers of the reports built so far. -/
def Fresh (dev : Device) (s : HIDSink) : Prop :=
  dev = .ami → ∀ p ∈ s.out.posted, seqOf p.item < s.hidSeq

instance (dev : Device) (s : HIDSink) : Decidable (Fresh dev s) :=
  inferInstanceAs (Decidable (_ → _))

/-- Paste `i` is behind the key down of a character. -/
def Pressing (s : HIDSink) (i : Nat) : Prop := ∃ p ∈ s.pastes[i]?, p.IsPressed

instance (s : HIDSink) (i : Nat) : Decidable (s.Pressing i) :=
  inferInstanceAs (Decidable (∃ p ∈ s.pastes[i]?, p.IsPressed))

/-- The report built last shows what the sink holds. -/
def Shown (dev : Device) (s : HIDSink) : Prop := seen dev s.out.posted = s.held.usb

instance (dev : Device) (s : HIDSink) : Decidable (Shown dev s) :=
  inferInstanceAs (Decidable (_ = _))

/-- The oldest report is written first. On the AMI sink a report is built with a fresh number, the
key up of a paste while the sink holds nothing, and no paste is cancelled behind a key down that
the last report shows. -/
def InOrder (dev : Device) : Act → HIDSink → Prop
  | .send g, s => s.out.front = some g
  | .keyEvent keysym down, s => (KeyEvent s.held keysym down).report ≠ none → Fresh dev s
  | .resume i, s =>
      (∀ r ∈ s.pastes[i]?.bind (dev.resume s.held), r.2.report ≠ none → Fresh dev s) ∧
        (dev = .ami → s.Pressing i → s.held.usb = released)
  | .cancel i, s => dev = .ami → s.Pressing i → Shown dev s
  | .cutText _, _ | .draw, _ | .endSession, _ => True

instance (dev : Device) : (a : Act) → (s : HIDSink) → Decidable (InOrder dev a s)
  | .send _, _ => inferInstanceAs (Decidable (_ = _))
  | .keyEvent _ _, _ => inferInstanceAs (Decidable (_ → _))
  | .resume i, s => inferInstanceAs (Decidable
      ((∀ r ∈ s.pastes[i]?.bind (dev.resume s.held), r.2.report ≠ none → Fresh dev s) ∧ _))
  | .cancel _, _ => inferInstanceAs (Decidable (_ → _))
  | .cutText _, _ | .draw, _ | .endSession, _ => inferInstanceAs (Decidable True)

/-! ### What the steps keep -/

/-- The last report shows the sink, or a paste has still to release its key. -/
structure Orderly (dev : Device) (s : HIDSink) : Prop where
  fifo : s.out.Fifo
  rising : dev = .ami → s.out.posted.Pairwise fun p q => seqOf p.item < seqOf q.item
  shown : Shown dev s ∨ (dev = .ami ∧ ∃ i, s.Pressing i)

theorem seen_snoc (reports : List (Posting Bytes)) (n : Nat) (seq : BitVec 32) (h : Held) :
    seen dev (reports ++ [⟨n, dev.report seq h⟩]) = h.usb := by
  simp [seen, usbOf_report]

theorem stroke_none (hst : st.report = none) :
    s.stroke dev g st = { s with held := st.held } := by
  rw [stroke, hst]

theorem stroke_some {h : Held} (hst : st.report = some h) :
    s.stroke dev g st = { s with
      held := st.held
      hidSeq := s.hidSeq + 1
      out := s.out.post g (dev.report s.hidSeq h) } := by
  rw [stroke, hst]

@[simp] theorem stroke_pastes : (s.stroke dev g st).pastes = s.pastes := by
  rw [stroke]
  split <;> rfl

@[simp] theorem stroke_held : (s.stroke dev g st).held = st.held := by
  rw [stroke]
  split <;> rfl

theorem seen_stroke {h : Held} (hst : st.report = some h) :
    seen dev (s.stroke dev g st).out.posted = h.usb := by
  rw [stroke_some hst]
  exact seen_snoc _ _ _ _

/-- A report takes its place behind the others. -/
theorem Orderly.stroke (hs : Orderly dev s) (hfresh : st.report ≠ none → Fresh dev s) :
    (s.stroke dev g st).out.Fifo ∧ (dev = .ami →
      (s.stroke dev g st).out.posted.Pairwise fun p q => seqOf p.item < seqOf q.item) := by
  cases hreport : st.report with
  | none =>
      rw [stroke_none hreport]
      exact ⟨hs.fifo, hs.rising⟩
  | some h =>
      rw [stroke_some hreport]
      refine ⟨hs.fifo.post _ _, ?_⟩
      rintro rfl
      refine List.pairwise_append.mpr ⟨hs.rising rfl, List.pairwise_singleton _ _, ?_⟩
      intro p hp q hq
      obtain rfl := List.mem_singleton.mp hq
      rw [seqOf_report]
      exact hfresh (by simp [hreport]) rfl p hp

theorem pressing_goOn_of_ne (hne : j ≠ i) (p : Paste) (hj : s.Pressing j) :
    (s.goOn i p).Pressing j := by
  obtain ⟨q, hq, hpressed⟩ := hj
  exact ⟨q, by rwa [goOn, List.getElem?_set_ne hne.symm], hpressed⟩

theorem pressing_goOn {p q : Paste} (hi : s.pastes[i]? = some q) (hp : p.IsPressed) :
    (s.goOn i p).Pressing i := by
  obtain ⟨hlt, -⟩ := List.getElem?_eq_some_iff.mp hi
  exact ⟨p, by simp [goOn, hlt], hp⟩

/-- A key of the reader. -/
theorem Orderly.keyEvent (hs : Orderly dev s) (keysym : BitVec 32) (down : Bool)
    (hok : InOrder dev (.keyEvent keysym down) s) :
    Orderly dev (s.stroke dev g (KeyEvent s.held keysym down)) := by
  obtain ⟨hfifo, hrising⟩ := hs.stroke (g := g) hok
  refine ⟨hfifo, hrising, ?_⟩
  rcases KeyEvent_report s.held keysym down with hsame | hshown
  · rw [hsame]
    exact hs.shown
  · left
    rw [Shown, seen_stroke hshown, stroke_held]

/-- The next section of a paste. -/
theorem Orderly.resume {p p' : Paste} (hs : Orderly dev s) (hi : s.pastes[i]? = some p)
    (hresume : dev.resume s.held p = some (p', st)) (hok : InOrder dev (.resume i) s) :
    Orderly dev ((s.stroke dev g st).goOn i p') := by
  obtain ⟨hfresh, hup⟩ := hok
  obtain ⟨hfifo, hrising⟩ := hs.stroke (g := g) (hfresh (p', st) (by simp [hi, hresume]))
  refine ⟨hfifo, hrising, ?_⟩
  have hi' : (s.stroke dev g st).pastes[i]? = some p := by rwa [stroke_pastes]
  rcases reports_resume hresume with ⟨rfl, htyping⟩ | hshown | ⟨hami, hpressed⟩ |
    ⟨hami, hpressed, rfl⟩
  · refine hs.shown.imp_right ?_
    rintro ⟨hami, j, hj⟩
    refine ⟨hami, j, pressing_goOn_of_ne ?_ p' hj⟩
    rintro rfl
    obtain ⟨q, hq, hpressed⟩ := hj
    rw [hi] at hq
    cases hq
    exact htyping hami hpressed
  · left
    change seen dev (s.stroke dev g st).out.posted = (s.stroke dev g st).held.usb
    rw [seen_stroke hshown, stroke_held]
  · exact .inr ⟨hami, i, pressing_goOn hi' hpressed⟩
  · left
    change seen dev (s.stroke dev g _).out.posted = (s.stroke dev g _).held.usb
    rw [seen_stroke rfl, stroke_held]
    exact (hup hami ⟨p, hi, hpressed⟩).symm

theorem Orderly.cancel (hs : Orderly dev s) (hok : InOrder dev (.cancel i) s) :
    Orderly dev (s.goOn i .finished) := by
  refine ⟨hs.fifo, hs.rising, ?_⟩
  rcases hs.shown with hshown | ⟨hami, j, hj⟩
  · exact .inl hshown
  · by_cases hij : j = i
    · subst hij
      exact .inl (hok hami hj)
    · exact .inr ⟨hami, j, pressing_goOn_of_ne hij _ hj⟩

theorem Orderly.next (hs : Orderly dev s) (hok : InOrder dev a s)
    (hstep : step dev a s = some s') : Orderly dev s' := by
  cases a with
  | keyEvent keysym down =>
      rw [step] at hstep
      split_ifs at hstep
      cases hstep
      exact hs.keyEvent keysym down hok
  | cutText runes =>
      rw [step] at hstep
      split_ifs at hstep
      cases hstep
      refine ⟨hs.fifo, hs.rising, hs.shown.imp_right ?_⟩
      rintro ⟨hami, j, p, hp, hpressed⟩
      have hlt : j < s.pastes.length := (List.getElem?_eq_some_iff.mp hp).1
      exact ⟨hami, j, p, by rwa [List.getElem?_append_left hlt], hpressed⟩
  | resume i =>
      rw [step] at hstep
      split_ifs at hstep
      split at hstep
      case h_1 p' st hresume =>
        cases hstep
        obtain ⟨p, hi, hp⟩ := Option.bind_eq_some_iff.mp hresume
        exact hs.resume hi hp hok
      case h_2 => cases hstep
  | cancel i =>
      rw [step] at hstep
      split_ifs at hstep
      cases hstep
      exact hs.cancel hok
  | send g =>
      rw [step, Option.map_eq_some_iff] at hstep
      obtain ⟨out, hout, rfl⟩ := hstep
      obtain ⟨hfifo, hposted⟩ := hs.fifo.deliver hok hout
      refine ⟨hfifo, ?_, ?_⟩
      · change dev = .ami → out.posted.Pairwise _
        rw [hposted]
        exact hs.rising
      · change seen dev out.posted = _ ∨ _
        rw [hposted]
        exact hs.shown
  | draw | endSession =>
      cases hstep
      exact ⟨hs.fifo, hs.rising, hs.shown⟩

theorem orderly_of_run (hrun : Run dev (InOrder dev) s) : Orderly dev s := by
  obtain ⟨seq, hreached⟩ := hrun
  refine hreached.invariant (I := Orderly dev) ⟨Outbox.fifo_empty, ?_, ?_⟩ fun _ _ _ hs hok hstep =>
    hs.next hok hstep
  · exact fun _ => List.Pairwise.nil
  · exact .inl rfl

/-! ### The reports on the wire -/

/-- The reports are written in the order in which they were built, the AMI ones with rising
numbers, and the BMC has seen what the sink holds once all goroutines are through. -/
structure Faithful (dev : Device) (s : HIDSink) : Prop where
  ordered : s.out.delivered.Pairwise fun p q => p.no < q.no
  rising : dev = .ami → s.out.delivered.Pairwise fun p q => seqOf p.item < seqOf q.item
  settled : s.Quiet → seen dev s.out.delivered =
    s.held.mods :: 0 :: (s.held.pressed ++ List.replicate (6 - s.held.pressed.length) 0)

theorem reports_in_order (hrun : Run dev (InOrder dev) s) : Faithful dev s := by
  have hs := orderly_of_run hrun
  refine ⟨hs.fifo.ordered, fun hami => hs.fifo.pairwise (hs.rising hami), ?_⟩
  rintro ⟨hpending, hfinished⟩
  rw [hs.fifo.delivered_eq hpending, ← Held.usb_eq]
  rcases hs.shown with hshown | ⟨-, i, p, hp, hpressed⟩
  · exact hshown
  · have hmem : p ∈ s.pastes := List.mem_of_getElem? hp
    rw [hfinished p hmem] at hpressed
    exact hpressed.elim

/-- A key of the user and a pasted capital letter on the AMI sink. -/
theorem reports_in_order_paste : ∃ s, Run .ami (InOrder .ami) s ∧ s.Quiet ∧
    s.out.delivered.length = 4 ∧ Faithful .ami s := by
  have htest : ((exec (step .ami) (InOrder .ami) [.keyEvent 0x61 true, .send .reader,
      .keyEvent 0x61 false, .send .reader, .cutText [0x42], .resume 0, .send (.paste 0), .resume 0,
      .send (.paste 0), .resume 0, .resume 0] { hidSeq := 0 }).any fun s =>
      decide (s.Quiet ∧ s.out.delivered.length = 4)) = true := by
    decide +kernel
  obtain ⟨s, hs, hquiet, hlength⟩ := exists_reached_of_exec htest
  have hrun : Run .ami (InOrder .ami) s := ⟨0, hs⟩
  exact ⟨s, hrun, hquiet, hlength, reports_in_order hrun⟩

/-- The paste writes its report before the reader writes an older one. -/
theorem exists_overtaken (dev : Device) : ∃ s, Run dev (fun _ _ => True) s ∧
    ¬ s.out.delivered.Pairwise fun p q => p.no < q.no := by
  have htest : ((exec (step dev) (fun _ _ => True) [.cutText [0x61], .keyEvent 0xffe1 true,
      .resume 0, .send (.paste 0), .send .reader] { hidSeq := 0 }).any fun s =>
      decide (¬ s.out.delivered.Pairwise fun p q => p.no < q.no)) = true := by
    cases dev <;> decide +kernel
  obtain ⟨s, hs, horder⟩ := exists_reached_of_exec htest
  exact ⟨s, ⟨0, hs⟩, horder⟩

theorem reports_overtaken :
    (¬ ∀ s, Run .ami (fun _ _ => True) s → Faithful .ami s) ∧
      ¬ ∀ s, Run .ilo (fun _ _ => True) s → Faithful .ilo s := by
  have hovertaken (dev : Device) : ¬ ∀ s, Run dev (fun _ _ => True) s → Faithful dev s := by
    intro hall
    obtain ⟨s, hrun, horder⟩ := exists_overtaken dev
    exact horder (hall s hrun).ordered
  exact ⟨hovertaken .ami, hovertaken .ilo⟩

/-- The key up of an AMI paste releases the Shift key that the sink holds. -/
theorem exists_released : ∃ s, Run .ami (fun _ _ => True) s ∧ s.Quiet ∧
    s.held.mods = modLeftShift ∧ seen .ami s.out.delivered = released := by
  have htest : ((exec (step .ami) (fun _ _ => True) [.cutText [0x61], .keyEvent 0xffe1 true,
      .send .reader, .resume 0, .send (.paste 0), .resume 0, .send (.paste 0), .resume 0,
      .resume 0] { hidSeq := 0 }).any fun s => decide (s.Quiet ∧ s.held.mods = modLeftShift ∧
        seen .ami s.out.delivered = released)) = true := by
    decide +kernel
  obtain ⟨s, hs, hlast⟩ := exists_reached_of_exec htest
  exact ⟨s, ⟨0, hs⟩, hlast⟩

end HIDSink

end Outband.Hid
