import Outband.Hid.HeldKeys

/-!
# What a paste types

A keyboard with the US layout reads the reports of a pasted text. Both sinks type
a character as a key down and a key up that releases everything. The AMI paste
holds Shift for a character that needs it. The iLO paste sends the key of the
character alone, so that such a character comes out unshifted, and it has no key
for a tab or a newline, whose code points are no keysyms of these keys.
-/

namespace Outband.Hid

open Foundation
open Kvm.Ivtp (Bytes)

/-! ### A keyboard with the US layout -/

/-- The plain and the shifted character of a key. -/
def usLayout : List (BitVec 8 × Nat × Nat) :=
  ((List.range 26).map fun i => (BitVec.ofNat 8 (0x04 + i), 0x61 + i, 0x41 + i)) ++
    [(0x1e, 0x31, 0x21), (0x1f, 0x32, 0x40), (0x20, 0x33, 0x23), (0x21, 0x34, 0x24),
      (0x22, 0x35, 0x25), (0x23, 0x36, 0x5e), (0x24, 0x37, 0x26), (0x25, 0x38, 0x2a),
      (0x26, 0x39, 0x28), (0x27, 0x30, 0x29), (0x28, 0x0a, 0x0a), (0x2b, 0x09, 0x09),
      (0x2c, 0x20, 0x20), (0x2d, 0x2d, 0x5f), (0x2e, 0x3d, 0x2b), (0x2f, 0x5b, 0x7b),
      (0x30, 0x5d, 0x7d), (0x31, 0x5c, 0x7c), (0x33, 0x3b, 0x3a), (0x34, 0x27, 0x22),
      (0x35, 0x60, 0x7e), (0x36, 0x2c, 0x3c), (0x37, 0x2e, 0x3e), (0x38, 0x2f, 0x3f)]

/-- The character a key types, shifted when either Shift bit is set. -/
def character (modifiers usage : BitVec 8) : Option Nat :=
  (usLayout.lookup usage).map fun c =>
    if modifiers &&& (modLeftShift ||| modRightShift) ≠ 0 then c.2 else c.1

/-- The keys a report shows down that the report before it does not. -/
def keyDowns (last report : Bytes) : List (BitVec 8) :=
  (report.drop 2).filter fun usage => usage ≠ 0 ∧ usage ∉ last.drop 2

/-- A keyboard that has read some reports: the last of them, whether nothing has been down since
a report that releases all, the text it has typed, and whether there was such a report between
any two key downs. -/
structure Keyboard where
  last : Bytes := released
  free : Bool := true
  text : List Nat := []
  apart : Bool := true
  deriving DecidableEq

def Keyboard.read (k : Keyboard) (report : Bytes) : Keyboard :=
  let downs := keyDowns k.last report
  { last := report
    free := decide (downs = []) && (k.free || decide (report = released))
    text := k.text ++ downs.filterMap (character (report[0]?.getD 0))
    apart := k.apart && (decide (downs = []) || (decide (downs.length = 1) && k.free)) }

/-- The reports type exactly the text, and all is released between any two key downs. -/
def TypesText (reports : List Bytes) (text : List Nat) : Prop :=
  (reports.foldl Keyboard.read {}).text = text ∧ (reports.foldl Keyboard.read {}).apart = true

/-- What is typed does not depend on what was typed before. -/
theorem Keyboard.read_frame (k : Keyboard) (t : List Nat) (a : Bool) (report : Bytes) :
    ({ k with text := t ++ k.text, apart := a && k.apart } : Keyboard).read report =
      { k.read report with
        text := t ++ (k.read report).text, apart := a && (k.read report).apart } := by
  simp [read, Bool.and_assoc]

theorem Keyboard.foldl_frame (k : Keyboard) (t : List Nat) (a : Bool) (reports : List Bytes) :
    reports.foldl read { k with text := t ++ k.text, apart := a && k.apart } =
      { reports.foldl read k with
        text := t ++ (reports.foldl read k).text
        apart := a && (reports.foldl read k).apart } := by
  induction reports generalizing k with
  | nil => rfl
  | cons report reports ih => rw [List.foldl_cons, read_frame, ih, List.foldl_cons]

/-! ### The reports of a paste -/

/-- The states in the reports of a pasted text. -/
def Device.strokes (dev : Device) (h : Held) : List Nat → List Held
  | [] => []
  | r :: rest =>
      match dev.press h r with
      | some st =>
          let up := dev.release st.held r
          st.report.toList ++ (up.report.toList ++ dev.strokes up.held rest)
      | none => dev.strokes h rest

/-- The states in the reports that a paste has still to make. -/
def Device.remaining (dev : Device) (h : Held) : Paste → List Held
  | .typing runes => dev.strokes h runes
  | .pressed r rest =>
      (dev.release h r).report.toList ++ dev.strokes (dev.release h r).held rest
  | .released rest => dev.strokes h rest
  | .finished => []

/-- A section makes the first of them. -/
theorem remaining_resume {dev : Device} {h : Held} {p p' : Paste} {st : Stroke}
    (hresume : dev.resume h p = some (p', st)) :
    dev.remaining h p = st.report.toList ++ dev.remaining st.held p' := by
  cases p with
  | typing runes =>
      cases runes with
      | nil =>
          cases hresume
          rfl
      | cons r rest =>
          rw [Device.resume] at hresume
          split at hresume
          case h_1 st' hpress =>
            cases hresume
            simp [Device.remaining, Device.strokes, hpress]
          case h_2 hpress =>
            cases hresume
            simp [Device.remaining, Device.strokes, hpress]
  | pressed r rest =>
      cases hresume
      rfl
  | released rest =>
      cases hresume
      rfl
  | finished => cases hresume

/-- The number of sections a paste has still to go through. -/
def Paste.sections : Paste → Nat
  | .typing runes => 3 * runes.length + 1
  | .pressed _ rest => 3 * rest.length + 3
  | .released rest => 3 * rest.length + 2
  | .finished => 0

theorem exists_resume (dev : Device) (h : Held) {p : Paste} (hp : p ≠ .finished) :
    ∃ p' st, dev.resume h p = some (p', st) ∧ p'.sections < p.sections := by
  cases p with
  | typing runes =>
      cases runes with
      | nil => exact ⟨_, _, rfl, by simp [Paste.sections]⟩
      | cons r rest =>
          cases hpress : dev.press h r with
          | some st => exact ⟨.pressed r rest, st, by simp [Device.resume, hpress], by
              simp [Paste.sections]
              omega⟩
          | none => exact ⟨.typing rest, ⟨h, none⟩, by simp [Device.resume, hpress], by
              simp [Paste.sections]⟩
  | pressed r rest => exact ⟨_, _, rfl, by simp [Paste.sections]⟩
  | released rest => exact ⟨_, _, rfl, by simp [Paste.sections]⟩
  | finished => exact absurd rfl hp

/-! ### Runs on one text -/

namespace HIDSink

variable {dev : Device} {text : List Nat} {s s' : HIDSink}

/-- One text is pasted; there is no other input, and the session goes on. -/
def PasteOnly (text : List Nat) : Act → HIDSink → Prop
  | .cutText runes, s => runes = text ∧ s.pastes = []
  | .resume _, _ | .send _, _ | .draw, _ => True
  | .keyEvent .., _ | .cancel _, _ | .endSession, _ => False

instance (text : List Nat) : (a : Act) → (s : HIDSink) → Decidable (PasteOnly text a s)
  | .cutText _, _ => inferInstanceAs (Decidable (_ ∧ _))
  | .resume _, _ | .send _, _ | .draw, _ => inferInstanceAs (Decidable True)
  | .keyEvent .., _ | .cancel _, _ | .endSession, _ => inferInstanceAs (Decidable False)

/-- The USB reports that have been written. -/
def written (dev : Device) (s : HIDSink) : List Bytes :=
  s.out.delivered.map fun p => dev.usbOf p.item

/-- The paste has made some of its reports and has still to make the others. -/
structure Pasting (dev : Device) (text : List Nat) (s : HIDSink) (p : Paste) : Prop where
  only : s.pastes = [p]
  fifo : s.out.Fifo
  own : ∀ e ∈ s.out.pending, e.1 = .paste 0
  single : s.out.pending.length ≤ 1
  reports : (s.out.posted.map fun p => dev.usbOf p.item) ++
    (dev.remaining s.held p).map Held.usb = (dev.strokes {} text).map Held.usb

/-- Before the text is pasted nothing has happened; from then on the paste goes on. -/
def Progresses (dev : Device) (text : List Nat) (s : HIDSink) : Prop :=
  (s.pastes = [] ∧ s.out = {} ∧ s.held = {}) ∨ ∃ p, Pasting dev text s p

theorem stroke_reports (dev : Device) (g : Goroutine) (st : Stroke) (s : HIDSink) :
    ((s.stroke dev g st).out.posted.map fun p => dev.usbOf p.item) =
      (s.out.posted.map fun p => dev.usbOf p.item) ++ (st.report.toList).map Held.usb := by
  cases hst : st.report with
  | none =>
      rw [stroke_none hst]
      simp
  | some h =>
      rw [stroke_some hst]
      simp [Outbox.post, usbOf_report]

/-- A section of the paste. -/
theorem Pasting.resume {p p' : Paste} {st : Stroke} (hs : Pasting dev text s p)
    (hidle : s.out.Idle (.paste 0)) (hresume : dev.resume s.held p = some (p', st)) :
    Pasting dev text ((s.stroke dev (.paste 0) st).goOn 0 p') p' := by
  have hpending : s.out.pending = [] := by
    rw [List.eq_nil_iff_forall_not_mem]
    exact fun e he => hidle e he (hs.own e he)
  have hout : (s.stroke dev (.paste 0) st).out.Fifo ∧
      (∀ e ∈ (s.stroke dev (.paste 0) st).out.pending, e.1 = .paste 0) ∧
      (s.stroke dev (.paste 0) st).out.pending.length ≤ 1 := by
    cases hst : st.report with
    | none =>
        rw [stroke_none hst]
        exact ⟨hs.fifo, hs.own, hs.single⟩
    | some h =>
        rw [stroke_some hst]
        refine ⟨hs.fifo.post _ _, ?_, ?_⟩
        · simp [Outbox.post, hpending]
        · simp [Outbox.post, hpending]
  refine ⟨?_, hout.1, hout.2.1, hout.2.2, ?_⟩
  · rw [goOn, stroke_pastes, hs.only]
    rfl
  · change ((s.stroke dev (.paste 0) st).out.posted.map _) ++
      (dev.remaining (s.stroke dev (.paste 0) st).held p').map _ = _
    rw [stroke_reports, stroke_held, ← hs.reports, remaining_resume hresume]
    simp

theorem Progresses.next {a : Act} (hs : Progresses dev text s) (hok : PasteOnly text a s)
    (hstep : step dev a s = some s') : Progresses dev text s' := by
  cases a with
  | keyEvent keysym down => exact hok.elim
  | cancel i => exact hok.elim
  | endSession => exact hok.elim
  | cutText runes =>
      obtain ⟨rfl, hnone⟩ := hok
      rw [step] at hstep
      split_ifs at hstep
      cases hstep
      rcases hs with ⟨-, hout, hheld⟩ | ⟨p, hp⟩
      · refine .inr ⟨.typing runes, ?_, ?_, ?_, ?_, ?_⟩
        · simp [hnone]
        all_goals simp [hout, hheld, Outbox.fifo_empty, Device.remaining]
      · rw [hp.only] at hnone
        cases hnone
  | resume i =>
      rw [step] at hstep
      split_ifs at hstep with hidle
      split at hstep
      case h_1 p' st hresume =>
        cases hstep
        obtain ⟨q, hi, hq⟩ := Option.bind_eq_some_iff.mp hresume
        rcases hs with ⟨hnone, -⟩ | ⟨p, hp⟩
        · simp [hnone] at hi
        · rw [hp.only, List.getElem?_eq_some_iff] at hi
          obtain ⟨hlt, rfl⟩ := hi
          obtain rfl : i = 0 := Nat.lt_one_iff.mp hlt
          exact .inr ⟨p', hp.resume hidle hq⟩
      case h_2 => cases hstep
  | send g =>
      rw [step, Option.map_eq_some_iff] at hstep
      obtain ⟨out, hout, rfl⟩ := hstep
      rcases hs with ⟨-, hempty, -⟩ | ⟨p, hp⟩
      · rw [hempty] at hout
        cases hout
      · obtain ⟨hfront, hnone⟩ := Outbox.deliver_single hp.single hout
        obtain ⟨hfifo, hposted⟩ := hp.fifo.deliver hfront hout
        refine .inr ⟨p, hp.only, hfifo, ?_, ?_, ?_⟩
        · simp [hnone]
        · simp [hnone]
        · change (out.posted.map _) ++ _ = _
          rw [hposted]
          exact hp.reports
  | draw =>
      cases hstep
      rcases hs with h | ⟨p, hp⟩
      · exact .inl h
      · exact .inr ⟨p, hp.only, hp.fifo, hp.own, hp.single, hp.reports⟩

theorem progresses_of_run (hrun : Run dev (PasteOnly text) s) : Progresses dev text s := by
  obtain ⟨seq, hreached⟩ := hrun
  exact hreached.invariant (I := Progresses dev text) (.inl ⟨rfl, rfl, rfl⟩)
    fun _ _ _ hs hok hstep =>
    hs.next hok hstep

/-- When the paste is through, it has written all its reports. -/
theorem written_of_quiet (hrun : Run dev (PasteOnly text) s) (hquiet : s.Quiet)
    (hpasted : s.pastes ≠ []) : s.written dev = (dev.strokes {} text).map Held.usb := by
  obtain ⟨hpending, hfinished⟩ := hquiet
  rcases progresses_of_run hrun with ⟨hnone, -⟩ | ⟨p, hp⟩
  · exact absurd hnone hpasted
  · have hdone : p = .finished := hfinished p (by simp [hp.only])
    have hreports := hp.reports
    rw [hdone, Device.remaining, List.map_nil, List.append_nil] at hreports
    rw [written, hp.fifo.delivered_eq hpending, hreports]

/-- The report of a section is written. -/
theorem exists_sent {st : Stroke} (hpending : s.out.pending = []) (i : Nat) (p : Paste) :
    ∃ s', Reached (step dev) (PasteOnly text) ((s.stroke dev (.paste 0) st).goOn i p) s' ∧
      s'.pastes = s.pastes.set i p ∧ s'.out.pending = [] := by
  cases hst : st.report with
  | none =>
      rw [stroke_none hst]
      exact ⟨_, .init, rfl, hpending⟩
  | some h =>
      rw [stroke_some hst]
      obtain ⟨out, hdeliver, hnone⟩ := Outbox.exists_deliver_post hpending
        (Goroutine.paste 0) (dev.report s.hidSeq h)
      refine ⟨goOn i p { s with held := st.held, hidSeq := s.hidSeq + 1, out }, ?_, rfl, hnone⟩
      refine .step .init (a := .send (.paste 0)) trivial ?_
      rw [step]
      change Option.map _ ((s.out.post (.paste 0) (dev.report s.hidSeq h)).deliver (.paste 0)) = _
      rw [hdeliver]
      rfl

/-- A paste that is left alone comes to its end. -/
theorem exists_quiet_from {p : Paste} (honly : s.pastes = [p]) (hpending : s.out.pending = []) :
    ∃ s', Reached (step dev) (PasteOnly text) s s' ∧ s'.Quiet ∧ s'.pastes ≠ [] := by
  induction hn : p.sections using Nat.strong_induction_on generalizing s p with
  | _ n ih =>
      by_cases hp : p = .finished
      · exact ⟨s, .init, ⟨hpending, by simp [honly, hp]⟩, by simp [honly]⟩
      · obtain ⟨p', st, hresume, hlt⟩ := exists_resume dev s.held hp
        have hidle : s.out.Idle (.paste 0) := by simp [Outbox.Idle, hpending]
        have hstep : step dev (.resume 0) s =
            some ((s.stroke dev (.paste 0) st).goOn 0 p') := by
          rw [step, if_pos hidle, honly]
          simp [hresume]
        obtain ⟨s₁, hsent, honly₁, hpending₁⟩ : ∃ s₁, Reached (step dev) (PasteOnly text)
            ((s.stroke dev (.paste 0) st).goOn 0 p') s₁ ∧ s₁.pastes = s.pastes.set 0 p' ∧
              s₁.out.pending = [] := exists_sent hpending 0 p'
        rw [honly] at honly₁
        obtain ⟨s₂, hrest, hquiet⟩ := ih p'.sections (hn ▸ hlt) honly₁ hpending₁ rfl
        exact ⟨s₂, ((Reached.step .init trivial hstep).trans hsent).trans hrest, hquiet⟩

theorem exists_quiet (dev : Device) (text : List Nat) :
    ∃ s, Run dev (PasteOnly text) s ∧ s.Quiet ∧ s.pastes ≠ [] := by
  have hstart : Reached (step dev) (PasteOnly text) { hidSeq := 0 }
      { hidSeq := 0, pastes := [.typing text] } :=
    .step .init (show PasteOnly text (.cutText text) _ from ⟨rfl, rfl⟩) rfl
  obtain ⟨s, hreached, hquiet⟩ : ∃ s, Reached (step dev) (PasteOnly text)
      { hidSeq := 0, pastes := [.typing text] } s ∧ s.Quiet ∧ s.pastes ≠ [] :=
    exists_quiet_from rfl rfl
  exact ⟨s, ⟨0, hstart.trans hreached⟩, hquiet⟩

end HIDSink

/-! ### Characters -/

/-- Printable ASCII, tab and newline. -/
def Typeable (r : Nat) : Prop := r = 0x09 ∨ r = 0x0a ∨ (0x20 ≤ r ∧ r ≤ 0x7e)

instance : DecidablePred Typeable := fun _ => inferInstanceAs (Decidable (_ ∨ _))

/-- The characters typed with Shift. -/
def NeedsShift (r : Nat) : Prop := (0x41 ≤ r ∧ r ≤ 0x5a) ∨ r ∈ shiftedASCII

instance : DecidablePred NeedsShift := fun _ => inferInstanceAs (Decidable (_ ∨ _))

/-- The states in the reports of one character, typed while nothing is held. -/
def Device.taps (dev : Device) (r : Nat) : List Held := dev.strokes {} [r]

/-- The text that the reports of one character type. -/
def Device.typed (dev : Device) (r : Nat) : List Nat :=
  (((dev.taps r).map Held.usb).foldl Keyboard.read {}).text

theorem typed_ami : ∀ r < 0x7f, Typeable r → Device.ami.typed r = [r] := by decide +kernel

theorem typed_ilo : ∀ r < 0x7f, Typeable r → (Device.ilo.typed r).length ≤ 1 ∧
    (Device.ilo.typed r = [r] ↔ ¬NeedsShift r ∧ r ≠ 0x09 ∧ r ≠ 0x0a) := by decide +kernel

/-- The sink holds nothing after a character. -/
theorem release_press : ∀ dev : Device, ∀ r < 0x7f, Typeable r →
    ∀ st ∈ dev.press {} r, (dev.release st.held r).held = {} := by
  intro dev
  cases dev <;> decide +kernel

/-- Neither does the keyboard. -/
theorem read_taps : ∀ dev : Device, ∀ r < 0x7f, Typeable r →
    ((dev.taps r).map Held.usb).foldl Keyboard.read {} = { text := dev.typed r } := by
  intro dev
  cases dev <;> decide +kernel

theorem lt_of_typeable {r : Nat} (h : Typeable r) : r < 0x7f := by
  rcases h with rfl | rfl | ⟨-, h⟩
  · decide
  · decide
  · omega

variable {dev : Device} {text : List Nat}

theorem strokes_cons {r : Nat} (hr : Typeable r) (rest : List Nat) :
    dev.strokes {} (r :: rest) = dev.taps r ++ dev.strokes {} rest := by
  unfold Device.taps
  rw [Device.strokes, Device.strokes]
  cases hpress : dev.press {} r with
  | none => rfl
  | some st =>
      dsimp only
      rw [release_press dev r (lt_of_typeable hr) hr st hpress]
      simp [Device.strokes]

/-- A text types what its characters type, one after the other. -/
theorem foldl_strokes (htext : ∀ r ∈ text, Typeable r) (t : List Nat) :
    ((dev.strokes {} text).map Held.usb).foldl Keyboard.read { text := t } =
      { text := t ++ text.flatMap dev.typed } := by
  induction text generalizing t with
  | nil => simp [Device.strokes]
  | cons r text ih =>
      have hr := htext r (by simp)
      have htaps : ((dev.taps r).map Held.usb).foldl Keyboard.read { text := t } =
          { text := t ++ dev.typed r } := by
        have hframe := Keyboard.foldl_frame {} t true ((dev.taps r).map Held.usb)
        rw [read_taps dev r (lt_of_typeable hr) hr] at hframe
        simpa using hframe
      rw [strokes_cons hr, List.map_append, List.foldl_append, htaps,
        ih fun r hr => htext r (by simp [hr]), List.flatMap_cons, List.append_assoc]

theorem typesText_strokes (htext : ∀ r ∈ text, Typeable r) :
    TypesText ((dev.strokes {} text).map Held.usb) text ↔ text.flatMap dev.typed = text := by
  have hfold : ((dev.strokes {} text).map Held.usb).foldl Keyboard.read { text := [] } =
      { text := [] ++ text.flatMap dev.typed } := foldl_strokes htext []
  unfold TypesText
  rw [hfold]
  simp

section FlatMap

variable {α : Type*} {f : α → List α} {l : List α}

theorem length_flatMap_le (hf : ∀ a ∈ l, (f a).length ≤ 1) :
    (l.flatMap f).length ≤ l.length := by
  induction l with
  | nil => exact le_rfl
  | cons a l ih =>
      have ha := hf a (by simp)
      have hl := ih fun b hb => hf b (by simp [hb])
      rw [List.flatMap_cons, List.length_append, List.length_cons]
      omega

/-- A list to whose items at most one item each corresponds is kept only item by item. -/
theorem flatMap_eq_self_iff (hf : ∀ a ∈ l, (f a).length ≤ 1) :
    l.flatMap f = l ↔ ∀ a ∈ l, f a = [a] := by
  induction l with
  | nil => simp
  | cons a l ih =>
      have hl : ∀ b ∈ l, (f b).length ≤ 1 := fun b hb => hf b (by simp [hb])
      rw [List.flatMap_cons, List.forall_mem_cons, ← ih hl]
      constructor
      · intro h
        match hfa : f a, hf a (by simp) with
        | [], _ =>
            have hlength := length_flatMap_le hl
            rw [hfa, List.nil_append] at h
            rw [h, List.length_cons] at hlength
            omega
        | [b], _ =>
            rw [hfa, List.singleton_append] at h
            obtain ⟨rfl, hrest⟩ := List.cons.inj h
            exact ⟨rfl, hrest⟩
      · rintro ⟨ha, hrest⟩
        rw [ha, hrest]
        rfl

end FlatMap

namespace HIDSink

/-- A paste on a released keyboard comes to its end, and it types its text exactly when the sink is
the AMI one or every character is typed without Shift and is neither a tab nor a newline. -/
theorem paste_types_iff (dev : Device) (text : List Nat) (htext : ∀ r ∈ text, Typeable r) :
    (∃ s, Run dev (PasteOnly text) s ∧ s.Quiet ∧ s.pastes ≠ []) ∧
    ((∀ s, Run dev (PasteOnly text) s → s.Quiet → s.pastes ≠ [] →
        TypesText (s.written dev) text) ↔
      dev = .ami ∨ ∀ r ∈ text, ¬NeedsShift r ∧ r ≠ 0x09 ∧ r ≠ 0x0a) := by
  refine ⟨exists_quiet dev text, ?_⟩
  have hwritten : (∀ s, Run dev (PasteOnly text) s → s.Quiet → s.pastes ≠ [] →
      TypesText (s.written dev) text) ↔ text.flatMap dev.typed = text := by
    rw [← typesText_strokes htext]
    constructor
    · intro h
      obtain ⟨s, hrun, hquiet, hpasted⟩ := exists_quiet dev text
      rw [← written_of_quiet hrun hquiet hpasted]
      exact h s hrun hquiet hpasted
    · intro h s hrun hquiet hpasted
      rwa [written_of_quiet hrun hquiet hpasted]
  rw [hwritten]
  cases dev with
  | ami =>
      have htyped : ∀ r ∈ text, Device.ami.typed r = [r] := fun r hr =>
        typed_ami r (lt_of_typeable (htext r hr)) (htext r hr)
      simp [List.flatMap_congr htyped]
  | ilo =>
      have htyped : ∀ r ∈ text, _ := fun r hr =>
        typed_ilo r (lt_of_typeable (htext r hr)) (htext r hr)
      rw [flatMap_eq_self_iff fun r hr => (htyped r hr).1]
      constructor
      · intro h
        exact .inr fun r hr => (htyped r hr).2.mp (h r hr)
      · rintro (hami | h)
        · cases hami
        · exact fun r hr => (htyped r hr).2.mpr (h r hr)

/-- A tab between two letters on the AMI sink. -/
theorem paste_types_tab : (∃ s, Run .ami (PasteOnly [0x61, 0x09, 0x62]) s ∧ s.Quiet ∧
      s.pastes ≠ []) ∧
    ((∀ s, Run .ami (PasteOnly [0x61, 0x09, 0x62]) s → s.Quiet → s.pastes ≠ [] →
        TypesText (s.written .ami) [0x61, 0x09, 0x62]) ↔
      Device.ami = .ami ∨ ∀ r ∈ [0x61, 0x09, 0x62], ¬NeedsShift r ∧ r ≠ 0x09 ∧ r ≠ 0x0a) :=
  paste_types_iff .ami [0x61, 0x09, 0x62] (by decide)

/-- On the iLO sink a capital letter comes out small, and a newline not at all. -/
theorem paste_types_small : ∃ s, Run .ilo (PasteOnly [0x41, 0x0a]) s ∧ s.Quiet ∧ s.pastes ≠ [] ∧
    ((s.written .ilo).foldl Keyboard.read {}).text = [0x61] ∧
    ¬TypesText (s.written .ilo) [0x41, 0x0a] := by
  have htest : ((exec (step .ilo) (PasteOnly [0x41, 0x0a]) [.cutText [0x41, 0x0a], .resume 0,
      .send (.paste 0), .resume 0, .send (.paste 0), .resume 0, .resume 0, .resume 0, .resume 0,
      .resume 0] { hidSeq := 0 }).any fun s => decide (s.Quiet ∧ s.pastes ≠ [] ∧
        ((s.written .ilo).foldl Keyboard.read {}).text = [0x61])) = true := by
    decide +kernel
  obtain ⟨s, hs, hquiet, hpasted, htyped⟩ := exists_reached_of_exec htest
  refine ⟨s, ⟨0, hs⟩, hquiet, hpasted, htyped, ?_⟩
  rintro ⟨htext, -⟩
  rw [htyped] at htext
  cases htext

end HIDSink

end Outband.Hid
