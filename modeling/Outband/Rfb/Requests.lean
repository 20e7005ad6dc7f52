import Outband.Rfb.Server

/-!
# Update requests and frame signals

An incremental request is answered when the frame source signals a change, a
full request at once. A frame that is stored is signalled afterwards, and `Serve`
takes the signal before it reads the frame, so that no frame is missed. The
requests pass through a channel of one slot with a dropping send: an incremental
request that is still to be answered hides a full one behind it.
-/

namespace Outband.Rfb

open Foundation

/-- The frame of a Raw update. -/
def Event.frame : Event → Option Frame
  | .raw f => some f
  | _ => none

/-- The frame the client got last. -/
def lastRaw (log : List Event) : Option Frame := (log.filterMap Event.frame).getLast?

theorem lastRaw_append_raw (log : List Event) (f : Frame) :
    lastRaw (log ++ [.raw f]) = some f := by
  simp [lastRaw, Event.frame]

theorem lastRaw_append {log events : List Event} (h : events.filterMap Event.frame = []) :
    lastRaw (log ++ events) = lastRaw log := by
  rw [lastRaw, List.filterMap_append, h, List.append_nil, lastRaw]

namespace Session

variable {a : Act} {s s' : Session} {f₀ : Frame} {w h : Int}

/-! ### Frame signals -/

/-- A token is in the channel, or a call of `Update` is about to put one there. -/
def Signalled (s : Session) : Prop := s.source.changed = true ∨ 0 < s.signalling

/-- A frame that `Serve` has not read, or not sent, has a signal on the way, unless `Serve` is
about to read it. The frame `f₀` the source was made with needs no signal. -/
def Watched (f₀ : Frame) (s : Session) : Prop :=
  Signalled s ∨
    match s.phase with
    | .handshake | .initialized => s.source.frame = f₀
    | .idle | .waiting => s.lastRead = some s.source.frame ∧
        (lastRaw s.log = some s.source.frame ∨ s.source.frame = f₀)
    | .loaded f | .writing f => f = s.source.frame ∧ s.lastRead = some s.source.frame
    | .reading | .stopped | .refused => True

theorem Watched.client (hs : Watched f₀ s) (e : Effect) : Watched f₀ (s.client e) := by
  cases e with
  | desktopSizeOK =>
      have hraw : lastRaw (s.log ++ [.advertised]) = lastRaw s.log := lastRaw_append rfl
      rw [Watched] at hs ⊢
      change Signalled s ∨ _
      rw [Session.client]
      simpa only [hraw] using hs
  | request incremental =>
      rw [Session.client, request]
      split <;> exact hs
  | keyEvent | pointerEvent | cutText => exact hs

/-- Every step keeps a watch on the frame. -/
theorem Watched.next (hs : Watched f₀ s) (hnext : Next s a s') : Watched f₀ s' := by
  cases hnext with
  | store w h pix =>
      rw [Session.store]
      split_ifs
      · exact .inl (.inr (Nat.succ_pos _))
      · exact hs
  | signal => exact .inl (.inl rfl)
  | client e => exact hs.client e
  | receive => exact .inr trivial
  | fail n | stop =>
      right
      rcases halted_cases s with hphase | hphase <;> simp [Session.fail, Session.stop, hphase]
  | read => exact .inr ⟨rfl, rfl⟩
  | serverInit hphase =>
      refine hs.imp_right ?_
      rw [hphase]
      exact fun hframe => hframe
  | start hphase =>
      refine hs.imp_right ?_
      rw [hphase]
      exact fun hframe => ⟨rfl, .inr hframe⟩
  | take incremental hphase =>
      refine hs.imp_right ?_
      rw [hphase]
      intro hidle
      cases incremental with
      | false => trivial
      | true => exact hidle
  | announce f hphase =>
      refine hs.imp_right ?_
      rw [hphase]
      exact fun hloaded => hloaded
  | write f hphase =>
      refine hs.imp_right ?_
      rw [hphase]
      rintro ⟨rfl, hread⟩
      exact ⟨hread, .inl (lastRaw_append_raw _ _)⟩

theorem watched_of_run {ok : Act → Session → Prop} (hrun : Run ok w h s) :
    Watched (NewFrameSource w h).frame s :=
  hrun.invariant (I := Watched (NewFrameSource w h).frame) (.inr rfl)
    fun _ _ _ hs _ hstep => hs.next (next_of_step hstep)

/-- `Serve` takes the token, reads the frame and sends it. -/
theorem exec_deliver (hphase : s.phase = .waiting) (hchanged : s.source.changed = true) :
    ∃ s', exec step (fun _ _ => True) [.receive, .read, .announce, .write] s = some s' ∧
      s'.phase = .idle ∧ lastRaw s'.log = some s.source.frame := by
  have hreceive : step .receive s = some s.receive := by
    rw [step, hphase, hchanged]
  refine ⟨(s.receive.read.announce s.source.frame).write s.source.frame, ?_, rfl,
    lastRaw_append_raw _ _⟩
  simp only [exec, hreceive, if_true]
  rfl

/-- `Serve` answers a full request with the frame. -/
theorem exec_answer (hphase : s.phase = .idle) (hreqc : s.reqc = some false) :
    ∃ s', exec step (fun _ _ => True) [.take, .read, .announce, .write] s = some s' ∧
      s'.phase = .idle ∧ lastRaw s'.log = some s.source.frame := by
  have htake : step .take s = some (s.take false) := by
    rw [step, hphase, hreqc]
  refine ⟨((s.take false).read.announce s.source.frame).write s.source.frame, ?_, rfl,
    lastRaw_append_raw _ _⟩
  simp only [exec, htake, if_true]
  rfl

/-- While `Serve` waits, a frame it has not read has a signal on the way. Once no call of
`Update` is left, the frame a waiting `Serve` has not read or not sent is sent without help. -/
theorem no_lost_wakeup (hrun : Run (fun _ _ => True) w h s) :
    (s.phase = .waiting → s.lastRead ≠ some s.source.frame →
      s.source.changed = true ∨ 0 < s.signalling) ∧
    (s.phase = .waiting → s.signalling = 0 →
      s.lastRead ≠ some s.source.frame ∨
        (lastRaw s.log ≠ some s.source.frame ∧ s.source.frame ≠ (NewFrameSource w h).frame) →
      ∃ s', exec step (fun _ _ => True) [.receive, .read, .announce, .write] s = some s' ∧
        s'.phase = .idle ∧ lastRaw s'.log = some s.source.frame) ∧
    (s.phase = .idle → s.reqc = some false →
      ∃ s', exec step (fun _ _ => True) [.take, .read, .announce, .write] s = some s' ∧
        s'.phase = .idle ∧ lastRaw s'.log = some s.source.frame) := by
  have hwatched := watched_of_run hrun
  refine ⟨?_, ?_, exec_answer⟩
  · intro hphase hunread
    rw [Watched, hphase] at hwatched
    exact hwatched.resolve_right fun hseen => hunread hseen.1
  · intro hphase hnone hundelivered
    rw [Watched, hphase] at hwatched
    rcases hwatched with (hchanged | hsignalling) | ⟨hread, hsent⟩
    · exact exec_deliver hphase hchanged
    · omega
    · rcases hundelivered with hunread | ⟨hunsent, hreal⟩
      · exact absurd hread hunread
      · exact absurd hsent (not_or.mpr ⟨hunsent, hreal⟩)

/-- An update is stored while `Serve` waits: its signal is still to come. -/
theorem no_lost_wakeup_stored : ∃ s, Run (fun _ _ => True) 1024 768 s ∧ s.phase = .waiting ∧
    s.lastRead ≠ some s.source.frame ∧ (s.source.changed = true ∨ 0 < s.signalling) := by
  have htest : ((exec step (fun _ _ => True) [.serverInit, .start, .client (.request true), .take,
      .store 1 1 [1, 2, 3, 4]] (new 1024 768)).any fun s =>
        decide (s.phase = .waiting ∧ s.lastRead ≠ some s.source.frame)) = true := by
    decide +kernel
  obtain ⟨s, hrun, hphase, hunread⟩ := exists_reached_of_exec htest
  exact ⟨s, hrun, hphase, hunread, (no_lost_wakeup hrun).1 hphase hunread⟩

/-! ### Full requests -/

/-- A full request read since the last frame was written is not going to be answered next: the
channel dropped it, or holds it. -/
def Outstanding (s : Session) : Prop := s.dropped = true ∨ s.reqc = some false

/-- A full request comes neither while `Serve` waits for a change nor behind an incremental
request that `Serve` is about to take. -/
def Timely (a : Act) (s : Session) : Prop :=
  a = .client (.request false) → s.phase ≠ .waiting ∧ ¬ (s.phase = .idle ∧ s.reqc = some true)

instance (a : Act) (s : Session) : Decidable (Timely a s) :=
  inferInstanceAs (Decidable (_ → _))

/-- Where a dropped request is still ahead of `Serve`, it is behind another full one. -/
def Prompt (s : Session) : Prop :=
  match s.phase with
  | .handshake | .initialized => s.dropped = false
  | .idle => s.reqc ≠ some false → s.dropped = false
  | .waiting => ¬ Outstanding s
  | _ => True

theorem request_of_none {incremental : Bool} (hreqc : s.reqc = none) :
    s.request incremental = { s with reqc := some incremental } := by
  rw [Session.request, hreqc]

theorem request_of_some {earlier incremental : Bool} (hreqc : s.reqc = some earlier) :
    s.request incremental = { s with dropped := s.dropped || !incremental } := by
  rw [Session.request, hreqc]

theorem Prompt.request {incremental : Bool} (hs : Prompt s) (hreading : s.Reading)
    (hok : Timely (.client (.request incremental)) s) : Prompt (s.request incremental) := by
  have hphase : (s.request incremental).phase = s.phase := by
    rw [Session.request]
    split <;> rfl
  rw [Prompt, hphase]
  split
  case h_1 hhandshake => exact absurd hhandshake hreading.phase_ne
  case h_2 hinitialized => exact absurd hinitialized hreading.phase_ne
  case h_3 hidle =>
      rw [Prompt, hidle] at hs
      cases hreqc : s.reqc with
      | none =>
          rw [request_of_none hreqc]
          exact fun _ => hs (by simp [hreqc])
      | some earlier =>
          rw [request_of_some hreqc]
          intro hearlier
          have hdropped : s.dropped = false := hs hearlier
          cases incremental with
          | true => simp [hdropped]
          | false =>
              have htrue : s.reqc = some true := by
                cases earlier with
                | true => exact hreqc
                | false => exact absurd hreqc hearlier
              exact absurd ⟨hidle, htrue⟩ (hok rfl).2
  case h_4 hwaiting =>
      rw [Prompt, hwaiting] at hs
      have hincremental : incremental = true := by
        cases incremental with
        | true => rfl
        | false => exact absurd hwaiting (hok rfl).1
      subst hincremental
      cases hreqc : s.reqc with
      | none =>
          rw [request_of_none hreqc]
          rintro (hdropped | hfull)
          · exact hs (.inl hdropped)
          · cases hfull
      | some earlier =>
          rw [request_of_some hreqc]
          rintro (hdropped | hfull)
          · exact hs (.inl (by simpa using hdropped))
          · exact hs (.inr hfull)
  case h_5 => trivial

theorem Prompt.next (hs : Prompt s) (hok : Timely a s) (hnext : Next s a s') : Prompt s' := by
  cases hnext with
  | store w h pix =>
      rw [Session.store]
      split_ifs <;> exact hs
  | signal => exact hs
  | client e hreading =>
      cases e with
      | request incremental => exact hs.request hreading hok
      | desktopSizeOK | keyEvent | pointerEvent | cutText => exact hs
  | receive | read | announce f => trivial
  | fail n | stop =>
      rw [Prompt]
      rcases halted_cases s with hphase | hphase <;> simp [Session.fail, Session.stop, hphase]
  | write f => exact fun _ => rfl
  | serverInit hphase | start hphase =>
      rw [Prompt, hphase] at hs
      first | exact hs | exact fun _ => hs
  | take incremental hphase hreqc =>
      rw [Prompt, hphase, hreqc] at hs
      cases incremental with
      | false => trivial
      | true =>
          have hdropped : s.dropped = false := hs (by simp)
          rintro (hdrop | hnone)
          · exact absurd (hdropped.symm.trans hdrop) (by decide)
          · cases hnone

/-- In every run whose full requests come in time, no full request is outstanding while `Serve`
waits for the source. -/
theorem no_lost_request (hrun : Run Timely w h s) (hphase : s.phase = .waiting) :
    ¬ Outstanding s := by
  have hprompt : Prompt s := hrun.invariant (I := Prompt) (by rfl)
    fun _ _ _ hs hok hstep => hs.next hok (next_of_step hstep)
  rwa [Prompt, hphase] at hprompt

/-- A full request that is answered, then an incremental one. -/
theorem no_lost_request_answered : ∃ s, Run Timely 1024 768 s ∧ s.phase = .waiting ∧
    lastRaw s.log = some s.source.frame ∧ ¬ Outstanding s := by
  have htest : ((exec step Timely [.serverInit, .start, .store 1 1 [1, 2, 3, 4], .signal,
      .client (.request false), .take, .read, .announce, .write, .client (.request true), .take]
      (new 1024 768)).any fun s => decide (s.phase = .waiting ∧
        lastRaw s.log = some s.source.frame)) = true := by
    decide +kernel
  obtain ⟨s, hrun, hphase, hraw⟩ := exists_reached_of_exec htest
  exact ⟨s, hrun, hphase, hraw, no_lost_request hrun hphase⟩

/-- A full request behind an incremental one is lost. -/
theorem request_coalesced : ¬ ∀ (w h : Int) (s : Session), Run (fun _ _ => True) w h s →
    s.phase = .waiting → ¬ Outstanding s := by
  have htest : ((exec step (fun _ _ => True) [.serverInit, .start, .client (.request true),
      .client (.request false), .take] (new 1024 768)).any fun s =>
        decide (s.phase = .waiting ∧ s.dropped = true)) = true := by
    decide +kernel
  obtain ⟨s, hrun, hphase, hdropped⟩ := exists_reached_of_exec htest
  intro hall
  exact hall 1024 768 s hrun hphase (.inl hdropped)

/-- A full request that comes at another time is lost, in the next state or in the one behind
it. -/
theorem request_lost (hreading : s.Reading) (hlate : ¬ Timely (.client (.request false)) s) :
    ∃ acts s', exec step (fun _ _ => True) (.client (.request false) :: acts) s = some s' ∧
      s'.phase = .waiting ∧ Outstanding s' := by
  have hclient : step (.client (.request false)) s = some (s.request false) := if_pos hreading
  have hcases : s.phase = .waiting ∨ s.phase = .idle ∧ s.reqc = some true := by
    rw [Timely, Classical.not_imp, not_and_or, not_not, not_not] at hlate
    exact hlate.2
  rcases hcases with hwaiting | ⟨hidle, hreqc⟩
  · have hnow : (s.request false).phase = .waiting ∧ Outstanding (s.request false) := by
      cases hreqc : s.reqc with
      | none =>
          rw [request_of_none hreqc]
          exact ⟨hwaiting, .inr rfl⟩
      | some earlier =>
          rw [request_of_some hreqc]
          exact ⟨hwaiting, .inl (Bool.or_true _)⟩
    refine ⟨[], s.request false, ?_, hnow⟩
    simp only [exec, hclient, if_true]
  · have hdropped : s.request false = { s with dropped := s.dropped || !false } :=
      request_of_some hreqc
    have htake : step .take (s.request false) = some ((s.request false).take true) := by
      rw [hdropped, step, hidle, hreqc]
    refine ⟨[.take], (s.request false).take true, ?_, rfl, .inl ?_⟩
    · simp only [exec, hclient, htake, if_true]
    · rw [hdropped]
      exact Bool.or_true _

end Session

end Outband.Rfb
