import Outband.Kvm.Bridge

/-!
# What a bridge guarantees, and when

Each result is about every run from a new bridge whose steps meet a condition
on the state they are taken in. The conditions name the orders of events the
code does not survive: a release while another client is still connecting, a
release by a client whose own session is gone, and, for iLO, a session that
ends by itself while it is published.
-/

namespace Outband.Kvm

open Foundation

variable {b : Backend} {s s' : System} {i j : Nat}

/-! ### What a step can do -/

theorem step_acquire (h : step b (.acquire i) s = some s') :
    (s.call i).phase = .idle ∧
      ((s.bridge.active = true ∧ s' = s.modify i fun c => { c with phase := .refused }) ∨
        (s.bridge.active = false ∧
          s' = { s.modify i (fun c => { c with phase := .connecting }) with
            bridge := { s.bridge with active := true }, holder := some i })) := by
  simp only [step] at h
  split_ifs at h with hidle hactive
  · exact ⟨not_not.mp hidle, .inl ⟨hactive, (Option.some.inj h).symm⟩⟩
  · exact ⟨not_not.mp hidle, .inr ⟨Bool.eq_false_iff.mpr hactive, (Option.some.inj h).symm⟩⟩

theorem step_connectFails (h : step b (.connectFails i) s = some s') :
    (s.call i).phase = .connecting ∧
      s' = { s.modify i (fun c => { c with phase := .failed, cancelled := true }) with
        bridge := { s.bridge with active := false } } := by
  simp only [step] at h
  split_ifs at h with hphase
  exact ⟨not_not.mp hphase, (Option.some.inj h).symm⟩

theorem step_connectSucceeds (h : step b (.connectSucceeds i) s = some s') :
    (s.call i).phase = .connecting ∧ s' = s.modify i fun c => { c with phase := .connected } := by
  simp only [step] at h
  split_ifs at h with hphase
  exact ⟨not_not.mp hphase, (Option.some.inj h).symm⟩

theorem step_publish (h : step b (.publish i) s = some s') :
    (s.call i).phase = .connected ∧
      s' = { s.modify i (fun c => { c with phase := .running }) with
        bridge := { s.bridge with cancel := some i, client := some i } } := by
  simp only [step] at h
  split_ifs at h with hphase
  exact ⟨not_not.mp hphase, (Option.some.inj h).symm⟩

theorem step_runEnds (h : step b (.runEnds i) s = some s') :
    (s.call i).phase = .running ∧ (s.call i).ended = false ∧
      s' = { s.modify i (fun c => { c with ended := true, closed := c.closed || b.runCloses }) with
        bridge := if s.bridge.client = some i then {} else s.bridge } := by
  simp only [step] at h
  by_cases hphase : (s.call i).phase ≠ .running ∨ (s.call i).ended = true
  · rw [if_pos hphase] at h
    cases h
  · rw [if_neg hphase] at h
    push Not at hphase
    exact ⟨hphase.1, Bool.eq_false_iff.mpr hphase.2, (Option.some.inj h).symm⟩

theorem step_release (h : step b (.release i) s = some s') :
    (s.call i).phase = .running ∧ (s.call i).released = false ∧
      s' = s.Release.modify i fun c => { c with released := true } := by
  simp only [step] at h
  split_ifs at h with hphase
  push Not at hphase
  exact ⟨hphase.1, Bool.eq_false_iff.mpr hphase.2, (Option.some.inj h).symm⟩

@[simp] theorem Release_bridge : s.Release.bridge = {} := by simp [System.Release]

@[simp] theorem Release_holder : s.Release.holder = s.holder := by simp [System.Release]

/-- `Release` touches exactly the call whose context and client are published. -/
theorem Release_call (s : System) (j : Nat) :
    s.Release.call j =
      { s.call j with
        cancelled := (s.call j).cancelled || decide (s.bridge.cancel = some j)
        closed := (s.call j).closed || decide (s.bridge.client = some j) } := by
  simp only [System.Release, System.modifyAt_call]
  by_cases hc : s.bridge.client = some j <;> by_cases hx : s.bridge.cancel = some j <;>
    simp [hc, hx]

/-! ### The slot a bridge stands for -/

/-- What a bridge is for: one slot, taken by a call from its busy check until
its session fails, ends or is closed. -/
inductive Slot
  | free
  | connecting (i : Nat)
  | serving (i : Nat)
  deriving DecidableEq, Repr

/-- The call the slot is taken by. -/
def Slot.owner : Slot → Option Nat
  | .free => none
  | .connecting i => some i
  | .serving i => some i

/-- The session the slot has published. -/
def Slot.published : Slot → Option Nat
  | .free => none
  | .connecting _ => none
  | .serving i => some i

/-- Between the busy check and the publication of the client. -/
def Call.Pending (c : Call) : Prop := c.phase = .connecting ∨ c.phase = .connected

/-- Published, and neither ended nor closed. -/
def Call.Up (c : Call) : Prop := c.phase = .running ∧ c.ended = false ∧ c.closed = false

/-- A call that has not published yet has neither ended nor been closed. -/
def Call.Fresh (c : Call) : Prop := c.phase ≠ .running → c.ended = false ∧ c.closed = false

theorem live_iff : s.Live i ↔ (s.call i).Pending ∨ (s.call i).Up := by
  simp only [System.Live, Call.Pending, Call.Up]
  tauto

/-- The system implements the slot `m`: exactly its owner is live, and the
bridge fields say so. -/
structure Represents (s : System) (m : Slot) : Prop where
  fresh : ∀ j, (s.call j).Fresh
  pending : ∀ j, (s.call j).Pending ↔ m = .connecting j
  up : ∀ j, (s.call j).Up ↔ m = .serving j
  active : s.bridge.active = true ↔ m ≠ .free
  client : s.bridge.client = m.published
  cancel : s.bridge.cancel = m.published
  holder : ∀ j, m.owner = some j → s.holder = some j

variable {m : Slot}

theorem Represents.live_iff_owner (h : Represents s m) : s.Live i ↔ m.owner = some i := by
  rw [live_iff, h.pending, h.up]
  cases m <;> simp [Slot.owner]

/-- A represented system has at most one live session. -/
theorem Represents.live_unique (h : Represents s m) (hi : s.Live i) (hj : s.Live j) : i = j := by
  rw [h.live_iff_owner] at hi hj
  exact Option.some.inj (hi.symm.trans hj)

theorem represents_new : Represents System.new .free := by
  constructor <;> simp [System.new, Call.Pending, Call.Up, Call.Fresh, Slot.published, Slot.owner]

/-! ### Each section of the code on the slot -/

/-- A section that rewrites one call and the bridge fields: it is enough to look
at that call, and to see that the other calls keep their part in the slot. -/
theorem Represents.modify {m' : Slot} {f : Call → Call} {r : Bridge} {o : Option Nat}
    (h : Represents s m) (hfresh : (f (s.call i)).Fresh)
    (hpending : (f (s.call i)).Pending ↔ m' = .connecting i)
    (hup : (f (s.call i)).Up ↔ m' = .serving i)
    (hothers : ∀ j, j ≠ i →
      (m = .connecting j ↔ m' = .connecting j) ∧ (m = .serving j ↔ m' = .serving j))
    (hactive : r.active = true ↔ m' ≠ .free) (hclient : r.client = m'.published)
    (hcancel : r.cancel = m'.published) (hholder : ∀ j, m'.owner = some j → o = some j) :
    Represents { s.modify i f with bridge := r, holder := o } m' where
  fresh j := by
    show ((s.modify i f).call j).Fresh
    rw [System.modify_call]
    split
    · exact hfresh
    · exact h.fresh j
  pending j := by
    show ((s.modify i f).call j).Pending ↔ _
    rw [System.modify_call]
    split
    case isTrue hji => rw [hji, hpending]
    case isFalse hji => rw [h.pending j, (hothers j hji).1]
  up j := by
    show ((s.modify i f).call j).Up ↔ _
    rw [System.modify_call]
    split
    case isTrue hji => rw [hji, hup]
    case isFalse hji => rw [h.up j, (hothers j hji).2]
  active := hactive
  client := hclient
  cancel := hcancel
  holder := hholder

/-- A section that rewrites one call only, and leaves its part in the slot as it was. -/
theorem Represents.modifyCall {f : Call → Call} (h : Represents s m)
    (hfresh : (f (s.call i)).Fresh) (hpending : (f (s.call i)).Pending ↔ m = .connecting i)
    (hup : (f (s.call i)).Up ↔ m = .serving i) : Represents (s.modify i f) m :=
  h.modify (r := s.bridge) (o := s.holder) hfresh hpending hup
    (fun _ _ => ⟨Iff.rfl, Iff.rfl⟩) h.active h.client h.cancel h.holder

theorem Represents.not_owner_of_idle (h : Represents s m) (hidle : (s.call i).phase = .idle) :
    m ≠ .connecting i ∧ m ≠ .serving i := by
  constructor
  · intro hm
    have := (h.pending i).mpr hm
    simp [Call.Pending, hidle] at this
  · intro hm
    have := (h.up i).mpr hm
    simp [Call.Up, hidle] at this

theorem Represents.acquire (h : Represents s m) (hs : step b (.acquire i) s = some s') :
    Represents s' (if m = .free then .connecting i else m) := by
  obtain ⟨hidle, hbranch⟩ := step_acquire hs
  have hfresh := h.fresh i (by simp [hidle])
  have hnot := h.not_owner_of_idle hidle
  rcases hbranch with ⟨hactive, rfl⟩ | ⟨hfree, rfl⟩
  · rw [if_neg (h.active.mp hactive)]
    apply h.modifyCall
    · exact fun _ => hfresh
    · simp [Call.Pending, hnot]
    · simp [Call.Up, hnot]
  · have hm : m = .free := by
      by_contra hm
      simp [h.active.mpr hm] at hfree
    subst hm
    apply h.modify
    · exact fun _ => hfresh
    · simp [Call.Pending]
    · simp [Call.Up]
    · intro j hji
      have hij : i ≠ j := fun h => hji h.symm
      simp [hij]
    · simp
    · exact h.client
    · exact h.cancel
    · simp [Slot.owner]

theorem Represents.eq_connecting (h : Represents s m) (hphase : (s.call i).Pending) :
    m = .connecting i := (h.pending i).mp hphase

theorem Represents.connectFails (h : Represents s m)
    (hs : step b (.connectFails i) s = some s') : Represents s' .free := by
  obtain ⟨hphase, rfl⟩ := step_connectFails hs
  have hm := h.eq_connecting (.inl hphase)
  subst hm
  apply h.modify (o := s.holder)
  · exact fun _ => h.fresh i (by simp [hphase])
  · simp [Call.Pending]
  · simp [Call.Up]
  · intro j hji
    have hij : i ≠ j := fun h => hji h.symm
    simp [hij]
  · simp
  · exact h.client
  · exact h.cancel
  · simp [Slot.owner]

theorem Represents.connectSucceeds (h : Represents s m)
    (hs : step b (.connectSucceeds i) s = some s') : Represents s' m := by
  obtain ⟨hphase, rfl⟩ := step_connectSucceeds hs
  have hm := h.eq_connecting (.inl hphase)
  subst hm
  apply h.modifyCall
  · exact fun _ => h.fresh i (by simp [hphase])
  · simp [Call.Pending]
  · simp [Call.Up]

theorem Represents.publish (h : Represents s m) (hs : step b (.publish i) s = some s') :
    Represents s' (.serving i) := by
  obtain ⟨hphase, rfl⟩ := step_publish hs
  have hm := h.eq_connecting (.inr hphase)
  have hfresh := h.fresh i (by simp [hphase])
  subst hm
  apply h.modify (o := s.holder)
  · simp [Call.Fresh]
  · simp [Call.Pending]
  · simp [Call.Up, hfresh]
  · intro j hji
    have hij : i ≠ j := fun h => hji h.symm
    simp [hij]
  · simp [h.active]
  · rfl
  · rfl
  · exact h.holder

/-- A running session that has not ended is the published one or already closed. -/
theorem Represents.runEnds (h : Represents s m) (hs : step b (.runEnds i) s = some s') :
    Represents s' (if m = .serving i then .free else m) := by
  obtain ⟨hphase, hended, rfl⟩ := step_runEnds hs
  have hpending : m ≠ .connecting i := by
    intro hm
    have := (h.pending i).mpr hm
    simp [Call.Pending, hphase] at this
  by_cases hm : m = .serving i
  · subst hm
    have hclient : s.bridge.client = some i := h.client
    rw [if_pos rfl]
    simp only [hclient, if_true]
    apply h.modify (o := s.holder)
    · simp [Call.Fresh, hphase]
    · simp [Call.Pending, hphase]
    · simp [Call.Up]
    · intro j hji
      have hij : i ≠ j := fun h => hji h.symm
      simp [hij]
    · simp
    · rfl
    · rfl
    · simp [Slot.owner]
  · have hclient : s.bridge.client ≠ some i := by
      rw [h.client]
      cases m <;> simp_all [Slot.published]
    rw [if_neg hm]
    simp only [hclient, if_false]
    change Represents
      (s.modify i fun c => { c with ended := true, closed := c.closed || b.runCloses }) m
    apply h.modifyCall
    · simp [Call.Fresh, hphase]
    · simp [Call.Pending, hphase, hpending]
    · simp [Call.Up, hm]

theorem up_Release : (s.Release.call j).Up ↔ (s.call j).Up ∧ s.bridge.client ≠ some j := by
  rw [Release_call]
  simp [Call.Up, and_assoc]

/-- Outside the connecting window `Release` empties the slot. -/
theorem Represents.Release (h : Represents s m) (hm : ∀ j, m ≠ .connecting j) :
    Represents s.Release .free where
  fresh j := by
    intro hphase
    rw [Release_call] at hphase ⊢
    have hclient : s.bridge.client ≠ some j := by
      intro hc
      have hserving : m = .serving j := by
        rw [h.client] at hc
        cases m <;> simp_all [Slot.published]
      exact hphase ((h.up j).mpr hserving).1
    simpa [hclient] using h.fresh j hphase
  pending j := by
    have : (s.Release.call j).Pending ↔ (s.call j).Pending := by
      rw [Release_call]
      exact Iff.rfl
    rw [this, h.pending]
    simp [hm j]
  up j := by
    rw [up_Release, h.up, h.client]
    simp only [reduceCtorEq, iff_false, not_and, not_not]
    rintro rfl
    rfl
  active := by simp
  client := by simp [Slot.published]
  cancel := by simp [Slot.published]
  holder := by simp [Slot.owner]

theorem Represents.release (h : Represents s m) (hm : ∀ j, m ≠ .connecting j)
    (hs : step b (.release i) s = some s') : Represents s' .free := by
  obtain ⟨hphase, -, rfl⟩ := step_release hs
  have hR := h.Release hm
  have hrun : (s.Release.call i).phase = .running := by rw [Release_call, hphase]
  apply hR.modifyCall
  · simp [Call.Fresh, hrun]
  · simp [Call.Pending, hrun]
  · simpa [Call.Up] using hR.up i

/-- In a represented system every step but a release in the connecting window
leads to a represented system. -/
theorem Represents.next {a : Action} (h : Represents s m)
    (hwindow : ∀ i, a = .release i → ∀ j, m ≠ .connecting j)
    (hs : step b a s = some s') : ∃ m', Represents s' m' := by
  cases a with
  | acquire i => exact ⟨_, h.acquire hs⟩
  | connectFails i => exact ⟨_, h.connectFails hs⟩
  | connectSucceeds i => exact ⟨_, h.connectSucceeds hs⟩
  | publish i => exact ⟨_, h.publish hs⟩
  | runEnds i => exact ⟨_, h.runEnds hs⟩
  | release i => exact ⟨_, h.release (hwindow i rfl) hs⟩

/-! ### At most one session -/

/-- A run without releases in the connecting window stays represented. -/
theorem exists_represents {ok : Action → System → Prop}
    (hwindow : ∀ i s s' m, Represents s m → ok (.release i) s →
      step b (.release i) s = some s' → ∀ j, m ≠ .connecting j)
    (h : Reached (step b) ok System.new s) : ∃ m, Represents s m := by
  apply h.invariant (I := fun s => ∃ m, Represents s m) ⟨_, represents_new⟩
  rintro a s s' ⟨m, hm⟩ hok hs
  apply hm.next _ hs
  rintro i rfl
  exact hwindow i s s' m hm hok hs

/-- No release is called while an `Acquire` has reserved the slot and not yet
published its client. -/
def NoReleaseWhileConnecting : Action → System → Prop
  | .release _, s => s.bridge.active = true → s.bridge.client ≠ none
  | .acquire _, _ | .connectFails _, _ | .connectSucceeds _, _ | .publish _, _ | .runEnds _, _ =>
      True

instance : ∀ a s, Decidable (NoReleaseWhileConnecting a s)
  | .release _, s => inferInstanceAs (Decidable (s.bridge.active = true → s.bridge.client ≠ none))
  | .acquire _, _ | .connectFails _, _ | .connectSucceeds _, _ | .publish _, _ | .runEnds _, _ =>
      inferInstanceAs (Decidable True)

theorem represents_of_reached (h : Reached (step b) NoReleaseWhileConnecting System.new s) :
    ∃ m, Represents s m := by
  apply exists_represents _ h
  rintro i s s' m hm hok - j rfl
  exact hok (hm.active.mpr (by simp)) (by simp [hm.client, Slot.published])

theorem encard_live_le_one (h : Represents s m) : {i | s.Live i}.encard ≤ 1 := by
  rw [Set.encard_le_one_iff]
  intro i j hi hj
  exact h.live_unique hi hj

/-- A pending call whose slot was freed under it is joined by the next `Acquire`. -/
theorem two_live_of_acquire (hj : (s.call j).Pending) (hfree : s.bridge.active = false)
    (hidle : (s.call i).phase = .idle) :
    ∃ s', step b (.acquire i) s = some s' ∧ 1 < {k | s'.Live k}.encard := by
  have hji : j ≠ i := by
    rintro rfl
    simp [Call.Pending, hidle] at hj
  have hstep : step b (.acquire i) s =
      some { s.modify i (fun c => { c with phase := .connecting }) with
        bridge := { s.bridge with active := true }, holder := some i } := by
    simp [step, hidle, hfree]
  refine ⟨_, hstep, ?_⟩
  rw [Set.one_lt_encard_iff]
  refine ⟨j, i, live_iff.mpr (.inl ?_), live_iff.mpr (.inl ?_), hji⟩
  · change ((s.modify i fun c => { c with phase := .connecting }).call j).Pending
    rw [System.modify_call, if_neg hji]
    exact hj
  · change ((s.modify i fun c => { c with phase := .connecting }).call i).Pending
    rw [System.modify_call, if_pos rfl]
    exact .inl rfl

/-- In every run without a release in another client's connecting window, at
most one `Acquire` is past the busy check and live. The condition cannot be
dropped at any state of such a run: after a release that breaks it, the next
`Acquire` of any client makes two live sessions. -/
theorem live_sessions_le_one (h : Reached (step b) NoReleaseWhileConnecting System.new s) :
    {i | s.Live i}.encard ≤ 1 ∧
      ∀ i s', step b (.release i) s = some s' → ¬ NoReleaseWhileConnecting (.release i) s →
        ∀ k, (s'.call k).phase = .idle →
          ∃ s'', step b (.acquire k) s' = some s'' ∧ 1 < {i | s''.Live i}.encard := by
  obtain ⟨m, hm⟩ := represents_of_reached h
  refine ⟨encard_live_le_one hm, ?_⟩
  intro i s' hs hbad k hidle
  obtain ⟨hphase, -, rfl⟩ := step_release hs
  simp only [NoReleaseWhileConnecting, Classical.not_imp, not_not] at hbad
  obtain ⟨j, rfl⟩ : ∃ j, m = .connecting j := by
    have hactive := hm.active.mp hbad.1
    have hclient := hm.client.symm.trans hbad.2
    cases m with
    | free => exact absurd rfl hactive
    | connecting j => exact ⟨j, rfl⟩
    | serving j => simp [Slot.published] at hclient
  have hj : (s.call j).Pending := (hm.pending j).mpr rfl
  have hji : j ≠ i := by
    rintro rfl
    simp [Call.Pending, hphase] at hj
  apply two_live_of_acquire (j := j) _ (by simp) hidle
  rw [System.modify_call, if_neg hji, Release_call]
  exact hj

/-- Client 0 is served, its session ends by itself, client 1 starts to connect. -/
def staleThenConnecting : List Action :=
  [.acquire 0, .connectSucceeds 0, .publish 0, .runEnds 0, .acquire 1]

theorem live_sessions_le_one_connecting :
    ∃ s, Reached (step .ami) NoReleaseWhileConnecting System.new s ∧ s.Live 1 ∧
      {i | s.Live i}.encard ≤ 1 := by
  have hsome : (exec (step .ami) NoReleaseWhileConnecting staleThenConnecting
      System.new).isSome := by decide
  obtain ⟨s, hs⟩ := Option.isSome_iff_exists.mp hsome
  have hreached := reached_of_exec .init hs
  refine ⟨s, hreached, ?_, (live_sessions_le_one hreached).1⟩
  cases hs
  exact .inl (by decide)

/-- The late release of client 0 frees the slot client 1 has reserved, and
client 2 gets past the busy check beside it. -/
theorem live_sessions_two :
    ¬ ∀ s, Reached (step .ami) (fun _ _ => True) System.new s → {i | s.Live i}.encard ≤ 1 := by
  intro h
  have hsome : (exec (step .ami) (fun _ _ => True)
      (staleThenConnecting ++ [.release 0, .acquire 2]) System.new).isSome := by decide
  obtain ⟨s, hs⟩ := Option.isSome_iff_exists.mp hsome
  have hle := h s (reached_of_exec .init hs)
  rw [Set.encard_le_one_iff] at hle
  cases hs
  have := hle 1 2 (.inl (by decide)) (.inl (by decide))
  omega

/-! ### Release isolation -/

/-- The step from `s` to `s'`, taken for call `i`, cancels no context, closes no
client and takes no busy slot of another call. -/
def Isolates (i : Nat) (s s' : System) : Prop :=
  ∀ j, j ≠ i → (s'.call j).cancelled = (s.call j).cancelled ∧
    (s'.call j).closed = (s.call j).closed ∧ (s.HoldsSlot j → s'.HoldsSlot j)

/-- A release is called while the caller's own session is still up, or while the
bridge is not busy. -/
def ReleasesOwn : Action → System → Prop
  | .release i, s =>
      ((s.call i).ended = false ∧ (s.call i).closed = false) ∨ s.bridge.active = false
  | .acquire _, _ | .connectFails _, _ | .connectSucceeds _, _ | .publish _, _ | .runEnds _, _ =>
      True

instance : ∀ a s, Decidable (ReleasesOwn a s)
  | .release i, s => inferInstanceAs
      (Decidable (((s.call i).ended = false ∧ (s.call i).closed = false) ∨ s.bridge.active = false))
  | .acquire _, _ | .connectFails _, _ | .connectSucceeds _, _ | .publish _, _ | .runEnds _, _ =>
      inferInstanceAs (Decidable True)

/-- What a release by its own rules finds in the slot. -/
theorem Represents.releasesOwn (h : Represents s m) (hphase : (s.call i).phase = .running) :
    ReleasesOwn (.release i) s ↔ m = .serving i ∨ m = .free := by
  have hup : (s.call i).ended = false ∧ (s.call i).closed = false ↔ m = .serving i := by
    rw [← h.up, Call.Up]
    simp [hphase]
  have hfree : s.bridge.active = false ↔ m = .free := by
    rw [← Bool.not_eq_true, h.active, not_not]
  simp only [ReleasesOwn, hup, hfree]

theorem represents_of_reached_own (h : Reached (step b) ReleasesOwn System.new s) :
    ∃ m, Represents s m := by
  apply exists_represents _ h
  rintro i s s' m hm hok hs j rfl
  have := (hm.releasesOwn (step_release hs).1).mp hok
  simp at this

theorem Represents.isolates_iff (h : Represents s m) (hs : step b (.release i) s = some s') :
    Isolates i s s' ↔ ReleasesOwn (.release i) s := by
  obtain ⟨hphase, -, rfl⟩ := step_release hs
  rw [h.releasesOwn hphase]
  constructor
  · intro hiso
    have hslot (j : Nat) (hj : m.owner = some j) (hm : m ≠ .free) : j = i := by
      by_contra hji
      have := (hiso j hji).2.2 ⟨h.active.mpr hm, h.holder j hj⟩
      simp [System.HoldsSlot] at this
    cases m with
    | free => exact .inr rfl
    | connecting j =>
        have hji := hslot j rfl (by simp)
        subst hji
        have := (h.pending j).mpr rfl
        simp [Call.Pending, hphase] at this
    | serving j =>
        have hji := hslot j rfl (by simp)
        subst hji
        exact .inl rfl
  · intro hm j hji
    have hpublished : m.published ≠ some j := by
      rcases hm with rfl | rfl
      · simpa [Slot.published] using fun h => hji h.symm
      · simp [Slot.published]
    rw [System.modify_call, if_neg hji, Release_call, h.client, h.cancel]
    refine ⟨by simp [hpublished], by simp [hpublished], ?_⟩
    rintro ⟨hactive, hholder⟩
    rcases hm with rfl | rfl
    · have := (h.holder i rfl).symm.trans hholder
      exact absurd (Option.some.inj this).symm hji
    · exact absurd rfl (h.active.mp hactive)

/-- In every run in which each release is called while its own session is up or
the bridge is idle, a release leaves every other session alone exactly when it
is itself called so. -/
theorem release_isolates_iff (h : Reached (step b) ReleasesOwn System.new s)
    (hs : step b (.release i) s = some s') :
    Isolates i s s' ↔ ReleasesOwn (.release i) s := by
  obtain ⟨m, hm⟩ := represents_of_reached_own h
  exact hm.isolates_iff hs

theorem release_isolates_own_session :
    ∃ s s', Reached (step .ami) ReleasesOwn System.new s ∧
      step .ami (.release 0) s = some s' ∧ Isolates 0 s s' := by
  have hsome : (exec (step .ami) ReleasesOwn [.acquire 0, .connectSucceeds 0, .publish 0]
      System.new).isSome := by decide
  obtain ⟨s, hs⟩ := Option.isSome_iff_exists.mp hsome
  have hreached := reached_of_exec .init hs
  cases hs
  exact ⟨_, _, hreached, rfl, (release_isolates_iff hreached rfl).mpr (.inl (by decide))⟩

/-- Client 0's session ends by itself, client 1 is served, and the late release
of client 0 cancels and closes client 1's session. -/
theorem release_closes_other_session :
    ¬ ∀ i s s', Reached (step .ami) (fun _ _ => True) System.new s →
      step .ami (.release i) s = some s' → Isolates i s s' := by
  intro h
  have hsome : (exec (step .ami) (fun _ _ => True)
      (staleThenConnecting ++ [.connectSucceeds 1, .publish 1]) System.new).isSome := by decide
  obtain ⟨s, hs⟩ := Option.isSome_iff_exists.mp hsome
  have hreached := reached_of_exec .init hs
  cases hs
  have := (h 0 _ _ hreached rfl 1 (by decide)).2.1
  revert this
  decide

/-! ### Clients stay within reach -/

/-- Every open client is the published one or still held by its `Acquire`. -/
def NoLeak (s : System) : Prop :=
  ∀ i, s.Open i → s.bridge.client = some i ∨ (s.call i).phase = .connected

/-- A session goroutine ends only after its client left the bridge, and a
client is published only into an empty bridge. -/
def HandsOver : Action → System → Prop
  | .runEnds i, s => s.bridge.client ≠ some i
  | .publish _, s => s.bridge.client = none
  | .acquire _, _ | .connectFails _, _ | .connectSucceeds _, _ | .release _, _ => True

instance : ∀ a s, Decidable (HandsOver a s)
  | .runEnds i, s => inferInstanceAs (Decidable (s.bridge.client ≠ some i))
  | .publish _, s => inferInstanceAs (Decidable (s.bridge.client = none))
  | .acquire _, _ | .connectFails _, _ | .connectSucceeds _, _ | .release _, _ =>
      inferInstanceAs (Decidable True)

/-- The published client runs and is open, and no open client is lost. -/
structure Held (s : System) : Prop where
  fresh : ∀ j, (s.call j).Fresh
  client_running : ∀ j, s.bridge.client = some j → (s.call j).phase = .running
  client_open : ∀ j, s.bridge.client = some j → (s.call j).closed = false
  noLeak : NoLeak s

theorem held_new : Held System.new := by
  constructor <;> simp [System.new, Call.Fresh, NoLeak, System.Open]

/-- A section that rewrites one call and the bridge fields, for clients in reach. -/
theorem Held.modify {f : Call → Call} {r : Bridge} {o : Option Nat} (h : Held s)
    (hfresh : (f (s.call i)).Fresh)
    (hself : r.client = some i → (f (s.call i)).phase = .running ∧ (f (s.call i)).closed = false)
    (hleak : ((f (s.call i)).phase = .connected ∨ (f (s.call i)).phase = .running) →
      (f (s.call i)).closed = false → r.client = some i ∨ (f (s.call i)).phase = .connected)
    (hkeep : ∀ j, j ≠ i → (r.client = some j ↔ s.bridge.client = some j)) :
    Held { s.modify i f with bridge := r, holder := o } where
  fresh j := by
    show ((s.modify i f).call j).Fresh
    rw [System.modify_call]
    split
    · exact hfresh
    · exact h.fresh j
  client_running j hj := by
    show ((s.modify i f).call j).phase = .running
    rw [System.modify_call]
    split
    case isTrue hji => exact (hself (hji ▸ hj)).1
    case isFalse hji => exact h.client_running j ((hkeep j hji).mp hj)
  client_open j hj := by
    show ((s.modify i f).call j).closed = false
    rw [System.modify_call]
    split
    case isTrue hji => exact (hself (hji ▸ hj)).2
    case isFalse hji => exact h.client_open j ((hkeep j hji).mp hj)
  noLeak j hj := by
    show r.client = some j ∨ ((s.modify i f).call j).phase = .connected
    change (((s.modify i f).call j).phase = .connected ∨ ((s.modify i f).call j).phase = .running) ∧
      ((s.modify i f).call j).closed = false at hj
    rw [System.modify_call] at hj ⊢
    split at hj
    case isTrue hji =>
      rw [if_pos hji, hji]
      exact hleak hj.1 hj.2
    case isFalse hji =>
      rw [if_neg hji, hkeep j hji]
      exact h.noLeak j hj

/-- A section that rewrites one call and leaves the bridge fields alone. -/
theorem Held.modifyCall {f : Call → Call} (h : Held s) (hfresh : (f (s.call i)).Fresh)
    (hself : s.bridge.client = some i →
      (f (s.call i)).phase = .running ∧ (f (s.call i)).closed = false)
    (hleak : ((f (s.call i)).phase = .connected ∨ (f (s.call i)).phase = .running) →
      (f (s.call i)).closed = false →
        s.bridge.client = some i ∨ (f (s.call i)).phase = .connected) :
    Held (s.modify i f) :=
  h.modify (r := s.bridge) (o := s.holder) hfresh hself hleak fun _ _ => Iff.rfl

theorem Held.Release (h : Held s) : Held s.Release where
  fresh j := by
    intro hphase
    rw [Release_call] at hphase ⊢
    have hclient : s.bridge.client ≠ some j := fun hc => hphase (h.client_running j hc)
    simpa [hclient] using h.fresh j hphase
  client_running := by simp
  client_open := by simp
  noLeak j hj := by
    rw [System.Open, Release_call] at hj
    simp only [Bool.or_eq_false_iff, decide_eq_false_iff_not] at hj
    rw [Release_call]
    rcases h.noLeak j ⟨hj.1, hj.2.1⟩ with hc | hp
    · exact absurd hc hj.2.2
    · exact .inr hp

theorem Held.next {a : Action} (h : Held s) (hok : HandsOver a s)
    (hs : step .ilo a s = some s') : Held s' := by
  cases a with
  | acquire i =>
      obtain ⟨hidle, hbranch⟩ := step_acquire hs
      have hclient : s.bridge.client ≠ some i := by
        intro hc
        simp [h.client_running i hc] at hidle
      have hfresh := h.fresh i (by simp [hidle])
      rcases hbranch with ⟨-, rfl⟩ | ⟨-, rfl⟩
      · apply h.modifyCall
        · exact fun _ => hfresh
        · exact fun hc => absurd hc hclient
        · simp
      · apply h.modify
        · exact fun _ => hfresh
        · exact fun hc => absurd hc hclient
        · simp
        · exact fun _ _ => Iff.rfl
  | connectFails i =>
      obtain ⟨hphase, rfl⟩ := step_connectFails hs
      have hclient : s.bridge.client ≠ some i := by
        intro hc
        simp [h.client_running i hc] at hphase
      apply h.modify (o := s.holder)
      · exact fun _ => h.fresh i (by simp [hphase])
      · exact fun hc => absurd hc hclient
      · simp
      · exact fun _ _ => Iff.rfl
  | connectSucceeds i =>
      obtain ⟨hphase, rfl⟩ := step_connectSucceeds hs
      have hclient : s.bridge.client ≠ some i := by
        intro hc
        simp [h.client_running i hc] at hphase
      apply h.modifyCall
      · exact fun _ => h.fresh i (by simp [hphase])
      · exact fun hc => absurd hc hclient
      · exact fun _ _ => .inr rfl
  | publish i =>
      obtain ⟨hphase, rfl⟩ := step_publish hs
      have hempty : s.bridge.client = none := hok
      apply h.modify (o := s.holder)
      · simp [Call.Fresh]
      · exact fun _ => ⟨rfl, (h.fresh i (by simp [hphase])).2⟩
      · exact fun _ _ => .inl rfl
      · intro j hji
        have hij : i ≠ j := fun h => hji h.symm
        simp [hempty, hij]
  | runEnds i =>
      obtain ⟨hphase, -, rfl⟩ := step_runEnds hs
      have hclient : s.bridge.client ≠ some i := hok
      simp only [hclient, if_false]
      apply h.modify (o := s.holder)
      · simp [Call.Fresh, hphase]
      · exact fun hc => absurd hc hclient
      · intro _ hclosed
        have hclosed : (s.call i).closed = false := by simpa [Backend.runCloses] using hclosed
        exact h.noLeak i ⟨.inr hphase, hclosed⟩
      · exact fun _ _ => Iff.rfl
  | release i =>
      obtain ⟨hphase, -, rfl⟩ := step_release hs
      have hR := h.Release
      have hrun : (s.Release.call i).phase = .running := by rw [Release_call, hphase]
      apply hR.modifyCall
      · simp [Call.Fresh, hrun]
      · simp
      · exact fun _ hclosed => hR.noLeak i ⟨.inr hrun, hclosed⟩

/-- A step against the hand-over rules loses a client at once. -/
theorem Held.leak_of_not_handsOver {a : Action} (h : Held s) (hbad : ¬ HandsOver a s)
    (hs : step .ilo a s = some s') : ¬ NoLeak s' := by
  cases a with
  | acquire i => exact absurd trivial hbad
  | connectFails i => exact absurd trivial hbad
  | connectSucceeds i => exact absurd trivial hbad
  | release i => exact absurd trivial hbad
  | runEnds i =>
      obtain ⟨hphase, -, rfl⟩ := step_runEnds hs
      have hclient : s.bridge.client = some i := not_not.mp hbad
      have hopen := h.client_open i hclient
      intro hno
      have := hno i
      simp [System.Open, System.modify, hclient, hphase, hopen, Backend.runCloses] at this
  | publish i =>
      obtain ⟨hphase, rfl⟩ := step_publish hs
      obtain ⟨j, hj⟩ : ∃ j, s.bridge.client = some j := Option.ne_none_iff_exists'.mp hbad
      have hrun := h.client_running j hj
      have hji : j ≠ i := by
        rintro rfl
        simp [hrun] at hphase
      have hij : i ≠ j := fun h => hji h.symm
      intro hno
      have := hno j
      simp [System.Open, System.modify, hji, hij, hrun, h.client_open j hj] at this

/-- In every run of the iLO bridge whose steps meet the hand-over rules, every
open client is within reach; the rules are exact, in that the first step
against them loses a client. -/
theorem ilo_noLeak_iff (h : Reached (step .ilo) HandsOver System.new s) :
    NoLeak s ∧ ∀ a s', step .ilo a s = some s' → (NoLeak s' ↔ HandsOver a s) := by
  have hheld : Held s := h.invariant (I := Held) held_new fun _ _ _ hi hok => hi.next hok
  refine ⟨hheld.noLeak, ?_⟩
  intro a s' hs
  constructor
  · intro hno
    by_contra hbad
    exact hheld.leak_of_not_handsOver hbad hs hno
  · intro hok
    exact (hheld.next hok hs).noLeak

theorem ilo_noLeak_iff_published :
    ∃ s, Reached (step .ilo) HandsOver System.new s ∧ s.Open 0 ∧ NoLeak s := by
  have hsome : (exec (step .ilo) HandsOver [.acquire 0, .connectSucceeds 0, .publish 0]
      System.new).isSome := by decide
  obtain ⟨s, hs⟩ := Option.isSome_iff_exists.mp hsome
  have hreached := reached_of_exec .init hs
  refine ⟨s, hreached, ?_, (ilo_noLeak_iff hreached).1⟩
  cases hs
  exact ⟨.inr (by decide), by decide⟩

/-- The iLO session of client 0 ends by itself: its client is open, not
published any more, and no `Acquire` holds it. -/
theorem ilo_client_leaks :
    ¬ ∀ s, Reached (step .ilo) (fun _ _ => True) System.new s → NoLeak s := by
  intro h
  have hsome : (exec (step .ilo) (fun _ _ => True)
      [.acquire 0, .connectSucceeds 0, .publish 0, .runEnds 0] System.new).isSome := by decide
  obtain ⟨s, hs⟩ := Option.isSome_iff_exists.mp hsome
  have hno := h s (reached_of_exec .init hs)
  cases hs
  have := hno 0 ⟨.inr (by decide), by decide⟩
  revert this
  decide

end Outband.Kvm
