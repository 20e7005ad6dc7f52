import Outband.Rfb.Server

/-!
# The size the client knows

`Serve` keeps the size of the last frame it sent and announces every frame of
another size. The size it starts with is read after the one `ServerInit` gave,
and it moves on with each frame while the client has not said that it knows
DesktopSize, so that the size kept need not be the size the client was told.
From the client's word on the two can only differ if they differed then.
-/

namespace Outband.Rfb

open Foundation

/-- The size a message tells the client. -/
def Event.size : Event → Option (Nat × Nat)
  | .serverInit w h | .desktopSize w h => some (headerSize w h)
  | .advertised | .raw _ => none

/-- The size the client was told last. -/
def announced (log : List Event) : Option (Nat × Nat) := (log.filterMap Event.size).getLast?

theorem announced_append {log events : List Event} (h : events.filterMap Event.size = []) :
    announced (log ++ events) = announced log := by
  rw [announced, List.filterMap_append, h, List.append_nil, announced]

theorem announced_append_desktopSize (log : List Event) (w h : Int) :
    announced (log ++ [.desktopSize w h]) = some (headerSize w h) := by
  simp [announced, Event.size]

/-- From the client's word on, every Raw update has the size the client was told last. -/
def Announced (log : List Event) : Prop :=
  ∀ before f after, log = before ++ .raw f :: after → .advertised ∈ before →
    announced before = some f.header

theorem Announced.append {log : List Event} {e : Event} (h : Announced log)
    (he : ∀ f, e = .raw f → .advertised ∈ log → announced log = some f.header) :
    Announced (log ++ [e]) := by
  intro before f after heq hmem
  rcases List.eq_nil_or_concat after with rfl | ⟨after, last, rfl⟩
  · obtain ⟨rfl, hlast⟩ := List.append_inj' heq rfl
    exact he f (List.singleton_inj.mp hlast) hmem
  · rw [List.concat_eq_append, ← List.cons_append, ← List.append_assoc] at heq
    exact h before f after (List.append_inj' heq rfl).1 hmem

namespace Session

variable {a : Act} {s s' : Session} {w h : Int}

/-- The client was told the size that `Serve` keeps, or is about to be told another. -/
def Synced (s : Session) : Prop :=
  match s.phase with
  | .stopped => True
  | .loaded f => s.Resized f ∨ announced s.log = some (headerSize s.lastW s.lastH)
  | _ => announced s.log = some (headerSize s.lastW s.lastH)

instance (s : Session) : Decidable (Synced s) := by
  unfold Synced
  split <;> infer_instance

/-- The client announces DesktopSize while it knows the size that `Serve` keeps. -/
def InStep (a : Act) (s : Session) : Prop := a = .client .desktopSizeOK → Synced s

instance (a : Act) (s : Session) : Decidable (InStep a s) :=
  inferInstanceAs (Decidable (_ → _))

/-- What connects the size kept, the flag and the log. -/
structure Geometry (s : Session) : Prop where
  kept : ∀ f, s.phase = .writing f → s.lastW = f.W ∧ s.lastH = f.H
  silent : s.desktopSizeOK = false → .advertised ∉ s.log
  early : ¬ s.Reading → s.desktopSizeOK = false
  synced : s.desktopSizeOK = true → Synced s
  told : Announced s.log

theorem Geometry.store (hs : Geometry s) (w h : Int) (pix : Bytes) :
    Geometry (s.store w h pix) := by
  rw [Session.store]
  split_ifs
  · exact ⟨hs.kept, hs.silent, hs.early, hs.synced, hs.told⟩
  · exact hs

theorem synced_advertised (hs : Synced s) : Synced (s.client .desktopSizeOK) := by
  have hsize : announced (s.log ++ [.advertised]) = announced s.log := announced_append rfl
  rw [Synced] at hs ⊢
  change match s.phase with
    | .stopped => True
    | .loaded f => s.Resized f ∨
        announced (s.log ++ [.advertised]) = some (headerSize s.lastW s.lastH)
    | _ => announced (s.log ++ [.advertised]) = some (headerSize s.lastW s.lastH)
  rw [hsize]
  exact hs

theorem Geometry.client (hs : Geometry s) (e : Effect) (hreading : s.Reading)
    (hok : InStep (.client e) s) : Geometry (s.client e) := by
  cases e with
  | desktopSizeOK =>
      refine ⟨hs.kept, fun hflag => ?_, fun hearly => absurd hreading hearly,
        fun _ => synced_advertised (hok rfl), hs.told.append fun f hf => ?_⟩
      · cases hflag
      · cases hf
  | request incremental =>
      rw [Session.client, Session.request]
      split
      · exact ⟨hs.kept, hs.silent, hs.early, hs.synced, hs.told⟩
      · exact ⟨hs.kept, hs.silent, hs.early, hs.synced, hs.told⟩
  | keyEvent | pointerEvent | cutText => exact hs

/-- After the announcement the client knows the size of the frame. -/
theorem announced_announce {f : Frame} (hsynced : Synced s) (hphase : s.phase = .loaded f)
    (hflag : s.desktopSizeOK = true) : announced (s.announce f).log = some f.header := by
  rw [Synced, hphase] at hsynced
  change announced (s.log ++ s.announcement f) = _
  by_cases hresized : s.Resized f
  · rw [announcement, if_pos ⟨hresized, hflag⟩]
    exact announced_append_desktopSize _ _ _
  · have hsize : f.W = s.lastW ∧ f.H = s.lastH := by
      rwa [Resized, not_or, not_not, not_not] at hresized
    rw [announcement, if_neg (fun h => hresized h.1), List.append_nil,
      hsynced.resolve_left hresized, Frame.header, hsize.1, hsize.2]

theorem Geometry.announce {f : Frame} (hs : Geometry s) (hphase : s.phase = .loaded f) :
    Geometry (s.announce f) := by
  refine ⟨?_, ?_, ?_, ?_, ?_⟩
  · rintro f' hf'
    cases hf'
    exact ⟨rfl, rfl⟩
  · intro hflag hmem
    have hnone : s.announcement f = [] := if_neg fun h => absurd (hflag.symm.trans h.2) (by decide)
    change _ ∈ s.log ++ s.announcement f at hmem
    rw [hnone, List.append_nil] at hmem
    exact hs.silent hflag hmem
  · exact fun hearly => absurd rfl hearly
  · exact fun hflag => announced_announce (hs.synced hflag) hphase hflag
  · change Announced (s.log ++ s.announcement f)
    rw [announcement]
    split_ifs
    · exact hs.told.append fun f' hf' => by cases hf'
    · rw [List.append_nil]
      exact hs.told

theorem Geometry.write {f : Frame} (hs : Geometry s) (hphase : s.phase = .writing f) :
    Geometry (s.write f) := by
  obtain ⟨hw, hh⟩ := hs.kept f hphase
  have htold : s.desktopSizeOK = true → announced s.log = some f.header := by
    intro hflag
    have hsynced := hs.synced hflag
    rw [Synced, hphase, hw, hh] at hsynced
    exact hsynced
  refine ⟨fun f' hf' => (by cases hf'), ?_, ?_, ?_, ?_⟩
  · intro hflag hmem
    rcases List.mem_append.mp hmem with hold | hnew
    · exact hs.silent hflag hold
    · cases List.mem_singleton.mp hnew
  · exact fun hearly => absurd rfl hearly
  · intro hflag
    change announced (s.log ++ [.raw f]) = some (headerSize s.lastW s.lastH)
    rw [announced_append rfl, htold hflag, hw, hh, Frame.header]
  · refine hs.told.append ?_
    intro f' hf' hmem
    cases hf'
    exact htold (by
      by_contra hflag
      exact hs.silent (Bool.eq_false_iff.mpr hflag) hmem)

/-- A step that changes neither the log nor the flag nor the size kept. -/
theorem Geometry.move (hs : Geometry s) (hreading : s'.Reading) (hlog : s'.log = s.log)
    (hflag : s'.desktopSizeOK = s.desktopSizeOK) (hwriting : ∀ f, s'.phase ≠ .writing f)
    (hsynced : Synced s → Synced s') : Geometry s' where
  kept f hf := absurd hf (hwriting f)
  silent := by
    rw [hflag, hlog]
    exact hs.silent
  early hearly := absurd hreading hearly
  synced := by
    rw [hflag]
    exact fun htrue => hsynced (hs.synced htrue)
  told := by
    rw [hlog]
    exact hs.told

/-- `Serve` returns. -/
theorem Geometry.halt (hs : Geometry s) (hphase : s'.phase = s.halted) (hlog : s'.log = s.log)
    (hflag : s'.desktopSizeOK = s.desktopSizeOK) : Geometry s' := by
  by_cases hhandshake : s.phase = .handshake
  · have hfalse : s.desktopSizeOK = false := hs.early (not_reading_of hhandshake)
    rw [halted, if_pos hhandshake] at hphase
    refine ⟨fun f hf => ?_, ?_, fun _ => hflag.trans hfalse, fun htrue => ?_, ?_⟩
    · rw [hphase] at hf
      cases hf
    · rw [hflag, hlog]
      exact hs.silent
    · exact absurd ((hflag.trans hfalse).symm.trans htrue) (by decide)
    · rw [hlog]
      exact hs.told
  · rw [halted, if_neg hhandshake] at hphase
    refine hs.move (reading_of hphase) hlog hflag ?_ fun _ => ?_
    · simp [hphase]
    · rw [Synced, hphase]
      trivial

theorem Geometry.next (hs : Geometry s) (hok : InStep a s) (hnext : Next s a s') :
    Geometry s' := by
  cases hnext with
  | store w h pix => exact hs.store w h pix
  | signal => exact ⟨hs.kept, hs.silent, hs.early, hs.synced, hs.told⟩
  | client e hreading => exact hs.client e hreading hok
  | announce f hphase => exact hs.announce hphase
  | write f hphase => exact hs.write hphase
  | fail n | stop => exact hs.halt rfl rfl rfl
  | receive hphase =>
      refine hs.move rfl rfl rfl ?_ ?_
      · simp [Session.receive]
      · intro hsynced
        rw [Synced, hphase] at hsynced
        exact hsynced
  | read hphase =>
      refine hs.move rfl rfl rfl ?_ ?_
      · simp [Session.read]
      · intro hsynced
        rw [Synced, hphase] at hsynced
        exact .inr hsynced
  | take incremental hphase hreqc =>
      refine hs.move ?_ rfl rfl ?_ ?_
      · cases incremental <;> rfl
      · cases incremental <;> simp [Session.take]
      · intro hsynced
        rw [Synced, hphase] at hsynced
        cases incremental <;> exact hsynced
  | serverInit hphase =>
      have hflag : s.desktopSizeOK = false := hs.early (not_reading_of hphase)
      refine ⟨fun f hf => (by cases hf), ?_, fun _ => hflag, ?_, ?_⟩
      · intro _ hmem
        rcases List.mem_append.mp hmem with hold | hnew
        · exact hs.silent hflag hold
        · cases List.mem_singleton.mp hnew
      · exact fun htrue => absurd (hflag.symm.trans htrue) (by decide)
      · exact hs.told.append fun f hf => by cases hf
  | start hphase =>
      have hflag : s.desktopSizeOK = false := hs.early (not_reading_of hphase)
      refine ⟨fun f hf => (by cases hf), hs.silent, fun _ => hflag, ?_, hs.told⟩
      exact fun htrue => absurd (hflag.symm.trans htrue) (by decide)

theorem geometry_new (w h : Int) : Geometry (new w h) where
  kept _ hf := by cases hf
  silent _ := by simp [new]
  early _ := rfl
  synced hflag := by cases hflag
  told before f after heq := by simp [new] at heq

theorem geometry_of_run (hrun : Run InStep w h s) : Geometry s :=
  hrun.invariant (I := Geometry) (geometry_new w h)
    fun _ _ _ hs hok hstep => hs.next hok (next_of_step hstep)

/-- In every run in which the client announces DesktopSize while it knows the size that `Serve`
keeps, it is sent frames of the size it was told last from then on. -/
theorem raw_announced (hrun : Run InStep w h s) : Announced s.log := (geometry_of_run hrun).told

/-- A frame of another size, sent to a client that knows DesktopSize. -/
theorem raw_announced_resized : ∃ s, Run InStep 1024 768 s ∧
    s.log = [.serverInit 1024 768, .advertised, .desktopSize 1 1, .raw ⟨1, 1, [1, 2, 3, 4]⟩] ∧
    Announced s.log := by
  have htest : ((exec step InStep [.serverInit, .start, .client .desktopSizeOK,
      .store 1 1 [1, 2, 3, 4], .client (.request false), .take, .read, .announce, .write]
      (new 1024 768)).any fun s => decide (s.log = [.serverInit 1024 768, .advertised,
        .desktopSize 1 1, .raw ⟨1, 1, [1, 2, 3, 4]⟩])) = true := by
    decide +kernel
  obtain ⟨s, hrun, hlog⟩ := exists_reached_of_exec htest
  exact ⟨s, hrun, hlog, raw_announced hrun⟩

/-- The first frame comes between `ServerInit` and the first look at its size: it is never
announced. -/
theorem raw_unannounced :
    ¬ ∀ (w h : Int) (s : Session), Run (fun _ _ => True) w h s → Announced s.log := by
  have htest : ((exec step (fun _ _ => True) [.serverInit, .store 1 1 [1, 2, 3, 4], .start,
      .client .desktopSizeOK, .client (.request false), .take, .read, .announce, .write]
      (new 1024 768)).any fun s => decide (s.log = [.serverInit 1024 768, .advertised,
        .raw ⟨1, 1, [1, 2, 3, 4]⟩])) = true := by
    decide +kernel
  obtain ⟨s, hrun, hlog⟩ := exists_reached_of_exec htest
  intro hall
  have htold := hall 1024 768 s hrun [.serverInit 1024 768, .advertised] ⟨1, 1, [1, 2, 3, 4]⟩ []
    hlog (by simp)
  exact absurd htold (by decide)

/-! ### The condition is needed -/

/-- The run can go on to a Raw update of another size than the client was told. -/
def Breaks (s : Session) : Prop :=
  ∃ acts s', exec step (fun _ _ => True) acts s = some s' ∧ ¬ Announced s'.log

theorem Breaks.of_step (hstep : step a s = some s') (h : Breaks s') : Breaks s := by
  obtain ⟨acts, s'', hexec, hlog⟩ := h
  refine ⟨a :: acts, s'', ?_, hlog⟩
  simp only [exec, hstep, if_true]
  exact hexec

/-- The client has announced DesktopSize and knows another size than `Serve` keeps. -/
structure Mismatch (s : Session) : Prop where
  advertised : .advertised ∈ s.log
  differs : announced s.log ≠ some (headerSize s.lastW s.lastH)
  width : 0 < s.lastW
  height : 0 < s.lastH

theorem Mismatch.breaks_of_writing {f : Frame} (hs : Mismatch s) (hphase : s.phase = .writing f)
    (hkept : s.lastW = f.W ∧ s.lastH = f.H) : Breaks s := by
  refine ⟨[.write], s.write f, ?_, ?_⟩
  · have hstep : step .write s = some (s.write f) := by
      rw [step, hphase]
    simp only [exec, hstep, if_true]
  · intro htold
    apply hs.differs
    rw [hkept.1, hkept.2]
    exact htold s.log f [] rfl hs.advertised

theorem Mismatch.breaks_of_loaded {f : Frame} (hs : Mismatch s) (hphase : s.phase = .loaded f)
    (hsame : ¬ s.Resized f) : Breaks s := by
  have hstep : step .announce s = some (s.announce f) := by
    rw [step, hphase]
  have hnone : s.announcement f = [] := if_neg fun h => hsame h.1
  have hlog : (s.announce f).log = s.log := by
    change s.log ++ s.announcement f = s.log
    rw [hnone, List.append_nil]
  rw [Resized, not_or, not_not, not_not] at hsame
  obtain ⟨hwidth, hheight⟩ := hsame
  refine .of_step hstep (Mismatch.breaks_of_writing ⟨?_, ?_, ?_, ?_⟩ rfl ⟨rfl, rfl⟩)
  · rw [hlog]
    exact hs.advertised
  · rw [hlog]
    change _ ≠ some (headerSize f.W f.H)
    rw [hwidth, hheight]
    exact hs.differs
  · change 0 < f.W
    rw [hwidth]
    exact hs.width
  · change 0 < f.H
    rw [hheight]
    exact hs.height

/-- The frame of the size kept that another call of `Update` may store. -/
def sameSize (s : Session) : Session :=
  { s with
    source.frame := ⟨s.lastW, s.lastH, List.replicate (pixLength s.lastW s.lastH).toNat 0⟩
    signalling := s.signalling + 1 }

theorem Mismatch.store_sameSize (hs : Mismatch s) :
    step (.store s.lastW s.lastH (List.replicate (pixLength s.lastW s.lastH).toNat 0)) s =
      some s.sameSize := by
  have hwidth := hs.width
  have hheight := hs.height
  have haccepts : Accepts s.lastW s.lastH
      (List.replicate (pixLength s.lastW s.lastH).toNat 0) := by
    rw [Accepts, List.length_replicate]
    omega
  rw [step, Session.store, if_pos haccepts, sameSize]

theorem Mismatch.breaks_of_reading (hs : Mismatch s) (hphase : s.phase = .reading) :
    Breaks s := by
  have hread : step .read s.sameSize = some s.sameSize.read := by
    have hsame : s.sameSize.phase = .reading := hphase
    rw [step, hsame]
  refine .of_step hs.store_sameSize (.of_step hread ?_)
  refine Mismatch.breaks_of_loaded ⟨hs.advertised, hs.differs, hs.width, hs.height⟩ rfl ?_
  rintro (hwidth | hheight)
  · exact hwidth rfl
  · exact hheight rfl

theorem Mismatch.breaks_of_waiting (hs : Mismatch s) (hphase : s.phase = .waiting) :
    Breaks s := by
  have hsignal : step .signal s.sameSize = some s.sameSize.signal := by
    have hpending : s.sameSize.signalling ≠ 0 := Nat.succ_ne_zero _
    rw [step, if_neg hpending]
  have hreceive : step .receive s.sameSize.signal = some s.sameSize.signal.receive := by
    have hsame : s.sameSize.signal.phase = .waiting := hphase
    have hchanged : s.sameSize.signal.source.changed = true := rfl
    rw [step, hsame, hchanged]
  refine .of_step hs.store_sameSize (.of_step hsignal (.of_step hreceive ?_))
  exact Mismatch.breaks_of_reading ⟨hs.advertised, hs.differs, hs.width, hs.height⟩ rfl

theorem Mismatch.breaks_of_pending {incremental : Bool} (hs : Mismatch s)
    (hphase : s.phase = .idle) (hreqc : s.reqc = some incremental) : Breaks s := by
  have htake : step .take s = some (s.take incremental) := by
    rw [step, hphase, hreqc]
  refine .of_step htake ?_
  cases incremental with
  | true => exact Mismatch.breaks_of_waiting ⟨hs.advertised, hs.differs, hs.width, hs.height⟩ rfl
  | false => exact Mismatch.breaks_of_reading ⟨hs.advertised, hs.differs, hs.width, hs.height⟩ rfl

theorem Mismatch.breaks_of_idle (hs : Mismatch s) (hphase : s.phase = .idle) : Breaks s := by
  cases hreqc : s.reqc with
  | some incremental => exact hs.breaks_of_pending hphase hreqc
  | none =>
      have hreading : s.Reading := reading_of hphase
      have hrequest : step (.client (.request false)) s = some { s with reqc := some false } := by
        rw [step, if_pos hreading, Session.client, Session.request, hreqc]
      refine .of_step hrequest ?_
      exact Mismatch.breaks_of_pending ⟨hs.advertised, hs.differs, hs.width, hs.height⟩ hphase rfl

theorem positive_of_run {ok : Act → Session → Prop} (hrun : Run ok w h s) :
    Holds (fun f => 0 < f.W ∧ 0 < f.H) s := by
  refine holds_of_run ?_ ?_ hrun
  · rw [NewFrameSource]
    split
    next w' h' heq =>
      change 0 < w' ∧ 0 < h'
      split_ifs at heq with hsize <;> cases heq <;> omega
  · intro w h pix s _ haccepts
    rw [Accepts] at haccepts
    change 0 < w ∧ 0 < h
    omega

/-- A client that announces DesktopSize at another time can be sent a frame of another size than
it was told. -/
theorem breaks_of_not_synced (hrun : Run InStep w h s) (hreading : s.Reading)
    (hsynced : ¬ Synced s) : Breaks s := by
  have hstep : step (.client .desktopSizeOK) s = some (s.client .desktopSizeOK) := if_pos hreading
  have hrunning : s.phase ≠ .stopped := by
    intro hphase
    rw [Synced, hphase] at hsynced
    exact hsynced trivial
  obtain ⟨f, ⟨hwidth, hheight⟩, hW, hH⟩ := (positive_of_run hrun).kept hreading hrunning
  have hmismatch (hdiffers : announced s.log ≠ some (headerSize s.lastW s.lastH)) :
      Mismatch (s.client .desktopSizeOK) := by
    refine ⟨List.mem_append_right _ (List.mem_singleton.mpr rfl), ?_, ?_, ?_⟩
    · change announced (s.log ++ [.advertised]) ≠ _
      rwa [announced_append rfl]
    · exact hW ▸ hwidth
    · exact hH ▸ hheight
  refine .of_step hstep ?_
  rw [Synced] at hsynced
  cases hphase : s.phase with
  | handshake => exact absurd hphase hreading.phase_ne
  | refused => exact absurd hphase hreading.phase_ne
  | initialized => exact absurd hphase hreading.phase_ne
  | stopped => exact absurd hphase hrunning
  | idle =>
      rw [hphase] at hsynced
      exact (hmismatch hsynced).breaks_of_idle hphase
  | waiting =>
      rw [hphase] at hsynced
      exact (hmismatch hsynced).breaks_of_waiting hphase
  | reading =>
      rw [hphase] at hsynced
      exact (hmismatch hsynced).breaks_of_reading hphase
  | loaded f =>
      rw [hphase, not_or] at hsynced
      exact (hmismatch hsynced.2).breaks_of_loaded hphase hsynced.1
  | writing f =>
      rw [hphase] at hsynced
      exact (hmismatch hsynced).breaks_of_writing hphase ((geometry_of_run hrun).kept f hphase)

end Session

end Outband.Rfb
