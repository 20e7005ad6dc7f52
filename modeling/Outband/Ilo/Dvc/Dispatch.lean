import Outband.Ilo.Dvc.Invariant

/-!
# One round of the bit loop

`dispatch_effect` says what the side effects of a state can do: which successor
they select, how many bits they drop, what they do to the command count and
that they keep the memory invariant. `bitStep_spec` is the same statement for a
round of the loop, and everything about whole streams is derived from it.
-/

namespace Outband.Ilo.Dvc.Decoder

open Foundation

variable {d d' d'' : Decoder} {st : State}

/-! ### Bits -/

/-- Bits are only taken away, and none is left above the count. -/
structure Drains (d d' : Decoder) : Prop where
  le : d'.ibBcnt ≤ d.ibBcnt
  acc : d.ibAcc < 2 ^ d.ibBcnt → d'.ibAcc < 2 ^ d'.ibBcnt

theorem Drains.of_bits (hacc : d'.ibAcc = d.ibAcc) (hcnt : d'.ibBcnt = d.ibBcnt) :
    Drains d d' :=
  ⟨hcnt.le, fun hlt => by rwa [hacc, hcnt]⟩

theorem Drains.of_control (h : d'.control = d.control) : Drains d d' :=
  .of_bits (congrArg Control.ibAcc h) (congrArg Control.ibBcnt h)

theorem Drains.trans (h : Drains d d') (h' : Drains d' d'') : Drains d d'' :=
  ⟨h'.le.trans h.le, fun hlt => h'.acc (h.acc hlt)⟩

theorem Drains.of_shift {n : Nat} (hn : n ≤ d.ibBcnt) (hcnt : d'.ibBcnt = d.ibBcnt - n)
    (hacc : d'.ibAcc = d.ibAcc >>> n) : Drains d d' := by
  refine ⟨by omega, fun hlt => ?_⟩
  rw [hacc, hcnt, Nat.shiftRight_eq_div_pow]
  apply Nat.div_lt_of_lt_mul
  rwa [← Nat.pow_add, show n + (d.ibBcnt - n) = d.ibBcnt by omega]

/-- Aligning drops fewer than eight bits and changes nothing else but the code. -/
theorem alignByte_spec (d : Decoder) :
    ∃ c acc cnt, d.alignByte = .ok { d with code := c, ibAcc := acc, ibBcnt := cnt } ∧
      Drains d { d with code := c, ibAcc := acc, ibBcnt := cnt } := by
  have hle : d.ibBcnt &&& 7 ≤ d.ibBcnt := Nat.and_le_left
  have h7 : d.ibBcnt &&& 7 ≤ 7 := Nat.and_le_right
  unfold alignByte
  split_ifs
  · obtain ⟨c, hc, -, -⟩ := d.getBits_spec (n := d.ibBcnt &&& 7) (by omega)
    exact ⟨c, _, _, hc, .of_shift hle rfl rfl⟩
  · exact ⟨d.code, d.ibAcc, d.ibBcnt, rfl, .of_control rfl⟩

/-! ### The effect of a state -/

/-- The decoder after the bits of `st` have been read and its successor looked up. -/
structure Looked (d : Decoder) (st : State) : Prop where
  valid : d.shape.Valid
  next : d.nextState = if d.code = 0 then next0 st else d.next1 st
  code : 0 < d.bitsToRead st → d.code < 2 ^ d.bitsToRead st
  idle : Dvc.idle st = true → d.pixelCount = 0

/-- The command count after `st` has read `code`. -/
def chained (st : State) (code count : Nat) : Nat :=
  match st with
  | .firmware => count + 1
  | .corp => if code = 0 then 0 else count
  | .reset => 0
  | _ => count

/-- What the side effects of `st` can do to a decoder that has read its bits. -/
structure Effect (st : State) (d d' : Decoder) : Prop where
  valid : d'.shape.Valid
  state : d'.state = d.state
  drains : Drains d d'
  next : d'.nextState ∈ successors st
  exit : d'.nextState = .exit ↔ st = .exit ∨ st = .corp ∧ d.code = 0 ∧ d.cmdLast = 1
  idle : Dvc.idle st = true ∨ st = .reset → d'.pixelCount = 0
  cmdCount : d'.cmdCount = chained st d.code d.cmdCount

namespace Looked

theorem next_mem (h : Looked d st) (hst : st ≠ .pixcode) : d.nextState ∈ successors st := by
  have hmem : successors st = next0 st :: next1Init st :: detours st := by
    cases st <;> first | rfl | exact absurd rfl hst
  rw [h.next, hmem]
  split_ifs
  · exact List.mem_cons_self
  · by_cases hfan : st = .pixfan
    · subst hfan
      rcases h.valid.cache.pixfan with hpix | hindex
      · change d.next1 .pixfan = _ at hpix
        rw [hpix]
        decide
      · exact List.mem_cons_of_mem _ (List.mem_cons_of_mem _ hindex)
    · have hnext : d.next1 st = next1Init st := h.valid.cache.next1 st hfan
      rw [hnext]
      exact List.mem_cons_of_mem _ List.mem_cons_self

/-- The tables lead to `exit` from `exit` alone. -/
theorem next_eq_exit_iff (h : Looked d st) (hst : st ≠ .pixcode) :
    d.nextState = .exit ↔ st = .exit := by
  constructor
  · intro hexit
    rcases exit_mem_successors (hexit ▸ h.next_mem hst) with rfl | rfl
    · have hcorp : d.next1 .corp = next1Init .corp := h.valid.cache.next1 _ (by decide)
      rw [h.next, hcorp] at hexit
      split_ifs at hexit <;> revert hexit <;> decide
    · rfl
  · rintro rfl
    have hself : d.next1 .exit = next1Init .exit := h.valid.cache.next1 _ (by decide)
    rw [h.next, hself]
    split_ifs <;> decide

/-- A state that changes neither the block nor the commands. -/
theorem effect_of_quiet (h : Looked d st) (hstep : QuietStep d d') (hst : st ≠ .pixcode)
    (hreset : st ≠ .reset) (hfirmware : st ≠ .firmware) (hcorp : st = .corp → d.code ≠ 0) :
    Effect st d d' where
  valid := hstep.valid
  state := congrArg Control.state hstep.control
  drains := .of_control hstep.control
  next := hstep.next ▸ h.next_mem hst
  exit := by
    rw [hstep.next, h.next_eq_exit_iff hst]
    constructor
    · exact .inl
    · rintro (hexit | ⟨rfl, hcode, -⟩)
      · exact hexit
      · exact absurd hcode (hcorp rfl)
  idle := by
    rintro (hidle | rfl)
    · exact hstep.pixelCount.trans (h.idle hidle)
    · exact absurd rfl hreset
  cmdCount := by
    have hcount : d'.cmdCount = d.cmdCount := congrArg Control.cmdCount hstep.control
    rw [hcount]
    cases st with
    | firmware => exact absurd rfl hfirmware
    | reset => exact absurd rfl hreset
    | corp => exact (if_neg (hcorp rfl)).symm
    | _ => rfl

/-- A state outside the commands that selects one of its detours itself. -/
theorem effect_of_detour (h : Looked d st) (hvalid : d'.shape.Valid)
    (hcontrol : d'.control = d.control) (hnext : d'.nextState ∈ successors st)
    (hst : Dvc.idle st = false ∧ st ≠ .reset ∧ st ≠ .exit) : Effect st d d' where
  valid := hvalid
  state := congrArg Control.state hcontrol
  drains := .of_control hcontrol
  next := hnext
  exit := by
    have hcorp : st ≠ .corp := fun heq => by simp [heq, Dvc.idle] at hst
    constructor
    · intro hexit
      rcases exit_mem_successors (hexit ▸ hnext) with hc | he
      · exact absurd hc hcorp
      · exact .inl he
    · rintro (he | ⟨hc, -⟩)
      · exact absurd he hst.2.2
      · exact absurd hc hcorp
  idle := by
    rintro (hidle | rfl)
    · simp [hst.1] at hidle
    · exact absurd rfl hst.2.1
  cmdCount := by
    have hcount : d'.cmdCount = d.cmdCount := congrArg Control.cmdCount hcontrol
    rw [hcount]
    cases st with
    | firmware => exact absurd hst.1 (by decide)
    | reset => exact absurd rfl hst.2.1
    | corp => exact absurd hst.1 (by decide)
    | _ => rfl

/-- A state that adds pixels: it goes on as looked up, or latches. -/
theorem effect_of_pixels (h : Looked d st) (hstep : PixelStep d d')
    (hst : Dvc.idle st = false ∧ st ≠ .reset ∧ st ≠ .exit ∧ st ≠ .pixcode ∧
      State.latched ∈ successors st) : Effect st d d' := by
  obtain ⟨hidle, hreset, hexit, hpix, hlatched⟩ := hst
  apply h.effect_of_detour hstep.valid hstep.control _ ⟨hidle, hreset, hexit⟩
  rcases hstep.next with hn | hn
  · rw [hn]
    exact h.next_mem hpix
  · rw [hn]
    exact hlatched

/-- A state that paints the block. -/
theorem effect_of_block (h : Looked d st) (hstep : BlockStep d d')
    (hst : State.start ∈ successors st ∧ st ≠ .exit ∧ st ≠ .corp ∧ st ≠ .firmware ∧ st ≠ .reset) :
    Effect st d d' where
  valid := hstep.valid
  state := congrArg Control.state hstep.control
  drains := .of_control hstep.control
  next := hstep.next ▸ hst.1
  exit := by
    rw [hstep.next]
    simp [hst.2.1, hst.2.2.1]
  idle := fun _ => hstep.pixelCount
  cmdCount := by
    have hcount : d'.cmdCount = d.cmdCount := congrArg Control.cmdCount hstep.control
    rw [hcount]
    cases st with
    | firmware => exact absurd rfl hst.2.2.2.1
    | reset => exact absurd rfl hst.2.2.2.2
    | corp => exact absurd rfl hst.2.2.1
    | _ => rfl

end Looked

/-! ### Commands and modes -/

/-- What a command can do: only `exit` and `print` select a successor. -/
structure CommandStep (d d' : Decoder) : Prop where
  valid : d'.shape.Valid
  state : d'.state = d.state
  drains : Drains d d'
  pixelCount : d'.pixelCount = d.pixelCount
  exit : d.cmdLast = 1 → d'.nextState = .exit
  next : d.cmdLast ≠ 1 → d'.nextState = .print0 ∨ d'.nextState = d.nextState

theorem setVideoDecryption_spec (h : d.shape.Valid) (n : Nat) :
    QuietStep d (d.setVideoDecryption n) := by
  unfold setVideoDecryption
  split_ifs
  · exact ⟨h, rfl, rfl, rfl⟩
  · exact ⟨h, rfl, rfl, rfl⟩

theorem QuietStep.command (h : QuietStep d d') (hlast : d.cmdLast ≠ 1) : CommandStep d d' where
  valid := h.valid
  state := congrArg Control.state h.control
  drains := .of_control h.control
  pixelCount := h.pixelCount
  exit := fun heq => absurd heq hlast
  next := fun _ => .inr h.next

theorem meets_dispatchCommand {F : Site → Prop} (h : d.shape.Valid) :
    Meets d.dispatchCommand (CommandStep d) F := by
  unfold dispatchCommand
  split
  case h_1 hlast => exact ⟨h, rfl, .of_control rfl, rfl, fun _ => rfl, fun hne => absurd hlast hne⟩
  case h_2 hlast => exact ⟨h, rfl, .of_control rfl, rfl, by simp [hlast], fun _ => .inl rfl⟩
  case h_3 hlast =>
    split_ifs
    · rw [rd_ok (by decide)]
      exact QuietStep.command ⟨h, rfl, rfl, rfl⟩ (by simp [hlast])
    · exact QuietStep.command ⟨h, rfl, rfl, rfl⟩ (by simp [hlast])
  case h_4 hlast => exact QuietStep.command ⟨h, rfl, rfl, rfl⟩ (by simp [hlast])
  case h_5 hlast =>
    exact QuietStep.command ⟨{ h with pixels := d.FB.sized_Clear }, rfl, rfl, rfl⟩ (by simp [hlast])
  case h_6 hlast =>
    exact QuietStep.command ⟨{ h with pixels := d.FB.sized_Clear }, rfl, rfl, rfl⟩ (by simp [hlast])
  case h_7 hlast =>
    obtain ⟨c, acc, cnt, heq, hdrains⟩ := d.alignByte_spec
    rw [heq]
    exact ⟨h, rfl, hdrains, rfl, by simp [hlast], fun _ => .inr rfl⟩
  case h_8 hlast => exact QuietStep.command ⟨h, rfl, rfl, rfl⟩ (by simp [hlast])
  case h_9 hlast =>
    rw [rd_ok (by decide)]
    exact (meets_setBitsPerColor h _).imp fun _ hstep => hstep.command (by simp [hlast])
  case h_10 hlast =>
    rw [rd_ok (by decide)]
    exact (setVideoDecryption_spec h _).command (by simp [hlast])
  case h_11 hlast =>
    rw [rd_ok (by decide)]
    apply (meets_setBitsPerColor h _).bind
    intro d' hstep
    rw [rd_ok (by decide)]
    have hcipher := setVideoDecryption_spec hstep.valid (d'.cmdBuf ⟨1, by decide⟩)
    simp only [rd_ok (show 2 < 256 by decide), rd_ok (show 3 < 256 by decide)]
    exact QuietStep.command ⟨hcipher.valid, hcipher.control.trans hstep.control,
      hcipher.next.trans hstep.next, hcipher.pixelCount.trans hstep.pixelCount⟩ (by simp [hlast])
  case h_12 hlast => exact QuietStep.command ⟨h, rfl, rfl, rfl⟩ (by simp [hlast])
  case h_13 hlast => exact QuietStep.command ⟨h, rfl, rfl, rfl⟩ (by simp [hlast])
  case h_14 hlast _ _ _ _ _ _ _ _ _ _ _ _ =>
    exact QuietStep.command ⟨h, rfl, rfl, rfl⟩ hlast

/-- A new screen size starts with an empty block and an empty cache. -/
theorem mode2_spec (h : d.shape.Valid) :
    d.mode2.shape.Valid ∧ d.mode2.control = d.control ∧ d.mode2.nextState = d.nextState ∧
      d.mode2.pixelCount = 0 := by
  have hvalid : d.enterMode.shape.Valid :=
    { h with cache := h.cache.cacheReset, pixelCount := Nat.zero_le _ }
  simp only [mode2]
  split_ifs
  · exact ⟨{ hvalid with pixels := Framebuffer.sized_Clear _ }, rfl, rfl, rfl⟩
  · have hsized : { d.enterMode with
        FB := d.enterMode.FB.Resize d.enterMode.screenX d.enterMode.screenY }.shape.Valid :=
      { hvalid with pixels := Framebuffer.sized_Resize _ _ _ }
    have hhalf := setHalfHeight_spec hsized rfl
    exact ⟨hhalf.valid, hhalf.control, hhalf.next, hhalf.pixelCount⟩

/-- The firmware byte before this one is stored when the buffer has room for it. -/
theorem storeCommand_ok (h : d.cmdCount ≤ 256) :
    ∃ buf, d.storeCommand = .ok { d with cmdBuf := buf } := by
  unfold storeCommand
  split_ifs
  · rw [wr_ok (show d.cmdCount - 1 < 256 by omega)]
    exact ⟨_, rfl⟩
  · exact ⟨d.cmdBuf, rfl⟩

theorem storeCommand_error (h : 257 ≤ d.cmdCount) : d.storeCommand = .error .cmdBuf := by
  unfold storeCommand
  rw [if_pos (by omega), wr_error (by omega)]
  rfl

/-! ### Dispatch -/

/-- A colour channel has as many bits as a colour. -/
theorem Looked.code_lt (h : Looked d st)
    (hst : st = .pixgrey ∨ st = .pixrgbr ∨ st = .pixrgbg ∨ st = .pixrgbb) :
    d.code < 2 ^ d.bitsPerColor := by
  have hwidth : d.bitsToRead st = d.bitsPerColor := by
    have heq : d.bitsToRead st = widthOf d.bitsPerColor d.blockHeight st :=
      congrFun h.valid.widths st
    rw [heq, widthOf, if_pos hst]
  have h2 : 2 ≤ d.bitsPerColor := h.valid.bitsPerColor.1
  have hcode := h.code (by omega)
  rwa [hwidth] at hcode

/-- It has a place among fifteen bits. -/
theorem Looked.channel_lt (h : Looked d st)
    (hst : st = .pixgrey ∨ st = .pixrgbr ∨ st = .pixrgbg ∨ st = .pixrgbb) {k : Nat} (hk : k ≤ 2) :
    d.code <<< (d.bitsPerColor * k) < 2 ^ 15 := by
  have h5 : d.bitsPerColor ≤ 5 := h.valid.bitsPerColor.2
  have hcode := h.code_lt hst
  calc
    d.code <<< (d.bitsPerColor * k) = d.code * 2 ^ (d.bitsPerColor * k) := Nat.shiftLeft_eq _ _
    _ < 2 ^ d.bitsPerColor * 2 ^ (d.bitsPerColor * k) :=
      Nat.mul_lt_mul_of_pos_right hcode (Nat.two_pow_pos _)
    _ = 2 ^ (d.bitsPerColor * (k + 1)) := by rw [← Nat.pow_add]; ring_nf
    _ ≤ 2 ^ 15 := Nat.pow_le_pow_right (by decide) (Nat.mul_le_mul h5 (show k + 1 ≤ 3 by omega))

theorem Looked.corp_effect (h : Looked d .corp) (hcode : d.code = 0) (hstep : CommandStep d d') :
    Effect .corp d { d' with cmdCount := 0 } where
  valid := hstep.valid
  state := hstep.state
  drains := ⟨hstep.drains.le, hstep.drains.acc⟩
  next := by
    by_cases hlast : d.cmdLast = 1
    · change d'.nextState ∈ _
      rw [hstep.exit hlast]
      decide
    · rcases hstep.next hlast with hn | hn
      · change d'.nextState ∈ _
        rw [hn]
        decide
      · exact hn ▸ h.next_mem (by decide)
  exit := by
    change d'.nextState = .exit ↔ _
    constructor
    · intro hexit
      by_cases hlast : d.cmdLast = 1
      · exact .inr ⟨rfl, hcode, hlast⟩
      · rcases hstep.next hlast with hn | hn
        · rw [hn] at hexit
          cases hexit
        · rw [hn, h.next_eq_exit_iff (by decide)] at hexit
          cases hexit
    · rintro (hexit | ⟨-, -, hlast⟩)
      · cases hexit
      · exact hstep.exit hlast
  idle := fun _ => hstep.pixelCount.trans (h.idle rfl)
  cmdCount := (if_pos hcode).symm

theorem Looked.timeout_effect (h : Looked d .timeout) {nx : State} {c acc cnt : Nat} {t : Int}
    {calls : List Event} (hnx : nx = .latched ∨ nx = d.nextState)
    (hdrains : Drains d { d with code := c, ibAcc := acc, ibBcnt := cnt }) :
    Effect .timeout d { d with
      nextState := nx, code := c, ibAcc := acc, ibBcnt := cnt, timeoutCount := t,
      ctl := calls } where
  valid := h.valid
  state := rfl
  drains := ⟨hdrains.le, hdrains.acc⟩
  next := by
    change nx ∈ _
    rcases hnx with rfl | rfl
    · decide
    · exact h.next_mem (by decide)
  exit := by
    change nx = .exit ↔ _
    rcases hnx with rfl | rfl
    · simp
    · simp [h.next_eq_exit_iff]
  idle := fun _ => h.idle rfl
  cmdCount := rfl

/-- The side effects of every state. The only fault is a full command buffer. -/
theorem dispatch_effect {F : Site → Prop} (h : Looked d st)
    (hroom : st = .firmware → d.cmdCount ≤ 256) :
    Meets (d.dispatch st) (fun r => r.2 = true ∧ Effect st d r.1) F := by
  have hv := h.valid
  have hquiet {d' : Decoder} (hstep : QuietStep d d') (hst : st ≠ .pixcode ∧ st ≠ .reset ∧
      st ≠ .firmware ∧ st ≠ .corp) : Effect st d d' :=
    h.effect_of_quiet hstep hst.1 hst.2.1 hst.2.2.1 fun heq => absurd heq hst.2.2.2
  cases st with
  | pixlru1 | pixlru0 | pixcode1 | pixcode2 | pixcode3 | pixcode4 =>
      apply (meets_cacheRank d _).bind
      intro rank _
      apply (meets_pixelFromCache (d := { d with code := rank }) hv).bind
      intro d' hstep
      exact ⟨rfl, h.effect_of_pixels ⟨hstep.valid, hstep.control, hstep.next⟩ (by decide)⟩
  | pixrptstd1 =>
      simp only [dispatch]
      split_ifs
      · have hnext : State.pixrptnstd ∈ successors .pixrptstd1 := by decide
        exact ⟨rfl, h.effect_of_detour hv rfl hnext (by decide)⟩
      · have hnext : State.pixrptstd2 ∈ successors .pixrptstd1 := by decide
        exact ⟨rfl, h.effect_of_detour hv rfl hnext (by decide)⟩
      · apply (meets_repeatPixel (d := { d with code := d.code + 2 }) hv _).bind
        intro d' hstep
        exact ⟨rfl, h.effect_of_pixels ⟨hstep.valid, hstep.control, hstep.next⟩ (by decide)⟩
  | pixrptstd2 =>
      apply (meets_repeatPixel (d := { d with code := d.code + 8 }) hv _).bind
      intro d' hstep
      exact ⟨rfl, h.effect_of_pixels ⟨hstep.valid, hstep.control, hstep.next⟩ (by decide)⟩
  | pixrptnstd =>
      apply (meets_repeatPixel hv _).bind
      intro d' hstep
      exact ⟨rfl, h.effect_of_pixels hstep (by decide)⟩
  | pixdup =>
      apply (meets_pushPixel hv _).bind
      rintro ⟨d', pushed⟩ hstep
      exact ⟨rfl, h.effect_of_pixels hstep (by decide)⟩
  | pixcode => exact ⟨rfl, h.effect_of_detour hv rfl hv.cache.pixcode (by decide)⟩
  | pixrgbr =>
      have hred := h.channel_lt (by simp) (Nat.le_refl 2)
      exact ⟨rfl, hquiet ⟨{ hv with red := hred }, rfl, rfl, rfl⟩ (by decide)⟩
  | pixrgbg =>
      have hgreen := h.channel_lt (by simp) (show 1 ≤ 2 by decide)
      rw [Nat.mul_one] at hgreen
      exact ⟨rfl, hquiet ⟨{ hv with green := hgreen }, rfl, rfl, rfl⟩ (by decide)⟩
  | pixgrey =>
      have hred := h.channel_lt (by simp) (Nat.le_refl 2)
      have hgreen := h.channel_lt (by simp) (show 1 ≤ 2 by decide)
      have hblue := h.channel_lt (by simp) (Nat.zero_le 2)
      rw [Nat.mul_one] at hgreen
      apply (meets_pixRGBB (d := { d with
        red := d.code <<< (d.bitsPerColor * 2), green := d.code <<< d.bitsPerColor })
        { hv with red := hred, green := hgreen } hblue).bind
      intro d' hstep
      exact ⟨rfl, h.effect_of_pixels ⟨hstep.valid, hstep.control, hstep.next⟩ (by decide)⟩
  | pixrgbb =>
      have hblue := h.channel_lt (by simp) (Nat.zero_le 2)
      apply (meets_pixRGBB hv hblue).bind
      intro d' hstep
      exact ⟨rfl, h.effect_of_pixels hstep (by decide)⟩
  | timeout =>
      simp only [dispatch]
      split_ifs
      · obtain ⟨c, acc, cnt, heq, hdrains⟩ := { d with nextState := .latched }.alignByte_spec
        rw [heq]
        exact ⟨rfl, h.timeout_effect (.inl rfl) ⟨hdrains.le, hdrains.acc⟩⟩
      · obtain ⟨c, acc, cnt, heq, hdrains⟩ := d.alignByte_spec
        rw [heq]
        exact ⟨rfl, h.timeout_effect (.inr rfl) hdrains⟩
  | firmware =>
      obtain ⟨buf, hbuf⟩ := storeCommand_ok (hroom rfl)
      simp only [dispatch, hbuf]
      refine ⟨rfl, hv, rfl, .of_bits rfl rfl, h.next_mem (by decide), ?_, fun _ => h.idle rfl, rfl⟩
      simpa using h.next_eq_exit_iff (by decide)
  | corp =>
      simp only [dispatch]
      split_ifs with hcode
      · exact ⟨rfl, h.effect_of_quiet ⟨hv, rfl, rfl, rfl⟩ (by decide) (by decide) (by decide)
          fun _ => hcode⟩
      · apply (meets_dispatchCommand hv).bind
        intro d' hstep
        exact ⟨rfl, h.corp_effect (by omega) hstep⟩
  | print1 =>
      have hstart : State.start ∈ successors .print1 := by decide
      simp only [dispatch]
      split_ifs with hcode
      · exact ⟨rfl, hquiet ⟨hv, rfl, rfl, rfl⟩ (by decide)⟩
      all_goals
        refine ⟨rfl, hv, rfl, .of_control rfl, hstart, ?_, fun _ => h.idle rfl, rfl⟩
        change State.start = .exit ↔ _
        simp
  | reset =>
      refine ⟨rfl, ?_, rfl, .of_bits rfl rfl, h.next_mem (by decide), ?_, fun _ => rfl, rfl⟩
      · exact { hv with
          cache := hv.cache.cacheReset
          pixelCount := Nat.zero_le _
          red := Nat.two_pow_pos 15
          green := Nat.two_pow_pos 15
          blue := Nat.two_pow_pos 15 }
      simpa using h.next_eq_exit_iff (by decide)
  | latched =>
      simp only [dispatch]
      split_ifs
      all_goals exact ⟨rfl, hquiet ⟨hv, rfl, rfl, rfl⟩ (by decide)⟩
  | blkdup =>
      apply (meets_nextBlock hv 1).bind
      intro d' hstep
      exact ⟨rfl, h.effect_of_block hstep (by decide)⟩
  | blkrptstd =>
      apply (meets_nextBlock (d := { d with code := d.code + 2 }) hv _).bind
      intro d' hstep
      exact ⟨rfl, h.effect_of_block ⟨hstep.valid, hstep.control, hstep.next, hstep.pixelCount⟩
        (by decide)⟩
  | blkrptnstd =>
      apply (meets_nextBlock hv d.code).bind
      intro d' hstep
      exact ⟨rfl, h.effect_of_block hstep (by decide)⟩
  | mode2 =>
      obtain ⟨hvalid, hcontrol, hnext, hcount⟩ := mode2_spec hv
      exact ⟨rfl, hquiet ⟨hvalid, hcontrol, hnext, hcount.trans (h.idle rfl).symm⟩ (by decide)⟩
  | hunt =>
      simp only [dispatch]
      split_ifs
      · refine ⟨rfl, hv, rfl, ⟨Nat.zero_le _, fun _ => Nat.one_pos⟩, h.next_mem (by decide), ?_,
          ?_, rfl⟩
        · simpa using h.next_eq_exit_iff (by decide)
        · simp [Dvc.idle]
      · exact ⟨rfl, hquiet ⟨hv, rfl, rfl, rfl⟩ (by decide)⟩
  | _ => exact ⟨rfl, hquiet ⟨hv, rfl, rfl, rfl⟩ (by decide)⟩

theorem dispatch_firmware_error (h : 257 ≤ d.cmdCount) :
    d.dispatch .firmware = .error .cmdBuf := by
  simp only [dispatch, storeCommand_error h]
  rfl

/-- Side effects that end without a fault. -/
theorem Looked.effect_of_ok {hungOK : Bool} (h : Looked d st)
    (hdispatch : d.dispatch st = .ok (d', hungOK)) : Effect st d d' := by
  have hroom : st = .firmware → d.cmdCount ≤ 256 := by
    rintro rfl
    by_contra hfull
    rw [dispatch_firmware_error (by omega)] at hdispatch
    cases hdispatch
  have heffect : Meets (d.dispatch st) (fun r => r.2 = true ∧ Effect st d r.1) fun _ => False :=
    dispatch_effect h hroom
  exact (heffect.of_eq_ok hdispatch).2

/-! ### A round of the loop -/

/-- The invariant at the head of the bit loop and between two bytes. -/
structure Inv (d : Decoder) : Prop where
  valid : d.shape.Valid
  idle : Dvc.idle d.state = true → d.pixelCount = 0

/-- The round from here reads a zero in state `corp` and finds the command `exit`. -/
def DispatchesExit (d : Decoder) : Prop :=
  d.state = .corp ∧ 0 < d.ibBcnt ∧ d.ibAcc &&& 1 = 0 ∧ d.cmdLast = 1

/-- The round from here has enough bits for its state. -/
def Enabled (d : Decoder) : Prop := d.bitsToRead d.state ≤ d.ibBcnt

/-- Firmware bytes since the last command or reset, after the round from here. -/
def chain (d : Decoder) (count : Nat) : Nat := chained d.state (d.ibAcc &&& 1) count

/-- Every round that goes on makes this smaller. -/
def weight (d : Decoder) : Nat := 2 * d.ibBcnt + (zeroWidth d.state).toNat

/-- What a round that goes on can do. -/
structure Round (d d' : Decoder) : Prop where
  inv : Inv d'
  drains : Drains d d'
  weight : d'.weight < d.weight
  exit : d'.state = .exit ↔ d.DispatchesExit
  cmdCount : d'.cmdCount = d.chain d.cmdCount

theorem Inv.width (h : Inv d) (st : State) :
    d.bitsToRead st = widthOf d.bitsPerColor d.blockHeight st := congrFun h.valid.widths st

theorem Inv.width_at (h : Inv d) (hst : d.state = st) :
    d.bitsToRead d.state = widthOf d.bitsPerColor d.blockHeight st := by
  rw [h.width, hst]

theorem Inv.width_le (h : Inv d) (st : State) : d.bitsToRead st ≤ 8 := by
  rw [h.width]
  exact widthOf_le h.valid.bitsPerColor.2 st

theorem Inv.width_eq_zero_iff (h : Inv d) (st : State) :
    d.bitsToRead st = 0 ↔ zeroWidth st = true := by
  rw [h.width]
  exact widthOf_eq_zero_iff h.valid.bitsPerColor.1 st

/-- `r` is `d` after the bits of its state have been taken. -/
structure Read (d r : Decoder) : Prop where
  getBits : d.getBits (d.bitsToRead d.state) = .ok r
  looked : Looked r.lookupNext d.state
  drains : Drains d r
  ibBcnt : r.ibBcnt = d.ibBcnt - d.bitsToRead d.state
  state : r.state = d.state
  cmdCount : r.cmdCount = d.cmdCount
  cmdLast : r.cmdLast = d.cmdLast
  code : d.state = .corp → r.code = d.ibAcc &&& 1

theorem Inv.exists_read (h : Inv d) (hbits : d.Enabled) : ∃ r, Read d r := by
  obtain ⟨c, heq, hlt, hone⟩ := d.getBits_spec (h.width_le d.state)
  refine ⟨_, heq, ⟨h.valid, rfl, hlt, h.idle⟩, .of_shift hbits rfl rfl, rfl, rfl, rfl, rfl, ?_⟩
  intro hcorp
  exact hone (h.width_at hcorp)

theorem Inv.of_getBits {r : Decoder} (hd : Inv d)
    (hread : d.getBits (d.bitsToRead d.state) = .ok r) :
    ∃ c, r = { d with
      code := c
      ibAcc := d.ibAcc >>> d.bitsToRead d.state
      ibBcnt := d.ibBcnt - d.bitsToRead d.state } := by
  obtain ⟨c, heq, -⟩ := d.getBits_spec (hd.width_le d.state)
  rw [hread] at heq
  cases heq
  exact ⟨c, rfl⟩

/-- A full block is painted; otherwise nothing happens after the dispatch. -/
theorem meets_finishBlock {F : Site → Prop} (h : d.shape.Valid) :
    Meets d.finishBlock (fun d' => d' = d ∨
      d.nextState = .pixels ∧ d.pixelCount = d.blockHeight * 16 ∧ BlockStep d d') F := by
  have hwidth : d.blockWidth = 16 := h.blockWidth
  unfold finishBlock
  split_ifs with hfull
  · apply (meets_nextBlock h 1).bind
    intro d' hstep
    obtain ⟨c, hc, hsound⟩ := hstep.valid.cache.cachePrune
    change Meets (ColorCache.cachePrune d'.shape.cache >>= _) _ _
    rw [hc]
    refine .inr ⟨hfull.1, by rw [hfull.2, hwidth], ?_⟩
    exact ⟨{ hstep.valid with cache := hsound }, hstep.control, hstep.next, hstep.pixelCount⟩
  · exact .inl rfl

theorem bitStep_short (h : ¬ d.Enabled) : d.bitStep = .ok (.inr (d, 0)) := by
  unfold bitStep
  rw [if_pos (Nat.lt_of_not_le h)]
  rfl

/-- The round of a state that reads no bits and has one successor in the tables. -/
theorem Inv.bitStep_zeroWidth {nx : State} (h : Inv d) (hst : d.state = st)
    (hwidth : zeroWidth st = true) (hzero : next0 st = nx) (hone : d.next1 st = nx) :
    d.bitStep = (do
      let (d', hungOK) ← dispatch { d with nextState := nx } st
      if !hungOK then pure (.inr (d', 6))
      else do
        let d' ← d'.finishBlock
        if d'.Hangs then pure (.inr (d', 6))
        else if st = .exit then pure (.inr ({ d' with state := d'.nextState }, 1))
        else pure (.inl { d' with state := d'.nextState })) := by
  subst hst
  have hlook : d.lookupNext = { d with nextState := nx } := by
    unfold lookupNext
    rw [hzero, hone, ite_self]
  unfold bitStep
  rw [(h.width_eq_zero_iff d.state).mpr hwidth, if_neg (Nat.not_lt_zero _), ← hlook]
  rfl

/-- In state `exit` the hang test comes first: the code is 6. -/
theorem bitStep_exit (h : Inv d) (hst : d.state = .exit) :
    d.bitStep = .ok (.inr ({ d with nextState := .exit }.emit .onExit, 6)) := by
  have hnext : d.next1 .exit = .exit := h.valid.cache.next1 _ (by decide)
  rw [h.bitStep_zeroWidth hst rfl (by decide) hnext]
  simp [dispatch, finishBlock, Hangs, emit, hst]
  rfl

/-- The round once the bits are there: dispatch, full block, hang test, exit test. -/
theorem Read.bitStep_eq {r : Decoder} (h : Read d r) (hbits : d.Enabled) :
    d.bitStep = (do
      let (d', hungOK) ← r.lookupNext.dispatch d.state
      if !hungOK then pure (.inr (d', 6))
      else do
        let d' ← d'.finishBlock
        if d'.Hangs then pure (.inr (d', 6))
        else if d.state = .exit then pure (.inr ({ d' with state := d'.nextState }, 1))
        else pure (.inl { d' with state := d'.nextState })) := by
  unfold bitStep
  rw [if_neg (Nat.not_lt.mpr hbits), h.getBits, ← h.state]
  rfl

theorem bitStep_overrun (h : Inv d) (hst : d.state = .firmware) (hbits : d.Enabled)
    (hcount : 257 ≤ d.cmdCount) : d.bitStep = .error .cmdBuf := by
  obtain ⟨r, hr⟩ := h.exists_read hbits
  have hroom : 257 ≤ r.lookupNext.cmdCount := hr.cmdCount ▸ hcount
  rw [hr.bitStep_eq hbits, hst, dispatch_firmware_error hroom]
  rfl

/-- After the dispatch the state cannot hang: a full block goes back to `start`
from another state, and only three other states select themselves. -/
theorem Effect.meets_rest {F : Site → Prop} {r : Decoder} (h : Effect d.state r d')
    (hstate : r.state = d.state) (hexit : d.state ≠ .exit) :
    Meets d'.finishBlock (fun e => e.shape.Valid ∧ e.control = d'.control ∧ ¬ e.Hangs ∧
      (e.nextState ∈ successors d.state ∨ e.nextState = .start) ∧
      (e.nextState = .exit ↔ d'.nextState = .exit) ∧
      (Dvc.idle e.nextState = true → e.pixelCount = 0)) F := by
  have hst : d'.state = d.state := h.state.trans hstate
  have hheight : d'.blockHeight = 8 ∨ d'.blockHeight = 16 := h.valid.blockHeight
  apply (meets_finishBlock h.valid).imp
  rintro e (rfl | ⟨hpixels, hfull, hstep⟩)
  · refine ⟨h.valid, rfl, ?_, .inl h.next, Iff.rfl, ?_⟩
    · rintro ⟨heq, hprint, hlatched, hhunt⟩
      have hself : d.state ∈ successors d.state := by
        have hnext := h.next
        rwa [← heq, hst] at hnext
      rw [hst] at hprint hlatched hhunt
      rcases eq_of_self_mem_successors hself with hs | hs | hs | hs
      · exact hprint hs
      · exact hlatched hs
      · exact hhunt hs
      · exact hexit hs
    · intro hidle
      exact h.idle (idle_of_mem_successors h.next hidle)
  · refine ⟨hstep.valid, hstep.control, ?_, .inr hstep.next, ?_, fun _ => hstep.pixelCount⟩
    · rintro ⟨heq, -⟩
      have hes : e.state = d'.state := congrArg Control.state hstep.control
      have hstart : d.state = .start := by rw [← hst, ← hes, heq, hstep.next]
      have hzero := h.idle (.inl (by rw [hstart]; rfl))
      omega
    · rw [hstep.next, hpixels]
      simp

/-- A state with bits uses some up; one without is followed by one with bits. -/
theorem Inv.weight_lt (h : Inv d) {e : Decoder} (hbits : d.Enabled) (hexit : d.state ≠ .exit)
    (hcnt : e.ibBcnt ≤ d.ibBcnt - d.bitsToRead d.state)
    (hnext : e.state ∈ successors d.state ∨ e.state = .start) : e.weight < d.weight := by
  have hzero := h.width_eq_zero_iff d.state
  have hrank : (zeroWidth e.state).toNat ≤ 1 := Bool.toNat_le _
  unfold Enabled at hbits
  unfold weight
  by_cases hw : d.bitsToRead d.state = 0
  · have hst : zeroWidth d.state = true := hzero.mp hw
    have hnz : zeroWidth e.state = false := by
      rcases hnext with hmem | hstart
      · exact zeroWidth_of_mem_successors hmem hst hexit
      · rw [hstart]
        rfl
    rw [hst, hnz]
    simp only [Bool.toNat_true, Bool.toNat_false]
    omega
  · omega

theorem Inv.dispatchesExit_iff (h : Inv d) (hbits : d.Enabled) :
    d.DispatchesExit ↔ d.state = .corp ∧ d.ibAcc &&& 1 = 0 ∧ d.cmdLast = 1 := by
  constructor
  · rintro ⟨hst, -, hbit, hlast⟩
    exact ⟨hst, hbit, hlast⟩
  · rintro ⟨hst, hbit, hlast⟩
    have hone : d.bitsToRead d.state = 1 := h.width_at hst
    unfold Enabled at hbits
    exact ⟨hst, by omega, hbit, hlast⟩

/-- The parts of a round that goes on: the bits of the state are read, its side effects take
place, and a full block is painted. -/
structure Parts (d r d' e : Decoder) : Prop where
  read : Read d r
  dispatch : r.lookupNext.dispatch d.state = .ok (d', true)
  effect : Effect d.state r.lookupNext d'
  finishBlock : d'.finishBlock = .ok e
  valid : e.shape.Valid
  control : e.control = d'.control
  next : e.nextState ∈ successors d.state ∨ e.nextState = .start
  exit : e.nextState = .exit ↔ d'.nextState = .exit
  idle : Dvc.idle e.nextState = true → e.pixelCount = 0
  bitStep : d.bitStep = .ok (.inl { e with state := e.nextState })

/-- Outside `exit` and with room for a command a round with enough bits has all its parts. -/
theorem Inv.exists_parts (h : Inv d) (hbits : d.Enabled) (hexit : d.state ≠ .exit)
    (hroom : d.state = .firmware → d.cmdCount ≤ 256) : ∃ r d' e, Parts d r d' e := by
  obtain ⟨r, hr⟩ := h.exists_read hbits
  have hroom' : d.state = .firmware → r.lookupNext.cmdCount ≤ 256 := by
    intro hst
    exact hr.cmdCount ▸ hroom hst
  obtain ⟨⟨d', hungOK⟩, hdispatch, rfl, heffect⟩ := (dispatch_effect hr.looked hroom').exists_ok
  obtain ⟨e, hfinish, hvalid, hcontrol, hgoes, hnext, hexits, hidle⟩ :=
    (heffect.meets_rest hr.state hexit).exists_ok
  refine ⟨r, d', e, hr, hdispatch, heffect, hfinish, hvalid, hcontrol, hnext, hexits, hidle, ?_⟩
  rw [hr.bitStep_eq hbits, hdispatch]
  change (d'.finishBlock >>= _) = _
  rw [hfinish]
  change (if e.Hangs then _ else _) = _
  rw [if_neg hgoes, if_neg hexit]
  rfl

/-- A round with enough bits goes on, outside `exit` and with room for a command. -/
theorem bitStep_round (h : Inv d) (hbits : d.Enabled) (hexit : d.state ≠ .exit)
    (hroom : d.state = .firmware → d.cmdCount ≤ 256) :
    ∃ d', d.bitStep = .ok (.inl d') ∧ Round d d' := by
  obtain ⟨r, d', e, hparts⟩ := h.exists_parts hbits hexit hroom
  have hr := hparts.read
  have hdispatched : Drains r.lookupNext e :=
    hparts.effect.drains.trans (.of_control hparts.control)
  have hdrains : Drains r { e with state := e.nextState } := ⟨hdispatched.le, hdispatched.acc⟩
  have hcount : e.cmdCount = d'.cmdCount := congrArg Control.cmdCount hparts.control
  refine ⟨{ e with state := e.nextState }, hparts.bitStep, ⟨hparts.valid, hparts.idle⟩,
    hr.drains.trans hdrains, ?_, ?_, ?_⟩
  · exact h.weight_lt hbits hexit (hr.ibBcnt ▸ hdrains.le) hparts.next
  · change e.nextState = .exit ↔ _
    rw [hparts.exit, hparts.effect.exit, h.dispatchesExit_iff hbits]
    constructor
    · rintro (hst | ⟨hst, hcode, hlast⟩)
      · exact absurd hst hexit
      · exact ⟨hst, hr.code hst ▸ hcode, hr.cmdLast ▸ hlast⟩
    · rintro ⟨hst, hcode, hlast⟩
      exact .inr ⟨hst, (hr.code hst).trans hcode, hr.cmdLast.trans hlast⟩
  · change e.cmdCount = _
    rw [hcount, hparts.effect.cmdCount, chain]
    change chained d.state r.code r.cmdCount = _
    rw [hr.cmdCount]
    cases hst : d.state with
    | corp => rw [hr.code hst]
    | _ => rfl

end Outband.Ilo.Dvc.Decoder
