import Outband.Ilo.Dvc.ZeroRun

/-!
# Resynchronisation

More than 30 zero bits force `hunt`, whatever the decoder was doing, and the next
one leaves it through `reset` with an empty buffer. So four zero bytes and a byte
that is not zero bring the decoder back to `start`, unless the first zero byte
completes a firmware byte for which the command buffer has no room.

## Implementation notes

`Boundary` holds between the bytes of a stream without `exit`. Its main field says
that the zeros counted by `zeroCount` are the last bits in the buffer, so that the
bits left over when `hunt` is forced are all zeros.
-/

namespace Outband.Ilo.Dvc.Decoder

open Foundation

variable {d d' h : Decoder} {b : BitVec 8} {bs : List (BitVec 8)} {ok ok' : Decoder → Prop}

/-! ### Leaving `hunt` -/

/-- The decoder as `reset` leaves it. -/
structure Resynced (d : Decoder) : Prop where
  state : d.state = .start
  ibBcnt : d.ibBcnt = 0
  ibAcc : d.ibAcc = 0
  zeroCount : d.zeroCount = 0
  countBytes : d.countBytes = 0
  ccActive : d.ccActive = 0
  pixelCount : d.pixelCount = 0
  lastx : d.lastx = 0
  lasty : d.lasty = 0
  cmdCount : d.cmdCount = 0
  fatalCount : d.fatalCount = 0
  timeoutCount : d.timeoutCount = -1

/-- The effect of a round in state `reset`. -/
def restarted (d : Decoder) : Decoder :=
  { d with
    toColorCache := d.toColorCache.cacheReset, pixelCount := 0, lastx := 0, lasty := 0, red := 0
    green := 0, blue := 0, fatalCount := 0, timeoutCount := -1, cmdCount := 0
    nextState := .start, state := .start }

theorem bitStep_reset (h : Inv d) (hst : d.state = .reset) :
    d.bitStep = .ok (.inl d.restarted) := by
  have hnext : d.next1 .reset = .start := h.valid.cache.next1 _ (by decide)
  rw [h.bitStep_zeroWidth hst rfl (by decide) hnext]
  simp [dispatch, finishBlock, Hangs, restarted, hst]
  rfl

theorem Inv.found (h : Inv d) : Inv d.found := ⟨h.valid, fun hidle => by cases hidle⟩

theorem Inv.restarted (h : Inv d) : Inv d.restarted :=
  ⟨{ h.valid with
      cache := h.valid.cache.cacheReset
      pixelCount := Nat.zero_le _
      red := Nat.two_pow_pos 15
      green := Nat.two_pow_pos 15
      blue := Nat.two_pow_pos 15 }, fun _ => rfl⟩

theorem resynced_found (d : Decoder) : Resynced d.found.restarted := by
  constructor <;> rfl

/-- A one in `hunt` leads to `start`. -/
theorem returns_found (h : Inv d) :
    Loop.Returns bitStep d.found (.ok (d.found.restarted, 0)) := by
  rw [Loop.returns_round (bitStep_reset h.found rfl)]
  apply Loop.returns_leave
  apply bitStep_short
  have hone : d.found.restarted.bitsToRead d.found.restarted.state = 1 :=
    h.found.restarted.width_at rfl
  unfold Enabled
  rw [hone]
  exact Nat.not_succ_le_zero 0

theorem Inv.skipped (h : Inv d) : Inv d.skipped := ⟨h.valid, h.idle⟩

/-- `hunt` finds a one that is in the buffer. -/
theorem returns_hunt_one (h : Inv d) (hst : d.state = .hunt) (hpos : 0 < d.ibAcc)
    (hlt : d.ibAcc < 2 ^ d.ibBcnt) :
    ∃ d', Loop.Returns bitStep d (.ok (d', 0)) ∧ Resynced d' := by
  induction hn : d.ibBcnt generalizing d with
  | zero =>
      rw [hn] at hlt
      omega
  | succ n ih =>
      have hstep := bitStep_hunt h hst (by omega)
      by_cases hzero : d.ibAcc &&& 1 = 0
      · rw [if_pos hzero] at hstep
        rw [Nat.and_one_is_mod] at hzero
        have hacc : d.skipped.ibAcc = d.ibAcc / 2 := Nat.shiftRight_one d.ibAcc
        have hcnt : d.skipped.ibBcnt = n := by
          change d.ibBcnt - 1 = n
          omega
        obtain ⟨d', hreturns, hresynced⟩ := ih h.skipped hst (by omega) (by
          rw [hacc, hcnt]
          rw [hn, Nat.pow_succ] at hlt
          omega) hcnt
        exact ⟨d', (Loop.returns_round hstep).mpr hreturns, hresynced⟩
      · rw [if_neg hzero] at hstep
        exact ⟨_, (Loop.returns_round hstep).mpr (returns_found h), resynced_found d⟩

/-- A decoder in `hunt` that has skipped all its bits. -/
structure Hunting (d : Decoder) : Prop where
  state : d.state = .hunt
  ibAcc : d.ibAcc = 0
  ibBcnt : d.ibBcnt = 0
  zeroCount : 30 < d.zeroCount

/-- `hunt` skips zeros to the end of the buffer. -/
theorem returns_hunt_zero (h : Inv d) (hst : d.state = .hunt) (hzero : d.ibAcc = 0)
    (hcount : 30 < d.zeroCount) :
    ∃ d', Loop.Returns bitStep d (.ok (d', 0)) ∧ Hunting d' := by
  induction hn : d.ibBcnt generalizing d with
  | zero =>
      have hone : d.bitsToRead d.state = 1 := h.width_at hst
      have hshort : ¬ d.Enabled := by
        unfold Enabled
        omega
      exact ⟨d, Loop.returns_leave (bitStep_short hshort), hst, hzero, hn, hcount⟩
  | succ n ih =>
      have hstep := bitStep_hunt h hst (by omega)
      rw [if_pos (by rw [hzero]; rfl)] at hstep
      have hacc : d.skipped.ibAcc = 0 := by
        change d.ibAcc >>> 1 = 0
        rw [hzero]
        rfl
      obtain ⟨d', hreturns, hhunting⟩ := ih h.skipped hst hacc hcount (by
        change d.ibBcnt - 1 = n
        omega)
      exact ⟨d', (Loop.returns_round hstep).mpr hreturns, hhunting⟩

/-! ### Between two bytes -/

/-- A decoder between two bytes of a stream without `exit`: outside `hunt` the counted zeros
are the last bits in the buffer. -/
structure Boundary (d : Decoder) : Prop where
  running : Running d
  short : d.ibBcnt ≤ 7
  hunt : d.state = .hunt → d.ibBcnt = 0 ∧ 30 < d.zeroCount
  counted : d.state ≠ .hunt → d.zeroCount ≤ 30 ∧ d.ibAcc < 2 ^ (d.ibBcnt - d.zeroCount)
  corp : d.state = .corp → d.ibBcnt = 0
  cmdCount : d.cmdCount ≠ 0 → d.state = .firmware ∨ d.state = .corp ∨ d.state = .hunt

theorem boundary_new : Boundary NewDecoder where
  running := ⟨inv_NewDecoder, by decide, by decide⟩
  short := Nat.zero_le 7
  hunt := fun hst => by cases hst
  counted := fun _ => ⟨Nat.zero_le 30, Nat.one_pos⟩
  corp := fun hst => by cases hst
  cmdCount := fun hne => absurd rfl hne

theorem running_of_ibAcc (hinv : Inv d) (hstate : d.state ≠ .exit) (hacc : d.ibAcc = 0) :
    Running d := by
  refine ⟨hinv, hstate, ?_⟩
  rw [hacc]
  exact Nat.two_pow_pos _

theorem Resynced.boundary (hd : Resynced d) (hinv : Inv d) : Boundary d where
  running := running_of_ibAcc hinv (by simp [hd.state]) hd.ibAcc
  short := by
    rw [hd.ibBcnt]
    exact Nat.zero_le 7
  hunt := fun hst => by simp [hd.state] at hst
  counted := by
    intro _
    rw [hd.zeroCount, hd.ibAcc]
    exact ⟨Nat.zero_le 30, Nat.two_pow_pos _⟩
  corp := fun _ => hd.ibBcnt
  cmdCount := fun hne => absurd hd.cmdCount hne

theorem Hunting.boundary (hd : Hunting d) (hinv : Inv d) : Boundary d where
  running := running_of_ibAcc hinv (by simp [hd.state]) hd.ibAcc
  short := by
    rw [hd.ibBcnt]
    exact Nat.zero_le 7
  hunt := fun _ => ⟨hd.ibBcnt, hd.zeroCount⟩
  counted := fun hne => absurd hd.state hne
  corp := fun _ => hd.ibBcnt
  cmdCount := fun _ => .inr (.inr hd.state)

/-- When a byte forces `hunt`, the bits left over are zeros. -/
theorem Boundary.ibAcc_forced (hd : Boundary d)
    (hforced : 30 < d.zeroCount + right ⟨b.toNat, b.isLt⟩) : d.ibAcc = 0 := by
  by_cases hst : d.state = .hunt
  · have hlt := hd.running.acc
    rw [(hd.hunt hst).1] at hlt
    exact Nat.lt_one_iff.mp hlt
  · have hlt := (hd.counted hst).2
    have hle := (byteBits_tables b).1
    have hshort := hd.short
    rw [show d.ibBcnt - d.zeroCount = 0 by omega] at hlt
    exact Nat.lt_one_iff.mp hlt

/-- Less than a byte of zeros and a new byte: no bit is lost. -/
theorem append_zero {acc cnt : Nat} (hacc : acc = 0) (hcnt : cnt ≤ 7) (b : BitVec 8) :
    (acc ||| b.toNat <<< cnt) % 2 ^ 64 = b.toNat <<< cnt := by
  rw [hacc, Nat.zero_or]
  apply Nat.mod_eq_of_lt
  rw [Nat.shiftLeft_eq]
  calc
    b.toNat * 2 ^ cnt ≤ b.toNat * 2 ^ 7 :=
      Nat.mul_le_mul_left _ (Nat.pow_le_pow_right (by decide) hcnt)
    _ < 2 ^ 64 := by have := b.isLt; omega

/-- A byte that forces `hunt` is skipped when it is zero, and brings the decoder back when it is
not. -/
theorem Boundary.forced (hd : Boundary d) (hforced : 30 < d.zeroCount + right ⟨b.toNat, b.isLt⟩) :
    ∃ d', Feeds d b (.ok (d', 0)) ∧ Boundary d' ∧ (b = 0 → Hunting d') ∧
      (b ≠ 0 → Resynced d') := by
  have haccept := accept_forced d hforced
  obtain ⟨d₁, heq, hnew⟩ := accept_spec hd.running.inv b
  rw [haccept] at heq
  cases heq
  have hbyte := append_zero (hd.ibAcc_forced hforced) hd.short b
  by_cases hb : b = 0
  · have hzero : (d.ibAcc ||| b.toNat <<< d.ibBcnt) % 2 ^ 64 = 0 := by
      rw [hbyte, hb]
      exact Nat.zero_shiftLeft _
    obtain ⟨d', hreturns, hhunting⟩ := returns_hunt_zero hnew.inv rfl hzero hforced
    have hfeeds := (feeds_iff haccept).mpr hreturns
    have hinv : Inv d' := meets_of_feeds hd.running.inv hfeeds
    exact ⟨d', hfeeds, hhunting.boundary hinv, fun _ => hhunting, fun hne => absurd hb hne⟩
  · have hpos : 0 < (d.ibAcc ||| b.toNat <<< d.ibBcnt) % 2 ^ 64 := by
      rw [hbyte, Nat.shiftLeft_eq]
      apply Nat.mul_pos _ (Nat.two_pow_pos _)
      apply Nat.pos_of_ne_zero
      exact fun hzero => hb (BitVec.eq_of_toNat_eq hzero)
    obtain ⟨d', hreturns, hresynced⟩ :=
      returns_hunt_one hnew.inv rfl hpos (hnew.acc hd.running.acc)
    have hfeeds := (feeds_iff haccept).mpr hreturns
    have hinv : Inv d' := meets_of_feeds hd.running.inv hfeeds
    exact ⟨d', hfeeds, hresynced.boundary hinv, fun heq => absurd heq hb, fun _ => hresynced⟩

/-! ### Bytes that are processed outside `hunt` -/

theorem mem_successors_firmware {st : State} (h : st ∈ successors .firmware) : st = .corp := by
  revert h
  cases st <;> decide

theorem corp_mem_successors {st : State} (h : State.corp ∈ successors st) : st = .firmware := by
  revert h
  cases st <;> decide

theorem firmware_mem_successors {st : State} (h : State.firmware ∈ successors st) :
    st = .corp ∨ st = .extcmd1 := by
  revert h
  cases st <;> decide

/-- A one in state `corp` asks for another firmware byte. -/
theorem Inv.corp_one (hd : Inv d) (hst : d.state = .corp) (hbit : d.ibAcc &&& 1 ≠ 0)
    (hstep : d.bitStep = .ok (.inl d')) : d'.state = .firmware := by
  obtain ⟨r, d₁, e, hparts, rfl, -, -⟩ := hd.parts_of_round hstep
  have hcode : r.code ≠ 0 := hparts.read.code hst ▸ hbit
  have hdispatch := hparts.dispatch
  have hfinish := hparts.finishBlock
  have hnext : r.lookupNext.nextState = .firmware := by
    have htable : r.next1 .corp = .firmware := hparts.read.looked.valid.cache.next1 _ (by decide)
    unfold lookupNext
    rw [if_neg hcode, hparts.read.state, hst, htable]
  rw [hst] at hdispatch
  change (if r.code ≠ 0 then _ else _) = _ at hdispatch
  rw [if_pos hcode] at hdispatch
  cases hdispatch
  unfold finishBlock at hfinish
  rw [if_neg (by rw [hnext]; simp)] at hfinish
  cases hfinish
  exact hnext

/-- A loop head of a byte that does not force `hunt`. The last `z` bits are zeros. -/
structure Head (z : Nat) (h : Decoder) : Prop where
  running : Running h
  state : h.state ≠ .hunt
  zeroCount : h.zeroCount = z
  acc : h.ibAcc < 2 ^ (h.ibBcnt - z)
  cmdCount : h.cmdCount ≠ 0 → h.state = .firmware ∨ h.state = .corp

namespace Head

variable {z : Nat} {h' : Decoder}

theorem boundary (hh : Head z h) (hz : z ≤ 30) (hbits : ¬ h.Enabled) : Boundary h where
  running := hh.running
  short := by
    have hle := hh.running.inv.width_le h.state
    unfold Enabled at hbits
    omega
  hunt := fun hst => absurd hst hh.state
  counted := by
    intro _
    rw [hh.zeroCount]
    exact ⟨hz, hh.acc⟩
  corp := by
    intro hst
    have hone : h.bitsToRead h.state = 1 := hh.running.inv.width_at hst
    unfold Enabled at hbits
    omega
  cmdCount := fun hne => (hh.cmdCount hne).imp_right .inl

/-- The command count is not zero in `firmware` and `corp` alone. -/
theorem next_cmdCount (hh : Head z h) (hstep : h.bitStep = .ok (.inl h')) (hround : Round h h')
    (hne : h'.cmdCount ≠ 0) : h'.state = .firmware ∨ h'.state = .corp := by
  have hcalm := hh.running.inv.calm_round hh.state hstep
  have hcount := hround.cmdCount
  unfold chain at hcount
  by_cases hfirmware : h.state = .firmware
  · right
    rcases hcalm.next with hmem | ⟨-, hpixels⟩
    · rw [hfirmware] at hmem
      exact mem_successors_firmware hmem
    · rw [hfirmware] at hpixels
      exact absurd hpixels (by decide)
  · by_cases hcorp : h.state = .corp
    · left
      apply hh.running.inv.corp_one hcorp _ hstep
      intro hbit
      rw [hcorp, hbit] at hcount
      exact hne hcount
    · exfalso
      have hzero : h.cmdCount = 0 := by
        by_contra hpos
        rcases hh.cmdCount hpos with hst | hst
        · exact hfirmware hst
        · exact hcorp hst
      apply hne
      rw [hcount, hzero]
      cases hst : h.state with
      | firmware => exact absurd hst hfirmware
      | corp => exact absurd hst hcorp
      | _ => rfl

theorem next (hh : Head z h) (hquiet : ¬ h.DispatchesExit) (hstep : h.bitStep = .ok (.inl h'))
    (hround : Round h h') : Head z h' where
  running := ⟨hround.inv, fun hexit => hquiet (hround.exit.mp hexit),
    hround.drains.acc hh.running.acc⟩
  state := (hh.running.inv.calm_round hh.state hstep).state
  zeroCount := (hh.running.inv.calm_round hh.state hstep).steady.zeroCount.trans hh.zeroCount
  acc := by
    obtain ⟨m, -, hacc, hcnt⟩ := (hh.running.inv.calm_round hh.state hstep).steady.bits
    rw [hacc, hcnt, Nat.shiftRight_eq_div_pow]
    apply Nat.div_lt_of_lt_mul
    rw [← Nat.pow_add]
    exact Nat.lt_of_lt_of_le hh.acc (Nat.pow_le_pow_right (by decide) (by omega))
  cmdCount := hh.next_cmdCount hstep hround

theorem meets_bitStep (hh : Head z h) (hz : z ≤ 30) (hquiet : ¬ h.DispatchesExit) :
    Meets h.bitStep (Sum.elim (Head z) fun r => Boundary r.1) fun _ => True := by
  rcases bitStep_cases hh.running.inv with ⟨hbits, heq⟩ | ⟨hst, -⟩ | ⟨-, -, -, heq⟩ |
    ⟨-, -, -, h', heq, hround⟩
  · rw [heq]
    exact hh.boundary hz hbits
  · exact absurd hst hh.running.state
  · rw [heq]
    trivial
  · rw [heq]
    exact hh.next hquiet heq hround

end Head

/-- The bits behind the last one of a byte are zeros. -/
theorem lt_of_left (hb : b ≠ 0) : left ⟨b.toNat, b.isLt⟩ ≤ 7 ∧
    b.toNat < 2 ^ (8 - left ⟨b.toNat, b.isLt⟩) := by
  have hall : ∀ n : Fin 256, n.val ≠ 0 → left n ≤ 7 ∧ n.val < 2 ^ (8 - left n) := by
    decide +kernel
  apply hall b.toFin
  exact fun hzero => hb (BitVec.eq_of_toNat_eq hzero)

/-- The count of zeros behind a byte that does not force `hunt`. -/
def zerosAfter (d : Decoder) (b : BitVec 8) : Nat :=
  if b = 0 then d.zeroCount + 8 else left ⟨b.toNat, b.isLt⟩

/-- The first loop head of a byte that does not force `hunt`. -/
theorem Boundary.head (hd : Boundary d)
    (hcounted : ¬ 30 < d.zeroCount + right ⟨b.toNat, b.isLt⟩) :
    ∃ d₀, d.accept b = .ok d₀ ∧ Head (d.zerosAfter b) d₀ ∧ d.zerosAfter b ≤ 30 ∧
      d₀.state = d.state ∧ d₀.cmdCount = d.cmdCount ∧ d₀.ibBcnt = d.ibBcnt + 8 := by
  have hst : d.state ≠ .hunt := fun hst => by
    have := (hd.hunt hst).2
    omega
  obtain ⟨-, hacc⟩ := hd.counted hst
  have haccept := accept_counted d hcounted
  refine ⟨_, haccept, ⟨hd.running.accept haccept, hst, rfl, ?_, ?_⟩, ?_, rfl, rfl, rfl⟩
  · change (d.ibAcc ||| b.toNat <<< d.ibBcnt) % 2 ^ 64 < 2 ^ (d.ibBcnt + 8 - d.zerosAfter b)
    apply Nat.lt_of_le_of_lt (Nat.mod_le _ _)
    unfold zerosAfter
    split_ifs with hb
    · subst hb
      rw [show d.ibBcnt + 8 - (d.zeroCount + 8) = d.ibBcnt - d.zeroCount by omega]
      change d.ibAcc ||| 0 <<< d.ibBcnt < _
      rwa [Nat.zero_shiftLeft, Nat.or_zero]
    · obtain ⟨hle, hlt⟩ := lt_of_left hb
      rw [show d.ibBcnt + 8 - left ⟨b.toNat, b.isLt⟩ =
        8 - left ⟨b.toNat, b.isLt⟩ + d.ibBcnt by omega]
      apply Nat.or_lt_two_pow
      · exact Nat.lt_of_lt_of_le hd.running.acc
          (Nat.pow_le_pow_right (by decide) (Nat.le_add_left _ _))
      · rw [Nat.shiftLeft_eq, Nat.pow_add]
        exact Nat.mul_lt_mul_of_pos_right hlt (Nat.two_pow_pos _)
  · intro hne
    rcases hd.cmdCount hne with hf | hc | hh
    · exact .inl hf
    · exact .inr hc
    · exact absurd hh hst
  · unfold zerosAfter
    split_ifs with hb
    · subst hb
      rw [(byteBits_tables 0).2.2.2.2 rfl |>.1] at hcounted
      omega
    · have := (lt_of_left hb).1
      omega

/-- One byte without `exit`. -/
theorem Boundary.byte (hd : Boundary d) (hquiet : ∀ h, HeadOf d b h → ¬ h.DispatchesExit)
    {code : Nat} (hfeeds : Feeds d b (.ok (d', code))) : Boundary d' := by
  by_cases hforced : 30 < d.zeroCount + right ⟨b.toNat, b.isLt⟩
  · obtain ⟨d₁, hfeeds', hboundary, -⟩ := hd.forced hforced
    cases hfeeds.unique hd.running.inv hfeeds'
    exact hboundary
  · obtain ⟨d₀, haccept, hhead, hle, -⟩ := hd.head hforced
    have hmeets := ((feeds_iff haccept).mp hfeeds).meets_visits (I := Head (d.zerosAfter b))
      (Q := fun r => Boundary r.1) (F := fun _ => True) (by
        intro h hvisits hh
        exact hh.meets_bitStep hle (hquiet h ⟨d₀, haccept, hvisits⟩)) hhead
    exact hmeets

theorem Fed.boundary (hfed : Fed (fun h => ¬ h.DispatchesExit) bs d) : Boundary d := by
  induction hfed with
  | new => exact boundary_new
  | feed _ heads done ih => exact ih.byte heads done

/-! ### Zero bytes -/

/-- A loop head of a zero byte. At most one firmware byte can be completed, and one bit of state
`corp` that follows it is a zero. -/
structure Zeroing (z : Nat) (h : Decoder) : Prop where
  head : Head z h
  eight : 8 ≤ z
  bits : h.ibBcnt ≤ 15
  firmware : h.state = .firmware → h.cmdCount ≤ 256
  corp : h.state = .corp → h.ibBcnt ≤ 8

namespace Zeroing

variable {z : Nat} {h' : Decoder}

theorem corp_zero (hh : Zeroing z h) (hst : h.state = .corp) : h.ibAcc &&& 1 = 0 := by
  have hlt := hh.head.acc
  have hbits := hh.corp hst
  have height := hh.eight
  rw [show h.ibBcnt - z = 0 by omega] at hlt
  rw [Nat.lt_one_iff.mp hlt]
  rfl

/-- The command count when `firmware` is entered anew. -/
theorem next_firmware (hh : Zeroing z h) (hcalm : Calm h h') (hround : Round h h')
    (hst : h'.state = .firmware) : h'.cmdCount = 0 := by
  have hmem : State.firmware ∈ successors h.state := hst ▸ hcalm.mem_successors (by simp [hst])
  rw [hround.cmdCount, chain]
  rcases firmware_mem_successors hmem with hcorp | hext
  · rw [hcorp, hh.corp_zero hcorp]
    rfl
  · rw [hext]
    by_contra hne
    rcases hh.head.cmdCount hne with hst' | hst'
    · simp [hext] at hst'
    · simp [hext] at hst'

theorem next (hh : Zeroing z h) (hquiet : ¬ h.DispatchesExit) (hstep : h.bitStep = .ok (.inl h'))
    (hround : Round h h') : Zeroing z h' := by
  have hcalm := hh.head.running.inv.calm_round hh.head.state hstep
  have hbits := hh.bits
  have hcnt := hcalm.ibBcnt
  refine ⟨hh.head.next hquiet hstep hround, hh.eight, by omega, ?_, ?_⟩
  · intro hst
    rw [hh.next_firmware hcalm hround hst]
    exact Nat.zero_le 256
  · intro hst
    have hfirmware : h.state = .firmware :=
      corp_mem_successors (hst ▸ hcalm.mem_successors (by simp [hst]))
    have height : h.bitsToRead h.state = 8 := hh.head.running.inv.width_at hfirmware
    omega

/-- The bit loop of a zero byte does not fault. -/
theorem meets_bitStep (hh : Zeroing z h) (hz : z ≤ 30) (hquiet : ¬ h.DispatchesExit) :
    Meets h.bitStep (Sum.elim (Zeroing z) fun r => r.2 = 0 ∧ Boundary r.1 ∧ r.1.zeroCount = z ∧
      (r.1.state = .firmware → r.1.cmdCount ≤ 256)) fun _ => False := by
  rcases bitStep_cases hh.head.running.inv with ⟨hbits, heq⟩ | ⟨hst, -⟩ | ⟨hst, -, hfull, -⟩ |
    ⟨-, -, -, h', heq, hround⟩
  · rw [heq]
    exact ⟨rfl, hh.head.boundary hz hbits, hh.head.zeroCount, hh.firmware⟩
  · exact absurd hst hh.head.running.state
  · exact absurd (hh.firmware hst) (by omega)
  · rw [heq]
    exact hh.next hquiet heq hround

end Zeroing

/-- The first zero byte completes a firmware byte for which the buffer has no room. -/
def Overruns (d : Decoder) : Prop :=
  d.state = .firmware ∧ 257 ≤ d.cmdCount ∧ d.zeroCount ≤ 22

/-- A decoder after `k` zero bytes. -/
structure Zeroed (k : Nat) (d : Decoder) : Prop where
  boundary : Boundary d
  zeroCount : d.state ≠ .hunt → 8 * k ≤ d.zeroCount
  room : ¬ d.Overruns

theorem right_zero : right ⟨(0 : BitVec 8).toNat, (0 : BitVec 8).isLt⟩ = 8 := by decide

theorem Zeroed.byte {k : Nat} (hd : Zeroed k d)
    (hquiet : ∀ h, HeadOf d 0 h → ¬ h.DispatchesExit) :
    ∃ d', Feeds d 0 (.ok (d', 0)) ∧ Zeroed (k + 1) d' := by
  by_cases hforced : 30 < d.zeroCount + right ⟨(0 : BitVec 8).toNat, (0 : BitVec 8).isLt⟩
  · obtain ⟨d', hfeeds, hboundary, hhunt, -⟩ := hd.boundary.forced hforced
    refine ⟨d', hfeeds, hboundary, fun hst => absurd (hhunt rfl).state hst, ?_⟩
    rintro ⟨hst, -⟩
    rw [(hhunt rfl).state] at hst
    cases hst
  · obtain ⟨d₀, haccept, hhead, hle, hst, hcount, hcnt⟩ := hd.boundary.head hforced
    rw [right_zero] at hforced
    have hshort := hd.boundary.short
    have hnot : d.state ≠ .hunt := hst ▸ hhead.state
    have hzeros : d.zerosAfter 0 = d.zeroCount + 8 := rfl
    have hstart : Zeroing (d.zerosAfter 0) d₀ := by
      refine ⟨hhead, by omega, by omega, ?_, ?_⟩
      · intro hfirmware
        by_contra hfull
        exact hd.room ⟨hst ▸ hfirmware, by omega, by omega⟩
      · intro hcorp
        rw [hcnt, hd.boundary.corp (hst ▸ hcorp)]
    obtain ⟨r, hreturns⟩ := exists_returns hhead.running.inv
    have hmeets := hreturns.meets_visits (fun h hvisits hh =>
      hh.meets_bitStep hle (hquiet h ⟨d₀, haccept, hvisits⟩)) hstart
    obtain ⟨⟨d', code⟩, rfl, rfl, hboundary, hcount', hroom⟩ := hmeets.exists_ok
    refine ⟨d', (feeds_iff haccept).mpr hreturns, hboundary, ?_, ?_⟩
    · intro _
      have := hd.zeroCount hnot
      change d'.zeroCount = _ at hcount'
      omega
    · rintro ⟨hfirmware, hfull, -⟩
      have : d'.cmdCount ≤ 256 := hroom hfirmware
      omega

/-- A zero byte on which the command buffer overruns, in the first round of the bit loop. -/
theorem Boundary.overrun (hd : Boundary d) (hover : d.Overruns) :
    ∃ d₀, d.accept 0 = .ok d₀ ∧ d₀.state = .firmware ∧ d₀.bitStep = .error .cmdBuf := by
  obtain ⟨hst, hfull, hzeros⟩ := hover
  obtain ⟨d₀, haccept, hhead, -, hst', hcount, hcnt⟩ := hd.head (b := 0) (by
    rw [right_zero]
    omega)
  have hfirmware : d₀.state = .firmware := hst'.trans hst
  have height : d₀.bitsToRead d₀.state = 8 := hhead.running.inv.width_at hfirmware
  refine ⟨d₀, haccept, hfirmware, bitStep_overrun hhead.running.inv hfirmware ?_ (by omega)⟩
  unfold Enabled
  omega

theorem feeds_overrun (hd : Boundary d) (hover : d.Overruns) : Feeds d 0 (.error .cmdBuf) := by
  obtain ⟨d₀, haccept, -, hfault⟩ := hd.overrun hover
  exact (feeds_iff haccept).mpr (Loop.returns_fault hfault)

/-- That round is not one of state `corp`. -/
theorem Boundary.quiet_overrun (hd : Boundary d) (hover : d.Overruns) (hhead : HeadOf d 0 h) :
    ¬ h.DispatchesExit := by
  obtain ⟨d₀, haccept, hst, hfault⟩ := hd.overrun hover
  obtain ⟨d₁, haccept', hvisits⟩ := hhead
  rw [haccept] at haccept'
  cases haccept'
  rcases hvisits.cases_head with rfl | ⟨e, hround, -⟩
  · rintro ⟨hcorp, -⟩
    rw [hst] at hcorp
    cases hcorp
  · rw [hfault] at hround
    cases hround

/-- No stream goes on with a zero byte from there. -/
theorem Fed.not_overrun {cs : List (BitVec 8)} (hfed : Fed ok bs d) (hd : Boundary d)
    (hover : d.Overruns) : ¬ Fed ok' (bs ++ 0 :: cs) d' := by
  intro hfed'
  rw [List.append_cons] at hfed'
  obtain ⟨d₁, hfed₁⟩ := hfed'.exists_prefix
  obtain ⟨d₀, code, hrun, -, hfeeds⟩ := hfed₁.exists_last
  cases hfed.unique hrun
  cases hfeeds.unique hfed.inv (feeds_overrun hd hover)

/-- The zero bytes, one after the other. -/
theorem Fed.zeros {n : Nat} (hfed : Fed (fun h => ¬ h.DispatchesExit) bs d)
    (hquiet : ∀ m < n, ∀ d' h, Fed (fun _ => True) (bs ++ List.replicate m 0) d' →
      HeadOf d' 0 h → ¬ h.DispatchesExit) (hroom : ¬ d.Overruns) :
    ∃ d', Fed (fun _ => True) (bs ++ List.replicate n 0) d' ∧ Zeroed n d' := by
  induction n with
  | zero =>
      refine ⟨d, ?_, hfed.boundary, fun _ => Nat.zero_le _, hroom⟩
      rw [List.replicate_zero, List.append_nil]
      exact hfed.imp fun _ _ => trivial
  | succ n ih =>
      obtain ⟨d₁, hfed₁, hzeroed⟩ := ih fun m hm => hquiet m (by omega)
      obtain ⟨d', hfeeds, hzeroed'⟩ := hzeroed.byte fun h => hquiet n (by omega) d₁ h hfed₁
      refine ⟨d', ?_, hzeroed'⟩
      rw [List.replicate_succ', ← List.append_assoc]
      exact .feed hfed₁ (fun _ _ => trivial) hfeeds

/-- Four zero bytes or more and a byte that is not zero bring the decoder back to `start`, exactly
when the command buffer does not overrun on the first of them. -/
theorem Fed.recovers_iff {n : Nat} {c : BitVec 8}
    (hfed : Fed (fun h => ¬ h.DispatchesExit) bs d) (hn : 4 ≤ n) (hc : c ≠ 0)
    (hquiet : ∀ m < n, ∀ d' h, Fed (fun _ => True) (bs ++ List.replicate m 0) d' →
      HeadOf d' 0 h → ¬ h.DispatchesExit) :
    (∃ d', Fed (fun _ => True) (bs ++ List.replicate n 0 ++ [c]) d' ∧ Resynced d') ↔
      ¬ d.Overruns := by
  constructor
  · rintro ⟨d', hfed', -⟩ hover
    obtain ⟨k, rfl⟩ : ∃ k, n = k + 1 := ⟨n - 1, by omega⟩
    rw [List.replicate_succ, List.append_assoc] at hfed'
    exact hfed.not_overrun hfed.boundary hover hfed'
  · intro hroom
    obtain ⟨d₁, hfed₁, hzeroed⟩ := hfed.zeros hquiet hroom
    have hhunt : d₁.state = .hunt := by
      by_contra hst
      have hlow := hzeroed.zeroCount hst
      have hhigh := (hzeroed.boundary.counted hst).1
      omega
    have hforced := (hzeroed.boundary.hunt hhunt).2
    obtain ⟨d', hfeeds, -, -, hresynced⟩ := hzeroed.boundary.forced (b := c)
      (Nat.lt_of_lt_of_le hforced (Nat.le_add_right _ _))
    exact ⟨d', .feed hfed₁ (fun _ _ => trivial) hfeeds, hresynced hc⟩

/-! ### Every run -/

/-- Outside `hunt` the count is the run of zeros at the end of the raw stream, and `hunt` is
entered exactly when that run gets longer than 30. Zero bytes and a byte that is not zero bring
a decoder without `exit` back to `start`, exactly when it is not about to overrun its command
buffer. -/
theorem counts_and_recovers {n : Nat} {c : BitVec 8}
    (hfed : Fed (fun h => ¬ h.DispatchesExit) bs d) (hn : 4 ≤ n) (hc : c ≠ 0)
    (hquiet : ∀ m < n, ∀ d' h, Fed (fun _ => True) (bs ++ List.replicate m 0) d' →
      HeadOf d' 0 h → ¬ h.DispatchesExit) :
    (∀ p : Track, Reached track (fun _ _ => True) {} p →
      (p.dec.state ≠ .hunt → p.dec.zeroCount = zeroRun (rawBits p.raw)) ∧
      ∀ (m : Move) (p' : Track), track m p = some p' → p.dec.state ≠ .hunt →
        (p'.dec.state = .hunt ↔
          ∃ b, m = .byte b ∧ ∃ n ≤ 8, 30 < zeroRun (rawBits p.raw ++ (byteBits b).take n))) ∧
    ((∃ d', Fed (fun _ => True) (bs ++ List.replicate n 0 ++ [c]) d' ∧ Resynced d') ↔
      ¬ (d.state = .firmware ∧ 257 ≤ d.cmdCount ∧ d.zeroCount ≤ 22)) := by
  constructor
  · intro p hreached
    have hcounts := counts_of_reached hreached
    exact ⟨hcounts.zeroCount, fun m p' => hcounts.enters_hunt_iff⟩
  · exact hfed.recovers_iff hn hc hquiet

/-- Feed a list of bytes as long as no `exit` is dispatched. -/
def feedQuiet (fuel : Nat) (d : Decoder) : List (BitVec 8) → Option Decoder
  | [] => some d
  | b :: bs =>
      if ∀ h ∈ headsOf fuel d b, ¬ h.DispatchesExit then
        match d.Feed fuel b with
        | some (.ok (d', _)) => feedQuiet fuel d' bs
        | _ => none
      else none

theorem Fed.feedQuiet {fuel : Nat} {cs : List (BitVec 8)}
    (hfed : Fed (fun h => ¬ h.DispatchesExit) bs d) (hall : d.feedQuiet fuel cs = some d') :
    Fed (fun h => ¬ h.DispatchesExit) (bs ++ cs) d' := by
  induction cs generalizing bs d with
  | nil =>
      cases hall
      rwa [List.append_nil]
  | cons c cs ih =>
      simp only [Decoder.feedQuiet] at hall
      split_ifs at hall with hheads
      split at hall
      case h_1 next code hfeed =>
        have hquiet : ∀ h, HeadOf d c h → ¬ h.DispatchesExit := fun h hhead =>
          hheads h (hhead.mem (by rw [hfeed]; rfl))
        rw [List.append_cons]
        exact ih (.feed hfed hquiet ⟨fuel, hfeed⟩) hall
      case h_2 => cases hall

/-- The zero bytes of a stream without `exit` dispatch none. -/
theorem Fed.quiet_zeros {n : Nat}
    (hfed : Fed (fun h => ¬ h.DispatchesExit) (bs ++ List.replicate n 0) d) :
    ∀ m < n, ∀ d' h, Fed (fun _ => True) (bs ++ List.replicate m 0) d' → HeadOf d' 0 h →
      ¬ h.DispatchesExit := by
  intro m hm d' h hfed' hhead
  obtain ⟨k, rfl⟩ : ∃ k, n = m + 1 + k := ⟨n - (m + 1), by omega⟩
  rw [List.replicate_add, List.replicate_succ', ← List.append_assoc, ← List.append_assoc] at hfed
  obtain ⟨d₁, hfed₁⟩ := hfed.exists_prefix
  obtain ⟨d₀, -, hrun, hheads, -⟩ := hfed₁.exists_last
  cases hfed'.unique hrun
  exact hheads h hhead

/-- From the middle of a command the decoder is brought back, and three zeros are counted behind
its first byte. -/
theorem counts_and_recovers_command :
    (∃ d', Fed (fun _ => True) ([0x1D] ++ List.replicate 4 0 ++ [1]) d' ∧ Resynced d') ∧
    ∃ p : Track, Reached track (fun _ _ => True) {} p ∧
      p.dec.zeroCount = zeroRun (rawBits p.raw) ∧ p.dec.zeroCount = 3 := by
  have hbytes : (NewDecoder.feedQuiet 20 [0x1D]).any (fun d =>
      decide (d.cmdCount = 0) && (d.feedQuiet 20 (List.replicate 4 0)).isSome) = true := by
    decide +kernel
  obtain ⟨d, hd, htest⟩ := Option.any_eq_true _ _ |>.mp hbytes
  simp only [Bool.and_eq_true, decide_eq_true_eq] at htest
  have hfed := Fed.new.feedQuiet hd
  obtain ⟨d', hd'⟩ := Option.isSome_iff_exists.mp htest.2
  obtain ⟨hcounts, hrecovers⟩ := counts_and_recovers (c := 1) hfed (Nat.le_refl 4)
    (by decide) (hfed.feedQuiet hd').quiet_zeros
  have hmoves : ((exec track (fun _ _ => True) [.byte 0x1D] {}).any fun p =>
      decide (p.dec.state ≠ .hunt ∧ p.dec.zeroCount = 3)) = true := by
    decide +kernel
  obtain ⟨p, hreached, hst, hcount⟩ := exists_reached_of_exec hmoves
  refine ⟨hrecovers.mpr ?_, p, hreached, (hcounts p hreached).1 hst, hcount⟩
  rintro ⟨-, hfull, -⟩
  omega

/-- After 257 firmware bytes without a zero bit the first zero byte overruns the command
buffer. -/
theorem not_recovered : ∃ d,
    Fed (fun h => ¬ h.DispatchesExit) (0xFD :: List.replicate 289 0xFF) d ∧
    (∀ m < 4, ∀ d' h,
      Fed (fun _ => True) (0xFD :: List.replicate 289 0xFF ++ List.replicate m 0) d' →
      HeadOf d' 0 h → ¬ h.DispatchesExit) ∧
    ¬ ∃ d', Fed (fun _ => True)
      (0xFD :: List.replicate 289 0xFF ++ List.replicate 4 0 ++ [1]) d' ∧ Resynced d' := by
  have hbytes : (NewDecoder.feedQuiet 20 (0xFD :: List.replicate 289 0xFF)).any (fun d =>
      decide (d.state = .firmware) && decide (257 ≤ d.cmdCount) &&
        decide (d.zeroCount ≤ 22)) = true := by
    decide +kernel
  obtain ⟨d, hd, htest⟩ := Option.any_eq_true _ _ |>.mp hbytes
  simp only [Bool.and_eq_true, decide_eq_true_eq] at htest
  have hfed : Fed _ (0xFD :: List.replicate 289 0xFF) d := Fed.new.feedQuiet hd
  have hover : d.Overruns := ⟨htest.1.1, htest.1.2, htest.2⟩
  refine ⟨d, hfed, ?_, ?_⟩
  · intro m _ d' h hfed' hhead
    cases m with
    | zero =>
        rw [List.replicate_zero, List.append_nil] at hfed'
        cases hfed.unique hfed'
        exact hfed.boundary.quiet_overrun hover hhead
    | succ m =>
        exact absurd hfed' (hfed.not_overrun hfed.boundary hover)
  · rintro ⟨d', hfed', -⟩
    rw [List.append_assoc] at hfed'
    exact hfed.not_overrun hfed.boundary hover hfed'

end Outband.Ilo.Dvc.Decoder
