import Outband.Foundation.BitString
import Outband.Ilo.Dvc.Stream
import Outband.Ilo.Dvc.Untouched

/-!
# The count of zero bits

`addBits` counts the zeros at the end of the raw stream with two tables, and more
than 30 of them force the state `hunt`. Nothing else touches the count until
`hunt` is left: the other states only take bits out of the buffer. `Steady` says
so for a round and for each function it calls.
-/

namespace Outband.Ilo.Dvc.Decoder

open Foundation

variable {d d' d'' : Decoder} {st : State}

/-! ### What the states leave alone -/

/-- The count of zeros stays, and bits are only taken from the front of the buffer. -/
structure Steady (d d' : Decoder) : Prop where
  zeroCount : d'.zeroCount = d.zeroCount
  bits : ∃ m ≤ d.ibBcnt, d'.ibAcc = d.ibAcc >>> m ∧ d'.ibBcnt = d.ibBcnt - m

namespace Steady

theorem of_eq (hzero : d'.zeroCount = d.zeroCount) (hacc : d'.ibAcc = d.ibAcc)
    (hcnt : d'.ibBcnt = d.ibBcnt) : Steady d d' :=
  ⟨hzero, 0, Nat.zero_le _, hacc, hcnt⟩

theorem refl (d : Decoder) : Steady d d := of_eq rfl rfl rfl

theorem trans (h : Steady d d') (h' : Steady d' d'') : Steady d d'' := by
  obtain ⟨m, hm, hacc, hcnt⟩ := h.bits
  obtain ⟨m', hm', hacc', hcnt'⟩ := h'.bits
  refine ⟨h'.zeroCount.trans h.zeroCount, m + m', by omega, ?_, by omega⟩
  rw [hacc', hacc, ← Nat.shiftRight_add]

end Steady

theorem steady_getBits (d : Decoder) {n : Nat} (hn : n ≤ 8) (hle : n ≤ d.ibBcnt)
    (h : d.getBits n = .ok d') : Steady d d' := by
  obtain ⟨c, heq, -⟩ := d.getBits_spec hn
  rw [heq] at h
  cases h
  exact ⟨rfl, n, hle, rfl, rfl⟩

section Helpers

theorem Steady.of_rest (h : d'.rest = d.rest) : Steady d d' :=
  .of_eq (congrArg Rest.zeroCount h) (congrArg Rest.ibAcc h) (congrArg Rest.ibBcnt h)

theorem steady_alignByte (d : Decoder) : Meets d.alignByte (Steady d) fun _ => True := by
  have hle : d.ibBcnt &&& 7 ≤ d.ibBcnt := Nat.and_le_left
  have h7 : d.ibBcnt &&& 7 ≤ 7 := Nat.and_le_right
  unfold alignByte
  split_ifs
  · obtain ⟨c, heq, -⟩ := d.getBits_spec (show d.ibBcnt &&& 7 ≤ 8 by omega)
    rw [heq]
    exact ⟨rfl, _, hle, rfl, rfl⟩
  · exact .refl d

theorem steady_dispatchCommand (d : Decoder) :
    Meets d.dispatchCommand (Steady d) fun _ => True := by
  by_cases h5 : d.cmdLast = 5
  · rw [dispatchCommand, h5]
    exact .of_eq rfl rfl rfl
  by_cases h9 : d.cmdLast = 9
  · rw [dispatchCommand, h9]
    exact steady_alignByte d
  exact (rest_dispatchCommand d h5 h9).imp fun _ h => .of_rest h

theorem steady_mode2 (d : Decoder) : Steady d d.mode2 := by
  unfold mode2 setHalfHeight
  dsimp only
  split_ifs <;> exact .of_eq rfl rfl rfl

theorem steady_timeout (d : Decoder) :
    Meets (d.dispatch .timeout) (fun r => Steady d r.1) fun _ => True := by
  simp only [dispatch]
  apply (steady_alignByte _).bind
  intro d₁ hsteady
  split_ifs at hsteady <;> exact ⟨hsteady.zeroCount, hsteady.bits⟩

/-- No state but `hunt` touches the count of zeros. -/
theorem steady_dispatch (d : Decoder) (hst : st ≠ .hunt) :
    Meets (d.dispatch st) (fun r => Steady d r.1) fun _ => True := by
  by_cases htouch : st ∈ touching
  · cases st with
    | hunt => exact absurd rfl hst
    | timeout => exact steady_timeout d
    | corp =>
        change Meets (if d.code ≠ 0 then _ else _) _ _
        split_ifs
        · exact .of_eq rfl rfl rfl
        · apply (steady_dispatchCommand d).bind
          intro d₁ hsteady
          exact ⟨hsteady.zeroCount, hsteady.bits⟩
    | mode2 => exact steady_mode2 d
    | movexy0 | mode0 | mode1 => exact .of_eq rfl rfl rfl
    | _ => exact absurd htouch (by decide)
  · exact (keeps_dispatch d htouch).imp fun _ h => .of_rest h.rest

end Helpers

/-! ### Rounds -/

/-- A round that goes on has its parts. -/
theorem Inv.parts_of_round (h : Inv d) (hstep : d.bitStep = .ok (.inl d')) :
    ∃ r d₁ e, Parts d r d₁ e ∧ d' = { e with state := e.nextState } ∧ d.Enabled ∧
      (d.state = .firmware → d.cmdCount ≤ 256) := by
  rcases bitStep_cases h with ⟨-, heq⟩ | ⟨-, heq⟩ | ⟨-, -, -, heq⟩ | ⟨hroom, hexit, hbits, -⟩
  · simp [heq] at hstep
  · simp [heq] at hstep
  · simp [heq] at hstep
  · obtain ⟨r, d₁, e, hparts⟩ := h.exists_parts hbits hexit hroom
    refine ⟨r, d₁, e, hparts, ?_, hbits, hroom⟩
    simpa [hparts.bitStep] using hstep.symm

theorem hunt_mem_successors (h : State.hunt ∈ successors st) : st = .hunt := by
  revert h
  cases st <;> decide

/-- A round outside `hunt` takes the bits of its state, and does not get to `hunt`. -/
structure Calm (d d' : Decoder) : Prop where
  steady : Steady d d'
  ibBcnt : d'.ibBcnt ≤ d.ibBcnt - d.bitsToRead d.state
  next : d'.state ∈ successors d.state ∨ d'.state = .start ∧ State.pixels ∈ successors d.state
  state : d'.state ≠ .hunt

theorem Calm.mem_successors (h : Calm d d') (hst : d'.state ≠ .start) :
    d'.state ∈ successors d.state :=
  h.next.resolve_right fun hstart => hst hstart.1

/-- Where a round goes: to a successor of its state, or to `start` behind a full block. -/
theorem Parts.next_cases {r d₁ e : Decoder} (h : Parts d r d₁ e) :
    e.nextState ∈ successors d.state ∨
      e.nextState = .start ∧ State.pixels ∈ successors d.state := by
  have hfinish := h.finishBlock
  have hnext := h.effect.next
  unfold Decoder.finishBlock at hfinish
  split_ifs at hfinish with hfull
  · rw [hfull.1] at hnext
    exact h.next.imp_right fun hstart => ⟨hstart, hnext⟩
  · cases hfinish
    exact .inl hnext

theorem Inv.calm_round (h : Inv d) (hst : d.state ≠ .hunt) (hstep : d.bitStep = .ok (.inl d')) :
    Calm d d' := by
  obtain ⟨r, d₁, e, hparts, rfl, hbits, -⟩ := h.parts_of_round hstep
  have hread : Steady d r.lookupNext := by
    have hsteady := steady_getBits d (h.width_le _) hbits hparts.read.getBits
    exact ⟨hsteady.zeroCount, hsteady.bits⟩
  have hdispatch : Steady r.lookupNext d₁ :=
    (steady_dispatch r.lookupNext hst).of_eq_ok hparts.dispatch
  have hfinish : Steady d₁ e :=
    .of_rest ((keeps_finishBlock d₁).of_eq_ok hparts.finishBlock).rest
  have hsteady := hdispatch.trans hfinish
  have hle : e.ibBcnt ≤ r.ibBcnt := by
    obtain ⟨m, -, -, hcnt⟩ := hsteady.bits
    have : e.ibBcnt = r.ibBcnt - m := hcnt
    omega
  have hall := hread.trans hsteady
  refine ⟨⟨hall.zeroCount, hall.bits⟩, hparts.read.ibBcnt ▸ hle, hparts.next_cases, ?_⟩
  rcases hparts.next with hmem | hstart
  · intro hhunt
    change e.nextState = .hunt at hhunt
    rw [hhunt] at hmem
    exact hst (hunt_mem_successors hmem)
  · change e.nextState ≠ .hunt
    rw [hstart]
    decide

/-- What `hunt` leaves behind when it finds a one. -/
def found (d : Decoder) : Decoder :=
  { d with
    code := 1, ibAcc := 0, ibBcnt := 0, zeroCount := 0, countBytes := 0, nextState := .reset,
    state := .reset }

/-- `hunt` skips a zero. -/
def skipped (d : Decoder) : Decoder :=
  { d with code := 0, ibAcc := d.ibAcc >>> 1, ibBcnt := d.ibBcnt - 1, nextState := .hunt }

/-- A round of `hunt` looks at one bit. -/
theorem bitStep_hunt (h : Inv d) (hst : d.state = .hunt) (hbits : 0 < d.ibBcnt) :
    d.bitStep = .ok (.inl (if d.ibAcc &&& 1 = 0 then d.skipped else d.found)) := by
  have hone : d.bitsToRead d.state = 1 := h.width_at hst
  have hnext : d.next1 .hunt = .reset := h.valid.cache.next1 _ (by decide)
  have hlook : lookupNext { d with
      code := d.ibAcc &&& 1, ibAcc := d.ibAcc >>> 1, ibBcnt := d.ibBcnt - 1 } =
      { d with
        code := d.ibAcc &&& 1, ibAcc := d.ibAcc >>> 1, ibBcnt := d.ibBcnt - 1
        nextState := if d.ibAcc &&& 1 = 0 then .hunt else .reset } := by
    unfold lookupNext
    dsimp only
    rw [hst, hnext]
    rfl
  unfold bitStep
  rw [hone, if_neg (by omega)]
  change (dispatch (lookupNext { d with
    code := d.ibAcc &&& 1, ibAcc := d.ibAcc >>> 1, ibBcnt := d.ibBcnt - 1 }) d.state >>= _) = _
  rw [hlook, hst]
  by_cases hzero : d.ibAcc &&& 1 = 0
  · simp [hzero, dispatch, finishBlock, Hangs, skipped, hst]
    rfl
  · have hbit : d.ibAcc &&& 1 = 1 := by
      rw [Nat.and_one_is_mod] at hzero ⊢
      omega
    simp [hbit, dispatch, finishBlock, Hangs, found]
    rfl

/-! ### The raw stream -/

/-- The bits of a byte, the least significant one first. -/
def byteBits (b : BitVec 8) : List Bool := (List.range 8).map b.toNat.testBit

/-- The bits of a stream of bytes. -/
def rawBits (bs : List (BitVec 8)) : List Bool := bs.flatMap byteBits

theorem rawBits_snoc (bs : List (BitVec 8)) (b : BitVec 8) :
    rawBits (bs ++ [b]) = rawBits bs ++ byteBits b := by
  simp [rawBits]

/-- The tables of `initReversal`: `right` zeros come before the first one of a byte, and `left`
behind the last one. -/
theorem byteBits_tables (b : BitVec 8) :
    right ⟨b.toNat, b.isLt⟩ ≤ 8 ∧
    (byteBits b).take (right ⟨b.toNat, b.isLt⟩) =
      List.replicate (right ⟨b.toNat, b.isLt⟩) false ∧
    (∀ k ≤ 8, right ⟨b.toNat, b.isLt⟩ < k → true ∈ (byteBits b).take k) ∧
    (b ≠ 0 → true ∈ byteBits b ∧ zeroRun (byteBits b) = left ⟨b.toNat, b.isLt⟩) ∧
    (b = 0 → right ⟨b.toNat, b.isLt⟩ = 8 ∧ byteBits b = List.replicate 8 false) := by
  have hall : ∀ n : Fin 256, right n ≤ 8 ∧
      (byteBits ⟨n⟩).take (right n) = List.replicate (right n) false ∧
      (∀ k ≤ 8, right n < k → true ∈ (byteBits ⟨n⟩).take k) ∧
      ((⟨n⟩ : BitVec 8) ≠ 0 → true ∈ byteBits ⟨n⟩ ∧ zeroRun (byteBits ⟨n⟩) = left n) ∧
      ((⟨n⟩ : BitVec 8) = 0 → right n = 8 ∧ byteBits ⟨n⟩ = List.replicate 8 false) := by
    decide +kernel
  exact hall b.toFin

/-- The run of zeros behind one more byte. -/
theorem zeroRun_rawBits_snoc (bs : List (BitVec 8)) (b : BitVec 8) :
    zeroRun (rawBits (bs ++ [b])) =
      if b = 0 then zeroRun (rawBits bs) + 8 else left ⟨b.toNat, b.isLt⟩ := by
  obtain ⟨-, -, -, hone, hzero⟩ := byteBits_tables b
  rw [rawBits_snoc]
  split_ifs with hb
  · rw [(hzero hb).2, zeroRun_append_zeros]
  · rw [zeroRun_append_of_mem (hone hb).1, (hone hb).2]

/-- The longest run that ends inside a byte is the one before its first one. -/
theorem exists_run_iff (bs : List (BitVec 8)) (b : BitVec 8) :
    (∃ n ≤ 8, 30 < zeroRun (rawBits bs ++ (byteBits b).take n)) ↔
      30 < zeroRun (rawBits bs) + right ⟨b.toNat, b.isLt⟩ := by
  obtain ⟨hle, hzeros, hones, -⟩ := byteBits_tables b
  constructor
  · rintro ⟨n, hn, hrun⟩
    by_cases hshort : n ≤ right ⟨b.toNat, b.isLt⟩
    · have htake : (byteBits b).take n = List.replicate n false := by
        rw [← Nat.min_eq_left hshort, ← List.take_take, hzeros, List.take_replicate,
          Nat.min_eq_left hshort]
      rw [htake, zeroRun_append_zeros] at hrun
      omega
    · rw [zeroRun_append_of_mem (hones n hn (by omega))] at hrun
      have hlen := zeroRun_le ((byteBits b).take n)
      rw [List.length_take] at hlen
      omega
  · intro hrun
    exact ⟨_, hle, by rw [hzeros, zeroRun_append_zeros]; exact hrun⟩

/-- A byte that makes the run of zeros too long. -/
theorem accept_forced (d : Decoder) {b : BitVec 8}
    (h : 30 < d.zeroCount + right ⟨b.toNat, b.isLt⟩) :
    d.accept b = .ok { d with
      ibAcc := (d.ibAcc ||| b.toNat <<< d.ibBcnt) % 2 ^ 64, ibBcnt := d.ibBcnt + 8
      zeroCount := d.zeroCount + right ⟨b.toNat, b.isLt⟩, nextState := .hunt, state := .hunt
      countBytes := d.countBytes + 1 } := by
  unfold accept addBits
  rw [rd_ok b.isLt]
  change ((if 30 < d.zeroCount + right ⟨b.toNat, b.isLt⟩ then _ else _) >>= _) = _
  rw [if_pos h]
  rfl

/-- Any other byte: the run of zeros goes on, or a one starts a new one. -/
theorem accept_counted (d : Decoder) {b : BitVec 8}
    (h : ¬ 30 < d.zeroCount + right ⟨b.toNat, b.isLt⟩) :
    d.accept b = .ok { d with
      ibAcc := (d.ibAcc ||| b.toNat <<< d.ibBcnt) % 2 ^ 64, ibBcnt := d.ibBcnt + 8
      zeroCount := if b = 0 then d.zeroCount + 8 else left ⟨b.toNat, b.isLt⟩
      countBytes := d.countBytes + 1 } := by
  unfold accept addBits
  rw [rd_ok b.isLt]
  change ((if 30 < d.zeroCount + right ⟨b.toNat, b.isLt⟩ then _ else _) >>= _) = _
  rw [if_neg h]
  by_cases hb : b = 0
  · subst hb
    rw [if_neg (by decide), if_pos rfl]
    rfl
  · have hne : b.toNat ≠ 0 := fun hzero => hb (BitVec.eq_of_toNat_eq hzero)
    rw [if_pos hne, if_neg hb, rd_ok b.isLt]
    rfl

/-! ### Runs -/

/-- A decoder between two bytes or at a loop head, with the bytes since it was made or last left
`hunt`. -/
structure Track where
  dec : Decoder := NewDecoder
  inLoop : Bool := false
  raw : List (BitVec 8) := []

/-- A new byte, or one round of the bit loop. Leaving `hunt` starts the record anew. -/
def track : Move → Track → Option Track
  | .byte b, p =>
      if p.inLoop then none
      else match p.dec.accept b with
        | .ok d => some { dec := d, inLoop := true, raw := p.raw ++ [b] }
        | .error _ => none
  | .round, p =>
      if p.inLoop then
        match p.dec.bitStep with
        | .ok (.inl d) =>
            some { p with
              dec := d, raw := if p.dec.state = .hunt ∧ d.state ≠ .hunt then [] else p.raw }
        | .ok (.inr (d, _)) => some { p with dec := d, inLoop := false }
        | .error _ => none
      else none

theorem track_eq (m : Move) (p : Track) : track m p = observe Track.dec Track.inLoop
    (fun b d p => { dec := d, inLoop := true, raw := p.raw ++ [b] })
    (fun d p => { p with
      dec := d, raw := if p.dec.state = .hunt ∧ d.state ≠ .hunt then [] else p.raw })
    (fun d p => { p with dec := d, inLoop := false }) m p := by
  cases m <;> rfl

/-- Outside `hunt` the decoder's count is the run of zeros at the end of the raw stream. -/
structure Counts (p : Track) : Prop where
  inv : Inv p.dec
  zeroCount : p.dec.state ≠ .hunt → p.dec.zeroCount = zeroRun (rawBits p.raw)

theorem Counts.byte {p p' : Track} {b : BitVec 8} (h : Counts p)
    (hstep : track (.byte b) p = some p') :
    Counts p' ∧ (p.dec.state ≠ .hunt →
      (p'.dec.state = .hunt ↔ 30 < zeroRun (rawBits p.raw) + right ⟨b.toNat, b.isLt⟩)) := by
  rw [track_eq] at hstep
  cases observed_of_observe hstep with
  | byte haccept =>
      obtain ⟨d₀, haccept', hnew⟩ := accept_spec h.inv b
      by_cases hforced : 30 < p.dec.zeroCount + right ⟨b.toNat, b.isLt⟩
      · rw [accept_forced p.dec hforced] at haccept haccept'
        cases haccept
        cases haccept'
        refine ⟨⟨hnew.inv, fun hst => absurd rfl hst⟩, ?_⟩
        intro hst
        exact iff_of_true rfl (h.zeroCount hst ▸ hforced)
      · rw [accept_counted p.dec hforced] at haccept haccept'
        cases haccept
        cases haccept'
        refine ⟨⟨hnew.inv, ?_⟩, ?_⟩
        · intro hst
          change (if b = 0 then p.dec.zeroCount + 8 else _) = _
          rw [zeroRun_rawBits_snoc, h.zeroCount hst]
        · intro hst
          exact iff_of_false hst (h.zeroCount hst ▸ hforced)

theorem Counts.round {p p' : Track} (h : Counts p) (hstep : track .round p = some p') :
    Counts p' ∧ (p.dec.state ≠ .hunt → p'.dec.state ≠ .hunt) := by
  rw [track_eq] at hstep
  cases observed_of_observe hstep with
  | leave hleave =>
      have hinv := (meets_bitStep h.inv).of_eq_ok hleave
      rcases h.inv.left_of_bitStep hleave with rfl | rfl
      · exact ⟨⟨hinv, h.zeroCount⟩, fun hst => hst⟩
      · exact ⟨⟨hinv, h.zeroCount⟩, fun hst => hst⟩
  | @goOn d _ hgo =>
      have hinv := (h.inv.round_of_bitStep hgo).inv
      by_cases hst : p.dec.state = .hunt
      · have hpos : 0 < p.dec.ibBcnt := by
          have hone : p.dec.bitsToRead p.dec.state = 1 := h.inv.width_at hst
          obtain ⟨-, -, -, -, -, hbits, -⟩ := h.inv.parts_of_round hgo
          unfold Enabled at hbits
          omega
        have hhunt := bitStep_hunt h.inv hst hpos
        rw [hgo] at hhunt
        refine ⟨⟨hinv, ?_⟩, fun hne => absurd hst hne⟩
        intro hleft
        change d.state ≠ .hunt at hleft
        change d.zeroCount = zeroRun (rawBits (if _ ∧ d.state ≠ .hunt then [] else p.raw))
        rw [if_pos ⟨hst, hleft⟩]
        by_cases hzero : p.dec.ibAcc &&& 1 = 0
        · rw [if_pos hzero] at hhunt
          cases hhunt
          exact absurd hst hleft
        · rw [if_neg hzero] at hhunt
          cases hhunt
          rfl
      · have hcalm := h.inv.calm_round hst hgo
        refine ⟨⟨hinv, ?_⟩, fun _ => hcalm.state⟩
        intro _
        change d.zeroCount = zeroRun (rawBits (if p.dec.state = .hunt ∧ _ then [] else p.raw))
        rw [if_neg (fun hboth => hst hboth.1), hcalm.steady.zeroCount, h.zeroCount hst]

theorem counts_of_reached {p : Track} (h : Reached track (fun _ _ => True) {} p) : Counts p := by
  apply h.invariant (I := Counts) ⟨inv_NewDecoder, fun _ => rfl⟩
  intro m p p' hp _ hstep
  cases m with
  | byte b => exact (hp.byte hstep).1
  | round => exact (hp.round hstep).1

/-- A step gets to `hunt` exactly when it is a byte inside which a run of more than 30 zeros
ends. -/
theorem Counts.enters_hunt_iff {m : Move} {p p' : Track} (h : Counts p)
    (hstep : track m p = some p') (hst : p.dec.state ≠ .hunt) :
    p'.dec.state = .hunt ↔
      ∃ b, m = .byte b ∧ ∃ n ≤ 8, 30 < zeroRun (rawBits p.raw ++ (byteBits b).take n) := by
  cases m with
  | byte b =>
      rw [(h.byte hstep).2 hst, ← exists_run_iff]
      constructor
      · intro hrun
        exact ⟨b, rfl, hrun⟩
      · rintro ⟨b', hb', hrun⟩
        cases hb'
        exact hrun
  | round =>
      constructor
      · intro hhunt
        exact absurd hhunt ((h.round hstep).2 hst)
      · rintro ⟨b, hb, -⟩
        cases hb

end Outband.Ilo.Dvc.Decoder
