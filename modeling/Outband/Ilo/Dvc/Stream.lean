import Outband.Foundation.Transition
import Outband.Ilo.Dvc.Dispatch

/-!
# Byte streams

What holds of a decoder after any stream of bytes: its memory invariant, that
`Feed` comes back, what it returns, and when the command buffer overruns. All of
it follows from the rounds of the bit loop.

## Implementation notes

`Fed ok bs d` collects the decoders that a fresh one can become by being fed
`bs`, with every loop head on the way satisfying `ok`. Where a statement counts
something along the stream, the count is not in the decoder: `Point` carries it
next to the decoder, and `step` moves from byte to byte and from round to round.
-/

namespace Outband.Ilo.Dvc.Decoder

open Foundation

variable {d d' h : Decoder} {b : BitVec 8} {bs : List (BitVec 8)} {ok : Decoder → Prop}

/-! ### Fresh decoders and new bytes -/

theorem sound_default : ({} : ColorCache).Sound where
  refines := by
    refine ⟨.empty, ⟨ColorCache.represents_of_empty rfl, ?_⟩, ?_⟩
    · intro hpos
      exact absurd hpos (Nat.lt_irrefl 0)
    · intro e he
      cases he
  pixcode := by decide
  pixfan := .inl (by decide)
  next1 := fun _ _ => rfl

theorem widthOf_default : bitsToReadInit = widthOf 5 16 := by
  funext st
  cases st <;> decide

theorem inv_NewDecoder : Inv NewDecoder where
  valid :=
    { cache := sound_default
      widths := widthOf_default
      blockWidth := rfl
      blockHeight := .inr rfl
      bitsPerColor := by decide
      pixelCount := Nat.zero_le _
      red := Nat.two_pow_pos 15
      green := Nat.two_pow_pos 15
      blue := Nat.two_pow_pos 15
      pixels := rfl }
  idle := fun _ => rfl

/-- Eight more bits. The state stays, or too many zeros force `hunt`. -/
structure Accepted (d d' : Decoder) : Prop where
  inv : Inv d'
  ibBcnt : d'.ibBcnt = d.ibBcnt + 8
  acc : d.ibAcc < 2 ^ d.ibBcnt → d'.ibAcc < 2 ^ d'.ibBcnt
  state : d'.state = d.state ∨ d'.state = .hunt
  cmdCount : d'.cmdCount = d.cmdCount

theorem append_lt {acc cnt c : Nat} (hacc : acc < 2 ^ cnt) (hc : c < 2 ^ 8) :
    (acc ||| c <<< cnt) % 2 ^ 64 < 2 ^ (cnt + 8) := by
  apply Nat.lt_of_le_of_lt (Nat.mod_le _ _)
  apply Nat.or_lt_two_pow
  · exact Nat.lt_of_lt_of_le hacc (Nat.pow_le_pow_right (by decide) (Nat.le_add_right _ _))
  · rw [Nat.shiftLeft_eq, Nat.pow_add, Nat.mul_comm]
    exact Nat.mul_lt_mul_of_pos_left hc (Nat.two_pow_pos _)

theorem addBits_spec (d : Decoder) {c : Nat} (hc : c < 256) :
    ∃ z nx st code, d.addBits c = .ok ({ d with
        ibAcc := (d.ibAcc ||| c <<< d.ibBcnt) % 2 ^ 64, ibBcnt := d.ibBcnt + 8
        zeroCount := z, nextState := nx, state := st }, code) ∧
      (st = d.state ∨ st = .hunt) := by
  unfold addBits
  rw [rd_ok hc]
  change ∃ z nx st code, (if 30 < d.zeroCount + right ⟨c, hc⟩ then _ else _) = _ ∧ _
  by_cases hzeros : 30 < d.zeroCount + right ⟨c, hc⟩
  · rw [if_pos hzeros]
    exact ⟨_, _, _, _, rfl, .inr rfl⟩
  · rw [if_neg hzeros]
    by_cases hnonzero : c ≠ 0
    · rw [if_pos hnonzero, rd_ok hc]
      exact ⟨_, _, _, _, rfl, .inl rfl⟩
    · rw [if_neg hnonzero]
      exact ⟨_, _, _, _, rfl, .inl rfl⟩

theorem accept_spec (hd : Inv d) (b : BitVec 8) :
    ∃ d', d.accept b = .ok d' ∧ Accepted d d' := by
  obtain ⟨z, nx, st, code, heq, hst⟩ := d.addBits_spec b.isLt
  rw [accept, heq]
  refine ⟨_, rfl, ?_⟩
  refine ⟨⟨hd.valid, ?_⟩, rfl, fun hacc => append_lt hacc b.isLt, hst, rfl⟩
  change Dvc.idle st = true → d.pixelCount = 0
  rcases hst with rfl | rfl
  · exact hd.idle
  · simp [Dvc.idle]

/-! ### Rounds -/

/-- Everything the round from a loop head can do. -/
theorem bitStep_cases (hd : Inv d) :
    (¬ d.Enabled ∧ d.bitStep = .ok (.inr (d, 0))) ∨
    (d.state = .exit ∧
      d.bitStep = .ok (.inr ({ d with nextState := .exit }.emit .onExit, 6))) ∨
    (d.state = .firmware ∧ d.Enabled ∧ 257 ≤ d.cmdCount ∧ d.bitStep = .error .cmdBuf) ∨
    ((d.state = .firmware → d.cmdCount ≤ 256) ∧ d.state ≠ .exit ∧ d.Enabled ∧
      ∃ d', d.bitStep = .ok (.inl d') ∧ Round d d') := by
  by_cases hbits : d.Enabled
  · by_cases hexit : d.state = .exit
    · exact .inr (.inl ⟨hexit, bitStep_exit hd hexit⟩)
    · by_cases hroom : d.state = .firmware → d.cmdCount ≤ 256
      · exact .inr (.inr (.inr ⟨hroom, hexit, hbits, bitStep_round hd hbits hexit hroom⟩))
      · obtain ⟨hst, hcount⟩ : d.state = .firmware ∧ 257 ≤ d.cmdCount := by
          push Not at hroom
          exact ⟨hroom.1, hroom.2⟩
        exact .inr (.inr (.inl ⟨hst, hbits, hcount, bitStep_overrun hd hst hbits hcount⟩))
  · exact .inl ⟨hbits, bitStep_short hbits⟩

theorem Inv.round_of_bitStep (hd : Inv d) (hgo : d.bitStep = .ok (.inl d')) : Round d d' := by
  rcases bitStep_cases hd with ⟨-, heq⟩ | ⟨-, heq⟩ | ⟨-, -, -, heq⟩ | ⟨-, -, -, e, heq, hround⟩
  · cases hgo.symm.trans heq
  · cases hgo.symm.trans heq
  · cases hgo.symm.trans heq
  · cases hgo.symm.trans heq
    exact hround

/-- The round that leaves the loop at most notes the exit. -/
theorem Inv.left_of_bitStep (hd : Inv d) {code : Nat} (hleave : d.bitStep = .ok (.inr (d', code))) :
    d' = d ∨ d' = { d with nextState := .exit }.emit .onExit := by
  rcases bitStep_cases hd with ⟨-, heq⟩ | ⟨-, heq⟩ | ⟨-, -, -, heq⟩ | ⟨-, -, -, e, heq, -⟩
  · cases hleave.symm.trans heq
    exact .inl rfl
  · cases hleave.symm.trans heq
    exact .inr rfl
  · cases hleave.symm.trans heq
  · cases hleave.symm.trans heq

/-- The invariant survives every round, and a fault is one of the command buffer. -/
theorem meets_bitStep (hd : Inv d) :
    Meets d.bitStep (Sum.elim Inv fun r => Inv r.1) fun e => e = .cmdBuf := by
  rcases bitStep_cases hd with ⟨-, heq⟩ | ⟨hst, heq⟩ | ⟨-, -, -, heq⟩ | ⟨-, -, -, d', heq, hround⟩
  · rw [heq]
    exact hd
  · rw [heq]
    exact ⟨hd.valid, hd.idle⟩
  · rw [heq]
    rfl
  · rw [heq]
    exact hround.inv

/-- The bit loop always ends. -/
theorem exists_returns (hd : Inv d) : ∃ r, Loop.Returns bitStep d r := by
  apply Loop.exists_returns (I := Inv) weight _ hd
  intro d hd
  rcases bitStep_cases hd with ⟨-, heq⟩ | ⟨-, heq⟩ | ⟨-, -, -, heq⟩ | ⟨-, -, -, d', heq, hround⟩
  · rw [heq]
    trivial
  · rw [heq]
    trivial
  · rw [heq]
    trivial
  · rw [heq]
    exact ⟨hround.inv, hround.weight⟩

/-! ### Feeding bytes -/

/-- Feeding `b` to `d` ends, with outcome `r`. -/
def Feeds (d : Decoder) (b : BitVec 8) (r : Except Site (Decoder × Nat)) : Prop :=
  ∃ fuel, d.Feed fuel b = some r

/-- The bit loop is at its head with decoder `h` while `d` processes `b`. -/
def HeadOf (d : Decoder) (b : BitVec 8) (h : Decoder) : Prop :=
  ∃ d₀, d.accept b = .ok d₀ ∧ Loop.Visits bitStep d₀ h

/-- The decoders a fresh one becomes by being fed `bs` through loop heads that satisfy `ok`. -/
inductive Fed (ok : Decoder → Prop) : List (BitVec 8) → Decoder → Prop
  | new : Fed ok [] NewDecoder
  | feed {bs : List (BitVec 8)} {b : BitVec 8} {d d' : Decoder} {code : Nat} (run : Fed ok bs d)
      (heads : ∀ h, HeadOf d b h → ok h) (done : Feeds d b (.ok (d', code))) :
      Fed ok (bs ++ [b]) d'

theorem feeds_iff {d₀ : Decoder} (haccept : d.accept b = .ok d₀)
    {r : Except Site (Decoder × Nat)} : Feeds d b r ↔ Loop.Returns bitStep d₀ r := by
  simp only [Feeds, Feed, haccept, Loop.Returns]

theorem meets_of_feeds (hd : Inv d) {r : Except Site (Decoder × Nat)} (hr : Feeds d b r) :
    Meets r (fun r => Inv r.1) fun e => e = .cmdBuf := by
  obtain ⟨d₀, haccept, hnew⟩ := accept_spec hd b
  exact ((feeds_iff haccept).mp hr).meets (fun _ => meets_bitStep) hnew.inv

/-- Feeding a byte has at most one outcome. -/
theorem Feeds.unique {r r' : Except Site (Decoder × Nat)} (hd : Inv d) (hr : Feeds d b r)
    (hr' : Feeds d b r') : r = r' := by
  obtain ⟨d₀, haccept, -⟩ := accept_spec hd b
  exact ((feeds_iff haccept).mp hr).unique ((feeds_iff haccept).mp hr')

theorem Fed.inv (hfed : Fed ok bs d) : Inv d := by
  induction hfed with
  | new => exact inv_NewDecoder
  | feed _ _ done ih => exact meets_of_feeds ih done

/-- The last byte of a stream. -/
theorem Fed.exists_last (hfed : Fed ok (bs ++ [b]) d') :
    ∃ d code, Fed ok bs d ∧ (∀ h, HeadOf d b h → ok h) ∧ Feeds d b (.ok (d', code)) := by
  generalize hcs : bs ++ [b] = cs at hfed
  cases hfed with
  | new => simp at hcs
  | feed run heads done =>
      obtain ⟨rfl, hb⟩ := List.append_inj' hcs rfl
      cases hb
      exact ⟨_, _, run, heads, done⟩

/-- A stream leads to at most one decoder. -/
theorem Fed.unique {ok' : Decoder → Prop} (hfed : Fed ok bs d) (hfed' : Fed ok' bs d') :
    d = d' := by
  induction hfed generalizing d' with
  | new =>
      generalize hbs : ([] : List (BitVec 8)) = bs at hfed'
      cases hfed' with
      | new => rfl
      | feed _ _ _ => simp at hbs
  | feed run _ done ih =>
      obtain ⟨e, code, hrun, -, hdone⟩ := hfed'.exists_last
      cases ih hrun
      cases done.unique run.inv hdone
      rfl

theorem Fed.imp {ok' : Decoder → Prop} (hok : ∀ h, ok h → ok' h) (hfed : Fed ok bs d) :
    Fed ok' bs d := by
  induction hfed with
  | new => exact .new
  | feed _ heads done ih => exact .feed ih (fun h hhead => hok h (heads h hhead)) done

theorem Fed.exists_prefix {cs : List (BitVec 8)} (hfed : Fed ok (bs ++ cs) d) :
    ∃ d', Fed ok bs d' := by
  induction cs using List.reverseRecOn generalizing d with
  | nil => exact ⟨d, by rwa [List.append_nil] at hfed⟩
  | append_singleton cs c ih =>
      rw [← List.append_assoc] at hfed
      obtain ⟨d', _, hrun, -, -⟩ := hfed.exists_last
      exact ih hrun

theorem HeadOf.inv (hhead : HeadOf d b h) (hd : Inv d) : Inv h := by
  obtain ⟨d₀, haccept, hvisits⟩ := hhead
  obtain ⟨d₁, haccept', hnew⟩ := accept_spec hd b
  rw [haccept] at haccept'
  cases haccept'
  exact hvisits.invariant (fun _ => meets_bitStep) hnew.inv

/-- The loop heads while `d` processes `b`, as far as the fuel goes. -/
def headsOf (fuel : Nat) (d : Decoder) (b : BitVec 8) : List Decoder :=
  match d.accept b with
  | .error _ => []
  | .ok d₀ => Loop.heads bitStep fuel d₀

theorem headOf_of_mem {fuel : Nat} (hmem : h ∈ headsOf fuel d b) : HeadOf d b h := by
  unfold headsOf at hmem
  split at hmem
  case h_1 => cases hmem
  case h_2 d₀ haccept => exact ⟨d₀, haccept, Loop.visits_of_mem_heads hmem⟩

theorem HeadOf.mem {fuel : Nat} (hfeed : (d.Feed fuel b).isSome = true) (hhead : HeadOf d b h) :
    h ∈ headsOf fuel d b := by
  obtain ⟨d₀, haccept, hvisits⟩ := hhead
  obtain ⟨r, hr⟩ := Option.isSome_iff_exists.mp hfeed
  simp only [Feed, haccept] at hr
  simp only [headsOf, haccept]
  exact hvisits.mem_heads hr

/-- Feed a list of bytes, whatever `Feed` returns for each. -/
def feedAll (fuel : Nat) (d : Decoder) : List (BitVec 8) → Option (Except Site Decoder)
  | [] => some (.ok d)
  | b :: bs =>
      match d.Feed fuel b with
      | some (.ok (d', _)) => feedAll fuel d' bs
      | some (.error e) => some (.error e)
      | none => none

/-- The outcome of a computation with fuel is a value. -/
def isOk {α : Type} : Option (Except Site α) → Bool
  | some (.ok _) => true
  | _ => false

theorem exists_ok_of_isOk {α : Type} {r : Option (Except Site α)} (hr : isOk r = true) :
    ∃ a, r = some (.ok a) := by
  match r, hr with
  | some (.ok a), _ => exact ⟨a, rfl⟩

theorem Feed_mono {fuel fuel' : Nat} {r : Except Site (Decoder × Nat)} (hle : fuel ≤ fuel')
    (hfeed : d.Feed fuel b = some r) : d.Feed fuel' b = some r := by
  unfold Feed at hfeed ⊢
  split at hfeed
  · exact hfeed
  · exact Loop.run_mono hle hfeed

section FeedAll
variable {fuel fuel' code : Nat} {cs : List (BitVec 8)} {c : BitVec 8}

theorem feedAll_cons (hfeed : d.Feed fuel c = some (.ok (d', code))) :
    d.feedAll fuel (c :: cs) = d'.feedAll fuel cs := by
  rw [feedAll, hfeed]

theorem exists_of_feedAll_cons (hall : d.feedAll fuel (c :: cs) = some (.ok d')) :
    ∃ e code, d.Feed fuel c = some (.ok (e, code)) ∧ e.feedAll fuel cs = some (.ok d') := by
  rw [feedAll] at hall
  split at hall
  case h_1 e code hfeed => exact ⟨e, code, hfeed, hall⟩
  case h_2 => cases hall
  case h_3 => cases hall

theorem feedAll_append (hall : d.feedAll fuel bs = some (.ok d')) :
    d.feedAll fuel (bs ++ cs) = d'.feedAll fuel cs := by
  induction bs generalizing d with
  | nil =>
      cases hall
      rfl
  | cons b bs ih =>
      obtain ⟨e, code, hfeed, hrest⟩ := exists_of_feedAll_cons hall
      rw [List.cons_append, feedAll_cons hfeed, ih hrest]

theorem feedAll_mono (hle : fuel ≤ fuel') (hall : d.feedAll fuel bs = some (.ok d')) :
    d.feedAll fuel' bs = some (.ok d') := by
  induction bs generalizing d with
  | nil => exact hall
  | cons b bs ih =>
      obtain ⟨e, code, hfeed, hrest⟩ := exists_of_feedAll_cons hall
      rw [feedAll_cons (Feed_mono hle hfeed), ih hrest]

theorem Fed.feedAll (hfed : Fed (fun _ => True) bs d) (hall : d.feedAll fuel cs = some (.ok d')) :
    Fed (fun _ => True) (bs ++ cs) d' := by
  induction cs generalizing bs d with
  | nil =>
      cases hall
      rwa [List.append_nil]
  | cons c cs ih =>
      obtain ⟨e, code, hfeed, hrest⟩ := exists_of_feedAll_cons hall
      rw [List.append_cons]
      exact ih (.feed hfed (fun _ _ => trivial) ⟨fuel, hfeed⟩) hrest

end FeedAll

/-! ### Memory safety -/

/-- The bounds behind every memory access of the decoder. -/
structure MemorySafe (d : Decoder) : Prop where
  ccActive : d.ccActive ≤ 17
  pixelCount : d.pixelCount ≤ d.blockHeight * 16
  block : d.blockHeight * 16 ≤ 256
  cached : ∀ i : Fin 17, i.val < d.ccActive → d.ccColor i < 32768
  literal : d.red ||| d.green ||| d.blue < 32768
  widths : ∀ st, d.bitsToRead st ≤ 8
  pixels : d.FB.Pixels.length = d.FB.Width * d.FB.Height

theorem Inv.memorySafe (hd : Inv d) : MemorySafe d where
  ccActive := hd.valid.cache.active_le
  pixelCount := hd.valid.pixelCount
  block := by
    have hheight : d.blockHeight = 8 ∨ d.blockHeight = 16 := hd.valid.blockHeight
    omega
  cached := fun _ hi => hd.valid.cache.color_lt hi
  literal := Nat.or_lt_two_pow (n := 15) (Nat.or_lt_two_pow hd.valid.red hd.valid.green)
    hd.valid.blue
  widths := hd.width_le
  pixels := hd.valid.pixels

/-- After any stream, and at every loop head of the next byte, the bounds hold.
Painting at any position and the conversion for the client stay in range, and
the next byte can fault in the command buffer alone. -/
theorem fed_memorySafe (hfed : Fed (fun _ => True) bs d) :
    MemorySafe d ∧ (∀ b h, HeadOf d b h → MemorySafe h) ∧
      (∀ x y, ∃ fb, d.FB.PasteBlock d.block x y 16 d.blockHeight = .ok fb) ∧
      (∃ out, d.FB.ToRGBX = .ok out) ∧
      ∀ b e, Feeds d b (.error e) → e = .cmdBuf := by
  have hd := hfed.inv
  have hblock := hd.memorySafe.block
  refine ⟨hd.memorySafe, fun b h hhead => (hhead.inv hd).memorySafe, ?_, ?_, ?_⟩
  · intro x y
    obtain ⟨fb, hfb, -⟩ := (Framebuffer.meets_PasteBlock hd.valid.pixels d.block x y
      (show d.blockHeight ≤ 16 by omega)).exists_ok
    exact ⟨fb, hfb⟩
  · obtain ⟨out, hout, -⟩ := (Framebuffer.meets_ToRGBX hd.valid.pixels).exists_ok
    exact ⟨out, hout⟩
  · intro b e hfeeds
    exact meets_of_feeds hd hfeeds

/-- A fresh decoder and one that has read a whole command, both within the bounds. -/
theorem fed_memorySafe_two :
    MemorySafe NewDecoder ∧ ∃ d, Fed (fun _ => True) [0x1D, 0x10] d ∧ MemorySafe d := by
  refine ⟨(fed_memorySafe .new).1, ?_⟩
  obtain ⟨d, hd⟩ : ∃ d, NewDecoder.feedAll 20 [0x1D, 0x10] = some (.ok d) :=
    exists_ok_of_isOk (by decide +kernel)
  have hfed : Fed (fun _ => True) [0x1D, 0x10] d := Fed.new.feedAll hd
  exact ⟨d, hfed, (fed_memorySafe hfed).1⟩

/-! ### Progress -/

instance : DecidablePred DispatchesExit := fun d =>
  inferInstanceAs (Decidable (d.state = .corp ∧ 0 < d.ibBcnt ∧ d.ibAcc &&& 1 = 0 ∧ d.cmdLast = 1))

/-- A stream that has not dispatched `exit` leaves less than a byte of bits. -/
structure Running (d : Decoder) : Prop where
  inv : Inv d
  state : d.state ≠ .exit
  acc : d.ibAcc < 2 ^ d.ibBcnt

/-- One round of a stream that does not dispatch `exit`: the loop is left with
code 0 and too few bits for the state. -/
theorem Running.meets_bitStep (hd : Running d) (hquiet : ¬ d.DispatchesExit) :
    Meets d.bitStep (Sum.elim Running fun r => r.2 = 0 ∧ r.1.ibBcnt ≤ 7 ∧ Running r.1)
      fun e => e = .cmdBuf := by
  rcases bitStep_cases hd.inv with ⟨hbits, heq⟩ | ⟨hst, -⟩ | ⟨-, -, -, heq⟩ |
    ⟨-, -, -, d', heq, hround⟩
  · rw [heq]
    have hle := hd.inv.width_le d.state
    unfold Enabled at hbits
    exact ⟨rfl, by change d.ibBcnt ≤ 7; omega, hd⟩
  · exact absurd hst hd.state
  · rw [heq]
    rfl
  · rw [heq]
    exact ⟨hround.inv, fun hexit => hquiet (hround.exit.mp hexit), hround.drains.acc hd.acc⟩

theorem Running.accept {d₀ : Decoder} (hd : Running d) (haccept : d.accept b = .ok d₀) :
    Running d₀ := by
  obtain ⟨d₁, haccept', hnew⟩ := accept_spec hd.inv b
  rw [haccept] at haccept'
  cases haccept'
  refine ⟨hnew.inv, ?_, hnew.acc hd.acc⟩
  rcases hnew.state with hst | hst
  · rw [hst]
    exact hd.state
  · rw [hst]
    decide

/-- Feeding a byte to a running decoder without dispatching `exit`. -/
theorem Running.meets_of_feeds (hd : Running d) (hquiet : ∀ h, HeadOf d b h → ¬ h.DispatchesExit)
    {r : Except Site (Decoder × Nat)} (hr : Feeds d b r) :
    Meets r (fun r => r.2 = 0 ∧ r.1.ibBcnt ≤ 7 ∧ Running r.1) fun e => e = .cmdBuf := by
  obtain ⟨d₀, haccept, -⟩ := accept_spec hd.inv b
  apply ((feeds_iff haccept).mp hr).meets_visits (I := Running) _ (hd.accept haccept)
  intro h hvisits hrunning
  exact hrunning.meets_bitStep (hquiet h ⟨d₀, haccept, hvisits⟩)

theorem Fed.running (hfed : Fed (fun h => ¬ h.DispatchesExit) bs d) :
    Running d ∧ d.ibBcnt ≤ 7 := by
  induction hfed with
  | new => exact ⟨⟨inv_NewDecoder, by decide, by decide⟩, by decide⟩
  | feed _ heads done ih =>
      obtain ⟨-, hcnt, hrunning⟩ := ih.1.meets_of_feeds heads done
      exact ⟨hrunning, hcnt⟩

/-- While no `exit` is dispatched every byte is processed in finitely many
rounds. Unless the command buffer overruns, `Feed` returns 0 and leaves less than
a byte of bits in the buffer. -/
theorem feed_progress (hfed : Fed (fun h => ¬ h.DispatchesExit) bs d)
    (hquiet : ∀ h, HeadOf d b h → ¬ h.DispatchesExit) :
    (∃ r, Feeds d b r) ∧ ∀ r, Feeds d b r → r = .error .cmdBuf ∨
      ∃ d', r = .ok (d', 0) ∧ d'.ibBcnt ≤ 7 ∧ d'.ibAcc < 2 ^ d'.ibBcnt := by
  obtain ⟨hrunning, -⟩ := hfed.running
  constructor
  · obtain ⟨d₀, haccept, hnew⟩ := accept_spec hrunning.inv b
    obtain ⟨r, hr⟩ := exists_returns hnew.inv
    exact ⟨r, (feeds_iff haccept).mpr hr⟩
  · intro r hr
    have hmeets := hrunning.meets_of_feeds hquiet hr
    rcases r with e | ⟨d', code⟩
    · exact .inl (congrArg Except.error hmeets)
    · obtain ⟨rfl, hcnt, hrun⟩ := hmeets
      exact .inr ⟨d', rfl, hcnt, hrun.acc⟩

/-- The first byte of a stream: no `exit` on the way, and nothing is left over. -/
theorem feed_progress_first : ∃ d', Feeds NewDecoder 0x1D (.ok (d', 0)) ∧ d'.ibBcnt ≤ 7 := by
  have hquiet : ∀ h, HeadOf NewDecoder 0x1D h → ¬ h.DispatchesExit := by
    intro h hhead
    have hall : ∀ h ∈ headsOf 20 NewDecoder 0x1D, ¬ h.DispatchesExit := by decide +kernel
    exact hall h (hhead.mem (by decide +kernel))
  obtain ⟨⟨d', code⟩, hd'⟩ : ∃ r, NewDecoder.Feed 20 0x1D = some (.ok r) :=
    exists_ok_of_isOk (by decide +kernel)
  obtain ⟨-, hall⟩ := feed_progress .new hquiet
  rcases hall _ ⟨20, hd'⟩ with herr | ⟨d'', heq, hcnt, -⟩
  · cases herr
  · cases heq
    exact ⟨d', ⟨20, hd'⟩, hcnt⟩

/-! ### The command buffer -/

/-- A decoder between two bytes or at a loop head, with the number of firmware
bytes since the last command or reset. -/
structure Point where
  dec : Decoder := NewDecoder
  inLoop : Bool := false
  firmwareBytes : Nat := 0

/-- A new byte, or one round of the bit loop. -/
inductive Move
  | byte (b : BitVec 8)
  | round

/-- A fault ends the run. A round that leaves the loop dispatches no firmware byte. -/
def step : Move → Point → Option Point
  | .byte b, p =>
      if p.inLoop then none
      else match p.dec.accept b with
        | .ok d => some { p with dec := d, inLoop := true }
        | .error _ => none
  | .round, p =>
      if p.inLoop then
        match p.dec.bitStep with
        | .ok (.inl d) =>
            some { p with dec := d, firmwareBytes := p.dec.chain p.firmwareBytes }
        | .ok (.inr (d, _)) => some { p with dec := d, inLoop := false }
        | .error _ => none
      else none

section Observe
variable {σ : Type} (dec : σ → Decoder) (inLoop : σ → Bool) (byte : BitVec 8 → Decoder → σ → σ)
variable (goOn leave : Decoder → σ → σ)

/-- The moves of a decoder with a record beside it: what becomes of both with a new byte, with a
round that goes on and with one that leaves the loop. A fault ends the run. -/
def observe : Move → σ → Option σ
  | .byte b, s =>
      if inLoop s then none
      else match (dec s).accept b with
        | .ok d => some (byte b d s)
        | .error _ => none
  | .round, s =>
      if inLoop s then
        match (dec s).bitStep with
        | .ok (.inl d) => some (goOn d s)
        | .ok (.inr (d, _)) => some (leave d s)
        | .error _ => none
      else none

/-- What such a move can do. -/
inductive Observed : Move → σ → σ → Prop
  | byte {b : BitVec 8} {d : Decoder} {s : σ} (haccept : (dec s).accept b = .ok d) :
      Observed (.byte b) s (byte b d s)
  | goOn {d : Decoder} {s : σ} (hround : (dec s).bitStep = .ok (.inl d)) :
      Observed .round s (goOn d s)
  | leave {d : Decoder} {code : Nat} {s : σ} (hround : (dec s).bitStep = .ok (.inr (d, code))) :
      Observed .round s (leave d s)

variable {dec inLoop byte goOn leave}

theorem observed_of_observe {m : Move} {s s' : σ}
    (hstep : observe dec inLoop byte goOn leave m s = some s') :
    Observed dec byte goOn leave m s s' := by
  cases m with
  | byte b =>
      rw [observe] at hstep
      split at hstep
      case isTrue => cases hstep
      case isFalse =>
        split at hstep
        case h_1 d haccept =>
          cases hstep
          exact .byte haccept
        case h_2 => cases hstep
  | round =>
      rw [observe] at hstep
      split at hstep
      case isFalse => cases hstep
      case isTrue =>
        split at hstep
        case h_1 d hround =>
          cases hstep
          exact .goOn hround
        case h_2 d code hround =>
          cases hstep
          exact .leave hround
        case h_3 => cases hstep

end Observe

theorem step_eq (m : Move) (p : Point) : step m p = observe Point.dec Point.inLoop
    (fun _ d p => { p with dec := d, inLoop := true })
    (fun d p => { p with dec := d, firmwareBytes := p.dec.chain p.firmwareBytes })
    (fun d p => { p with dec := d, inLoop := false }) m p := by
  cases m <;> rfl

/-- The invariant of a run: the count in the decoder is the count of the stream. -/
structure Counted (p : Point) : Prop where
  inv : Inv p.dec
  cmdCount : p.dec.cmdCount = p.firmwareBytes

theorem Counted.next {m : Move} {p p' : Point} (hp : Counted p) (hstep : step m p = some p') :
    Counted p' := by
  rw [step_eq] at hstep
  cases observed_of_observe hstep with
  | byte haccept =>
      obtain ⟨d, haccept', hnew⟩ := accept_spec hp.inv _
      cases haccept.symm.trans haccept'
      exact ⟨hnew.inv, hnew.cmdCount.trans hp.cmdCount⟩
  | goOn hgo =>
      have hround := hp.inv.round_of_bitStep hgo
      exact ⟨hround.inv, by rw [hround.cmdCount, hp.cmdCount]⟩
  | leave hleave =>
      refine ⟨(meets_bitStep hp.inv).of_eq_ok hleave, ?_⟩
      rcases hp.inv.left_of_bitStep hleave with rfl | rfl
      · exact hp.cmdCount
      · exact hp.cmdCount

theorem counted_of_reached {p : Point} (hreached : Reached step (fun _ _ => True) {} p) :
    Counted p :=
  hreached.invariant ⟨inv_NewDecoder, rfl⟩ fun _ _ _ hp _ hstep => hp.next hstep

/-- The state `firmware` writes inside the buffer, if it writes. -/
def WritesInBounds (d : Decoder) : Prop :=
  d.state = .firmware → d.Enabled → d.cmdCount ≠ 0 → d.cmdCount - 1 < 256

/-- In every run and at every loop head: the write of the round is in bounds,
and the round does not fault, exactly when it does not add a firmware byte to 257 others. -/
theorem writes_in_bounds_iff {p : Point} (hreached : Reached step (fun _ _ => True) {} p) :
    (p.dec.WritesInBounds ∧ ∀ e, p.dec.bitStep ≠ .error e) ↔
      ¬ (p.dec.state = .firmware ∧ p.dec.Enabled ∧ 257 ≤ p.firmwareBytes) := by
  obtain ⟨hinv, hcount⟩ := counted_of_reached hreached
  constructor
  · rintro ⟨-, hok⟩ ⟨hst, hbits, hfull⟩
    exact hok _ (bitStep_overrun hinv hst hbits (hcount ▸ hfull))
  · intro hroom
    constructor
    · intro hst hbits _
      by_contra hbound
      exact hroom ⟨hst, hbits, by omega⟩
    · intro e he
      rcases bitStep_cases hinv with ⟨-, heq⟩ | ⟨-, heq⟩ | ⟨hst, hbits, hfull, -⟩ |
        ⟨-, -, -, d', heq, -⟩
      · simp [heq] at he
      · simp [heq] at he
      · exact hroom ⟨hst, hbits, hcount ▸ hfull⟩
      · simp [heq] at he

/-- Two bytes lead to a loop head that is about to read a firmware byte. -/
theorem writes_in_bounds_first : ∃ p : Point, Reached step (fun _ _ => True) {} p ∧
    p.dec.state = .firmware ∧ p.dec.Enabled ∧ p.dec.WritesInBounds := by
  have htest : ((exec step (fun _ _ => True) [.byte 0xFD, .round, .round, .round, .round, .round,
      .round, .round, .byte 0xFF] {}).any fun p =>
        decide (p.dec.state = .firmware ∧ p.dec.bitsToRead p.dec.state ≤ p.dec.ibBcnt ∧
          p.firmwareBytes = 0)) = true := by
    decide +kernel
  obtain ⟨p, hreached, hst, hbits, hcount⟩ := exists_reached_of_exec htest
  refine ⟨p, hreached, hst, hbits, ((writes_in_bounds_iff hreached).mpr ?_).1⟩
  rintro ⟨-, -, hfull⟩
  omega

/-- Ones only: 257 firmware bytes fit behind one another, the next one does not. -/
theorem cmdBuf_overrun :
    NewDecoder.feedAll 20 (0xFD :: List.replicate 290 0xFF) = some (.error .cmdBuf) := by
  have htest : ∃ r ∈ NewDecoder.feedAll 20 (0xFD :: List.replicate 290 0xFF),
      Meets r (fun _ => False) (· = .cmdBuf) := by
    decide +kernel
  obtain ⟨r, hr, hfault⟩ := htest
  obtain ⟨e, rfl, rfl⟩ := hfault.exists_error
  exact hr

end Outband.Ilo.Dvc.Decoder
