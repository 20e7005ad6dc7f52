import Outband.Ilo.Dvc.Stream

/-!
# The receive loop of the iLO console client

`Client.Run` (`internal/ilo/rc/client.go`) reads raw bytes from the console
channel, decrypts them one by one and feeds each to the DVC decoder. It leaves
its loop on a cancelled context, on a read error other than a timeout, or when
`Feed` returns 1.

## Implementation notes

The channel is a parameter: a state, the decryption of one byte, and what the
decoder's calls on its controller do to it. One pass of the loop meets either a
cancelled context or the outcome of one read.
-/

namespace Outband.Ilo

open Foundation Dvc

/-- The console channel as the receive loop uses it. -/
structure Channel (κ : Type) where
  decrypt : κ → BitVec 8 → BitVec 8 × κ
  control : κ → Event → κ

/-- The errors of a read that the loop tells apart. -/
inductive ReadError
  | timeout | eof | canceled | other
  deriving DecidableEq, Repr

/-- What one pass of the loop meets. -/
inductive Pass
  | cancelled
  | read (bytes : List (BitVec 8)) (err : Option ReadError)

/-- What `Run` returns: the context's error, `io.EOF` for a DVC exit, or the read error. -/
inductive RunError
  | context | exit | read (err : ReadError)
  deriving DecidableEq, Repr

structure Client (κ : Type) where
  ch : κ
  dec : Decoder := NewDecoder

namespace Client

variable {κ : Type}

/-- Decrypt one byte and feed it. The calls it causes reach the channel in order. -/
def feedByte (C : Channel κ) (fuel : Nat) (c : Client κ) (b : BitVec 8) :
    Option (Except Site (Client κ × Nat)) :=
  let (plain, ch) := C.decrypt c.ch b
  match c.dec.Feed fuel plain with
  | none => none
  | some (.error e) => some (.error e)
  | some (.ok (dec, code)) =>
      some (.ok ({ ch := (dec.ctl.drop c.dec.ctl.length).foldl C.control ch, dec }, code))

/-- The inner loop over one read; the result says whether `Feed` returned 1. -/
def feedBytes (C : Channel κ) (fuel : Nat) (c : Client κ) :
    List (BitVec 8) → Option (Except Site (Client κ × Bool))
  | [] => some (.ok (c, false))
  | b :: bs =>
      match c.feedByte C fuel b with
      | none => none
      | some (.error e) => some (.error e)
      | some (.ok (c, code)) =>
          if code = 1 then some (.ok (c, true)) else feedBytes C fuel c bs

/-- `Run` over the passes given; no error when it is still in its loop after them. -/
def Run (C : Channel κ) (fuel : Nat) (c : Client κ) :
    List Pass → Option (Except Site (Client κ × Option RunError))
  | [] => some (.ok (c, none))
  | .cancelled :: _ => some (.ok (c, some .context))
  | .read bytes err :: passes =>
      match c.feedBytes C fuel bytes with
      | none => none
      | some (.error e) => some (.error e)
      | some (.ok (c, true)) => some (.ok (c, some .exit))
      | some (.ok (c, false)) =>
          match err with
          | none | some .timeout => Run C fuel c passes
          | some e => some (.ok (c, some (.read e)))

end Client

end Outband.Ilo

namespace Outband.Ilo.Dvc.Decoder

open Foundation

variable {d h : Decoder} {b : BitVec 8} {bs : List (BitVec 8)}

/-- The loop is left with code 0 or 6. -/
theorem code_of_feeds (hd : Inv d) {r : Except Site (Decoder × Nat)} (hr : Feeds d b r) :
    Meets r (fun r => r.2 = 0 ∨ r.2 = 6) fun _ => True := by
  obtain ⟨d₀, haccept, hnew⟩ := accept_spec hd b
  apply ((feeds_iff haccept).mp hr).meets (I := Inv) _ hnew.inv
  intro d hd
  rcases bitStep_cases hd with ⟨-, heq⟩ | ⟨-, heq⟩ | ⟨-, -, -, heq⟩ | ⟨-, -, -, d', heq, hround⟩
  · rw [heq]
    exact .inl rfl
  · rw [heq]
    exact .inr rfl
  · rw [heq]
    trivial
  · rw [heq]
    exact hround.inv

/-- A byte that dispatches `exit` is answered with 6: the next round stands in
state `exit`, which selects itself. -/
theorem feeds_of_dispatchesExit (hd : Inv d) (hhead : HeadOf d b h) (hexit : h.DispatchesExit) :
    ∃ d', Feeds d b (.ok (d', 6)) ∧ d'.state = .exit := by
  have hh := hhead.inv hd
  obtain ⟨d₀, haccept, hvisits⟩ := hhead
  have hcorp : h.state = .corp := hexit.1
  have hbits : h.Enabled := by
    have hpos : 0 < h.ibBcnt := hexit.2.1
    have hone : h.bitsToRead h.state = 1 := hh.width_at hcorp
    unfold Enabled
    omega
  obtain ⟨h', hstep, hround⟩ := bitStep_round hh hbits (by simp [hcorp]) (by simp [hcorp])
  have hst : h'.state = .exit := hround.exit.mpr hexit
  have hleave := Loop.returns_leave (bitStep_exit hround.inv hst)
  rw [← Loop.returns_round hstep, ← hvisits.returns_iff, ← feeds_iff haccept] at hleave
  exact ⟨_, hleave, hst⟩

end Outband.Ilo.Dvc.Decoder

namespace Outband.Ilo.Client

open Foundation Dvc Decoder

variable {κ : Type} {C : Channel κ} {fuel : Nat} {c c' : Client κ}

theorem feedByte_spec {raw : BitVec 8} {code : Nat} (hc : c.dec.Inv)
    (hfeed : c.feedByte C fuel raw = some (.ok (c', code))) :
    Feeds c.dec (C.decrypt c.ch raw).1 (.ok (c'.dec, code)) ∧ c'.dec.Inv ∧ code ≠ 1 := by
  have hfeeds : Feeds c.dec (C.decrypt c.ch raw).1 (.ok (c'.dec, code)) := by
    simp only [feedByte] at hfeed
    split at hfeed
    case h_1 => cases hfeed
    case h_2 => cases hfeed
    case h_3 dec code hdec =>
      cases hfeed
      exact ⟨fuel, hdec⟩
  have hcode : code = 0 ∨ code = 6 := code_of_feeds hc hfeeds
  exact ⟨hfeeds, meets_of_feeds hc hfeeds, by omega⟩

/-- No byte makes the inner loop report an exit. -/
theorem feedBytes_spec {bytes : List (BitVec 8)} {exit : Bool} (hc : c.dec.Inv)
    (hfeed : c.feedBytes C fuel bytes = some (.ok (c', exit))) : c'.dec.Inv ∧ exit = false := by
  induction bytes generalizing c with
  | nil =>
      cases hfeed
      exact ⟨hc, rfl⟩
  | cons raw bytes ih =>
      simp only [feedBytes] at hfeed
      split at hfeed
      case h_1 => cases hfeed
      case h_2 => cases hfeed
      case h_3 next code hbyte =>
        obtain ⟨-, hnext, hcode⟩ := feedByte_spec hc hbyte
        rw [if_neg hcode] at hfeed
        exact ih hnext hfeed

/-- `Run` never ends because of a DVC exit. -/
theorem Run_ne_exit {passes : List Pass} {err : Option RunError} (hc : c.dec.Inv)
    (hrun : c.Run C fuel passes = some (.ok (c', err))) : err ≠ some .exit := by
  induction passes generalizing c with
  | nil =>
      cases hrun
      simp
  | cons pass passes ih =>
      cases pass with
      | cancelled =>
          cases hrun
          simp
      | read bytes rerr =>
          simp only [Run] at hrun
          split at hrun
          case h_1 => cases hrun
          case h_2 => cases hrun
          case h_3 next hbytes =>
            obtain ⟨-, hfalse⟩ := feedBytes_spec hc hbytes
            cases hfalse
          case h_4 next hbytes =>
            obtain ⟨hnext, -⟩ := feedBytes_spec hc hbytes
            split at hrun
            · exact ih hnext hrun
            · exact ih hnext hrun
            · cases hrun
              simp

/-- Whenever a byte of a stream dispatches the command `exit`, `Feed` returns 6
for it and never 1; a client that holds the decoder goes on to the bytes behind
it, and its `Run` does not return for that reason. -/
theorem exit_never_delivered {bs : List (BitVec 8)} {b : BitVec 8} {d h : Decoder}
    (hfed : Fed (fun _ => True) bs d) (hhead : HeadOf d b h) (hexit : h.DispatchesExit) :
    (∃ d', Feeds d b (.ok (d', 6))) ∧ (∀ d', ¬ Feeds d b (.ok (d', 1))) ∧
      ∀ (κ : Type) (C : Channel κ) (fuel : Nat) (c c' : Client κ) (raw : BitVec 8) (code : Nat),
        c.dec = d → (C.decrypt c.ch raw).1 = b → c.feedByte C fuel raw = some (.ok (c', code)) →
        (∀ rest, c.feedBytes C fuel (raw :: rest) = c'.feedBytes C fuel rest) ∧
        ∀ passes c'' err, c.Run C fuel passes = some (.ok (c'', err)) → err ≠ some .exit := by
  have hd := hfed.inv
  obtain ⟨d', hfeeds, -⟩ := feeds_of_dispatchesExit hd hhead hexit
  refine ⟨⟨d', hfeeds⟩, ?_, ?_⟩
  · intro d'' hone
    have hcode : 1 = 0 ∨ 1 = 6 := code_of_feeds hd hone
    omega
  · rintro κ C fuel c c' raw code rfl rfl hbyte
    obtain ⟨-, -, hcode⟩ := feedByte_spec hd hbyte
    constructor
    · intro rest
      simp only [feedBytes, hbyte, if_neg hcode]
    · intro passes c'' err hrun
      exact Run_ne_exit hd hrun

/-- A channel without encryption. -/
def plainChannel : Channel Unit where
  decrypt := fun u b => (b, u)
  control := fun u _ => u

theorem exists_dispatchesExit : ∃ d, Fed (fun _ => True) [0x1D] d ∧
    ∃ h, HeadOf d 0x10 h ∧ h.DispatchesExit := by
  have htest : ∃ r ∈ NewDecoder.feedAll 20 [0x1D],
      Meets r (fun d => ∃ h ∈ headsOf 20 d 0x10, h.DispatchesExit) fun _ => False := by
    decide +kernel
  obtain ⟨d, hd, h, hmem, hexit⟩ := Meets.exists_some_ok htest
  exact ⟨d, Fed.new.feedAll hd, h, headOf_of_mem hmem, hexit⟩

/-- The stream `1D 10` dispatches `exit` in its second byte and is answered with 6. -/
theorem exit_never_delivered_two : ∃ d, Fed (fun _ => True) [0x1D] d ∧
    ∃ d', Feeds d 0x10 (.ok (d', 6)) := by
  obtain ⟨d, hfed, h, hhead, hexit⟩ := exists_dispatchesExit
  exact ⟨d, hfed, (exit_never_delivered hfed hhead hexit).1⟩

/-- The same stream with a byte behind it: `Run` feeds that byte too, stays in
its loop, and `OnExit` has been called twice. -/
theorem exit_not_delivered :
    (∃ d, Fed (fun _ => True) [0x1D] d ∧ (∃ h, HeadOf d 0x10 h ∧ h.DispatchesExit) ∧
      (∃ d', Feeds d 0x10 (.ok (d', 6))) ∧ ∀ d', ¬ Feeds d 0x10 (.ok (d', 1))) ∧
    ∃ c, Run plainChannel 20 { ch := () } [.read [0x1D, 0x10, 0xFF] none] = some (.ok (c, none)) ∧
      c.dec.ctl = [.onExit, .onExit] := by
  constructor
  · obtain ⟨d, hfed, h, hhead, hexit⟩ := exists_dispatchesExit
    obtain ⟨d', hsix, -⟩ := feeds_of_dispatchesExit hfed.inv hhead hexit
    refine ⟨d, hfed, ⟨h, hhead, hexit⟩, ⟨d', hsix⟩, ?_⟩
    intro d'' hone
    have hcode : 1 = 0 ∨ 1 = 6 := code_of_feeds hfed.inv hone
    omega
  · have htest : ∃ r ∈ Run plainChannel 20 { ch := () } [.read [0x1D, 0x10, 0xFF] none],
        Meets r (fun p => p.2 = none ∧ p.1.dec.ctl = [.onExit, .onExit]) fun _ => False := by
      decide +kernel
    obtain ⟨⟨c, err⟩, hc, rfl, hctl⟩ := Meets.exists_some_ok htest
    exact ⟨c, hc, hctl⟩

end Outband.Ilo.Client
