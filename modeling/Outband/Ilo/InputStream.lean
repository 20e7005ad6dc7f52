import Outband.Foundation.Transition
import Outband.Ilo.Console

/-!
# The input stream under concurrent calls of `Send`

`Send` takes keystream bytes for its frame and then writes the encrypted frame.
The goroutines of the client (the RFB reader, one for every pasted text, and the
receive loop with its answers) share the channel without a lock, so other calls
may come between the two steps. A run is an interleaving of these steps.

The wire can be decrypted as long as the frames are written in the order in which
they took their keystream bytes. Nothing in the source enforces that order.
-/

namespace Outband.Ilo.Console

open Foundation

/-- A call of `Send` between its two steps. -/
structure Call where
  goroutine : Nat
  frame : List (BitVec 8)
  out : List (BitVec 8)
  deriving DecidableEq, Repr

/-- The channel, the calls that have still to write in the order of their first steps, and the
frames of the calls that have returned. -/
structure Input where
  ch : Channel
  pending : List Call := []
  written : List (List (BitVec 8)) := []

/-- The two steps of a call. -/
inductive Act
  | encrypt (goroutine : Nat) (frame : List (BitVec 8))
  | write (goroutine : Nat)

namespace Input

variable (aes : Aes)

/-- A goroutine is in one call at a time. -/
def step : Act → Input → Option Input
  | .encrypt g frame, s =>
      if s.pending.any (·.goroutine = g) then none
      else some { s with
        ch := (s.ch.encrypt aes frame).2
        pending := s.pending ++ [⟨g, frame, (s.ch.encrypt aes frame).1⟩] }
  | .write g, s =>
      match s.pending.find? (·.goroutine = g) with
      | none => none
      | some call => some {
          ch := s.ch.write call.out
          pending := s.pending.eraseP (·.goroutine = g)
          written := s.written ++ [call.frame] }

/-- With a cipher, the call that writes is the one whose keystream bytes come first. -/
def InOrder : Act → Input → Prop
  | .encrypt _ _, _ => True
  | .write g, s => s.ch.dvcEncrypt = false ∨ s.pending.head?.map Call.goroutine = some g

instance : (a : Act) → (s : Input) → Decidable (InOrder a s)
  | .encrypt _ _, _ => inferInstanceAs (Decidable True)
  | .write _, _ => inferInstanceAs (Decidable (_ ∨ _))

/-- The keystream of a channel's output. -/
def outStream (ch : Channel) : Option Keystream := if ch.dvcEncrypt then ch.encryptStream else none

/-- What is on the wire, decrypted with the keystream `ks`, is the written frames one behind
another, each of them once. -/
def Decryptable (ks : Option Keystream) (s : Input) : Prop :=
  ∃ frames : List (List (BitVec 8)), frames.Perm s.written ∧
    (mask (nextKey aes) ks s.ch.sent).1 = frames.flatten

/-! ### What the steps keep -/

variable {aes}

/-- The bytes of pending calls are consecutive parts of the stream from `k` to `k'`. -/
def Chain (aes : Aes) (k : Option Keystream) : List Call → Option Keystream → Prop
  | [], k' => k = k'
  | call :: rest, k' => call.out = (mask (nextKey aes) k call.frame).1 ∧
      Chain aes (mask (nextKey aes) k call.frame).2 rest k'

theorem Chain.snoc {k k' : Option Keystream} {pending : List Call} (h : Chain aes k pending k')
    (g : Nat) (frame : List (BitVec 8)) :
    Chain aes k (pending ++ [⟨g, frame, (mask (nextKey aes) k' frame).1⟩])
      (mask (nextKey aes) k' frame).2 := by
  induction pending generalizing k with
  | nil =>
      obtain rfl : k = k' := h
      exact ⟨rfl, rfl⟩
  | cons call rest ih => exact ⟨h.1, ih h.2⟩

/-- The wire is the written frames encrypted with the stream from `ks`, the pending calls hold
the next parts of it, and the channel stands behind them. Without a cipher there is no stream to
share. -/
structure Aligned (aes : Aes) (ks : Option Keystream) (encrypts : Bool) (s : Input) : Prop where
  dvcEncrypt : s.ch.dvcEncrypt = encrypts
  sent : s.ch.sent = (mask (nextKey aes) ks s.written.flatten).1
  plain : encrypts = false → ks = none ∧ ∀ call ∈ s.pending, call.out = call.frame
  chain : encrypts = true →
    Chain aes (mask (nextKey aes) ks s.written.flatten).2 s.pending s.ch.encryptStream

section Steps
variable {ks : Option Keystream} {encrypts : Bool} {s s' : Input} {g : Nat}

theorem Aligned.encrypt (h : Aligned aes ks encrypts s) (g : Nat) (frame : List (BitVec 8)) :
    Aligned aes ks encrypts { s with
      ch := (s.ch.encrypt aes frame).2
      pending := s.pending ++ [⟨g, frame, (s.ch.encrypt aes frame).1⟩] } := by
  have hflag := h.dvcEncrypt
  rw [Channel.encrypt]
  cases encrypts with
  | false =>
      rw [if_neg (by simp [hflag])]
      refine ⟨hflag, h.sent, ?_, fun htrue => absurd htrue (by decide)⟩
      intro _
      obtain ⟨hks, hplain⟩ := h.plain rfl
      refine ⟨hks, ?_⟩
      intro call hcall
      rcases List.mem_append.mp hcall with hold | hnew
      · exact hplain call hold
      · obtain rfl := List.mem_singleton.mp hnew
        rfl
  | true =>
      rw [if_pos hflag]
      refine ⟨hflag, h.sent, fun hfalse => absurd hfalse (by decide), ?_⟩
      intro _
      exact (h.chain rfl).snoc g frame

/-- The frame of a written call follows the frames written before it. -/
theorem Aligned.write_plain {call : Call} (h : Aligned aes ks false s) (hmem : call ∈ s.pending) :
    Aligned aes ks false {
      ch := s.ch.write call.out
      pending := s.pending.eraseP (·.goroutine = g)
      written := s.written ++ [call.frame] } := by
  obtain ⟨rfl, hplain⟩ := h.plain rfl
  refine ⟨h.dvcEncrypt, ?_, ?_, fun htrue => absurd htrue (by decide)⟩
  · have hsent := h.sent
    rw [mask_none] at hsent ⊢
    change s.ch.sent ++ call.out = (s.written ++ [call.frame]).flatten
    rw [hsent, hplain call hmem]
    simp
  · intro _
    exact ⟨rfl, fun call hcall => hplain call (List.mem_of_mem_eraseP hcall)⟩

theorem Aligned.write_first {call : Call} {rest : List Call} (h : Aligned aes ks true s)
    (hpending : s.pending = call :: rest) :
    Aligned aes ks true {
      ch := s.ch.write call.out
      pending := rest
      written := s.written ++ [call.frame] } := by
  have hchain := h.chain rfl
  rw [hpending] at hchain
  obtain ⟨hout, hrest⟩ := hchain
  have hwritten : (s.written ++ [call.frame]).flatten = s.written.flatten ++ call.frame := by
    simp
  refine ⟨h.dvcEncrypt, ?_, fun hfalse => absurd hfalse (by decide), ?_⟩
  · change s.ch.sent ++ call.out = _
    rw [hwritten, mask_append, h.sent, hout]
  · intro _
    change Chain aes (mask (nextKey aes) ks (s.written ++ [call.frame]).flatten).2 rest _
    rw [hwritten, mask_append]
    exact hrest

/-- A step in order keeps the calls aligned with the stream. -/
theorem Aligned.next {a : Act} (h : Aligned aes ks encrypts s) (hok : InOrder a s)
    (hstep : step aes a s = some s') : Aligned aes ks encrypts s' := by
  cases a with
  | encrypt g frame =>
      rw [step] at hstep
      split at hstep
      · cases hstep
      · cases hstep
        exact h.encrypt g frame
  | write g =>
      rw [step] at hstep
      split at hstep
      case h_1 => cases hstep
      case h_2 call hfind =>
        cases hstep
        cases encrypts with
        | false => exact h.write_plain (List.mem_of_find?_eq_some hfind)
        | true =>
            have hhead : s.pending.head?.map Call.goroutine = some g :=
              hok.resolve_left (by simp [h.dvcEncrypt])
            cases hpending : s.pending with
            | nil =>
                rw [hpending] at hhead
                cases hhead
            | cons first rest =>
                rw [hpending] at hhead hfind
                have hfirst : (fun call : Call => decide (call.goroutine = g)) first = true :=
                  decide_eq_true (Option.some.inj hhead)
                rw [List.find?_cons_of_pos (p := fun call : Call => decide (call.goroutine = g))
                  hfirst] at hfind
                cases hfind
                rw [List.eraseP_cons_of_pos (p := fun call : Call => decide (call.goroutine = g))
                  hfirst]
                exact h.write_first hpending

end Steps

/-- In every run whose writes come in the order of the keystream bytes, what is on the wire
decrypts to the written frames. -/
theorem send_decryptable {key : List (BitVec 8)} {cipher : Nat} {ch : Channel} {s : Input}
    (hcipher : (dialChannel key).SetCipher cipher = .ok ch)
    (hrun : Reached (step aes) InOrder { ch } s) : Decryptable aes (outStream ch) s := by
  have hsent : ch.sent = [] := by
    rw [Channel.SetCipher_spec] at hcipher
    obtain ⟨ks, -, rfl⟩ := exists_of_map_ok hcipher
    rfl
  have hstart : Aligned aes (outStream ch) ch.dvcEncrypt { ch } := by
    refine ⟨rfl, hsent, ?_, ?_⟩
    · intro hflag
      exact ⟨by rw [outStream, hflag]; rfl, fun call hcall => absurd hcall (by simp)⟩
    · intro hflag
      rw [outStream, hflag]
      rfl
  have haligned := hrun.invariant (I := Aligned aes (outStream ch) ch.dvcEncrypt) hstart
    fun _ _ _ h hok hstep => h.next hok hstep
  refine ⟨s.written, .refl _, ?_⟩
  rw [haligned.sent, mask_mask]

/-- An acknowledgement and a key press, written in the order of their keystream bytes. -/
theorem send_decryptable_two : ∃ ch s,
    (dialChannel (List.replicate 16 0)).SetCipher CipherRC4 = .ok ch ∧
    Reached (step fun _ block => block) InOrder { ch } s ∧
    s.written = [Ack, KeyboardReport 0 [0x04]] ∧
    Decryptable (fun _ block => block) (outStream ch) s := by
  have htest : Meets ((dialChannel (List.replicate 16 0)).SetCipher CipherRC4)
      (fun ch => ((exec (step fun _ block => block) InOrder [.encrypt 0 Ack,
        .encrypt 1 (KeyboardReport 0 [0x04]), .write 0, .write 1] { ch }).any fun s =>
          decide (s.written = [Ack, KeyboardReport 0 [0x04]])) = true) fun _ => False := by
    decide +kernel
  obtain ⟨ch, hch, hexec⟩ := htest.exists_ok
  obtain ⟨s, hrun, hwritten⟩ := exists_reached_of_exec hexec
  exact ⟨ch, s, hch, hrun, hwritten, send_decryptable hch hrun⟩

/-- The same two calls, written in the other order: the wire starts with neither frame. -/
theorem send_overtaken : ∃ ch s,
    (dialChannel (List.replicate 16 0)).SetCipher CipherRC4 = .ok ch ∧
    Reached (step fun _ block => block) (fun _ _ => True) { ch } s ∧
    s.pending = [] ∧ ¬ Decryptable (fun _ block => block) (outStream ch) s := by
  have htest : Meets ((dialChannel (List.replicate 16 0)).SetCipher CipherRC4)
      (fun ch => ((exec (step fun _ block => block) (fun _ _ => True) [.encrypt 0 Ack,
        .encrypt 1 (KeyboardReport 0 [0x04]), .write 1, .write 0] { ch }).any fun s =>
          decide (s.pending = [] ∧ s.written = [KeyboardReport 0 [0x04], Ack] ∧
            (mask (nextKey fun _ block => block) (outStream ch) s.ch.sent).1.head? =
              some 0x56)) = true) fun _ => False := by
    decide +kernel
  obtain ⟨ch, hch, hexec⟩ := htest.exists_ok
  obtain ⟨s, hrun, hpending, hwritten, hfirst⟩ := exists_reached_of_exec hexec
  refine ⟨ch, s, hch, hrun, hpending, ?_⟩
  rintro ⟨frames, hperm, hplain⟩
  rw [hwritten] at hperm
  rw [hplain] at hfirst
  cases frames with
  | nil => cases hperm.length_eq
  | cons frame frames =>
      have hmem : frame ∈ [KeyboardReport 0 [0x04], Ack] := hperm.subset List.mem_cons_self
      rcases List.mem_cons.mp hmem with rfl | hmem
      · exact absurd (Option.some.inj hfirst) (by decide)
      · obtain rfl := List.mem_singleton.mp hmem
        exact absurd (Option.some.inj hfirst) (by decide)

end Input

end Outband.Ilo.Console
