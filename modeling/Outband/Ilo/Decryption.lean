import Outband.Ilo.Console

/-!
# Decryption across cipher switches

The server switches its cipher with the commands it sends, so the sender of a
stream has to follow the decoder: it runs a decoder of its own over the plain
bytes and starts a keystream behind every byte that makes the decoder select a
cipher. The receive loop decrypts byte by byte and lets the decoder's calls reach
the channel before the next byte. `Coupled` relates the two sides; it survives
every byte, so how the stream is cut into reads makes no difference.
-/

namespace Outband.Ilo

open Foundation Dvc

/-! ### The sender -/

/-- The keystream behind a call of the decoder. A selection without a usable key changes
nothing. -/
def selectKey (key : List (BitVec 8)) (ks : Option Keystream) : Event → Option Keystream
  | .setCipher cipher =>
      match MakeKeystream cipher key with
      | .ok ks' => ks'
      | .error _ => ks
  | _ => ks

/-- The sender of a stream: the decoder it follows and the keystream selected so far. -/
structure Sender where
  dec : Decoder := NewDecoder
  keystream : Option Keystream := none

namespace Sender

variable (aes : Aes) (key : List (BitVec 8))

/-- The sender behind a byte that takes its decoder to `dec`. -/
def follow (s : Sender) (dec : Decoder) : Sender where
  dec := dec
  keystream := (dec.ctl.drop s.dec.ctl.length).foldl (selectKey key) (nextKey aes s.keystream).2

/-- Encrypt a stream. A decoder that faults makes no more calls. -/
def encrypt (fuel : Nat) : Sender → List (BitVec 8) → Option (List (BitVec 8))
  | _, [] => some []
  | s, b :: bs =>
      match s.dec.Feed fuel b with
      | none => none
      | some (.error _) => some (mask (nextKey aes) s.keystream (b :: bs)).1
      | some (.ok (dec, _)) =>
          (encrypt fuel (s.follow aes key dec) bs).map ((b ^^^ (nextKey aes s.keystream).1) :: ·)

theorem length_encrypt {aes : Aes} {key p wire : List (BitVec 8)} {fuel : Nat} {s : Sender}
    (h : s.encrypt aes key fuel p = some wire) : wire.length = p.length := by
  induction p generalizing s wire with
  | nil =>
      cases h
      rfl
  | cons b p ih =>
      rw [encrypt] at h
      split at h
      · cases h
      · cases h
        exact length_mask _ _ _
      · obtain ⟨rest, hrest, rfl⟩ := Option.map_eq_some_iff.mp h
        exact congrArg Nat.succ (ih hrest)

end Sender

/-! ### The receiver -/

namespace Console.Channel

variable (aes : Aes) (c : Channel)

/-- The keystream that decrypts the next byte. -/
def active : Option Keystream := if c.dvcEncrypt then c.decryptStream else none

theorem active_Send (frame : List (BitVec 8)) : (c.Send aes frame).active = c.active := by
  unfold Send encrypt
  split_ifs <;> rfl

theorem encKey_Send (frame : List (BitVec 8)) : (c.Send aes frame).encKey = c.encKey := by
  unfold Send encrypt
  split_ifs <;> rfl

theorem fst_Decrypt (b : BitVec 8) : (c.Decrypt aes b).1 = b ^^^ (nextKey aes c.active).1 := by
  unfold Decrypt active
  split_ifs
  · rfl
  · simp [nextKey]

theorem active_Decrypt (b : BitVec 8) : (c.Decrypt aes b).2.active = (nextKey aes c.active).2 := by
  cases henc : c.dvcEncrypt <;> simp [Decrypt, active, henc, nextKey]

theorem encKey_Decrypt (b : BitVec 8) : (c.Decrypt aes b).2.encKey = c.encKey := by
  unfold Decrypt
  split_ifs <;> rfl

theorem MakeKeystream_none (key : List (BitVec 8)) :
    MakeKeystream CipherNone key = .ok none := rfl

/-- A call of the decoder reaches the receiver as it reaches the sender. -/
theorem active_control (e : Event) :
    (c.control aes e).active = selectKey c.encKey c.active e ∧
      (c.control aes e).encKey = c.encKey := by
  cases e with
  | setCipher cipher =>
      rw [control, SetCipher_spec, selectKey]
      cases hks : MakeKeystream cipher c.encKey with
      | error e => exact ⟨rfl, rfl⟩
      | ok ks =>
          refine ⟨?_, rfl⟩
          change (if decide (cipher ≠ CipherNone) then ks else none) = ks
          by_cases hnone : cipher = CipherNone
          · rw [hnone, MakeKeystream_none] at hks
            cases hks
            simp
          · rw [if_pos (decide_eq_true hnone)]
  | sendAck => exact ⟨c.active_Send aes _, c.encKey_Send aes _⟩
  | refreshScreen => exact ⟨c.active_Send aes _, c.encKey_Send aes _⟩
  | _ => exact ⟨rfl, rfl⟩

theorem active_controls (events : List Event) :
    (events.foldl (control aes) c).active = events.foldl (selectKey c.encKey) c.active ∧
      (events.foldl (control aes) c).encKey = c.encKey := by
  induction events generalizing c with
  | nil => exact ⟨rfl, rfl⟩
  | cons e events ih =>
      obtain ⟨hactive, hkey⟩ := c.active_control aes e
      have hrest := ih (c.control aes e)
      rw [hactive, hkey] at hrest
      exact hrest

end Console.Channel

/-! ### The record of a run -/

/-- A channel that keeps the bytes it has decrypted, which are the bytes `Feed` is given. -/
def logged {κ : Type} (C : Channel κ) : Channel (κ × List (BitVec 8)) where
  decrypt := fun s b => ((C.decrypt s.1 b).1, ((C.decrypt s.1 b).2, s.2 ++ [(C.decrypt s.1 b).1]))
  control := fun s e => (C.control s.1 e, s.2)

namespace Client

variable {κ : Type} {C : Channel κ} {fuel : Nat}

/-- A client without the record of its channel. -/
def forget (c : Client (κ × List (BitVec 8))) : Client κ where
  ch := c.ch.1
  dec := c.dec

theorem foldl_logged (events : List Event) (s : κ × List (BitVec 8)) :
    events.foldl (logged C).control s = (events.foldl C.control s.1, s.2) := by
  induction events generalizing s with
  | nil => rfl
  | cons e events ih => exact ih _

theorem feedByte_logged (c : Client (κ × List (BitVec 8))) (b : BitVec 8) :
    c.forget.feedByte C fuel b =
      (c.feedByte (logged C) fuel b).map (Except.map fun out => (out.1.forget, out.2)) := by
  simp only [feedByte, logged, forget]
  cases c.dec.Feed fuel (C.decrypt c.ch.1 b).1 with
  | none => rfl
  | some r =>
      cases r with
      | error e => rfl
      | ok out =>
          have hfold := foldl_logged (C := C) (out.1.ctl.drop c.dec.ctl.length)
            ((C.decrypt c.ch.1 b).2, c.ch.2 ++ [(C.decrypt c.ch.1 b).1])
          simp only [logged] at hfold
          simp [Except.map, hfold]

theorem feedBytes_logged (c : Client (κ × List (BitVec 8))) (bytes : List (BitVec 8)) :
    c.forget.feedBytes C fuel bytes =
      (c.feedBytes (logged C) fuel bytes).map (Except.map fun out => (out.1.forget, out.2)) := by
  induction bytes generalizing c with
  | nil => rfl
  | cons b bytes ih =>
      rw [feedBytes, feedBytes, feedByte_logged]
      cases c.feedByte (logged C) fuel b with
      | none => rfl
      | some r =>
          cases r with
          | error e => rfl
          | ok out =>
              change (if out.2 = 1 then _ else _) = Option.map _ (if out.2 = 1 then _ else _)
              split_ifs
              · rfl
              · exact ih out.1

/-- The record changes nothing about a run. -/
theorem Run_logged (c : Client (κ × List (BitVec 8))) (passes : List Pass) :
    c.forget.Run C fuel passes =
      (c.Run (logged C) fuel passes).map (Except.map fun out => (out.1.forget, out.2)) := by
  induction passes generalizing c with
  | nil => rfl
  | cons pass passes ih =>
      cases pass with
      | cancelled => rfl
      | read bytes err =>
          rw [Run, Run, feedBytes_logged]
          cases c.feedBytes (logged C) fuel bytes with
          | none => rfl
          | some r =>
              cases r with
              | error e => rfl
              | ok out =>
                  obtain ⟨c', exit⟩ := out
                  cases exit with
                  | true => rfl
                  | false =>
                      cases err with
                      | none => exact ih c'
                      | some e =>
                          cases e with
                          | timeout => exact ih c'
                          | eof => rfl
                          | canceled => rfl
                          | other => rfl

end Client

/-! ### The two sides together -/

namespace Pass

/-- The bytes of a pass. -/
def bytes : Pass → List (BitVec 8)
  | .cancelled => []
  | .read bytes _ => bytes

/-- The loop goes on behind a read without an error and behind a timeout. -/
def Continues : Pass → Prop
  | .read _ none => True
  | .read _ (some .timeout) => True
  | _ => False

end Pass

/-- The receiver has decoded what the sender has sent, and the next byte meets the same
keystream on both sides. -/
structure Coupled (key : List (BitVec 8)) (s : Sender)
    (c : Client (Console.Channel × List (BitVec 8))) : Prop where
  dec : c.dec = s.dec
  active : c.ch.1.active = s.keystream
  encKey : c.ch.1.encKey = key

section Coupling
variable {aes : Aes} {key : List (BitVec 8)} {fuel : Nat} {s : Sender}
variable {c : Client (Console.Channel × List (BitVec 8))} {p : List (BitVec 8)}

/-- One encrypted byte is fed as the plain byte, and the two sides stay together. -/
theorem Coupled.feedByte (h : Coupled key s c) (aes : Aes) (fuel : Nat) (b : BitVec 8) :
    ∃ f : Decoder → Client (Console.Channel × List (BitVec 8)),
      c.feedByte (logged (Console.channel aes)) fuel (b ^^^ (nextKey aes s.keystream).1) =
        (s.dec.Feed fuel b).map (Except.map fun out => (f out.1, out.2)) ∧
      ∀ dec, (f dec).dec = dec ∧ Coupled key (s.follow aes key dec) (f dec) ∧
        (f dec).ch.2 = c.ch.2 ++ [b] := by
  have hplain : (c.ch.1.Decrypt aes (b ^^^ (nextKey aes s.keystream).1)).1 = b := by
    rw [Console.Channel.fst_Decrypt, h.active, xor_cancel_right]
  have hactive := c.ch.1.active_Decrypt aes (b ^^^ (nextKey aes s.keystream).1)
  have hkey := c.ch.1.encKey_Decrypt aes (b ^^^ (nextKey aes s.keystream).1)
  rw [h.active] at hactive
  rw [h.encKey] at hkey
  refine ⟨fun dec => ⟨((dec.ctl.drop s.dec.ctl.length).foldl (Console.Channel.control aes)
    (c.ch.1.Decrypt aes (b ^^^ (nextKey aes s.keystream).1)).2, c.ch.2 ++ [b]), dec⟩, ?_, ?_⟩
  · unfold Client.feedByte
    simp only [logged, Console.channel, hplain, h.dec]
    cases s.dec.Feed fuel b with
    | none => rfl
    | some r =>
        cases r with
        | error e => rfl
        | ok out =>
            have hfold := Client.foldl_logged (C := Console.channel aes)
              (out.1.ctl.drop s.dec.ctl.length)
              ((c.ch.1.Decrypt aes (b ^^^ (nextKey aes s.keystream).1)).2, c.ch.2 ++ [b])
            simp only [logged, Console.channel] at hfold
            simp [Except.map, hfold]
  · intro dec
    obtain ⟨hcontrols, hencKey⟩ := Console.Channel.active_controls aes
      (c.ch.1.Decrypt aes (b ^^^ (nextKey aes s.keystream).1)).2 (dec.ctl.drop s.dec.ctl.length)
    refine ⟨rfl, ⟨rfl, ?_, hencKey.trans hkey⟩, rfl⟩
    rw [hactive, hkey] at hcontrols
    exact hcontrols

/-- A part of the wire is fed as the part of the plain bytes it stands for, up to a fault of
the decoder. -/
theorem Coupled.feedBytes {bytes tail : List (BitVec 8)} (h : Coupled key s c) (hinv : s.dec.Inv)
    (hwire : s.encrypt aes key fuel p = some (bytes ++ tail)) :
    (∃ e, c.feedBytes (logged (Console.channel aes)) fuel bytes = some (.error e) ∧
      s.dec.feedAll fuel p = some (.error e)) ∨
    ∃ p₁ p₂ s' c', p = p₁ ++ p₂ ∧
      c.feedBytes (logged (Console.channel aes)) fuel bytes = some (.ok (c', false)) ∧
      s.dec.feedAll fuel p₁ = some (.ok s'.dec) ∧ s'.encrypt aes key fuel p₂ = some tail ∧
      Coupled key s' c' ∧ s'.dec.Inv ∧ c'.ch.2 = c.ch.2 ++ p₁ := by
  induction bytes generalizing s c p with
  | nil => exact .inr ⟨[], p, s, c, rfl, rfl, rfl, hwire, h, hinv, (List.append_nil _).symm⟩
  | cons w bytes ih =>
      cases p with
      | nil => cases hwire
      | cons b p =>
          obtain ⟨f, hbyte, hf⟩ := h.feedByte aes fuel b
          rw [Sender.encrypt] at hwire
          cases hfeed : s.dec.Feed fuel b with
          | none =>
              rw [hfeed] at hwire
              cases hwire
          | some r =>
              rw [hfeed] at hwire hbyte
              cases r with
              | error e =>
                  obtain rfl : b ^^^ (nextKey aes s.keystream).1 = w :=
                    (List.cons.inj (Option.some.inj hwire)).1
                  refine .inl ⟨e, ?_, ?_⟩
                  · rw [Client.feedBytes, hbyte]
                    rfl
                  · rw [Decoder.feedAll, hfeed]
              | ok out =>
                  obtain ⟨dec, code⟩ := out
                  obtain ⟨hdec, hcoupled, hlog⟩ := hf dec
                  obtain ⟨rest, hrest, hcons⟩ := Option.map_eq_some_iff.mp hwire
                  obtain ⟨rfl, rfl⟩ := List.cons.inj hcons
                  have hfeeds : Decoder.Feeds s.dec b (.ok (dec, code)) := ⟨fuel, hfeed⟩
                  have hcode : code ≠ 1 := by
                    have hcodes : code = 0 ∨ code = 6 := Decoder.code_of_feeds hinv hfeeds
                    omega
                  have hnext : c.feedBytes (logged (Console.channel aes)) fuel
                      ((b ^^^ (nextKey aes s.keystream).1) :: bytes) =
                      (f dec).feedBytes (logged (Console.channel aes)) fuel bytes := by
                    rw [Client.feedBytes, hbyte]
                    exact if_neg hcode
                  have hall (q : List (BitVec 8)) :
                      s.dec.feedAll fuel (b :: q) = dec.feedAll fuel q :=
                    Decoder.feedAll_cons hfeed
                  have hinv' : dec.Inv := Decoder.meets_of_feeds hinv hfeeds
                  rw [hnext, hall]
                  rcases ih hcoupled hinv' hrest with herror |
                    ⟨p₁, p₂, s', c', rfl, hbytes, hfed, htail, hcoupled', hinv'', hlog'⟩
                  · exact .inl herror
                  · refine .inr ⟨b :: p₁, p₂, s', c', rfl, hbytes, ?_, htail, hcoupled', hinv'', ?_⟩
                    · rw [hall]
                      exact hfed
                    · rw [hlog', hlog, List.append_assoc]
                      rfl

/-- A whole run is fed the plain bytes, up to a fault of the decoder. -/
theorem Coupled.Run {passes : List Pass} (h : Coupled key s c) (hinv : s.dec.Inv)
    (hpasses : ∀ pass ∈ passes, pass.Continues)
    (hwire : s.encrypt aes key fuel p = some (passes.flatMap Pass.bytes)) :
    (∃ e, c.Run (logged (Console.channel aes)) fuel passes = some (.error e) ∧
      s.dec.feedAll fuel p = some (.error e)) ∨
    ∃ c', c.Run (logged (Console.channel aes)) fuel passes = some (.ok (c', none)) ∧
      s.dec.feedAll fuel p = some (.ok c'.dec) ∧ c'.ch.2 = c.ch.2 ++ p := by
  induction passes generalizing s c p with
  | nil =>
      obtain rfl : p = [] := List.length_eq_zero_iff.mp (Sender.length_encrypt hwire).symm
      exact .inr ⟨c, rfl, by rw [h.dec]; rfl, (List.append_nil _).symm⟩
  | cons pass passes ih =>
      have hcontinues := hpasses pass List.mem_cons_self
      have hrest : ∀ pass ∈ passes, pass.Continues :=
        fun pass hpass => hpasses pass (List.mem_cons_of_mem _ hpass)
      cases pass with
      | cancelled => exact hcontinues.elim
      | read bytes err =>
          change s.encrypt aes key fuel p = some (bytes ++ passes.flatMap Pass.bytes) at hwire
          have hrun : ∀ c', c.feedBytes (logged (Console.channel aes)) fuel bytes =
              some (.ok (c', false)) →
              c.Run (logged (Console.channel aes)) fuel (.read bytes err :: passes) =
                c'.Run (logged (Console.channel aes)) fuel passes := by
            intro c' hbytes
            rw [Client.Run, hbytes]
            cases err with
            | none => rfl
            | some err =>
                cases err with
                | timeout => rfl
                | eof => exact hcontinues.elim
                | canceled => exact hcontinues.elim
                | other => exact hcontinues.elim
          rcases h.feedBytes hinv hwire with ⟨e, hbytes, hall⟩ |
            ⟨p₁, p₂, s', c', rfl, hbytes, hfed, htail, hcoupled, hinv', hlog⟩
          · refine .inl ⟨e, ?_, hall⟩
            rw [Client.Run, hbytes]
          · rw [hrun c' hbytes, Decoder.feedAll_append hfed]
            rcases ih hcoupled hinv' hrest htail with herror | ⟨c'', hrun', hall, hlog'⟩
            · exact .inl herror
            · exact .inr ⟨c'', hrun', hall, by rw [hlog', hlog, List.append_assoc]⟩

/-- Enough fuel for the sender and for the decoder, and what they come to. -/
theorem exists_encrypt (aes : Aes) (key p : List (BitVec 8)) {s : Sender} (hinv : s.dec.Inv) :
    ∃ fuel₀ wire r, ∀ fuel, fuel₀ ≤ fuel →
      s.encrypt aes key fuel p = some wire ∧ s.dec.feedAll fuel p = some r := by
  induction p generalizing s with
  | nil => exact ⟨0, [], .ok s.dec, fun fuel _ => ⟨rfl, rfl⟩⟩
  | cons b p ih =>
      obtain ⟨d₀, haccept, hnew⟩ := Decoder.accept_spec hinv b
      obtain ⟨r, hr⟩ := Decoder.exists_returns hnew.inv
      have hfeeds := (Decoder.feeds_iff haccept).mpr hr
      obtain ⟨n, hn⟩ := hfeeds
      cases r with
      | error e =>
          refine ⟨n, (mask (nextKey aes) s.keystream (b :: p)).1, .error e, ?_⟩
          intro fuel hfuel
          have hfeed := Decoder.Feed_mono hfuel hn
          constructor
          · rw [Sender.encrypt, hfeed]
          · rw [Decoder.feedAll, hfeed]
      | ok out =>
          obtain ⟨dec, code⟩ := out
          have hinv' : (s.follow aes key dec).dec.Inv := Decoder.meets_of_feeds hinv ⟨n, hn⟩
          obtain ⟨m, wire, r, hrest⟩ := ih hinv'
          refine ⟨max n m, (b ^^^ (nextKey aes s.keystream).1) :: wire, r, ?_⟩
          intro fuel hfuel
          have hfeed := Decoder.Feed_mono (le_trans (le_max_left n m) hfuel) hn
          obtain ⟨hencrypt, hall⟩ := hrest fuel (le_trans (le_max_right n m) hfuel)
          constructor
          · rw [Sender.encrypt, hfeed]
            exact congrArg (Option.map _) hencrypt
          · rw [Decoder.feedAll_cons hfeed]
            exact hall

end Coupling

/-- Every stream is received as it was sent: with enough fuel for its decoding, the run over any
cut of the encrypted stream into reads, some of them ended by a timeout, feeds the decoder the
plain bytes, and it ends as feeding them directly does. -/
theorem Run_feeds_plaintext (aes : Aes) (key p : List (BitVec 8)) :
    ∃ fuel₀ wire r, ∀ fuel, fuel₀ ≤ fuel →
      Sender.encrypt aes key fuel {} p = some wire ∧ NewDecoder.feedAll fuel p = some r ∧
      ∀ passes : List Pass, (∀ pass ∈ passes, pass.Continues) →
        passes.flatMap Pass.bytes = wire →
        match r with
        | .ok d => ∃ ch,
            Client.Run (Console.channel aes) fuel { ch := Console.dialChannel key } passes =
              some (.ok ({ ch := ch, dec := d }, none)) ∧
            Client.Run (logged (Console.channel aes)) fuel
                { ch := (Console.dialChannel key, []) } passes =
              some (.ok ({ ch := (ch, p), dec := d }, none))
        | .error e =>
            Client.Run (Console.channel aes) fuel { ch := Console.dialChannel key } passes =
              some (.error e) := by
  obtain ⟨fuel₀, wire, r, henough⟩ :=
    exists_encrypt aes key p (s := {}) Decoder.inv_NewDecoder
  refine ⟨fuel₀, wire, r, ?_⟩
  intro fuel hfuel
  obtain ⟨hencrypt, hall⟩ := henough fuel hfuel
  refine ⟨hencrypt, hall, ?_⟩
  intro passes hpasses hwire
  have hcoupled : Coupled key {} { ch := (Console.dialChannel key, []) } := ⟨rfl, rfl, rfl⟩
  have hforget : Client.Run (Console.channel aes) fuel { ch := Console.dialChannel key } passes =
      (Client.Run (logged (Console.channel aes)) fuel
        { ch := (Console.dialChannel key, []) } passes).map
          (Except.map fun out => (out.1.forget, out.2)) :=
    Client.Run_logged { ch := (Console.dialChannel key, []) } passes
  rw [← hwire] at hencrypt
  rcases hcoupled.Run Decoder.inv_NewDecoder hpasses hencrypt with ⟨e, hrun, hfault⟩ |
    ⟨c', hrun, hfed, hlog⟩
  · obtain rfl : r = .error e := Option.some.inj (hall.symm.trans hfault)
    rw [hrun] at hforget
    exact hforget
  · obtain rfl : r = .ok c'.dec := Option.some.inj (hall.symm.trans hfed)
    obtain rfl : c'.ch.2 = p := hlog
    rw [hrun] at hforget
    exact ⟨c'.ch.1, hforget, hrun⟩

/-- The first bytes of a captured stream, which select RC4 in the seventh, received in one read
and a timeout. -/
theorem Run_feeds_plaintext_capture :
    ∃ fuel wire d ch, Sender.encrypt (fun _ block => block) (List.replicate 16 0) fuel {}
        [0x1D, 0x20, 0x60, 0x88, 0x10, 0x61, 0xB5, 0x00] = some wire ∧
      Event.setCipher CipherRC4 ∈ d.ctl ∧
      Client.Run (Console.channel fun _ block => block) fuel
          { ch := Console.dialChannel (List.replicate 16 0) }
          [.read wire none, .read [] (some .timeout)] =
        some (.ok ({ ch := ch, dec := d }, none)) := by
  obtain ⟨fuel₀, wire, r, h⟩ := Run_feeds_plaintext (fun _ block => block) (List.replicate 16 0)
    [0x1D, 0x20, 0x60, 0x88, 0x10, 0x61, 0xB5, 0x00]
  obtain ⟨hencrypt, hall, hrun⟩ := h (max fuel₀ 30) (le_max_left _ _)
  have htest : ∃ r ∈ NewDecoder.feedAll 30 [0x1D, 0x20, 0x60, 0x88, 0x10, 0x61, 0xB5, 0x00],
      Meets r (fun d => Event.setCipher CipherRC4 ∈ d.ctl) fun _ => False := by
    decide +kernel
  obtain ⟨d, hd, hcipher⟩ := Meets.exists_some_ok htest
  obtain rfl : r = .ok d :=
    Option.some.inj (hall.symm.trans (Decoder.feedAll_mono (le_max_right _ _) hd))
  obtain ⟨ch, hch, -⟩ := hrun [.read wire none, .read [] (some .timeout)]
    (by simp [Pass.Continues]) (by simp [Pass.bytes])
  exact ⟨_, wire, d, ch, hencrypt, hcipher, hch⟩

end Outband.Ilo
