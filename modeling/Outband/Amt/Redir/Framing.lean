import Outband.Amt.Redir.Session

/-!
# Framing of the redirection handshake

The messages that `readCmd` returns are a function of the bytes the server sends
(`nextCmd`), not of the reads they arrive in: two sessions that agree on
everything but the segmentation answer alike. What the handshake leaves in its
buffer and on the socket is the rest of the stream, and the connection that
`Dial` returns delivers it whole.
-/

namespace Outband.Amt.Redir

open Foundation

/-! ### Messages of a byte string -/

/-- The bytes of a message that tell its length, for the opcodes of the handshake. -/
def headerLength (cmd : BitVec 8) : Option Nat :=
  if cmd = 0x11 then some 13 else if cmd = 0x14 then some 9
  else if cmd = 0x41 then some 8 else none

/-- The length of the message at the front of `S`. -/
def messageLength (cmd : BitVec 8) (S : Bytes) : Nat :=
  if cmd = 0x11 then 13 + (S[12]?.getD 0).toNat
  else if cmd = 0x14 then 9 + leUint32 (S.drop 5)
  else 8

/-- What the handler is given of a message. -/
def payloadOf (cmd : BitVec 8) (message : Bytes) : Bytes :=
  if cmd = 0x41 then [] else message.drop 1

/-- The session over a plain byte string: all of a session except the segmentation. -/
structure View where
  input : Bytes
  err : IoError
  user : Bytes
  pass : Bytes
  authed : Bool
  trace : List Event

/-- The next message of a byte string, and the view after it. -/
def View.nextCmd (v : View) : Except HandshakeError (BitVec 8 × Bytes × View) :=
  match v.input.head? with
  | none => .error (.io v.err)
  | some cmd =>
      match headerLength cmd with
      | none => .error (.unknownOpcode cmd)
      | some header =>
          let need := messageLength cmd v.input
          if v.input.length < header ∨ v.input.length < need then .error (.io v.err)
          else .ok (cmd, payloadOf cmd (v.input.take need), { v with input := v.input.drop need })

/-- A byte string that is exactly one message. -/
structure IsMessage (m : Bytes) : Prop where
  header : ∃ cmd header, m.head? = some cmd ∧ headerLength cmd = some header ∧
    header ≤ m.length ∧ m.length = messageLength cmd m

/-- The command and the payload of a message. -/
def commandOf (m : Bytes) : BitVec 8 × Bytes :=
  (m.head?.getD 0, payloadOf (m.head?.getD 0) m)

theorem messageLength_take {cmd : BitVec 8} {header k : Nat} {S : Bytes}
    (hheader : headerLength cmd = some header) (hk : header ≤ k) :
    messageLength cmd (S.take k) = messageLength cmd S := by
  unfold headerLength at hheader
  unfold messageLength
  split_ifs at hheader ⊢
  · cases hheader
    rw [List.getElem?_take_of_lt (by omega)]
  · cases hheader
    unfold leUint32
    simp only [List.getElem?_drop]
    rw [List.getElem?_take_of_lt (by omega), List.getElem?_take_of_lt (by omega),
      List.getElem?_take_of_lt (by omega), List.getElem?_take_of_lt (by omega)]
  · rfl

theorem headerLength_le_messageLength {cmd : BitVec 8} {header : Nat} (S : Bytes)
    (hheader : headerLength cmd = some header) : 0 < header ∧ header ≤ messageLength cmd S := by
  unfold headerLength at hheader
  unfold messageLength
  split_ifs at hheader ⊢ <;> cases hheader <;> omega

/-- The next message is cut off the front of the input. -/
theorem View.nextCmd_ok {v v' : View} {cmd : BitVec 8} {payload : Bytes}
    (h : v.nextCmd = .ok (cmd, payload, v')) :
    ∃ m, IsMessage m ∧ commandOf m = (cmd, payload) ∧ m ≠ [] ∧ v.input = m ++ v'.input := by
  unfold nextCmd at h
  split at h
  case h_1 => cases h
  case h_2 cmd' hhead =>
    split at h
    case h_1 => cases h
    case h_2 header hheader =>
      dsimp only at h
      split_ifs at h with hshort
      rw [not_or] at hshort
      obtain ⟨hpos, hle⟩ := headerLength_le_messageLength v.input hheader
      cases h
      have hhead' : (v.input.take (messageLength cmd v.input)).head? = some cmd := by
        rw [List.head?_take, if_neg (by omega), hhead]
      refine ⟨v.input.take (messageLength cmd v.input),
        ⟨cmd, header, hhead', hheader, ?_, ?_⟩, ?_, ?_, ?_⟩
      · rw [List.length_take]
        omega
      · rw [messageLength_take hheader hle, List.length_take]
        omega
      · simp [commandOf, hhead']
      · intro hnil
        simp [hnil] at hhead'
      · exact (List.take_append_drop _ _).symm

theorem View.nextCmd_keeps {v v' : View} {cmd : BitVec 8} {payload : Bytes}
    (h : v.nextCmd = .ok (cmd, payload, v')) : v' = { v with input := v'.input } := by
  unfold nextCmd at h
  split at h
  case h_1 => cases h
  case h_2 =>
    split at h
    case h_1 => cases h
    case h_2 =>
      dsimp only at h
      split_ifs at h
      cases h
      rfl

namespace Session

variable {E : Host} {s s' t : Session} {n : Nat}

def view (s : Session) : View where
  input := s.stream
  err := s.conn.err
  user := s.user
  pass := s.pass
  authed := s.authed
  trace := s.trace

/-! ### The refill buffer -/

/-- A read into the buffer leaves the view as it is. -/
theorem view_of_read {got : Bytes} {err : Option IoError} {conn : Source (BitVec 8) 4096} {k : Nat}
    (h : s.conn.read k = (got, err, conn)) :
    ({ s with conn, buf := s.buf ++ got } : Session).view = s.view := by
  simp [view, stream, ← Source.read_stream h, Source.read_err h]

theorem stream_of_view (h : s.view = t.view) : s.stream = t.stream := congrArg View.input h

theorem err_of_view (h : s.view = t.view) : s.conn.err = t.conn.err := congrArg View.err h

/-- `fill` never changes what the session stands for; it fails exactly when the stream is
shorter than what is asked for. -/
theorem fill_spec (s : Session) (n : Nat) :
    (n ≤ s.stream.length ∧
      ∃ s', s.fill n = .ok s' ∧ s'.view = s.view ∧ n ≤ s'.buf.length) ∨
      (s.stream.length < n ∧ s.fill n = .error s.conn.err) := by
  fun_induction fill s n with
  | case1 s h =>
      left
      refine ⟨?_, s, rfl, rfl, h⟩
      rw [stream, List.length_append]
      omega
  | case2 s h got conn hread ih =>
      have hview := view_of_read hread
      rw [stream_of_view hview, hview, err_of_view hview] at ih
      exact ih
  | case3 s h got err conn hread hend =>
      have hview := view_of_read hread
      left
      refine ⟨?_, _, rfl, hview, hend.2⟩
      rw [← stream_of_view hview, stream, List.length_append]
      exact Nat.le_add_right_of_le hend.2
  | case4 s h got err conn hread hend =>
      have hview := view_of_read hread
      obtain ⟨rfl, hnil, hgot⟩ := Source.read_end hread
      right
      refine ⟨?_, rfl⟩
      rw [← stream_of_view hview, stream, hnil, List.append_nil]
      rcases hgot with rfl | heof
      · simpa using h
      · by_contra hlong
        exact hend ⟨heof, Nat.not_lt.mp hlong⟩

/-- What the buffer holds is the front of the stream. -/
theorem getElem?_buf {i : Nat} (h : i < s.buf.length) : s.buf[i]? = s.stream[i]? := by
  rw [stream, List.getElem?_append_left h]

theorem take_buf (h : n ≤ s.buf.length) : s.buf.take n = s.stream.take n := by
  rw [stream, List.take_append_of_le_length h]

theorem view_consume (h : n ≤ s.buf.length) :
    (s.consume n).view = { s.view with input := s.stream.drop n } := by
  simp [view, consume, stream, List.drop_append_of_le_length h]

/-- What a call of `readCmd` shows, up to the segmentation. -/
def seen (r : BitVec 8 × Bytes × Session) : BitVec 8 × Bytes × View := (r.1, r.2.1, r.2.2.view)

theorem take_spec (s : Session) (cmd : BitVec 8) (need : Nat) :
    (s.take cmd need).map seen =
      if s.stream.length < need then .error (.io s.conn.err)
      else .ok (cmd, (s.stream.take need).drop 1, { s.view with input := s.stream.drop need }) := by
  rcases s.fill_spec need with ⟨hlen, s', hfill, hview, hbuf⟩ | ⟨hlen, hfill⟩
  · rw [if_neg (by omega), take, hfill]
    change Except.ok (cmd, (s'.buf.take need).drop 1, (s'.consume need).view) = _
    rw [view_consume hbuf, hview, take_buf hbuf, stream_of_view hview]
  · rw [if_pos hlen, take, hfill]
    rfl

/-- Four bytes of the buffer, once they are there. -/
theorem leUint32_buf (h : n + 4 ≤ s.buf.length) :
    leUint32 (s.buf.drop n) = leUint32 (s.stream.drop n) := by
  unfold leUint32
  simp only [List.getElem?_drop]
  rw [getElem?_buf (by omega), getElem?_buf (by omega), getElem?_buf (by omega),
    getElem?_buf (by omega)]

/-- A message whose length `len` is read off its first `header` bytes. -/
theorem fill_take_spec (s : Session) (cmd : BitVec 8) (header need : Nat) (len : Session → Nat)
    (hlen : ∀ s' : Session, s'.view = s.view → header ≤ s'.buf.length → len s' = need) :
    ((s.fill header).mapError .io >>= fun s => s.take cmd (len s)).map seen =
      if s.stream.length < header ∨ s.stream.length < need then .error (.io s.conn.err)
      else .ok (cmd, (s.stream.take need).drop 1, { s.view with input := s.stream.drop need }) := by
  rcases s.fill_spec header with ⟨hle, s', hfill, hview, hbuf⟩ | ⟨hlt, hfill⟩
  · rw [hfill]
    change (s'.take cmd (len s')).map seen = _
    rw [take_spec, hlen s' hview hbuf, hview, stream_of_view hview, err_of_view hview]
    simp only [show ¬ s.stream.length < header by omega, false_or]
  · rw [hfill, if_pos (.inl hlt)]
    rfl

/-- A message of a fixed length and no payload. -/
theorem fill_consume_spec (s : Session) (cmd : BitVec 8) (need : Nat) :
    ((s.fill need).mapError .io >>= fun s => pure (cmd, ([] : Bytes), s.consume need)).map seen =
      if s.stream.length < need then .error (HandshakeError.io s.conn.err)
      else .ok (cmd, [], { s.view with input := s.stream.drop need }) := by
  rcases s.fill_spec need with ⟨hle, s', hfill, hview, hbuf⟩ | ⟨hlt, hfill⟩
  · rw [hfill, if_neg (by omega)]
    change Except.ok (cmd, [], (s'.consume need).view) = _
    rw [view_consume hbuf, hview, stream_of_view hview]
  · rw [hfill, if_pos hlt]
    rfl

/-- The opcode is the first byte of the stream. -/
theorem head?_stream (h : 1 ≤ s.buf.length) : s.stream.head? = some (s.buf[0]?.getD 0) := by
  rw [stream]
  cases hb : s.buf with
  | nil => simp [hb] at h
  | cons b bs => rfl

/-- `readCmd` returns the next message of the byte string, however it is segmented. -/
theorem readCmd_view (s : Session) : s.readCmd.map seen = s.view.nextCmd := by
  rcases s.fill_spec 1 with ⟨-, s', hfill, hview, hbuf⟩ | ⟨hlen, hfill⟩
  · have hhead : s'.view.input.head? = _ := head?_stream hbuf
    rw [readCmd, hfill, ← hview, View.nextCmd, hhead]
    change Except.map seen (if s'.buf[0]?.getD 0 = 0x11 then _ else _) = _
    generalize s'.buf[0]?.getD 0 = cmd
    by_cases h11 : cmd = 0x11
    · subst h11
      refine (s'.fill_take_spec 0x11 13 (messageLength 0x11 s'.stream)
        (fun s => 13 + (s.buf[12]?.getD 0).toNat) ?_).trans rfl
      intro s₁ hs₁ hlen
      rw [getElem?_buf (by omega), stream_of_view hs₁]
      rfl
    by_cases h14 : cmd = 0x14
    · subst h14
      refine (s'.fill_take_spec 0x14 9 (messageLength 0x14 s'.stream)
        (fun s => 9 + leUint32 (s.buf.drop 5)) ?_).trans rfl
      intro s₁ hs₁ hlen
      rw [leUint32_buf (by omega), stream_of_view hs₁]
      rfl
    by_cases h41 : cmd = 0x41
    · subst h41
      refine (s'.fill_consume_spec 0x41 8).trans ?_
      simp [headerLength, messageLength, payloadOf, view]
    · simp only [headerLength, h11, h14, h41, if_false]
      rfl
  · have hnil : s.view.input = [] := by
      apply List.length_eq_zero_iff.mp
      change s.stream.length = 0
      omega
    rw [readCmd, hfill, View.nextCmd, hnil]
    rfl

/-! ### Sessions that differ in their segmentation -/

/-- Two sessions that differ only in how the server's bytes are cut into reads and how far
they have been read. -/
def Agree (s t : Session) : Prop := s.view = t.view

theorem Agree.append (h : Agree s t) (e : Event) :
    Agree { s with trace := s.trace ++ [e] } { t with trace := t.trace ++ [e] } := by
  change { s.view with trace := s.view.trace ++ [e] } = { t.view with trace := t.view.trace ++ [e] }
  rw [h]

theorem Agree.setAuthed (h : Agree s t) :
    Agree { s with authed := true } { t with authed := true } := by
  change { s.view with authed := true } = { t.view with authed := true }
  rw [h]

theorem Agree.writes (h : Agree s t) : s.writes = t.writes := by
  unfold Session.writes
  rw [show s.trace = t.trace from congrArg View.trace h]

theorem Agree.authed (h : Agree s t) : s.authed = t.authed := congrArg View.authed h

theorem write_agree (h : Agree s t) (bytes : Bytes) :
    Alike Eq Agree (s.write E bytes) (t.write E bytes) := by
  unfold write
  rw [h.writes]
  cases E.writeErr t.writes with
  | some e => exact rfl
  | none => exact h.append (.wrote bytes)

theorem write_mapError_agree (h : Agree s t) (bytes : Bytes) (f : IoError → HandshakeError) :
    Alike Eq Agree ((s.write E bytes).mapError f) ((t.write E bytes).mapError f) := by
  apply (write_agree h bytes).mapError
  rintro e - rfl
  exact rfl

theorem handleAuthReply_agree (h : Agree s t) (payload : Bytes) :
    Alike Eq Agree (s.handleAuthReply E payload) (t.handleAuthReply E payload) := by
  have huser : s.user = t.user := congrArg View.user h
  have hpass : s.pass = t.pass := congrArg View.pass h
  unfold handleAuthReply
  dsimp only
  split_ifs
  · exact rfl
  · exact rfl
  · rw [huser]
    exact write_mapError_agree h _ _
  · exact rfl
  · rw [huser, hpass, h.writes]
    cases parseDigestChallenge _ _ with
    | error e => exact rfl
    | ok c => exact write_mapError_agree h _ _
  · exact h.setAuthed
  · exact rfl

theorem sendReady_agree (h : Agree s t) : Alike Eq Agree (s.sendReady E) (t.sendReady E) := by
  unfold sendReady
  rw [h.authed]
  split_ifs
  · exact write_mapError_agree h _ _
  · exact h

theorem dispatch_agree (h : Agree s t) (cmd : BitVec 8) (payload : Bytes) :
    Alike Eq (Sum.LiftRel Agree Agree) (s.dispatch E cmd payload) (t.dispatch E cmd payload) := by
  unfold dispatch
  split_ifs
  · cases payload with
    | nil => exact rfl
    | cons status rest =>
        dsimp only
        split_ifs
        · exact rfl
        · exact (write_mapError_agree h _ _).map fun _ _ => Sum.LiftRel.inl
  · apply ((handleAuthReply_agree h payload).bind fun _ _ => sendReady_agree).map
    exact fun _ _ => Sum.LiftRel.inl
  · exact .inr h
  · exact rfl

/-- Sessions that agree read the same message and agree after it. -/
theorem readCmd_agree (h : Agree s t) :
    Alike Eq (fun r r' => r.1 = r'.1 ∧ r.2.1 = r'.2.1 ∧ Agree r.2.2 r'.2.2)
      s.readCmd t.readCmd := by
  have hmap : s.readCmd.map seen = t.readCmd.map seen := by
    rw [readCmd_view, readCmd_view, h]
  cases hs : s.readCmd with
  | error e =>
      cases ht : t.readCmd with
      | error e' => simpa [hs, ht, Except.map] using hmap
      | ok r' => simp [hs, ht, Except.map] at hmap
  | ok r =>
      cases ht : t.readCmd with
      | error e' => simp [hs, ht, Except.map] at hmap
      | ok r' => simpa [hs, ht, Except.map, seen, Agree] using hmap

/-- One turn of the loop, in lockstep. -/
theorem turn_agree (h : Agree s t) :
    Alike (fun a b => a.1 = b.1 ∧ Agree a.2 b.2) (Sum.LiftRel Agree Agree)
      (s.turn E) (t.turn E) := by
  have hread := readCmd_agree h
  unfold turn
  cases hs : s.readCmd with
  | error e =>
      rw [hs] at hread
      obtain ⟨e', ht, rfl⟩ := hread.exists_error
      rw [ht]
      exact ⟨rfl, h⟩
  | ok r =>
      rw [hs] at hread
      obtain ⟨⟨cmd, payload, t'⟩, ht, rfl, rfl, hagree⟩ := hread.exists_ok
      rw [ht]
      have hnote : Agree (r.2.2.note r.1 r.2.1) (t'.note r.1 r.2.1) :=
        hagree.append (.got r.1 r.2.1)
      apply (dispatch_agree hnote r.1 r.2.1).mapError
      rintro e - rfl
      exact ⟨rfl, hnote⟩

/-! ### What a turn can do -/

/-- The session after a write that succeeded. -/
def wrote (s : Session) (bytes : Bytes) : Session := { s with trace := s.trace ++ [.wrote bytes] }

theorem write_ok {bytes : Bytes} (h : s.write E bytes = .ok s') : s' = s.wrote bytes := by
  unfold write at h
  split at h
  case h_1 => cases h
  case h_2 => exact (Except.ok.inj h).symm

theorem write_cases {f : IoError → HandshakeError} {bytes : Bytes}
    (h : (s.write E bytes).mapError f = .ok s') : s' = s.wrote bytes :=
  write_ok (of_mapError_ok h)

/-- The three replies that keep the handshake going: the list of offered types, a challenge,
and the acceptance. -/
theorem handleAuthReply_cases {payload : Bytes} (h : s.handleAuthReply E payload = .ok s') :
    (payload[3]?.getD 0 = 0 ∧ s' = s.wrote (digestRequest s.user)) ∨
      ((payload[3]?.getD 0 = 3 ∨ payload[3]?.getD 0 = 4) ∧ ∃ c cnonce,
        s' = s.wrote (digestResponse E s.user s.pass (payload[3]?.getD 0) c cnonce)) ∨
      (payload[3]?.getD 0 ≠ 0 ∧ payload.head? = some 0 ∧ s' = { s with authed := true }) := by
  unfold handleAuthReply at h
  dsimp only at h
  split_ifs at h with hshort _ hzero _ hchallenge hok
  · exact .inl ⟨hzero, write_cases h⟩
  · split at h
    case h_1 => cases h
    case h_2 c hc => exact .inr (.inl ⟨hchallenge.1, c, _, write_cases h⟩)
  · refine .inr (.inr ⟨hzero, ?_, (Except.ok.inj h).symm⟩)
    cases payload with
    | nil => simp at hshort
    | cons status rest => exact congrArg some hok

/-- What `sendReady` adds to the history. -/
theorem sendReady_cases (h : s.sendReady E = .ok s') :
    s' = s ∨ s' = s.wrote [0x40, 0, 0, 0, 0, 0, 0, 0] := by
  unfold sendReady at h
  split_ifs at h
  · exact .inr (write_cases h)
  · exact .inl (Except.ok.inj h).symm

/-- A start reply is answered with a query, an authentication reply as `handleAuthReply`
does, and only the KVM-accepted message ends the loop. -/
theorem dispatch_cases {cmd : BitVec 8} {payload : Bytes} {x : Session ⊕ Session}
    (h : s.dispatch E cmd payload = .ok x) :
    (cmd = 0x11 ∧ x = .inl (s.wrote [0x13, 0, 0, 0, 0, 0, 0, 0, 0])) ∨
      (cmd = 0x14 ∧ ∃ s₁ s₂, s.handleAuthReply E payload = .ok s₁ ∧ s₁.sendReady E = .ok s₂ ∧
        x = .inl s₂) ∨
      (cmd = 0x41 ∧ x = .inr s) := by
  unfold dispatch at h
  split_ifs at h with h11 h14 h41
  · split at h
    case h_1 => cases h
    case h_2 status rest =>
      split_ifs at h
      obtain ⟨s₁, hw, rfl⟩ := exists_of_map_ok h
      exact .inl ⟨h11, congrArg _ (write_cases hw)⟩
  · obtain ⟨s₂, hseq, rfl⟩ := exists_of_map_ok h
    obtain ⟨s₁, hreply, hready⟩ := exists_of_bind_ok hseq
    exact .inr (.inl ⟨h14, s₁, s₂, hreply, hready, rfl⟩)
  · exact .inr (.inr ⟨h41, (Except.ok.inj h).symm⟩)

/-- A turn reads a message and dispatches it. -/
theorem turn_ok {x : Session ⊕ Session} (h : s.turn E = .ok x) :
    ∃ cmd payload s₁, s.readCmd = .ok (cmd, payload, s₁) ∧
      (s₁.note cmd payload).dispatch E cmd payload = .ok x := by
  unfold turn at h
  split at h
  case h_1 => cases h
  case h_2 cmd payload s₁ hread =>
    exact ⟨cmd, payload, s₁, hread, of_mapError_ok h⟩

/-- The handlers leave the socket, the buffer and the credentials alone and only extend the
history. -/
structure Continues (s s' : Session) : Prop where
  conn : s'.conn = s.conn
  buf : s'.buf = s.buf
  user : s'.user = s.user
  pass : s'.pass = s.pass
  trace : ∃ es, s'.trace = s.trace ++ es ∧ ∀ e ∈ es, ∃ bytes, e = Event.wrote bytes

theorem Continues.refl (s : Session) : Continues s s := ⟨rfl, rfl, rfl, rfl, [], by simp, by simp⟩

theorem Continues.wrote (h : Continues s s') (bytes : Bytes) : Continues s (s'.wrote bytes) := by
  obtain ⟨es, htrace, hes⟩ := h.trace
  refine ⟨h.conn, h.buf, h.user, h.pass, es ++ [.wrote bytes], ?_, ?_⟩
  · simp [Session.wrote, htrace]
  · intro e he
    rcases List.mem_append.mp he with he | he
    · exact hes e he
    · exact ⟨bytes, List.mem_singleton.mp he⟩

theorem Continues.setAuthed (h : Continues s s') : Continues s { s' with authed := true } :=
  ⟨h.conn, h.buf, h.user, h.pass, h.trace⟩

theorem handleAuthReply_continues {payload : Bytes}
    (h : s.handleAuthReply E payload = .ok s') : Continues s s' := by
  rcases handleAuthReply_cases h with ⟨-, rfl⟩ | ⟨-, c, cnonce, rfl⟩ | ⟨-, -, rfl⟩
  · exact (Continues.refl s).wrote _
  · exact (Continues.refl s).wrote _
  · exact (Continues.refl s).setAuthed

theorem dispatch_continues {cmd : BitVec 8} {payload : Bytes} {x : Session ⊕ Session}
    (h : s.dispatch E cmd payload = .ok x) : Continues s (x.elim id id) := by
  rcases dispatch_cases h with ⟨-, rfl⟩ | ⟨-, s₁, s₂, hreply, hready, rfl⟩ | ⟨-, rfl⟩
  · exact (Continues.refl s).wrote _
  · have := handleAuthReply_continues hreply
    rcases sendReady_cases hready with rfl | rfl
    · exact this
    · exact this.wrote _
  · exact .refl s

/-! ### The messages of a run -/

/-- The messages of a history, oldest first. -/
def commands (trace : List Event) : List (BitVec 8 × Bytes) :=
  trace.filterMap fun | .got cmd payload => some (cmd, payload) | .wrote _ => none

theorem commands_append_wrote {trace es : List Event}
    (h : ∀ e ∈ es, ∃ bytes, e = Event.wrote bytes) :
    commands (trace ++ es) = commands trace := by
  have hnil : commands es = [] := by
    apply List.filterMap_eq_nil_iff.mpr
    intro e he
    obtain ⟨bytes, rfl⟩ := h e he
    rfl
  rw [commands, List.filterMap_append]
  exact (congrArg _ hnil).trans (List.append_nil _)

/-- What a message read from the socket is: the front of the stream. -/
theorem readCmd_message {cmd : BitVec 8} {payload : Bytes}
    (h : s.readCmd = .ok (cmd, payload, s')) :
    ∃ m, IsMessage m ∧ commandOf m = (cmd, payload) ∧ m ≠ [] ∧ s.stream = m ++ s'.stream := by
  have hview : s.view.nextCmd = .ok (cmd, payload, s'.view) := by
    rw [← readCmd_view, h]
    rfl
  exact View.nextCmd_ok hview

/-- Reading changes neither the credentials nor the flag nor the history. -/
theorem readCmd_keeps {cmd : BitVec 8} {payload : Bytes} (h : s.readCmd = .ok (cmd, payload, s')) :
    s'.view = { s.view with input := s'.stream } := by
  have hview : s.view.nextCmd = .ok (cmd, payload, s'.view) := by
    rw [← readCmd_view, h]
    rfl
  exact View.nextCmd_keeps hview

/-- A turn moves one message from the front of the stream to the history. -/
theorem turn_message {x : Session ⊕ Session} (h : s.turn E = .ok x) :
    ∃ m, IsMessage m ∧ m ≠ [] ∧ s.stream = m ++ (x.elim id id).stream ∧
      commands (x.elim id id).trace = commands s.trace ++ [commandOf m] ∧
      (x.elim id id).conn.err = s.conn.err := by
  obtain ⟨cmd, payload, s₁, hread, hdispatch⟩ := turn_ok h
  obtain ⟨m, hm, hcommand, hne, hstream⟩ := readCmd_message hread
  have htrace : s₁.trace = s.trace := congrArg View.trace (readCmd_keeps hread)
  have herr : s₁.conn.err = s.conn.err := congrArg View.err (readCmd_keeps hread)
  have hcont := dispatch_continues hdispatch
  obtain ⟨es, hes, hwrote⟩ := hcont.trace
  refine ⟨m, hm, hne, ?_, ?_, ?_⟩
  · rw [hstream, stream, stream, hcont.conn, hcont.buf]
    rfl
  · rw [hes, commands_append_wrote hwrote, note, htrace, hcommand]
    simp [commands]
  · rw [hcont.conn]
    exact herr

/-- The bytes `S` are those of the messages read so far and those not yet consumed, and the
error after them is `err`. -/
def Consumed (S : Bytes) (err : IoError) (s : Session) : Prop :=
  s.conn.err = err ∧ ∃ messages : List Bytes, (∀ m ∈ messages, IsMessage m) ∧
    messages.map commandOf = commands s.trace ∧ S = messages.flatten ++ s.stream

theorem turn_consumed {S : Bytes} {err : IoError} {x : Session ⊕ Session} (h : s.turn E = .ok x)
    (hs : Consumed S err s) : Consumed S err (x.elim id id) := by
  obtain ⟨m, hm, -, hstream, hcommands, herr⟩ := turn_message h
  obtain ⟨herr', messages, hall, hmap, hS⟩ := hs
  refine ⟨herr.trans herr', messages ++ [m], ?_, ?_, ?_⟩
  · intro m' hm'
    rcases List.mem_append.mp hm' with hm' | hm'
    · exact hall m' hm'
    · rw [List.mem_singleton.mp hm']
      exact hm
  · rw [hcommands, List.map_append, hmap]
    rfl
  · rw [hS, hstream]
    simp

/-! ### The outcome of a handshake -/

/-- The messages read during a handshake. -/
def commandsOf : Except (HandshakeError × Session) Session → List (BitVec 8 × Bytes)
  | .ok s => commands s.trace
  | .error (_, s) => commands s.trace

/-- The error a handshake returns, if any. -/
def errorOf : Except (HandshakeError × Session) Session → Option HandshakeError
  | .ok _ => none
  | .error (e, _) => some e

/-- Every handshake ends: each further turn consumes a message. -/
theorem exists_handshake (E : Host) (s : Session) : ∃ r, Handshake E s r := by
  unfold Handshake
  cases s.write E startMessage with
  | error e => exact ⟨_, rfl⟩
  | ok s₀ =>
      apply Loop.exists_returns (I := fun _ => True) (fun s => s.stream.length) _ trivial
      intro s _
      cases hturn : s.turn E with
      | error e => trivial
      | ok x =>
          obtain ⟨m, -, hne, hstream, -⟩ := turn_message hturn
          have := List.length_pos_iff.mpr hne
          cases x with
          | inl s' =>
              refine ⟨trivial, ?_⟩
              rw [hstream, List.length_append]
              simp only [Sum.elim_inl, id]
              omega
          | inr s' => trivial

/-- A handshake that succeeds has consumed messages off the front of the stream. -/
theorem Handshake.consumed (h : Handshake E s (.ok s')) (htrace : s.trace = []) :
    Consumed s.stream s.conn.err s' := by
  unfold Handshake at h
  split at h
  case h_1 => cases h
  case h_2 s₀ hwrite =>
    have hinit : Consumed s.stream s.conn.err s₀ := by
      rw [write_ok hwrite]
      exact ⟨rfl, [], by simp, by simp [wrote, htrace, commands], rfl⟩
    have := h.meets (I := Consumed s.stream s.conn.err) (Q := Consumed s.stream s.conn.err)
      (F := fun _ => True) (fun t ht => ?_) hinit
    · exact this
    · cases hturn : t.turn E with
      | error e => trivial
      | ok x =>
          have := turn_consumed hturn ht
          cases x with
          | inl t' => exact this
          | inr t' => exact this

/-- Sessions that agree end their handshakes alike. -/
theorem Handshake.agree {r r' : Except (HandshakeError × Session) Session} (h : Agree s t)
    (hr : Handshake E s r) (hr' : Handshake E t r') :
    Alike (fun a b => a.1 = b.1 ∧ Agree a.2 b.2) Agree r r' := by
  have hwrite := write_agree (E := E) h startMessage
  unfold Handshake at hr hr'
  cases hs : s.write E startMessage with
  | error e =>
      rw [hs] at hr hwrite
      obtain ⟨e', ht, rfl⟩ := hwrite.exists_error
      rw [ht] at hr'
      rw [hr, hr']
      exact ⟨rfl, h⟩
  | ok s₀ =>
      rw [hs] at hr hwrite
      obtain ⟨t₀, ht, hagree⟩ := hwrite.exists_ok
      rw [ht] at hr'
      obtain ⟨r₁, hr₁, halike⟩ := Loop.Returns.lockstep (fun _ _ => turn_agree) hr hagree
      rwa [hr₁.unique hr'] at halike

end Session

namespace BufConn

variable {c c' : BufConn} {k : Nat}

/-- What is still to be read. -/
def stream (c : BufConn) : Bytes := c.buf ++ c.raw.stream

/-- Reads with room for `sizes`, one after the other, up to the first error: all the bytes
they deliver, and that error. -/
def reads (c : BufConn) : List Nat → Bytes × Option IoError
  | [] => ([], none)
  | k :: sizes =>
      match c.Read k with
      | (got, some e, _) => (got, some e)
      | (got, none, c) => (got ++ (c.reads sizes).1, (c.reads sizes).2)

theorem Read_stream {got : Bytes} {e : Option IoError} (h : c.Read k = (got, e, c')) :
    got ++ c'.stream = c.stream ∧ c'.raw.err = c.raw.err := by
  unfold Read at h
  split_ifs at h with hbuf
  · cases h
    constructor
    · rw [stream, stream, ← List.append_assoc, List.take_append_drop]
    · rfl
  · rw [not_not] at hbuf
    cases h
    refine ⟨?_, Source.read_err rfl⟩
    rw [stream, stream, hbuf]
    exact Source.read_stream rfl

theorem Read_end {got : Bytes} {e : IoError} (h : c.Read k = (got, some e, c')) :
    e = c.raw.err ∧ c'.stream = [] := by
  unfold Read at h
  split_ifs at h with hbuf
  · cases h
  rw [not_not] at hbuf
  cases hread : c.raw.read k with
  | mk got' r =>
      obtain ⟨e', raw⟩ := r
      rw [hread] at h
      cases h
      obtain ⟨herr, hnil, -⟩ := Source.read_end hread
      exact ⟨herr, by rw [stream, hbuf, hnil]; rfl⟩

theorem Read_progress {got : Bytes} (hk : 0 < k) (h : c.Read k = (got, none, c')) : got ≠ [] := by
  unfold Read at h
  split_ifs at h with hbuf
  · cases h
    intro hnil
    rcases List.take_eq_nil_iff.mp hnil with h0 | h0
    · omega
    · exact hbuf h0
  · cases hread : c.raw.read k with
    | mk got' r =>
        obtain ⟨e', raw⟩ := r
        rw [hread] at h
        cases h
        exact Source.read_progress hk hread

/-- Whatever the sizes, the connection delivers `bytes` in order and nothing else: a prefix
so far, all of it once an error is reported, and it gets there. -/
structure Delivers (c : BufConn) (bytes : Bytes) (err : IoError) : Prop where
  ordered : ∀ sizes, (c.reads sizes).1 <+: bytes
  complete : ∀ sizes e, (c.reads sizes).2 = some e → (c.reads sizes).1 = bytes ∧ e = err
  ends : ∀ sizes, (∀ k ∈ sizes, 0 < k) → bytes.length < sizes.length →
    (c.reads sizes).2 = some err

/-- The first read, and the reads after it when it reports no error. -/
theorem reads_cons (c : BufConn) (k : Nat) (sizes : List Nat) :
    (∃ got e c', c.Read k = (got, some e, c') ∧ c.reads (k :: sizes) = (got, some e)) ∨
      ∃ got c', c.Read k = (got, none, c') ∧
        c.reads (k :: sizes) = (got ++ (c'.reads sizes).1, (c'.reads sizes).2) := by
  rcases hread : c.Read k with ⟨got, e, c'⟩
  rw [reads, hread]
  cases e with
  | some e => exact .inl ⟨got, e, c', rfl, rfl⟩
  | none => exact .inr ⟨got, c', rfl, rfl⟩

theorem delivers_ordered (c : BufConn) (sizes : List Nat) :
    (c.reads sizes).1 <+: c.stream := by
  induction sizes generalizing c with
  | nil => exact List.nil_prefix
  | cons k sizes ih =>
      rcases c.reads_cons k sizes with ⟨got, e, c', hread, heq⟩ | ⟨got, c', hread, heq⟩
      · rw [heq, ← (Read_stream hread).1]
        exact List.prefix_append _ _
      · rw [heq, ← (Read_stream hread).1]
        exact (List.prefix_append_right_inj _).mpr (ih c')

theorem delivers_complete (c : BufConn) (sizes : List Nat) {e : IoError}
    (h : (c.reads sizes).2 = some e) : (c.reads sizes).1 = c.stream ∧ e = c.raw.err := by
  induction sizes generalizing c with
  | nil => cases h
  | cons k sizes ih =>
      rcases c.reads_cons k sizes with ⟨got, e', c', hread, heq⟩ | ⟨got, c', hread, heq⟩
      · rw [heq] at h ⊢
        obtain ⟨herr, hnil⟩ := Read_end hread
        have hstream := (Read_stream hread).1
        rw [hnil, List.append_nil] at hstream
        exact ⟨hstream, (Option.some.inj h).symm.trans herr⟩
      · rw [heq] at h ⊢
        obtain ⟨hstream, herr⟩ := Read_stream hread
        obtain ⟨hall, he⟩ := ih c' h
        exact ⟨by rw [hall, hstream], he.trans herr⟩

theorem delivers_ends (c : BufConn) (sizes : List Nat) (hpos : ∀ k ∈ sizes, 0 < k)
    (hlong : c.stream.length < sizes.length) : (c.reads sizes).2 = some c.raw.err := by
  induction sizes generalizing c with
  | nil => simp at hlong
  | cons k sizes ih =>
      rcases c.reads_cons k sizes with ⟨got, e', c', hread, heq⟩ | ⟨got, c', hread, heq⟩
      · rw [heq, (Read_end hread).1]
      · obtain ⟨hstream, herr⟩ := Read_stream hread
        have hgot := List.length_pos_iff.mpr (Read_progress (hpos k (by simp)) hread)
        have hlen := congrArg List.length hstream
        rw [List.length_append] at hlen
        rw [List.length_cons] at hlong
        rw [heq, ← herr]
        exact ih c' (fun k hk => hpos k (by simp [hk])) (by omega)

theorem delivers (c : BufConn) : c.Delivers c.stream c.raw.err where
  ordered := c.delivers_ordered
  complete := fun sizes _ => c.delivers_complete sizes
  ends := c.delivers_ends

end BufConn

namespace Session

/-- The handshake depends on the server's bytes alone, and hands over exactly the bytes after
its messages: for two segmentations of one byte string it ends both times, with the same
messages and the same result, and the connections it yields deliver the same rest. -/
theorem handshake_segmentation (E : Host) (conn conn' : Source (BitVec 8) 4096)
    (user pass : Bytes) (hstream : conn.stream = conn'.stream) (herr : conn.err = conn'.err) :
    (∃ r, Handshake E (newSession conn user pass) r) ∧
      ∀ r r', Handshake E (newSession conn user pass) r →
        Handshake E (newSession conn' user pass) r' →
        commandsOf r = commandsOf r' ∧ errorOf r = errorOf r' ∧
        ∀ s, r = .ok s → ∃ s', r' = .ok s' ∧ ∃ (messages : List Bytes) (rest : Bytes),
          (∀ m ∈ messages, IsMessage m) ∧ messages.map commandOf = commands s.trace ∧
          conn.stream = messages.flatten ++ rest ∧
          (dialled s).Delivers rest conn.err ∧ (dialled s').Delivers rest conn.err := by
  refine ⟨exists_handshake E _, ?_⟩
  intro r r' hr hr'
  have hagree : Agree (newSession conn user pass) (newSession conn' user pass) := by
    simp [Agree, view, newSession, stream, hstream, herr]
  have halike := Handshake.agree hagree hr hr'
  cases r with
  | error a =>
      obtain ⟨b, rfl, he, hab⟩ := halike.exists_error
      refine ⟨congrArg (fun v : View => commands v.trace) hab, congrArg some he, ?_⟩
      intro s hs
      cases hs
  | ok s =>
      obtain ⟨s', rfl, hss⟩ := halike.exists_ok
      refine ⟨congrArg (fun v : View => commands v.trace) hss, rfl, ?_⟩
      rintro _ ⟨⟩
      obtain ⟨herr', messages, hall, hmap, hS⟩ := hr.consumed rfl
      refine ⟨s', rfl, messages, s.stream, hall, hmap, hS, ?_, ?_⟩
      · have := (dialled s).delivers
        rwa [show (dialled s).raw.err = conn.err from herr'] at this
      · have := (dialled s').delivers
        rwa [show (dialled s').raw.err = conn.err from (err_of_view hss).symm.trans herr',
          show (dialled s').stream = s.stream from (stream_of_view hss).symm] at this

/-- A KVM-accepted message and two bytes of what follows, in one read. -/
def wholeAccept : Source (BitVec 8) 4096 where
  segments := [⟨[0x41, 0, 0, 0, 0, 0, 0, 0, 0x52, 0x46], by decide⟩]
  err := .eof

/-- The same bytes, cut inside the message and inside what follows. -/
def cutAccept : Source (BitVec 8) 4096 where
  segments := [⟨[0x41, 0, 0], by decide⟩, ⟨[0, 0, 0, 0, 0, 0x52], by decide⟩, ⟨[0x46], by decide⟩]
  err := .eof
  early := true

/-- A host whose writes succeed. -/
def writableHost : Host := ⟨fun _ => [], fun _ _ => 0, fun _ => none⟩

theorem handshake_segmentation_accept :
    ∃ r r', Handshake writableHost (newSession wholeAccept [] []) r ∧
      Handshake writableHost (newSession cutAccept [] []) r' ∧
      commandsOf r = commandsOf r' ∧ errorOf r = errorOf r' := by
  obtain ⟨⟨r, hr⟩, hall⟩ := handshake_segmentation writableHost wholeAccept cutAccept [] []
    (by decide) rfl
  obtain ⟨⟨r', hr'⟩, -⟩ := handshake_segmentation writableHost cutAccept wholeAccept [] []
    (by decide) rfl
  obtain ⟨hcommands, herror, -⟩ := hall r r' hr hr'
  exact ⟨r, r', hr, hr', hcommands, herror⟩

end Session

end Outband.Amt.Redir
