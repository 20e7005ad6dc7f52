import Outband.Amt.Redir.Framing

/-!
# Authentication of the redirection handshake

A handshake that succeeds should have proved the credentials: the server
accepted a Digest response of this client. The loop keeps one flag for this, and
consults it only to send the ready message. It takes a KVM-accepted message
whether or not the flag is set, and it sets the flag for an accepting reply
whether or not a response was sent. `handshake_authenticated` says that these
are the only two gaps.
-/

namespace Outband.Amt.Redir.Session

open Foundation

variable {E : Host} {user pass : Bytes} {s s' t : Session} {trace : List Event}

/-- The bytes of a Digest response that carries the digest of the credentials. -/
def IsDigestResponse (E : Host) (user pass bytes : Bytes) : Prop :=
  ∃ authType c cnonce, (authType = 3 ∨ authType = 4) ∧
    bytes = digestResponse E user pass authType c cnonce

/-- A Digest response has been sent. -/
def Responded (E : Host) (user pass : Bytes) (trace : List Event) : Prop :=
  ∃ bytes, IsDigestResponse E user pass bytes ∧ .wrote bytes ∈ trace

/-- An authentication reply with status 0 was received after a Digest response was sent. -/
def Authenticated (E : Host) (user pass : Bytes) (trace : List Event) : Prop :=
  ∃ before after payload, trace = before ++ .got 0x14 payload :: after ∧
    payload.head? = some 0 ∧ Responded E user pass before

theorem Authenticated.append (h : Authenticated E user pass trace) (es : List Event) :
    Authenticated E user pass (trace ++ es) := by
  obtain ⟨before, after, payload, rfl, hstatus, hsent⟩ := h
  exact ⟨before, after ++ es, payload, by simp, hstatus, hsent⟩

/-- What the next message must not be: a KVM-accepted message before the flag is set, or an
accepting reply before a Digest response. -/
def Heeds (E : Host) (s : Session) : Prop :=
  ∀ cmd payload s', s.readCmd = .ok (cmd, payload, s') →
    (cmd = 0x41 → s.authed = true) ∧
      (cmd = 0x14 → payload[3]?.getD 0 ≠ 0 → payload.head? = some 0 →
        Responded E s.user s.pass s.trace)

/-- The flag tells the truth. -/
structure Sound (E : Host) (user pass : Bytes) (s : Session) : Prop where
  user_eq : s.user = user
  pass_eq : s.pass = pass
  flag : s.authed = true → Authenticated E user pass s.trace

/-- A write keeps the flag sound. -/
theorem Sound.wrote (h : Sound E user pass s) (bytes : Bytes) :
    Sound E user pass (s.wrote bytes) :=
  ⟨h.user_eq, h.pass_eq, fun hflag => (h.flag hflag).append _⟩

theorem Sound.note (h : Sound E user pass s) (cmd : BitVec 8) (payload : Bytes) :
    Sound E user pass (s.note cmd payload) :=
  ⟨h.user_eq, h.pass_eq, fun hflag => (h.flag hflag).append _⟩

/-- Reading keeps it. -/
theorem Sound.readCmd {cmd : BitVec 8} {payload : Bytes} (h : Sound E user pass s)
    (hread : s.readCmd = .ok (cmd, payload, s')) : Sound E user pass s' := by
  have hkeeps := readCmd_keeps hread
  have huser : s'.user = s.user := congrArg View.user hkeeps
  have hpass : s'.pass = s.pass := congrArg View.pass hkeeps
  have hauthed : s'.authed = s.authed := congrArg View.authed hkeeps
  have htrace : s'.trace = s.trace := congrArg View.trace hkeeps
  refine ⟨huser.trans h.user_eq, hpass.trans h.pass_eq, ?_⟩
  rw [hauthed, htrace]
  exact h.flag

/-- An authentication reply keeps it when an accepting reply follows a Digest response. -/
theorem Sound.handleAuthReply {payload : Bytes} (h : Sound E user pass s)
    (hsent : payload[3]?.getD 0 ≠ 0 → payload.head? = some 0 → Responded E user pass s.trace)
    (hreply : (s.note 0x14 payload).handleAuthReply E payload = .ok s') :
    Sound E user pass s' := by
  have hnote := h.note 0x14 payload
  rcases handleAuthReply_cases hreply with ⟨-, rfl⟩ | ⟨-, c, cnonce, rfl⟩ | ⟨htype, hstatus, rfl⟩
  · exact hnote.wrote _
  · exact hnote.wrote _
  · refine ⟨hnote.user_eq, hnote.pass_eq, fun _ => ?_⟩
    exact ⟨s.trace, [], payload, rfl, hstatus, hsent htype hstatus⟩

/-- One turn that heeds both rules keeps the flag sound and succeeds only when it is set. -/
theorem turn_sound (h : Sound E user pass s) (hheeds : Heeds E s) :
    Meets (s.turn E) (Sum.elim (Sound E user pass)
      fun s' => Sound E user pass s' ∧ s'.authed = true) fun _ => True := by
  cases hturn : s.turn E with
  | error e => trivial
  | ok x =>
      obtain ⟨cmd, payload, s₁, hread, hdispatch⟩ := turn_ok hturn
      obtain ⟨hflag, hsent⟩ := hheeds cmd payload s₁ hread
      have hs₁ := h.readCmd hread
      have hkeeps := readCmd_keeps hread
      have hauthed : s₁.authed = s.authed := congrArg View.authed hkeeps
      have htrace : s₁.trace = s.trace := congrArg View.trace hkeeps
      rcases dispatch_cases hdispatch with
        ⟨-, rfl⟩ | ⟨rfl, s₂, s₃, hreply, hready, rfl⟩ | ⟨rfl, rfl⟩
      · exact (hs₁.note cmd payload).wrote _
      · have hs₂ := hs₁.handleAuthReply (fun ht hst => by
          rw [htrace, ← h.user_eq, ← h.pass_eq]
          exact hsent rfl ht hst) hreply
        rcases sendReady_cases hready with rfl | rfl
        · exact hs₂
        · exact hs₂.wrote _
      · exact ⟨hs₁.note 0x41 payload, hauthed.trans (hflag rfl)⟩

/-- A state at the head of the handshake's loop. -/
def AtHead (E : Host) (s t : Session) : Prop :=
  ∃ s₀, s.write E startMessage = .ok s₀ ∧ Loop.Visits (turn E) s₀ t

theorem AtHead.turn (h : AtHead E s t) {t' : Session} (hturn : t.turn E = .ok (.inl t')) :
    AtHead E s t' := by
  obtain ⟨s₀, hstart, hvisits⟩ := h
  exact ⟨s₀, hstart, hvisits.tail hturn⟩

/-- The session after the start message is sound: the flag is not set. -/
theorem sound_start {conn : Source (BitVec 8) 4096} {s₀ : Session}
    (h : (newSession conn user pass).write E startMessage = .ok s₀) : Sound E user pass s₀ := by
  rw [write_ok h]
  exact ⟨rfl, rfl, fun hflag => by cases hflag⟩

theorem turn_atHead (hheeds : ∀ t, AtHead E s t → Heeds E t) (t : Session)
    (ht : AtHead E s t ∧ Sound E user pass t) :
    Meets (t.turn E) (Sum.elim (fun t' => AtHead E s t' ∧ Sound E user pass t')
      fun s' => Sound E user pass s' ∧ s'.authed = true) fun _ => True := by
  have hsound := turn_sound ht.2 (hheeds t ht.1)
  cases hturn : t.turn E with
  | error e => trivial
  | ok x =>
      rw [hturn] at hsound
      cases x with
      | inl t' => exact ⟨ht.1.turn hturn, hsound⟩
      | inr s' => exact hsound

/-- When every message of a run heeds both rules, the flag is set only after the server
accepted a Digest response, and so is a handshake that succeeds. -/
theorem handshake_authenticated (E : Host) (conn : Source (BitVec 8) 4096) (user pass : Bytes)
    (hheeds : ∀ t, AtHead E (newSession conn user pass) t → Heeds E t) :
    (∀ t, AtHead E (newSession conn user pass) t → t.authed = true →
      Authenticated E user pass t.trace) ∧
    ∀ s, Handshake E (newSession conn user pass) (.ok s) → Authenticated E user pass s.trace := by
  constructor
  · intro t ht
    obtain ⟨s₀, hstart, hvisits⟩ := ht
    have hinit : AtHead E (newSession conn user pass) s₀ ∧ Sound E user pass s₀ :=
      ⟨⟨s₀, hstart, .refl⟩, sound_start hstart⟩
    exact (hvisits.invariant (turn_atHead hheeds) hinit).2.flag
  · intro s hs
    unfold Handshake at hs
    split at hs
    case h_1 => cases hs
    case h_2 s₀ hstart =>
      have hinit : AtHead E (newSession conn user pass) s₀ ∧ Sound E user pass s₀ :=
        ⟨⟨s₀, hstart, .refl⟩, sound_start hstart⟩
      obtain ⟨hsound, hauthed⟩ := hs.meets (turn_atHead hheeds) hinit
      exact hsound.flag hauthed

/-- A server that answers with a challenge for realm `R` and nonce `n`, accepts the response
and opens the session. -/
def acceptingServer : Source (BitVec 8) 4096 where
  segments :=
    [⟨[0x11, 0, 0, 0, 0, 0, 0, 0, 0, 0, 0, 0, 0], by decide⟩,
      ⟨[0x14, 0, 0, 0, 0, 1, 0, 0, 0, 4], by decide⟩,
      ⟨[0x14, 1, 0, 0, 4, 9, 0, 0, 0, 1, 0x52, 1, 0x6e, 4, 0x61, 0x75, 0x74, 0x68], by decide⟩,
      ⟨[0x14, 0, 0, 0, 4, 0, 0, 0, 0, 0x41, 0, 0, 0], by decide⟩, ⟨[0, 0, 0, 0], by decide⟩]
  err := .eof

/-- A host that knows the three hashes of that handshake for user `admin`, password `pw`. -/
def acceptingHost : Host where
  md5Sum s :=
    if s = str "admin:R:pw" then
      [0x5c, 0x3f, 0x8e, 0x56, 0xb1, 0x4d, 0x6d, 0x77,
        0x56, 0x58, 0xa3, 0x53, 0xa4, 0xcd, 0x9e, 0x49]
    else if s = str "POST:/RedirectionService" then
      [0x63, 0x71, 0x9a, 0xe5, 0x78, 0xd1, 0xb7, 0xff,
        0x84, 0xed, 0xbc, 0x57, 0x62, 0xbd, 0x65, 0x8b]
    else
      [0xab, 0x6f, 0xec, 0x1b, 0x6c, 0x28, 0x53, 0x79,
        0x23, 0x5b, 0x8f, 0x81, 0xf9, 0x9c, 0xd7, 0x79]
  random _ _ := 0xcc
  writeErr _ := none

def adminChallenge : Challenge := ⟨str "R", str "n", str "auth"⟩

/-- The response the handshake sends to it. -/
def adminResponse : Bytes :=
  digestResponse acceptingHost (str "admin") (str "pw") 4 adminChallenge (List.replicate 32 0x63)

/-- The rules of `Heeds`, with that response as the one that was sent. -/
def heedsAdmin (t : Session) : Bool :=
  match t.readCmd with
  | .error _ => true
  | .ok (cmd, payload, _) =>
      (cmd = 0x41 → t.authed = true) ∧
        (cmd = 0x14 → payload[3]?.getD 0 ≠ 0 → payload.head? = some 0 →
          .wrote adminResponse ∈ t.trace ∧ t.user = str "admin" ∧ t.pass = str "pw")

theorem heeds_of_heedsAdmin (h : heedsAdmin t = true) : Heeds acceptingHost t := by
  intro cmd payload s' hread
  unfold heedsAdmin at h
  rw [hread] at h
  obtain ⟨hflag, hsent⟩ := of_decide_eq_true h
  refine ⟨hflag, fun hcmd htype hstatus => ?_⟩
  obtain ⟨hmem, huser, hpass⟩ := hsent hcmd htype hstatus
  rw [huser, hpass]
  exact ⟨adminResponse, ⟨4, adminChallenge, _, .inr rfl, rfl⟩, hmem⟩

/-- The session after the start message to a given server. -/
def startedWith (conn : Source (BitVec 8) 4096) : Session :=
  (newSession conn (str "admin") (str "pw")).wrote startMessage

/-- An evaluation that ends well is a handshake that succeeds. -/
theorem handshake_of_run {conn : Source (BitVec 8) 4096} {n : Nat} {p : Session → Bool}
    (h : (Loop.run (turn acceptingHost) n (startedWith conn)).any
      (fun r => r.toOption.any p) = true) :
    ∃ s, Loop.run (turn acceptingHost) n (startedWith conn) = some (.ok s) ∧ p s = true ∧
      Handshake acceptingHost (newSession conn (str "admin") (str "pw")) (.ok s) := by
  obtain ⟨r, hr, hp⟩ := (Option.any_eq_true _ _).mp h
  cases r with
  | error e => cases hp
  | ok s => exact ⟨s, hr, hp, n, hr⟩

/-- The whole exchange with the accepting server. -/
theorem handshake_authenticated_admin :
    ∃ s, Handshake acceptingHost (newSession acceptingServer (str "admin") (str "pw")) (.ok s) ∧
      Authenticated acceptingHost (str "admin") (str "pw") s.trace := by
  have hrun : (Loop.run (turn acceptingHost) 5 (startedWith acceptingServer)).any
      (fun r => r.toOption.any fun _ => true) = true := by decide +kernel
  have hheads : ∀ t ∈ Loop.heads (turn acceptingHost) 5 (startedWith acceptingServer),
      heedsAdmin t = true := by decide +kernel
  obtain ⟨s, hreturn, -, hs⟩ := handshake_of_run hrun
  refine ⟨s, hs, (handshake_authenticated acceptingHost _ _ _ ?_).2 s hs⟩
  rintro t ⟨s₀, hstart, hvisits⟩
  rw [write_ok hstart] at hvisits
  exact heeds_of_heedsAdmin (hheads t (hvisits.mem_heads hreturn))

/-- A server that opens the session without any authentication. -/
def openServer : Source (BitVec 8) 4096 where
  segments := [⟨[0x41, 0, 0, 0, 0, 0, 0, 0], by decide⟩]
  err := .eof

/-- A lone KVM-accepted message completes the handshake. -/
theorem handshake_unauthenticated :
    ∃ s, Handshake acceptingHost (newSession openServer (str "admin") (str "pw")) (.ok s) ∧
      ¬ Authenticated acceptingHost (str "admin") (str "pw") s.trace := by
  have hrun : (Loop.run (turn acceptingHost) 1 (startedWith openServer)).any
      (fun r => r.toOption.any fun s => s.trace = [.wrote startMessage, .got 0x41 []]) = true := by
    decide +kernel
  obtain ⟨s, -, htrace, hs⟩ := handshake_of_run hrun
  refine ⟨s, hs, ?_⟩
  rintro ⟨before, after, payload, hsplit, -, -⟩
  have hmem : Event.got 0x14 payload ∈ s.trace := by
    rw [hsplit]
    simp
  rw [of_decide_eq_true htrace] at hmem
  simp at hmem

end Outband.Amt.Redir.Session
