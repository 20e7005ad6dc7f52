import Outband.Amt.Redir.Framing

/-!
# The Digest messages of the handshake

The client's two authentication messages are a header, the length of what
follows, and length-prefixed fields. The length is a sum over the fields as they
are; the prefix of a field is its length in one byte. A message reads back as the
fields it was made of exactly when each of them fits its prefix, and of all the
fields only the user name can be too long.
-/

namespace Outband.Amt.Redir

open Foundation

variable {E : Host} {s s' : Session} {payload msg f rest : Bytes} {fields : List Bytes}

/-! ### Length-prefixed fields -/

/-- `n` fields by the rule of `readLP`, and what follows them. -/
def readFields : Nat → Bytes → Except HandshakeError (List Bytes × Bytes)
  | 0, b => .ok ([], b)
  | n + 1, b => do
      let (f, rest) ← readLP b
      let (fs, rest) ← readFields n rest
      pure (f :: fs, rest)

/-- Fields one after the other, each behind its length. -/
def encodeFields (fields : List Bytes) : Bytes := fields.foldl appendLP []

theorem foldl_appendLP (fields : List Bytes) (b : Bytes) :
    fields.foldl appendLP b = b ++ fields.flatMap (appendLP []) := by
  induction fields generalizing b with
  | nil => simp
  | cons f fields ih =>
      rw [List.foldl_cons, ih, List.flatMap_cons, ← List.append_assoc]
      rfl

theorem encodeFields_cons (f : Bytes) (fields : List Bytes) :
    encodeFields (f :: fields) = BitVec.ofNat 8 f.length :: (f ++ encodeFields fields) := by
  unfold encodeFields
  rw [foldl_appendLP, foldl_appendLP]
  rfl

theorem length_encodeFields (fields : List Bytes) :
    (encodeFields fields).length = (fields.map fun f => f.length + 1).sum := by
  induction fields with
  | nil => rfl
  | cons f fields ih =>
      rw [encodeFields_cons, List.length_cons, List.length_append, ih, List.map_cons,
        List.sum_cons]
      omega

theorem length_encodeFields_le (h : ∀ f ∈ fields, f.length ≤ 255) :
    (encodeFields fields).length ≤ fields.length * 256 := by
  induction fields with
  | nil => exact le_rfl
  | cons f fields ih =>
      have hf := h f (by simp)
      have hfields := ih fun g hg => h g (by simp [hg])
      rw [encodeFields_cons, List.length_cons, List.length_append, List.length_cons]
      omega

/-- A field that fits its prefix is read back. -/
theorem readLP_prefixed (hf : f.length ≤ 255) (rest : Bytes) :
    readLP (BitVec.ofNat 8 f.length :: (f ++ rest)) = .ok (f, rest) := by
  have hlength : (BitVec.ofNat 8 f.length).toNat = f.length := by
    rw [BitVec.toNat_ofNat]
    omega
  unfold readLP
  dsimp only
  rw [hlength, if_neg (by simp), List.take_left, List.drop_left]

/-- What is read is no longer than a prefix can say. -/
theorem length_of_readLP {b : Bytes} (h : readLP b = .ok (f, rest)) : f.length ≤ 255 := by
  cases b with
  | nil => cases h
  | cons l b =>
      unfold readLP at h
      dsimp only at h
      split_ifs at h
      cases h
      have := l.isLt
      rw [List.length_take]
      omega

theorem readFields_encodeFields (h : ∀ f ∈ fields, f.length ≤ 255) (rest : Bytes) :
    readFields fields.length (encodeFields fields ++ rest) = .ok (fields, rest) := by
  induction fields with
  | nil => rfl
  | cons f fields ih =>
      rw [encodeFields_cons, List.cons_append, List.append_assoc, List.length_cons, readFields,
        readLP_prefixed (h f (by simp))]
      change (readFields fields.length _ >>= _) = _
      rw [ih fun g hg => h g (by simp [hg])]
      rfl

theorem length_of_readFields {n : Nat} {b : Bytes} (h : readFields n b = .ok (fields, rest)) :
    ∀ f ∈ fields, f.length ≤ 255 := by
  induction n generalizing b fields with
  | zero =>
      cases h
      simp
  | succ n ih =>
      obtain ⟨⟨f, rest₁⟩, hf, h⟩ := exists_of_bind_ok h
      obtain ⟨⟨fs, rest₂⟩, hfs, h⟩ := exists_of_bind_ok h
      cases h
      intro g hg
      rcases List.mem_cons.mp hg with rfl | hg
      · exact length_of_readLP hf
      · exact ih hfs g hg

/-! ### Messages -/

/-- A message declares the length of what follows it, and its fields are read back with
nothing left over. -/
structure SelfConsistent (fields : List Bytes) (msg : Bytes) : Prop where
  length_eq : leUint32 (msg.drop 5) = (msg.drop 9).length
  fields_eq : readFields fields.length (msg.drop 9) = .ok (fields, [])

/-- A message of the given fields. -/
def digestMessage (authType : BitVec 8) (fields : List Bytes) : Bytes :=
  appendU32LE [0x13, 0, 0, 0, authType] (encodeFields fields).length ++ encodeFields fields

theorem leUint32_appendU32LE {n : Nat} (hn : n < 2 ^ 32) (b rest : Bytes) :
    leUint32 ((appendU32LE b n ++ rest).drop b.length) = n := by
  unfold appendU32LE
  rw [List.append_assoc, List.drop_left]
  change (BitVec.ofNat 8 n).toNat + 256 * (BitVec.ofNat 8 (n / 256)).toNat +
      65536 * (BitVec.ofNat 8 (n / 65536)).toNat +
      16777216 * (BitVec.ofNat 8 (n / 16777216)).toNat = n
  simp only [BitVec.toNat_ofNat]
  omega

/-- A message is self-consistent exactly when its fields fit their prefixes. -/
theorem selfConsistent_digestMessage {authType : BitVec 8} (hcount : fields.length ≤ 8) :
    SelfConsistent fields (digestMessage authType fields) ↔ ∀ f ∈ fields, f.length ≤ 255 := by
  have hbody : (digestMessage authType fields).drop 9 = encodeFields fields := rfl
  constructor
  · intro h
    exact length_of_readFields h.fields_eq
  · intro hfits
    refine ⟨?_, ?_⟩
    · have hlength := length_encodeFields_le hfits
      rw [hbody]
      exact leUint32_appendU32LE (by omega) [0x13, 0, 0, 0, authType] _
    · rw [hbody]
      have := readFields_encodeFields hfits []
      rwa [List.append_nil] at this

/-! ### The request and the response -/

/-- The fields of the request: of the eight only the user and the URI are not empty. -/
def requestFields (user : Bytes) : List Bytes := [user, [], [], authURI, [], [], [], []]

/-- The fields of the response. -/
def responseFields (E : Host) (user pass : Bytes) (authType : BitVec 8) (c : Challenge)
    (cnonce : Bytes) : List Bytes :=
  [user, c.realm, c.nonce, authURI, cnonce, snc, digestOf E user pass authType c cnonce] ++
    if authType = 4 then [c.qop] else []

theorem digestRequest_eq (user : Bytes) :
    digestRequest user = digestMessage 4 (requestFields user) := by
  have hlength : (encodeFields (requestFields user)).length =
      user.length + authURI.length + 8 := by
    rw [length_encodeFields]
    simp [requestFields]
    omega
  unfold digestRequest digestMessage
  rw [hlength]
  simp [requestFields, encodeFields, appendLP]

theorem digestResponse_eq (E : Host) (user pass : Bytes) (authType : BitVec 8) (c : Challenge)
    (cnonce : Bytes) : digestResponse E user pass authType c cnonce =
      digestMessage authType (responseFields E user pass authType c cnonce) := by
  have hlength : (encodeFields (responseFields E user pass authType c cnonce)).length =
      user.length + c.realm.length + c.nonce.length + authURI.length + cnonce.length +
        snc.length + (digestOf E user pass authType c cnonce).length + 7 +
        if authType = 4 then c.qop.length + 1 else 0 := by
    rw [length_encodeFields]
    unfold responseFields
    split_ifs
    · simp
      omega
    · simp
      omega
  unfold digestResponse digestMessage
  dsimp only
  rw [hlength]
  unfold responseFields encodeFields
  rw [foldl_appendLP, foldl_appendLP, List.flatMap_append]
  split_ifs
  · simp [appendLP]
  · simp

/-- The fields that a challenge or a list of authentication types asks for. -/
def Session.answerFields (E : Host) (s : Session) (payload : Bytes) : List Bytes :=
  let authType := payload[3]?.getD 0
  let authData := (payload.drop 8).take (leUint32 (payload.drop 4))
  if authType = 0 then requestFields s.user
  else
    match parseDigestChallenge authData (authType = 4) with
    | .ok c => responseFields E s.user s.pass authType c (E.randomHex s.writes)
    | .error _ => []

/-- The fields of a challenge fit their prefixes. -/
theorem length_of_parseDigestChallenge {authData : Bytes} {withQOP : Bool} {c : Challenge}
    (h : parseDigestChallenge authData withQOP = .ok c) :
    c.realm.length ≤ 255 ∧ c.nonce.length ≤ 255 ∧ c.qop.length ≤ 255 := by
  obtain ⟨⟨realm, rest⟩, hrealm, h⟩ := exists_of_bind_ok h
  obtain ⟨⟨nonce, rest'⟩, hnonce, h⟩ := exists_of_bind_ok h
  cases withQOP with
  | false =>
      cases h
      exact ⟨length_of_readLP hrealm, length_of_readLP hnonce, by simp⟩
  | true =>
      obtain ⟨⟨qop, rest''⟩, hqop, h⟩ := exists_of_bind_ok h
      cases h
      exact ⟨length_of_readLP hrealm, length_of_readLP hnonce, length_of_readLP hqop⟩

/-- A challenge is read back from the encoding of its fields. -/
theorem parseDigestChallenge_encodeFields {realm nonce qop : Bytes} (hrealm : realm.length ≤ 255)
    (hnonce : nonce.length ≤ 255) (hqop : qop.length ≤ 255) (rest : Bytes) :
    parseDigestChallenge (encodeFields [realm, nonce, qop] ++ rest) true =
        .ok { realm, nonce, qop } ∧
      parseDigestChallenge (encodeFields [realm, nonce] ++ rest) false =
        .ok { realm, nonce, qop := [] } := by
  simp only [encodeFields_cons, List.cons_append, List.append_assoc]
  unfold parseDigestChallenge
  rw [readLP_prefixed hrealm, readLP_prefixed hrealm]
  constructor
  · change (readLP _ >>= _) = _
    rw [readLP_prefixed hnonce]
    change (readLP _ >>= _) = _
    rw [readLP_prefixed hqop]
    rfl
  · change (readLP _ >>= _) = _
    rw [readLP_prefixed hnonce]
    rfl

theorem length_hexEncode (b : Bytes) : (hexEncode b).length = 2 * b.length := by
  unfold hexEncode
  rw [List.length_flatMap]
  simp [Nat.mul_comm]

theorem length_randomHex (E : Host) (n : Nat) : (E.randomHex n).length = 32 := by
  unfold Host.randomHex
  rw [length_hexEncode, List.length_ofFn]

/-- Of all the fields only the user name can be too long for its prefix. -/
theorem responseFields_fit {pass cnonce user : Bytes} {authType : BitVec 8} {c : Challenge}
    (hmd5 : ∀ b, (E.md5Sum b).length = 16) (hcnonce : cnonce.length = 32)
    (hrealm : c.realm.length ≤ 255) (hnonce : c.nonce.length ≤ 255) (hqop : c.qop.length ≤ 255) :
    (∀ f ∈ responseFields E user pass authType c cnonce, f.length ≤ 255) ↔
      user.length ≤ 255 := by
  have hdigest : (digestOf E user pass authType c cnonce).length = 32 := by
    unfold digestOf md5hex
    rw [length_hexEncode, hmd5]
  have huri : authURI.length ≤ 255 := by decide
  have hsnc : snc.length ≤ 255 := by decide
  have hextra : ∀ f ∈ (if authType = 4 then [c.qop] else []), f.length ≤ 255 := by
    intro f hf
    split_ifs at hf
    · rwa [List.mem_singleton.mp hf]
    · cases hf
  unfold responseFields
  simp only [List.forall_mem_append, List.forall_mem_cons, List.not_mem_nil, false_implies,
    implies_true, and_true]
  constructor
  · rintro ⟨⟨huser, -⟩, -⟩
    exact huser
  · intro huser
    exact ⟨⟨huser, hrealm, hnonce, huri, by omega, hsnc, by omega⟩, hextra⟩

theorem requestFields_fit {user : Bytes} :
    (∀ f ∈ requestFields user, f.length ≤ 255) ↔ user.length ≤ 255 := by
  have huri : authURI.length ≤ 255 := by decide
  simp [requestFields, huri]

/-- The message written in answer to an authentication reply. -/
theorem handleAuthReply_wrote (h : s.handleAuthReply E payload = .ok (s.wrote msg)) :
    ∃ authType, msg = digestMessage authType (s.answerFields E payload) ∧
      (s.answerFields E payload = requestFields s.user ∨
        ∃ authData withQOP c, parseDigestChallenge authData withQOP = .ok c ∧
          s.answerFields E payload =
            responseFields E s.user s.pass authType c (E.randomHex s.writes)) := by
  have hmsg : ∀ bytes, s.wrote msg = s.wrote bytes → msg = bytes := by
    intro bytes heq
    have htrace := congrArg Session.trace heq
    simpa [Session.wrote] using htrace
  unfold Session.handleAuthReply at h
  unfold Session.answerFields
  dsimp only at h ⊢
  split_ifs at h with _ _ hzero _ hchallenge
  · rw [if_pos hzero]
    refine ⟨4, ?_, .inl rfl⟩
    rw [← digestRequest_eq]
    exact hmsg _ (Session.write_cases h)
  · rw [if_neg hzero]
    split at h
    case h_1 => cases h
    case h_2 c hc =>
      rw [hc]
      refine ⟨_, ?_, .inr ⟨_, _, c, hc, rfl⟩⟩
      rw [← digestResponse_eq]
      exact hmsg _ (Session.write_cases h)
  · have htrace := congrArg Session.trace (Except.ok.inj h)
    simp [Session.wrote] at htrace

/-- The Digest messages are self-consistent exactly when the user name fits its prefix; and a
challenge is read back from the encoding of its fields. -/
theorem handleAuthReply_selfConsistent_iff (E : Host) (s : Session)
    (hmd5 : ∀ b, (E.md5Sum b).length = 16) :
    (∀ payload msg, s.handleAuthReply E payload = .ok (s.wrote msg) →
      (SelfConsistent (s.answerFields E payload) msg ↔ s.user.length ≤ 255)) ∧
    ∀ realm nonce qop rest : Bytes, realm.length ≤ 255 → nonce.length ≤ 255 →
      qop.length ≤ 255 →
      parseDigestChallenge (encodeFields [realm, nonce, qop] ++ rest) true =
          .ok { realm, nonce, qop } ∧
        parseDigestChallenge (encodeFields [realm, nonce] ++ rest) false =
          .ok { realm, nonce, qop := [] } := by
  refine ⟨fun payload msg h => ?_, fun realm nonce qop rest hrealm hnonce hqop =>
    parseDigestChallenge_encodeFields hrealm hnonce hqop rest⟩
  obtain ⟨authType, rfl, hfields | ⟨authData, withQOP, c, hc, hfields⟩⟩ := handleAuthReply_wrote h
  · rw [hfields, selfConsistent_digestMessage le_rfl]
    exact requestFields_fit
  · obtain ⟨hrealm, hnonce, hqop⟩ := length_of_parseDigestChallenge hc
    have hcount :
        (responseFields E s.user s.pass authType c (E.randomHex s.writes)).length ≤ 8 := by
      unfold responseFields
      split_ifs <;> simp
    rw [hfields, selfConsistent_digestMessage hcount]
    exact responseFields_fit hmd5 (length_randomHex E _) hrealm hnonce hqop

/-- A host with a fixed digest and a fixed nonce. -/
def constantHost : Host where
  md5Sum := fun _ => List.replicate 16 0
  random := fun _ _ => 0
  writeErr := fun _ => none

/-- A list of authentication types that offers Digest. -/
def offersDigest : Bytes := [0, 0, 0, 0, 1, 0, 0, 0, 4]

/-- A session whose server says no more. -/
def silentSession (user : Bytes) : Session := newSession { segments := [], err := .eof } user []

theorem handleAuthReply_selfConsistent_admin :
    SelfConsistent (requestFields (str "admin")) (digestRequest (str "admin")) :=
  ((handleAuthReply_selfConsistent_iff constantHost (silentSession (str "admin"))
    (fun _ => List.length_replicate)).1
    offersDigest (digestRequest (str "admin")) rfl).mpr (by decide)

theorem handleAuthReply_silentSession (user : Bytes) :
    (silentSession user).handleAuthReply constantHost offersDigest =
      .ok ((silentSession user).wrote (digestRequest user)) := rfl

theorem getElem?_digestRequest (user : Bytes) :
    (digestRequest user)[9]? = some (BitVec.ofNat 8 user.length) := rfl

/-- A user name of 256 bytes is announced as empty. -/
theorem handleAuthReply_notSelfConsistent :
    (silentSession (List.replicate 256 0x61)).handleAuthReply constantHost offersDigest =
        .ok ((silentSession (List.replicate 256 0x61)).wrote
          (digestRequest (List.replicate 256 0x61))) ∧
      (digestRequest (List.replicate 256 0x61))[9]? = some 0 ∧
      ¬SelfConsistent (requestFields (List.replicate 256 0x61))
        (digestRequest (List.replicate 256 0x61)) := by
  refine ⟨handleAuthReply_silentSession _, ?_, fun h => ?_⟩
  · rw [getElem?_digestRequest, List.length_replicate]
    rfl
  · have huser := requestFields_fit.mp (length_of_readFields h.fields_eq)
    rw [List.length_replicate] at huser
    omega

end Outband.Amt.Redir
