import Outband.Foundation.BigEndian

/-!
# Client messages of the RFB server

`readMessages` (`internal/rfb/server.go`) is the goroutine that reads what the
browser sends. Six message formats share its loop. What a message does outside
the loop is an `Effect`: a call of the sink, a request put to the channel, or
the flag that announces DesktopSize.

`ClientMessage` is the other side, the messages a client may send with the bytes
of each as the protocol lays them out.

## Implementation notes

A message that ends early has had the effects of the part that was read, so the
effects stand beside the outcome and not inside it. A request is an effect of
its own: whether the channel takes it depends on `Serve`.
-/

namespace Outband.Rfb

open Foundation

abbrev Bytes := List (BitVec 8)

/-- The errors `readMessages` hands to `Serve`. -/
inductive ReadError
  | eof
  | unexpectedEOF
  | cutTextLength (n : Nat)
  | unknownType (typ : BitVec 8)
  deriving DecidableEq, Repr

/-- What reading a message does outside the reader. -/
inductive Effect
  | desktopSizeOK
  | request (incremental : Bool)
  | keyEvent (keysym : BitVec 32) (down : Bool)
  | pointerEvent (x y : Nat) (buttons : BitVec 8)
  | cutText (text : Bytes)
  deriving DecidableEq, Repr

def msgSetPixelFormat : BitVec 8 := 0
def msgSetEncodings : BitVec 8 := 2
def msgFramebufferUpdateRequest : BitVec 8 := 3
def msgKeyEvent : BitVec 8 := 4
def msgPointerEvent : BitVec 8 := 5
def msgClientCutText : BitVec 8 := 6

/-- The DesktopSize pseudo-encoding, -223. -/
def encDesktopSize : BitVec 32 := BitVec.ofInt 32 (-223)

/-! ### The reader -/

/-- What has been done so far, and the rest of the input or the reason to stop. -/
abbrev Outcome := List Effect × Except ReadError Bytes

/-- `io.ReadFull`: a stream that ends inside the field ends unexpectedly. -/
def readFull (n : Nat) (input : Bytes) : Except ReadError (Bytes × Bytes) :=
  if n ≤ input.length then .ok (input.take n, input.drop n)
  else .error (if input = [] then .eof else .unexpectedEOF)

/-- `Reader.Discard`. -/
def discard (n : Nat) (input : Bytes) : Except ReadError Bytes :=
  if n ≤ input.length then .ok (input.drop n) else .error .eof

/-- A field of `n` bytes and what its reader makes of it. -/
def withField (n : Nat) (input : Bytes) (k : Bytes → Bytes → Outcome) : Outcome :=
  match readFull n input with
  | .error e => ([], .error e)
  | .ok (b, rest) => k b rest

/-- The list of `n` encodings. -/
def readEncodings : Nat → Bytes → Outcome
  | 0, input => ([], .ok input)
  | n + 1, input =>
      withField 4 input fun e rest =>
        let (effects, out) := readEncodings n rest
        (if BitVec.ofNat 32 (getUint e) = encDesktopSize then .desktopSizeOK :: effects
          else effects, out)

/-- The bytes `b[i:j]`. -/
def slice (b : Bytes) (i j : Nat) : Bytes := (b.take j).drop i

/-- One message behind its type byte. -/
def readBody (typ : BitVec 8) (input : Bytes) : Outcome :=
  if typ = msgSetPixelFormat then ([], discard 19 input)
  else if typ = msgSetEncodings then
    withField 3 input fun b rest => readEncodings (getUint (slice b 1 3)) rest
  else if typ = msgFramebufferUpdateRequest then
    withField 9 input fun b rest => ([.request (decide (b[0]?.getD 0 ≠ 0))], .ok rest)
  else if typ = msgKeyEvent then
    withField 7 input fun b rest =>
      ([.keyEvent (BitVec.ofNat 32 (getUint (slice b 3 7))) (decide (b[0]?.getD 0 ≠ 0))], .ok rest)
  else if typ = msgPointerEvent then
    withField 5 input fun b rest =>
      ([.pointerEvent (getUint (slice b 1 3)) (getUint (slice b 3 5)) (b[0]?.getD 0)], .ok rest)
  else if typ = msgClientCutText then
    withField 7 input fun b rest =>
      let n := getUint (slice b 3 7)
      if n > 1 <<< 20 then ([], .error (.cutTextLength n))
      else withField n rest fun text rest => ([.cutText text], .ok rest)
  else ([], .error (.unknownType typ))

/-! ### The loop -/

/-- What is left of the input when a part of it has been read. -/
def LeavesAtMost (n : Nat) (o : Outcome) : Prop := ∀ rest, o.2 = .ok rest → rest.length ≤ n

theorem readFull_length {n : Nat} {input b rest : Bytes}
    (h : readFull n input = .ok (b, rest)) : rest.length ≤ input.length := by
  rw [readFull] at h
  split at h
  · cases h
    simp
  · cases h

theorem withField_leaves {n m : Nat} {input : Bytes} {k : Bytes → Bytes → Outcome}
    (hk : ∀ b rest, rest.length ≤ input.length → LeavesAtMost m (k b rest)) :
    LeavesAtMost m (withField n input k) := by
  rw [withField]
  split
  case h_1 => intro rest h; cases h
  case h_2 b rest hread => exact hk b rest (readFull_length hread)

theorem leaves_ok {m : Nat} {effects : List Effect} {rest : Bytes} (h : rest.length ≤ m) :
    LeavesAtMost m (effects, .ok rest) := by
  intro rest' heq
  cases heq
  exact h

theorem leaves_error {m : Nat} {effects : List Effect} {e : ReadError} :
    LeavesAtMost m (effects, .error e) := by
  intro rest heq
  cases heq

theorem readEncodings_leaves {n m : Nat} {input : Bytes} (h : input.length ≤ m) :
    LeavesAtMost m (readEncodings n input) := by
  induction n generalizing input with
  | zero => exact leaves_ok h
  | succ n ih =>
      refine withField_leaves ?_
      intro e rest hrest
      exact ih (hrest.trans h)

theorem readBody_leaves (typ : BitVec 8) (input : Bytes) :
    LeavesAtMost input.length (readBody typ input) := by
  rw [readBody]
  split_ifs
  · intro rest h
    change discard 19 input = .ok rest at h
    rw [discard] at h
    split_ifs at h
    cases h
    simp
  · exact withField_leaves fun b rest h => readEncodings_leaves h
  · exact withField_leaves fun b rest h => leaves_ok h
  · exact withField_leaves fun b rest h => leaves_ok h
  · exact withField_leaves fun b rest h => leaves_ok h
  · refine withField_leaves ?_
    intro b rest h
    dsimp only
    split_ifs
    · exact leaves_error
    · exact withField_leaves fun text rest' h' => leaves_ok (h'.trans h)
  · exact leaves_error

/-- `readMessages`, on everything the client sends before it closes the connection: the effects
and the error that ends the loop. -/
def readMessages (input : Bytes) : List Effect × ReadError :=
  match input with
  | [] => ([], .eof)
  | typ :: input =>
      let effects := (readBody typ input).1
      match hrest : (readBody typ input).2 with
      | .error e => (effects, e)
      | .ok rest =>
          let (more, e) := readMessages rest
          (effects ++ more, e)
termination_by input.length
decreasing_by
  have := readBody_leaves typ input rest hrest
  simp only [List.length_cons]
  omega

/-- The calls of the sink among the effects. -/
def sinkCalls (effects : List Effect) : List Effect :=
  effects.filter fun
    | .keyEvent .. | .pointerEvent .. | .cutText .. => true
    | .desktopSizeOK | .request _ => false

/-! ### The client's side -/

/-- A message of the client, its padding and flag bytes included. The bounds are those of the
formats and of the cap on pasted text. -/
inductive ClientMessage
  | setPixelFormat (body : { b : Bytes // b.length = 19 })
  | setEncodings (padding : BitVec 8)
      (encodings : { l : List (BitVec 32) // l.length ≤ 65535 })
  | framebufferUpdateRequest (incremental : BitVec 8) (x y w h : BitVec 16)
  | keyEvent (down : BitVec 8) (padding : BitVec 16) (key : BitVec 32)
  | pointerEvent (buttons : BitVec 8) (x y : BitVec 16)
  | clientCutText (padding : BitVec 24) (text : { t : Bytes // t.length ≤ 1 <<< 20 })

/-- A field of 16 or 32 bits. -/
def field {width : Nat} (bytes : Nat) (v : BitVec width) : Bytes := putUint bytes v.toNat

@[simp] theorem length_field {width bytes : Nat} (v : BitVec width) :
    (field bytes v).length = bytes := length_putUint _ _

namespace ClientMessage

def typ : ClientMessage → BitVec 8
  | setPixelFormat _ => msgSetPixelFormat
  | setEncodings _ _ => msgSetEncodings
  | framebufferUpdateRequest .. => msgFramebufferUpdateRequest
  | keyEvent .. => msgKeyEvent
  | pointerEvent .. => msgPointerEvent
  | clientCutText _ _ => msgClientCutText

/-- The bytes of a message behind its type. -/
def body : ClientMessage → Bytes
  | setPixelFormat b => b.1
  | setEncodings padding encodings =>
      padding :: putUint 2 encodings.1.length ++ encodings.1.flatMap (field 4)
  | framebufferUpdateRequest incremental x y w h =>
      incremental :: field 2 x ++ field 2 y ++ field 2 w ++ field 2 h
  | keyEvent down padding key => down :: field 2 padding ++ field 4 key
  | pointerEvent buttons x y => buttons :: field 2 x ++ field 2 y
  | clientCutText padding text => field 3 padding ++ putUint 4 text.1.length ++ text.1

def encode (m : ClientMessage) : Bytes := m.typ :: m.body

/-- What the server does for a message. -/
def effects : ClientMessage → List Effect
  | setPixelFormat _ => []
  | setEncodings _ encodings =>
      (encodings.1.filter (· = encDesktopSize)).map fun _ => .desktopSizeOK
  | framebufferUpdateRequest incremental _ _ _ _ => [.request (decide (incremental ≠ 0))]
  | keyEvent down _ key => [.keyEvent key (decide (down ≠ 0))]
  | pointerEvent buttons x y => [.pointerEvent x.toNat y.toNat buttons]
  | clientCutText _ text => [.cutText text.1]

/-- The call of the sink a message stands for. -/
def event : ClientMessage → Option Effect
  | keyEvent down _ key => some (.keyEvent key (decide (down ≠ 0)))
  | pointerEvent buttons x y => some (.pointerEvent x.toNat y.toNat buttons)
  | clientCutText _ text => some (.cutText text.1)
  | setPixelFormat _ | setEncodings _ _ | framebufferUpdateRequest .. => none

/-- The message lists DesktopSize among its encodings. -/
def ListsDesktopSize : ClientMessage → Prop
  | setEncodings _ encodings => encDesktopSize ∈ encodings.1
  | _ => False

end ClientMessage

/-! ### The round trip -/

theorem withField_append {n : Nat} {b rest : Bytes} (k : Bytes → Bytes → Outcome)
    (h : b.length = n) : withField n (b ++ rest) k = k b rest := by
  subst h
  rw [withField, readFull, if_pos (by simp), List.take_left, List.drop_left]

theorem getUint_field {width bytes : Nat} (v : BitVec width) (h : 2 ^ width ≤ 256 ^ bytes) :
    getUint (field bytes v) = v.toNat :=
  getUint_putUint_of_lt (v.isLt.trans_le h)

/-- A field of a message, found at its offset. -/
theorem slice_append (before b after : Bytes) {i j : Nat} (hi : before.length = i)
    (hj : i + b.length = j) : slice (before ++ (b ++ after)) i j = b := by
  subst hi hj
  rw [slice, ← List.append_assoc, ← List.length_append, List.take_left, List.drop_left]

theorem readEncodings_append (encodings : List (BitVec 32)) (rest : Bytes) :
    readEncodings encodings.length (encodings.flatMap (field 4) ++ rest) =
      ((encodings.filter (· = encDesktopSize)).map fun _ => .desktopSizeOK, .ok rest) := by
  induction encodings with
  | nil => rfl
  | cons e encodings ih =>
      rw [List.flatMap_cons, List.append_assoc, List.length_cons, readEncodings,
        withField_append _ (length_field e), ih, getUint_field e (by decide),
        BitVec.ofNat_toNat, BitVec.setWidth_eq]
      dsimp only
      by_cases he : e = encDesktopSize
      · rw [if_pos he, List.filter_cons_of_pos (by simpa using he), List.map_cons]
      · rw [if_neg he, List.filter_cons_of_neg (by simpa using he)]

/-- A message of the client is read whole and does what it stands for. -/
theorem readBody_append (m : ClientMessage) (rest : Bytes) :
    readBody m.typ (m.body ++ rest) = (m.effects, .ok rest) := by
  cases m with
  | setPixelFormat b =>
      change ([], discard 19 (b.1 ++ rest)) = _
      rw [discard, if_pos (by simp [b.2]), List.drop_left' b.2]
      rfl
  | setEncodings padding encodings =>
      change readBody msgSetEncodings (padding :: putUint 2 encodings.1.length ++
        encodings.1.flatMap (field 4) ++ rest) = _
      have hcount : slice (padding :: putUint 2 encodings.1.length) 1 3 =
          putUint 2 encodings.1.length := by
        simpa using slice_append [padding] (putUint 2 encodings.1.length) [] rfl (by simp)
      rw [readBody, if_neg (by decide), if_pos rfl, List.append_assoc,
        withField_append _ (by simp), hcount,
        getUint_putUint_of_lt (lt_of_le_of_lt encodings.2 (by decide)), readEncodings_append]
      rfl
  | framebufferUpdateRequest incremental x y w h =>
      change readBody msgFramebufferUpdateRequest
        (incremental :: field 2 x ++ field 2 y ++ field 2 w ++ field 2 h ++ rest) = _
      rw [readBody, if_neg (by decide), if_neg (by decide), if_pos rfl,
        withField_append _ (by simp)]
      rfl
  | keyEvent down padding key =>
      change readBody msgKeyEvent (down :: field 2 padding ++ field 4 key ++ rest) = _
      have hkey : slice (down :: field 2 padding ++ field 4 key) 3 7 = field 4 key := by
        simpa using slice_append (down :: field 2 padding) (field 4 key) [] (by simp) (by simp)
      rw [readBody, if_neg (by decide), if_neg (by decide), if_neg (by decide),
        if_pos rfl, withField_append _ (by simp), hkey, getUint_field key (by decide),
        BitVec.ofNat_toNat, BitVec.setWidth_eq]
      rfl
  | pointerEvent buttons x y =>
      change readBody msgPointerEvent (buttons :: field 2 x ++ field 2 y ++ rest) = _
      have hx : slice (buttons :: field 2 x ++ field 2 y) 1 3 = field 2 x :=
        slice_append [buttons] (field 2 x) (field 2 y) rfl (by simp)
      have hy : slice (buttons :: field 2 x ++ field 2 y) 3 5 = field 2 y := by
        simpa using slice_append (buttons :: field 2 x) (field 2 y) [] (by simp) (by simp)
      rw [readBody, if_neg (by decide), if_neg (by decide), if_neg (by decide),
        if_neg (by decide), if_pos rfl, withField_append _ (by simp), hx, hy,
        getUint_field x (by decide), getUint_field y (by decide)]
      rfl
  | clientCutText padding text =>
      change readBody msgClientCutText
        (field 3 padding ++ putUint 4 text.1.length ++ text.1 ++ rest) = _
      have hlength : slice (field 3 padding ++ putUint 4 text.1.length) 3 7 =
          putUint 4 text.1.length := by
        simpa using slice_append (field 3 padding) (putUint 4 text.1.length) [] (by simp) (by simp)
      rw [readBody, if_neg (by decide), if_neg (by decide), if_neg (by decide),
        if_neg (by decide), if_neg (by decide), if_pos rfl, List.append_assoc,
        withField_append _ (by simp), hlength,
        getUint_putUint_of_lt (lt_of_le_of_lt text.2 (by decide))]
      dsimp only
      rw [if_neg (Nat.not_lt.mpr text.2), withField_append _ rfl]
      rfl

theorem readMessages_encode_append (m : ClientMessage) (rest : Bytes) :
    readMessages (m.encode ++ rest) =
      (m.effects ++ (readMessages rest).1, (readMessages rest).2) := by
  rw [ClientMessage.encode, List.cons_append, readMessages]
  split
  case h_1 e h =>
    rw [readBody_append] at h
    cases h
  case h_2 rest' h =>
    rw [readBody_append] at h ⊢
    cases h
    rfl

/-- No message of a sequence ends the loop, whatever comes behind it. -/
theorem readMessages_flatMap_append (msgs : List ClientMessage) (rest : Bytes) :
    readMessages (msgs.flatMap ClientMessage.encode ++ rest) =
      (msgs.flatMap ClientMessage.effects ++ (readMessages rest).1, (readMessages rest).2) := by
  induction msgs with
  | nil => rfl
  | cons m msgs ih =>
      rw [List.flatMap_cons, List.append_assoc, readMessages_encode_append, ih, List.flatMap_cons,
        List.append_assoc]

theorem ClientMessage.sinkCalls_effects (m : ClientMessage) :
    sinkCalls m.effects = m.event.toList := by
  cases m with
  | setEncodings padding encodings =>
      apply List.filter_eq_nil_iff.mpr
      intro e he
      obtain ⟨-, -, rfl⟩ := List.mem_map.mp he
      decide
  | _ => rfl

theorem sinkCalls_flatMap (msgs : List ClientMessage) :
    sinkCalls (msgs.flatMap ClientMessage.effects) = msgs.filterMap ClientMessage.event := by
  induction msgs with
  | nil => rfl
  | cons m msgs ih =>
      have hm := m.sinkCalls_effects
      rw [sinkCalls] at hm ih ⊢
      rw [List.flatMap_cons, List.filter_append, hm, ih, List.filterMap_cons]
      cases m.event <;> rfl

theorem ClientMessage.desktopSizeOK_mem_effects (m : ClientMessage) :
    .desktopSizeOK ∈ m.effects ↔ m.ListsDesktopSize := by
  cases m <;> simp [effects, ListsDesktopSize]

end Outband.Rfb
