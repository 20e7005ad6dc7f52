import Outband.Foundation.Utf8
import Outband.Amt.Redir.RfbInput

/-!
# Cut text on its way to the AMT client

The server hands the bytes of a ClientCutText message to the sink as a Go string,
and the AMT sink types the runes of that string. RFB cut text is Latin-1, where
each byte is a character. The two readings agree on ASCII and nowhere else: from
0x80 on, a byte is a part of a rune or no rune at all.
-/

namespace Outband.Amt.Redir

open Foundation Foundation.Utf8 Rfb

namespace RfbClient

variable (H : RfbHost)

/-- The sink's `KeyEvent`, which ignores the error of the write. -/
def tryKeyEvent (c : RfbClient) (keysym : BitVec 32) (down : Bool) : RfbClient :=
  match c.KeyEvent H keysym down with
  | .ok c => c
  | .error _ => c

def tryPointerEvent (c : RfbClient) (x y : Int) (buttons : BitVec 8) : RfbClient :=
  match c.PointerEvent H x y buttons with
  | .ok c => c
  | .error _ => c

/-- A key down and a key up. -/
def typeKey (c : RfbClient) (keysym : BitVec 32) : RfbClient :=
  (c.tryKeyEvent H keysym true).tryKeyEvent H keysym false

/-- The sink's `CutText`. Runes beyond Latin-1 are skipped. -/
def CutText (c : RfbClient) (text : Bytes) : RfbClient :=
  (runes text).foldl (fun c r => if r > 0xff then c else c.typeKey H (BitVec.ofNat 32 r)) c

/-- What the sink makes of an effect of the reader. -/
def hidSink (c : RfbClient) : Effect → RfbClient
  | .keyEvent keysym down => c.tryKeyEvent H keysym down
  | .pointerEvent x y buttons => c.tryPointerEvent H x y buttons
  | .cutText text => c.CutText H text
  | .desktopSizeOK | .request _ => c

variable {H} {c : RfbClient} {text : Bytes}

theorem CutText_eq_filter : c.CutText H text =
    (((runes text).filter (· ≤ 0xff)).map (BitVec.ofNat 32)).foldl (typeKey H) c := by
  unfold CutText
  induction runes text generalizing c with
  | nil => rfl
  | cons r rs ih =>
      rw [List.foldl_cons, ih]
      by_cases hr : r ≤ 0xff
      · rw [if_neg (Nat.not_lt.mpr hr), List.filter_cons_of_pos (by simpa using hr), List.map_cons,
          List.foldl_cons]
      · rw [if_pos (Nat.lt_of_not_le hr), List.filter_cons_of_neg (by simpa using hr)]

theorem written_tryKeyEvent (hwrite : ∀ n, H.writeErr n = none) (keysym : BitVec 32)
    (down : Bool) : (c.tryKeyEvent H keysym down).written = c.written ++
      [(ClientMessage.keyEvent (if down then 1 else 0) 0 keysym).encode] := by
  unfold tryKeyEvent
  rw [KeyEvent_eq_encode, write, hwrite]

theorem written_typeKey (hwrite : ∀ n, H.writeErr n = none) (keysym : BitVec 32) :
    (c.typeKey H keysym).written = c.written ++
      [(ClientMessage.keyEvent 1 0 keysym).encode, (ClientMessage.keyEvent 0 0 keysym).encode] := by
  unfold typeKey
  rw [written_tryKeyEvent hwrite, written_tryKeyEvent hwrite, List.append_assoc]
  rfl

/-- On a connection that takes every write, each key is two messages. -/
theorem length_foldl_typeKey (hwrite : ∀ n, H.writeErr n = none) (keysyms : List (BitVec 32)) :
    (keysyms.foldl (typeKey H) c).written.length = c.written.length + 2 * keysyms.length := by
  induction keysyms generalizing c with
  | nil => rfl
  | cons keysym keysyms ih =>
      rw [List.foldl_cons, ih, written_typeKey hwrite, List.length_append, List.length_cons]
      simp only [List.length_cons, List.length_nil]
      omega

/-- A host whose connection takes every write. -/
def openHost : RfbHost := ⟨fun _ => none, fun _ => none⟩

theorem openHost_writes (n : Nat) : openHost.writeErr n = none := rfl

/-- The sink types the bytes of a cut text as Latin-1 characters, and nothing else, exactly when
all of them are ASCII. -/
theorem cutText_latin1_iff (padding : BitVec 24) (text : { t : Bytes // t.length ≤ 1 <<< 20 }) :
    (∀ (H : RfbHost) (c : RfbClient),
      (readMessages (ClientMessage.clientCutText padding text).encode).1.foldl (hidSink H) c =
        (text.1.map (BitVec.setWidth 32)).foldl (typeKey H) c) ↔
      ∀ b ∈ text.1, b.toNat < 0x80 := by
  have hread : ∀ (H : RfbHost) (c : RfbClient),
      (readMessages (ClientMessage.clientCutText padding text).encode).1.foldl (hidSink H) c =
        (((runes text.1).filter (· ≤ 0xff)).map (BitVec.ofNat 32)).foldl (typeKey H) c := by
    intro H c
    have hmsg := readMessages_encode_append (.clientCutText padding text) []
    rw [List.append_nil] at hmsg
    rw [hmsg, ← CutText_eq_filter, readMessages]
    rfl
  constructor
  · intro h
    by_contra hascii
    push Not at hascii
    have hlt := length_filter_runes_lt (p := (· ≤ 0xff)) (by decide) hascii
    have hlength := congrArg (fun c : RfbClient => c.written.length)
      ((hread openHost {}).symm.trans (h openHost {}))
    simp only [length_foldl_typeKey openHost_writes, List.length_map] at hlength
    omega
  · intro hascii H c
    have hkept : (text.1.map BitVec.toNat).filter (· ≤ 0xff) = text.1.map BitVec.toNat := by
      rw [List.filter_eq_self]
      intro n hn
      obtain ⟨b, -, rfl⟩ := List.mem_map.mp hn
      exact decide_eq_true (Nat.lt_succ_iff.mp b.isLt)
    rw [hread, runes_of_ascii hascii, hkept, List.map_map]
    exact congrArg (List.foldl _ c) (List.map_congr_left fun b _ => BitVec.ofNat_toNat 32 b)

/-- Nothing is sent for the byte 0xe9, which is a letter in Latin-1. -/
theorem cutText_latin1_letter :
    ((readMessages (ClientMessage.clientCutText 0 ⟨[0xe9], by decide⟩).encode).1.foldl
      (hidSink openHost) {}).written = [] ∧
    (([(0xe9 : BitVec 8)].map (BitVec.setWidth 32)).foldl (typeKey openHost) {}).written =
      [[4, 1, 0, 0, 0, 0, 0, 0xe9], [4, 0, 0, 0, 0, 0, 0, 0xe9]] := by
  refine ⟨?_, rfl⟩
  have hmsg := readMessages_encode_append (.clientCutText 0 ⟨[0xe9], by decide⟩) []
  rw [List.append_nil] at hmsg
  rw [hmsg, readMessages]
  rfl

end RfbClient

end Outband.Amt.Redir
