import Outband.Amt.Redir.RfbClient
import Outband.Rfb.Messages

/-!
# Input events of the AMT client

The AMT client speaks RFB in the other direction: what the browser sends to the
RFB server goes on to the managed machine as the same messages. The three
messages it writes are encodings of the messages the server reads.
-/

namespace Outband.Amt.Redir

open Foundation Rfb

namespace RfbClient

variable (H : RfbHost)

def KeyEvent (c : RfbClient) (keysym : BitVec 32) (down : Bool) : Except Stop RfbClient :=
  c.write H ([4, if down then 1 else 0, 0, 0] ++ putUint 4 keysym.toNat)

/-- The coordinates are converted with `uint16`. -/
def PointerEvent (c : RfbClient) (x y : Int) (buttons : BitVec 8) : Except Stop RfbClient :=
  c.write H ([5, buttons] ++ putUint 2 (BitVec.ofInt 16 x).toNat ++
    putUint 2 (BitVec.ofInt 16 y).toNat)

variable (c : RfbClient)

theorem KeyEvent_eq_encode (keysym : BitVec 32) (down : Bool) :
    c.KeyEvent H keysym down =
      c.write H (ClientMessage.keyEvent (if down then 1 else 0) 0 keysym).encode := rfl

theorem PointerEvent_eq_encode (x y : BitVec 16) (buttons : BitVec 8) :
    c.PointerEvent H x.toNat y.toNat buttons =
      c.write H (ClientMessage.pointerEvent buttons x y).encode := by
  rw [PointerEvent, BitVec.ofInt_natCast, BitVec.ofInt_natCast, BitVec.ofNat_toNat,
    BitVec.ofNat_toNat, BitVec.setWidth_eq, BitVec.setWidth_eq]
  rfl

/-- The two bytes of a dimension. -/
theorem field_dimension (n : Nat) :
    Rfb.field 2 (BitVec.ofNat 16 n) = [BitVec.ofNat 8 (n / 256), BitVec.ofNat 8 n] := by
  have hhigh : BitVec.ofNat 8 (n % 65536 / 256) = BitVec.ofNat 8 (n / 256) := by
    apply BitVec.eq_of_toNat_eq
    simp only [BitVec.toNat_ofNat]
    omega
  have hlow : BitVec.ofNat 8 (n % 65536) = BitVec.ofNat 8 n := by
    apply BitVec.eq_of_toNat_eq
    simp only [BitVec.toNat_ofNat]
    omega
  simp only [Rfb.field, putUint, BitVec.toNat_ofNat, pow_one, pow_zero, Nat.div_one]
  change [BitVec.ofNat 8 (n % 65536 / 256), BitVec.ofNat 8 (n % 65536)] = _
  rw [hhigh, hlow]

theorem requestUpdate_eq_encode (incremental : Bool) :
    c.requestUpdate H incremental =
      c.write H (ClientMessage.framebufferUpdateRequest (if incremental then 1 else 0) 0 0
        (BitVec.ofNat 16 c.w) (BitVec.ofNat 16 c.h)).encode := by
  rw [requestUpdate, ClientMessage.encode, ClientMessage.body, field_dimension, field_dimension]
  rfl

end RfbClient

/-- The server reads every sequence of messages as what it stands for, the messages the AMT
client writes among them. -/
theorem client_messages_read (msgs : List ClientMessage) :
    (∀ rest, readMessages (msgs.flatMap ClientMessage.encode ++ rest) =
      (msgs.flatMap ClientMessage.effects ++ (readMessages rest).1, (readMessages rest).2)) ∧
    (readMessages (msgs.flatMap ClientMessage.encode)).2 = .eof ∧
    sinkCalls (readMessages (msgs.flatMap ClientMessage.encode)).1 =
      msgs.filterMap ClientMessage.event ∧
    (.desktopSizeOK ∈ (readMessages (msgs.flatMap ClientMessage.encode)).1 ↔
      ∃ m ∈ msgs, m.ListsDesktopSize) ∧
    ∀ (H : RfbHost) (c : RfbClient),
      (∀ keysym down, c.KeyEvent H keysym down =
        c.write H (ClientMessage.keyEvent (if down then 1 else 0) 0 keysym).encode) ∧
      (∀ (x y : BitVec 16) (buttons : BitVec 8), c.PointerEvent H x.toNat y.toNat buttons =
        c.write H (ClientMessage.pointerEvent buttons x y).encode) ∧
      ∀ incremental, c.requestUpdate H incremental =
        c.write H (ClientMessage.framebufferUpdateRequest (if incremental then 1 else 0) 0 0
          (BitVec.ofNat 16 c.w) (BitVec.ofNat 16 c.h)).encode := by
  have hread : readMessages (msgs.flatMap ClientMessage.encode) =
      (msgs.flatMap ClientMessage.effects, .eof) := by
    have happend := readMessages_flatMap_append msgs []
    have hend : readMessages [] = ([], .eof) := by rw [readMessages]
    rwa [hend, List.append_nil, List.append_nil] at happend
  refine ⟨readMessages_flatMap_append msgs, ?_, ?_, ?_, ?_⟩
  · rw [hread]
  · rw [hread]
    exact sinkCalls_flatMap msgs
  · rw [hread, List.mem_flatMap]
    exact exists_congr fun m => and_congr_right fun _ => m.desktopSizeOK_mem_effects
  · intro H c
    exact ⟨c.KeyEvent_eq_encode H, c.PointerEvent_eq_encode H, c.requestUpdate_eq_encode H⟩

end Outband.Amt.Redir
