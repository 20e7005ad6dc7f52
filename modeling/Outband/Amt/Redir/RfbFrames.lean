import Outband.Amt.Redir.RfbSafety
import Outband.Foundation.BigEndian

/-!
# The frames the AMT client emits

Only the handshake and DesktopSize rectangles change the size of the
framebuffer, and both read it from 16-bit fields. Every other rectangle draws
into the framebuffer it finds. A frame that is emitted has four bytes a pixel
and a size of 16 bits each way.
-/

namespace Outband.Amt.Redir

open Foundation

namespace RfbClient

variable {H : RfbHost} {c c' : RfbClient}

theorem bigEndian_eq_getUint (b : Bytes) : bigEndian b = getUint b := by
  rw [bigEndian, getUint, ofDigitsMsb, List.foldl_map]

theorem bigEndian_lt (b : Bytes) : bigEndian b < 256 ^ b.length := by
  rw [bigEndian_eq_getUint]
  exact getUint_lt b

/-- The size of the framebuffer stays. -/
def SameSize (c c' : RfbClient) : Prop := c'.w = c.w ∧ c'.h = c.h

theorem size_write (c : RfbClient) (msg : Bytes) :
    Meets (c.write H msg) c.SameSize fun _ => True := by
  unfold write
  split
  · trivial
  · exact ⟨rfl, rfl⟩

theorem size_decodeLRE (c : RfbClient) (data : Bytes) (x y : Int) (tw th : Nat) :
    Meets (c.decodeLRE data x y tw th) c.SameSize fun _ => True := by
  unfold decodeLRE
  split
  · trivial
  · apply (Meets.trivial _).bind
    intro tile _
    split
    · exact ⟨rfl, rfl⟩
    · apply (Meets.trivial _).bind
      intro fb _
      exact ⟨rfl, rfl⟩

theorem size_blitRAW (c : RfbClient) (x y : Int) (tw th : Nat) (data : Bytes) :
    Meets (c.blitRAW x y tw th data) c.SameSize fun _ => True := by
  unfold blitRAW
  split
  · exact ⟨rfl, rfl⟩
  · split_ifs
    · exact ⟨rfl, rfl⟩
    · apply (Meets.trivial _).bind
      intro raw _
      split <;> exact ⟨rfl, rfl⟩

theorem size_readRLE (c : RfbClient) (x y w h : Nat) (input : Bytes) :
    Meets (c.readRLE H x y w h input) (fun r => c.SameSize r.1) fun _ => True := by
  unfold readRLE
  apply (Meets.trivial _).bind
  rintro ⟨lenBuf, input₂⟩ _
  dsimp only
  split_ifs
  · trivial
  · apply (Meets.trivial _).bind
    rintro ⟨wrapped, input₃⟩ _
    apply (Meets.trivial _).bind
    intro payload _
    apply (size_decodeLRE c payload _ _ _ _).bind
    intro c' hsize
    exact hsize

/-- A size that fits the fields of a rectangle header. -/
def Size16 (c : RfbClient) : Prop := c.w < 65536 ∧ c.h < 65536

theorem SameSize.size16 (h : c.SameSize c') (hc : c.Size16) : c'.Size16 := by
  rw [Size16, h.1, h.2]
  exact hc

theorem slice_lt (b : Bytes) (i : Nat) : bigEndian (slice b i (i + 2)) < 65536 := by
  have hlength : (slice b i (i + 2)).length ≤ 2 := by
    rw [slice, List.length_drop, List.length_take]
    omega
  calc
    bigEndian (slice b i (i + 2)) < 256 ^ (slice b i (i + 2)).length := bigEndian_lt _
    _ ≤ 256 ^ 2 := Nat.pow_le_pow_right (by decide) hlength
    _ = 65536 := by decide

/-- A rectangle leaves a framebuffer whose size fits a header. -/
theorem readRect_size16 {input input' : Bytes} (hc : c.Size16)
    (h : readRect H (c, input) = .ok (c', input')) : c'.Size16 := by
  have hmeets : Meets (readRect H (c, input)) (fun r => r.1.Size16) fun _ => True := by
    apply (Meets.trivial _).bind
    rintro ⟨hdr, rest⟩ _
    change Meets (c.readRectBody H (rectHeader hdr) rest) _ _
    unfold readRectBody
    split_ifs
    · have hresized : (c.resize (rectHeader hdr).w (rectHeader hdr).h).Size16 :=
        ⟨slice_lt hdr 4, slice_lt hdr 6⟩
      apply (size_write _ _).bind
      intro c₁ hsize
      exact hsize.size16 hresized
    · apply (Meets.trivial _).bind
      rintro ⟨data, rest'⟩ _
      apply (size_blitRAW c _ _ _ _ data).bind
      intro c₁ hsize
      exact hsize.size16 hc
    · exact (size_readRLE c _ _ _ _ rest).imp fun r hsize => hsize.size16 hc
    · trivial
  exact hmeets.of_eq_ok h

theorem readRect_fits {input input' : Bytes} (hc : c.Fits)
    (h : readRect H (c, input) = .ok (c', input')) : c'.Fits := by
  have hrange : RectInRange H (c, input) := by
    by_contra hrange
    rw [readRect_panics hrange] at h
    cases h
  exact ((readRect_safe hc hrange).of_eq_ok h).1

/-- The clients that a handshake, any rectangles and resizes, and the client's own requests leave
behind. -/
inductive Painted (H : RfbHost) : RfbClient → Prop
  | handshake (c : RfbClient) (w h : BitVec 16) : Painted H (c.resize w.toNat h.toNat)
  | rect {c c' : RfbClient} {input input' : Bytes} (run : Painted H c)
      (done : readRect H (c, input) = .ok (c', input')) : Painted H c'
  | emitted {c : RfbClient} (run : Painted H c) : Painted H c.emit
  | requested {c c' : RfbClient} {incremental : Bool} (run : Painted H c)
      (done : c.requestUpdate H incremental = .ok c') : Painted H c'

theorem Painted.sized (h : Painted H c) : c.Fits ∧ c.Size16 := by
  induction h with
  | handshake c w h => exact ⟨resize_fits c _ _, w.isLt, h.isLt⟩
  | rect _ done ih => exact ⟨readRect_fits ih.1 done, readRect_size16 ih.2 done⟩
  | emitted _ ih =>
      refine ⟨emit_fits ih.1, ?_⟩
      unfold emit
      split
      · exact ih.2
      · exact ih.2
  | requested _ done ih =>
      refine ⟨?_, ((size_write _ _).of_eq_ok done).size16 ih.2⟩
      exact (write_fits ih.1 _).of_eq_ok done

/-- The frame that `emit` hands out. -/
def Emits (c : RfbClient) (frame : Nat × Nat × Bytes) : Prop :=
  c.emit.frames = c.frames ++ [frame]

theorem Painted.emits (hc : Painted H c) {w h : Nat} {pix : Bytes} (hemit : c.Emits (w, h, pix)) :
    w < 65536 ∧ h < 65536 ∧ pix.length = w * h * 4 := by
  obtain ⟨hfits, hsize⟩ := hc.sized
  unfold Emits emit at hemit
  split at hemit
  next b pix' hfb =>
    have hframe := List.append_cancel_left hemit
    simp only [List.cons.injEq, Prod.mk.injEq, and_true] at hframe
    obtain ⟨rfl, rfl, rfl⟩ := hframe
    exact ⟨hsize.1, hsize.2, hfits _ hfb⟩
  next =>
    have hlength := congrArg List.length hemit
    simp at hlength

end RfbClient

end Outband.Amt.Redir
