import Mathlib.Tactic.Common
import Outband.Foundation.Checked
import Outband.Kvm.Codec.Tables

/-!
# The bit reader of the AMI video codec

A translation of `internal/kvm/codec/bitreader.go`. The payload is a slice of
32-bit words whose first two are working registers: word 0 holds the next 32
bits, word 1 the `newbits` bits behind them, and `index` is the next word to
refill from. There are two ways to consume bits. `skipKbits` goes back to the
last word when the payload is exhausted; `updateReadBuf` does not.

`Advances b r r'` is what both guarantee: the payload keeps its length, `index`
never moves back, and as long as there are words left at least `b` bits have
been consumed.
-/

namespace Outband.Kvm.Codec

open Foundation

/-- The words, the refill index and the valid bits in word 1. -/
structure Reader where
  recv : List (BitVec 32) := []
  index : Nat := 0
  newbits : Nat := 0
  deriving DecidableEq, Repr

namespace Reader

/-- The top `b` bits of word 0. -/
def lookKbits (r : Reader) (b : Nat) : Except Site (BitVec 16) := do
  let r0 ← rdSlice .recv r.recv 0
  pure ((r0 >>> (32 - b)).setWidth 16)

/-- Both registers moved on by `b` bits, without a refill. -/
def shift (r : Reader) (b : Nat) : Except Site Reader := do
  let r0 ← rdSlice .recv r.recv 0
  let r1 ← rdSlice .recv r.recv 1
  let recv ← wrSlice .recv r.recv 0 ((r0 <<< b) ||| (r1 >>> (32 - b)))
  let recv ← wrSlice .recv recv 1 (r1 <<< b)
  pure { r with recv := recv, newbits := r.newbits - b }

/-- The refill index of `skipKbits`, moved back to the last word when it is past it. -/
def clampedIndex (r : Reader) : Nat :=
  if r.recv.length - 1 < r.index then r.recv.length - 1 else r.index

def skipKbits (r : Reader) (b : Nat) : Except Site Reader :=
  if r.newbits ≤ b then do
    let r0 ← rdSlice .recv r.recv 0
    let r1 ← rdSlice .recv r.recv 1
    let refill ← rdSlice .recv r.recv r.clampedIndex
    let low := (r1.setWidth 64 ||| (refill.setWidth 64 >>> r.newbits)) >>> (32 - b)
    let recv ← wrSlice .recv r.recv 0 ((r0 <<< b) ||| low.setWidth 32)
    let recv ← wrSlice .recv recv 1 (refill <<< (b - r.newbits))
    pure { recv := recv, index := r.clampedIndex + 1, newbits := 32 + r.newbits - b }
  else r.shift b

def updateReadBuf (r : Reader) (i : Nat) : Except Site Reader :=
  if r.newbits ≤ i then do
    let readbuf ← rdSlice .recv r.recv r.index
    let r0 ← rdSlice .recv r.recv 0
    let r1 ← rdSlice .recv r.recv 1
    let low := (r1.setWidth 64 ||| (readbuf.setWidth 64 >>> r.newbits)) >>> (32 - i)
    let recv ← wrSlice .recv r.recv 0 (((r0.setWidth 64 <<< i) ||| low).setWidth 32)
    let recv ← wrSlice .recv recv 1 ((readbuf.setWidth 64 <<< (i - r.newbits)).setWidth 32)
    pure { recv := recv, index := r.index + 1, newbits := 32 + r.newbits - i }
  else do
    let r0 ← rdSlice .recv r.recv 0
    let r1 ← rdSlice .recv r.recv 1
    let low := r1.setWidth 64 >>> (32 - i)
    let recv ← wrSlice .recv r.recv 0 (((r0.setWidth 64 <<< i) ||| low).setWidth 32)
    let recv ← wrSlice .recv recv 1 ((r1.setWidth 64 <<< i).setWidth 32)
    pure { r with recv := recv, newbits := r.newbits - i }

/-- Read `b` bits; a value whose first bit is 0 stands for a negative number. -/
def getKbits (r : Reader) (b : Nat) : Except Site (Reader × BitVec 16) := do
  let value ← r.lookKbits b
  if BitVec.ofNat 16 (1 <<< (b - 1)) &&& value = 0 then do
    let neg ← rd .negPow2 negPow2 b
    let r ← r.skipKbits b
    pure (r, value + neg)
  else do
    let r ← r.skipKbits b
    pure (r, value)

/-! ### What the reader guarantees -/

variable {r r' r'' : Reader} {b b' : Nat}

/-- A reader inside its payload, with bits in word 1. -/
structure Ready (r : Reader) : Prop where
  words : 2 ≤ r.recv.length
  index : r.index ≤ r.recv.length
  newbits : 1 ≤ r.newbits ∧ r.newbits ≤ 32

/-- At least `b` bits have been consumed, unless the payload is exhausted. -/
structure Advances (b : Nat) (r r' : Reader) : Prop where
  ready : r'.Ready
  length : r'.recv.length = r.recv.length
  index : r.index ≤ r'.index
  consumed : r'.index < r.recv.length →
    32 * r.index + r'.newbits + b ≤ 32 * r'.index + r.newbits

theorem Advances.refl (h : r.Ready) : Advances 0 r r :=
  ⟨h, rfl, Nat.le_refl _, fun _ => Nat.le_refl _⟩

theorem Advances.trans (h : Advances b r r') (h' : Advances b' r' r'') :
    Advances (b + b') r r'' := by
  refine ⟨h'.ready, h'.length.trans h.length, h.index.trans h'.index, ?_⟩
  intro hlt
  have hmono := h'.index
  have hfirst := h.consumed (by omega)
  have hsecond := h'.consumed (by rw [h.length]; exact hlt)
  omega

theorem Advances.mono (h : Advances b r r') (hle : b' ≤ b) : Advances b' r r' := by
  refine ⟨h.ready, h.length, h.index, ?_⟩
  intro hlt
  have := h.consumed hlt
  omega

theorem lookKbits_ok (h : r.Ready) (b : Nat) : ∃ v, r.lookKbits b = .ok v := by
  have hlen := h.words
  rw [lookKbits, rdSlice_ok (by omega)]
  exact ⟨_, rfl⟩

/-- Writing both registers. -/
theorem wrSlice_registers {γ : Type} {recv : List (BitVec 32)} (h : 2 ≤ recv.length)
    (r0 r1 : BitVec 32) (f : List (BitVec 32) → Except Site γ) :
    (wrSlice Site.recv recv 0 r0 >>= fun recv => wrSlice Site.recv recv 1 r1 >>= f) =
      f ((recv.set 0 r0).set 1 r1) := by
  rw [wrSlice_ok (by omega)]
  change (wrSlice Site.recv (recv.set 0 r0) 1 r1 >>= f) = _
  rw [wrSlice_ok (by simp only [List.length_set]; omega)]
  rfl

theorem ready_registers {recv : List (BitVec 32)} {index newbits : Nat} (h : 2 ≤ recv.length)
    (hindex : index ≤ recv.length) (hbits : 1 ≤ newbits ∧ newbits ≤ 32) (r0 r1 : BitVec 32) :
    Ready ⟨(recv.set 0 r0).set 1 r1, index, newbits⟩ :=
  ⟨by simpa using h, by simpa using hindex, hbits⟩

theorem shift_spec (h : r.Ready) (hb : b < r.newbits) :
    ∃ r', r.shift b = .ok r' ∧ Advances b r r' := by
  have hlen := h.words
  have hbits := h.newbits
  rw [shift, rdSlice_ok (by omega), rdSlice_ok (by omega)]
  change ∃ r', (wrSlice Site.recv r.recv 0 _ >>= _) = _ ∧ _
  rw [wrSlice_registers hlen]
  refine ⟨_, rfl, ready_registers hlen h.index (by omega) _ _, by simp, Nat.le_refl _, ?_⟩
  intro _
  change 32 * r.index + (r.newbits - b) + b ≤ 32 * r.index + r.newbits
  omega

/-- `skipKbits` never faults: it goes back to the last word. -/
theorem skipKbits_spec (h : r.Ready) (hb : b ≤ 32) :
    ∃ r', r.skipKbits b = .ok r' ∧ Advances b r r' := by
  have hlen := h.words
  have hbits := h.newbits
  have hindex := h.index
  unfold skipKbits
  split_ifs with hrefill
  · have hback : r.clampedIndex < r.recv.length := by
      unfold clampedIndex
      split_ifs <;> omega
    have hmono : r.index ≤ r.clampedIndex + 1 := by
      unfold clampedIndex
      split_ifs <;> omega
    have hsame : r.clampedIndex + 1 < r.recv.length → r.clampedIndex = r.index := by
      unfold clampedIndex
      split_ifs <;> omega
    rw [rdSlice_ok (show 0 < r.recv.length by omega), rdSlice_ok (show 1 < r.recv.length by omega),
      rdSlice_ok hback]
    change ∃ r', (wrSlice Site.recv r.recv 0 _ >>= _) = _ ∧ _
    rw [wrSlice_registers hlen]
    refine ⟨_, rfl, ready_registers hlen hback (by omega) _ _, by simp, hmono, ?_⟩
    intro hlt
    have := hsame hlt
    change 32 * r.index + (32 + r.newbits - b) + b ≤ 32 * (r.clampedIndex + 1) + r.newbits
    omega
  · exact shift_spec h (by omega)

/-- The next `updateReadBuf i` finds the bits it needs. -/
def Available (r : Reader) (i : Nat) : Prop := i < r.newbits ∨ r.index < r.recv.length

instance (r : Reader) (i : Nat) : Decidable (r.Available i) :=
  inferInstanceAs (Decidable (i < r.newbits ∨ r.index < r.recv.length))

/-- With enough bits in word 1 `updateReadBuf` is a shift of the registers. -/
theorem updateReadBuf_shift (h : r.Ready) (hb : b < r.newbits) :
    ∃ r0 r1, r.updateReadBuf b =
      .ok ⟨(r.recv.set 0 r0).set 1 r1, r.index, r.newbits - b⟩ := by
  have hlen := h.words
  rw [updateReadBuf, if_neg (by omega), rdSlice_ok (show 0 < r.recv.length by omega),
    rdSlice_ok (show 1 < r.recv.length by omega)]
  change ∃ r0 r1, (wrSlice Site.recv r.recv 0 _ >>= _) = _
  simp only [wrSlice_registers hlen]
  exact ⟨_, _, rfl⟩

theorem updateReadBuf_spec (h : r.Ready) (hb : b ≤ 32) (havail : r.Available b) :
    ∃ r', r.updateReadBuf b = .ok r' ∧ Advances b r r' := by
  have hlen := h.words
  have hbits := h.newbits
  by_cases hshift : b < r.newbits
  · obtain ⟨r0, r1, hread⟩ := updateReadBuf_shift h hshift
    refine ⟨_, hread, ready_registers hlen h.index (by omega) r0 r1, by simp, Nat.le_refl _, ?_⟩
    intro _
    change 32 * r.index + (r.newbits - b) + b ≤ 32 * r.index + r.newbits
    omega
  · have hleft : r.index < r.recv.length := havail.resolve_left hshift
    rw [updateReadBuf, if_pos (by omega), rdSlice_ok hleft,
      rdSlice_ok (show 0 < r.recv.length by omega), rdSlice_ok (show 1 < r.recv.length by omega)]
    change ∃ r', (wrSlice Site.recv r.recv 0 _ >>= _) = _ ∧ _
    rw [wrSlice_registers hlen]
    refine ⟨_, rfl, ready_registers hlen hleft (by omega) _ _, by simp, Nat.le_succ _, ?_⟩
    intro _
    change 32 * r.index + (32 + r.newbits - b) + b ≤ 32 * (r.index + 1) + r.newbits
    omega

/-- Without a word left to refill from, `updateReadBuf` runs off the payload. -/
theorem updateReadBuf_error (havail : ¬ r.Available b) : r.updateReadBuf b = .error .recv := by
  unfold Available at havail
  push Not at havail
  rw [updateReadBuf, if_pos havail.1, rdSlice_error havail.2]
  rfl

theorem getKbits_spec (h : r.Ready) (hb : b ≤ 16) :
    ∃ r' v, r.getKbits b = .ok (r', v) ∧ Advances b r r' := by
  obtain ⟨v, hv⟩ := lookKbits_ok h b
  obtain ⟨r', hr', hadv⟩ := skipKbits_spec h (show b ≤ 32 by omega)
  rw [getKbits, hv]
  change ∃ r' w, (if BitVec.ofNat 16 (1 <<< (b - 1)) &&& v = 0 then _ else _) = _ ∧ _
  split_ifs
  · rw [rd_ok (show b < 17 by omega), hr']
    exact ⟨r', _, rfl, hadv⟩
  · rw [hr']
    exact ⟨r', _, rfl, hadv⟩

end Reader

end Outband.Kvm.Codec
