import Outband.Kvm.Codec.BitStream
import Outband.Kvm.Codec.FrameInvariant

/-!
# Refills behind the end of a payload

`skipKbits` goes back to the last word when it is asked for more bits than there are. Whether this
happens within a round shows when the payload is given one more word: the round then loads it.
`Local` says of a part of a round that it goes the same way with the longer payload until it has
loaded the new word, and every part of a round is local.

## Implementation notes

Readers, decoders and the outcomes of the parts of a round all hold a reader. `Streamed` gives it,
and the same value with one more word in the payload.
-/

namespace Outband.Kvm.Codec

open Foundation

/-- Values that hold a reader. -/
class Streamed (σ : Type) where
  reader : σ → Reader
  /-- The value with one more word in the payload. -/
  lengthened : σ → σ

open Streamed (reader lengthened)

instance : Streamed Reader where
  reader r := r
  lengthened r := { r with recv := r.recv ++ [0] }

instance {α : Type} : Streamed (Reader × α) where
  reader out := out.1
  lengthened out := (lengthened out.1, out.2)

instance : Streamed Decoder where
  reader d := d.toReader
  lengthened d := { d with toReader := lengthened d.toReader }

instance : Streamed (Decoder ⊕ Decoder) where
  reader := Sum.elim reader reader
  lengthened := Sum.map lengthened lengthened

/-- The reader has loaded the word behind the first `n`. -/
structure Past (n : Nat) (t : Reader) : Prop where
  length : t.recv.length = n + 1
  index : n < t.index

variable {σ τ υ α κ : Type} [Streamed σ] [Streamed τ] [Streamed υ] {n : Nat}

/-- The computation keeps the first `n` words. With one more of them it goes the same way, unless it
loads that word. -/
structure Local (n : Nat) (f : σ → Except Site τ) : Prop where
  past : ∀ t, Past n (reader t) → Meets (f t) (fun out => Past n (reader out)) fun _ => True
  near : ∀ s, (reader s).recv.length = n →
    Meets (f (lengthened s)) (fun out => Past n (reader out)) (fun _ => True) ∨
      Meets (f s) (fun out => (reader out).recv.length = n) (fun _ => True) ∧
        f (lengthened s) = (f s).map lengthened

namespace Local

/-! ### Rules -/

theorem bind {f : σ → Except Site τ} {g : τ → Except Site υ} (hf : Local n f) (hg : Local n g) :
    Local n fun s => f s >>= g := by
  constructor
  · intro t ht
    exact (hf.past t ht).bind hg.past
  · intro s hs
    rcases hf.near s hs with hpast | ⟨hlength, heq⟩
    · exact .inl (hpast.bind hg.past)
    · rw [heq]
      cases hfs : f s with
      | error e => exact .inr ⟨True.intro, rfl⟩
      | ok out => exact hg.near out (hlength.of_eq_ok hfs)

/-- A value that the new word has no part in. -/
theorem value {v : σ → Except Site α} {f : α → σ → Except Site τ}
    (hv : ∀ s, (reader s).recv.length = n → v (lengthened s) = v s) (hf : ∀ a, Local n (f a)) :
    Local n fun s => v s >>= fun a => f a s := by
  constructor
  · intro t ht
    apply (Meets.trivial (v t)).bind
    intro a _
    exact (hf a).past t ht
  · intro s hs
    rw [hv s hs]
    cases v s with
    | error e => exact .inr ⟨True.intro, rfl⟩
    | ok a => exact (hf a).near s hs

/-- A part that leaves the reader alone. -/
theorem pure {u : σ → τ} (hreader : ∀ s, reader (u s) = reader s)
    (hu : ∀ s, u (lengthened s) = lengthened (u s)) :
    Local n fun s => (Except.ok (u s) : Except Site τ) := by
  constructor
  · intro t ht
    change Past n (reader (u t))
    rwa [hreader]
  · intro s hs
    refine .inr ⟨?_, congrArg Except.ok (hu s)⟩
    change (reader (u s)).recv.length = n
    rwa [hreader]

/-- What goes on with a result besides the reader. -/
theorem pair {f : Reader × α → Except Site τ} (hf : ∀ a, Local n fun r => f (r, a)) : Local n f :=
  ⟨fun t ht => (hf t.2).past t.1 ht, fun s hs => (hf s.2).near s.1 hs⟩

/-- What a decoder holds besides its reader has no part in this. -/
theorem decoder {f : Decoder → Except Site τ}
    (hf : ∀ d : Decoder, Local n fun r : Reader => f { d with toReader := r }) : Local n f :=
  ⟨fun t ht => (hf t).past t.toReader ht, fun s hs => (hf s).near s.toReader hs⟩

theorem within {f : Decoder → Except Site τ} (hf : Local n f) (d : Decoder) :
    Local n fun r : Reader => f { d with toReader := r } :=
  ⟨fun t ht => hf.past { d with toReader := t } ht, fun s hs => hf.near { d with toReader := s } hs⟩

theorem forUp {body : Nat → σ → Except Site σ} (hbody : ∀ i, Local n (body i)) (i k : Nat) :
    Local n (forUp body i k) := by
  induction k generalizing i with
  | zero => exact pure (fun _ => rfl) fun _ => rfl
  | succ k ih => exact (hbody i).bind (ih (i + 1))

theorem forRect {body : Nat → Nat → σ → Except Site σ} (hbody : ∀ r c, Local n (body r c))
    (rows cols : Nat) : Local n (forRect body rows cols) :=
  forUp (fun r => forUp (hbody r) 0 cols) 0 rows

end Local

/-! ### Consuming bits -/

namespace Reader

variable {r t : Reader} {b : Nat}

theorem word_lengthened (r : Reader) {i : Nat} (hi : i < r.recv.length) :
    (lengthened r).word i = r.word i := by
  change ((r.recv ++ [0])[i]?.getD 0) = _
  rw [List.getElem?_append_left hi]
  rfl

theorem set_lengthened (h : 2 ≤ r.recv.length) (r0 r1 : BitVec 32) :
    ((lengthened r).recv.set 0 r0).set 1 r1 = (r.recv.set 0 r0).set 1 r1 ++ [0] := by
  change ((r.recv ++ [0]).set 0 r0).set 1 r1 = _
  rw [List.set_append_left _ _ (by omega),
    List.set_append_left _ _ (by rw [List.length_set]; omega)]

/-- What a call does besides moving the registers. -/
theorem meets_skipKbits_index (r : Reader) (b : Nat) :
    Meets (r.skipKbits b) (fun r' => r'.recv.length = r.recv.length ∧
      r'.index = if r.newbits ≤ b then r.clampedIndex + 1 else r.index) fun _ => True := by
  unfold skipKbits shift
  split_ifs with hb
  · apply (Meets.trivial _).bind
    intro r0 _
    apply (Meets.trivial _).bind
    intro r1 _
    apply (Meets.trivial _).bind
    intro refill _
    apply (meets_wrSlice_length _ _ _ _).bind
    intro recv hrecv
    apply (meets_wrSlice_length _ _ _ _).bind
    intro recv' hrecv'
    exact ⟨hrecv'.trans hrecv, rfl⟩
  · apply (Meets.trivial _).bind
    intro r0 _
    apply (Meets.trivial _).bind
    intro r1 _
    apply (meets_wrSlice_length _ _ _ _).bind
    intro recv hrecv
    apply (meets_wrSlice_length _ _ _ _).bind
    intro recv' hrecv'
    exact ⟨hrecv'.trans hrecv, rfl⟩

/-- A refill from behind the first `n` words loads the new word, and nothing goes back before it. -/
theorem past_skipKbits (hlength : t.recv.length = n + 1) (hindex : n ≤ t.index)
    (hrefill : t.newbits ≤ b ∨ n < t.index) :
    Meets (t.skipKbits b) (Past n) fun _ => True := by
  apply (meets_skipKbits_index t b).imp
  rintro t' ⟨hlength', hindex'⟩
  refine ⟨hlength'.trans hlength, ?_⟩
  rw [hindex']
  unfold clampedIndex
  split_ifs <;> omega

theorem Available.lengthened (havail : r.Available b) : (lengthened r).Available b := by
  have hlength : (Streamed.lengthened r).recv.length = r.recv.length + 1 := List.length_append
  refine havail.imp id fun hleft => ?_
  rw [hlength]
  exact Nat.lt_succ_of_lt hleft

/-- A call of `skipKbits` that is not clamped does not see the new word. -/
theorem skipKbits_lengthened (h : 2 ≤ r.recv.length) (havail : r.Available b) :
    (lengthened r).skipKbits b = (r.skipKbits b).map lengthened := by
  have hlength : (lengthened r).recv.length = r.recv.length + 1 := List.length_append
  have h' : 2 ≤ (lengthened r).recv.length := by omega
  by_cases hb : b < r.newbits
  · rw [skipKbits_shift h hb, skipKbits_shift h' hb, word_lengthened r (by omega),
      word_lengthened r (by omega), set_lengthened h]
    rfl
  · have hindex : r.index < r.recv.length := havail.resolve_left hb
    have hindex' : (lengthened r).index < (lengthened r).recv.length := by
      rw [hlength]
      exact Nat.lt_succ_of_lt hindex
    rw [skipKbits_refill h (Nat.not_lt.mp hb) hindex,
      skipKbits_refill h' (Nat.not_lt.mp hb) hindex', word_lengthened r (by omega),
      word_lengthened r (by omega), set_lengthened h,
      show (lengthened r).word (lengthened r).index = r.word r.index from word_lengthened r hindex]
    rfl

theorem updateReadBuf_lengthened (h : 2 ≤ r.recv.length) (havail : r.Available b) :
    (lengthened r).updateReadBuf b = (r.updateReadBuf b).map lengthened := by
  have hlength : (lengthened r).recv.length = r.recv.length + 1 := List.length_append
  rw [updateReadBuf_eq_skipKbits h havail,
    updateReadBuf_eq_skipKbits (by omega) havail.lengthened, skipKbits_lengthened h havail]

/-- A refill that goes back to the last word would load the new one. -/
theorem past_of_clamped (hlength : r.recv.length = n) (hclamped : ¬ r.Available b) :
    Meets ((lengthened r).skipKbits b) (Past n) fun _ => True := by
  subst hlength
  unfold Available at hclamped
  push Not at hclamped
  exact past_skipKbits List.length_append hclamped.2 (.inl hclamped.1)

/-- A refill goes back to the last word exactly when it would load the new one. -/
theorem clamped_iff (hr : r.Ready) (hb : b ≤ 32) :
    ¬ r.Available b ↔ Meets ((lengthened r).skipKbits b) (fun t => r.recv.length < t.index)
      fun _ => False := by
  constructor
  · intro hclamped
    obtain ⟨t, ht⟩ := skipKbits_ok (show 2 ≤ (lengthened r).recv.length by
      rw [show (lengthened r).recv.length = r.recv.length + 1 from List.length_append]
      exact Nat.le_succ_of_le hr.words) b
    rw [ht]
    exact ((past_of_clamped rfl hclamped).of_eq_ok ht).index
  · intro hloads havail
    obtain ⟨r', hskip, hadv⟩ := skipKbits_spec hr hb
    rw [skipKbits_lengthened hr.words havail, hskip] at hloads
    have hindex := hadv.ready.index
    rw [hadv.length] at hindex
    exact absurd hindex (Nat.not_le.mpr hloads)

theorem local_skipKbits (hn : 2 ≤ n) (b : Nat) : Local n fun r : Reader => r.skipKbits b := by
  constructor
  · intro t ht
    exact past_skipKbits ht.length ht.index.le (.inr ht.index)
  · rintro r rfl
    by_cases havail : r.Available b
    · refine .inr ⟨?_, skipKbits_lengthened hn havail⟩
      exact (meets_skipKbits_index r b).imp fun r' hr' => hr'.1
    · exact .inl (past_of_clamped rfl havail)

theorem local_updateReadBuf (hn : 2 ≤ n) (b : Nat) :
    Local n fun r : Reader => r.updateReadBuf b := by
  have hskip := local_skipKbits hn b
  constructor
  · rintro t ht
    by_cases havail : t.Available b
    · have hlength : t.recv.length = n + 1 := ht.length
      rw [updateReadBuf_eq_skipKbits (by omega) havail]
      exact hskip.past t ht
    · rw [updateReadBuf_error havail]
      exact True.intro
  · rintro r rfl
    have hlength : (lengthened r).recv.length = r.recv.length + 1 := List.length_append
    have hn : 2 ≤ r.recv.length := hn
    by_cases havail : r.Available b
    · rw [updateReadBuf_eq_skipKbits hn havail,
        updateReadBuf_eq_skipKbits (by omega) havail.lengthened]
      exact hskip.near r rfl
    · left
      by_cases havail' : (lengthened r).Available b
      · rw [updateReadBuf_eq_skipKbits (by omega) havail']
        exact past_of_clamped rfl havail
      · rw [updateReadBuf_error havail']
        exact True.intro

/-! ### Units -/

theorem word0_lengthened (hn : 2 ≤ n) (r : Reader) (hr : r.recv.length = n) :
    rdSlice Site.recv (lengthened r).recv 0 = rdSlice Site.recv r.recv 0 := by
  have hlength : (lengthened r).recv.length = r.recv.length + 1 := List.length_append
  rw [rdSlice_word (show 0 < r.recv.length by omega), rdSlice_word (by omega),
    word_lengthened r (by omega)]

theorem lookKbits_lengthened (hn : 2 ≤ n) (b : Nat) (r : Reader) (hr : r.recv.length = n) :
    (lengthened r).lookKbits b = r.lookKbits b := by
  rw [lookKbits, word0_lengthened hn r hr]
  rfl

theorem local_getKbits (hn : 2 ≤ n) (b : Nat) : Local n fun r : Reader => r.getKbits b := by
  refine Local.value (lookKbits_lengthened hn b) fun value => ?_
  split_ifs
  · refine Local.value (v := fun _ => rd .negPow2 negPow2 b) (fun _ _ => rfl) fun neg => ?_
    exact (local_skipKbits hn b).bind (Local.pure (fun _ => rfl) fun _ => rfl)
  · exact (local_skipKbits hn b).bind (Local.pure (fun _ => rfl) fun _ => rfl)


end Reader

theorem local_readSymbol (hn : 2 ≤ n) (ht : HuffmanTable) : Local n (readSymbol ht) := by
  refine Local.value (Reader.word0_lengthened hn) fun r0 => ?_
  refine Local.value (v := fun _ => rd .huffmanLen ht.Len _) (fun _ _ => rfl) fun len => ?_
  refine Local.value (Reader.lookKbits_lengthened hn len) fun look => ?_
  refine (Reader.local_skipKbits hn len).bind ?_
  refine Local.value (v := fun _ => rd .minorCode ht.minorCode len) (fun _ _ => rfl) fun minor => ?_
  refine Local.value (v := fun _ => rd .huffmanV ht.V _) (fun _ _ => rfl) fun value => ?_
  exact Local.pure (fun _ => rfl) fun _ => rfl

theorem local_readDC (hn : 2 ≤ n) (chroma : Bool) (dcPred : BitVec 16) :
    Local n (readDC chroma dcPred) := by
  refine (local_readSymbol hn (htDC chroma)).bind (Local.pair fun b4 => ?_)
  dsimp only
  split_ifs
  · exact Local.pure (fun _ => rfl) fun _ => rfl
  · refine (Reader.local_getKbits hn b4.toNat).bind (Local.pair fun value => ?_)
    exact Local.pure (fun _ => rfl) fun _ => rfl

/-- Reading one coefficient and going on with it. -/
theorem local_coefficient (hn : 2 ≤ n) (coeff : Fin 64 → BitVec 32) (i size : Nat)
    {f : (Fin 64 → BitVec 32) → Reader → Except Site τ} (hf : ∀ coeff, Local n (f coeff)) :
    Local n fun r : Reader => rd .dezigzag dezigzag i >>= fun pos =>
      r.getKbits size >>= fun (r, value) =>
        wr .dctCoeff coeff pos (value.signExtend 32) >>= fun coeff => f coeff r := by
  refine Local.value (v := fun _ => rd .dezigzag dezigzag i) (fun _ _ => rfl) fun pos => ?_
  refine (Reader.local_getKbits hn size).bind (Local.pair fun value => ?_)
  exact Local.value (v := fun _ => wr .dctCoeff coeff pos _) (fun _ _ => rfl) hf

theorem local_acLoop (hn : 2 ≤ n) (ht : HuffmanTable) (rounds b5 : Nat)
    (coeff : Fin 64 → BitVec 32) : Local n fun r => acLoop ht rounds b5 r coeff := by
  induction rounds generalizing b5 coeff with
  | zero => exact Local.pure (fun _ => rfl) fun _ => rfl
  | succ rounds ih =>
      refine (local_readSymbol hn ht).bind (Local.pair fun b7 => ?_)
      dsimp only
      split_ifs
      · exact Local.pure (fun _ => rfl) fun _ => rfl
      · exact ih _ coeff
      · exact Local.pure (fun _ => rfl) fun _ => rfl
      · exact local_coefficient hn coeff _ _ (f := fun coeff r => .ok (r, coeff)) fun coeff =>
          Local.pure (fun _ => rfl) fun _ => rfl
      · exact local_coefficient hn coeff _ _ fun coeff => ih _ coeff

theorem local_decodeHuffmanDataUnit (hn : 2 ≤ n) (chroma : Bool) (dcPred : BitVec 16) :
    Local n (decodeHuffmanDataUnit chroma dcPred) := by
  refine (local_readDC hn chroma dcPred).bind (Local.pair fun dc => ?_)
  refine (local_acLoop hn (htAC chroma) 63 1 _).bind (Local.pair fun coeff => ?_)
  exact Local.pure (fun _ => rfl) fun _ => rfl

namespace Decoder

/-- Decoding a unit and storing it, where `keep` puts the prediction of its DC value away. -/
theorem local_unit (hn : 2 ≤ n) (chroma : Bool) (dcPred : BitVec 16) (keep : BitVec 16 → Decoder)
    (u : Fin 6) (table : Fin 64 → BitVec 64) :
    Local n fun r => decodeHuffmanDataUnit chroma dcPred r >>= fun out =>
      .ok ({ keep out.2.2 with toReader := out.1 }.storeUnit u (inverseDCT out.2.1 table)) :=
  (local_decodeHuffmanDataUnit hn chroma dcPred).bind
    (Local.pair fun _ => Local.pure (fun _ => rfl) fun _ => rfl)

theorem local_unitY (hn : 2 ≤ n) (u : Fin 6) (q : Fin 4) :
    Local n fun d : Decoder => d.unitY u q :=
  Local.decoder fun d => local_unit hn false d.dcY (fun dc => { d with dcY := dc }) u (d.qt q)

theorem local_unitCb (hn : 2 ≤ n) (u : Fin 6) (q : Fin 4) :
    Local n fun d : Decoder => d.unitCb u q :=
  Local.decoder fun d => local_unit hn true d.dcCb (fun dc => { d with dcCb := dc }) u (d.qt q)

theorem local_unitCr (hn : 2 ≤ n) (u : Fin 6) (q : Fin 4) :
    Local n fun d : Decoder => d.unitCr u q :=
  Local.decoder fun d => local_unit hn true d.dcCr (fun dc => { d with dcCr := dc }) u (d.qt q)

theorem local_units444 (hn : 2 ≤ n) (q : Fin 4) : Local n fun d : Decoder => d.units444 q :=
  (local_unitY hn 0 q).bind ((local_unitCb hn 1 (q + 1)).bind (local_unitCr hn 2 (q + 1)))

theorem local_units420 (hn : 2 ≤ n) (q : Fin 4) : Local n fun d : Decoder => d.units420 q :=
  (local_unitY hn 0 q).bind ((local_unitY hn 1 q).bind ((local_unitY hn 2 q).bind
    ((local_unitY hn 3 q).bind ((local_unitCb hn 4 (q + 1)).bind (local_unitCr hn 5 (q + 1))))))

theorem local_units (hn : 2 ≤ n) (q : Fin 4) : Local n fun d : Decoder => d.units q := by
  refine Local.decoder fun d => ?_
  change Local n fun r => if d.mode420 = 1 then { d with toReader := r }.units420 q
    else { d with toReader := r }.units444 q
  split_ifs
  · exact (local_units420 hn q).within d
  · exact (local_units444 hn q).within d

/-! ### Tiles -/

theorem local_putVisible (pi yv cb cr : Nat) :
    Local n fun d : Decoder => d.putVisible pi yv cb cr := by
  refine Local.decoder fun d => ?_
  change Local n fun r => if pi < d.realWidth * d.realH * 3 then
      putPixel d.decodeBuf pi yv cb cr >>= fun buf =>
        .ok { d with toReader := r, decodeBuf := buf }
    else colors yv cb cr >>= fun _ => .ok { d with toReader := r }
  split_ifs
  · refine Local.value (fun _ _ => rfl) fun buf => ?_
    exact Local.pure (fun _ => rfl) fun _ => rfl
  · refine Local.value (fun _ _ => rfl) fun _ => ?_
    exact Local.pure (fun _ => rfl) fun _ => rfl

theorem local_pixel444 (off r c : Nat) : Local n (pixel444 off r c) := by
  refine Local.decoder fun d => ?_
  refine Local.value (v := fun _ => wrSlice .prevYUV d.prevYUV _ _) (fun _ _ => rfl) fun prev => ?_
  refine Local.value (v := fun _ => wrSlice .prevYUV prev _ _) (fun _ _ => rfl) fun prev => ?_
  refine Local.value (v := fun _ => wrSlice .prevYUV prev _ _) (fun _ _ => rfl) fun prev => ?_
  exact (local_putVisible ((off + r * d.realWidth + c) * 3) (d.yuvTile _) (d.yuvTile _)
    (d.yuvTile _)).within { d with prevYUV := prev }

theorem local_pixel420 (off r c : Nat) : Local n (pixel420 off r c) := by
  refine Local.decoder fun d => ?_
  refine Local.value (v := fun _ => putPixel d.decodeBuf _ _ _ _) (fun _ _ => rfl) fun buf => ?_
  exact Local.pure (fun _ => rfl) fun _ => rfl

theorem local_pixelPass2 (off r c : Nat) : Local n (pixelPass2 off r c) := by
  refine Local.decoder fun d => ?_
  refine Local.value (v := fun _ => rdSlice .prevYUV d.prevYUV _) (fun _ _ => rfl) fun py => ?_
  refine Local.value (v := fun _ => rdSlice .prevYUV d.prevYUV _) (fun _ _ => rfl) fun pcb => ?_
  refine Local.value (v := fun _ => rdSlice .prevYUV d.prevYUV _) (fun _ _ => rfl) fun pcr => ?_
  exact (local_putVisible ((off + r * d.realWidth + c) * 3)
    (clamp255 (py + ((d.yuvTile _ : Int) - 128))) (clamp255 (pcb + ((d.yuvTile _ : Int) - 128)))
    (clamp255 (pcr + ((d.yuvTile _ : Int) - 128)))).within d

theorem local_convertYUVtoRGB (tx ty : Nat) :
    Local n fun d : Decoder => d.convertYUVtoRGB tx ty := by
  refine Local.decoder fun d => ?_
  change Local n fun r =>
    if d.mode420 = 0 then
      forRect (pixel444 (d.off444 tx ty)) 8 (d.limit444 tx) { d with toReader := r }
    else forRect (pixel420 (d.off420 tx ty)) (d.rows420 ty) 16 { d with toReader := r }
  split_ifs
  · exact (Local.forRect (local_pixel444 _) 8 _).within d
  · exact (Local.forRect (local_pixel420 _) _ 16).within d

theorem local_convertYUVToRGBPass2 (tx ty : Nat) :
    Local n fun d : Decoder => d.convertYUVToRGBPass2 tx ty := by
  refine Local.decoder fun d => ?_
  change Local n fun r =>
    if d.mode420 ≠ 0 then .ok { d with toReader := r }
    else forRect (pixelPass2 (d.off444 tx ty)) 8 (d.limit444 tx) { d with toReader := r }
  split_ifs
  · exact Local.pure (fun _ => rfl) fun _ => rfl
  · exact (Local.forRect (local_pixelPass2 _) 8 _).within d

theorem local_vqPixel (hn : 2 ≤ n) (bits i : Nat) : Local n (vqPixel bits i) := by
  refine Local.decoder fun d => ?_
  refine Local.value (Reader.lookKbits_lengthened hn bits) fun sel => ?_
  refine Local.value (v := fun _ => vqColor d.vq sel.toNat) (fun _ _ => rfl) fun color => ?_
  exact (Reader.local_skipKbits hn bits).bind
    (g := fun r => .ok { d.storeColor i color with toReader := r })
    (Local.pure (fun _ => rfl) fun _ => rfl)

theorem local_vqPlanes (hn : 2 ≤ n) : Local n vqPlanes := by
  refine Local.decoder fun d => ?_
  change Local n fun r =>
    if d.vq.BitMapBits = 0 then vqColor d.vq 0 >>= fun color =>
      forUp (fun i d => .ok (d.storeColor i color)) 0 64 { d with toReader := r }
    else forUp (vqPixel d.vq.BitMapBits) 0 64 { d with toReader := r }
  split_ifs
  · refine Local.value (fun _ _ => rfl) fun color => ?_
    have hcell (i : Nat) :
        Local n fun d : Decoder => (Except.ok (d.storeColor i color) : Except Site Decoder) :=
      Local.pure (fun _ => rfl) fun _ => rfl
    exact (Local.forUp hcell 0 64).within d
  · exact (Local.forUp (local_vqPixel hn _) 0 64).within d

/-! ### Rounds -/

theorem local_updateReadBuf (hn : 2 ≤ n) (b : Nat) :
    Local n fun d : Decoder => d.updateReadBuf b := by
  refine Local.decoder fun d => ?_
  exact (Reader.local_updateReadBuf hn b).bind
    (Local.pure (u := fun r => { d with toReader := r }) (fun _ => rfl) fun _ => rfl)

theorem local_readSlot (hn : 2 ≤ n) (i : Nat) : Local n (readSlot i) := by
  refine Local.decoder fun d => ?_
  refine Local.value (Reader.word0_lengthened hn) fun r0 => ?_
  refine Local.value (v := fun _ => wr .vqIndex d.vq.Index i _) (fun _ _ => rfl) fun indices => ?_
  refine Local.value (v := fun _ => slotColors d.vq r0 _) (fun _ _ => rfl) fun colors => ?_
  exact (local_updateReadBuf hn (slotBits r0)).within
    { d with vq := { d.vq with Index := indices, Color := colors } }

theorem local_readVQHeader (hn : 2 ≤ n) (bits count : Nat) :
    Local n fun d : Decoder => d.readVQHeader bits count :=
  Local.decoder fun d =>
    (Local.forUp (local_readSlot hn) 0 count).within (d.withBitMapBits bits)

theorem local_readPosition (hn : 2 ≤ n) (skip : Bool) :
    Local n fun d : Decoder => d.readPosition skip := by
  cases skip with
  | false => exact local_updateReadBuf hn 4
  | true =>
      refine Local.bind ?_ (local_updateReadBuf hn 20)
      refine Local.decoder fun d => ?_
      refine Local.value (Reader.word0_lengthened hn) fun r0 => ?_
      exact Local.pure (fun _ => rfl) fun _ => rfl

/-- A part that needs the position of the tile. -/
theorem local_placed {f : Nat → Nat → Decoder → Except Site Decoder}
    (hf : ∀ tx ty, Local n (f tx ty)) : Local n fun d => f d.txb d.tyb d :=
  Local.decoder fun d => (hf d.txb d.tyb).within d

theorem local_decompress (hn : 2 ≤ n) (kind : Kind) :
    Local n fun d : Decoder => d.decompress kind := by
  cases kind with
  | jpeg q =>
      exact local_placed fun tx ty => (local_units hn q).bind (local_convertYUVtoRGB tx ty)
  | pass2 q =>
      exact local_placed fun tx ty => (local_units444 hn q).bind (local_convertYUVToRGBPass2 tx ty)
  | vq bits count =>
      apply (local_readVQHeader hn bits count).bind
      exact local_placed fun tx ty => (local_vqPlanes hn).bind (local_convertYUVtoRGB tx ty)

theorem toReader_moveBlockIndex (d : Decoder) : d.moveBlockIndex.toReader = d.toReader := by
  unfold moveBlockIndex
  dsimp only
  split_ifs <;> rfl

theorem local_moveBlockIndex : Local n fun d : Decoder => Except.ok d.moveBlockIndex := by
  refine Local.pure toReader_moveBlockIndex fun d => ?_
  change moveBlockIndex { d with toReader := lengthened d.toReader } = _
  unfold moveBlockIndex
  dsimp only
  split_ifs <;> rfl

theorem local_tileBlock (hn : 2 ≤ n) (kind : Kind) (skip : Bool) :
    Local n fun d : Decoder => d.tileBlock kind skip :=
  (local_readPosition hn skip).bind ((local_decompress hn kind).bind local_moveBlockIndex)

theorem local_unknownBlock (hn : 2 ≤ n) : Local n unknownBlock :=
  (local_updateReadBuf hn 3).bind local_moveBlockIndex

theorem local_continueBelow (cw : Int) :
    Local n fun d : Decoder => Except.ok (d.continueBelow cw) := by
  apply Local.pure
  · intro d
    unfold continueBelow
    split_ifs <;> rfl
  · intro d
    have hindex : (lengthened d).index = d.index := rfl
    unfold continueBelow
    rw [hindex]
    split_ifs <;> rfl

/-- A round goes the same way with a longer payload, unless it loads the new word. -/
theorem local_macroBlock (hn : 2 ≤ n) (cw : Int) : Local n (macroBlock cw) := by
  refine Local.value (v := fun d : Decoder => rdSlice Site.recv d.recv 0)
    (fun d => Reader.word0_lengthened hn d.toReader) fun r0 => ?_
  dsimp only
  cases kindOf ((r0 >>> 28) &&& 15).toNat with
  | some block =>
      obtain ⟨kind, skip⟩ := block
      exact (local_tileBlock hn kind skip).bind (local_continueBelow cw)
  | none =>
      dsimp only
      split_ifs
      · exact Local.pure (fun _ => rfl) fun _ => rfl
      · exact (local_unknownBlock hn).bind (local_continueBelow cw)

/-! ### Rounds that go back to the last word -/

variable {d : Decoder} {b : Nat} {cw : Int}

theorem length_lengthened (d : Decoder) : (lengthened d).recv.length = d.recv.length + 1 :=
  List.length_append

theorem ready_lengthened (hr : d.toReader.Ready) : (lengthened d).toReader.Ready := by
  have hlength := length_lengthened d
  have hwords := hr.words
  have hindex : (lengthened d).index ≤ d.recv.length := hr.index
  exact ⟨by omega, by omega, hr.newbits⟩

theorem word0_lengthened (hr : d.toReader.Ready) : (lengthened d).word0 = d.word0 := by
  have hwords := hr.words
  change (d.recv ++ [0]).getD 0 0 = d.recv.getD 0 0
  rw [List.getD_eq_getElem?_getD, List.getD_eq_getElem?_getD,
    List.getElem?_append_left (by omega)]

theorem updateReadBuf_lengthened (hr : d.toReader.Ready) (havail : d.toReader.Available b) :
    (lengthened d).updateReadBuf b = (d.updateReadBuf b).map lengthened := by
  change ((lengthened d.toReader).updateReadBuf b >>= _) = _
  rw [Reader.updateReadBuf_lengthened hr.words havail, updateReadBuf]
  cases d.toReader.updateReadBuf b <;> rfl

theorem readPosition_lengthened (hr : d.toReader.Ready) {skip : Bool}
    (havail : d.toReader.Available (positionBits skip)) :
    (lengthened d).readPosition skip = (d.readPosition skip).map lengthened := by
  have hplaced : (lengthened d).placed skip = lengthened (d.placed skip) := by
    unfold placed
    rw [word0_lengthened hr]
    cases skip <;> rfl
  rw [readPosition_eq hr, readPosition_eq (ready_lengthened hr), hplaced]
  cases skip with
  | false => exact updateReadBuf_lengthened hr havail
  | true => exact updateReadBuf_lengthened (d := d.placed true) hr havail

theorem slotAvailable_lengthened (hr : d.toReader.Ready) (havail : d.SlotAvailable) :
    (lengthened d).SlotAvailable := by
  unfold SlotAvailable
  rw [word0_lengthened hr]
  exact havail.lengthened

theorem readSlot_lengthened (hr : d.toReader.Ready) (havail : d.SlotAvailable) (i : Nat) :
    readSlot i (lengthened d) = (readSlot i d).map lengthened := by
  rw [readSlot, readSlot, rdSlice_word0 hr, rdSlice_word0 (ready_lengthened hr),
    word0_lengthened hr]
  change (wr Site.vqIndex d.vq.Index i ((d.word0 >>> 29) &&& 3).toNat >>= _) =
    Except.map _ (wr Site.vqIndex d.vq.Index i ((d.word0 >>> 29) &&& 3).toNat >>= _)
  cases wr Site.vqIndex d.vq.Index i ((d.word0 >>> 29) &&& 3).toNat with
  | error e => rfl
  | ok indices =>
      change (slotColors d.vq d.word0 ((d.word0 >>> 29) &&& 3).toNat >>= _) =
        Except.map _ (slotColors d.vq d.word0 ((d.word0 >>> 29) &&& 3).toNat >>= _)
      cases slotColors d.vq d.word0 ((d.word0 >>> 29) &&& 3).toNat with
      | error e => rfl
      | ok colors =>
          exact updateReadBuf_lengthened
            (d := { d with vq := { d.vq with Index := indices, Color := colors } }) hr havail

theorem slots_lengthened (hd : d.store.Valid) (hr : d.toReader.Ready) {count : Nat}
    (hcount : count ≤ 4) (havail : d.SlotsAvailable count) :
    forUp readSlot 0 count (lengthened d) = (forUp readSlot 0 count d).map lengthened := by
  induction count with
  | zero => rfl
  | succ count ih =>
      have hfirst : d.SlotsAvailable count := fun k hk => havail k (by omega)
      obtain ⟨s, hrun, hs⟩ := (meets_slots hd hr (by omega) hfirst).exists_ok
      have hslot : s.SlotAvailable := (havail count (Nat.lt_succ_self count)).of_eq_ok hrun
      rw [forUp_add, forUp_add, ih (by omega) hfirst, hrun]
      change (readSlot (0 + count) (lengthened s) >>= _) =
        Except.map _ (readSlot (0 + count) s >>= _)
      rw [readSlot_lengthened hs.reader.ready hslot]
      cases readSlot (0 + count) s <;> rfl

theorem slotsAvailable_lengthened (hd : d.store.Valid) (hr : d.toReader.Ready) {count : Nat}
    (hcount : count ≤ 4) (havail : d.SlotsAvailable count) :
    (lengthened d).SlotsAvailable count := by
  intro k hk
  have hfirst : d.SlotsAvailable k := fun j hj => havail j (by omega)
  rw [slots_lengthened hd hr (by omega) hfirst]
  apply ((meets_slots hd hr (by omega) hfirst).and (havail k hk)).map
  rintro s ⟨hs, hslot⟩
  exact slotAvailable_lengthened hs.reader.ready hslot

theorem kindSafe_lengthened (hd : d.store.Valid) (hr : d.toReader.Ready) {kind : Kind}
    (hkind : kind.Valid) (hsafe : d.KindSafe kind) : (lengthened d).KindSafe kind := by
  cases kind with
  | jpeg q => exact hsafe
  | pass2 q => exact hsafe
  | vq bits count =>
      have hvalid := Store.Valid.withBitMapBits hd hkind.1
      exact ⟨slotsAvailable_lengthened hvalid hr hkind.2 hsafe.1, hsafe.2⟩

/-- A safe round is also safe with one more word. -/
theorem headSafe_lengthened (hd : d.store.Valid) (hr : d.toReader.Ready) (hsafe : d.HeadSafe) :
    (lengthened d).HeadSafe := by
  have hcode : (lengthened d).code = d.code := by rw [code, word0_lengthened hr, code]
  unfold HeadSafe at hsafe ⊢
  rw [hcode]
  cases hkind : kindOf d.code with
  | some block =>
      obtain ⟨kind, skip⟩ := block
      rw [hkind] at hsafe
      obtain ⟨havail, hbody⟩ := hsafe
      refine ⟨havail.lengthened, ?_⟩
      rw [readPosition_lengthened hr havail]
      apply ((meets_readPosition hd hr havail).and hbody).map
      rintro d₁ ⟨h₁, hsafe₁⟩
      exact kindSafe_lengthened h₁.valid h₁.reader.ready (kindOf_valid hkind) hsafe₁
  | none =>
      rw [hkind] at hsafe
      exact hsafe.imp id fun havail => havail.lengthened

/-- Some refill of the next round goes back to the last word: with one more word the round would
load that one. -/
def Clamps (cw : Int) (d : Decoder) : Prop :=
  Meets ((lengthened d).macroBlock cw) (fun out => d.recv.length < (reader out).index)
    fun _ => False

/-- A safe round that does not go back to the last word does not see a longer payload. -/
theorem macroBlock_lengthened (hd : d.store.Valid) (hr : d.toReader.Ready) (hsafe : d.HeadSafe)
    (hclamps : ¬ d.Clamps cw) :
    (lengthened d).macroBlock cw = (d.macroBlock cw).map lengthened := by
  rcases (local_macroBlock hr.words cw).near d rfl with hpast | ⟨-, hsame⟩
  · have hends : Meets ((lengthened d).macroBlock cw) (RoundEnds cw (lengthened d))
        fun _ => False :=
      meets_macroBlock hd (ready_lengthened hr) (headSafe_lengthened hd hr hsafe)
    obtain ⟨out, hout, -⟩ := hends.exists_ok
    refine (hclamps ?_).elim
    rw [Clamps, hout]
    exact (hpast.of_eq_ok hout).index
  · exact hsame

end Decoder

end Outband.Kvm.Codec
