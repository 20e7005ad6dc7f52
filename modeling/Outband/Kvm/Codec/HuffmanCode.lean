import Outband.Foundation.BitString
import Outband.Kvm.Codec.BitStream
import Outband.Kvm.Codec.Block

/-!
# Canonical codes and the decoding tables

`canonicalCodes` generates the code of a table as JPEG does: codes of one length
are consecutive, and the first code of the next length follows the last one with
a zero appended. The decoder does not look codes up. It takes the code length
from a list of thresholds that the source gives separately, and the symbol from
the distance to the first code of that length. `Reads ht c` says that the
two agree on the code `c`, and it holds of every code of the four tables.
-/

namespace Outband.Kvm.Codec

open Foundation

/-- A code word: its symbol, its length in bits and its value. -/
structure Code where
  symbol : Nat
  length : Nat
  code : Nat
  deriving DecidableEq, Repr

namespace Code

/-- The code word as bits. -/
def bits (c : Code) : List Bool := toBitsMsb c.length c.code

/-- The first 16-bit window that starts with the code word. -/
def lo (c : Code) : Nat := c.code * 2 ^ (16 - c.length)

/-- The first window behind those that start with the code word. -/
def hi (c : Code) : Nat := (c.code + 1) * 2 ^ (16 - c.length)

end Code

/-- The codes of length `length` and more, the first of them being `code`. -/
def canonicalFrom (length code : Nat) : List Nat → List Nat → List Code
  | [], _ => []
  | n :: nrcodes, values =>
      (values.take n).mapIdx (fun i symbol => ⟨symbol, length, code + i⟩) ++
        canonicalFrom (length + 1) ((code + n) * 2) nrcodes (values.drop n)

/-- The canonical code with `nrcodes` codes per length, from length 0 on. -/
def canonicalCodes (nrcodes values : List Nat) : List Code := canonicalFrom 0 0 nrcodes values

def codesDC : Bool → List Code
  | false => canonicalCodes stdDCLuminanceNrcodes stdDCLuminanceValues
  | true => canonicalCodes stdDCChrominanceNrcodes stdDCChrominanceValues

def codesAC : Bool → List Code
  | false => canonicalCodes stdACLuminanceNrcodes stdACLuminanceValues
  | true => canonicalCodes stdACChrominanceNrcodes stdACChrominanceValues

/-- The code word of a symbol. -/
def codeFor (codes : List Code) (symbol : Nat) : List Bool :=
  match codes.find? (·.symbol = symbol) with
  | some c => c.bits
  | none => []

/-! ### Agreement with the tables -/

/-- The symbol the decoder finds for a code length and the bits of the code. -/
def HuffmanTable.symbolAt (ht : HuffmanTable) (len : Fin 17) (look : BitVec 16) : BitVec 8 :=
  let index := wordHiLo (BitVec.ofNat 8 len) ((look - ht.minorCode len).setWidth 8)
  (ht.V ⟨index.toNat, index.isLt⟩).setWidth 8

/-- The table knows the length of the code word from every window that starts with
it, and finds its symbol. -/
structure HuffmanTable.Reads (ht : HuffmanTable) (c : Code) : Prop where
  short : c.length < 17
  code_lt : c.code < 2 ^ c.length
  len : ∀ i : Fin 65536, c.lo ≤ i → i < c.hi → ht.Len i = c.length
  symbol : ht.symbolAt ⟨c.length, short⟩ (BitVec.ofNat 16 c.code) = BitVec.ofNat 8 c.symbol

/-- The thresholds give the length `len` from window `lo` up to `hi`. -/
def lenOn (len : Nat) : Nat → Nat → List (Nat × Nat) → Bool
  | _, _, [] => false
  | lo, hi, (bound, l) :: rest =>
      if bound ≤ lo then lenOn len lo hi rest
      else l == len && (decide (hi ≤ bound) || lenOn len bound hi rest)

theorem lenFrom_of_lenOn {len lo hi i : Nat} {l : List (Nat × Nat)} (h : lenOn len lo hi l)
    (hlo : lo ≤ i) (hhi : i < hi) : lenFrom i l = len := by
  induction l generalizing lo with
  | nil => cases h
  | cons p l ih =>
      obtain ⟨bound, len'⟩ := p
      rw [lenOn] at h
      rw [lenFrom]
      split_ifs at h with hbound
      · rw [if_neg (by omega)]
        exact ih h hlo
      · rw [Bool.and_eq_true, beq_iff_eq, Bool.or_eq_true, decide_eq_true_eq] at h
        obtain ⟨rfl, hrest⟩ := h
        split_ifs with hi'
        · rfl
        · exact ih (hrest.resolve_left (by omega)) (by omega)

/-- What a code word has to meet for the table built from `nrcodes`, `values` and
`huffcode`. -/
def codeAgrees (nrcodes values : List Nat) (huffcode : List (Nat × Nat)) (c : Code) : Bool :=
  if h : c.length < 17 then
    decide (c.code < 2 ^ c.length) && decide (c.hi ≤ 65535) &&
      lenOn c.length c.lo c.hi huffcode.tail &&
      (loadHuffmanTable nrcodes values huffcode).symbolAt ⟨c.length, h⟩ (BitVec.ofNat 16 c.code) ==
        BitVec.ofNat 8 c.symbol
  else false

theorem reads_of_codeAgrees {nrcodes values : List Nat} {huffcode : List (Nat × Nat)} {c : Code}
    (h : codeAgrees nrcodes values huffcode c) :
    (loadHuffmanTable nrcodes values huffcode).Reads c := by
  unfold codeAgrees at h
  split_ifs at h with hshort
  simp only [Bool.and_eq_true, decide_eq_true_eq, beq_iff_eq] at h
  obtain ⟨⟨⟨hcode, hhi⟩, hlen⟩, hsymbol⟩ := h
  refine ⟨hshort, hcode, ?_, hsymbol⟩
  intro i hlo hi
  have hfrom := lenFrom_of_lenOn hlen hlo hi
  simp only [loadHuffmanTable]
  rw [if_pos (by omega), hfrom, Nat.mod_eq_of_lt (by omega)]

theorem reads_htDC (chroma : Bool) : ∀ c ∈ codesDC chroma, (htDC chroma).Reads c := by
  intro c hc
  cases chroma with
  | false => exact reads_of_codeAgrees (List.all_eq_true.mp (by decide +kernel) c hc)
  | true => exact reads_of_codeAgrees (List.all_eq_true.mp (by decide +kernel) c hc)

theorem reads_htAC (chroma : Bool) : ∀ c ∈ codesAC chroma, (htAC chroma).Reads c := by
  intro c hc
  cases chroma with
  | false => exact reads_of_codeAgrees (List.all_eq_true.mp (by decide +kernel) c hc)
  | true => exact reads_of_codeAgrees (List.all_eq_true.mp (by decide +kernel) c hc)

/-! ### Reading a code word -/

namespace Reader

variable {words : List (BitVec 32)} {r : Reader} {k : Nat} {ht : HuffmanTable} {c : Code}

theorem bitsAt_eq_window (words : List (BitVec 32)) (k b : Nat) :
    bitsAt words k b = ofBitsMsb (window (bitAt words) k b) := by
  simp [bitsAt, ofBitsMsb, window, Function.comp_def]

/-- The next 16 bits as the index the length table is read at. -/
theorem At.window16 (h : At words k r) :
    ((r.word 0 >>> 16) &&& 0xFFFF).toNat = bitsAt words k 16 := by
  rw [BitVec.toNat_and, BitVec.toNat_ushiftRight, Nat.shiftRight_eq_div_pow,
    div_eq_bitsAt (b := 16) h.first (by omega),
    show (0xFFFF : BitVec 32).toNat = 2 ^ 16 - 1 from rfl,
    Nat.and_two_pow_sub_one_eq_mod, Nat.mod_eq_of_lt (bitsAt_lt words k 16)]

theorem At.bitsAt_div (h : At words k r) {b : Nat} (hb : b ≤ 16) :
    bitsAt words k 16 / 2 ^ (16 - b) = bitsAt words k b := by
  rw [← div_eq_bitsAt (b := 16) h.first (by omega), ← div_eq_bitsAt (b := b) h.first (by omega),
    Nat.div_div_eq_div_mul, ← Nat.pow_add, show 32 - 16 + (16 - b) = 32 - b by omega]

/-- A code word the table reads gives its symbol, and exactly its bits are consumed. -/
theorem At.readSymbol (h : At words k r) (hc : ht.Reads c)
    (hbits : Carries (bitAt words) k c.bits)
    (henough : 2 + (k + c.length) / 32 ≤ words.length) :
    ∃ r', Codec.readSymbol ht r = .ok (r', BitVec.ofNat 8 c.symbol) ∧
      At words (k + c.length) r' := by
  have hshort := hc.short
  have hlen := h.length
  have htwo := h.words_le
  have hcode : bitsAt words k c.length = c.code := by
    rw [bitsAt_eq_window]
    exact hbits.ofBitsMsb_window hc.code_lt
  have hdiv : bitsAt words k 16 / 2 ^ (16 - c.length) = c.code := by
    rw [h.bitsAt_div (by omega), hcode]
  have hwindow : ht.Len ⟨bitsAt words k 16, bitsAt_lt words k 16⟩ = c.length := by
    apply hc.len
    · rw [Code.lo, ← hdiv]
      exact Nat.div_mul_le_self _ _
    · rw [Code.hi, ← hdiv, Nat.mul_comm]
      exact Nat.lt_mul_div_succ _ (Nat.two_pow_pos _)
  obtain ⟨r', hskip, hat⟩ := h.skipKbits (show c.length ≤ 31 by omega) henough
  refine ⟨r', ?_, hat⟩
  rw [Codec.readSymbol, rdSlice_word (show 0 < r.recv.length by omega)]
  change (rd Site.huffmanLen ht.Len ((r.word 0 >>> 16) &&& 0xFFFF).toNat >>= _) = _
  rw [h.window16, rd_ok (bitsAt_lt words k 16), hwindow]
  change (r.lookKbits c.length >>= _) = _
  rw [h.lookKbits (by omega), hcode]
  change (r.skipKbits c.length >>= _) = _
  rw [hskip]
  change (rd Site.minorCode ht.minorCode c.length >>= _) = _
  rw [rd_ok hshort]
  change (rd Site.huffmanV ht.V (wordHiLo _ _).toNat >>= _) = _
  rw [rd_ok (show (wordHiLo _ _).toNat < 65536 from BitVec.isLt _)]
  exact congrArg (fun v => Except.ok (r', v)) hc.symbol

end Reader

end Outband.Kvm.Codec
