import Mathlib.Data.Nat.Size
import Outband.Kvm.Codec.HuffmanCode

/-!
# Round trip of a data unit

`encodeBlock` is the JPEG entropy encoding of a block in zigzag order with the
canonical codes: the category of the first coefficient's difference to the
predictor and its bits, then for every nonzero coefficient the run of zeros
before it, its category and its bits. Decoding a stream that carries the
encoding gives the block back and consumes exactly its bits.

The decoder meets the zeros of a run only when it reads the next code word, so
the induction over the coefficients keeps the length of the pending run: the
encoder stands `run` coefficients ahead of the decoder.
-/

namespace Outband.Kvm.Codec

open Foundation

/-! ### Encoding -/

/-- The number of bits a value takes. -/
def category (v : Int) : Nat := v.natAbs.size

/-- The number that stands for a value of its category: negative values come first. -/
def amplitude (v : Int) : Nat := (if 0 < v then v else v + 2 ^ category v - 1).toNat

/-- The bits of a value behind its category. -/
def valueBits (v : Int) : List Bool := toBitsMsb (category v) (amplitude v)

/-- The coefficients that are left when `run` zeros are pending. -/
def encodeAC (codes : List Code) : Nat → List Int → List Bool
  | run, [] => if run = 0 then [] else codeFor codes 0
  | run, v :: rest =>
      if v = 0 then encodeAC codes (run + 1) rest
      else (List.replicate (run / 16) (codeFor codes 240)).flatten ++
        (codeFor codes (run % 16 * 16 + category v) ++ (valueBits v ++ encodeAC codes 0 rest))

/-- The difference to the predictor. -/
def encodeDC (codes : List Code) (diff : Int) : List Bool :=
  codeFor codes (category diff) ++ valueBits diff

/-- The entropy encoding of a block in zigzag order. -/
def encodeBlock (chroma : Bool) (pred : Int) (block : Fin 64 → Int) : List Bool :=
  encodeDC (codesDC chroma) (block 0 - pred) ++
    encodeAC (codesAC chroma) 0 (List.ofFn fun i : Fin 63 => block i.succ)

/-! ### Values -/

theorem category_le_iff {v : Int} {s : Nat} : category v ≤ s ↔ v.natAbs < 2 ^ s := Nat.size_le

theorem category_pos {v : Int} (h : v ≠ 0) : 1 ≤ category v := by
  rw [category, Nat.succ_le_iff, Nat.size_pos]
  omega

@[simp] theorem category_zero : category 0 = 0 := rfl

theorem two_pow_category {v : Int} (h : v ≠ 0) :
    2 ^ category v = 2 * 2 ^ (category v - 1) := by
  rw [← Nat.pow_succ', Nat.succ_eq_add_one, Nat.sub_add_cancel (category_pos h)]

theorem category_bounds {v : Int} (h : v ≠ 0) :
    2 ^ (category v - 1) ≤ v.natAbs ∧ v.natAbs < 2 ^ category v := by
  refine ⟨?_, category_le_iff.mp le_rfl⟩
  have hpos := category_pos h
  rw [← Nat.lt_size]
  change category v - 1 < category v
  omega

theorem amplitude_lt {v : Int} (h : v ≠ 0) : amplitude v < 2 ^ category v := by
  obtain ⟨-, hhi⟩ := category_bounds h
  have hcast : ((2 ^ category v : Nat) : Int) = 2 ^ category v := by norm_num
  unfold amplitude
  split_ifs with hpos <;> omega

/-- A value is read back from its bits. -/
theorem extend_amplitude {v : Int} (h : v ≠ 0) : Reader.extend (category v) (amplitude v) = v := by
  obtain ⟨hlo, hhi⟩ := category_bounds h
  have htwo := two_pow_category h
  have hcast : ((2 ^ category v : Nat) : Int) = 2 ^ category v := by norm_num
  unfold Reader.extend amplitude
  split_ifs with hsign hlow hlow <;> omega

/-! ### Code words of a table -/

/-- The codes give every symbol in `symbols` a word, and the table reads each of them. -/
structure Codebook (ht : HuffmanTable) (codes : List Code) (symbols : Set Nat) : Prop where
  reads : ∀ c ∈ codes, ht.Reads c
  complete : ∀ s ∈ symbols, (codes.find? (·.symbol = s)).isSome

theorem Codebook.codeFor_spec {ht : HuffmanTable} {codes : List Code} {symbols : Set Nat} {s : Nat}
    (h : Codebook ht codes symbols) (hs : s ∈ symbols) :
    ∃ c, codeFor codes s = c.bits ∧ c.symbol = s ∧ ht.Reads c := by
  obtain ⟨c, hc⟩ := Option.isSome_iff_exists.mp (h.complete s hs)
  refine ⟨c, ?_, ?_, h.reads c (List.mem_of_find?_eq_some hc)⟩
  · rw [codeFor, hc]
  · simpa using List.find?_some hc

theorem codebookDC (chroma : Bool) :
    Codebook (htDC chroma) (codesDC chroma) {s | s ≤ 11} := by
  refine ⟨reads_htDC chroma, ?_⟩
  intro s hs
  have hall : ∀ chroma, ∀ s < 12, ((codesDC chroma).find? (·.symbol = s)).isSome := by
    decide +kernel
  exact hall chroma s (Nat.lt_succ_of_le hs)

/-- The symbols of the coefficient loop: the end of the block, a run of 16 zeros, and a run of at
most 15 zeros before a value. -/
def symbolsAC : Set Nat :=
  {s | s = 0 ∨ s = 240 ∨ ∃ run < 16, ∃ size, 1 ≤ size ∧ size ≤ 10 ∧ s = run * 16 + size}

theorem codebookAC (chroma : Bool) :
    Codebook (htAC chroma) (codesAC chroma) symbolsAC := by
  refine ⟨reads_htAC chroma, ?_⟩
  have hspecial : ∀ chroma, ((codesAC chroma).find? (·.symbol = 0)).isSome ∧
      ((codesAC chroma).find? (·.symbol = 240)).isSome := by
    decide +kernel
  have hvalue : ∀ chroma, ∀ run < 16, ∀ size < 11, 1 ≤ size →
      ((codesAC chroma).find? (·.symbol = run * 16 + size)).isSome := by
    decide +kernel
  rintro s (rfl | rfl | ⟨run, hrun, size, hlo, hhi, rfl⟩)
  · exact (hspecial chroma).1
  · exact (hspecial chroma).2
  · exact hvalue chroma run hrun size (Nat.lt_succ_of_le hhi) hlo

namespace Reader

variable {words : List (BitVec 32)} {r : Reader} {k : Nat} {ht : HuffmanTable}
variable {codes : List Code} {symbols : Set Nat} {s : Nat} {v : Int}

/-- A code word is read as its symbol. -/
theorem At.readCode (h : At words k r) (hbook : Codebook ht codes symbols) (hs : s ∈ symbols)
    (hbits : Carries (bitAt words) k (codeFor codes s))
    (henough : 2 + (k + (codeFor codes s).length) / 32 ≤ words.length) :
    ∃ r', Codec.readSymbol ht r = .ok (r', BitVec.ofNat 8 s) ∧
      At words (k + (codeFor codes s).length) r' := by
  obtain ⟨c, hc, rfl, hreads⟩ := hbook.codeFor_spec hs
  rw [hc] at hbits henough ⊢
  rw [Code.bits, length_toBitsMsb] at henough ⊢
  exact h.readSymbol hreads hbits henough

/-- The bits of a value are read as the value. -/
theorem At.readValue (h : At words k r) (hv : v ≠ 0) (hcategory : category v ≤ 15)
    (hbits : Carries (bitAt words) k (valueBits v))
    (henough : 2 + (k + (valueBits v).length) / 32 ≤ words.length) :
    ∃ r' value, r.getKbits (category v) = .ok (r', value) ∧ value.toInt = v ∧
      At words (k + (valueBits v).length) r' := by
  rw [valueBits, length_toBitsMsb] at henough ⊢
  obtain ⟨r', value, hget, hat, hvalue⟩ := h.getKbits (category_pos hv) (by omega) henough
  refine ⟨r', value, hget, ?_, hat⟩
  rw [hvalue hcategory, bitsAt_eq_window, hbits.ofBitsMsb_window (amplitude_lt hv),
    extend_amplitude hv]

end Reader

/-! ### One round of the coefficient loop -/

/-- The cell of the coefficient at position `pos` of the scan. -/
def scan (pos : Nat) : Fin 64 := ⟨dezigzag (Fin.ofNat 79 pos), dezigzag_lt _⟩

theorem scan_eq {pos : Nat} (h : pos < 79) : scan pos = ⟨dezigzag ⟨pos, h⟩, dezigzag_lt _⟩ :=
  Fin.ext (congrArg dezigzag (Fin.ext (Nat.mod_eq_of_lt h)))

theorem size_of_symbol {run size : Nat} (hrun : run < 16) (hsize : size < 16) :
    (BitVec.ofNat 8 (run * 16 + size) &&& 15).toNat = size := by
  have hall : ∀ run < 16, ∀ size < 16,
      (BitVec.ofNat 8 (run * 16 + size) &&& 15).toNat = size := by decide +kernel
  exact hall run hrun size hsize

theorem run_of_symbol {run size : Nat} (hrun : run < 16) (hsize : size < 16) :
    ((BitVec.ofNat 8 (run * 16 + size)).sshiftRight 4 &&& 15).toNat = run := by
  have hall : ∀ run < 16, ∀ size < 16,
      ((BitVec.ofNat 8 (run * 16 + size)).sshiftRight 4 &&& 15).toNat = run := by decide +kernel
  exact hall run hrun size hsize

section Rounds
variable {ht : HuffmanTable} {r r₁ r₂ : Reader} {b5 run size : Nat} {value : BitVec 16}
variable (rounds : Nat) (coeff : Fin 64 → BitVec 32)

theorem acLoop_end (hread : readSymbol ht r = .ok (r₁, BitVec.ofNat 8 0)) :
    acLoop ht (rounds + 1) b5 r coeff = .ok (r₁, coeff) := by
  rw [acLoop, hread]
  rfl

theorem acLoop_zeros (hread : readSymbol ht r = .ok (r₁, BitVec.ofNat 8 240))
    (hb5 : b5 + 16 ≤ 63) :
    acLoop ht (rounds + 1) b5 r coeff = acLoop ht rounds (b5 + 16) r₁ coeff := by
  rw [acLoop, hread]
  change (if 64 ≤ b5 + 16 then _ else _) = _
  rw [if_neg (by omega)]

theorem acLoop_value (hrun : run < 16) (hlo : 1 ≤ size) (hhi : size < 16)
    (hread : readSymbol ht r = .ok (r₁, BitVec.ofNat 8 (run * 16 + size)))
    (hget : r₁.getKbits size = .ok (r₂, value)) (hpos : b5 + run ≤ 63) :
    acLoop ht (rounds + 1) b5 r coeff =
      if 64 ≤ b5 + run + 1 then
        .ok (r₂, Function.update coeff (scan (b5 + run)) (value.signExtend 32))
      else acLoop ht rounds (b5 + run + 1) r₂
        (Function.update coeff (scan (b5 + run)) (value.signExtend 32)) := by
  rw [acLoop, hread]
  change (if (BitVec.ofNat 8 (run * 16 + size) &&& 15).toNat = 0 then _ else _) = _
  rw [size_of_symbol hrun hhi, run_of_symbol hrun hhi, if_neg (by omega),
    rd_ok (show b5 + run < 79 by omega)]
  change (r₁.getKbits size >>= _) = _
  rw [hget]
  change (wr Site.dctCoeff coeff _ _ >>= _) = _
  rw [wr_ok (dezigzag_lt _), scan_eq (show b5 + run < 79 by omega)]
  rfl

end Rounds

/-! ### Round trip of the coefficients -/

/-- The coefficients written from position `pos` on, where zeros are not written. -/
def placeAC (pos : Nat) (coeff : Fin 64 → BitVec 32) : List Int → Fin 64 → BitVec 32
  | [] => coeff
  | v :: rest =>
      placeAC (pos + 1)
        (if v = 0 then coeff else Function.update coeff (scan pos) (BitVec.ofInt 32 v)) rest

namespace Reader

variable {words : List (BitVec 32)} {r : Reader} {k : Nat} {ht : HuffmanTable}
variable {codes : List Code}

/-- A code word for 16 zeros moves the position by 16 and leaves the coefficients. -/
theorem At.acLoop_runs (h : At words k r) (hbook : Codebook ht codes symbolsAC) {b5 n : Nat}
    (rounds : Nat) (coeff : Fin 64 → BitVec 32) (hb5 : b5 + 16 * n ≤ 63)
    (hbits : Carries (bitAt words) k (List.replicate n (codeFor codes 240)).flatten)
    (henough : 2 + (k + (List.replicate n (codeFor codes 240)).flatten.length) / 32 ≤
      words.length) :
    ∃ r', Codec.acLoop ht (n + rounds) b5 r coeff =
        Codec.acLoop ht rounds (b5 + 16 * n) r' coeff ∧
      At words (k + (List.replicate n (codeFor codes 240)).flatten.length) r' := by
  induction n generalizing k r b5 with
  | zero => exact ⟨r, by rw [Nat.zero_add]; rfl, h⟩
  | succ n ih =>
      rw [List.replicate_succ, List.flatten_cons] at hbits henough ⊢
      rw [List.length_append, ← Nat.add_assoc] at henough ⊢
      obtain ⟨hword, hrest⟩ := carries_append.mp hbits
      obtain ⟨r₁, hread, hat⟩ := h.readCode hbook (.inr (.inl rfl)) hword (by omega)
      obtain ⟨r', hloop, hat'⟩ := ih hat (show b5 + 16 + 16 * n ≤ 63 by omega) hrest henough
      refine ⟨r', ?_, hat'⟩
      rw [show n + 1 + rounds = n + rounds + 1 by omega,
        acLoop_zeros _ coeff hread (by omega), hloop,
        show b5 + 16 + 16 * n = b5 + 16 * (n + 1) by omega]

/-- The coefficient loop gives back the coefficients it was given the encoding of. -/
theorem At.acLoop (h : At words k r) (hbook : Codebook ht codes symbolsAC) {rest : List Int}
    (hrest : ∀ v ∈ rest, category v ≤ 10) {run b5 rounds : Nat}
    (hlen : b5 + run + rest.length = 64) (hb5 : b5 ≤ 63) (hrounds : 64 ≤ b5 + rounds)
    (coeff : Fin 64 → BitVec 32)
    (hbits : Carries (bitAt words) k (encodeAC codes run rest))
    (henough : 2 + (k + (encodeAC codes run rest).length) / 32 ≤ words.length) :
    ∃ r', Codec.acLoop ht rounds b5 r coeff = .ok (r', placeAC (b5 + run) coeff rest) ∧
      At words (k + (encodeAC codes run rest).length) r' := by
  induction rest generalizing k r run b5 rounds coeff with
  | nil =>
      rw [List.length_nil] at hlen
      rw [encodeAC, if_neg (by omega)] at hbits henough ⊢
      obtain ⟨r', hread, hat⟩ := h.readCode hbook (.inl rfl) hbits henough
      obtain ⟨rounds, rfl⟩ : ∃ n, rounds = n + 1 := ⟨rounds - 1, by omega⟩
      exact ⟨r', acLoop_end rounds coeff hread, hat⟩
  | cons v rest ih =>
      have hv := hrest v List.mem_cons_self
      have hrest' : ∀ v ∈ rest, category v ≤ 10 := fun v hv => hrest v (List.mem_cons_of_mem _ hv)
      rw [List.length_cons] at hlen
      rw [encodeAC] at hbits henough ⊢
      by_cases hzero : v = 0
      · rw [if_pos hzero] at hbits henough ⊢
        rw [placeAC, if_pos hzero]
        exact ih h hrest' (show b5 + (run + 1) + rest.length = 64 by omega) hb5 hrounds coeff hbits
          henough
      · rw [if_neg hzero] at hbits henough ⊢
        rw [placeAC, if_neg hzero]
        simp only [List.length_append, ← Nat.add_assoc] at henough ⊢
        obtain ⟨hruns, hbits⟩ := carries_append.mp hbits
        obtain ⟨hword, hbits⟩ := carries_append.mp hbits
        obtain ⟨hvalue, hbits⟩ := carries_append.mp hbits
        obtain ⟨rounds, rfl⟩ : ∃ n, rounds = run / 16 + (n + 1) :=
          ⟨rounds - run / 16 - 1, by omega⟩
        obtain ⟨r₁, hloop, hat⟩ :=
          h.acLoop_runs hbook (rounds + 1) coeff (show b5 + 16 * (run / 16) ≤ 63 by omega) hruns
            (by omega)
        obtain ⟨r₂, hread, hat⟩ := hat.readCode hbook
          (.inr (.inr ⟨run % 16, by omega, category v, category_pos hzero, hv, rfl⟩)) hword
          (by omega)
        obtain ⟨r₃, value, hget, hint, hat⟩ := hat.readValue hzero (by omega) hvalue (by omega)
        have hround := acLoop_value rounds coeff (show run % 16 < 16 by omega)
          (category_pos hzero) (by omega) hread hget
          (show b5 + 16 * (run / 16) + run % 16 ≤ 63 by omega)
        rw [show b5 + 16 * (run / 16) + run % 16 = b5 + run by omega] at hround
        rw [hloop, hround, BitVec.signExtend, hint]
        by_cases hend : 64 ≤ b5 + run + 1
        · obtain rfl : rest = [] := List.length_eq_zero_iff.mp (by omega)
          rw [if_pos hend]
          exact ⟨r₃, rfl, hat⟩
        · rw [if_neg hend]
          exact ih hat hrest' (by omega) (by omega) (by omega) _ hbits henough

theorem setWidth_ofInt (v : Int) : (BitVec.ofInt 32 v).setWidth 16 = BitVec.ofInt 16 v := by
  apply BitVec.eq_of_toNat_eq
  rw [BitVec.toNat_setWidth, BitVec.toNat_ofInt, BitVec.toNat_ofInt]
  omega

/-- The first coefficient is the predictor plus the encoded difference. -/
theorem At.readDC (h : At words k r) (chroma : Bool) (pred : BitVec 16) {dc : Int}
    (hdiff : category (dc - pred.toInt) ≤ 11)
    (hbits : Carries (bitAt words) k (encodeDC (codesDC chroma) (dc - pred.toInt)))
    (henough : 2 + (k + (encodeDC (codesDC chroma) (dc - pred.toInt)).length) / 32 ≤
      words.length) :
    ∃ r', Codec.readDC chroma pred r = .ok (r', BitVec.ofInt 32 dc, BitVec.ofInt 16 dc) ∧
      At words (k + (encodeDC (codesDC chroma) (dc - pred.toInt)).length) r' := by
  rw [encodeDC] at hbits henough ⊢
  rw [List.length_append, ← Nat.add_assoc] at henough ⊢
  obtain ⟨hword, hvalue⟩ := carries_append.mp hbits
  obtain ⟨r₁, hread, hat⟩ := h.readCode (codebookDC chroma) hdiff hword (by omega)
  rw [Codec.readDC, hread]
  change ∃ r', (if BitVec.ofNat 8 (category (dc - pred.toInt)) = 0 then _ else _) = _ ∧ _
  have hnat : (BitVec.ofNat 8 (category (dc - pred.toInt))).toNat = category (dc - pred.toInt) :=
    Nat.mod_eq_of_lt (by omega)
  by_cases hzero : dc - pred.toInt = 0
  · obtain rfl : dc = pred.toInt := by omega
    rw [hzero] at hat ⊢
    rw [category_zero, if_pos (show BitVec.ofNat 8 0 = 0 from rfl), BitVec.ofInt_toInt]
    exact ⟨r₁, rfl, hat⟩
  · obtain ⟨r₂, value, hget, hint, hat⟩ := hat.readValue hzero (by omega) hvalue henough
    have hcategory := category_pos hzero
    rw [if_neg fun hbv => by rw [hbv] at hnat; simp at hnat; omega, hnat, hget]
    refine ⟨r₂, ?_, hat⟩
    have hsum : pred.signExtend 32 + value.signExtend 32 = BitVec.ofInt 32 dc := by
      rw [BitVec.signExtend, BitVec.signExtend, ← BitVec.ofInt_add, hint, add_sub_cancel]
    change Except.ok (r₂, pred.signExtend 32 + value.signExtend 32,
      (pred.signExtend 32 + value.signExtend 32).setWidth 16) = _
    rw [hsum, setWidth_ofInt]

end Reader

/-! ### The block -/

theorem zigzag_scan {i : Nat} (h : i < 64) : (zigzag (scan i)).val = i := by
  revert i
  decide

theorem scan_zigzag (p : Fin 64) : scan (zigzag p) = p := by
  revert p
  decide

theorem scan_injective {i j : Nat} (hi : i < 64) (hj : j < 64) (h : scan i = scan j) : i = j := by
  rw [← zigzag_scan hi, h, zigzag_scan hj]

/-- The coefficients stand in the cells of their positions. -/
theorem placeAC_scan {pos : Nat} {coeff : Fin 64 → BitVec 32} {rest : List Int}
    (hlen : pos + rest.length ≤ 64) (hzero : ∀ j, pos ≤ j → j < 64 → coeff (scan j) = 0)
    {i : Nat} (hi : i < 64) :
    placeAC pos coeff rest (scan i) =
      if pos ≤ i then BitVec.ofInt 32 (rest.getD (i - pos) 0) else coeff (scan i) := by
  induction rest generalizing pos coeff with
  | nil =>
      rw [placeAC]
      split_ifs with hpos
      · exact hzero i hpos hi
      · rfl
  | cons v rest ih =>
      rw [List.length_cons] at hlen
      have hother : ∀ j, j ≠ pos → j < 64 →
          (if v = 0 then coeff else Function.update coeff (scan pos) (BitVec.ofInt 32 v))
            (scan j) = coeff (scan j) := by
        intro j hj hj'
        split_ifs
        · rfl
        · exact Function.update_of_ne (fun h => hj (scan_injective hj' (by omega) h)) _ _
      rw [placeAC, ih (by omega) fun j hj hj' => by
        rw [hother j (by omega) hj', hzero j (by omega) hj']]
      by_cases heq : i = pos
      · subst heq
        rw [if_neg (by omega), if_pos le_rfl, Nat.sub_self, List.getD_cons_zero]
        split_ifs with hv
        · rw [hv, hzero i le_rfl hi]
          rfl
        · exact Function.update_self _ _ _
      · rw [hother i heq hi]
        by_cases hlt : pos < i
        · rw [if_pos (by omega), if_pos (by omega), show i - pos = i - (pos + 1) + 1 by omega,
            List.getD_cons_succ]
        · rw [if_neg (by omega), if_neg (by omega)]

/-- The unit of an encoded block, on its own. -/
theorem Reader.At.decodeHuffmanDataUnit {words : List (BitVec 32)} {r : Reader} {k : Nat}
    (h : Reader.At words k r) (chroma : Bool) (pred : BitVec 16) (block : Fin 64 → Int)
    (hdiff : category (block 0 - pred.toInt) ≤ 11) (hac : ∀ i, i ≠ 0 → category (block i) ≤ 10)
    (hbits : Carries (bitAt words) k (encodeBlock chroma pred.toInt block))
    (henough : 2 + (k + (encodeBlock chroma pred.toInt block).length) / 32 ≤ words.length) :
    ∃ r' coeff, Codec.decodeHuffmanDataUnit chroma pred r =
        .ok (r', coeff, BitVec.ofInt 16 (block 0)) ∧
      (∀ i : Fin 64, coeff (scan i) = BitVec.ofInt 32 (block i)) ∧
      Reader.At words (k + (encodeBlock chroma pred.toInt block).length) r' := by
  rw [encodeBlock] at hbits henough ⊢
  rw [List.length_append, ← Nat.add_assoc] at henough ⊢
  obtain ⟨hdcBits, hacBits⟩ := carries_append.mp hbits
  obtain ⟨r₁, hdc, hat⟩ := h.readDC chroma pred hdiff hdcBits (by omega)
  have hcategories : ∀ v ∈ List.ofFn fun i : Fin 63 => block i.succ, category v ≤ 10 := by
    intro v hv
    obtain ⟨i, rfl⟩ := (List.mem_ofFn' _ _).mp hv
    exact hac _ (Fin.succ_ne_zero i)
  obtain ⟨r₂, hloop, hat⟩ := hat.acLoop (codebookAC chroma) hcategories
    (show 1 + 0 + _ = 64 by rw [List.length_ofFn]) (by omega) (show 64 ≤ 1 + 63 by omega)
    (Function.update (fun _ => 0) 0 (BitVec.ofInt 32 (block 0))) hacBits henough
  refine ⟨r₂, placeAC 1 (Function.update (fun _ => 0) 0 (BitVec.ofInt 32 (block 0)))
    (List.ofFn fun i : Fin 63 => block i.succ), ?_, ?_, hat⟩
  · rw [Codec.decodeHuffmanDataUnit, hdc]
    change (Codec.acLoop _ _ _ _ _ >>= _) = _
    rw [hloop]
    rfl
  · intro i
    have hfirst : ∀ j, j ≠ 0 → j < 64 →
        Function.update (fun _ => (0 : BitVec 32)) 0 (BitVec.ofInt 32 (block 0)) (scan j) = 0 := by
      intro j hj hj'
      exact Function.update_of_ne (fun hscan => hj (scan_injective hj' (by omega) hscan)) _ _
    rw [placeAC_scan (by rw [List.length_ofFn]) (fun j hj => hfirst j (by omega)) i.isLt]
    cases i using Fin.cases with
    | zero =>
        rw [if_neg (by simp)]
        change Function.update _ 0 _ 0 = _
        exact Function.update_self 0 _ _
    | succ i =>
        rw [if_pos (by simp), Fin.val_succ, Nat.add_sub_cancel, List.getD_eq_getElem?_getD,
          List.getElem?_ofFn, dif_pos i.isLt]
        rfl

theorem toInt_ofInt_of_category {v : Int} {s : Nat} (hs : s ≤ 31) (h : category v ≤ s) :
    (BitVec.ofInt 32 v).toInt = v := by
  have hlt := category_le_iff.mp h
  have hpow : 2 ^ s ≤ 2 ^ 31 := Nat.pow_le_pow_right (by omega) hs
  apply BitVec.toInt_ofInt_eq_self (by omega) <;> omega

/-- Round trip: where the stream carries the encoding of a block, decoding the unit into the
cells at `off` leaves the coefficients of the block there and zeros elsewhere, returns the new
predictor and consumes exactly the encoding. On any stream at all the scan order is never read
past its 79 entries. -/
theorem decodeHuffmanDataUnit_encoded (chroma : Bool) (pred : BitVec 16) (block : Fin 64 → Int)
    (off : Nat) (words : List (BitVec 32)) (k : Nat) (r : Reader)
    (hdc : -2 ^ 15 ≤ block 0 ∧ block 0 < 2 ^ 15)
    (hdiff : category (block 0 - pred.toInt) ≤ 11) (hac : ∀ i, i ≠ 0 → category (block i) ≤ 10)
    (hoff : off + 64 ≤ 384) (hat : Reader.At words k r)
    (hbits : Carries (bitAt words) k (encodeBlock chroma pred.toInt block))
    (henough : 2 + (k + (encodeBlock chroma pred.toInt block).length) / 32 ≤ words.length) :
    (∃ r' dctCoeff pred', decodeHuffmanDataUnitInto chroma pred off r = .ok (r', dctCoeff, pred') ∧
      (∀ i : Fin 64, (dctCoeff ⟨off + scan i, by omega⟩).toInt = block i) ∧
      (∀ j : Fin 384, (∀ i : Fin 64, j.val ≠ off + scan i) → dctCoeff j = 0) ∧
      pred'.toInt = block 0 ∧
      Reader.At words (k + (encodeBlock chroma pred.toInt block).length) r') ∧
    ∀ chroma' pred' off' r',
      decodeHuffmanDataUnitInto chroma' pred' off' r' ≠ .error .dezigzag := by
  constructor
  · obtain ⟨r', coeff, hdecode, hcoeff, hat'⟩ :=
      hat.decodeHuffmanDataUnit chroma pred block hdiff hac hbits henough
    refine ⟨r', embedUnit off coeff, BitVec.ofInt 16 (block 0), ?_, ?_, ?_, ?_, hat'⟩
    · rw [decodeHuffmanDataUnitInto_eq hoff, hdecode]
      rfl
    · intro i
      rw [embedUnit_apply hoff, hcoeff i]
      by_cases hi : i = 0
      · subst hi
        apply BitVec.toInt_ofInt_eq_self (by omega) <;> omega
      · exact toInt_ofInt_of_category (by omega) (hac i hi)
    · intro j hj
      rw [embedUnit, dif_neg]
      rintro ⟨hlo, hhi⟩
      apply hj (zigzag ⟨j - off, by omega⟩)
      rw [scan_zigzag]
      change j.val = off + (j.val - off)
      omega
    · apply BitVec.toInt_ofInt_eq_self (by omega) <;> omega
  · intro chroma' pred' off' r' herror
    exact (meets_decodeHuffmanDataUnitInto_site chroma' pred' off' r').of_eq_error herror rfl

/-- A block with two coefficients, the second one behind 19 zeros. -/
theorem decodeHuffmanDataUnit_encoded_two :
    ∃ r' dctCoeff pred', decodeHuffmanDataUnitInto false 0 64
        (Reader.start [0x97FCFDCA, 0, 0]) = .ok (r', dctCoeff, pred') ∧
      (∀ i : Fin 64, (dctCoeff ⟨64 + scan i, by omega⟩).toInt =
        if i = 0 then 5 else if i = 20 then -3 else 0) ∧
      Reader.At [0x97FCFDCA, 0, 0] 32 r' := by
  obtain ⟨⟨r', dctCoeff, pred', hdecode, hcoeff, -, -, hat⟩, -⟩ :=
    decodeHuffmanDataUnit_encoded false 0 (fun i => if i = 0 then 5 else if i = 20 then -3 else 0)
      64 [0x97FCFDCA, 0, 0] 0 (Reader.start [0x97FCFDCA, 0, 0]) (by decide) (by decide +kernel)
      (by decide +kernel) (by decide) (Reader.at_start (by decide)) (by decide +kernel)
      (by decide +kernel)
  have hlength : (encodeBlock false (0 : BitVec 16).toInt
      fun i => if i = 0 then 5 else if i = 20 then -3 else 0).length = 32 := by
    decide +kernel
  rw [hlength] at hat
  exact ⟨r', dctCoeff, pred', hdecode, hcoeff, hat⟩

end Outband.Kvm.Codec
