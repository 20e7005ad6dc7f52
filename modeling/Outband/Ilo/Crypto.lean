import Outband.Foundation.StreamCipher

/-!
# Stream ciphers of the iLO console

A translation of the keystreams in `internal/ilo/rc/crypto.go`: RC4 with a key of
16 bytes, and AES in OFB mode with a zero initial vector. The block cipher is the
one of the standard library, so it is a parameter here.
-/

namespace Outband.Ilo

open Foundation

/-- The cipher selectors of the DVC commands. -/
def CipherNone : Nat := 0

def CipherRC4 : Nat := 1

def CipherAES128 : Nat := 2

def CipherAES256 : Nat := 3

/-! ### RC4 -/

/-- The key, the permutation and the two indices. -/
structure RC4 where
  pre : List (BitVec 8)
  sbox : List (BitVec 8) := []
  i : Nat := 0
  j : Nat := 0
  deriving DecidableEq, Repr

namespace RC4

/-- `sbox[a], sbox[b] = sbox[b], sbox[a]` -/
def swap (sbox : List (BitVec 8)) (a b : Nat) : List (BitVec 8) :=
  (sbox.set a (sbox.getD b 0)).set b (sbox.getD a 0)

/-- One round of the key schedule, on the permutation and `j`. -/
def scheduleRound (pre : List (BitVec 8)) (s : List (BitVec 8) × Nat) (n : Nat) :
    List (BitVec 8) × Nat :=
  let j := (s.2 + (s.1.getD n 0).toNat + (pre.getD (n % 16) 0).toNat) % 256
  (swap s.1 n j, j)

/-- Run the key schedule from the key. -/
def UpdateKey (r : RC4) : RC4 :=
  let start := ((List.range 256).map (BitVec.ofNat 8), 0)
  { r with sbox := ((List.range 256).foldl (scheduleRound r.pre) start).1, i := 0, j := 0 }

def NewRC4 (key : List (BitVec 8)) : RC4 := UpdateKey { pre := key.take 16 }

/-- The next byte of the keystream. -/
def RandomValue (r : RC4) : BitVec 8 × RC4 :=
  let i := (r.i + 1) % 256
  let j := (r.j + (r.sbox.getD i 0).toNat) % 256
  let sbox := swap r.sbox i j
  (sbox.getD (((sbox.getD i 0).toNat + (sbox.getD j 0).toNat) % 256) 0, { r with sbox, i, j })

end RC4

/-! ### AES in OFB mode -/

/-- A block of the block cipher. -/
abbrev Block := Fin 16 → BitVec 8

/-- The block cipher: key, block, encrypted block. -/
abbrev Aes := List (BitVec 8) → Block → Block

structure AESOFB where
  key : List (BitVec 8)
  feedback : Block := fun _ => 0
  pos : Fin 16 := 0

/-- The next byte of the keystream; a new block is made when the last one is used up. -/
def AESOFB.RandomValue (aes : Aes) (a : AESOFB) : BitVec 8 × AESOFB :=
  let feedback := if a.pos = 0 then aes a.key a.feedback else a.feedback
  (feedback a.pos, { a with feedback, pos := a.pos + 1 })

/-! ### Selection -/

inductive Keystream
  | rc4 (r : RC4)
  | aes (a : AESOFB)

def Keystream.RandomValue (aes : Aes) : Keystream → BitVec 8 × Keystream
  | .rc4 r => (r.RandomValue.1, .rc4 r.RandomValue.2)
  | .aes a => ((a.RandomValue aes).1, .aes (a.RandomValue aes).2)

/-- `rc4: key too short`, `aes: need %d key bytes` and `unknown cipher %d`. -/
inductive KeyError
  | rc4KeyTooShort
  | aesKeyTooShort (need : Nat)
  | unknownCipher (cipher : Nat)
  deriving DecidableEq, Repr

def NewAESOFB (key : List (BitVec 8)) (keyLen : Nat) : Except KeyError AESOFB :=
  if key.length < keyLen then .error (.aesKeyTooShort keyLen) else .ok { key := key.take keyLen }

/-- The keystream of a cipher; the cipher `CipherNone` has none. -/
def MakeKeystream (cipher : Nat) (key : List (BitVec 8)) : Except KeyError (Option Keystream) :=
  if cipher = CipherNone then .ok none
  else if cipher = CipherRC4 then
    if key.length < 16 then .error .rc4KeyTooShort else .ok (some (.rc4 (RC4.NewRC4 (key.take 16))))
  else if cipher = CipherAES128 then (NewAESOFB key 16).map fun a => some (.aes a)
  else if cipher = CipherAES256 then (NewAESOFB key 32).map fun a => some (.aes a)
  else .error (.unknownCipher cipher)

/-- The stream of a keystream that may be absent: without one a text stays as it is. -/
def nextKey (aes : Aes) : Option Keystream → BitVec 8 × Option Keystream
  | none => (0, none)
  | some ks => ((ks.RandomValue aes).1, some (ks.RandomValue aes).2)

@[simp] theorem mask_none (aes : Aes) (bs : List (BitVec 8)) :
    mask (nextKey aes) none bs = (bs, none) := by
  induction bs with
  | nil => rfl
  | cons b bs ih => simp [nextKey, ih]

end Outband.Ilo
