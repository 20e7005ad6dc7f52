import Outband.Ilo.Client
import Outband.Ilo.Crypto

/-!
# The console channel

A translation of `Channel` in `internal/ilo/rc/console.go` and of the calls on it
that the decoder causes through the client. One selection of a cipher starts a
keystream for each direction; a selection that fails leaves both as they were.

## Implementation notes

`Send` encrypts a frame and writes it. Between the two other goroutines may run,
so they are separate functions here. What has been written to the connection is
kept in `sent`.
-/

namespace Outband.Ilo.Console

open Foundation Dvc

/-! ### Input records -/

/-- The keyboard record with its modifiers and at most six keys. -/
def KeyboardReport (modifiers : BitVec 8) (keys : List (BitVec 8)) : List (BitVec 8) :=
  [0x01, 0, modifiers, 0] ++ (keys ++ List.replicate 6 0).take 6

def RefreshScreen : List (BitVec 8) := [0x05, 0]

def Ack : List (BitVec 8) := [0x0C, 0]

/-! ### The channel -/

structure Channel where
  encKey : List (BitVec 8)
  dvcEncrypt : Bool := false
  decryptStream : Option Keystream := none
  encryptStream : Option Keystream := none
  sent : List (BitVec 8) := []

/-- The channel that `dialChannel` returns: no cipher is selected yet. -/
def dialChannel (encKey : List (BitVec 8)) : Channel := { encKey }

namespace Channel

variable (aes : Aes)

/-- Select the cipher of both directions. -/
def SetCipher (c : Channel) (cipher : Nat) : Except KeyError Channel := do
  let dec ← MakeKeystream cipher c.encKey
  let enc ← MakeKeystream cipher c.encKey
  pure { c with decryptStream := dec, encryptStream := enc, dvcEncrypt := cipher ≠ CipherNone }

/-- A selection starts the keystream it makes, or changes nothing. -/
theorem SetCipher_spec (c : Channel) (cipher : Nat) :
    c.SetCipher cipher = (MakeKeystream cipher c.encKey).map fun ks =>
      { c with decryptStream := ks, encryptStream := ks, dvcEncrypt := cipher ≠ CipherNone } := by
  unfold SetCipher
  cases MakeKeystream cipher c.encKey <;> rfl

/-- The bytes of a frame as they go on the wire, with the keystream bytes taken for them. -/
def encrypt (c : Channel) (frame : List (BitVec 8)) : List (BitVec 8) × Channel :=
  if c.dvcEncrypt then
    ((mask (nextKey aes) c.encryptStream frame).1,
      { c with encryptStream := (mask (nextKey aes) c.encryptStream frame).2 })
  else (frame, c)

def write (c : Channel) (out : List (BitVec 8)) : Channel := { c with sent := c.sent ++ out }

def Send (c : Channel) (frame : List (BitVec 8)) : Channel :=
  (c.encrypt aes frame).2.write (c.encrypt aes frame).1

/-- Decrypt one byte of the wire. -/
def Decrypt (c : Channel) (b : BitVec 8) : BitVec 8 × Channel :=
  if c.dvcEncrypt then
    (b ^^^ (nextKey aes c.decryptStream).1,
      { c with decryptStream := (nextKey aes c.decryptStream).2 })
  else (b, c)

/-- The client's side of a call of the decoder. A failed selection is only logged. -/
def control (c : Channel) : Event → Channel
  | .setCipher cipher =>
      match c.SetCipher cipher with
      | .ok c => c
      | .error _ => c
  | .sendAck => c.Send aes Ack
  | .refreshScreen => c.Send aes RefreshScreen
  | _ => c

end Channel

/-- The channel as the receive loop uses it. -/
def channel (aes : Aes) : Ilo.Channel Channel where
  decrypt := Channel.Decrypt aes
  control := Channel.control aes

end Outband.Ilo.Console
