import Outband.Foundation.Bytes

/-!
# Keysyms and the held keys

The AMI and the iLO sink share their keysym tables and the state that `KeyEvent`
updates (`internal/kvm/usbhid.go` and `hid.go`, `internal/ilo/rc/usbhid.go` and
`hid.go`): a bit mask of modifiers and at most six keys.
-/

namespace Outband.Hid

def modLeftCtrl : BitVec 8 := 0x01
def modLeftShift : BitVec 8 := 0x02
def modLeftAlt : BitVec 8 := 0x04
def modLeftGUI : BitVec 8 := 0x08
def modRightCtrl : BitVec 8 := 0x10
def modRightShift : BitVec 8 := 0x20
def modRightAlt : BitVec 8 := 0x40
def modRightGUI : BitVec 8 := 0x80

/-- The modifier bit a keysym toggles. -/
def modifierKeysym : List (BitVec 32 × BitVec 8) :=
  [(0xffe1, modLeftShift), (0xffe2, modRightShift), (0xffe3, modLeftCtrl),
    (0xffe4, modRightCtrl), (0xffe9, modLeftAlt), (0xffea, modRightAlt), (0xfe03, modRightAlt),
    (0xffeb, modLeftGUI), (0xffec, modRightGUI), (0xffe7, modLeftGUI), (0xffe8, modRightGUI)]

/-- The usages of the letters, from `init`. -/
def letterUsage : List (BitVec 32 × BitVec 8) :=
  (List.range 26).flatMap fun i =>
    [(BitVec.ofNat 32 (0x61 + i), BitVec.ofNat 8 (0x04 + i)),
      (BitVec.ofNat 32 (0x41 + i), BitVec.ofNat 8 (0x04 + i))]

/-- The usage of a keysym that is no modifier. -/
def usbUsage : List (BitVec 32 × BitVec 8) :=
  [(0x31, 0x1e), (0x32, 0x1f), (0x33, 0x20), (0x34, 0x21), (0x35, 0x22), (0x36, 0x23),
    (0x37, 0x24), (0x38, 0x25), (0x39, 0x26), (0x30, 0x27),
    (0x21, 0x1e), (0x40, 0x1f), (0x23, 0x20), (0x24, 0x21), (0x25, 0x22), (0x5e, 0x23),
    (0x26, 0x24), (0x2a, 0x25), (0x28, 0x26), (0x29, 0x27),
    (0xff0d, 0x28), (0xff1b, 0x29), (0xff08, 0x2a), (0xff09, 0x2b), (0x20, 0x2c),
    (0x2d, 0x2d), (0x5f, 0x2d), (0x3d, 0x2e), (0x2b, 0x2e), (0x5b, 0x2f), (0x7b, 0x2f),
    (0x5d, 0x30), (0x7d, 0x30), (0x5c, 0x31), (0x7c, 0x31), (0x3b, 0x33), (0x3a, 0x33),
    (0x27, 0x34), (0x22, 0x34), (0x60, 0x35), (0x7e, 0x35), (0x2c, 0x36), (0x3c, 0x36),
    (0x2e, 0x37), (0x3e, 0x37), (0x2f, 0x38), (0x3f, 0x38), (0xffe5, 0x39),
    (0xffbe, 0x3a), (0xffbf, 0x3b), (0xffc0, 0x3c), (0xffc1, 0x3d), (0xffc2, 0x3e),
    (0xffc3, 0x3f), (0xffc4, 0x40), (0xffc5, 0x41), (0xffc6, 0x42), (0xffc7, 0x43),
    (0xffc8, 0x44), (0xffc9, 0x45),
    (0xff61, 0x46), (0xff14, 0x47), (0xff13, 0x48), (0xff63, 0x49), (0xff50, 0x4a),
    (0xff55, 0x4b), (0xffff, 0x4c), (0xff57, 0x4d), (0xff56, 0x4e), (0xff53, 0x4f),
    (0xff51, 0x50), (0xff54, 0x51), (0xff52, 0x52), (0xff7f, 0x53),
    (0xffaf, 0x54), (0xffaa, 0x55), (0xffad, 0x56), (0xffab, 0x57), (0xff8d, 0x58),
    (0xffb1, 0x59), (0xffb2, 0x5a), (0xffb3, 0x5b), (0xffb4, 0x5c), (0xffb5, 0x5d),
    (0xffb6, 0x5e), (0xffb7, 0x5f), (0xffb8, 0x60), (0xffb9, 0x61), (0xffb0, 0x62),
    (0xffae, 0x63), (0xffbd, 0x67), (0xff67, 0x65)] ++ letterUsage

/-- A key without an entry has the value 0. -/
def usageFor (keysym : BitVec 32) : BitVec 8 := (usbUsage.lookup keysym).getD 0

def modBitFor (keysym : BitVec 32) : BitVec 8 := (modifierKeysym.lookup keysym).getD 0

def scancodePassthroughBase : BitVec 32 := 0xF0000000

/-- The raw usage in a keysym of the pass-through range. -/
def usbUsageFromKeysym (keysym : BitVec 32) : Option (BitVec 8) :=
  if keysym &&& 0xFFFFFF00 = scancodePassthroughBase then some (keysym.setWidth 8) else none

def modBitForUsage (usage : BitVec 8) : BitVec 8 :=
  if usage = 0xE0 then modLeftCtrl
  else if usage = 0xE1 then modLeftShift
  else if usage = 0xE2 then modLeftAlt
  else if usage = 0xE3 then modLeftGUI
  else if usage = 0xE4 then modRightCtrl
  else if usage = 0xE5 then modRightShift
  else if usage = 0xE6 then modRightAlt
  else if usage = 0xE7 then modRightGUI
  else 0

/-- The characters that need Shift, besides the capital letters. -/
def shiftedASCII : List Nat :=
  [0x21, 0x40, 0x23, 0x24, 0x25, 0x5e, 0x26, 0x2a, 0x28, 0x29, 0x5f, 0x2b, 0x7b, 0x7d, 0x7c,
    0x3a, 0x22, 0x7e, 0x3c, 0x3e, 0x3f]

/-- The usage of a character and whether Shift must be held. -/
def asciiToUsage (r : Nat) : Option (BitVec 8 × Bool) :=
  if r = 0x0a ∨ r = 0x0d then some (0x28, false)
  else if r = 0x09 then some (0x2b, false)
  else if r < 0x20 ∨ r > 0x7e then none
  else if usageFor (BitVec.ofNat 32 r) = 0 then none
  else some (usageFor (BitVec.ofNat 32 r), decide ((0x41 ≤ r ∧ r ≤ 0x5a) ∨ r ∈ shiftedASCII))

/-! ### The held keys -/

/-- There is room for no key. -/
theorem room_nil : ([] : List (BitVec 8)).length ≤ 6 := by decide

/-- There is room for one key. -/
theorem room_singleton (usage : BitVec 8) : [usage].length ≤ 6 := by
  rw [List.length_singleton]
  decide

/-- The modifiers and the keys a sink holds down, of which a report has room for six. -/
structure Held where
  mods : BitVec 8 := 0
  pressed : List (BitVec 8) := []
  room : pressed.length ≤ 6 := by first | exact room_nil | exact room_singleton _
  deriving DecidableEq

namespace Held

def setMod (h : Held) (bit : BitVec 8) (down : Bool) : Held :=
  { h with mods := if down then h.mods ||| bit else h.mods &&& ~~~bit }

def addKey (h : Held) (usage : BitVec 8) : Held :=
  if usage ∈ h.pressed then h
  else if hroom : h.pressed.length < 6 then
    { h with
      pressed := h.pressed ++ [usage]
      room := by
        rw [List.length_append]
        exact hroom }
  else h

def removeKey (h : Held) (usage : BitVec 8) : Held :=
  { h with
    pressed := h.pressed.erase usage
    room := (h.pressed.length_erase_le (a := usage)).trans h.room }

def setKey (h : Held) (usage : BitVec 8) (down : Bool) : Held :=
  if down then h.addKey usage else h.removeKey usage

/-- The locked section of `KeyEvent`, undefined for a key without an entry. -/
def keyEvent (h : Held) (keysym : BitVec 32) (down : Bool) : Option Held :=
  match usbUsageFromKeysym keysym with
  | some usage =>
      if modBitForUsage usage ≠ 0 then some (h.setMod (modBitForUsage usage) down)
      else some (h.setKey usage down)
  | none =>
      if modBitFor keysym ≠ 0 then some (h.setMod (modBitFor keysym) down)
      else if usageFor keysym ≠ 0 then some (h.setKey (usageFor keysym) down)
      else none

end Held

end Outband.Hid
