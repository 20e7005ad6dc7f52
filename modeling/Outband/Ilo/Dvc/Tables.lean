import Mathlib.Algebra.Order.Ring.Nat
import Mathlib.Data.List.Basic

/-!
# DVC states and transition tables

The states of the iLO video decoder (`internal/ilo/rc/dvc.go`), in the order of
their numbers there, and the three tables indexed by them. `bitsToReadInit` and
`next1Init` are initial contents: the decoder overwrites some of their entries.
-/

namespace Outband.Ilo.Dvc

/-- The decoder states, numbered from `reset = 0` to `mode2 = 47`. -/
inductive State
  | reset | start | pixels | pixlru1 | pixlru0 | pixcode1 | pixcode2 | pixcode3
  | pixgrey | pixrgbr | pixrpt | pixrpt1 | pixrptstd1 | pixrptstd2 | pixrptnstd | cmd
  | cmd0 | movexy0 | extcmd | cmdx | moveshortx | movelongx | blkrpt | extcmd1
  | firmware | extcmd2 | mode0 | timeout | blkrpt1 | blkrptstd | blkrptnstd | pixfan
  | pixcode4 | pixdup | blkdup | pixcode | pixspec | exit | latched | movexy1
  | mode1 | pixrgbg | pixrgbb | hunt | print0 | print1 | corp | mode2
  deriving DecidableEq, Repr

/-- All states in the order of their numbers. -/
def states : List State :=
  [.reset, .start, .pixels, .pixlru1, .pixlru0, .pixcode1, .pixcode2, .pixcode3,
    .pixgrey, .pixrgbr, .pixrpt, .pixrpt1, .pixrptstd1, .pixrptstd2, .pixrptnstd, .cmd,
    .cmd0, .movexy0, .extcmd, .cmdx, .moveshortx, .movelongx, .blkrpt, .extcmd1,
    .firmware, .extcmd2, .mode0, .timeout, .blkrpt1, .blkrptstd, .blkrptnstd, .pixfan,
    .pixcode4, .pixdup, .blkdup, .pixcode, .pixspec, .exit, .latched, .movexy1,
    .mode1, .pixrgbg, .pixrgbb, .hunt, .print0, .print1, .corp, .mode2]

/-- The number of a state in the source. -/
def State.code (s : State) : Nat := states.idxOf s

/-- The state with a given number. -/
def State.ofCode (n : Nat) : State := states.getD n .reset

/-- Entry `s` of a table that holds one number per state. -/
def entry (table : List Nat) (s : State) : Nat := table.getD s.code 0

def bitsToReadInit : State → Nat := entry
  [0, 1, 1, 1, 1, 1, 2, 3, 5, 5, 1, 1, 3, 3, 8, 1, 1, 7, 1, 1, 3,
    7, 1, 1, 8, 1, 7, 0, 1, 3, 7, 1, 4, 0, 0, 0, 1, 0, 1, 7, 7, 5,
    5, 1, 8, 8, 1, 4]

def next0 (s : State) : State := .ofCode <| entry
  [1, 2, 31, 2, 2, 10, 10, 10, 10, 41, 2, 33, 2, 2, 2, 16, 19, 39, 22,
    20, 1, 1, 34, 25, 46, 26, 40, 1, 29, 1, 1, 36, 10, 2, 1, 35, 8, 37,
    38, 1, 47, 42, 10, 43, 45, 45, 1, 1] s

def next1Init (s : State) : State := .ofCode <| entry
  [1, 15, 3, 11, 11, 10, 10, 10, 10, 41, 11, 12, 2, 2, 2, 17, 18, 39,
    23, 21, 1, 1, 28, 24, 46, 27, 40, 1, 30, 1, 1, 35, 10, 2, 1, 35, 9,
    37, 38, 1, 47, 42, 10, 0, 45, 45, 24, 1] s

def getMask : Fin 9 → Nat := fun i => [0, 1, 3, 7, 15, 31, 63, 127, 255].getD i 0

theorem getMask_eq (i : Fin 9) : getMask i = 2 ^ i.val - 1 := by
  revert i
  decide

/-- The arrays whose indices are computed from the stream. A fault carries the
array whose bound was passed. -/
inductive Site
  | ccColor | ccUsage | ccBlock | cmdBuf | block | colorRemap | getMask | reversal | right | left
  | pixels | rgbx
  deriving DecidableEq, Repr

/-! ### Byte tables -/

/-- One round of the loop in `initReversal`: the reversed bits, the first set
bit (`right`) and the distance of the last one from the top (`left`). -/
def reversalRound (x bit : Nat) (acc : Nat × Nat × Nat) : Nat × Nat × Nat :=
  let (out, loMin, hi) := acc
  if (x >>> bit) &&& 1 ≠ 0 then
    ((out <<< 1) ||| 1, if bit < loMin then bit else loMin, 7 - bit)
  else (out <<< 1, loMin, hi)

/-- The three values `initReversal` stores for byte `n`. -/
def reversalEntry (n : Nat) : Nat × Nat × Nat :=
  (List.range 8).foldl (fun acc bit => reversalRound n bit acc) (0, 8, 8)

def reversal : Fin 256 → Nat := fun n => (reversalEntry n).1 % 256

def right : Fin 256 → Nat := fun n => (reversalEntry n).2.1 % 256

def left : Fin 256 → Nat := fun n => (reversalEntry n).2.2 % 256

theorem reversal_lt (n : Fin 256) : reversal n < 256 := Nat.mod_lt _ (by decide)

end Outband.Ilo.Dvc
