import Mathlib.Algebra.Order.Ring.Nat
import Mathlib.Data.List.FinRange
import Mathlib.Logic.Equiv.Basic
import Outband.Foundation.StreamCipher

/-!
# RC4

The generator over the numbers below `N`: a permutation, of which each step swaps
two places, and two indices. That the S-box is a permutation is a part of its
type. An implementation keeps the box in a table and counts modulo `N`; what it
has to show is that its swap of two entries is the swap of the permutation.
-/

namespace Outband.Foundation

open Equiv (Perm)

structure Rc4 (N : Nat) where
  box : Perm (Fin N)
  i : Fin N
  j : Fin N

namespace Rc4

variable {N : Nat}

/-- A box with the entries at two places exchanged. -/
def exchange (box : Perm (Fin N)) (a b : Fin N) : Perm (Fin N) := (Equiv.swap a b).trans box

theorem exchange_left (box : Perm (Fin N)) (a b : Fin N) : exchange box a b a = box b := by
  simp [exchange]

theorem exchange_right (box : Perm (Fin N)) (a b : Fin N) : exchange box a b b = box a := by
  simp [exchange]

/-! ### Tables -/

section Tables

variable {α : Type*} (f : Fin N → α) (box : Perm (Fin N))

/-- A table that holds the entries of a box as `f` writes them. -/
theorem update_exchange (a b : Fin N) :
    Function.update (Function.update (fun k => f (box k)) a (f (box b))) b (f (box a)) =
      fun k => f (exchange box a b k) := by
  have h := Equiv.comp_swap_eq_update b a (fun k => f (box k))
  rw [← h, Equiv.swap_comm]
  rfl

theorem getD_ofFn (g : Fin N → α) (k : Fin N) (x : α) : (List.ofFn g).getD k.val x = g k := by
  simp [List.getD_eq_getElem?_getD]

theorem set_ofFn (g : Fin N → α) (a : Fin N) (x : α) :
    (List.ofFn g).set a x = List.ofFn (Function.update g a x) := by
  apply List.ext_getElem
  · simp
  · intro k hk _
    rw [List.getElem_set, List.getElem_ofFn, List.getElem_ofFn]
    by_cases hak : a.val = k
    · subst hak
      simp
    · rw [if_neg hak, Function.update_of_ne]
      intro h
      exact hak (congrArg Fin.val h).symm

/-- The entries of a table are those of the box, in some order. -/
theorem perm_ofFn : (List.ofFn fun k => f (box k)).Perm (List.ofFn f) := box.ofFn_comp_perm f

end Tables

/-! ### The generator -/

variable [NeZero N]

/-- One round of the key schedule, on the box and the index `j`. -/
def keyRound (key : Fin N → Fin N) (s : Perm (Fin N) × Fin N) (n : Fin N) :
    Perm (Fin N) × Fin N :=
  let j := s.2 + s.1 n + key n
  (exchange s.1 n j, j)

/-- The first rounds of the key schedule. -/
def schedule (key : Fin N → Fin N) (rounds : Nat) : Perm (Fin N) × Fin N :=
  ((List.finRange N).take rounds).foldl (keyRound key) (Equiv.refl _, 0)

/-- The generator set up with a key. -/
def ofKey (key : Fin N → Fin N) : Rc4 N := ⟨(schedule key N).1, 0, 0⟩

/-- The next word and the generator behind it. -/
def next (s : Rc4 N) : Fin N × Rc4 N :=
  let i := s.i + 1
  let j := s.j + s.box i
  let box := exchange s.box i j
  (box (box i + box j), ⟨box, i, j⟩)

variable (s : Rc4 N)

theorem next_i : s.next.2.i = s.i + 1 := rfl

theorem next_j : s.next.2.j = s.j + s.box (s.i + 1) := rfl

theorem next_box : s.next.2.box = exchange s.box s.next.2.i s.next.2.j := rfl

theorem next_word :
    s.next.1 = s.next.2.box (s.next.2.box s.next.2.i + s.next.2.box s.next.2.j) := rfl

end Rc4

end Outband.Foundation
