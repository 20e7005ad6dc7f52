import Mathlib.Data.List.Basic

/-!
# Keys at a service

A call may make a service create things, each of which is known by a key and has to be
given back with it. The ledger of a call records both. A call leaves nothing behind if
everything created has been given back: when it fails, by the call itself, and when it
succeeds, once its result has been closed.
-/

namespace Outband.Foundation

variable {κ ε γ : Type*}

structure Ledger (κ : Type*) where
  created : List κ := []
  released : List κ := []
  deriving DecidableEq, Repr

namespace Ledger

def create (l : Ledger κ) (keys : List κ) : Ledger κ := { l with created := l.created ++ keys }

def release (l : Ledger κ) (key : κ) : Ledger κ := { l with released := l.released ++ [key] }

/-- Everything created has been given back. -/
def Settled (l : Ledger κ) : Prop := ∀ key ∈ l.created, key ∈ l.released

instance [DecidableEq κ] (l : Ledger κ) : Decidable l.Settled :=
  inferInstanceAs (Decidable (∀ key ∈ l.created, key ∈ l.released))

@[simp]
theorem create_nil (keys : List κ) : create {} keys = { created := keys } := rfl

@[simp]
theorem release_create (keys : List κ) (key : κ) :
    release { created := keys } key = { created := keys, released := [key] } := rfl

/-- With one key given back, the service has created nothing else. -/
theorem settled_singleton {keys : List κ} {key : κ} :
    Settled { created := keys, released := [key] } ↔ ∀ k ∈ keys, k = key := by
  simp [Settled]

/-- With nothing given back, the service has created nothing. -/
theorem settled_nil {keys : List κ} : Settled { created := keys } ↔ ∀ k ∈ keys, False := by
  simp [Settled]

end Ledger

/-- The ledger in the end: `close` is what closing a result does to it. -/
def finalLedger (close : γ → Ledger κ → Ledger κ) (r : Except ε γ × Ledger κ) : Ledger κ :=
  match r.1 with
  | .error _ => r.2
  | .ok c => close c r.2

def LeavesNothing (close : γ → Ledger κ → Ledger κ) (r : Except ε γ × Ledger κ) : Prop :=
  (finalLedger close r).Settled

instance [DecidableEq κ] (close : γ → Ledger κ → Ledger κ) (r : Except ε γ × Ledger κ) :
    Decidable (LeavesNothing close r) :=
  inferInstanceAs (Decidable (finalLedger close r).Settled)

end Outband.Foundation
