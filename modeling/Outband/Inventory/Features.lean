import Mathlib.Data.BitVec
import Outband.Inventory.Registry

/-!
# Features of a host

`FeatureSet` and `ClientFeatures` (`internal/bmc/bmc.go`), and `Features` of a host
(`internal/hosts/hosts.go`). A client says what it can do, or leaves it at the default. Whether a
host has KVM is up to its inventory entry alone, which can also switch off four of the others.

## Implementation notes

A client that does not implement `Capabilities` has `none` for its features. What a client says
may change, as that of an iDRAC does once its transport is known.
-/

namespace Outband.Bmc

inductive Feature
  | Power
  | Sensors
  | SEL
  | Console
  | Identity
  | KVM
  deriving DecidableEq, Repr

namespace Feature

def iota : Feature → Nat
  | Power => 0
  | Sensors => 1
  | SEL => 2
  | Console => 3
  | Identity => 4
  | KVM => 5

/-- `1 << iota` -/
def bit (f : Feature) : BitVec 64 := BitVec.twoPow 64 f.iota

theorem iota_lt (f : Feature) : f.iota < 64 := by
  cases f <;> decide

theorem iota_injective : Function.Injective iota := by
  intro f g h
  cases f <;> cases g <;> first | rfl | exact absurd h (by decide)

end Feature

/-- A mask of features. -/
abbrev FeatureSet := BitVec 64

namespace FeatureSet

variable {set : FeatureSet} {f g : Feature}

def Has (set : FeatureSet) (f : Feature) : Bool := set &&& f.bit ≠ 0

/-- `set | f` -/
def add (set : FeatureSet) (f : Feature) : FeatureSet := set ||| f.bit

/-- `set &^ f` -/
def remove (set : FeatureSet) (f : Feature) : FeatureSet := set &&& ~~~f.bit

theorem has_eq (set : FeatureSet) (f : Feature) : set.Has f = set.getLsbD f.iota := by
  have hbit : f.bit ≠ 0 := by cases f <;> decide
  rw [Has, Feature.bit, BitVec.and_twoPow]
  cases h : set.getLsbD f.iota with
  | false => simp
  | true => simpa [Feature.bit] using hbit

theorem getLsbD_bit (f g : Feature) : f.bit.getLsbD g.iota = decide (f = g) := by
  rw [Feature.bit, BitVec.getLsbD_twoPow, decide_eq_true f.iota_lt, Bool.true_and]
  exact decide_eq_decide.mpr Feature.iota_injective.eq_iff

@[simp]
theorem has_add : (set.add f).Has g = (set.Has g || decide (f = g)) := by
  rw [has_eq, has_eq, add, BitVec.getLsbD_or, getLsbD_bit]

@[simp]
theorem has_remove : (set.remove f).Has g = (set.Has g && !decide (f = g)) := by
  rw [has_eq, has_eq, remove, BitVec.getLsbD_and, BitVec.getLsbD_not, getLsbD_bit,
    decide_eq_true g.iota_lt, Bool.true_and]

end FeatureSet

/-- All but KVM. -/
def controlPlaneFeatures : FeatureSet :=
  Feature.Power.bit ||| Feature.Sensors.bit ||| Feature.SEL.bit ||| Feature.Console.bit |||
    Feature.Identity.bit

/-- The features of a client that is there. -/
def ClientFeatures (capabilities : Option FeatureSet) : FeatureSet :=
  capabilities.getD controlPlaneFeatures

end Outband.Bmc

namespace Outband.Inventory

open Bmc

variable {Client : Type}

/-- The setting of a feature in the inventory, which has none for identity and KVM. -/
def FeatureFlags.flag (f : FeatureFlags) : Feature → Option Bool
  | .Sensors => f.Sensors
  | .SEL => f.SEL
  | .Power => f.Power
  | .Console => f.Console
  | .Identity | .KVM => none

def applyFeatureFlags (set : FeatureSet) : Option FeatureFlags → FeatureSet
  | none => set
  | some f =>
      let set := if f.Sensors = some false then set.remove .Sensors else set
      let set := if f.SEL = some false then set.remove .SEL else set
      let set := if f.Power = some false then set.remove .Power else set
      if f.Console = some false then set.remove .Console else set

theorem has_applyFeatureFlags (set : FeatureSet) (flags : Option FeatureFlags) (f : Feature) :
    (applyFeatureFlags set flags).Has f = true ↔
      set.Has f = true ∧ flags.bind (·.flag f) ≠ some false := by
  cases flags with
  | none => simp [applyFeatureFlags]
  | some flags =>
      have hremove (c : Prop) [Decidable c] (set : FeatureSet) (g : Feature) :
          (if c then set.remove g else set).Has f = true ↔
            set.Has f = true ∧ ¬ (c ∧ g = f) := by
        by_cases hc : c <;> simp [hc]
      simp only [applyFeatureFlags, hremove, Option.bind_some]
      cases f <;> simp [FeatureFlags.flag]

namespace Host

def HasKVM (h : Host Client) : Bool := h.hasAMIKVM || h.hasAMTKVM || h.hasILOKVM

/-- What the UI and the collector may use, while the client says that it can do this much. -/
def Features (h : Host Client) (capabilities : Option FeatureSet) : FeatureSet :=
  let features := (ClientFeatures capabilities).remove .KVM
  applyFeatureFlags (if h.HasKVM then features.add .KVM else features) h.featureFlags

/-- The inventory switches the feature off. -/
def Disabled (h : Host Client) (f : Feature) : Prop :=
  h.featureFlags.bind (·.flag f) = some false

instance (h : Host Client) (f : Feature) : Decidable (h.Disabled f) :=
  inferInstanceAs (Decidable (_ = _))

/-- KVM is what the inventory says, and the rest what the client says, unless it is disabled. -/
theorem has_features (h : Host Client) (capabilities : Option FeatureSet) (f : Feature) :
    (h.Features capabilities).Has f = true ↔
      (if f = .KVM then h.HasKVM = true else (ClientFeatures capabilities).Has f = true) ∧
        ¬ h.Disabled f := by
  rw [Features, has_applyFeatureFlags]
  refine and_congr_left fun _ => ?_
  by_cases hf : f = .KVM
  · subst hf
    by_cases hkvm : h.HasKVM = true <;> simp [hkvm]
  · have hne : Feature.KVM ≠ f := fun heq => hf heq.symm
    by_cases hkvm : h.HasKVM = true <;> simp [hkvm, hf, hne]

end Host

end Outband.Inventory
