import Mathlib.Data.List.Induction

/-!
# Histories whose entries are justified

`Grounded J log` says that each entry of a log is justified by the entries before it. A log stays
grounded when it grows by entries that are.
-/

namespace Outband.Foundation

variable {ε : Type*} {J : List ε → ε → Prop} {log added : List ε} {e : ε}

/-- Each entry is justified by those before it. -/
def Grounded (J : List ε → ε → Prop) (log : List ε) : Prop :=
  ∀ before e after, log = before ++ e :: after → J before e

theorem grounded_nil : Grounded J [] := by
  intro before e after h
  simp at h

theorem Grounded.snoc (h : Grounded J log) (he : J log e) : Grounded J (log ++ [e]) := by
  intro before e' after heq
  rcases List.eq_nil_or_concat after with rfl | ⟨after, last, rfl⟩
  · obtain ⟨rfl, hlast⟩ := List.append_inj' heq rfl
    cases hlast
    exact he
  · rw [List.concat_eq_append, ← List.cons_append, ← List.append_assoc] at heq
    exact h _ _ _ (List.append_inj' heq rfl).1

/-- Entries are added one after the other. -/
theorem Grounded.append (h : Grounded J log)
    (hadded : ∀ before e after, added = before ++ e :: after → J (log ++ before) e) :
    Grounded J (log ++ added) := by
  induction added using List.reverseRecOn with
  | nil => rwa [List.append_nil]
  | append_singleton added e ih =>
      rw [← List.append_assoc]
      refine Grounded.snoc (ih ?_) (hadded added e [] rfl)
      intro before e' after heq
      exact hadded before e' (after ++ [e]) (by rw [heq, List.append_assoc, List.cons_append])

/-- Entries that are at odds with none before them. -/
theorem Grounded.pairwise {R : ε → ε → Prop}
    (h : Grounded (fun before e => ∀ e' ∈ before, R e' e) log) : log.Pairwise R := by
  induction log using List.reverseRecOn with
  | nil => exact .nil
  | append_singleton log e ih =>
      rw [List.pairwise_append]
      refine ⟨ih ?_, List.pairwise_singleton R e, ?_⟩
      · intro before e' after heq
        exact h before e' (after ++ [e]) (by rw [heq, List.append_assoc, List.cons_append])
      · intro a ha b hb
        rw [List.mem_singleton.mp hb]
        exact h log e [] rfl a ha

end Outband.Foundation
