import Mathlib.Data.List.Range
import Mathlib.Data.List.Nodup

/-!
# An outbox

Several owners post items and deliver them in a second step, each owner one item
at a time. The items are numbered in the order in which they are posted. As long
as each delivery is the one that was posted first, what is delivered is a prefix
of what is posted, and all of it once nothing is pending.
-/

namespace Outband.Foundation

/-- An item with its place among those posted. -/
structure Posting (α : Type*) where
  no : Nat
  item : α
  deriving DecidableEq, Repr

structure Outbox (ι α : Type*) where
  posted : List (Posting α) := []
  /-- The items that have still to be delivered, with their owners, the oldest first. -/
  pending : List (ι × Posting α) := []
  delivered : List (Posting α) := []
  deriving DecidableEq

namespace Outbox

variable {ι α : Type*} {o o' : Outbox ι α} {i : ι} {x : α}

def Idle (o : Outbox ι α) (i : ι) : Prop := ∀ e ∈ o.pending, e.1 ≠ i

instance [DecidableEq ι] (o : Outbox ι α) (i : ι) : Decidable (o.Idle i) :=
  inferInstanceAs (Decidable (∀ e ∈ o.pending, e.1 ≠ i))

def post (i : ι) (x : α) (o : Outbox ι α) : Outbox ι α :=
  { o with
    posted := o.posted ++ [⟨o.posted.length, x⟩]
    pending := o.pending ++ [(i, ⟨o.posted.length, x⟩)] }

def deliver [DecidableEq ι] (i : ι) (o : Outbox ι α) : Option (Outbox ι α) :=
  (o.pending.find? (·.1 = i)).map fun e =>
    { o with pending := o.pending.eraseP (·.1 = i), delivered := o.delivered ++ [e.2] }

/-- The owner of the item that has waited longest. -/
def front (o : Outbox ι α) : Option ι := o.pending.head?.map Prod.fst

/-- What is posted is what is delivered and, behind it, what is pending. -/
structure Fifo (o : Outbox ι α) : Prop where
  split : o.posted = o.delivered ++ o.pending.map Prod.snd
  numbered : o.posted.map Posting.no = List.range o.posted.length

theorem fifo_empty : ({} : Outbox ι α).Fifo := ⟨rfl, rfl⟩

theorem Fifo.post (ho : o.Fifo) (i : ι) (x : α) : (o.post i x).Fifo where
  split := by
    rw [Outbox.post, List.map_append, ← List.append_assoc, ← ho.split]
    rfl
  numbered := by
    rw [Outbox.post, List.map_append, ho.numbered, List.length_append]
    exact List.range_succ.symm

/-- The first item in the queue is delivered. -/
theorem Fifo.deliver [DecidableEq ι] (ho : o.Fifo) (hfront : o.front = some i)
    (hdeliver : o.deliver i = some o') : o'.Fifo ∧ o'.posted = o.posted := by
  obtain ⟨posted, pending, delivered⟩ := o
  cases pending with
  | nil => cases hfront
  | cons e rest =>
      obtain rfl : e.1 = i := Option.some.inj hfront
      have hfind : (e :: rest).find? (·.1 = e.1) = some e := by simp
      have herase : (e :: rest).eraseP (·.1 = e.1) = rest := by simp
      simp only [Outbox.deliver, hfind, herase, Option.map_some, Option.some.injEq] at hdeliver
      subst hdeliver
      refine ⟨⟨?_, ho.numbered⟩, rfl⟩
      have hsplit : posted = delivered ++ e.2 :: rest.map Prod.snd := ho.split
      change posted = (delivered ++ [e.2]) ++ rest.map Prod.snd
      rw [hsplit, List.append_assoc, List.singleton_append]

/-- The only item that is pending is the first one, and its delivery leaves none. -/
theorem deliver_single [DecidableEq ι] (hsingle : o.pending.length ≤ 1)
    (hdeliver : o.deliver i = some o') : o.front = some i ∧ o'.pending = [] := by
  obtain ⟨posted, pending, delivered⟩ := o
  match pending, hsingle with
  | [], _ => cases hdeliver
  | [e], _ =>
      by_cases he : e.1 = i
      · simp only [Outbox.deliver, List.find?_singleton, he, decide_true, if_true, Option.map_some,
          Option.some.injEq] at hdeliver
        subst hdeliver
        simp [front, he]
      · simp [Outbox.deliver, he] at hdeliver

theorem exists_deliver_post [DecidableEq ι] (hpending : o.pending = []) (i : ι) (x : α) :
    ∃ o', (o.post i x).deliver i = some o' ∧ o'.pending = [] := by
  obtain ⟨posted, pending, delivered⟩ := o
  cases hpending
  refine ⟨⟨posted ++ [⟨posted.length, x⟩], [], delivered ++ [⟨posted.length, x⟩]⟩, ?_, rfl⟩
  simp [post, deliver]

theorem Fifo.delivered_eq (ho : o.Fifo) (hpending : o.pending = []) : o.delivered = o.posted := by
  rw [ho.split, hpending, List.map_nil, List.append_nil]

/-- A relation between the posted items, in their order, holds of the delivered ones. -/
theorem Fifo.pairwise {r : Posting α → Posting α → Prop} (ho : o.Fifo)
    (hposted : o.posted.Pairwise r) : o.delivered.Pairwise r := by
  rw [ho.split] at hposted
  exact (List.pairwise_append.mp hposted).1

theorem Fifo.ordered (ho : o.Fifo) : o.delivered.Pairwise fun p q => p.no < q.no := by
  apply ho.pairwise
  rw [← List.pairwise_map (f := Posting.no), ho.numbered]
  exact List.pairwise_lt_range

end Outbox

end Outband.Foundation
