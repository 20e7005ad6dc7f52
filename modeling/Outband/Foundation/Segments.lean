import Mathlib.Data.List.Basic

/-!
# A stream that arrives in segments

The receiving end of a connection answers each read with the next segment of a
stream, or with as much of it as the reader has room for. After the last
segment it reports an error. What a reader may rely on is the stream, the
concatenation of the segments: `Source.read_stream` says that a read takes
from its front, whatever the segmentation.

## Implementation notes

An end of file may be reported together with the last segment; any other error
is reported alone.
-/

namespace Outband.Foundation

variable {α : Type*} {cap : Nat}

/-- The errors of a read: the end of the stream, or any other. -/
inductive IoError
  | eof
  | failed (code : Nat)
  deriving DecidableEq, Repr

/-- What one read of a stream can deliver: at least one item and at most `cap`. -/
abbrev Segment (α : Type*) (cap : Nat) := { r : List α // r ≠ [] ∧ r.length ≤ cap }

/-- The rest of a segment of which the first `k` items are taken. -/
def Segment.rest (r : Segment α cap) (k : Nat) (h : k < r.val.length) : Segment α cap :=
  ⟨r.val.drop k, by
    constructor
    · intro hnil
      have := List.drop_eq_nil_iff.mp hnil
      omega
    · rw [List.length_drop]
      have := r.property.2
      omega⟩

/-- The segments still to come and the error after them. -/
structure Source (α : Type*) (cap : Nat) where
  segments : List (Segment α cap)
  err : IoError
  /-- Whether an end of file comes with the last segment. -/
  early : Bool := false

namespace Source

variable {s s' : Source α cap} {k : Nat} {got : List α} {e : Option IoError}

/-- Everything that is still to arrive. -/
def stream (s : Source α cap) : List α := (s.segments.map Subtype.val).flatten

/-- What is reported with the last items: an early end of file, or nothing yet. -/
def reportWith (s : Source α cap) (rest : List (Segment α cap)) : Option IoError :=
  if rest.isEmpty ∧ s.early ∧ s.err = .eof then some .eof else none

/-- A read with room for `k` items. -/
def read (s : Source α cap) (k : Nat) : List α × Option IoError × Source α cap :=
  match s.segments with
  | [] => ([], some s.err, s)
  | r :: rest =>
      if h : k < r.val.length then
        (r.val.take k, none, { s with segments := Segment.rest r k h :: rest })
      else (r.val, s.reportWith rest, { s with segments := rest })

/-- What a read can do: it ends the stream, it takes part of a segment, or it takes the whole. -/
theorem read_cases (h : s.read k = (got, e, s')) :
    (s.segments = [] ∧ got = [] ∧ e = some s.err ∧ s' = s) ∨
      (∃ r rest, ∃ hlt : k < r.val.length, s.segments = r :: rest ∧ got = r.val.take k ∧
        e = none ∧ s' = { s with segments := Segment.rest r k hlt :: rest }) ∨
      ∃ r rest, r.val.length ≤ k ∧ s.segments = r :: rest ∧ got = r.val ∧
        e = s.reportWith rest ∧ s' = { s with segments := rest } := by
  unfold read at h
  split at h
  case h_1 hnil =>
    cases h
    exact .inl ⟨hnil, rfl, rfl, rfl⟩
  case h_2 r rest hcons =>
    split_ifs at h with hlt
    · cases h
      exact .inr (.inl ⟨r, rest, hlt, hcons, rfl, rfl, rfl⟩)
    · cases h
      exact .inr (.inr ⟨r, rest, by omega, hcons, rfl, rfl, rfl⟩)

/-- A read takes from the front of the stream. -/
theorem read_stream (h : s.read k = (got, e, s')) : got ++ s'.stream = s.stream := by
  rcases read_cases h with ⟨-, rfl, -, rfl⟩ | ⟨r, rest, hlt, hs, rfl, -, rfl⟩ |
    ⟨r, rest, -, hs, rfl, -, rfl⟩
  · rfl
  · simp [stream, hs, Segment.rest, ← List.append_assoc]
  · simp [stream, hs]

theorem read_err (h : s.read k = (got, e, s')) : s'.err = s.err := by
  rcases read_cases h with ⟨-, -, -, rfl⟩ | ⟨r, rest, -, -, -, -, rfl⟩ |
    ⟨r, rest, -, -, -, -, rfl⟩ <;> rfl

/-- An error is reported once nothing is left, and only an end of file comes with items. -/
theorem read_end {x : IoError} (h : s.read k = (got, some x, s')) :
    x = s.err ∧ s'.stream = [] ∧ (got = [] ∨ x = .eof) := by
  rcases read_cases h with ⟨hs, hgot, hx, rfl⟩ | ⟨r, rest, -, -, -, hx, -⟩ |
    ⟨r, rest, -, -, -, hx, rfl⟩
  · exact ⟨Option.some.inj hx, by simp [stream, hs], .inl hgot⟩
  · cases hx
  · unfold reportWith at hx
    split_ifs at hx with hend
    obtain ⟨hrest, -, herr⟩ := hend
    cases hx
    exact ⟨herr.symm, by simp [stream, List.isEmpty_iff.mp hrest], .inr rfl⟩

/-- A read with room for a whole segment uses up one. -/
theorem segments_lt_of_read (h : s.read cap = (got, none, s')) :
    s'.segments.length < s.segments.length := by
  rcases read_cases h with ⟨-, -, hx, -⟩ | ⟨r, rest, hlt, -, -, -, -⟩ |
    ⟨r, rest, -, hs, -, -, rfl⟩
  · cases hx
  · have := r.property.2
    omega
  · simp [hs]

/-- A read with room for something delivers something until the end. -/
theorem read_progress (hk : 0 < k) (h : s.read k = (got, none, s')) : got ≠ [] := by
  rcases read_cases h with ⟨-, -, hx, -⟩ | ⟨r, rest, hlt, -, rfl, -, -⟩ |
    ⟨r, rest, -, -, rfl, -, -⟩
  · cases hx
  · intro hnil
    rcases List.take_eq_nil_iff.mp hnil with h0 | h0
    · omega
    · exact r.property.1 h0
  · exact r.property.1

end Source

end Outband.Foundation
