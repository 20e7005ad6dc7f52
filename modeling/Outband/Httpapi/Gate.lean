import Mathlib.Data.BitVec
import Mathlib.Logic.Function.Basic
import Mathlib.Tactic.SplitIfs
import Outband.Foundation.Transition

/-!
# Session tokens

`Gate` (`internal/httpapi/auth.go`) keeps a table of the tokens it has issued.
A token is good for twelve hours. `checkToken` drops one that has expired, and
`revoke` drops any. Each of the three runs under one lock, so that a run of any
number of clients is a sequence of their calls and of the passage of time.

## Implementation notes

The HMAC and the random bytes of a token are parameters. Nothing here depends on
the tokens being different. `log` records the tokens issued and revoked, and no
step reads it.
-/

namespace Outband.Httpapi

open Foundation

abbrev Bytes := List (BitVec 8)

/-- Operator info of a login. -/
structure Identity where
  Subject : String := ""
  Email : String := ""
  Name : String := ""
  deriving DecidableEq, Repr

structure Session where
  Expires : Nat
  Identity : Identity
  deriving DecidableEq, Repr

structure Gate where
  secret : Bytes
  sessions : String → Option Session := fun _ => none

/-- Twelve hours, in nanoseconds. -/
def sessionTTL : Nat := 12 * 3600 * 1000000000

def hexDigit (n : Nat) : Char := Char.ofNat (if n < 10 then 48 + n else 87 + n)

/-- `hex.EncodeToString`. -/
def hexEncode (b : Bytes) : String :=
  String.ofList (b.flatMap fun x => [hexDigit (x.toNat / 16), hexDigit (x.toNat % 16)])

namespace Gate

variable (mac : Bytes → Bytes → Bytes)

/-- The token made from the random bytes `raw`. -/
def token (g : Gate) (raw : Bytes) : String := hexEncode raw ++ "." ++ hexEncode (mac g.secret raw)

/-- `issueTokenFor` at the time `now`. -/
def issueTokenFor (g : Gate) (now : Nat) (raw : Bytes) (id : Identity) : (String × Nat) × Gate :=
  let token := g.token mac raw
  let exp := now + sessionTTL
  ((token, exp), { g with sessions := Function.update g.sessions token (some ⟨exp, id⟩) })

def issueToken (g : Gate) (now : Nat) (raw : Bytes) : (String × Nat) × Gate :=
  g.issueTokenFor mac now raw {}

def checkToken (g : Gate) (now : Nat) (token : String) : Bool × Gate :=
  if token = "" then (false, g)
  else
    match g.sessions token with
    | none => (false, g)
    | some s =>
        if now > s.Expires then
          (false, { g with sessions := Function.update g.sessions token none })
        else (true, g)

def revoke (g : Gate) (token : String) : Gate :=
  { g with sessions := Function.update g.sessions token none }

end Gate

/-! ### Runs -/

inductive Event
  | issued (token : String) (now : Nat)
  | revoked (token : String)
  deriving DecidableEq, Repr

/-- A gate under the calls of its clients. -/
structure System where
  gate : Gate
  clock : Nat := 0
  log : List Event := []

inductive Act
  | issueToken (raw : Bytes)
  | issueTokenFor (raw : Bytes) (id : Identity)
  | checkToken (token : String)
  | revoke (token : String)
  | tick (d : Nat)
  deriving DecidableEq, Repr

namespace System

variable (mac : Bytes → Bytes → Bytes)

def step : Act → System → Option System
  | .issueToken raw, s =>
      let issued := s.gate.issueToken mac s.clock raw
      some { s with gate := issued.2, log := s.log ++ [.issued issued.1.1 s.clock] }
  | .issueTokenFor raw id, s =>
      let issued := s.gate.issueTokenFor mac s.clock raw id
      some { s with gate := issued.2, log := s.log ++ [.issued issued.1.1 s.clock] }
  | .checkToken token, s => some { s with gate := (s.gate.checkToken s.clock token).2 }
  | .revoke token, s =>
      some { s with gate := s.gate.revoke token, log := s.log ++ [.revoked token] }
  | .tick d, s => some { s with clock := s.clock + d }

/-- A run of a gate made by `NewGate` with any secret, from any time on. -/
def Run (s : System) : Prop :=
  ∃ secret clock, Reached (step mac) (fun _ _ => True) { gate := { secret }, clock } s

end System

/-- The token was issued at the time `τ` and not revoked since. -/
def Standing (log : List Event) (token : String) (τ : Nat) : Prop :=
  ∃ before after, log = before ++ .issued token τ :: after ∧ .revoked token ∉ after

namespace Standing

variable {log : List Event} {token : String} {τ : Nat} {e : Event}

theorem mem (h : Standing log token τ) : .issued token τ ∈ log := by
  obtain ⟨before, after, rfl, -⟩ := h
  simp

theorem issued (log : List Event) (token : String) (τ : Nat) :
    Standing (log ++ [.issued token τ]) token τ :=
  ⟨log, [], rfl, List.not_mem_nil⟩

theorem snoc (h : Standing log token τ) (he : e ≠ .revoked token) :
    Standing (log ++ [e]) token τ := by
  obtain ⟨before, after, rfl, hafter⟩ := h
  refine ⟨before, after ++ [e], by simp, ?_⟩
  rw [List.mem_append, List.mem_singleton, not_or]
  exact ⟨hafter, he.symm⟩

theorem of_snoc (h : Standing (log ++ [e]) token τ) :
    e = .issued token τ ∨ (Standing log token τ ∧ e ≠ .revoked token) := by
  obtain ⟨before, after, heq, hafter⟩ := h
  rcases List.eq_nil_or_concat after with rfl | ⟨after, last, rfl⟩
  · exact .inl (List.singleton_inj.mp (List.append_inj' heq rfl).2)
  · rw [List.concat_eq_append, ← List.cons_append, ← List.append_assoc] at heq
    rw [List.concat_eq_append, List.mem_append, List.mem_singleton, not_or] at hafter
    obtain ⟨hlog, hlast⟩ := List.append_inj' heq rfl
    rw [List.singleton_inj] at hlast
    exact .inr ⟨⟨before, after, hlog, hafter.1⟩, hlast ▸ fun h => hafter.2 h.symm⟩

theorem snoc_iff (hissued : e ≠ .issued token τ) (hrevoked : e ≠ .revoked token) :
    Standing (log ++ [e]) token τ ↔ Standing log token τ :=
  ⟨fun h => (h.of_snoc.resolve_left hissued).1, fun h => h.snoc hrevoked⟩

end Standing

namespace System

variable {mac : Bytes → Bytes → Bytes} {a : Act} {s s' : System} {token : String}

/-- The table holds the tokens that stand, but for some that have expired. -/
structure Kept (s : System) : Prop where
  held : ∀ token x, s.gate.sessions token = some x →
    ∃ τ, Standing s.log token τ ∧ x.Expires = τ + sessionTTL
  kept : ∀ token τ, Standing s.log token τ → s.clock ≤ τ + sessionTTL →
    ∃ x, s.gate.sessions token = some x ∧ τ + sessionTTL ≤ x.Expires
  issued : ∀ token τ, .issued token τ ∈ s.log → token ≠ "" ∧ τ ≤ s.clock

theorem token_ne (g : Gate) (raw : Bytes) : g.token mac raw ≠ "" := by
  intro h
  have hlength := congrArg String.length h
  simp [Gate.token] at hlength

/-- A token that is issued stands in the table, with the latest expiry it has had. -/
theorem Kept.issue (hs : Kept s) (raw : Bytes) (id : Identity)
    (hstep : step mac (.issueTokenFor raw id) s = some s') : Kept s' := by
  cases hstep
  refine ⟨?_, ?_, ?_⟩
  · intro token x hx
    by_cases htoken : token = s.gate.token mac raw
    · subst htoken
      have hself : some ⟨s.clock + sessionTTL, id⟩ = some x :=
        (Function.update_self _ _ s.gate.sessions).symm.trans hx
      cases hself
      exact ⟨s.clock, .issued _ _ _, rfl⟩
    · have hold : s.gate.sessions token = some x :=
        (Function.update_of_ne htoken _ s.gate.sessions).symm.trans hx
      obtain ⟨τ, hstanding, hexpires⟩ := hs.held token x hold
      exact ⟨τ, hstanding.snoc (by simp), hexpires⟩
  · intro token τ hstanding hclock
    by_cases htoken : token = s.gate.token mac raw
    · subst htoken
      refine ⟨⟨s.clock + sessionTTL, id⟩, Function.update_self _ _ s.gate.sessions, ?_⟩
      have hpast : τ ≤ s.clock := by
        rcases hstanding.of_snoc with hnew | ⟨hold, -⟩
        · cases hnew
          exact Nat.le_refl _
        · exact (hs.issued _ τ hold.mem).2
      exact Nat.add_le_add_right hpast _
    · rcases hstanding.of_snoc with hnew | ⟨hold, -⟩
      · cases hnew
        exact absurd rfl htoken
      · obtain ⟨x, hx, hexpires⟩ := hs.kept token τ hold hclock
        exact ⟨x, (Function.update_of_ne htoken _ s.gate.sessions).trans hx, hexpires⟩
  · intro token τ hmem
    rcases List.mem_append.mp hmem with hold | hnew
    · exact hs.issued token τ hold
    · cases List.mem_singleton.mp hnew
      exact ⟨token_ne s.gate raw, Nat.le_refl _⟩

theorem update_none_eq_some {sessions : String → Option Session} {token₀ : String} {x : Session} :
    Function.update sessions token₀ none token = some x ↔
      token ≠ token₀ ∧ sessions token = some x := by
  by_cases htoken : token = token₀
  · simp [htoken]
  · simp [htoken]

/-- A token that stands no more, or that has expired, may be dropped. -/
theorem Kept.drop (hs : Kept s) {log : List Event} {token₀ : String}
    (hothers : ∀ token τ, token ≠ token₀ → (Standing log token τ ↔ Standing s.log token τ))
    (hgone : ∀ τ, Standing log token₀ τ → τ + sessionTTL < s.clock)
    (hissued : ∀ token τ, .issued token τ ∈ log → .issued token τ ∈ s.log) :
    Kept { s with gate := s.gate.revoke token₀, log } where
  held token x hx := by
    obtain ⟨hne, hold⟩ := update_none_eq_some.mp hx
    obtain ⟨τ, hstanding, hexpires⟩ := hs.held token x hold
    exact ⟨τ, (hothers token τ hne).mpr hstanding, hexpires⟩
  kept token τ hstanding hclock := by
    have hne : token ≠ token₀ := by
      rintro rfl
      exact absurd (hgone τ hstanding) (Nat.not_lt.mpr hclock)
    obtain ⟨x, hx, hexpires⟩ := hs.kept token τ ((hothers token τ hne).mp hstanding) hclock
    exact ⟨x, update_none_eq_some.mpr ⟨hne, hx⟩, hexpires⟩
  issued token τ hmem := hs.issued token τ (hissued token τ hmem)

/-- Only a token that has expired is dropped by a check. -/
theorem Kept.check (hs : Kept s) (token₀ : String)
    (hstep : step mac (.checkToken token₀) s = some s') : Kept s' := by
  cases hstep
  rw [Gate.checkToken]
  split_ifs with hempty
  · exact hs
  split
  case h_1 => exact hs
  case h_2 x₀ hx₀ =>
    split_ifs with hexpired
    · refine hs.drop (fun _ _ _ => Iff.rfl) ?_ fun _ _ hmem => hmem
      intro τ hstanding
      by_contra hclock
      obtain ⟨x, hx, hexpires⟩ := hs.kept token₀ τ hstanding (Nat.not_lt.mp hclock)
      rw [hx₀] at hx
      cases hx
      exact absurd (Nat.le_trans (Nat.not_lt.mp hclock) hexpires) (Nat.not_le.mpr hexpired)
    · exact hs

/-- A token that is revoked stands no more. -/
theorem Kept.revoke (hs : Kept s) (token₀ : String)
    (hstep : step mac (.revoke token₀) s = some s') : Kept s' := by
  cases hstep
  refine hs.drop ?_ ?_ ?_
  · intro token τ hne
    exact Standing.snoc_iff (by simp) (by simp [Ne.symm hne])
  · intro τ hstanding
    rcases hstanding.of_snoc with hnew | ⟨-, hne⟩
    · cases hnew
    · exact absurd rfl hne
  · intro token τ hmem
    simpa using hmem

theorem Kept.next (hs : Kept s) (hstep : step mac a s = some s') : Kept s' := by
  cases a with
  | issueToken raw => exact hs.issue raw {} hstep
  | issueTokenFor raw id => exact hs.issue raw id hstep
  | checkToken token => exact hs.check token hstep
  | revoke token => exact hs.revoke token hstep
  | tick d =>
      cases hstep
      refine ⟨hs.held, ?_, ?_⟩
      · exact fun token τ hstanding hclock =>
          hs.kept token τ hstanding (Nat.le_trans (Nat.le_add_right _ _) hclock)
      · exact fun token τ hmem =>
          ⟨(hs.issued token τ hmem).1, Nat.le_add_right_of_le (hs.issued token τ hmem).2⟩

theorem kept_of_run (hrun : Run mac s) : Kept s := by
  obtain ⟨secret, clock, hreached⟩ := hrun
  refine hreached.invariant (I := Kept) ⟨?_, ?_, ?_⟩ fun _ _ _ hs _ hstep => hs.next hstep
  · intro token x hx
    cases hx
  · intro token τ hstanding
    cases hstanding.mem
  · intro token τ hmem
    cases hmem

/-- A token passes the check exactly when it was issued twelve hours ago at most and not revoked
since. -/
theorem checkToken_iff_of_kept (hs : Kept s) (token : String) :
    (s.gate.checkToken s.clock token).1 = true ↔
      ∃ τ, Standing s.log token τ ∧ s.clock ≤ τ + sessionTTL := by
  constructor
  · intro hcheck
    rw [Gate.checkToken] at hcheck
    split_ifs at hcheck with hempty
    split at hcheck
    case h_1 => cases hcheck
    case h_2 x hx =>
      split_ifs at hcheck with hexpired
      obtain ⟨τ, hstanding, hexpires⟩ := hs.held token x hx
      rw [hexpires] at hexpired
      exact ⟨τ, hstanding, Nat.not_lt.mp hexpired⟩
  · rintro ⟨τ, hstanding, hclock⟩
    obtain ⟨x, hx, hexpires⟩ := hs.kept token τ hstanding hclock
    have hempty : token ≠ "" := (hs.issued token τ hstanding.mem).1
    have hvalid : ¬ s.clock > x.Expires := Nat.not_lt.mpr (Nat.le_trans hclock hexpires)
    rw [Gate.checkToken, if_neg hempty, hx]
    simp only [if_neg hvalid]

end System

end Outband.Httpapi
