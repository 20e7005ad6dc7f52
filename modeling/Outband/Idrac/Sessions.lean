import Mathlib.Logic.Function.Basic
import Mathlib.Tactic.SplitIfs
import Outband.Foundation.Transition

/-!
# Redfish sessions

`redfishBackend` (`internal/idrac/redfish.go`) keeps the token and the id of one
session for all its callers. `do` looks for a token, logs in if there is none,
sends its request with the token it then finds, and after a 401 clears the token
and tries once more. The mutex covers each access to the two fields and nothing
between them.

## Implementation notes

`live` are the sessions that exist on the BMC. A request that gets no reply, or
one that cannot be read, has the reply `none`; the BMC may have handled it. The
method, the path and the body of a request are the same for all steps and touch
no session, so they are left out.
-/

namespace Outband.Idrac

open Foundation

/-- What a login reply is read for. -/
structure LoginReply where
  code : Nat
  /-- The `X-Auth-Token` header. -/
  token : String
  location : String
  odataID : String
  id : String
  deriving DecidableEq, Repr

namespace LoginReply

/-- The id of the new session, from the header or the body. -/
def session (r : LoginReply) : String :=
  if r.location ≠ "" then r.location
  else if r.odataID = "" ∧ r.id ≠ "" then "/redfish/v1/SessionService/Sessions/" ++ r.id
  else r.odataID

/-- The token and the id that `login` stores, unless it returns an error. -/
def accepted (r : LoginReply) : Option (String × String) :=
  if r.code < 200 ∨ r.code ≥ 300 then none
  else if r.token = "" then none
  else some (r.token, r.session)

end LoginReply

/-- A session on the BMC, with the token and the id it is known by. -/
structure BmcSession where
  token : String
  id : String
  token_ne : token ≠ "" := by decide
  id_ne : id ≠ "" := by decide
  deriving DecidableEq, Repr

/-- Where a call of `do` stands: before `ensureSession` looks for a token, with its login on the
way or answered, before it reads the token for its request, with the request on the way, or with a
401 in hand. `retry` tells the second try from the first. -/
inductive Call
  | idle
  | ensuring (retry : Bool)
  | loggingIn (retry : Bool)
  | loggedIn (retry : Bool) (reply : Option LoginReply)
  | requesting (retry : Bool)
  | sent (retry : Bool) (token : String)
  | unauthorized
  | returned
  deriving DecidableEq, Repr

/-- The token and the id a call is about to store. -/
def Call.brings : Call → Option (String × String)
  | loggedIn _ reply => reply.bind LoginReply.accepted
  | idle | ensuring _ | loggingIn _ | requesting _ | sent .. | unauthorized | returned => none

/-- The fields of a backend, its calls, and the sessions on the BMC. An empty token is no token. -/
structure Backend where
  token : String := ""
  sessionID : String := ""
  call : Nat → Call := fun _ => .idle
  live : List BmcSession := []

/-- The sections of a call, and a session that ends on the BMC. -/
inductive Act
  | start (i : Nat)
  | check (i : Nat)
  | login (i : Nat) (created : Option BmcSession) (reply : Option LoginReply)
  | install (i : Nat)
  | send (i : Nat)
  | respond (i : Nat) (code : Option Nat)
  | clear (i : Nat)
  | expire (x : BmcSession)
  deriving DecidableEq, Repr

/-- A request of `logout`; an empty token is no header. -/
structure Delete where
  path : String
  token : String
  deriving DecidableEq, Repr

namespace Backend

def setCall (s : Backend) (i : Nat) (c : Call) : Backend :=
  { s with call := Function.update s.call i c }

def step : Act → Backend → Option Backend
  | .start i, s =>
      match s.call i with
      | .idle => some (s.setCall i (.ensuring false))
      | _ => none
  | .check i, s =>
      match s.call i with
      | .ensuring retry =>
          some (s.setCall i (if s.token ≠ "" then .requesting retry else .loggingIn retry))
      | _ => none
  | .login i created reply, s =>
      match s.call i with
      | .loggingIn retry => some { s.setCall i (.loggedIn retry reply) with
          live := s.live ++ created.toList }
      | _ => none
  | .install i, s =>
      match s.call i with
      | .loggedIn retry reply =>
          match reply.bind LoginReply.accepted with
          | some (token, session) => some { s.setCall i (.requesting retry) with
              token, sessionID := session }
          | none => some (s.setCall i .returned)
      | _ => none
  | .send i, s =>
      match s.call i with
      | .requesting retry => some (s.setCall i (.sent retry s.token))
      | _ => none
  | .respond i code, s =>
      match s.call i with
      | .sent retry token =>
          -- a 401 means that the session of the token no longer exists
          if code = some 401 ∧ ∃ x ∈ s.live, x.token = token then none
          else some (s.setCall i (if code = some 401 ∧ retry = false then .unauthorized
            else .returned))
      | _ => none
  | .clear i, s =>
      match s.call i with
      | .unauthorized => some { s.setCall i (.ensuring true) with token := "", sessionID := "" }
      | _ => none
  | .expire x, s => some { s with live := s.live.erase x }

def Run (ok : Act → Backend → Prop) (s : Backend) : Prop := Reached step ok {} s

/-- No call is in progress. -/
def Quiet (s : Backend) : Prop := ∀ i, s.call i = .idle ∨ s.call i = .returned

/-- The backend holds the token and the id of `x`. -/
def Holds (s : Backend) (x : BmcSession) : Prop := s.token = x.token ∧ s.sessionID = x.id

instance (s : Backend) (x : BmcSession) : Decidable (s.Holds x) :=
  inferInstanceAs (Decidable (_ ∧ _))

/-- With no call in progress the backend holds every session that exists on the BMC. -/
def NoLeak (s : Backend) : Prop := s.Quiet → ∀ x ∈ s.live, s.Holds x

/-- `logout`, which clears the token before it sends its request. -/
def logout (baseURL : String) (s : Backend) : Backend × Option Delete :=
  let s' := { s with token := "", sessionID := "" }
  if s.token = "" ∨ s.sessionID = "" then (s', none)
  else if s.sessionID.startsWith "http://" ∨ s.sessionID.startsWith "https://" then
    if s.sessionID.startsWith baseURL then
      (s', some ⟨(s.sessionID.dropPrefix baseURL).toString, s'.token⟩)
    else (s', some ⟨s.sessionID, s.token⟩)
  else (s', some ⟨s.sessionID, s'.token⟩)

/-! ### The condition -/

/-- The session whose token and id the backend holds, if there is one, is gone. -/
def NoneHeld (s : Backend) : Prop := ∀ x ∈ s.live, ¬ s.Holds x

instance (s : Backend) : Decidable s.NoneHeld := inferInstanceAs (Decidable (∀ x ∈ s.live, _))

/-- The reply to a login that creates a session arrives with its token and its id, and the token is
stored or cleared only when the session held before is gone. -/
def Careful : Act → Backend → Prop
  | .login _ created reply, _ =>
      ∀ x ∈ created, reply.bind LoginReply.accepted = some (x.token, x.id)
  | .install i, s => (s.call i).brings ≠ none → s.NoneHeld
  | .clear _, s => s.NoneHeld
  | .start _, _ | .check _, _ | .send _, _ | .respond _ _, _ | .expire _, _ => True

instance : (a : Act) → (s : Backend) → Decidable (Careful a s)
  | .login _ created reply, _ => inferInstanceAs (Decidable
      (∀ x ∈ created, reply.bind LoginReply.accepted = some (x.token, x.id)))
  | .install i, s => inferInstanceAs (Decidable ((s.call i).brings ≠ none → s.NoneHeld))
  | .clear _, s => inferInstanceAs (Decidable s.NoneHeld)
  | .start _, _ | .check _, _ | .send _, _ | .respond _ _, _ | .expire _, _ =>
      inferInstanceAs (Decidable True)

/-! ### What the steps keep -/

variable {a : Act} {s s' : Backend} {i : Nat}

/-- Every session on the BMC is held by the backend or about to be stored by a call. -/
def Tracked (s : Backend) : Prop :=
  ∀ x ∈ s.live, s.Holds x ∨ ∃ i, (s.call i).brings = some (x.token, x.id)

theorem brings_update {call : Nat → Call} {j : Nat} {c : Call} {pair : String × String}
    (hi : (call i).brings = none) (hj : (call j).brings = some pair) :
    (Function.update call i c j).brings = some pair := by
  have hne : j ≠ i := by
    rintro rfl
    rw [hi] at hj
    cases hj
  rwa [Function.update_of_ne hne]

/-- A call that brings no session goes on. -/
theorem Tracked.setCall (hs : Tracked s) (hi : (s.call i).brings = none) (c : Call) :
    Tracked (s.setCall i c) := by
  intro x hx
  refine (hs x hx).imp_right ?_
  rintro ⟨j, hj⟩
  exact ⟨j, brings_update hi hj⟩

theorem Tracked.login {created : Option BmcSession} {reply : Option LoginReply} (hs : Tracked s)
    (hok : Careful (.login i created reply) s) (hstep : step (.login i created reply) s = some s') :
    Tracked s' := by
  rw [step] at hstep
  split at hstep
  case h_1 retry hi =>
    cases hstep
    intro x hx
    rcases List.mem_append.mp hx with hold | hnew
    · exact hs.setCall (by rw [hi, Call.brings]) (.loggedIn retry reply) x hold
    · refine .inr ⟨i, ?_⟩
      change (Function.update s.call i (.loggedIn retry reply) i).brings = _
      rw [Function.update_self]
      exact hok x (Option.mem_toList.mp hnew)
  case h_2 => cases hstep

/-- The session that is stored takes the place of one that is gone. -/
theorem Tracked.install (hs : Tracked s) (hok : Careful (.install i) s)
    (hstep : step (.install i) s = some s') : Tracked s' := by
  rw [step] at hstep
  split at hstep
  case h_1 retry reply hi =>
    have hbrings : (s.call i).brings = reply.bind LoginReply.accepted := by rw [hi, Call.brings]
    split at hstep
    case h_1 token session haccepted =>
      cases hstep
      rw [haccepted] at hbrings
      have hgone : s.NoneHeld := hok (by simp [hbrings])
      intro x hx
      obtain ⟨j, hj⟩ := (hs x hx).resolve_left (hgone x hx)
      by_cases hij : j = i
      · left
        rw [hij, hbrings] at hj
        cases hj
        exact ⟨rfl, rfl⟩
      · right
        refine ⟨j, ?_⟩
        change (Function.update s.call i (.requesting retry) j).brings = _
        rwa [Function.update_of_ne hij]
    case h_2 hrejected =>
      cases hstep
      exact hs.setCall (by rw [hbrings, hrejected]) _
  case h_2 => cases hstep

theorem Tracked.clear (hs : Tracked s) (hok : Careful (.clear i) s)
    (hstep : step (.clear i) s = some s') : Tracked s' := by
  rw [step] at hstep
  split at hstep
  case h_1 hi =>
    cases hstep
    intro x hx
    obtain ⟨j, hj⟩ := (hs x hx).resolve_left (hok x hx)
    exact .inr ⟨j, brings_update (by rw [hi, Call.brings]) hj⟩
  case h_2 => cases hstep

theorem Tracked.next (hs : Tracked s) (hok : Careful a s) (hstep : step a s = some s') :
    Tracked s' := by
  cases a with
  | login i created reply => exact hs.login hok hstep
  | install i => exact hs.install hok hstep
  | clear i => exact hs.clear hok hstep
  | start i | check i | send i =>
      rw [step] at hstep
      split at hstep
      case h_1 hi =>
        cases hstep
        exact hs.setCall (by rw [hi, Call.brings]) _
      case h_2 => cases hstep
  | respond i code =>
      rw [step] at hstep
      split at hstep
      case h_1 hi =>
        split at hstep
        case isTrue => cases hstep
        case isFalse =>
          cases hstep
          exact hs.setCall (by rw [hi, Call.brings]) _
      case h_2 => cases hstep
  | expire x =>
      cases hstep
      exact fun y hy => hs y (List.mem_of_mem_erase hy)

theorem brings_of_quiet (hquiet : s.Quiet) (i : Nat) : (s.call i).brings = none := by
  rcases hquiet i with hi | hi
  · rw [hi, Call.brings]
  · rw [hi, Call.brings]

/-- In every run in which a session is stored, or its token cleared, only when the one held before
is gone, no session is leaked. -/
theorem sessions_held (hrun : Run Careful s) : NoLeak s := by
  have hs : Tracked s := hrun.invariant (I := Tracked) (fun x hx => by cases hx)
    fun _ _ _ hs hok hstep => hs.next hok hstep
  intro hquiet x hx
  rcases hs x hx with hheld | ⟨i, hi⟩
  · exact hheld
  · rw [brings_of_quiet hquiet i] at hi
    cases hi

/-- `logout` addresses the session that is held, in a request without a token: the one that
`doRaw` reads has just been cleared. -/
theorem logout_of_holds {x : BmcSession} (baseURL : String) (hx : s.Holds x)
    (hrelative : ¬ (x.id.startsWith "http://" ∨ x.id.startsWith "https://")) :
    (s.logout baseURL).2 = some ⟨x.id, ""⟩ := by
  obtain ⟨htoken, hid⟩ := hx
  have hheld : ¬ (s.token = "" ∨ s.sessionID = "") := by
    rw [htoken, hid]
    exact not_or.mpr ⟨x.token_ne, x.id_ne⟩
  rw [← hid] at hrelative
  rw [logout, if_neg hheld, if_neg hrelative, hid]

/-- A reply to a login with a token and a session. -/
def created (x : BmcSession) : LoginReply := ⟨201, x.token, x.id, "", ""⟩

def session1 : BmcSession := { token := "t1", id := "/redfish/v1/SessionService/Sessions/1" }

def session2 : BmcSession := { token := "t2", id := "/redfish/v1/SessionService/Sessions/2" }

/-- A session that expires under a call is replaced by that call. -/
theorem sessions_held_relogin : ∃ s, Run Careful s ∧ s.Quiet ∧ s.live = [session2] ∧ NoLeak s := by
  have hrun {s : Backend} (hs : exec step Careful [.start 0, .check 0,
      .login 0 (some session1) (some (created session1)), .install 0, .expire session1, .send 0,
      .respond 0 (some 401), .clear 0, .check 0, .login 0 (some session2) (some (created session2)),
      .install 0, .send 0, .respond 0 (some 200)] {} = some s) : Run Careful s :=
    reached_of_exec .init hs
  refine ⟨_, hrun rfl, ?_, rfl, sessions_held (hrun rfl)⟩
  intro i
  cases i with
  | zero => exact .inr rfl
  | succ i => exact .inl rfl

/-- Two calls that find no token log in both, and the session stored first is lost. -/
theorem session_leaked : ¬ ∀ s, Run (fun _ _ => True) s → NoLeak s := by
  have hrun {s : Backend} (hs : exec step (fun _ _ => True) [.start 0, .start 1, .check 0, .check 1,
      .login 0 (some session1) (some (created session1)), .login 1 (some session2)
        (some (created session2)), .install 0, .install 1, .send 0, .respond 0 (some 200), .send 1,
      .respond 1 (some 200)] {} = some s) : Run (fun _ _ => True) s :=
    reached_of_exec .init hs
  intro hall
  have hheld := hall _ (hrun rfl) ?_ session1 (by decide)
  · exact absurd hheld.1 (by decide)
  · rintro (_ | _ | i)
    · exact .inr rfl
    · exact .inr rfl
    · exact .inl rfl

end Backend

end Outband.Idrac
