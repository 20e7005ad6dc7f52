import Outband.Amt.Digest
import Outband.Amt.Kvm

/-!
# Requests with credentials

`RoundTrip` of `internal/amt/digest.go` sends a request without credentials, and once more with
them when the engine answers 401 with a challenge. The HTTP client above it follows redirects, to
whatever address the engine names. The dialogues of the WS-MAN client run on top of both. What has
been answered is what was not refused with 401 and not redirected, and of that nothing is lost and
nothing happens twice.

## Implementation notes

`Do` is what `net/http` documents of a client without a policy for redirects, and an exchange is one
`RoundTrip` of the transport below. Addresses are texts: `resolve` is `URL.Parse`, `requestURI` is
`URL.RequestURI`, and `wrap` is what the client puts in front of an error. `authorization` is the
header that the digest transport sets; a name and a password in the address of a redirect, which the
client sends too, are part of that address. The state is the number of credentials that have been
made, and `random` gives the bytes of the nonce of each; `rand.Read` does not fail, it ends the
program instead.
-/

namespace Outband.Amt

open Foundation Wsman
open Bmc.EventLog (hex)
open Digest (Text authorize)
open Utf8 (Bytes)

/-- An address, and whether the envelope goes there in a POST; else it is a GET with no body. -/
structure Hop where
  url : Text
  posts : Bool

def Hop.method (hop : Hop) : Text := if hop.posts then "POST".toList else "GET".toList

/-- A request as it is sent, with its header `Authorization`. -/
structure Sent where
  request : Request
  hop : Hop
  authorization : Option Text

/-- `hex.EncodeToString` of random bytes. -/
def randomHex {n : Nat} (b : Fin n → BitVec 8) : Text :=
  (List.ofFn b).flatMap fun x => (hex 2 x.toNat).toList

/-- What the transport is set up with. -/
structure Transport where
  user : Text
  password : Text
  baseURL : Text
  md5Hex : Text → Text
  random : Nat → Fin 8 → BitVec 8
  lower : Char → Char
  quote : Text → String
  requestURI : Text → Text
  resolve : Text → Text → Except String Text
  wrap : Text → String → String

namespace Transport

variable (t : Transport)

def cnonce (n : Nat) : Text := randomHex (t.random n)

/-- The answer to a challenge, when `n` of them have been made. -/
def answer (n : Nat) (method uri challenge : Text) : Except Digest.DigestError Text :=
  authorize t.lower t.md5Hex t.user t.password method uri (hex 8 ((n + 1) % 2 ^ 32)).toList
    (t.cnonce n) challenge

def RoundTrip (n : Nat) (req : Request) (hop : Hop) : Dialogue Sent Reply (Reply × Nat) :=
  .ask ⟨req, hop, none⟩ fun
    | .error err => .done (.error err, n)
    | .ok resp =>
        if resp.StatusCode ≠ 401 then .done (.ok resp, n)
        else if ¬ "digest ".toList <+: resp.challenge.map t.lower then
          .done (.error ("amt: expected Digest challenge, got " ++ t.quote resp.challenge), n)
        else
          match t.answer n hop.method (t.requestURI hop.url) resp.challenge with
          | .error err => .done (.error (err.Error t.quote), n)
          | .ok auth => .ask ⟨req, hop, some auth⟩ fun reply => .done (reply, n + 1)

/-- A redirect that names an address. -/
def redirects (resp : Response) : Bool :=
  resp.StatusCode ∈ [301, 302, 303, 307, 308] ∧ resp.location ≠ []

/-- Where a redirect leads: only 307 and 308 keep the method and the body. -/
def redirected (hop : Hop) (resp : Response) (url : Text) : Hop :=
  ⟨url, hop.posts && (resp.StatusCode = 307 || resp.StatusCode = 308)⟩

/-- The loop of `Client.Do`, with `left` more requests to go. -/
def follow (req : Request) (left n : Nat) (hop : Hop) : Dialogue Sent Reply (Reply × Nat) := do
  match ← t.RoundTrip n req hop with
  | (.error err, n) => return (.error (t.wrap hop.url err), n)
  | (.ok resp, n) =>
      if !redirects resp then return (.ok resp, n)
      else
        match t.resolve hop.url resp.location with
        | .error err =>
            let err := "failed to parse Location header " ++ t.quote resp.location ++ ": " ++ err
            return (.error (t.wrap hop.url err), n)
        | .ok url =>
            match left with
            | 0 => return (.error (t.wrap resp.location "stopped after 10 redirects"), n)
            | left + 1 => follow req left n (redirected hop resp url)

/-- The first of ten requests. -/
def Do (n : Nat) (req : Request) : Dialogue Sent Reply (Reply × Nat) :=
  t.follow req 9 n ⟨t.baseURL, true⟩

/-- A call of the client over the transport. -/
def perform {α : Type} (d : Call α) : Dialogue Sent Reply (α × Nat) :=
  Dialogue.implement t.Do d 0

/-- The engine has sent the request back: it wants credentials, or names another address. -/
def bounced : Reply → Bool
  | .error _ => false
  | .ok resp => resp.StatusCode = 401 || redirects resp

/-- The engine has answered the request. -/
def took : Reply → Bool
  | .error _ => false
  | .ok resp => !(resp.StatusCode = 401 || redirects resp)

/-- The engine wants to see credentials. -/
def Challenged (reply : Reply) (challenge : Text) : Prop :=
  ∃ resp, reply = .ok resp ∧ resp.StatusCode = 401 ∧ resp.challenge = challenge

/-- The number of credentials that have been sent. -/
def credentials (low : List (Sent × Reply)) : Nat :=
  (low.filter fun ex => ex.1.authorization.isSome).length

variable {t : Transport} {n m : Nat} {req : Request} {hop : Hop} {sent : Sent} {reply : Reply}
variable {auth : Option Text} {low more first rest before : List (Sent × Reply)} {log : Log}

@[simp]
theorem took_error (err : String) : took (.error err) = false := rfl

theorem took_of_bounced (h : bounced reply = true) : took reply = false := by
  cases reply with
  | error err => rfl
  | ok resp => exact congrArg not h

theorem bounced_of_challenged {challenge : Text} (h : Challenged reply challenge) :
    bounced reply = true := by
  obtain ⟨resp, rfl, hstatus, -⟩ := h
  simp [bounced, hstatus]

theorem bounced_of_redirects {resp : Response} (h : redirects resp = true) :
    bounced (.ok resp) = true := by
  simp [bounced, h]

theorem credentials_append (first rest : List (Sent × Reply)) :
    credentials (first ++ rest) = credentials first + credentials rest := by
  rw [credentials, List.filter_append, List.length_append]
  rfl

/-! ### What is sent -/

variable (t) in
/-- Credentials answer the challenge that the request itself has just been given, and carry the
next number. -/
def Answers (n : Nat) (before : List (Sent × Reply)) (sent : Sent) : Prop :=
  ∀ auth ∈ sent.authorization, ∃ before' reply challenge,
    before = before' ++ [({ sent with authorization := none }, reply)] ∧
      Challenged reply challenge ∧
      t.answer (n + credentials before') sent.hop.method (t.requestURI sent.hop.url) challenge =
        .ok auth

variable (t) in
/-- A request goes to the address of the client, or to where it has been redirected. -/
inductive Directed (before : List (Sent × Reply)) (sent : Sent) : Prop
  | start (h : sent.hop = ⟨t.baseURL, true⟩)
  | redirect {last : Sent} {resp : Response} {url : Text} (hlast : (last, .ok resp) ∈ before)
      (hrequest : last.request = sent.request) (hredirects : redirects resp = true)
      (hurl : t.resolve last.hop.url resp.location = .ok url)
      (hhop : sent.hop = redirected last.hop resp url)

variable (t) in
structure Sends (n : Nat) (before : List (Sent × Reply)) (sent : Sent) : Prop where
  answers : t.Answers n before sent
  directed : t.Directed before sent

theorem Directed.authorized {auth : Option Text} (h : t.Directed before ⟨req, hop, none⟩)
    (more : List (Sent × Reply)) : t.Directed (before ++ more) ⟨req, hop, auth⟩ := by
  cases h with
  | start h => exact .start h
  | redirect hlast hrequest hredirects hurl hhop =>
      exact .redirect (List.mem_append_left _ hlast) hrequest hredirects hurl hhop

theorem Sends.behind (h : t.Sends (n + credentials first) before sent) :
    t.Sends n (first ++ before) sent := by
  constructor
  · intro auth hauth
    obtain ⟨before', reply, challenge, rfl, hchallenged, hanswer⟩ := h.answers auth hauth
    refine ⟨first ++ before', reply, challenge, (List.append_assoc ..).symm, hchallenged, ?_⟩
    rwa [credentials_append, ← Nat.add_assoc]
  · cases h.directed with
    | start h => exact .start h
    | redirect hlast hrequest hredirects hurl hhop =>
        exact .redirect (List.mem_append_right _ hlast) hrequest hredirects hurl hhop

/-! ### One request -/

variable (t) in
/-- What may be sent for a request: it, while it has only been sent back. -/
structure May (n : Nat) (req : Request) (before : List (Sent × Reply)) (sent : Sent) : Prop where
  request : sent.request = req
  sends : t.Sends n before sent
  bounced : ∀ ex ∈ before, bounced ex.2 = true

/-- This was sent last, with this outcome: the reply, or an error if it is not answered. -/
structure Ended (n : Nat) (sent : Sent) (low : List (Sent × Reply)) (out : Reply × Nat) :
    Prop where
  last : ∃ init reply, low = init ++ [(sent, reply)] ∧ (∀ ex ∈ init, bounced ex.2 = true) ∧
    (out.1 = reply ∨ took reply = false ∧ ∃ err, out.1 = .error err)
  count : out.2 = n + credentials low

theorem bounced_snoc (hlow : ∀ ex ∈ low, bounced ex.2 = true) (hreply : bounced reply = true) :
    ∀ ex ∈ low ++ [(sent, reply)], bounced ex.2 = true := by
  intro ex hex
  rcases List.mem_append.mp hex with hex | hex
  · exact hlow ex hex
  · rw [List.mem_singleton.mp hex]
    exact hreply

theorem keeps_RoundTrip (hlow : ∀ ex ∈ low, bounced ex.2 = true)
    (hdirected : t.Directed low ⟨req, hop, none⟩) :
    (t.RoundTrip (n + credentials low) req hop).Keeps (t.May n req)
      (fun low' out => ∃ auth, Ended n ⟨req, hop, auth⟩ low' out) low := by
  have hplain (reply : Reply) :
      credentials (low ++ [(⟨req, hop, none⟩, reply)]) = credentials low :=
    credentials_append low _
  have hended {reply result : Reply}
      (h : result = reply ∨ took reply = false ∧ ∃ err, result = .error err) :
      ∃ auth, Ended n ⟨req, hop, auth⟩ (low ++ [(⟨req, hop, none⟩, reply)])
        (result, n + credentials low) :=
    ⟨none, ⟨low, reply, rfl, hlow, h⟩, by rw [hplain]⟩
  refine ⟨⟨rfl, ⟨?_, hdirected⟩, hlow⟩, ?_⟩
  · rintro auth ⟨⟩
  · rintro (err | resp)
    · exact hended (.inl rfl)
    · by_cases hstatus : resp.StatusCode ≠ 401
      · simp only [if_pos hstatus]
        exact hended (.inl rfl)
      · have hchallenged : Challenged (.ok resp) resp.challenge :=
          ⟨resp, rfl, not_not.mp hstatus, rfl⟩
        have hbounced := bounced_of_challenged hchallenged
        simp only [if_neg hstatus]
        split
        · exact hended (.inr ⟨took_of_bounced hbounced, _, rfl⟩)
        · split
          case h_1 err hauth => exact hended (.inr ⟨took_of_bounced hbounced, _, rfl⟩)
          case h_2 auth hauth =>
            -- The first request came back with the challenge that the second one answers.
            have hlow' : ∀ ex ∈ low ++ [(⟨req, hop, none⟩, .ok resp)], bounced ex.2 = true :=
              bounced_snoc hlow hbounced
            refine ⟨⟨rfl, ⟨?_, hdirected.authorized _⟩, hlow'⟩, ?_⟩
            · rintro auth' ⟨⟩
              exact ⟨low, .ok resp, resp.challenge, rfl, hchallenged, hauth⟩
            · intro reply
              refine ⟨some auth, ⟨_, reply, rfl, hlow', .inl rfl⟩, ?_⟩
              rw [credentials_append, hplain]
              rfl

/-- What the client is told is the reply, or there is none. -/
theorem Ended.eq_reply {resp : Response} (h : Ended n sent low (.ok resp, m)) :
    ∃ init, low = init ++ [(sent, .ok resp)] ∧ ∀ ex ∈ init, bounced ex.2 = true := by
  obtain ⟨init, reply, rfl, hinit, rfl | ⟨-, err, ⟨⟩⟩⟩ := h.last
  exact ⟨init, rfl, hinit⟩

theorem Ended.failed {err : String} (h : Ended n sent low (.error err, m)) (err' : String) :
    Ended n sent low (.error err', m) := by
  obtain ⟨init, reply, hlow, hinit, hout⟩ := h.last
  refine ⟨⟨init, reply, hlow, hinit, .inr ⟨?_, err', rfl⟩⟩, h.count⟩
  rcases hout with rfl | ⟨htook, -⟩
  · rfl
  · exact htook

theorem Ended.abandoned {resp : Response} (h : Ended n sent low (.ok resp, m))
    (hredirects : redirects resp = true) (err : String) : Ended n sent low (.error err, m) := by
  obtain ⟨init, hlow, hinit⟩ := h.eq_reply
  exact ⟨⟨init, _, hlow, hinit, .inr ⟨took_of_bounced (bounced_of_redirects hredirects), err, rfl⟩⟩,
    h.count⟩

theorem keeps_follow (left : Nat) (hlow : ∀ ex ∈ low, bounced ex.2 = true)
    (hdirected : t.Directed low ⟨req, hop, none⟩) :
    (t.follow req left (n + credentials low) hop).Keeps (t.May n req)
      (fun low' out => ∃ hop auth, Ended n ⟨req, hop, auth⟩ low' out) low := by
  -- A redirect takes one of the requests that are left, and all that were sent before came back.
  induction left using Nat.strong_induction_on generalizing low hop with
  | _ left ih =>
      unfold follow
      apply (keeps_RoundTrip hlow hdirected).bind
      rintro more ⟨err | resp, m⟩ ⟨auth, hended⟩
      · exact ⟨hop, auth, hended.failed _⟩
      · cases hredirects : redirects resp with
        | false =>
            simp only [hredirects, Bool.not_false, if_true]
            exact ⟨hop, auth, hended⟩
        | true =>
            simp only [hredirects, Bool.not_true, Bool.false_eq_true, if_false]
            split
            case h_1 err hurl => exact ⟨hop, auth, hended.abandoned hredirects _⟩
            case h_2 url hurl =>
              cases left with
              | zero => exact ⟨hop, auth, hended.abandoned hredirects _⟩
              | succ left =>
                  obtain ⟨init, heq, hinit⟩ := hended.eq_reply
                  obtain rfl : m = n + credentials (low ++ more) := hended.count
                  have hlast : (⟨req, hop, auth⟩, .ok resp) ∈ low ++ more :=
                    heq ▸ List.mem_append_right _ List.mem_cons_self
                  have hlow' : ∀ ex ∈ low ++ more, bounced ex.2 = true := by
                    rw [heq]
                    exact bounced_snoc hinit (bounced_of_redirects hredirects)
                  exact ih left (Nat.lt_succ_self left) hlow'
                    (.redirect hlast rfl hredirects hurl rfl)

theorem keeps_Do : (t.Do n req).Keeps (t.May n req)
    (fun low out => ∃ hop auth, Ended n ⟨req, hop, auth⟩ low out) [] :=
  keeps_follow 9 (List.forall_mem_nil _) (.start rfl)

theorem filter_of_bounced (hlow : ∀ ex ∈ low, bounced ex.2 = true) :
    low.filter (fun ex => took ex.2) = [] ∧ low.filter (fun ex => !bounced ex.2) = [] := by
  constructor
  · rw [List.filter_eq_nil_iff]
    intro ex hex htook
    rw [took_of_bounced (hlow ex hex)] at htook
    exact Bool.false_ne_true htook
  · rw [List.filter_eq_nil_iff]
    intro ex hex hpassed
    rw [hlow ex hex] at hpassed
    exact Bool.false_ne_true hpassed

/-- What has been sent in vain aside, the engine saw a request once, and the client is told its
reply. -/
theorem Ended.settles (h : Ended n ⟨req, hop, auth⟩ low (reply, m)) :
    ([(req, reply)].filter fun ex => took ex.2) =
        ((low.filter fun ex => took ex.2).map fun ex => (ex.1.request, ex.2)) ∧
      List.Sublist ((low.filter fun ex => !bounced ex.2).map fun ex => ex.1.request) [req] := by
  obtain ⟨init, reply', rfl, hinit, hout⟩ := h.last
  obtain ⟨htook, hbounced⟩ := filter_of_bounced hinit
  rw [List.filter_append, List.filter_append, htook, hbounced, List.nil_append, List.nil_append]
  refine ⟨?_, List.filter_sublist.map _⟩
  rcases hout with rfl | ⟨hfailed, err, rfl⟩
  · cases hreply : took reply <;> simp [hreply]
  · simp [hfailed]

/-! ### Runs -/

theorem Grounded.behind (hfirst : Grounded (fun before ex => t.Sends n before ex.1) first)
    (h : Grounded (fun before ex => t.Sends (n + credentials first) before ex.1) low) :
    Grounded (fun before ex => t.Sends n before ex.1) (first ++ low) := by
  apply hfirst.append
  intro before ex after heq
  exact (h before ex after heq).behind

/-- What the engine has answered is what the client was told, in the same order. What it has not
sent back, whether its reply arrived or not, it was sent once. -/
structure Settled (log : Log) (low : List (Sent × Reply)) : Prop where
  took : (log.filter fun ex => took ex.2) =
    ((low.filter fun ex => took ex.2).map fun ex => (ex.1.request, ex.2))
  once : List.Sublist ((low.filter fun ex => !bounced ex.2).map fun ex => ex.1.request)
    (log.map Prod.fst)

theorem settled_of_realizes (h : Dialogue.Realizes t.Do n log low m) :
    m = n + credentials low ∧ Settled log low ∧
      Grounded (fun before ex => t.Sends n before ex.1) low := by
  induction h with
  | nil n => exact ⟨rfl, ⟨rfl, .refl _⟩, grounded_nil⟩
  | @cons n₀ n₁ n₂ req reply log first rest hfirst hrest ih =>
      obtain ⟨hmay, -, hout⟩ := keeps_Do.sound hfirst
      obtain ⟨hop, auth, hended⟩ := hout _ rfl
      obtain rfl : n₁ = n₀ + credentials first := hended.count
      obtain ⟨htook, honce⟩ := hended.settles
      obtain ⟨rfl, hsettled, hgrounded⟩ := ih
      have hfirst' : Grounded (fun before ex => t.Sends n₀ before ex.1) first :=
        fun before ex after heq => (hmay before ex after heq).sends
      refine ⟨?_, ⟨?_, ?_⟩, Grounded.behind hfirst' hgrounded⟩
      · rw [credentials_append, Nat.add_assoc]
      · rw [← List.singleton_append, List.filter_append, List.filter_append, List.map_append,
          htook, hsettled.took]
      · rw [List.filter_append, List.map_append]
        exact honce.append hsettled.once

/-- At most one request of a run writes to the redirection service. -/
theorem pairwise_listens {tokens : Bytes → List Token} {lower : Char → Char}
    (h : Grounded (fun before ex => Allowed tokens lower before ex.1) log) :
    (log.map Prod.fst).Pairwise fun a b => ¬ (a.Listens ∧ b.Listens) := by
  rw [List.pairwise_map]
  apply Grounded.pairwise
  rintro before ex after heq ex' hex' ⟨hlistens', -⟩
  exact (h before ex after heq).untouched ex' hex' hlistens'

/-- A transport for tests, with a checksum in the place of the digest and whole addresses in the
place of relative ones. -/
def plain : Transport where
  user := "admin".toList
  password := "secret".toList
  baseURL := "http://me:16992/wsman".toList
  md5Hex := fun t => (hex 32 (t.foldl (fun sum c => (31 * sum + c.toNat) % 2 ^ 128) 7)).toList
  random := fun n i => BitVec.ofNat 8 (8 * n + i)
  lower := Char.toLower
  quote := String.ofList
  requestURI := fun url => (url.drop 7).dropWhile (· ≠ '/')
  resolve := fun _ location => .ok location
  wrap := fun url err => "Post " ++ String.ofList url ++ ": " ++ err

/-- The engine wants to see credentials. -/
def challenging : Reply :=
  .ok { StatusCode := 401
        challenge := "Digest realm=\"ME\", nonce=\"5\", qop=\"auth\"".toList
        Body := [] }

/-- The engine names another address. -/
def moving : Reply :=
  .ok { StatusCode := 307, location := "http://me:16992/moved".toList, Body := [] }

/-- The run in which the listener is switched on, against an engine that sends the first request to
another address and wants to see credentials for each. -/
def performing : List (Sent × Reply) × Dialogue Sent Reply (Except String Unit × Nat) :=
  (plain.perform (EnableKVM decoded Char.toLower)).replay
    (challenging :: moving :: enabling.1.flatMap fun ex => [challenging, ex.2])

end Transport

end Outband.Amt
