import Outband.Amt.DigestTransport

/-!
# Credentials as the engine reads them

The header that `authorize` writes has the grammar of a challenge. An engine that reads it with that
grammar and computes the digest from what it reads and the password comes to the same digest.

## Implementation notes

The parameters that come from the challenge are copied. Quotes are not escaped, so that no value may
hold one, the name of the user and the address included, and the algorithm is written without any.
-/

namespace Outband.Amt.Digest

open Foundation
open Bmc.EventLog (hex)
open Inventory (isSpace)

variable {lower : Char → Char} {md5Hex : Text → Text}
variable {user password method uri nc cnonce s : Text} {ps : List (Param lower)}

/-- The engine's check of a header: the digest is the one of the parameters. -/
def Verifies (lower : Char → Char) (md5Hex : Text → Text) (password method header : Text) : Prop :=
  let params := parseDigestChallenge lower header
  params.get "response".toList =
    digestResponse md5Hex (params.get "username".toList) password method (params.get "uri".toList)
      (params.get "nc".toList) (params.get "cnonce".toList) params

/-! ### Lists of parameters -/

/-- Parameters with a comma and a space between them. -/
def commaText (p : Param lower) (ps : List (Param lower)) : Text :=
  p.text ++ ps.flatMap fun q => ',' :: ' ' :: q.text

theorem renders_commaText (p : Param lower) (ps : List (Param lower)) :
    Renders (p :: ps) (commaText p ps) := by
  have hshows (p : Param lower) : Shows p p.text :=
    ⟨[], [], List.forall_mem_nil _, List.forall_mem_nil _, by simp⟩
  have hspace : AllSpace [' '] := List.all_eq_true.mp (by decide)
  induction ps generalizing p with
  | nil =>
      rw [commaText, List.flatMap_nil, List.append_nil]
      exact .last (hshows p)
  | cons q ps ih =>
      have hrest : Renders (q :: ps) (' ' :: commaText q ps) := (ih q).pad hspace
      exact .cons (hshows p) (List.cons_ne_nil q ps) hrest

/-- Keys that can be written and read. -/
structure Key (lower : Char → Char) (key : Text) : Prop where
  plain : ∀ c ∈ key, c ≠ '=' ∧ c ≠ ',' ∧ c ≠ '"' ∧ isSpace c = false
  lower : key.map lower = key

/-- A value that is written without quotes. -/
structure Bare (value : Text) : Prop where
  plain : '"' ∉ value
  comma : ',' ∉ value
  trimmed : Trimmed isSpace value

def quotedParam {key value : Text} (hkey : Key lower key) (hvalue : '"' ∉ value) : Param lower :=
  ⟨key, value, true, hkey.plain, hkey.lower, hvalue, fun h => Bool.noConfusion h⟩

def bareParam {key value : Text} (hkey : Key lower key) (hvalue : Bare value) : Param lower :=
  ⟨key, value, false, hkey.plain, hkey.lower, hvalue.plain, fun _ => ⟨hvalue.comma, hvalue.trimmed⟩⟩

/-- The names of the parameters of the header. -/
def answerKeys : List Text :=
  ["username", "realm", "nonce", "uri", "qop", "nc", "cnonce", "response", "opaque",
    "algorithm"].map String.toList

/-! ### The header -/

/-- What is put into a header can be written there. -/
structure Sendable (lower : Char → Char) (md5Hex : Text → Text) (user uri nc cnonce : Text) :
    Prop where
  keys : ∀ k ∈ answerKeys, k.map lower = k
  user : '"' ∉ user
  uri : '"' ∉ uri
  nc : Bare nc
  cnonce : '"' ∉ cnonce
  md5 : ∀ t, '"' ∉ md5Hex t

/-- So can what is copied from the challenge. -/
structure Copyable (params : Params) : Prop where
  plain : ∀ k, '"' ∉ params.get k
  algorithm : Bare (params.get "algorithm".toList)

variable {params : Params}

theorem Sendable.key (hs : Sendable lower md5Hex user uri nc cnonce) {k : Text}
    (hk : k ∈ answerKeys) : Key lower k := by
  have hplain : ∀ k ∈ answerKeys,
      (k.all fun c => c ≠ '=' ∧ c ≠ ',' ∧ c ≠ '"' ∧ isSpace c = false) = true := by decide
  exact ⟨key_plain_of_all (hplain k hk), hs.keys k hk⟩

theorem bare_auth : Bare "auth".toList := ⟨by decide, by decide, by decide⟩

theorem Sendable.response (hs : Sendable lower md5Hex user uri nc cnonce) (password method : Text)
    (params : Params) : '"' ∉ digestResponse md5Hex user password method uri nc cnonce params := by
  unfold digestResponse
  split
  · exact hs.md5 _
  · exact hs.md5 _

section

variable (hs : Sendable lower md5Hex user uri nc cnonce) (hp : Copyable params)
variable (password method : Text)

def userParam : Param lower :=
  quotedParam (hs.key (by decide : "username".toList ∈ answerKeys)) hs.user

/-- A parameter of the challenge. -/
def copiedParam {k : Text} (hk : k ∈ answerKeys) : Param lower :=
  quotedParam (hs.key hk) (hp.plain k)

def uriParam : Param lower := quotedParam (hs.key (by decide : "uri".toList ∈ answerKeys)) hs.uri

def qopParam : Param lower := bareParam (hs.key (by decide : "qop".toList ∈ answerKeys)) bare_auth

def ncParam : Param lower := bareParam (hs.key (by decide : "nc".toList ∈ answerKeys)) hs.nc

def cnonceParam : Param lower :=
  quotedParam (hs.key (by decide : "cnonce".toList ∈ answerKeys)) hs.cnonce

def responseParam (params : Params) : Param lower :=
  quotedParam (hs.key (by decide : "response".toList ∈ answerKeys))
    (hs.response password method params)

def algorithmParam : Param lower :=
  bareParam (hs.key (by decide : "algorithm".toList ∈ answerKeys)) hp.algorithm

/-- Whether the header has a parameter: `qop` brings two more, and some are only copied. -/
def present (params : Params) (k : Text) : Bool :=
  (k ∈ ["qop".toList, "nc".toList, "cnonce".toList] → params.get "qop".toList ≠ []) ∧
    (k = "opaque".toList → params.get "opaque".toList ≠ []) ∧
    (k = "algorithm".toList → params.get "algorithm".toList ≠ [])

/-- All parameters that a header can have, behind the name of the user. -/
def allParams : List (Param lower) :=
  [copiedParam hs hp (by decide : "realm".toList ∈ answerKeys),
    copiedParam hs hp (by decide : "nonce".toList ∈ answerKeys), uriParam hs, qopParam hs,
    ncParam hs, cnonceParam hs, responseParam hs password method params,
    copiedParam hs hp (by decide : "opaque".toList ∈ answerKeys), algorithmParam hs hp]

def answerParams : List (Param lower) :=
  (allParams hs hp password method).filter fun p => present params p.key

/-- The header is written in the grammar of a challenge. -/
theorem authorization_eq : authorization md5Hex user password method uri nc cnonce params =
    challenge (commaText (userParam hs) (answerParams hs hp password method)) := by
  unfold authorization answerParams allParams
  simp only
  split_ifs <;>
    simp_all [challenge, commaText, userParam, copiedParam, uriParam, qopParam, ncParam,
      cnonceParam, responseParam, algorithmParam, quotedParam, bareParam, Param.text, Param.written,
      present]

end

/-! ### What the engine reads -/

theorem valueOf_filter (shown : Text → Bool) (ps : List (Param lower)) (k : Text) :
    valueOf (ps.filter fun p => shown p.key) k = if shown k then valueOf ps k else [] := by
  have hfind (p : Param lower) : decide (shown p.key = true ∧ decide (p.key = k) = true) =
      (shown k && decide (p.key = k)) := by
    by_cases hkey : p.key = k
    · simp [hkey]
    · simp [hkey]
  simp only [valueOf, List.find?_filter, hfind]
  cases shown k with
  | true => simp
  | false =>
      have hnone : ps.find? (fun _ => false) = none :=
        List.find?_eq_none.mpr fun _ _ => Bool.false_ne_true
      simp [hnone]

theorem present_plain {k : Text} (hk : k ∉ ["qop".toList, "nc".toList, "cnonce".toList])
    (hopaqueKey : k ≠ "opaque".toList) (halgorithm : k ≠ "algorithm".toList) :
    present params k = true :=
  decide_eq_true ⟨fun h => absurd h hk, fun h => absurd h hopaqueKey, fun h => absurd h halgorithm⟩

theorem present_qop {k : Text} (hk : k ∈ ["qop".toList, "nc".toList, "cnonce".toList]) :
    present params k = true ↔ params.get "qop".toList ≠ [] := by
  have hother : ∀ k ∈ ["qop".toList, "nc".toList, "cnonce".toList],
      k ≠ "opaque".toList ∧ k ≠ "algorithm".toList := by decide
  obtain ⟨hopaqueKey, halgorithm⟩ := hother k hk
  rw [present, decide_eq_true_eq]
  exact ⟨fun h => h.1 hk,
    fun h => ⟨fun _ => h, fun h => absurd h hopaqueKey, fun h => absurd h halgorithm⟩⟩

theorem present_opaque_iff :
    present params "opaque".toList = true ↔ params.get "opaque".toList ≠ [] := by
  rw [present, decide_eq_true_eq]
  exact ⟨fun h => h.2.1 rfl,
    fun h => ⟨fun hqop => absurd hqop (by decide), fun _ => h, fun heq => absurd heq (by decide)⟩⟩

theorem present_algorithm :
    present params "algorithm".toList = true ↔ params.get "algorithm".toList ≠ [] := by
  rw [present, decide_eq_true_eq]
  exact ⟨fun h => h.2.2 rfl,
    fun h => ⟨fun hqop => absurd hqop (by decide), fun heq => absurd heq (by decide), fun _ => h⟩⟩

/-- The parameters of the header as the engine finds them. -/
structure ReadsBack (params : Params) (user uri nc cnonce response : Text) (read : Params) :
    Prop where
  username_eq : read.get "username".toList = user
  realm_eq : read.get "realm".toList = params.get "realm".toList
  nonce_eq : read.get "nonce".toList = params.get "nonce".toList
  uri_eq : read.get "uri".toList = uri
  qop_eq : read.get "qop".toList = if params.get "qop".toList ≠ [] then "auth".toList else []
  nc_eq : read.get "nc".toList = if params.get "qop".toList ≠ [] then nc else []
  cnonce_eq : read.get "cnonce".toList = if params.get "qop".toList ≠ [] then cnonce else []
  response_eq : read.get "response".toList = response
  opaque_eq : read.get "opaque".toList = params.get "opaque".toList
  algorithm_eq : read.get "algorithm".toList = params.get "algorithm".toList

theorem readsBack (hs : Sendable lower md5Hex user uri nc cnonce) (hp : Copyable params)
    (password method : Text) :
    ReadsBack params user uri nc cnonce
      (digestResponse md5Hex user password method uri nc cnonce params)
      (parseDigestChallenge lower
        (authorization md5Hex user password method uri nc cnonce params)) := by
  have hall : answerKeys.Nodup := by decide
  have hdistinct :
      ((userParam hs :: answerParams hs hp password method).map Param.key).Nodup :=
    hall.sublist ((List.filter_sublist.cons_cons _).map Param.key)
  have hfilter : userParam hs :: answerParams hs hp password method =
      (userParam hs :: allParams hs hp password method).filter fun p => present params p.key := by
    rw [List.filter_cons, if_pos (by simp [present, userParam, quotedParam])]
    rfl
  have hget (k : Text) : (parseDigestChallenge lower
      (authorization md5Hex user password method uri nc cnonce params)).get k = chooseQop k
        (if present params k then valueOf (userParam hs :: allParams hs hp password method) k
          else []) := by
    rw [authorization_eq hs hp, get_parseDigestChallenge (renders_commaText _ _) hdistinct, hfilter,
      valueOf_filter]
  have hplain {k : Text} (hk : k ∉ ["qop".toList, "nc".toList, "cnonce".toList])
      (hopaqueKey : k ≠ "opaque".toList) (halgorithm : k ≠ "algorithm".toList) :
      (parseDigestChallenge lower
          (authorization md5Hex user password method uri nc cnonce params)).get k =
        chooseQop k (valueOf (userParam hs :: allParams hs hp password method) k) := by
    rw [hget, if_pos (present_plain hk hopaqueKey halgorithm)]
  have hqop {k : Text} (hk : k ∈ ["qop".toList, "nc".toList, "cnonce".toList]) :
      (parseDigestChallenge lower
          (authorization md5Hex user password method uri nc cnonce params)).get k =
        chooseQop k (if params.get "qop".toList ≠ [] then
          valueOf (userParam hs :: allParams hs hp password method) k else []) := by
    rw [hget]
    simp only [present_qop hk]
  constructor
  · exact hplain (by decide) (by decide) (by decide)
  · exact hplain (by decide) (by decide) (by decide)
  · exact hplain (by decide) (by decide) (by decide)
  · exact hplain (by decide) (by decide) (by decide)
  · rw [hqop (by decide)]
    split_ifs <;> rfl
  · rw [hqop (by decide)]
    split_ifs <;> rfl
  · rw [hqop (by decide)]
    split_ifs <;> rfl
  · exact hplain (by decide) (by decide) (by decide)
  · rw [hget]
    split_ifs with hpresent
    · rfl
    · exact (not_not.mp (present_opaque_iff.not.mp hpresent)).symm
  · rw [hget]
    split_ifs with hpresent
    · rfl
    · exact (not_not.mp (present_algorithm.not.mp hpresent)).symm

/-- Only some of the parameters enter the digest. -/
theorem digestResponse_congr {params params' : Params} {nc nc' cnonce cnonce' : Text}
    (hrealm : params'.get "realm".toList = params.get "realm".toList)
    (hnonce : params'.get "nonce".toList = params.get "nonce".toList)
    (hqop : params'.get "qop".toList ≠ [] ↔ params.get "qop".toList ≠ [])
    (hcount : params.get "qop".toList ≠ [] → nc' = nc ∧ cnonce' = cnonce)
    (user password method uri : Text) :
    digestResponse md5Hex user password method uri nc' cnonce' params' =
      digestResponse md5Hex user password method uri nc cnonce params := by
  unfold digestResponse
  simp only [hrealm, hnonce, hqop]
  split_ifs with h
  · obtain ⟨rfl, rfl⟩ := hcount h
    rfl
  · rfl

theorem ReadsBack.verifies {read : Params} {response : Text}
    (h : ReadsBack params user uri nc cnonce response read)
    (hresponse : response = digestResponse md5Hex user password method uri nc cnonce params) :
    read.get "response".toList =
      digestResponse md5Hex (read.get "username".toList) password method (read.get "uri".toList)
        (read.get "nc".toList) (read.get "cnonce".toList) read := by
  rw [h.response_eq, hresponse, h.username_eq, h.uri_eq]
  symm
  apply digestResponse_congr h.realm_eq h.nonce_eq
  · rw [h.qop_eq]
    split_ifs with hqop
    · exact iff_of_true (by decide) hqop
    · exact iff_of_false (fun hne => hne rfl) hqop
  · intro hqop
    rw [h.nc_eq, h.cnonce_eq, if_pos hqop, if_pos hqop]
    exact ⟨rfl, rfl⟩

/-! ### Challenges and answers -/

theorem plain_chooseQop {k v : Text} (hv : '"' ∉ v) : '"' ∉ chooseQop k v := by
  unfold chooseQop
  split_ifs
  · decide
  · exact hv

theorem plain_valueOf (ps : List (Param lower)) (k : Text) : '"' ∉ valueOf ps k := by
  induction ps with
  | nil => exact List.not_mem_nil
  | cons p ps ih =>
      rw [valueOf, List.find?_cons]
      cases decide (p.key = k) with
      | true => exact p.value_plain
      | false => exact ih

theorem authorize_verifies {answer : Text} (hs : Sendable lower md5Hex user uri nc cnonce)
    (h : Renders ps s) (hdistinct : (ps.map Param.key).Nodup)
    (halgorithm : Bare (valueOf ps "algorithm".toList))
    (hanswer : authorize lower md5Hex user password method uri nc cnonce (challenge s) =
      .ok answer) :
    Verifies lower md5Hex password method answer ∧
      ReadsBack (parseDigestChallenge lower (challenge s)) user uri nc cnonce
        (digestResponse md5Hex user password method uri nc cnonce
          (parseDigestChallenge lower (challenge s)))
        (parseDigestChallenge lower answer) := by
  have hget := get_parseDigestChallenge h hdistinct
  have hcopy : Copyable (parseDigestChallenge lower (challenge s)) := by
    constructor
    · intro k
      rw [hget]
      exact plain_chooseQop (plain_valueOf ps k)
    · rw [hget]
      exact halgorithm
  have hheader : answer = authorization md5Hex user password method uri nc cnonce
      (parseDigestChallenge lower (challenge s)) := by
    unfold authorize at hanswer
    simp only at hanswer
    split_ifs at hanswer
    exact (Except.ok.inj hanswer).symm
  rw [hheader]
  have hread := readsBack hs hcopy password method
  exact ⟨hread.verifies rfl, hread⟩

/-! ### The answers of a transport -/

theorem mem_toDigits (n : Nat) : ∀ c ∈ Nat.toDigits 16 n, c ∈ "0123456789abcdef".toList := by
  have hdigit : ∀ d < 16, Nat.digitChar d ∈ "0123456789abcdef".toList := by decide
  induction n using Nat.strongRecOn with
  | _ n ih =>
      intro c hc
      by_cases hn : n < 16
      · rw [Nat.toDigits_of_lt_base hn, List.mem_singleton] at hc
        rw [hc]
        exact hdigit n hn
      · have hle : 16 ≤ n := Nat.not_lt.mp hn
        rw [Nat.toDigits_of_base_le (by decide) hle, List.mem_append, List.mem_singleton] at hc
        rcases hc with hc | rfl
        · exact ih (n / 16) (Nat.div_lt_self (by omega) (by decide)) c hc
        · exact hdigit (n % 16) (Nat.mod_lt n (by decide))

theorem bare_hex (k n : Nat) : Bare (hex k n).toList := by
  have hplain : ("0123456789abcdef".toList.all fun c =>
      c ≠ '"' ∧ c ≠ ',' ∧ isSpace c = false) = true := by decide
  have hmem : ∀ c ∈ (hex k n).toList, c ≠ '"' ∧ c ≠ ',' ∧ isSpace c = false := by
    intro c hc
    refine of_decide_eq_true (List.all_eq_true.mp hplain c ?_)
    rw [hex, String.toList_ofList, List.leftpad, List.mem_append] at hc
    rcases hc with hc | hc
    · rw [List.eq_of_mem_replicate hc]
      decide
    · exact mem_toDigits n c hc
  exact ⟨fun h => (hmem _ h).1 rfl, fun h => (hmem _ h).2.1 rfl,
    trimmed_of_forall fun c hc => (hmem c hc).2.2⟩

theorem plain_randomHex {k : Nat} (b : Fin k → BitVec 8) : '"' ∉ randomHex b := by
  rw [randomHex, List.mem_flatMap]
  rintro ⟨x, -, hx⟩
  exact (bare_hex 2 x.toNat).plain hx

end Outband.Amt.Digest
