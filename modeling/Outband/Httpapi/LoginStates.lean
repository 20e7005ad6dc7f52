import Outband.Httpapi.LoginRuns

/-!
# States of other browsers

A link may make a browser visit the callback with a state and a code that somebody else was given.
As long as no state is drawn twice, the server refuses such a visit: the cookie of the browser
holds the state of a login that it began itself.
-/

namespace Outband.Httpapi

open Foundation

namespace LoginSystem

variable {β : Type} [DecidableEq β] {site : Site} {s s' : LoginSystem β} {a : LoginAct β}

/-- The bytes drawn for a state were drawn for none before. -/
def Fresh : LoginAct β → LoginSystem β → Prop
  | .serve _ draws, s => ∀ raw ∈ draws.state, raw ∉ s.drawn
  | _, _ => True

instance : ∀ (a : LoginAct β) (s : LoginSystem β), Decidable (Fresh a s)
  | .serve _ draws, s => inferInstanceAs (Decidable (∀ raw ∈ draws.state, raw ∉ s.drawn))
  | .send _ _ _, _ | .forge _, _ | .finish _ _ _, _ | .receive _, _ | .lose _ _, _ | .tick _, _ =>
      inferInstanceAs (Decidable True)

/-- The state of each flow was drawn, and that of no other flow is the same. -/
structure Distinct (site : Site) (s : LoginSystem β) : Prop where
  enabled : ∀ who flow, .began who flow ∈ s.log → site.oidc.isSome
  drawn : ∀ who flow, .began who flow ∈ s.log →
    ∃ raw ∈ s.drawn, randomURLSafe (some raw) = some flow.state
  once : ∀ who flow who' flow', .began who flow ∈ s.log → .began who' flow' ∈ s.log →
    flow.state = flow'.state → who = who'

omit [DecidableEq β] in
theorem began_of_handle {who who' : Option β} {g : Gate} {now : Nat} {draws : Draws}
    {route : Route} {r : LoginRequest} {flow : Flow}
    (h : .began who' flow ∈ (site.handle who g now draws route r).log) :
    who' = who ∧ site.oidc.isSome ∧ Flow.draw draws = some flow := by
  cases hroute : route.handler with
  | handleOIDCLogin =>
      simp only [Site.handle, hroute] at h
      split_ifs at h with hoidc
      · obtain ⟨flow', hdraw, heq⟩ := List.mem_map.mp h
        cases heq
        exact ⟨rfl, hoidc, Option.mem_toList.mp hdraw⟩
      · cases h
  | handleLoginPost =>
      simp only [Site.handle, hroute] at h
      obtain ⟨token, -, heq⟩ := List.mem_map.mp h
      cases heq
  | handleLogout =>
      simp only [Site.handle, hroute] at h
      obtain ⟨token, -, heq⟩ := List.mem_map.mp h
      cases heq
  | _ =>
      simp only [Site.handle, hroute] at h
      cases h

omit [DecidableEq β] in
/-- Only a request for the login at the provider begins a flow. -/
theorem began_of_serve {who who' : Option β} {g : Gate} {now : Nat} {draws : Draws}
    {r : LoginRequest} {flow : Flow}
    (h : .began who' flow ∈ (site.serve who g now draws r).log) :
    who' = who ∧ site.oidc.isSome ∧ Flow.draw draws = some flow := by
  rw [Site.serve] at h
  cases hresponse : (Handler site.mux g now r.toRequest).1 with
  | reached route =>
      simp only [hresponse] at h
      cases route with
      | none => cases h
      | some route =>
          rcases List.mem_cons.mp h with heq | hmem
          · cases heq
          · exact began_of_handle hmem
  | _ =>
      simp only [hresponse] at h
      cases h

omit [DecidableEq β] in
theorem not_began_finish {who who' : Option β} {provider : Provider} {g : Gate} {now : Nat}
    {raw : Bytes} {x : Exchange} {flow : Flow} :
    .began who' flow ∉ (site.finish who provider g now raw x).log := by
  intro h
  simp only [Site.finish] at h
  cases haccept : x.accept provider with
  | error warning =>
      simp only [haccept] at h
      cases h
  | ok idToken =>
      simp only [haccept] at h
      cases List.mem_singleton.mp h

theorem state_of_draw {draws : Draws} {flow : Flow} (h : Flow.draw draws = some flow) :
    ∃ raw ∈ draws.state, randomURLSafe (some raw) = some flow.state := by
  simp only [Flow.draw, Option.bind_eq_bind, Option.bind_eq_some_iff] at h
  obtain ⟨state, hstate, nonce, -, verifier, -, heq⟩ := h
  cases heq
  obtain ⟨raw, hraw, htext⟩ := Option.map_eq_some_iff.mp hstate
  exact ⟨raw, hraw, congrArg some htext⟩

theorem randomURLSafe_inj {raw raw' : Bytes} {state : String}
    (h : randomURLSafe (some raw) = some state) (h' : randomURLSafe (some raw') = some state) :
    raw = raw' := by
  have htext := Option.some.inj (h.trans h'.symm)
  exact rawUrlChars_injective (String.ofList_injective htext)

theorem Distinct.next (hs : s.Distinct site) (hfresh : Fresh a s)
    (hstep : step site a s = some s') : s'.Distinct site := by
  cases a with
  | serve i draws =>
      obtain ⟨⟨who, r⟩, hsent, rfl⟩ := Option.map_eq_some_iff.mp hstep
      have hcases : ∀ who' flow, .began who' flow ∈
          s.log ++ (site.serve who s.gate s.clock draws r).log →
          .began who' flow ∈ s.log ∨ (who' = who ∧ site.oidc.isSome ∧
            ∃ raw ∈ draws.state, randomURLSafe (some raw) = some flow.state) := by
        intro who' flow hmem
        rcases List.mem_append.mp hmem with hold | hnew
        · exact .inl hold
        · obtain ⟨hwho, hoidc, hdraw⟩ := began_of_serve hnew
          exact .inr ⟨hwho, hoidc, state_of_draw hdraw⟩
      -- A flow that was begun before has another state than one that is begun now.
      have hother : ∀ who' (flow flow' : Flow), .began who' flow ∈ s.log →
          (∃ raw ∈ draws.state, randomURLSafe (some raw) = some flow'.state) →
          flow.state ≠ flow'.state := by
        rintro who' flow flow' hold ⟨raw, hraw, hstate⟩ heq
        obtain ⟨raw', hraw', hstate'⟩ := hs.drawn who' flow hold
        rw [← heq] at hstate
        exact hfresh raw hraw (randomURLSafe_inj hstate hstate' ▸ hraw')
      refine ⟨?_, ?_, ?_⟩
      · intro who' flow hmem
        rcases hcases who' flow hmem with hold | ⟨-, hoidc, -⟩
        · exact hs.enabled who' flow hold
        · exact hoidc
      · intro who' flow hmem
        rcases hcases who' flow hmem with hold | ⟨-, -, raw, hraw, hstate⟩
        · obtain ⟨raw, hraw, hstate⟩ := hs.drawn who' flow hold
          exact ⟨raw, List.mem_append_left _ hraw, hstate⟩
        · exact ⟨raw, List.mem_append_right _ (Option.mem_toList.mpr hraw), hstate⟩
      · intro who₁ flow₁ who₂ flow₂ h₁ h₂ heq
        rcases hcases _ _ h₁ with hold₁ | ⟨hwho₁, -, hnew₁⟩
        · rcases hcases _ _ h₂ with hold₂ | ⟨-, -, hnew₂⟩
          · exact hs.once _ _ _ _ hold₁ hold₂ heq
          · exact absurd heq (hother _ _ _ hold₁ hnew₂)
        · rcases hcases _ _ h₂ with hold₂ | ⟨hwho₂, -, -⟩
          · exact absurd heq.symm (hother _ _ _ hold₂ hnew₁)
          · rw [hwho₁, hwho₂]
  | finish i provider raw =>
      obtain ⟨⟨who, x⟩, hwaiting, rfl⟩ := Option.map_eq_some_iff.mp hstep
      have hold : ∀ who' flow, .began who' flow ∈
          s.log ++ (site.finish who provider s.gate s.clock raw x).log →
          .began who' flow ∈ s.log := by
        intro who' flow hmem
        exact (List.mem_append.mp hmem).resolve_right not_began_finish
      exact ⟨fun _ _ h => hs.enabled _ _ (hold _ _ h), fun _ _ h => hs.drawn _ _ (hold _ _ h),
        fun _ _ _ _ h h' => hs.once _ _ _ _ (hold _ _ h) (hold _ _ h')⟩
  | receive i =>
      obtain ⟨sent, -, rfl⟩ := Option.map_eq_some_iff.mp hstep
      exact ⟨hs.enabled, hs.drawn, hs.once⟩
  | _ =>
      cases hstep
      exact ⟨hs.enabled, hs.drawn, hs.once⟩

theorem distinct_of_run (hrun : Run site Fresh s) : s.Distinct site := by
  obtain ⟨secret, clock, hreached⟩ := hrun
  refine hreached.invariant (I := Distinct site) ?_ fun _ _ _ hs hfresh hstep =>
    hs.next hfresh hstep
  refine ⟨?_, ?_, ?_⟩
  · intro who flow h
    cases h
  · intro who flow h
    cases h
  · intro who flow who' flow' h
    cases h

/-- A browser that is made to visit the callback with a state which was handed to somebody else is
refused: the server waits for no exchange, logs nobody in, and takes the cookies away. -/
theorem foreign_state_refused (hrun : Run site Fresh s) {b : β} {who : Option β} {flow : Flow}
    (hbegan : .began who flow ∈ s.log) (hwho : who ≠ some b) {i : Nat} {r : LoginRequest}
    {route : Route} (hsent : s.requests[i]? = some (some b, r))
    (hreached : (Handler site.mux s.gate s.clock r.toRequest).1 = .reached (some route))
    (hroute : route.handler = .handleOIDCCallback)
    (hstate : firstValue r.query "state" = flow.state) (draws : Draws) :
    ∃ s' warning, step site (.serve i draws) s = some s' ∧
      s'.replies = s.replies ++ [(some b, oidcLoginError warning)] ∧
      s'.exchanges = s.exchanges ∧
      s'.log = s.log ++ [.reached (some b) (r.Cookie sessionCookie) route s.clock] := by
  have hdistinct := distinct_of_run hrun
  have hanswer : ∃ warning, handleOIDCCallback site.oidc r = .inl (oidcLoginError warning) := by
    cases hcallback : handleOIDCCallback site.oidc r with
    | inl reply =>
        obtain ⟨warning, rfl⟩ :=
          handleOIDCCallback_reply (hdistinct.enabled who flow hbegan) hcallback
        exact ⟨warning, rfl⟩
    | inr x =>
        obtain ⟨flow', hcookies⟩ := (sound_of_run hrun).requests b r (List.mem_of_getElem? hsent)
        have hown := began_of_exchange hcookies hcallback
        have hsame := (handleOIDCCallback_exchange hcallback).2.2.2
        rw [hstate] at hsame
        exact absurd (hdistinct.once _ _ _ _ hbegan hown hsame) hwho
  obtain ⟨warning, hanswer⟩ := hanswer
  refine ⟨_, warning, congrArg (Option.map _) hsent, ?_⟩
  simp [note, Site.serve, hreached, Site.handle, hroute, hanswer]

/-- Somebody is given a state, and a browser that has begun a login of its own is made to visit the
callback with it. -/
def forgedActs : List (LoginAct Nat) :=
  [.forge loginRequest, .serve 0 zeroDraws, .send 0 [] loginRequest,
    .serve 0 ⟨[], some (List.replicate 32 1), some (List.replicate 32 1),
      some (List.replicate 32 1)⟩,
    .receive 1, .send 0 oidcKeys callbackRequest]

/-- The browser is refused. -/
theorem foreign_state_refused_forged : ∃ (s : LoginSystem Nat) (r : LoginRequest),
    Run providerSite Fresh s ∧ .began none zeroFlow ∈ s.log ∧
    s.requests[0]? = some (some 0, r) ∧ r.cookies.length = 3 ∧
    ∃ s' warning, step providerSite (.serve 0 {}) s = some s' ∧
      s'.replies = s.replies ++ [(some 0, oidcLoginError warning)] ∧
      s'.exchanges = s.exchanges ∧
      s'.log = s.log ++ [.reached (some 0) (r.Cookie sessionCookie)
        ⟨some "GET", "/auth/oidc/callback", .handleOIDCCallback⟩ s.clock] := by
  have htest : ((exec (step providerSite) Fresh forgedActs startSystem).any fun s =>
      decide (.began none zeroFlow ∈ s.log ∧ (s.requests[0]?.any fun sent =>
        decide (sent.1 = some 0 ∧ sent.2.cookies.length = 3 ∧
          (Handler providerSite.mux s.gate s.clock sent.2.toRequest).1 =
            .reached (some ⟨some "GET", "/auth/oidc/callback", .handleOIDCCallback⟩) ∧
          firstValue sent.2.query "state" = zeroFlow.state)) = true)) = true := by
    decide +kernel
  obtain ⟨s, hs, hbegan, hany⟩ := exists_reached_of_exec htest
  obtain ⟨⟨who, r⟩, hsent, hr⟩ := (Option.any_eq_true _ _).mp hany
  obtain ⟨hwho, hcookies, hreached, hstate⟩ := of_decide_eq_true hr
  cases hwho
  have hrun : Run providerSite Fresh s := ⟨_, _, hs⟩
  exact ⟨s, r, hrun, hbegan, hsent, hcookies,
    foreign_state_refused hrun hbegan (by simp) hsent hreached rfl hstate {}⟩

end LoginSystem

end Outband.Httpapi
