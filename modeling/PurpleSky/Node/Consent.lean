import PurpleSky.Node.Routine
import PurpleSky.Node.Evidence

/-!
# One consent, one grant

A request is made by a Start and completed by a Poll. What is known of it along a run is a ledger
(`Ledger`): each request that waits was made by a Start of the run, with its poll token and
challenge, and its completion is what the run has issued for it.

* `Ledger.step`: one event keeps the ledger.
* **`one_consent`**: every grant is of a consent, and a request has one completion.
-/

namespace PurpleSky.Node

open Bytes Credentials Farcaster Procedure

variable {K : Crates}

/-! ## Requests and their completions -/

/-- The account token in a reply. -/
def accountToken (value : Json) : Option Bytes :=
  match value.last (str "account_token") with
  | some (.string token) => some token
  | _ => none

/-- The reply with an account token to a Poll of a request that was not completed. -/
def issued (id : Bytes) (x : Machine.Entry Process Event Reply) : Option Json :=
  match x.before, x.event, x.reply with
  | .running core, .action (.poll id' _) env, .ok value =>
      if id' = id ∧ ((core.found env id).bind Login.completion).isNone = true ∧
        (accountToken value).isSome = true then some value else none
  | _, _, _ => none

/-- A Start made a request. -/
inductive Requested (x : Machine.Entry Process Event Reply) (id pollToken : Bytes)
    (challenge : Challenge) : Prop where
  | intro (env : Env) (authUrl qr : Bytes) (event : x.event = .action .start env)
      (request : id = randomToken (env.random .request))
      (poll : pollToken = randomToken (env.random .poll))
      (made : challenge = challengeOf env)
      (reply : x.reply = .ok (requestJson id pollToken authUrl qr challenge.expiresAt))

/-- A request is completed by a Poll with its token: a proof with the nonce of its challenge is
accepted for the permitted identifier, and in time. The Poll grants its new account token. -/
inductive Consent (K : Crates) (earlier : List (Machine.Entry Process Event Reply))
    (x : Machine.Entry Process Event Reply) (id : Bytes) (value : Json) : Prop where
  | intro (core : Core) (env : Env) (token account : Bytes) (challenge : Challenge)
      (client : AuthClient) (net : Net) (proof : SignedProof) (verified : VerifiedIdentity)
      (parsed : ParsedProof) (grants : List (Bytes × Nat)) (before : x.before = .running core)
      (event : x.event = .action (.poll id token) env) (reply : x.reply = .ok value)
      (requested : ∃ y ∈ earlier, Requested y id token challenge)
      (made : Core.client K core.settings = .ok client) (asked : env.net .verify = some net)
      (accepted : verify K.toCrates client net proof challenge (env.now .verify) = .ok verified)
      (read : parse K.toCrates proof challenge client.config.domain client.config.uri
        (env.now .verify) = .ok parsed)
      (nonce : parsed.message.nonce = challenge.nonce) (fid : parsed.fid = verified.fid)
      (allowed : core.settings.allowedFid = some verified.fid)
      (alive : env.now .entry < challenge.expiresAt)
      (unexpired : env.now .expiry < challenge.expiresAt)
      (fewer : grants.Sublist core.grants) (returned : accountToken value = some account)
      (granted : x.after.grants = insertKey grants (hash account) (env.now .entry + grantTtl))

/-! ## Random values -/

/-- The request that a Start draws. -/
def Event.request : Event → Option Bytes
  | .action .start env => some (randomToken (env.random .request))
  | _ => none

/-- The poll token that a Start draws. -/
def Event.pollToken : Event → Option Bytes
  | .action .start env => some (randomToken (env.random .poll))
  | _ => none

/-- The poll token that a Poll presents. -/
def Event.presented : Event → Option Bytes
  | .action (.poll _ token) _ => some token
  | _ => none

/-- No request is drawn twice, and no other token has the hash of a poll token. -/
structure Fresh (es : List Event) : Prop where
  requests : (es.filterMap Event.request).Nodup
  tokens : ∀ token ∈ es.filterMap Event.pollToken, ∀ token' ∈ es.filterMap Event.presented,
    hash token' = hash token → token' = token

theorem Fresh.of_append {es₁ es₂ : List Event} (h : Fresh (es₁ ++ es₂)) : Fresh es₁ where
  requests := by
    have hnodup := h.requests
    rw [List.filterMap_append] at hnodup
    exact hnodup.of_append_left
  tokens token htoken token' htoken' := by
    apply h.tokens
    · rw [List.filterMap_append]
      exact List.mem_append_left _ htoken
    · rw [List.filterMap_append]
      exact List.mem_append_left _ htoken'

/-! ## The ledger -/

/-- The entries of a run. -/
abbrev entries (K : Crates) (es : List Event) : List (Machine.Entry Process Event Reply) :=
  (nodes K).trace .init es

/-- What a run has issued for a request. -/
abbrev issues (K : Crates) (es : List Event) (id : Bytes) : List Json :=
  (entries K es).filterMap (issued id)

/-- What is known of requests at the end of a run. -/
structure Ledger (K : Crates) (es : List Event) : Prop where
  /-- Who waits was made by a Start. -/
  requested : ∀ id login, (id, login) ∈ ((nodes K).final .init es).pending →
    ∃ x ∈ entries K es, ∃ token, Requested x id token login.challenge ∧ login.pollHash = hash token
  /-- A completion is what was issued. -/
  completion : ∀ id login, (id, login) ∈ ((nodes K).final .init es).pending →
    issues K es id = login.completion.toList
  /-- What was issued was for a request of a Start. -/
  known : ∀ id, issues K es id ≠ [] → id ∈ es.filterMap Event.request
  /-- No more than one reply was issued. -/
  once : ∀ id, (issues K es id).length ≤ 1

theorem ledger_nil : Ledger K [] where
  requested _ _ h := by cases h
  completion _ _ h := by cases h
  known _ h := absurd rfl h
  once _ := Nat.zero_le _

theorem entries_append (es : List Event) (e : Event) :
    entries K (es ++ [e]) = entries K es ++ [(nodes K).entry ((nodes K).final .init es) e] :=
  Machine.trace_append _ _ _

theorem issues_append (es : List Event) (e : Event) (id : Bytes) :
    issues K (es ++ [e]) id =
      issues K es id ++ (issued id ((nodes K).entry ((nodes K).final .init es) e)).toList := by
  rw [issues, entries_append, List.filterMap_append]
  rfl

theorem issues_of_none {es : List Event} {e : Event} {id : Bytes}
    (h : issued id ((nodes K).entry ((nodes K).final .init es) e) = none) :
    issues K (es ++ [e]) id = issues K es id := by
  rw [issues_append, h, Option.toList_none, List.append_nil]

theorem request_append {es : List Event} {e : Event} {id : Bytes}
    (h : id ∈ es.filterMap Event.request) : id ∈ (es ++ [e]).filterMap Event.request := by
  rw [List.filterMap_append]
  exact List.mem_append_left _ h

/-- A request that was made was drawn. -/
theorem Requested.mem {es : List Event} {x : Machine.Entry Process Event Reply} {id token : Bytes}
    {challenge : Challenge} (h : Requested x id token challenge) (hx : x ∈ entries K es) :
    id ∈ es.filterMap Event.request := by
  obtain ⟨env, authUrl, qr, hevent, hrequest, -, -, -⟩ := h
  refine List.mem_filterMap.mpr ⟨x.event, Machine.event_mem_of_mem_trace hx, ?_⟩
  rw [hevent, hrequest]
  rfl

/-- An event that issues nothing and makes no request. -/
theorem Ledger.of_fewer {es : List Event} {e : Event} (h : Ledger K es)
    (hfewer : Fewer ((nodes K).final .init es) ((nodes K).final .init (es ++ [e])))
    (hnone : ∀ id, issued id ((nodes K).entry ((nodes K).final .init es) e) = none) :
    Ledger K (es ++ [e]) where
  requested id login' hmem := by
    obtain ⟨login, hmem, hsame⟩ := hfewer.pending id login' hmem
    obtain ⟨x, hx, token, hrequested, hhash⟩ := h.requested id login hmem
    refine ⟨x, ?_, token, hsame.challenge ▸ hrequested, hsame.pollHash.trans hhash⟩
    rw [entries_append]
    exact List.mem_append_left _ hx
  completion id login' hmem := by
    obtain ⟨login, hmem, hsame⟩ := hfewer.pending id login' hmem
    rw [issues_of_none (hnone id), hsame.completion]
    exact h.completion id login hmem
  known id hid := by
    rw [issues_of_none (hnone id)] at hid
    exact request_append (h.known id hid)
  once id := by
    rw [issues_of_none (hnone id)]
    exact h.once id

/-! ### Turns -/

section

variable {es : List Event} {core core' : Core} {action : Action} {env : Env} {value : Json}

theorem accountToken_waitingJson : accountToken waitingJson = none := by decide +kernel

theorem accountToken_completionJson (token : Bytes) (account : Account) (expires : Nat) :
    accountToken (completionJson token account expires) = some token := by
  have hkeys : ∀ key ∈ [str "expires_at", str "fid", str "handle", str "service_url", str "status"],
      str "account_token" ≠ key := by decide +kernel
  simp only [List.mem_cons, List.not_mem_nil, or_false, forall_eq_or_imp, forall_eq] at hkeys
  obtain ⟨h₁, h₂, h₃, h₄, h₅⟩ := hkeys
  have hlast : (completionJson token account expires).last (str "account_token") =
      some (.string token) := by
    simp only [completionJson, Json.last, List.reverse_cons, List.reverse_nil, List.nil_append,
      List.cons_append]
    rw [lookup_cons_of_ne h₅, lookup_cons_of_ne h₄, lookup_cons_of_ne h₃, lookup_cons_of_ne h₂,
      lookup_cons_of_ne h₁, lookup_cons_self]
  rw [accountToken, hlast]

theorem isSome_completionJson (token : Bytes) (account : Account) (expires : Nat) :
    (accountToken (completionJson token account expires)).isSome = true := by
  rw [accountToken_completionJson]
  rfl

/-- A reply that a request had already is not issued. -/
theorem issued_of_routine (hroutine : ∀ id token,
      action = .poll id token → value = waitingJson ∨
        ∃ login, Presented env id token core login ∧ login.completion = some value) (id : Bytes) :
    issued id ⟨.running core, .action action env, .ok value, .running core'⟩ = none := by
  cases action with
  | poll id' token =>
      refine if_neg fun hissued => ?_
      obtain ⟨rfl, hnew, htoken⟩ := hissued
      rcases hroutine id' token rfl with rfl | ⟨login, hlogin, hcompletion⟩
      · rw [accountToken_waitingJson] at htoken
        cases htoken
      · rw [hlogin.found, Option.bind_some, hcompletion] at hnew
        cases hnew
  | _ => rfl

/-- A reply without a value is not issued. -/
theorem issued_of_other {p p' : Process} {e : Event} {reply : Reply}
    (h : ∀ value, reply ≠ .ok value)
    (id : Bytes) : issued id ⟨p, e, reply, p'⟩ = none := by
  unfold issued
  split
  · rename_i heq
    exact absurd heq (h _)
  · rfl

variable {e : Event}

/-- The state after one more event. -/
theorem final_append_one {core₁ : Process} {reply : Reply}
    (hstep : ((nodes K).final .init es).step K e = (core₁, reply)) :
    (nodes K).final .init (es ++ [e]) = core₁ ∧
      (nodes K).entry ((nodes K).final .init es) e =
        ⟨(nodes K).final .init es, e, reply, core₁⟩ := by
  have hentry : (nodes K).entry ((nodes K).final .init es) e =
      ⟨(nodes K).final .init es, e, (((nodes K).final .init es).step K e).2,
        (((nodes K).final .init es).step K e).1⟩ := rfl
  rw [hstep] at hentry
  refine ⟨?_, hentry⟩
  rw [Machine.final_append]
  exact congrArg Prod.fst hstep

/-- A Start makes a request of its own. -/
theorem Ledger.started (h : Ledger K es) (hfresh : Fresh (es ++ [.action .start env]))
    (hrun : (nodes K).final .init es = .running core) {s₁ : Core} (hroutine : Routine core s₁)
    (channel authUrl qr : Bytes)
    (hstep : ((nodes K).final .init es).step K (.action .start env) =
      (.running { s₁ with
        pending := insertKey s₁.pending (randomToken (env.random .request))
          ⟨hash (randomToken (env.random .poll)), challengeOf env, channel, none, 0, none⟩ },
      .ok (requestJson (randomToken (env.random .request)) (randomToken (env.random .poll)) authUrl qr
        (challengeOf env).expiresAt))) : Ledger K (es ++ [.action .start env]) := by
  obtain ⟨hfinal, hentry⟩ := final_append_one hstep
  have hissues : ∀ id, issues K (es ++ [.action .start env]) id = issues K es id :=
    fun id => issues_of_none (by rw [hentry, hrun]; rfl)
  -- the request was not drawn before
  have hunknown : issues K es (randomToken (env.random .request)) = [] := by
    by_contra hne
    have hnodup := hfresh.requests
    rw [List.filterMap_append] at hnodup
    exact List.disjoint_of_nodup_append hnodup (h.known _ hne) List.mem_cons_self
  have hold : ∀ id login', (id, login') ∈ s₁.pending → ∃ login,
      (id, login) ∈ ((nodes K).final .init es).pending ∧ login.Same login' := by
    rw [hrun]
    exact hroutine.pending
  constructor
  · intro id login' hmem
    rw [hfinal] at hmem
    rw [entries_append, hentry]
    rcases List.mem_cons.mp hmem with heq | hmem
    · obtain ⟨rfl, rfl⟩ := Prod.mk.inj heq
      refine ⟨_, List.mem_append_right _ List.mem_cons_self, _, ?_, rfl⟩
      exact .intro env authUrl qr rfl rfl rfl rfl rfl
    · obtain ⟨login, hmem, hsame⟩ := hold id login' (List.mem_filter.mp hmem).1
      obtain ⟨x, hx, token, hrequested, hhash⟩ := h.requested id login hmem
      exact ⟨x, List.mem_append_left _ hx, token, hsame.challenge ▸ hrequested,
        hsame.pollHash.trans hhash⟩
  · intro id login' hmem
    rw [hfinal] at hmem
    rw [hissues]
    rcases List.mem_cons.mp hmem with heq | hmem
    · obtain ⟨rfl, rfl⟩ := Prod.mk.inj heq
      exact hunknown
    · obtain ⟨login, hmem, hsame⟩ := hold id login' (List.mem_filter.mp hmem).1
      rw [hsame.completion]
      exact h.completion id login hmem
  · intro id hid
    rw [hissues] at hid
    exact request_append (h.known id hid)
  · intro id
    rw [hissues]
    exact h.once id

/-- What is issued when a request is completed. -/
theorem issued_of_completed {id token : Bytes} {login : Login} (p' : Process)
    (hlogin : Presented env id token core login) (hwaiting : login.completion = none)
    (htoken : (accountToken value).isSome = true) (id' : Bytes) :
    issued id' ⟨.running core, .action (.poll id token) env, .ok value, p'⟩ =
      if id' = id then some value else none := by
  by_cases hid : id' = id
  · subst hid
    have hnew : ((core.found env id').bind Login.completion).isNone = true := by
      rw [hlogin.found, Option.bind_some, hwaiting]
      rfl
    rw [if_pos rfl]
    exact if_pos ⟨rfl, hnew, htoken⟩
  · rw [if_neg hid]
    exact if_neg fun hissued => hid hissued.1.symm

/-- A request that is completed was not, and gets what is issued. -/
theorem Ledger.completed (h : Ledger K es) (hrun : (nodes K).final .init es = .running core)
    {s₁ s₂ : Core} (hroutine : Routine core s₁) {id token : Bytes} {login : Login}
    (hlogin : Presented env id token core login) (hwaiting : login.completion = none)
    (htoken : (accountToken value).isSome = true)
    (hpending : ∀ id' login', (id', login') ∈ s₂.pending → ∃ old, (id', old) ∈ s₁.pending ∧
      login'.pollHash = old.pollHash ∧ login'.challenge = old.challenge ∧
      login'.completion = if id' = id then some value else old.completion)
    (hstep : ((nodes K).final .init es).step K (.action (.poll id token) env) =
      (.running s₂, .ok value)) :
    Ledger K (es ++ [.action (.poll id token) env]) := by
  obtain ⟨hfinal, hentry⟩ := final_append_one hstep
  have hissues : ∀ id', issues K (es ++ [.action (.poll id token) env]) id' =
      issues K es id' ++ if id' = id then [value] else [] := by
    intro id'
    rw [issues_append, hentry, hrun,
      issued_of_completed (.running s₂) hlogin hwaiting htoken id']
    split_ifs <;> rfl
  have hnone : issues K es id = [] := by
    rw [h.completion id login (hrun ▸ hlogin.mem), hwaiting]
    rfl
  -- every entry after the step is one before it, with its completion where it is the polled one
  have hold : ∀ id' login', (id', login') ∈ s₂.pending → ∃ old,
      (id', old) ∈ ((nodes K).final .init es).pending ∧ login'.pollHash = old.pollHash ∧
      login'.challenge = old.challenge ∧
      login'.completion = if id' = id then some value else old.completion := by
    intro id' login' hmem
    obtain ⟨old, hbefore, hpoll, hchallenge, hcompletion⟩ := hpending id' login' hmem
    obtain ⟨older, hfirst, hsame⟩ := hroutine.pending id' old hbefore
    rw [hsame.completion] at hcompletion
    exact ⟨older, hrun ▸ hfirst, hpoll.trans hsame.pollHash, hchallenge.trans hsame.challenge,
      hcompletion⟩
  constructor
  · intro id' login' hmem
    rw [hfinal] at hmem
    obtain ⟨old, hmem, hpoll, hchallenge, -⟩ := hold id' login' hmem
    obtain ⟨x, hx, pollToken, hrequested, hhash⟩ := h.requested id' old hmem
    refine ⟨x, ?_, pollToken, hchallenge ▸ hrequested, hpoll.trans hhash⟩
    rw [entries_append]
    exact List.mem_append_left _ hx
  · intro id' login' hmem
    rw [hfinal] at hmem
    obtain ⟨old, hmem, -, -, hcompletion⟩ := hold id' login' hmem
    rw [hissues, hcompletion]
    by_cases hid : id' = id
    · rw [if_pos hid, if_pos hid, hid, hnone]
      rfl
    · rw [if_neg hid, if_neg hid, List.append_nil]
      exact h.completion id' old hmem
  · intro id' hid'
    by_cases hid : id' = id
    · obtain ⟨x, hx, pollToken, hrequested, -⟩ := h.requested id login (hrun ▸ hlogin.mem)
      exact request_append (hid ▸ hrequested.mem hx)
    · rw [hissues, if_neg hid, List.append_nil] at hid'
      exact request_append (h.known id' hid')
  · intro id'
    rw [hissues]
    by_cases hid : id' = id
    · rw [if_pos hid, hid, hnone]
      exact le_refl 1
    · rw [if_neg hid, List.append_nil]
      exact h.once id'

end

/-- One event keeps the ledger. -/
theorem Ledger.step {es : List Event} {e : Event} (h : Ledger K es) (hfresh : Fresh (es ++ [e])) :
    Ledger K (es ++ [e]) := by
  have hhappened := happened (K := K) ((nodes K).final .init es) e
  match hstep : ((nodes K).final .init es).step K e with
  | (p', reply) =>
      rw [hstep] at hhappened
      obtain ⟨hfinal, hentry⟩ := final_append_one hstep
      cases hhappened with
      | fewer fewer other =>
          refine h.of_fewer (hfinal ▸ fewer) fun id => ?_
          rw [hentry]
          exact issued_of_other other id
      | turn running turn =>
          cases turn with
          | routine change answer =>
              refine h.of_fewer (by rw [hfinal, running]; exact change.fewer) fun id => ?_
              rw [hentry, running]
              exact issued_of_routine answer id
          | started change channel authUrl qr =>
              exact h.started hfresh running change channel authUrl qr hstep
          | completed change account consent newer stored =>
              refine h.completed running change consent.toPresented consent.waiting
                (isSome_completionJson _ _ _) (fun id' login' hmem => ?_) hstep
              dsimp only at hmem
              obtain ⟨old, hold, rfl⟩ := mem_modifyKey hmem
              refine ⟨old, hold, ?_⟩
              split_ifs
              · exact ⟨rfl, rfl, rfl⟩
              · exact ⟨rfl, rfl, rfl⟩

/-- The ledger at the end of a run. -/
theorem ledger {es : List Event} (hfresh : Fresh es) : Ledger K es := by
  induction es using List.reverseRecOn with
  | nil => exact ledger_nil
  | append_singleton es e ih => exact (ih hfresh.of_append).step hfresh

/-- Only a Poll that completes a request issues something. -/
theorem completed_of_issued {p : Process} {e : Event} {id : Bytes}
    (h : (issued id ((nodes K).entry p e)).isSome = true) :
    ∃ core core' env token login proof verified, p = .running core ∧
    e = .action (.poll id token) env ∧
      ((nodes K).step p e).1 = .running core' ∧ Consented K env id token core login proof verified ∧
      Supersedes K verified core.db ∧ core'.checkedAt = some (env.now .checked : Nat) ∧
      core'.db.evidence = some (encodeEvidence K ⟨verified, proof⟩) := by
  have hhappened := happened (K := K) p e
  have hentry : (nodes K).entry p e = ⟨p, e, (p.step K e).2, (p.step K e).1⟩ := rfl
  have hstep : ((nodes K).step p e).1 = (p.step K e).1 := rfl
  rw [hentry] at h
  rw [hstep]
  generalize p.step K e = result at hhappened h
  cases hhappened with
  | fewer fewer other =>
      rw [issued_of_other other] at h
      cases h
  | turn running turn =>
      subst running
      cases turn with
      | routine change answer =>
          rw [issued_of_routine answer] at h
          cases h
      | started change channel authUrl qr => cases h
      | @completed s₁ change id' token login proof verified account consent newer stored =>
          rw [issued_of_completed _ consent.toPresented consent.waiting
            (isSome_completionJson _ _ _)] at h
          obtain rfl : id = id' := by
            by_contra hne
            rw [if_neg hne] at h
            cases h
          exact ⟨_, _, _, token, login, proof, verified, rfl, rfl, rfl, consent, newer, rfl, stored⟩

/-! ## The whole run -/

/-- A token with the hash of a poll token of the run is that one. -/
theorem Fresh.token_eq {es : List Event} {e : Event} {x : Machine.Entry Process Event Reply}
    {id token token' : Bytes} {challenge : Challenge} (hfresh : Fresh (es ++ [e]))
    (hx : x ∈ entries K es) (hrequested : Requested x id token challenge)
    (hpresented : e.presented = some token') (hhash : hash token' = hash token) :
    token' = token := by
  obtain ⟨env, authUrl, qr, hevent, -, hpoll, -, -⟩ := hrequested
  apply hfresh.tokens token _ token' _ hhash
  · refine List.mem_filterMap.mpr
      ⟨x.event, List.mem_append_left _ (Machine.event_mem_of_mem_trace hx), ?_⟩
    rw [hevent, hpoll]
    rfl
  · exact List.mem_filterMap.mpr ⟨e, List.mem_append_right _ List.mem_cons_self, hpresented⟩

theorem nonce_of_parse {C : Farcaster.Crates} {proof : SignedProof} {challenge : Challenge}
    {domain uri : Bytes} {now : Nat} {parsed : ParsedProof}
    (h : parse C proof challenge domain uri now = .ok parsed) :
    parsed.message.nonce = challenge.nonce := by
  simp only [parse, bind_eq_ok, ensure_eq_ok, pure_eq_ok] at h
  obtain ⟨_, -, _, -, p, -, _, hnonce, _, -, _, -, _, -, _, -, _, -, rfl⟩ := h
  exact hnonce

theorem fid_of_verifyAuthority {C : Farcaster.Crates} {client : AuthClient} {net : Net}
    {parsed : ParsedProof} {now : Nat} {previous : Option VerifiedIdentity}
    {identity : VerifiedIdentity}
    (h : verifyAuthority C client net parsed now previous = .ok identity) :
    identity.fid = parsed.fid := by
  simp only [verifyAuthority, bind_eq_ok, pure_eq_ok] at h
  obtain ⟨_, -, _, -, _, -, _, -, rfl⟩ := h
  rfl

/-- What an event does after a run: it grants nothing, or it completes a request with a consent. -/
theorem consent_of_step {es : List Event} {e : Event} (hfresh : Fresh (es ++ [e])) :
    let x := (nodes K).entry ((nodes K).final .init es) e
    x.after.grants.Sublist x.before.grants ∨
      ∃ id value, issued id x = some value ∧ Consent K (entries K es) x id value := by
  intro x
  have h : Ledger K es := ledger hfresh.of_append
  have hhappened := happened (K := K) ((nodes K).final .init es) e
  match hstep : ((nodes K).final .init es).step K e with
  | (p', reply) =>
      rw [hstep] at hhappened
      obtain ⟨-, hentry⟩ := final_append_one hstep
      have hx : x = ⟨(nodes K).final .init es, e, reply, p'⟩ := hentry
      clear_value x
      subst hx
      cases hhappened with
      | fewer fewer other => exact .inl fewer.grants
      | @turn core _ _ env _ running turn =>
          cases turn with
          | routine change answer => exact .inl (by rw [running]; exact change.grants)
          | started change channel authUrl qr => exact .inl (by rw [running]; exact change.grants)
          | @completed s₁ change id token login proof verified account consent newer stored =>
              refine .inr ⟨id, completionJson (randomToken (env.random .account)) account
                (env.now .entry + grantTtl), ?_, ?_⟩
              · rw [running, issued_of_completed _ consent.toPresented consent.waiting
                  (isSome_completionJson _ _ _) id, if_pos rfl]
              · obtain ⟨client, net, hclient, hnet, hverify⟩ := consent.accepted
                obtain ⟨parsed, hparse, hauthority⟩ := bind_eq_ok.mp hverify
                obtain ⟨y, hy, pollToken, hrequested, hhash⟩ :=
                  h.requested id login (running ▸ consent.mem)
                obtain rfl : token = pollToken :=
                  hfresh.token_eq hy hrequested rfl (consent.token.trans hhash)
                exact .intro core _ token _ login.challenge client net proof verified parsed s₁.grants
                  running rfl rfl ⟨y, hy, hrequested⟩ hclient hnet hverify hparse
                  (nonce_of_parse hparse) (fid_of_verifyAuthority hauthority).symm consent.allowed
                  consent.alive consent.unexpired change.grants (accountToken_completionJson _ _ _) rfl

/-- An event of a run comes after a part of the run, which is fresh too. -/
theorem exists_of_entries {es : List Event} (hfresh : Fresh es)
    {earlier later : List (Machine.Entry Process Event Reply)}
    {x : Machine.Entry Process Event Reply}
    (h : entries K es = earlier ++ x :: later) : ∃ es₁ e, earlier = entries K es₁ ∧
      x = (nodes K).entry ((nodes K).final .init es₁) e ∧ Fresh (es₁ ++ [e]) := by
  obtain ⟨es₁, e, es₂, rfl, hearlier, hx, -⟩ := Machine.exists_of_trace_eq_cons h
  rw [List.append_cons] at hfresh
  exact ⟨es₁, e, hearlier, hx, hfresh.of_append⟩

/-- A Poll is answered with an account token. -/
structure Answered (x : Machine.Entry Process Event Reply) (id token : Bytes) (env : Env)
    (value : Json) : Prop where
  event : x.event = .action (.poll id token) env
  reply : x.reply = .ok value
  token : (accountToken value).isSome = true

/-- A Poll that is answered with an account token presents the poll token of its request in time,
and gets what was issued before or is issued now. -/
theorem issued_of_answered {es : List Event} {e : Event} (hfresh : Fresh (es ++ [e]))
    {id token : Bytes}
    {env : Env} {value : Json}
    (hanswered : Answered ((nodes K).entry ((nodes K).final .init es) e) id token env value) :
    value ∈ issues K (es ++ [e]) id ∧ ∃ y ∈ entries K es, ∃ challenge,
      Requested y id token challenge ∧ env.now .entry < challenge.expiresAt := by
  have h : Ledger K es := ledger hfresh.of_append
  have hhappened := happened (K := K) ((nodes K).final .init es) e
  obtain ⟨hevent, hreply, htoken⟩ := hanswered
  obtain rfl : e = .action (.poll id token) env := hevent
  -- the request that is polled was made with this poll token
  have hrequest : ∀ core login, (nodes K).final .init es = .running core →
      Presented env id token core login → ∃ y ∈ entries K es, ∃ challenge,
        Requested y id token challenge ∧ env.now .entry < challenge.expiresAt := by
    intro core login hrun hlogin
    obtain ⟨y, hy, pollToken, hrequested, hhash⟩ := h.requested id login (hrun ▸ hlogin.mem)
    obtain rfl : token = pollToken := hfresh.token_eq hy hrequested rfl (hlogin.token.trans hhash)
    exact ⟨y, hy, login.challenge, hrequested, hlogin.alive⟩
  match hstep : ((nodes K).final .init es).step K (.action (.poll id token) env) with
  | (p', reply) =>
      rw [hstep] at hhappened
      obtain ⟨-, hentry⟩ := final_append_one hstep
      rw [hentry] at hreply
      obtain rfl : reply = .ok value := hreply
      rw [issues_append, hentry]
      cases hhappened with
      | fewer fewer other => exact absurd rfl (other value)
      | @turn core _ _ _ _ running turn =>
          cases turn with
          | routine change answer =>
              rcases answer id token rfl with rfl | ⟨login, hlogin, hcompletion⟩
              · rw [accountToken_waitingJson] at htoken
                cases htoken
              · refine ⟨List.mem_append_left _ ?_, hrequest core login running hlogin⟩
                rw [h.completion id login (running ▸ hlogin.mem), hcompletion]
                exact List.mem_singleton_self value
          | completed change account consent newer stored =>
              refine ⟨List.mem_append_right _ ?_, hrequest core _ running consent.toPresented⟩
              rw [running, issued_of_completed _ consent.toPresented consent.waiting htoken id,
                if_pos rfl]
              exact List.mem_singleton_self _

/-- **One consent, one grant.** In every run whose requests are fresh and whose poll tokens share no
hash with another token that is presented: whatever is granted is granted by a Poll that completes a
request, with a consent; a request is completed at most once; every Poll of it that is answered with
an account token is answered with the one that was issued for it, and presents its poll token before
its challenge expires. -/
theorem one_consent {K : Crates} {es : List Event} (hfresh : Fresh es) :
    (∀ earlier x later, entries K es = earlier ++ x :: later →
      x.after.grants.Sublist x.before.grants ∨
        ∃ id value, issued id x = some value ∧ Consent K earlier x id value) ∧
    (∀ id, (issues K es id).length ≤ 1) ∧
    (∀ earlier x later id token env value, entries K es = earlier ++ x :: later →
      Answered x id token env value → value ∈ issues K es id ∧ ∃ y ∈ earlier, ∃ challenge,
        Requested y id token challenge ∧ env.now .entry < challenge.expiresAt) ∧
    (∀ x ∈ entries K es, ∀ y ∈ entries K es, ∀ id token token' env env' value value',
      Answered x id token env value → Answered y id token' env' value' → value = value') := by
  have honce : ∀ id, (issues K es id).length ≤ 1 := (ledger hfresh).once
  have hanswer : ∀ earlier x later id token env value, entries K es = earlier ++ x :: later →
      Answered x id token env value → value ∈ issues K es id ∧ ∃ y ∈ earlier, ∃ challenge,
        Requested y id token challenge ∧ env.now .entry < challenge.expiresAt := by
    intro earlier x later id token env value heq hanswered
    obtain ⟨es₁, e, es₂, hes, hearlier, hx, -⟩ := Machine.exists_of_trace_eq_cons heq
    subst hearlier hx
    rw [List.append_cons] at hes
    obtain ⟨hmem, hrequest⟩ := issued_of_answered (hes ▸ hfresh).of_append hanswered
    refine ⟨?_, hrequest⟩
    rw [hes, issues, entries, Machine.trace_append, List.filterMap_append]
    exact List.mem_append_left _ hmem
  refine ⟨fun earlier x later heq => ?_, honce, hanswer, ?_⟩
  · obtain ⟨es₁, e, rfl, rfl, hfresh₁⟩ := exists_of_entries hfresh heq
    exact consent_of_step hfresh₁
  · intro x hx y hy id token token' env env' value value' hanswered hanswered'
    obtain ⟨earlier, later, heq⟩ := List.mem_iff_append.mp hx
    obtain ⟨earlier', later', heq'⟩ := List.mem_iff_append.mp hy
    obtain ⟨hmem, -⟩ := hanswer _ _ _ _ _ _ _ heq hanswered
    obtain ⟨hmem', -⟩ := hanswer _ _ _ _ _ _ _ heq' hanswered'
    match hissues : issues K es id, honce id with
    | [], _ =>
        rw [hissues] at hmem
        cases hmem
    | [issue], _ =>
        rw [hissues] at hmem hmem'
        exact (List.mem_singleton.mp hmem).trans (List.mem_singleton.mp hmem').symm

/-- The request of a sign-in is made, and then polled. -/
def sampleWaiting : List Event := sampleSignIn.take 2

def samplePoll : Event :=
  .action (.poll (sampleId 3) (sampleId 4))
    (sampleEnv 1700000000 2 (sampleProvider "0x100" "0x6553f100" 6))

def sampleEntry : Machine.Entry Process Event Reply :=
  (nodes sampleNode).entry ((nodes sampleNode).final .init sampleWaiting) samplePoll

theorem sampleEntry_grants : sampleEntry.before.grants = [] ∧ sampleEntry.after.grants ≠ [] := by
  decide +kernel

/-- The grant of the sample is of a consent. -/
theorem one_consent_sample : ∃ id value, issued id sampleEntry = some value ∧
    Consent sampleNode (entries sampleNode sampleWaiting) sampleEntry id value := by
  have hfresh : Fresh (sampleWaiting ++ [samplePoll]) := ⟨by decide +kernel, by decide +kernel⟩
  obtain ⟨hconsent, -⟩ := one_consent (K := sampleNode) hfresh
  obtain ⟨hnone, hsome⟩ := sampleEntry_grants
  have hentries : entries sampleNode (sampleWaiting ++ [samplePoll]) =
      entries sampleNode sampleWaiting ++ sampleEntry :: [] :=
        entries_append sampleWaiting samplePoll
  rcases hconsent _ sampleEntry [] hentries with hfewer | h
  · rw [hnone] at hfewer
    exact absurd (List.sublist_nil.mp hfewer) hsome
  · exact h

end PurpleSky.Node
