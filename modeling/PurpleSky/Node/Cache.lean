import PurpleSky.Node.Consent
import PurpleSky.Node.Gating

/-!
# The age of a remembered check

A check of an authority is remembered with a time, and used for thirty seconds. A recheck remembers
the time that it verifies the authority at; a Poll that completes a request reads the clock again
after it verified. So a remembered check is as old as it seems when these two readings of every such
Poll agree (`Punctual`), and with a Poll that took time it is not.

* `Action.before`: what an action does before it checks the authority.
* **`current_iff_punctual`**: when the checks of a run are as old as they seem.
-/

namespace PurpleSky.Node

open Bytes Credentials Farcaster PurpleSky.Procedure

variable {K : Crates} {env : Env}

/-! ## Checks of an authority -/

/-- What an action does, after what has expired was forgotten, before it checks the authority. -/
def Action.prepare (K : Crates) (env : Env) : Action → Act (Option SessionInfo)
  | .passwords token | .issue token _ => do
      grant token (env.now .grant)
      pure none
  | .login identifier password => do
      let core ← read
      let (room, times) := limit core.passwordTimes (env.now .entry) 60 20
      change fun core => { core with passwordTimes := times }
      check (room = true) .busy
      query (env.io .validatePassword) fun io _ db =>
        Store.validatePassword K.credentials io db identifier password
      pure none
  | .session token | .preferences token => do
      let session ← readSession K env token
      pure (some session)
  | .refresh token => do
      let _ ← query (env.io .validateRefresh) fun io key db =>
        Store.validateRefresh K.credentials io
        key db token (env.now (.access .validateRefresh))
      pure none
  | _ => fail .internal

/-- What an action does before it checks the authority. -/
def Action.before (K : Crates) (env : Env) (action : Action) : Act (Option SessionInfo) := do
  let core ← read
  check (core.settings.enabled = true) .disabled
  expire (env.now .entry)
  action.prepare K env

/-- What an action does after it checked the authority, with the session it read before. -/
def Action.finish (K : Crates) (env : Env) (session : Option SessionInfo) : Action → Act Json
  | .passwords token => do
      grant token (env.now .regrant)
      let passwords ← query (env.io .listPasswords) fun io _ db => Store.listPasswords io db
      pure (.object [(str "passwords", .array (passwords.map passwordJson))])
  | .issue token name => do
      grant token (env.now .regrant)
      let issued ← call (env.io .issuePassword) fun io _ db =>
        Store.issuePassword K.credentials io db
        name (env.now (.access .issuePassword)) (env.random .password) (env.random .salt)
      let account ← query (env.io .reload) fun io _ db => Store.account K.credentials io db
      let account ← attempt (okOr account (.ofError .notBound))
      pure (issuedJson issued account)
  | .login identifier password => do
      let session ← call (env.io .authenticate) fun io key db =>
        Store.authenticate K.credentials io key
        db identifier password (env.now (.access .authenticate)) (randomToken (env.random .sid))
        (randomToken (env.random .jti)) (randomToken (env.random .accessJti))
      pure (sessionJson session)
  | .refresh token => do
      let session ← call (env.io .refreshSession) fun io key db =>
        Store.refreshSession K.credentials io
        key db token (env.now (.access .refreshSession)) (randomToken (env.random .jti))
        (randomToken (env.random .accessJti))
      pure (sessionJson session)
  | .session _ => do
      let session ← attempt (okOr session .internal)
      pure (sessionInfoJson session)
  | .preferences _ => pure (.object [(str "preferences", .array [])])
  | _ => fail .internal

/-- An action that needs an authority checks it after what it does before, and then goes on. -/
theorem execute_gated {action : Action} (h : action.gated = true) : execute K env action =
    action.before K env >>= fun session => authority K env >>= fun _ =>
    action.finish K env session := by
  unfold execute Action.before
  cases action with
  | passwords token =>
      simp only [Action.run, passwords, granted, Action.prepare, Action.finish,
        bind_assoc, pure_bind]
  | issue token name =>
      simp only [Action.run, issue, granted, Action.prepare, Action.finish, bind_assoc, pure_bind]
  | login identifier password =>
      simp only [Action.run, login, Action.prepare, Action.finish, bind_assoc, pure_bind]
  | session token =>
      simp only [Action.run, session, Action.prepare, Action.finish, bind_assoc, pure_bind]
      rfl
  | refresh token =>
      simp only [Action.run, refresh, Action.prepare, Action.finish, bind_assoc, pure_bind]
  | preferences token =>
      simp only [Action.run, preferences, Action.prepare, Action.finish, bind_assoc, pure_bind]
  | _ => cases h

/-- A password that is valid is there. -/
theorem passwords_of_validatePassword {C : Credentials.Crates} {io : Faults} {db : Db}
    {identifier password : Bytes}
    (h : Store.validatePassword C io db identifier password = .ok ()) :
    db.passwords.rows ≠ [] := by
  intro hnone
  simp only [Store.validatePassword, Store.verifyPassword, hnone, List.take_nil,
    Store.matchPassword, bind_eq_ok, pure_eq_ok, okOr_eq_ok] at h
  obtain ⟨_, ⟨_, -, _, -, _, -, found, hfound, _, -, name, hname, -⟩, -⟩ := h
  obtain rfl := Except.ok.inj hfound
  cases hname

/-- What comes before the check leaves a grant or a password to use, and is routine. -/
theorem before_acts {core : Core} {action : Action} : Acts K (action.before K env)
    (fun _ s => s.grants ≠ [] ∨ s.db.passwords.rows ≠ []) core := by
  unfold Action.before expire
  refine acts_read (acts_check fun _ => ?_)
  refine acts_change (.of_memory rfl rfl rfl rfl ?_ (.inl rfl)) ?_
  · exact fun _ h => (List.mem_filter.mp h).1
  cases action with
  | passwords token =>
      refine grant_acts.bind fun _ s hs => acts_pure (.inl ?_)
      exact hs.1 ▸ hs.2
  | issue token name =>
      refine grant_acts.bind fun _ s hs => acts_pure (.inl ?_)
      exact hs.1 ▸ hs.2
  | login identifier password =>
      refine acts_read ?_
      refine acts_change (.of_memory rfl rfl rfl rfl (List.Subset.refl _) (.inl rfl)) ?_
      refine acts_check fun _ => acts_query fun _ _ hvalid => acts_pure (.inr ?_)
      exact passwords_of_validatePassword hvalid
  | session token => exact readSession_acts.bind fun _ s hs => acts_pure (.inr (hs.1 ▸ hs.2))
  | preferences token => exact readSession_acts.bind fun _ s hs => acts_pure (.inr (hs.1 ▸ hs.2))
  | refresh token =>
      refine acts_query fun _ _ hrefresh => acts_pure (.inr ?_)
      simp only [Store.validateRefresh, bind_eq_ok] at hrefresh
      obtain ⟨⟨a, claims⟩, -, _, hsession, -⟩ := hrefresh
      exact passwords_of_validateSession hsession
  | _ => exact acts_fail

theorem along_before {action : Action} : Along Routine (action.before K env) := by
  unfold Action.before expire
  apply along_read.bind
  intro core
  apply along_check.bind
  intro _
  refine Along.bind (along_change fun _ => routine_expire) fun _ => ?_
  cases action with
  | passwords token => exact along_grant.bind fun _ => along_pure
  | issue token name => exact along_grant.bind fun _ => along_pure
  | login identifier password =>
      apply along_read.bind
      intro core
      refine Along.bind (along_change fun _ => .of_frame rfl rfl rfl rfl) fun _ => ?_
      apply along_check.bind
      intro _
      exact along_query.bind fun _ => along_pure
  | session token => exact along_query.bind fun _ => along_pure
  | preferences token => exact along_query.bind fun _ => along_pure
  | refresh token => exact along_query.bind fun _ => along_pure
  | _ => exact along_fail

/-! ## Remembered checks and evidence -/

/-- A remembered check has the time of the stored evidence. -/
def Aligned (K : Crates) (s : Core) : Prop :=
  ∀ time raw e, s.checkedAt = some time → s.db.evidence = some raw → readEvidence K raw = some e →
    e.identity.checkedAt = time

/-- Everything in a history is punctual. -/
def AllPunctual (history : List Deed) : Prop := ∀ deed ∈ history, deed.Punctual

theorem Aligned.of_frame {s s' : Core} (h : Aligned K s)
    (hchecked : s'.checkedAt = s.checkedAt ∨ s'.checkedAt = none)
    (hevidence : s'.db.evidence = s.db.evidence) : Aligned K s' := by
  intro time raw e htime hraw hread
  rcases hchecked with hchecked | hchecked
  · exact h time raw e (hchecked.symm.trans htime) (hevidence.symm.trans hraw) hread
  · rw [hchecked] at htime
    cases htime

/-- Evidence that was just stored with the time of its check. -/
theorem aligned_of_stored (hK : K.json.Lawful) {s : Core} {identity : VerifiedIdentity}
    {proof : SignedProof} {time : Nat} (hrange : identity.InRange)
    (hchecked : s.checkedAt = some time)
    (hevidence : s.db.evidence = some (encodeEvidence K ⟨identity, proof⟩))
    (h : identity.checkedAt = time) : Aligned K s := by
  have hstored := readEvidence_encodeEvidence hK (e := ⟨identity, proof⟩) hrange
  intro time' raw e htime hraw hread
  obtain rfl := Option.some.inj (hchecked.symm.trans htime)
  obtain rfl := Option.some.inj (hevidence.symm.trans hraw)
  obtain rfl := Option.some.inj (hstored.symm.trans hread)
  exact h

/-- While everything in the history is punctual, moves keep a check aligned with its evidence. -/
theorem aligned_move (hK : K.json.Lawful) {s s' : Core} (hmove : Move K s s')
    (h : AllPunctual s.history → Aligned K s) (hpunctual : AllPunctual s'.history) :
    Aligned K s' := by
  cases hmove with
  | memory pending grants startTimes passwordTimes checkedAt fewer checked =>
      exact (h hpunctual).of_frame checked rfl
  | invalidating =>
      exact (h fun deed hdeed => hpunctual deed (List.mem_cons_of_mem _ hdeed)).of_frame (.inl rfl) rfl
  | invalidated io db call =>
      intro time raw e htime hraw hread
      have hraw : db.evidence = some raw := hraw
      rw [(Store.invalidateAuthority_eq_ok call).2.2.1] at hraw
      cases hraw
  | bound io fid authority identity now random a db call =>
      obtain ⟨⟨key, rfl⟩, -⟩ := Store.bindVerified_eq_ok call
      exact (h hpunctual).of_frame (.inl rfl) rfl
  | rechecked io client net e raw identity now db evidence read returned call =>
      obtain ⟨-, -, -, rfl⟩ := Store.setEvidence_eq_ok call
      obtain ⟨-, -, hrange⟩ := same_of_recheckIdentity returned
      exact aligned_of_stored hK hrange rfl rfl (checkedAt_of_recheckIdentity returned)
  | completed io client net challenge verified proof now checked a repoKey pending grants db returned
      account createdAt enabled fid authority newer call =>
      obtain ⟨-, -, -, rfl⟩ := Store.setEvidence_eq_ok call
      have hdeed : (Deed.verified verified checked).Punctual := hpunctual _ List.mem_cons_self
      exact aligned_of_stored hK (inRange_of_verify returned) rfl rfl hdeed.symm
  | credentials db account evidence passwords => exact (h hpunctual).of_frame (.inl rfl) evidence

theorem kept_aligned (hK : K.json.Lawful) :
    Kept K (fun _ _ => True) fun core => AllPunctual core.history → Aligned K core where
  init := trivial
  key _ _ := trivial
  opened _ _ _ _ time raw e htime _ _ := by cases htime
  move hmove h := aligned_move hK hmove h
  configured {core} settings h := by
    unfold Core.apply
    split_ifs
    · exact h
    · intro _ time raw e htime
      cases htime
  stopped _ := trivial

/-- Evidence was verified at its time, by a provider that was asked then. -/
def VerifiedThen (K : Crates) (e : Evidence) : Prop :=
  ∃ client net, (∃ challenge, verify K.toCrates client net e.proof challenge e.identity.checkedAt =
      .ok e.identity) ∨
    ∃ previous, recheckIdentity K.toCrates client net previous e.proof e.identity.checkedAt =
      .ok e.identity

theorem verifiedThen_of_returned {e : Evidence} (h : Returned K.toCrates e.proof e.identity) :
    VerifiedThen K e := by
  obtain ⟨identity, proof⟩ := e
  cases h with
  | @verify client net challenge now _ returned =>
      exact ⟨client, net, .inl ⟨challenge, (checkedAt_of_verify returned).symm ▸ returned⟩⟩
  | @recheckIdentity client net previous _ now returned =>
      exact ⟨client, net, .inr ⟨previous, (checkedAt_of_recheckIdentity returned).symm ▸ returned⟩⟩

/-- The stored evidence was verified less than thirty seconds before the check of an action. -/
def Young (K : Crates) (env : Env) (s : Core) : Prop :=
  ∃ raw e, s.db.evidence = some raw ∧ readEvidence K raw = some e ∧ VerifiedThen K e ∧
    e.identity.checkedAt ≤ env.now .authority ∧
    env.now .authority - e.identity.checkedAt < authorityCache

/-- A remembered check has the time of the evidence, and a check of the authority by any action that
returns leaves young evidence. -/
structure Current (K : Crates) (core : Core) : Prop where
  aligned : Aligned K core
  young : ∀ (action : Action) env session s s', action.gated = true →
    action.before K env core = (.ok session, s) → authority K env s = (.ok (), s') → Young K env s'

theorem moves_of_acts {α : Type} {x : Act α} {Q : α → Core → Prop} {s s' : Core} {a : α}
    (h : Acts K x Q s) (hx : x s = (.ok a, s')) : Moves K s s' ∧ Q a s' := wp.of_ok h hx

theorem routine_of_along {α : Type} {x : Act α} {s s' : Core} {a : α} (h : Along Routine x)
    (hx : x s = (.ok a, s')) : Routine s s' := wp.of_ok (h s) hx

/-- A core whose history is punctual is current. -/
theorem current_of_punctual (hK : K.json.Lawful) {es : List Event} {core : Core}
    (hrun : (nodes K).final .init es = .running core) (hpunctual : AllPunctual core.history) :
    Current K core := by
  have haligned := (kept_aligned hK).final es
  have hguarded := (kept_guarded hK).final es
  rw [hrun] at haligned hguarded
  refine ⟨haligned hpunctual, fun action env session s s' hgated hbefore hauthority => ?_⟩
  obtain ⟨hmoves, hused⟩ := moves_of_acts before_acts hbefore
  obtain ⟨hmoves', hchecked⟩ := moves_of_acts authority_checked hauthority
  have hroutine :=
    (routine_of_along along_before hbefore).trans (routine_of_along along_authority hauthority)
  have hpunctual' : AllPunctual s'.history := by
    obtain ⟨newer, hnewer, hdeeds⟩ := hroutine.history
    rw [hnewer]
    intro deed hdeed
    rcases List.mem_append.mp hdeed with hdeed | hdeed
    · exact hdeeds deed hdeed
    · exact hpunctual deed hdeed
  have haligned' : Aligned K s' :=
    (kept_aligned hK).moves (hmoves.trans hmoves') haligned hpunctual'
  have hguarded' : Guarded K s' := (kept_guarded hK).moves (hmoves.trans hmoves') hguarded
  have hfresh := hchecked.fresh
  have hsome : s'.checkedAt ≠ none := by
    intro hnone
    rw [Core.isFresh, hnone] at hfresh
    cases hfresh
  rcases hguarded'.live hsome with hlive | ⟨hgrants, hpasswords⟩
  · obtain ⟨time, raw, e, identity, newer, older, htime, hraw, hread, -⟩ := hlive
    obtain ⟨e', a, repoKey, he⟩ := hguarded'.sound.evident raw hraw
    obtain rfl : e' = e := Option.some.inj ((he.read hK).symm.trans hread)
    rw [Core.isFresh, htime, Option.any_some] at hfresh
    simp only [Bool.and_eq_true, decide_eq_true_eq] at hfresh
    rw [← haligned' time raw e' htime hraw hread] at hfresh
    exact ⟨raw, e', hraw, hread, verifiedThen_of_returned he.returned, hfresh⟩
  · -- nothing is left to use, but the action used something
    rw [← hchecked.grants, ← hchecked.passwords] at hused
    rcases hused with hused | hused
    · exact absurd hgrants hused
    · exact absurd hpasswords hused

/-! ## Runs -/

/-- A Poll that completes a request reads the same second on the clock before and after it verifies.
-/
def Punctual (x : Machine.Entry Process Event Reply) : Prop :=
  ∀ id token env, x.event = .action (.poll id token) env → (issued id x).isSome = true →
    env.now .checked = env.now .verify

/-- What a punctual event adds to the history is punctual. -/
theorem history_of_punctual {p : Process} {e : Event} (h : Punctual ((nodes K).entry p e)) :
    ∃ newer, ((nodes K).step p e).1.history = newer ++ p.history ∧ AllPunctual newer := by
  have hhappened := happened (K := K) p e
  have hentry : (nodes K).entry p e = ⟨p, e, (p.step K e).2, (p.step K e).1⟩ := rfl
  rw [hentry] at h
  show ∃ newer, (p.step K e).1.history = newer ++ p.history ∧ AllPunctual newer
  match hstep : p.step K e with
  | (p', reply) =>
      rw [hstep] at hhappened h
      cases hhappened with
      | fewer fewer other => exact fewer.history
      | @turn core _ _ env _ running turn =>
          cases turn with
          | routine change answer => exact running ▸ change.history
          | started change channel authUrl qr => exact running ▸ change.history
          | @completed s₁ change id token login proof verified account consent newer stored =>
              obtain ⟨newer, hnewer, hdeeds⟩ := change.history
              obtain ⟨client, net, -, -, hverify⟩ := consent.accepted
              have hclock : env.now .checked = env.now .verify := by
                refine h id token env rfl ?_
                rw [running, issued_of_completed _ consent.toPresented consent.waiting
                  (isSome_completionJson _ _ _) id, if_pos rfl]
                rfl
              refine ⟨.verified verified (env.now .checked) :: newer, ?_, ?_⟩
              · rw [running]
                exact congrArg _ hnewer
              · rintro deed (_ | ⟨_, hdeed⟩)
                · show (env.now .checked : Nat) = verified.checkedAt
                  rw [hclock, checkedAt_of_verify hverify]
                · exact hdeeds deed hdeed

/-- In a run of punctual events the whole history is. -/
theorem allPunctual_final {es : List Event} (h : ∀ x ∈ entries K es, Punctual x) :
    AllPunctual ((nodes K).final .init es).history := by
  have hkeeps : (nodes K).Keeps (fun p e => Punctual ((nodes K).entry p e))
      (fun p => AllPunctual p.history) fun p => AllPunctual p.history := by
    intro p e hp he _
    obtain ⟨newer, hnewer, hdeeds⟩ := history_of_punctual he
    rw [hnewer]
    intro deed hdeed
    rcases List.mem_append.mp hdeed with hdeed | hdeed
    · exact hdeeds deed hdeed
    · exact hp deed hdeed
  have hmeets : (nodes K).Meets (fun p e => Punctual ((nodes K).entry p e)) .init es := by
    refine Machine.meets_iff.mpr fun x hx => ?_
    rw [← Machine.eq_entry_of_mem_trace hx]
    exact h x hx
  exact hmeets.invariant hkeeps fun _ hdeed => absurd hdeed List.not_mem_nil

/-- A Poll that completes a request leaves a check with the time of its evidence only when it is
punctual. -/
theorem punctual_of_aligned (hK : K.json.Lawful) {p : Process} {e : Event}
    (h : ∀ core, ((nodes K).step p e).1 = .running core → Aligned K core) :
    Punctual ((nodes K).entry p e) := by
  rintro id token env hevent hissued
  obtain ⟨core, core', env', token', login, proof, verified, -, hpoll, hstep, consent, -, hchecked,
    hstored⟩ := completed_of_issued hissued
  obtain ⟨-, rfl⟩ := Event.action.inj (hevent.symm.trans hpoll)
  obtain ⟨client, net, -, -, hverify⟩ := consent.accepted
  have hread := readEvidence_encodeEvidence hK (e := ⟨verified, proof⟩) (inRange_of_verify hverify)
  have haligned : verified.checkedAt = env.now .checked :=
    h core' hstep _ _ _ hchecked hstored hread
  rw [checkedAt_of_verify hverify] at haligned
  exact Fin.ext haligned.symm

/-- **The age of a remembered check.** In every run of a node: after every event a remembered check
has the time of the stored evidence, and whenever an action checks the authority and goes on, the
stored evidence was verified less than thirty seconds before that check, if and only if every Poll
that completes a request reads the same second on the clock before and after it verifies. -/
theorem current_iff_punctual {K : Crates} (hK : K.json.Lawful) (es : List Event) :
    (∀ es₁ es₂ core, es = es₁ ++ es₂ → (nodes K).final .init es₁ = .running core → Current K core) ↔
      ∀ x ∈ entries K es, Punctual x := by
  constructor
  · intro h x hx
    obtain ⟨earlier, later, heq⟩ := List.mem_iff_append.mp hx
    obtain ⟨es₁, e, es₂, hes, -, rfl, -⟩ := Machine.exists_of_trace_eq_cons heq
    refine punctual_of_aligned hK fun core hcore => (h (es₁ ++ [e]) es₂ core ?_ ?_).aligned
    · rw [hes, List.append_assoc]
      rfl
    · rw [Machine.final_append]
      exact hcore
  · rintro h es₁ es₂ core rfl hrun
    have hpunctual : AllPunctual ((nodes K).final .init es₁).history := by
      refine allPunctual_final fun x hx => h x ?_
      rw [entries, Machine.trace_append]
      exact List.mem_append_left _ hx
    rw [hrun] at hpunctual
    exact current_of_punctual hK hrun hpunctual

theorem sampleSignIn_running :
    ∃ core, (nodes sampleNode).final .init sampleSignIn = .running core := by
  have hsplit : sampleSignIn = sampleWaiting ++ [samplePoll] :=
    (List.take_append_drop 2 sampleSignIn).symm
  have hafter : (nodes sampleNode).final .init sampleSignIn = sampleEntry.after := by
    rw [hsplit]
    exact Machine.final_concat _ _ _
  cases hentry : sampleEntry.after with
  | running core => exact ⟨core, hafter.trans hentry⟩
  | stopped db history =>
      have hgrants := sampleEntry_grants.2
      rw [hentry] at hgrants
      exact absurd rfl hgrants

/-- In the sample sign-in the clock does not move. -/
theorem current_iff_punctual_sample :
    ∃ core, (nodes sampleNode).final .init sampleSignIn = .running core ∧
    Current sampleNode core := by
  obtain ⟨core, hrun⟩ := sampleSignIn_running
  refine ⟨core, hrun, (current_iff_punctual (K := sampleNode) Json.compact_lawful sampleSignIn).mpr ?_
    sampleSignIn [] core (List.append_nil _).symm hrun⟩
  intro x hx id token env hevent _
  have hmem := Machine.event_mem_of_mem_trace hx
  rw [hevent] at hmem
  simp only [sampleSignIn, sampleOpen, List.mem_cons, List.not_mem_nil, or_false, reduceCtorEq,
    Event.action.injEq, false_and, false_or] at hmem
  rw [hmem.2]
  rfl

/-- A Poll whose verification takes twenty seconds. -/
def slowPoll : Event :=
  let env := sampleEnv 1700000000 2 (sampleProvider "0x100" "0x6553f100" 6)
  .action (.poll (sampleId 3) (sampleId 4)) { env with
    now := fun reading => if reading = .entry ∨ reading = .verify then 1700000000 else 1700000020 }

def slowSignIn : List Event := sampleWaiting ++ [slowPoll]

/-- The passwords are listed forty-five seconds after the verification. -/
def lateEnv : Env := sampleEnv 1700000045 2 fun _ _ => .failed

/-- The time of the evidence, where the authority was checked by the listing. -/
def lateCheck : Option Nat :=
  match (nodes sampleNode).final .init slowSignIn with
  | .running core => match sampleListing.before sampleNode lateEnv core with
    | (.ok _, s) => match authority sampleNode lateEnv s with
      | (.ok (), s') =>
          ((s'.db.evidence.bind (readEvidence sampleNode)).map fun e => e.identity.checkedAt)
      | _ => none
    | _ => none
  | .stopped _ _ => none

theorem lateCheck_eq : lateCheck = some 1700000000 := by decide +kernel

/-- A check of the authority returns without asking anyone, forty-five seconds after the
verification. -/
theorem stretched_check : ∃ core session s s' raw e,
    (nodes sampleNode).final .init slowSignIn = .running core ∧
    sampleListing.before sampleNode lateEnv core = (.ok session, s) ∧
    authority sampleNode lateEnv s = (.ok (), s') ∧ s'.db.evidence = some raw ∧
    readEvidence sampleNode raw = some e ∧
    ¬(lateEnv.now .authority - e.identity.checkedAt < authorityCache) := by
  have hcheck := lateCheck_eq
  unfold lateCheck at hcheck
  match hrun : (nodes sampleNode).final .init slowSignIn with
  | .stopped _ _ =>
      rw [hrun] at hcheck
      cases hcheck
  | .running core =>
      rw [hrun] at hcheck
      match hbefore : sampleListing.before sampleNode lateEnv core with
      | (.error _, _) =>
          simp only [hbefore] at hcheck
          cases hcheck
      | (.ok session, s) =>
          simp only [hbefore] at hcheck
          match hauthority : authority sampleNode lateEnv s with
          | (.error _, _) =>
              simp only [hauthority] at hcheck
              cases hcheck
          | (.ok (), s') =>
              simp only [hauthority] at hcheck
              obtain ⟨e, he, htime⟩ := Option.map_eq_some_iff.mp hcheck
              obtain ⟨raw, hraw, hread⟩ := Option.bind_eq_some_iff.mp he
              refine ⟨core, session, s, s', raw, e, rfl, hbefore, hauthority, hraw, hread, ?_⟩
              rw [htime]
              decide

end PurpleSky.Node
