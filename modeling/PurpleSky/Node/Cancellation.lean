import PurpleSky.Node.Failures
import PurpleSky.Node.Moves
import PurpleSky.Node.Maps
import PurpleSky.Node.Evidence

/-!
# Actions that are given up

An action is given up where it waits for the network. Nothing is written to the store before it
waits, so what it leaves then is what it found, without what had expired, and in memory the calls it
counted and the proof it got.

* `GivenUp`: what a procedure leaves that is given up. A procedure that does not wait is `Prompt`, and
  leaves nothing.
* **`cancelled_of_timedOut`**: what any action leaves that is given up.
-/

namespace PurpleSky.Node

open Bytes Credentials Farcaster Procedure

variable {K : Crates} {env : Env} {α β : Type}

/-! ## Procedures that are given up -/

/-- Where a procedure is given up it leaves a state with `C`. -/
def GivenUp (C : Core → Prop) (x : Act α) (s : Core) : Prop :=
  wp x (fun _ _ => True) (fun halt s' => halt = .timedOut → C s') s

section

variable {C : Core → Prop} {s : Core}

/-- A procedure that does not wait is not given up. -/
theorem GivenUp.of_prompt {x : Act α} (h : Halts Halt.Prompt x) : GivenUp C x s :=
  wp.mono (h s) (fun _ _ _ => trivial) fun _ _ hne heq => absurd heq hne

/-- Only the first of two procedures waits. -/
theorem GivenUp.bind {x : Act α} {f : α → Act β} (hx : GivenUp C x s)
    (hf : ∀ a, Halts Halt.Prompt (f a)) : GivenUp C (x >>= f) s :=
  wp.bind hx (fun a _ _ => GivenUp.of_prompt (hf a)) fun _ _ h => h

/-- Sequences may be regrouped, so that the rules find their first step. -/
theorem givenUp_assoc {γ : Type} {x : Act α} {f : α → Act β} {g : β → Act γ} :
    GivenUp C (x >>= f >>= g) s ↔ GivenUp C (x >>= fun a => f a >>= g) s := by
  simp only [GivenUp, wp_bind]

/-- Reading does not wait. -/
theorem givenUp_read {f : Core → Act β} (h : GivenUp C (f s) s) : GivenUp C (read >>= f) s := h

/-- A change does not wait, and what is given up later is given up after it. -/
theorem givenUp_change {g : Core → Core} {f : Unit → Act β} (h : GivenUp C (f ()) (g s)) :
    GivenUp C (change g >>= f) s := h

/-- A guard does not wait. Behind it its condition is known. -/
theorem givenUp_check {c : Prop} [Decidable c] {failure : Failure} {f : Unit → Act β}
    (h : c → GivenUp C (f ()) s) : GivenUp C (check c failure >>= f) s :=
  (wp_bind _ _).mpr (wp_check.mpr ⟨h, fun _ => Halt.noConfusion⟩)

/-- A result does not wait. Behind it the value is known. -/
theorem givenUp_attempt {x : Except Failure α} {f : α → Act β}
    (h : ∀ a, x = .ok a → GivenUp C (f a) s) : GivenUp C (attempt x >>= f) s :=
  (wp_bind _ _).mpr (wp_attempt.mpr ⟨h, fun _ _ => Halt.noConfusion⟩)

/-- Reading the store does not wait, and leaves the core. -/
theorem givenUp_query {io : Option Faults} {g : Faults → Bytes → Db → Except Error α}
    {f : α → Act β}
    (h : ∀ a, GivenUp C (f a) s) : GivenUp C (query io g >>= f) s :=
  (wp_bind _ _).mpr (wp_query.mpr ⟨fun _ => Halt.noConfusion, fun _ _ =>
    ⟨fun a _ => h a, fun _ _ => Halt.noConfusion⟩⟩)

/-- The only place where a procedure waits. -/
theorem givenUp_await {net : Option Net} {g : Net → Except AuthError α}
    {f : Except AuthError α → Act β}
    (hnone : net = none → C s) (h : ∀ answers, net = some answers → GivenUp C (f (g answers)) s) :
    GivenUp C (await net g >>= f) s :=
  (wp_bind _ _).mpr (wp_await.mpr ⟨fun hnet _ => hnone hnet, h⟩)

/-- Looking for a grant is reading and a guard. -/
theorem givenUp_grant {token : Bytes} {now : Nat} {f : Unit → Act β} (h : GivenUp C (f ()) s) :
    GivenUp C (grant token now >>= f) s := by
  unfold grant
  rw [GivenUp, wp_bind, wp_bind, wp_read, wp_check]
  exact ⟨fun _ => h, fun _ => Halt.noConfusion⟩

/-- A check waits once, for the provider, and by then it has changed nothing. -/
theorem givenUp_authority (h : C s) : GivenUp C (authority K env) s := by
  unfold authority
  apply givenUp_read
  apply givenUp_check
  intro _
  by_cases hfresh : s.isFresh (env.now .authority) = true
  · rw [if_pos hfresh]
    exact .of_prompt halts_pure
  · rw [if_neg hfresh]
    apply givenUp_query
    intro account
    apply givenUp_attempt
    intro a _
    apply givenUp_check
    intro _
    apply givenUp_query
    intro raw
    apply givenUp_attempt
    intro _ _
    apply givenUp_attempt
    intro _ _
    apply givenUp_check
    intro _
    apply givenUp_attempt
    intro _ _
    exact givenUp_await (fun _ => h) fun _ _ => .of_prompt halts_recheck

/-- So does a check between two looks at the grant. -/
theorem givenUp_granted {token : Bytes} (h : C s) : GivenUp C (granted K env token) s := by
  unfold granted
  apply givenUp_grant
  apply (givenUp_authority h).bind
  intro _
  exact halts_grant

end

/-! ## What is left -/

/-- What a poll that is given up changes of its sign-in: the time of the poll, and the proof where
the relay gave one. A proof that was there stays. -/
inductive Polled (K : Crates) (env : Env) (settings : Settings) (id : Bytes)
    (before after : List (Bytes × Login)) : Prop where
  | unanswered (login : Login) (found : before.lookup id = some login)
      (unasked : login.proof ≠ none ∨ env.net .status = none)
      (changed : after = modifyKey before id fun login => { login with lastPoll := env.now .entry })
  | answered (client : AuthClient) (login : Login) (net : Net) (proof : SignedProof)
      (made : Core.client K settings = .ok client) (found : before.lookup id = some login)
      (unknown : login.proof = none) (asked : env.net .status = some net)
      (answer : Farcaster.status K.toCrates client net login.channel = .ok (.completed proof))
      (changed : after = modifyKey before id fun login =>
        { login with lastPoll := env.now .entry, proof := some proof })

/-- What an action that is given up leaves of the core it found. -/
structure Cancelled (K : Crates) (env : Env) (action : Action) (s s' : Core) : Prop where
  db : s'.db = s.db
  settings : s'.settings = s.settings
  jwtKey : s'.jwtKey = s.jwtKey
  checkedAt : s'.checkedAt = s.checkedAt
  history : s'.history = s.history
  grants : s'.grants = s.grants.filter fun entry => (env.now .entry : Nat) < entry.2
  startTimes : action ≠ .start → s'.startTimes = s.startTimes
  passwordTimes : (∀ identifier password, action ≠ .login identifier password) →
    s'.passwordTimes = s.passwordTimes
  pending : (∀ id token, action ≠ .poll id token) →
    s'.pending = s.pending.filter fun entry => (env.now .entry : Nat) < entry.2.challenge.expiresAt
  polled : ∀ id token, action = .poll id token → Polled K env s.settings id
    (s.pending.filter fun entry => (env.now .entry : Nat) < entry.2.challenge.expiresAt) s'.pending

/-- Changing a key twice is changing it once. -/
theorem modifyKey_modifyKey (map : List (Bytes × α)) (key : Bytes) (f g : α → α) :
    modifyKey (modifyKey map key f) key g = modifyKey map key fun a => g (f a) := by
  unfold modifyKey
  rw [List.map_map]
  apply List.map_congr_left
  intro entry _
  by_cases h : entry.1 = key
  · simp [h]
  · simp [h]

section

variable {s : Core}

/-- A Start waits for the relay, and by then it has counted its call. -/
theorem givenUp_start {now : Nat} {C : Core → Prop}
    (h : C { s with startTimes := (limit s.startTimes now 60 5).2 }) :
    GivenUp C (start K env now) s := by
  unfold start
  apply givenUp_read
  apply givenUp_change
  apply givenUp_check
  intro _
  apply givenUp_check
  intro _
  apply givenUp_attempt
  intro client _
  apply givenUp_await
  · intro _
    exact h
  · intro answers _
    apply GivenUp.of_prompt
    apply halts_auth.bind
    intro _
    apply (halts_okOr (Ordinary.failed (by decide))).bind
    intro _
    apply halts_change.bind
    intro _
    exact halts_pure

/-- Completing a sign-in waits for the verification, and by then it has changed nothing. -/
theorem givenUp_complete {settings : Settings} {client : AuthClient} {id : Bytes} {login : Login}
    {proof : SignedProof} {now : Nat} {C : Core → Prop} (h : C s) :
    GivenUp C (complete K env settings client id login proof now) s := by
  unfold complete
  apply givenUp_await
  · intro _
    exact h
  · intro answers _
    apply GivenUp.of_prompt
    apply halts_auth.bind
    intro verified
    apply halts_ite (halts_change.bind fun _ => halts_fail (Ordinary.failed (by decide)))
    apply halts_ite (halts_change.bind fun _ => halts_fail (Ordinary.failed (by decide)))
    apply halts_checkBlock.bind
    intro _
    apply halts_bind.bind
    intro _
    apply halts_change.bind
    intro _
    apply halts_change.bind
    intro _
    exact halts_pure

/-- A poll waits for the relay and then for the verification, and until then it changed its sign-in.
-/
theorem givenUp_poll {id token : Bytes} {C : Core → Prop}
    (h : ∀ pending, Polled K env s.settings id s.pending pending → C { s with pending := pending }) :
    GivenUp C (poll K env id token (env.now .entry)) s := by
  unfold poll
  apply givenUp_read
  apply givenUp_attempt
  intro client hclient
  apply givenUp_attempt
  intro login hlogin
  have hlogin : s.pending.lookup id = some login := okOr_eq_ok.mp hlogin
  apply givenUp_check
  intro _
  cases login.completion with
  | some completion => exact .of_prompt halts_pure
  | none =>
      apply givenUp_check
      intro _
      apply givenUp_change
      unfold pollProof
      cases hproof : login.proof with
      | some proof =>
          apply givenUp_complete
          apply h
          exact .unanswered login hlogin (.inl (hproof ▸ Option.some_ne_none _)) rfl
      | none =>
          simp only
          apply givenUp_assoc.mpr
          apply givenUp_await
          · intro hnone
            apply h
            exact .unanswered login hlogin (.inr hnone) rfl
          · intro answers hanswers
            apply givenUp_assoc.mpr
            apply givenUp_attempt
            intro status hstatus
            cases status with
            | pending => exact .of_prompt halts_pure
            | completed proof =>
                apply givenUp_complete
                have hanswer := Store.mapError_eq_ok.mp hstatus
                refine h _
                  (.answered client login answers proof hclient hlogin hproof hanswers hanswer ?_)
                exact modifyKey_modifyKey s.pending id
                  (fun login => { login with lastPoll := env.now .entry })
                  fun login => { login with proof := some proof }

/-- An action is given up where it waits for the relay or for the provider. -/
theorem givenUp_run {C : Core → Prop} (action : Action)
    (h : ∀ pending startTimes passwordTimes,
      (action ≠ .start → startTimes = s.startTimes) →
      ((∀ identifier password, action ≠ .login identifier password) → passwordTimes = s.passwordTimes) →
      ((∀ id token, action ≠ .poll id token) → pending = s.pending) →
      (∀ id token, action = .poll id token → Polled K env s.settings id s.pending pending) →
      C { s with pending := pending, startTimes := startTimes, passwordTimes := passwordTimes }) :
    GivenUp C (action.run K env (env.now .entry)) s := by
  -- where nothing in memory changed before
  have hsame : (∀ id token, action ≠ .poll id token) → C s := fun hpoll =>
    h s.pending s.startTimes s.passwordTimes (fun _ => rfl) (fun _ => rfl) (fun _ => rfl)
      fun id token heq => absurd heq (hpoll id token)
  cases action with
  | start =>
      apply givenUp_start
      exact h s.pending _ s.passwordTimes (fun hne => absurd rfl hne) (fun _ => rfl) (fun _ => rfl)
        fun _ _ => Action.noConfusion
  | poll id token =>
      apply givenUp_poll
      intro pending hpolled
      refine h pending s.startTimes s.passwordTimes (fun _ => rfl) (fun _ => rfl)
        (fun hne => absurd rfl (hne id token)) fun id' token' heq => ?_
      obtain ⟨rfl, rfl⟩ := Action.poll.inj heq
      exact hpolled
  | passwords token =>
      apply (givenUp_granted (hsame fun _ _ => Action.noConfusion)).bind
      intro _
      apply halts_query.bind
      intro _
      exact halts_pure
  | issue token name =>
      apply (givenUp_granted (hsame fun _ _ => Action.noConfusion)).bind
      intro _
      apply halts_call.bind
      intro _
      apply halts_query.bind
      intro _
      apply (halts_okOr (Ordinary.failed (plain_ofError _))).bind
      intro _
      exact halts_pure
  | revoke token name =>
      apply GivenUp.of_prompt
      apply halts_grant.bind
      intro _
      apply halts_update.bind
      intro _
      exact halts_pure
  | login identifier password =>
      show GivenUp C (Node.login K env identifier password (env.now .entry)) s
      unfold Node.login
      apply givenUp_read
      apply givenUp_change
      apply givenUp_check
      intro _
      apply givenUp_query
      intro _
      have hcounted := h s.pending s.startTimes (limit s.passwordTimes (env.now .entry) 60 20).2
        (fun _ => rfl) (fun hne => absurd rfl (hne identifier password)) (fun _ => rfl)
        fun _ _ => Action.noConfusion
      apply (givenUp_authority hcounted).bind
      intro _
      apply halts_call.bind
      intro _
      exact halts_pure
  | session token =>
      apply givenUp_query
      intro _
      apply (givenUp_authority (hsame fun _ _ => Action.noConfusion)).bind
      intro _
      exact halts_pure
  | refresh token =>
      apply givenUp_query
      intro _
      apply (givenUp_authority (hsame fun _ _ => Action.noConfusion)).bind
      intro _
      apply halts_call.bind
      intro _
      exact halts_pure
  | logout token =>
      apply GivenUp.of_prompt
      apply halts_update.bind
      intro _
      exact halts_pure
  | describe =>
      apply GivenUp.of_prompt
      apply halts_read.bind
      intro _
      apply halts_identity.bind
      intro _
      exact halts_pure
  | did =>
      show GivenUp C (Node.did K env) s
      exact .of_prompt halts_query
  | preferences token =>
      apply givenUp_query
      intro _
      apply (givenUp_authority (hsame fun _ _ => Action.noConfusion)).bind
      intro _
      exact halts_pure

/-- Before its own steps an action forgets what has expired. -/
theorem givenUp_execute (action : Action) :
    GivenUp (Cancelled K env action s) (execute K env action) s := by
  unfold execute expire
  apply givenUp_read
  apply givenUp_check
  intro _
  apply givenUp_change
  apply givenUp_run
  intro pending startTimes passwordTimes hstart hpassword hpending hpolled
  exact ⟨rfl, rfl, rfl, rfl, rfl, rfl, hstart, hpassword, hpending, hpolled⟩

end

/-- **An action that is given up changes nothing that lasts.** Wherever an action waits when its
time is over, the store, the settings and the time of the last check are as it found them, and so
are the grants and the sign-ins but for those that had expired. It has counted its call, and a poll
has kept its time and the proof that the relay gave, or that was there. The node answers that the
service is not available. -/
theorem cancelled_of_timedOut {K : Crates} {env : Env} {action : Action} {s s' : Core}
    (h : execute K env action s = (.error .timedOut, s')) :
    Cancelled K env action s s' ∧
      executeNode K s action env = (.running s', .failed (.auth .unavailable)) := by
  have hwp := @givenUp_execute K env s action
  unfold GivenUp wp at hwp
  rw [h] at hwp
  refine ⟨hwp rfl, ?_⟩
  unfold executeNode
  rw [h]

/-- A sign-in is polled, and the provider does not answer in time. -/
def sampleTimeout : Env :=
  let env := sampleEnv 1700000010 2 fun _ _ => .failed
  { env with net := fun visit => if visit = .verify then none else env.net visit }

/-- The poll runs until its time is over. -/
theorem sampleTimeout_runs :
    (match (nodes sampleNode).final .init (sampleSignIn.take 2) with
      | .running core => match execute sampleNode sampleTimeout (.poll (sampleId 3) (sampleId 4)) core with
        | (.error .timedOut, _) => true
        | _ => false
      | .stopped _ _ => false) = true := by
  decide +kernel

/-- The poll leaves no check and no evidence, and the proof of the relay is kept. -/
theorem cancelled_of_timedOut_sample : ∃ core core' : Core,
    (nodes sampleNode).final .init (sampleSignIn.take 2) = .running core ∧
    executeNode sampleNode core (.poll (sampleId 3) (sampleId 4)) sampleTimeout =
      (.running core', .failed (.auth .unavailable)) ∧
    core'.db = core.db ∧ core'.checkedAt = core.checkedAt ∧
    Polled sampleNode sampleTimeout core.settings (sampleId 3)
      (core.pending.filter fun entry => (1700000010 : Nat) < entry.2.challenge.expiresAt)
      core'.pending := by
  have hruns := sampleTimeout_runs
  match hrun : (nodes sampleNode).final .init (sampleSignIn.take 2) with
  | .stopped db history =>
      rw [hrun] at hruns
      cases hruns
  | .running core =>
      rw [hrun] at hruns
      match hreply : execute sampleNode sampleTimeout (.poll (sampleId 3) (sampleId 4)) core with
      | (.error .timedOut, core') =>
          obtain ⟨hcancelled, hanswer⟩ := cancelled_of_timedOut hreply
          exact ⟨core, core', rfl, hanswer, hcancelled.db, hcancelled.checkedAt,
            hcancelled.polled _ _ rfl⟩
      | (.ok _, _) | (.error (.failed _), _) | (.error .stopped, _) =>
          simp only [hreply, Bool.false_eq_true] at hruns

end PurpleSky.Node
