import PurpleSky.Node.Moves
import PurpleSky.Node.Maps

/-!
# What every action leaves alone

The settings, the requests that are waiting and what was granted change in two places only: a Start
that returns makes a request, and a Poll that completes one makes a grant. All else that an action
does is `Routine`, wherever it stops.

* **`execute_turns`**: what an action did, by its reply.
-/

namespace PurpleSky.Node

open Bytes Credentials Farcaster Procedure

variable {K : Crates} {env : Env}

/-! ## Routine changes -/

/-- A verification is recorded at the time that was given to it. -/
def Deed.Punctual : Deed → Prop
  | .verified identity time => time = identity.checkedAt
  | _ => True

/-- A request is the same one: its poll token, its challenge and its completion. -/
structure Login.Same (login login' : Login) : Prop where
  pollHash : login'.pollHash = login.pollHash
  challenge : login'.challenge = login.challenge
  completion : login'.completion = login.completion

/-- The settings stay, no request is new or completed, nothing is granted, and what is recorded as
verified is punctual. -/
structure Routine (s s' : Core) : Prop where
  settings : s'.settings = s.settings
  pending : ∀ id login', (id, login') ∈ s'.pending → ∃ login, (id, login) ∈ s.pending ∧
    login.Same login'
  grants : s'.grants.Sublist s.grants
  history : ∃ newer, s'.history = newer ++ s.history ∧ ∀ deed ∈ newer, deed.Punctual

/-- A request that stays the same twice stays the same. -/
theorem Login.Same.trans {l l' l'' : Login} (h : l.Same l') (h' : l'.Same l'') : l.Same l'' :=
  ⟨h'.pollHash.trans h.pollHash, h'.challenge.trans h.challenge, h'.completion.trans h.completion⟩

/-- Nothing at all is routine. -/
theorem Routine.refl (s : Core) : Routine s s where
  settings := rfl
  pending _ login' h := ⟨login', h, rfl, rfl, rfl⟩
  grants := .refl _
  history := ⟨[], rfl, by simp⟩

/-- Routine changes one after the other are routine. What they recorded is punctual, since each of
them recorded such deeds. -/
theorem Routine.trans {s s' s'' : Core} (h : Routine s s') (h' : Routine s' s'') :
    Routine s s'' where
  settings := h'.settings.trans h.settings
  pending id login'' hmem := by
    obtain ⟨login', hmem', hsame'⟩ := h'.pending id login'' hmem
    obtain ⟨login, hmem, hsame⟩ := h.pending id login' hmem'
    exact ⟨login, hmem, hsame.trans hsame'⟩
  grants := h'.grants.trans h.grants
  history := by
    obtain ⟨newer, hs', hnewer⟩ := h.history
    obtain ⟨newer', hs'', hnewer'⟩ := h'.history
    refine ⟨newer' ++ newer, by rw [hs'', hs', List.append_assoc], fun deed hdeed => ?_⟩
    rcases List.mem_append.mp hdeed with hdeed | hdeed
    · exact hnewer' deed hdeed
    · exact hnewer deed hdeed

/-- For the rules of procedures. -/
instance : Std.Refl Routine := ⟨Routine.refl⟩

/-- For the rules of sequences. -/
instance : IsTrans Core Routine := ⟨fun _ _ _ => Routine.trans⟩

/-- A change of other data is routine. -/
theorem Routine.of_frame {s s' : Core} (hsettings : s'.settings = s.settings)
    (hpending : s'.pending = s.pending) (hgrants : s'.grants = s.grants)
    (hhistory : s'.history = s.history) : Routine s s' where
  settings := hsettings
  pending := by
    rw [hpending]
    exact (Routine.refl s).pending
  grants := by rw [hgrants]
  history := ⟨[], hhistory, by simp⟩

/-- A deed that is punctual is routine. -/
theorem Routine.of_deed {s : Core} {deed : Deed} (h : deed.Punctual) :
    Routine s { s with history := deed :: s.history } := by
  refine { Routine.refl s with history := ⟨[deed], rfl, fun d hd => ?_⟩ }
  obtain rfl := List.mem_singleton.mp hd
  exact h

variable {α β : Type}

/-- A guard changes nothing. -/
theorem along_check {c : Prop} [Decidable c] {failure : Failure} :
    Along Routine (check c failure) :=
  along_require

/-- A result is not a change. -/
theorem along_attempt {x : Except Failure α} : Along Routine (attempt x) := along_lift

/-- Failing changes nothing. -/
theorem along_fail {failure : Failure} : Along Routine (fail failure : Act α) := along_stop

/-- Waiting changes nothing. -/
theorem along_await {net : Option Net} {f : Net → Except AuthError α} :
    Along Routine (await net f) :=
  fun s => wp_await.mpr ⟨fun _ => .refl s, fun _ _ => .refl s⟩

/-- A call of the store changes the database only. -/
theorem along_call {io : Option Faults} {f : Faults → Bytes → Db → Except Error (α × Db)} :
    Along Routine (call io f) :=
  fun s => wp_call.mpr ⟨fun _ => .refl s, fun _ _ => ⟨fun _ _ _ => .of_frame rfl rfl rfl rfl,
    fun _ _ => .refl s⟩⟩

/-- So does a call that reads. -/
theorem along_query {io : Option Faults} {f : Faults → Bytes → Db → Except Error α} :
    Along Routine (query io f) := along_call

/-- So does a call that writes. -/
theorem along_update {io : Option Faults} {f : Faults → Bytes → Db → Except Error Db} :
    Along Routine (update io f) := along_call

/-- What is noted has to be punctual. -/
theorem along_note {deed : Deed} (h : deed.Punctual) : Along Routine (note deed) :=
  along_change fun _ => .of_deed h

/-! ## Checking an authority -/

/-- A verified authority has the time that was given to the check. -/
theorem checkedAt_of_verifyAuthority {C : Farcaster.Crates} {client : AuthClient} {net : Net}
    {parsed : ParsedProof} {now : Nat} {previous : Option VerifiedIdentity}
    {identity : VerifiedIdentity}
    (h : verifyAuthority C client net parsed now previous = .ok identity) :
    identity.checkedAt = now := by
  simp only [verifyAuthority, bind_eq_ok, pure_eq_ok] at h
  obtain ⟨_, -, _, -, _, -, _, -, rfl⟩ := h
  rfl

/-- A verified identity has the time that was given to the verification. -/
theorem checkedAt_of_verify {C : Farcaster.Crates} {client : AuthClient} {net : Net}
    {challenge : Challenge} {proof : SignedProof} {now : Nat} {identity : VerifiedIdentity}
    (h : verify C client net proof challenge now = .ok identity) : identity.checkedAt = now := by
  obtain ⟨parsed, -, h⟩ := bind_eq_ok.mp h
  exact checkedAt_of_verifyAuthority h

/-- An identity that was checked again has the time that was given to the check. -/
theorem checkedAt_of_recheckIdentity {C : Farcaster.Crates} {client : AuthClient} {net : Net}
    {proof : SignedProof} {now : Nat} {previous identity : VerifiedIdentity}
    (h : recheckIdentity C client net previous proof now = .ok identity) :
    identity.checkedAt = now := by
  obtain ⟨parsed, -, -, -, h⟩ := parseAuthority_of_recheckIdentity h
  exact checkedAt_of_verifyAuthority h

/-- Storing evidence writes the database and notes that it did. -/
theorem along_storeEvidence {evidence : Evidence} :
    Along Routine (storeEvidence K env evidence) := by
  unfold storeEvidence
  apply along_update.bind
  intro _
  exact along_note trivial

/-- Evidence that is stored is there. -/
theorem wp_storeEvidence {s : Core} {evidence : Evidence} : wp (storeEvidence K env evidence)
    (fun _ s' => s'.db.evidence = some (encodeEvidence K evidence)) (fun _ _ => True) s := by
  unfold storeEvidence
  simp only [wp_bind, wp_update, wp_note]
  refine ⟨fun _ => trivial, fun faults _ => ⟨fun db hdb => ?_, fun _ _ => trivial⟩⟩
  obtain ⟨-, -, -, rfl⟩ := Store.setEvidence_eq_ok hdb
  rfl

/-- A check that is recorded at its own time is routine. -/
theorem along_recordCheck {identity : VerifiedIdentity} {time : Nat}
    (h : time = identity.checkedAt) :
    Along Routine (recordCheck identity time) := by
  unfold recordCheck
  refine Along.bind (along_note h) fun _ => ?_
  exact along_change fun _ => .of_frame rfl rfl rfl rfl

/-- An invalidation takes grants away, and makes none. -/
theorem along_invalidate : Along Routine (invalidate K env) := by
  unfold invalidate
  refine Along.bind (along_note trivial) fun _ => ?_
  apply along_update.bind
  intro _
  refine Along.bind (along_note trivial) fun _ => ?_
  apply along_change
  intro s
  exact { Routine.refl s with grants := List.nil_sublist _ }

/-- Checking again stores and records at the time that was given to it, or invalidates. -/
theorem along_recheck {client : AuthClient} {net : Net} {previous : VerifiedIdentity}
    {proof : SignedProof} {now : Nat} :
    Along Routine
      (recheck K env proof now (recheckIdentity K.toCrates client net previous proof now)) := by
  cases hresult : recheckIdentity K.toCrates client net previous proof now with
  | ok identity =>
      unfold recheck
      apply along_storeEvidence.bind
      intro _
      exact along_recordCheck (checkedAt_of_recheckIdentity hresult).symm
  | error error =>
      unfold recheck
      apply Along.bind (along_change fun _ => .of_frame rfl rfl rfl rfl)
      intro _
      exact along_ite (along_invalidate.bind fun _ => along_fail) along_fail

/-- The check of an authority is routine, whether it is remembered or made. -/
theorem along_authority : Along Routine (authority K env) := by
  unfold authority
  apply along_read.bind
  intro core
  apply along_check.bind
  intro _
  apply along_ite along_pure
  apply along_query.bind
  intro account
  apply along_attempt.bind
  intro account
  apply along_check.bind
  intro _
  apply along_query.bind
  intro raw
  apply along_attempt.bind
  intro raw
  apply along_attempt.bind
  intro evidence
  apply along_check.bind
  intro _
  apply along_attempt.bind
  intro client s
  refine (wp_bind _ _).mpr (wp_await.mpr ⟨fun _ => .refl s, fun net _ => ?_⟩)
  exact along_recheck s

/-- Looking for a grant changes nothing. -/
theorem along_grant {token : Bytes} {now : Nat} : Along Routine (grant token now) := by
  unfold grant
  apply along_read.bind
  intro _
  exact along_check

/-- A check between two looks at the grant is routine. -/
theorem along_granted {token : Bytes} : Along Routine (granted K env token) := by
  unfold granted
  apply along_grant.bind
  intro _
  apply along_authority.bind
  intro _
  exact along_grant

/-! ## Requests -/

/-- The challenge of a request. -/
def challengeOf (env : Env) : Challenge :=
  ⟨randomToken (env.random .nonce), env.now .entry, env.now .entry + challengeTtl⟩

/-- The reply to a Start. -/
def requestJson (id pollToken authUrl qr : Bytes) (expires : Nat) : Json :=
  .object [(str "auth_url", .string authUrl), (str "expires_at", .integer expires),
    (str "poll_token", .string pollToken), (str "qr_data_url", .string qr),
    (str "request_id", .string id)]

/-- The reply to a Poll that waits. -/
def waitingJson : Json := .object [(str "status", .string (str "pending"))]

/-- The reply to a Poll of a completed request. -/
def completionJson (accountToken : Bytes) (account : Account) (expires : Nat) : Json :=
  .object [(str "account_token", .string accountToken), (str "expires_at", .integer expires),
    (str "fid", .integer account.fid), (str "handle", .string account.identity.handle),
    (str "service_url", .string account.identity.serviceUrl),
    (str "status", .string (str "complete"))]

/-- The request that a Poll finds, after what has expired was forgotten. -/
def Core.found (core : Core) (env : Env) (id : Bytes) : Option Login :=
  (core.pending.filter fun entry => (env.now .entry : Nat) < entry.2.challenge.expiresAt).lookup id

/-- A Poll finds its request and presents its token. -/
structure Presented (env : Env) (id token : Bytes) (s : Core) (login : Login) : Prop where
  found : s.found env id = some login
  token : hash token = login.pollHash

/-- A request that is presented is one of those that wait. -/
theorem Presented.mem {id token : Bytes} {s : Core} {login : Login}
    (h : Presented env id token s login) : (id, login) ∈ s.pending :=
  (List.mem_filter.mp (mem_of_lookup h.found)).1

/-- It has not expired, since what had expired was forgotten. -/
theorem Presented.alive {id token : Bytes} {s : Core} {login : Login}
    (h : Presented env id token s login) : env.now .entry < login.challenge.expiresAt :=
  of_decide_eq_true (List.mem_filter.mp (mem_of_lookup h.found)).2

/-- A request is completed: the proof of the permitted identifier is accepted in time. -/
structure Consented (K : Crates) (env : Env) (id token : Bytes) (s : Core) (login : Login)
    (proof : SignedProof) (verified : VerifiedIdentity) : Prop
    extends Presented env id token s login where
  waiting : login.completion = none
  accepted : ∃ client net, Core.client K s.settings = .ok client ∧ env.net .verify = some net ∧
    verify K.toCrates client net proof login.challenge (env.now .verify) = .ok verified
  unexpired : env.now .expiry < login.challenge.expiresAt
  allowed : s.settings.allowedFid = some verified.fid

/-- What an action that returned did. -/
inductive Turn (K : Crates) (env : Env) (s : Core) : Action → Json → Core → Prop where
  /-- Nothing that counts, and a Poll answered what it had answered. -/
  | routine {action : Action} {value : Json} {s' : Core} (change : Routine s s')
      (answer : ∀ id token, action = .poll id token → value = waitingJson ∨
        ∃ login, Presented env id token s login ∧ login.completion = some value) :
      Turn K env s action value s'
  /-- A request was made. -/
  | started {s₁ : Core} (change : Routine s s₁) (channel authUrl qr : Bytes) :
      Turn K env s .start
        (requestJson (randomToken (env.random .request)) (randomToken (env.random .poll)) authUrl qr
          (challengeOf env).expiresAt)
        { s₁ with
          pending := insertKey s₁.pending (randomToken (env.random .request))
            ⟨hash (randomToken (env.random .poll)), challengeOf env, channel, none, 0, none⟩ }
  /-- A request was completed. -/
  | completed {s₁ : Core} (change : Routine s s₁) {id token : Bytes} {login : Login}
      {proof : SignedProof} {verified : VerifiedIdentity} (account : Account)
      (consent : Consented K env id token s login proof verified)
      (newer : Supersedes K verified s.db)
      (stored : s₁.db.evidence = some (encodeEvidence K ⟨verified, proof⟩)) :
      Turn K env s (.poll id token)
        (completionJson (randomToken (env.random .account)) account (env.now .entry + grantTtl))
        { s₁ with
          history := .verified verified (env.now .checked) :: s₁.history
          checkedAt := some (env.now .checked : Nat)
          grants := insertKey s₁.grants (hash (randomToken (env.random .account)))
            (env.now .entry + grantTtl)
          pending := modifyKey s₁.pending id fun login => { login with
            proof := none, channel := []
            completion := some (completionJson (randomToken (env.random .account)) account
              (env.now .entry + grantTtl)) } }

variable {s s₀ : Core}

/-- An action that is routine, whatever it returns. -/
theorem turns_of_along {x : Act Json} {action : Action} (hx : Along Routine x)
    (hs : Routine s₀ s) (haction : ∀ id token, action ≠ .poll id token) :
    wp x (Turn K env s₀ action) (fun _ => Routine s₀) s :=
  (hx.after hs).mono (fun _ _ h => .routine h fun id token h' => absurd h' (haction id token))
    fun _ _ h => h

/-- A Start that returns has made a request, and whatever it did before was routine. -/
theorem start_turns (hs : Routine s₀ s) :
    wp (start K env (env.now .entry)) (Turn K env s₀ .start) (fun _ => Routine s₀) s := by
  unfold start
  refine wp.bind (along_read.after hs) (fun core s₁ h₁ => ?_) fun _ _ h => h
  refine wp.bind ((along_change fun _ => .of_frame rfl rfl rfl rfl).after h₁) (fun _ s₂ h₂ => ?_)
    fun _ _ h => h
  refine wp.bind (along_check.after h₂) (fun _ s₃ h₃ => ?_) fun _ _ h => h
  refine wp.bind (along_check.after h₃) (fun _ s₄ h₄ => ?_) fun _ _ h => h
  refine wp.bind (along_attempt.after h₄) (fun client s₅ h₅ => ?_) fun _ _ h => h
  refine wp.bind (along_await.after h₅) (fun channel s₆ h₆ => ?_) fun _ _ h => h
  refine wp.bind (along_attempt.after h₆) (fun channel s₇ h₇ => ?_) fun _ _ h => h
  refine wp.bind (along_attempt.after h₇) (fun qr s₈ h₈ => ?_) fun _ _ h => h
  exact .started h₈ channel.channelToken channel.authUrl qr

/-- Changing what does not count of a request is routine. -/
theorem Routine.of_setLogin {id : Bytes} {f : Login → Login}
    (hf : ∀ login : Login, login.Same (f login)) :
    Routine s { s with pending := modifyKey s.pending id f } := by
  refine { Routine.refl s with pending := fun id' login' hmem => ?_ }
  obtain ⟨login, hmem, hlogin⟩ := mem_modifyKey hmem
  refine ⟨login, hmem, ?_⟩
  rw [hlogin]
  split_ifs
  · exact hf login
  · exact ⟨rfl, rfl, rfl⟩

/-- Changing what does not count of a request is routine. -/
theorem along_setLogin {id : Bytes} {f : Login → Login}
    (hf : ∀ login : Login, login.Same (f login)) :
    Along Routine (setLogin id f) := along_change fun _ => .of_setLogin hf

/-- Forgetting a request is routine. -/
theorem along_removeLogin {id : Bytes} : Along Routine (removeLogin id) := by
  apply along_change
  intro s
  refine { Routine.refl s with pending := fun id' login' hmem => ?_ }
  exact ⟨login', (List.mem_filter.mp hmem).1, rfl, rfl, rfl⟩

/-- Keeping the proof of the relay is routine: it is not what a request is known by. -/
theorem along_pollProof {client : AuthClient} {id : Bytes} {pending : Login} :
    Along Routine (pollProof K env client id pending) := by
  unfold pollProof
  split
  · exact along_pure
  · apply along_await.bind
    intro status
    apply along_attempt.bind
    intro status
    cases status with
    | pending => exact along_pure
    | completed proof =>
        refine Along.bind (along_setLogin fun _ => ⟨rfl, rfl, rfl⟩) fun _ => ?_
        exact along_pure

/-- Asking for the proof leaves the database alone. -/
theorem wp_pollProof {client : AuthClient} {id : Bytes} {pending : Login} :
    wp (pollProof K env client id pending) (fun _ s' => s'.db = s.db) (fun _ _ => True) s := by
  unfold pollProof
  split
  · exact rfl
  · simp only [wp_bind, wp_await, wp_attempt]
    refine ⟨fun _ => trivial, fun _ _ => ⟨fun status _ => ?_, fun _ _ => trivial⟩⟩
    cases status with
    | pending => exact rfl
    | completed proof => exact rfl

/-- Comparing blocks changes nothing. -/
theorem along_checkBlock {verified : VerifiedIdentity} :
    Along Routine (checkBlock K env verified) := by
  unfold checkBlock
  apply along_query.bind
  intro raw
  cases raw with
  | none => exact along_pure
  | some raw =>
      apply along_attempt.bind
      intro previous
      exact along_check

/-- Invalidating another authority is routine. -/
theorem along_replaceAuthority {authority : Bytes} :
    Along Routine (replaceAuthority K env authority) := by
  unfold replaceAuthority
  apply along_query.bind
  intro account
  cases account with
  | none => exact along_pure
  | some account => exact along_ite along_invalidate along_pure

/-- Completing a request takes the turn of its Poll, by the challenge and the proof that were
consented to. Until the last two changes it is routine. -/
theorem complete_turns {client : AuthClient} {id token : Bytes} {login : Login}
    {proof : SignedProof}
    (hs : Routine s₀ s) (hdb : s.db = s₀.db) (hclient : Core.client K s₀.settings = .ok client)
    (hlogin : Presented env id token s₀ login) (hnone : login.completion = none) :
    wp (complete K env s₀.settings client id login proof (env.now .entry))
      (Turn K env s₀ (.poll id token)) (fun _ => Routine s₀) s := by
  unfold complete
  refine (wp_bind _ _).mpr (wp_await.mpr ⟨fun _ => hs, fun net hnet => ?_⟩)
  refine (wp_bind _ _).mpr (wp_attempt.mpr ⟨fun verified hverified => ?_, fun _ _ => hs⟩)
  have hverified := Store.mapError_eq_ok.mp hverified
  split_ifs with hexpired hfid
  · exact (wp_bind _ _).mpr (along_removeLogin.after hs)
  · exact (wp_bind _ _).mpr (along_removeLogin.after hs)
  refine wp.bind ((along_checkBlock.after hs).and checkBlock_acts) (fun _ s₁ h₁ => ?_) fun _ _ h => h.1
  obtain ⟨h₁, -, -, hnewer⟩ := h₁
  refine (wp_bind _ _).mpr ?_
  unfold Node.bind
  refine wp.bind (along_replaceAuthority.after h₁) (fun _ s₂ h₂ => ?_) fun _ _ h => h
  refine wp.bind (along_attempt.after h₂) (fun identity s₃ h₃ => ?_) fun _ _ h => h
  refine wp.bind (along_call.after h₃) (fun account s₄ h₄ => ?_) fun _ _ h => h
  refine wp.bind (((along_storeEvidence.after h₄).and wp_storeEvidence)) (fun _ s₅ h₅ => ?_)
    fun _ _ h => h.1
  have hconsent : Consented K env id token s₀ login proof verified :=
    { hlogin with
      waiting := hnone
      accepted := ⟨client, net, hclient, hnet, hverified⟩
      unexpired := not_le.mp hexpired
      allowed := not_ne_iff.mp hfid }
  exact .completed h₅.1 account hconsent (hdb ▸ hnewer) h₅.2

/-- A Poll that returns has answered what it had answered, or that it waits, or has completed its
request. -/
theorem poll_turns {id token : Bytes} (hs : Routine s₀ s) (hdb : s.db = s₀.db)
    (hfound : s.pending.lookup id = s₀.found env id) :
    wp (poll K env id token (env.now .entry)) (Turn K env s₀ (.poll id token))
      (fun _ => Routine s₀) s := by
  unfold poll
  simp only [wp_bind, wp_read, wp_attempt, wp_check]
  refine ⟨fun client hclient => ⟨fun login hlogin => ⟨fun htoken => ?_, fun _ => hs⟩, fun _ _ => hs⟩,
    fun _ _ => hs⟩
  rw [hs.settings] at hclient
  have hpresented : Presented env id token s₀ login :=
    ⟨hfound.symm.trans (okOr_eq_ok.mp hlogin), htoken⟩
  cases hcompletion : login.completion with
  | some completion =>
      refine .routine hs fun id' token' haction => ?_
      obtain ⟨rfl, rfl⟩ := Action.poll.inj haction
      exact .inr ⟨login, hpresented, hcompletion⟩
  | none =>
      refine (wp_bind _ _).mpr (wp_check.mpr ⟨fun _ => ?_, fun _ => hs⟩)
      refine (wp_bind _ _).mpr ((wp_change _).mpr ?_)
      have htimed : Routine s { s with
          pending := modifyKey s.pending id fun login =>
            { login with lastPoll := env.now .entry } } :=
        .of_setLogin fun _ => ⟨rfl, rfl, rfl⟩
      refine wp.bind ((along_pollProof.after (hs.trans htimed)).and wp_pollProof) (fun proof s₁ h₁ => ?_)
        fun _ _ h => h.1
      cases proof with
      | none => exact .routine h₁.1 fun _ _ _ => .inl rfl
      | some proof =>
          rw [hs.settings]
          exact complete_turns h₁.1 (h₁.2.trans hdb) hclient hpresented hcompletion

/-! ## Other actions -/

/-- Listing passwords is routine. -/
theorem along_passwords {token : Bytes} : Along Routine (passwords K env token) := by
  unfold passwords
  apply along_granted.bind
  intro _
  apply along_query.bind
  intro _
  exact along_pure

/-- Making a password changes the database only. -/
theorem along_issue {token name : Bytes} : Along Routine (issue K env token name) := by
  unfold issue
  apply along_granted.bind
  intro _
  apply along_call.bind
  intro _
  apply along_query.bind
  intro _
  apply along_attempt.bind
  intro _
  exact along_pure

/-- So does revoking one. -/
theorem along_revoke {token name : Bytes} : Along Routine (revoke env token name) := by
  unfold revoke
  apply along_grant.bind
  intro _
  apply along_update.bind
  intro _
  exact along_pure

/-- A Login counts its call, which is routine, and changes the database. -/
theorem along_login {identifier password : Bytes} {now : Nat} :
    Along Routine (login K env identifier password now) := by
  unfold login
  apply along_read.bind
  intro core
  refine Along.bind (along_change fun _ => .of_frame rfl rfl rfl rfl) fun _ => ?_
  apply along_check.bind
  intro _
  apply along_query.bind
  intro _
  apply along_authority.bind
  intro _
  apply along_call.bind
  intro _
  exact along_pure

/-- Reading a session is routine. -/
theorem along_session {token : Bytes} : Along Routine (session K env token) := by
  unfold session readSession
  apply along_query.bind
  intro _
  apply along_authority.bind
  intro _
  exact along_pure

/-- So is reading preferences. -/
theorem along_preferences {token : Bytes} : Along Routine (preferences K env token) := by
  unfold preferences readSession
  apply along_query.bind
  intro _
  apply along_authority.bind
  intro _
  exact along_pure

/-- A Refresh changes the database only. -/
theorem along_refresh {token : Bytes} : Along Routine (refresh K env token) := by
  unfold refresh
  apply along_query.bind
  intro _
  apply along_authority.bind
  intro _
  apply along_call.bind
  intro _
  exact along_pure

/-- So does a Logout. -/
theorem along_logout {token : Bytes} : Along Routine (logout K env token) := by
  unfold logout
  apply along_update.bind
  intro _
  exact along_pure

/-- Describing the service changes nothing. -/
theorem along_describe : Along Routine (describe K) := by
  unfold describe
  apply along_read.bind
  intro core
  apply along_attempt.bind
  intro _
  exact along_pure

/-- So does reading its document. -/
theorem along_did : Along Routine (did K env) := along_query

/-! ## Executing -/

/-- Forgetting what has expired is routine. -/
theorem routine_expire {now : Nat} : Routine s { s with
    pending := s.pending.filter fun entry => now < entry.2.challenge.expiresAt
    grants := s.grants.filter fun entry => now < entry.2 } where
  settings := rfl
  pending _ login hmem := ⟨login, (List.mem_filter.mp hmem).1, rfl, rfl, rfl⟩
  grants := List.filter_sublist
  history := ⟨[], rfl, by simp⟩

/-- Every action takes its turn: it is routine where it stops, and where it returns its reply says
what it did. -/
theorem execute_turns (action : Action) :
    wp (execute K env action) (Turn K env s action) (fun _ => Routine s) s := by
  unfold execute expire
  simp only [wp_bind, wp_read, wp_check, wp_change]
  refine ⟨fun _ => ?_, fun _ => .refl s⟩
  cases action with
  | start => exact start_turns routine_expire
  | poll id token => exact poll_turns routine_expire rfl rfl
  | passwords token =>
      exact turns_of_along along_passwords routine_expire fun _ _ => Action.noConfusion
  | issue token name =>
      exact turns_of_along along_issue routine_expire fun _ _ => Action.noConfusion
  | revoke token name =>
      exact turns_of_along along_revoke routine_expire fun _ _ => Action.noConfusion
  | login identifier password =>
      exact turns_of_along along_login routine_expire fun _ _ => Action.noConfusion
  | session token => exact turns_of_along along_session routine_expire fun _ _ => Action.noConfusion
  | refresh token => exact turns_of_along along_refresh routine_expire fun _ _ => Action.noConfusion
  | logout token => exact turns_of_along along_logout routine_expire fun _ _ => Action.noConfusion
  | describe => exact turns_of_along along_describe routine_expire fun _ _ => Action.noConfusion
  | did => exact turns_of_along along_did routine_expire fun _ _ => Action.noConfusion
  | preferences token =>
      exact turns_of_along along_preferences routine_expire fun _ _ => Action.noConfusion

/-! ## One event -/

/-- The requests of a node. -/
def Process.pending : Process → List (Bytes × Login)
  | .stopped _ _ => []
  | .running core => core.pending

/-- The grants of a node. -/
def Process.grants : Process → List (Bytes × Nat)
  | .stopped _ _ => []
  | .running core => core.grants

/-- The history of a node. -/
def Process.history : Process → List Deed
  | .stopped _ history => history
  | .running core => core.history

/-- No request is new or completed, nothing is granted, and what is recorded as verified is
punctual. -/
structure Fewer (p p' : Process) : Prop where
  pending : ∀ id login', (id, login') ∈ p'.pending →
    ∃ login, (id, login) ∈ p.pending ∧ login.Same login'
  grants : p'.grants.Sublist p.grants
  history : ∃ newer, p'.history = newer ++ p.history ∧ ∀ deed ∈ newer, deed.Punctual

/-- A node that has no requests and no grants has no new ones. -/
theorem fewer_of_nil {p p' : Process} (hpending : p'.pending = []) (hgrants : p'.grants = [])
    (hhistory : ∃ newer, p'.history = newer ++ p.history ∧ ∀ deed ∈ newer, deed.Punctual) :
    Fewer p p' where
  pending id login' h := by
    rw [hpending] at h
    cases h
  grants := by
    rw [hgrants]
    exact List.nil_sublist _
  history := hhistory

/-- A node whose history is the same. -/
theorem history_same {p p' : Process} (h : p'.history = p.history) :
    ∃ newer, p'.history = newer ++ p.history ∧ ∀ deed ∈ newer, deed.Punctual :=
  ⟨[], h, fun _ hdeed => absurd hdeed List.not_mem_nil⟩

/-- A routine change makes no request and no grant. -/
theorem Routine.fewer {core core' : Core} (h : Routine core core') :
    Fewer (.running core) (.running core') := ⟨h.pending, h.grants, h.history⟩

/-- An event is an action that returns and takes its turn, or there is no more afterwards. -/
inductive Happened (K : Crates) (p : Process) : Event → Process × Reply → Prop where
  | turn {core core' : Core} {action : Action} {env : Env} {value : Json} (running : p = .running core)
      (turn : Turn K env core action value core') :
      Happened K p (.action action env) (.running core', .ok value)
  | fewer {event : Event} {p' : Process} {reply : Reply} (fewer : Fewer p p')
      (other : ∀ value, reply ≠ .ok value) : Happened K p event (p', reply)

/-- An action that returns takes its turn. One that fails, is given up or meets the end of the
process was routine until then. -/
theorem happened_action (core : Core) (action : Action) (env : Env) :
    Happened K (.running core) (.action action env) (executeNode K core action env) := by
  have hturns := @execute_turns K env core action
  unfold wp at hturns
  unfold executeNode
  match hx : execute K env action core with
  | (.ok value, core') =>
      rw [hx] at hturns
      exact .turn rfl hturns
  | (.error (.failed failure), core') =>
      rw [hx] at hturns
      exact .fewer hturns.fewer fun _ => Reply.noConfusion
  | (.error .timedOut, core') =>
      rw [hx] at hturns
      exact .fewer hturns.fewer fun _ => Reply.noConfusion
  | (.error .stopped, core') =>
      rw [hx] at hturns
      exact .fewer (fewer_of_nil rfl rfl hturns.history) fun _ => Reply.noConfusion

section

variable {core core' : Core} {action : Action} {reply : Reply}

/-- After an action only a Start has made a request. -/
theorem pending_executeNode (h : executeNode K core action env = (.running core', reply))
    {id : Bytes}
    {login' : Login} (hmem : (id, login') ∈ core'.pending) :
    (∃ login, (id, login) ∈ core.pending ∧ login'.challenge = login.challenge) ∨
    action = .start := by
  have hhappened := @happened_action K core action env
  rw [h] at hhappened
  cases hhappened with
  | turn running turn =>
      obtain rfl := Process.running.inj running
      cases turn with
      | routine change answer =>
          obtain ⟨login, hmem, hsame⟩ := change.pending id login' hmem
          exact .inl ⟨login, hmem, hsame.challenge⟩
      | started change channel authUrl qr => exact .inr rfl
      | completed change account consent newer stored =>
          simp only at hmem
          obtain ⟨login₁, hmem₁, hlogin'⟩ := mem_modifyKey hmem
          obtain ⟨login, hmem, hsame⟩ := change.pending id login₁ hmem₁
          refine .inl ⟨login, hmem, ?_⟩
          rw [hlogin', ← hsame.challenge]
          split_ifs <;> rfl
  | fewer fewer other =>
      obtain ⟨login, hmem, hsame⟩ := fewer.pending id login' hmem
      exact .inl ⟨login, hmem, hsame.challenge⟩

/-- After an action only a Poll has made a grant. -/
theorem grants_executeNode (h : executeNode K core action env = (.running core', reply))
    {grant : Bytes × Nat} (hmem : grant ∈ core'.grants) :
    grant ∈ core.grants ∨ ∃ id token, action = .poll id token := by
  have hhappened := @happened_action K core action env
  rw [h] at hhappened
  cases hhappened with
  | turn running turn =>
      obtain rfl := Process.running.inj running
      cases turn with
      | routine change answer => exact .inl (change.grants.subset hmem)
      | started change channel authUrl qr => exact .inl (change.grants.subset hmem)
      | completed change account consent newer stored => exact .inr ⟨_, _, rfl⟩
  | fewer fewer other => exact .inl (fewer.grants.subset hmem)

end

/-- A node that is opened has no requests, no grants and its old history, and its answer is no
value. -/
theorem openNode_empty (db : Db) (history : List Deed) (settings : Settings) (random : Random)
    (io reload : Faults) :
    let opened := openNode K db history settings random io reload
    opened.1.pending = [] ∧ opened.1.grants = [] ∧ opened.1.history = history ∧
      ∀ value, opened.2 ≠ .ok value := by
  intro opened
  have hstopped : ∀ db' : Db, (Process.stopped db' history).pending = [] ∧
      (Process.stopped db' history).grants = [] ∧ (Process.stopped db' history).history = history ∧
      ∀ value, Reply.refused ≠ .ok value :=
    fun _ => ⟨rfl, rfl, rfl, fun _ => Reply.noConfusion⟩
  unfold opened openNode
  split
  · exact hstopped db
  · split
    · exact hstopped db
    · split
      · split_ifs
        · exact ⟨rfl, rfl, rfl, fun _ => Reply.noConfusion⟩
        · exact hstopped _
      · exact hstopped _

/-- Every event is an action that takes its turn, or leaves no more than there was. -/
theorem happened (p : Process) (event : Event) : Happened K p event (p.step K event) := by
  have hsame : Fewer p p := ⟨fun _ login h => ⟨login, h, rfl, rfl, rfl⟩, .refl _, history_same rfl⟩
  cases p with
  | stopped db history =>
      cases event with
      | opening settings random io reload =>
          obtain ⟨hpending, hgrants, hhistory, hreply⟩ :=
            openNode_empty db history settings random io reload
          exact .fewer (fewer_of_nil hpending hgrants (history_same hhistory)) hreply
      | action action env => exact .fewer hsame fun _ => Reply.noConfusion
      | configure settings io saved => exact .fewer hsame fun _ => Reply.noConfusion
      | stop => exact .fewer hsame fun _ => Reply.noConfusion
  | running core =>
      cases event with
      | opening settings random io reload => exact .fewer hsame fun _ => Reply.noConfusion
      | action action env => exact happened_action core action env
      | configure settings io saved =>
          show Happened K _ _ (if core.checkSettings K settings io then
            (Process.running (if saved then core.apply settings else core), Reply.configured)
            else (Process.running core, Reply.refused))
          split_ifs with hcheck hsaved
          · refine .fewer ?_ fun _ => Reply.noConfusion
            unfold Core.apply
            split_ifs
            · exact hsame
            · exact fewer_of_nil rfl rfl (history_same rfl)
          · exact .fewer hsame fun _ => Reply.noConfusion
          · exact .fewer hsame fun _ => Reply.noConfusion
      | stop => exact .fewer (fewer_of_nil rfl rfl (history_same rfl)) fun _ => Reply.noConfusion

end PurpleSky.Node
