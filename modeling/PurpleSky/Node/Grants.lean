import PurpleSky.Credentials.Live
import PurpleSky.Node.Routine
import PurpleSky.Node.Evidence

/-!
# Grants belong to the authority in force

A grant is made by a Poll that completes a sign-in, in memory. The authority of the account is in the
store. Nothing refers from one to the other: that a grant does not outlive the authority it was made
for is a matter of every place that changes either.

* `Carries`: what every part of an action keeps, wherever it stops.
* **`grants_authorized`**: every grant was made by a completed sign-in, whose authority has been in
  force since.
-/

namespace PurpleSky.Node

open Bytes Credentials Farcaster Procedure

variable {K : Crates} {env : Env}

/-! ## What is carried along -/

/-- The authority in force, if there is one. -/
abbrev Core.inForce (K : Crates) (s : Core) : Option Bytes := liveAuthority K.credentials s.db

/-- The account is genuine, and there are no grants without an authority in force. -/
structure Founded (K : Crates) (s : Core) : Prop where
  stored : Stored K.credentials s.db
  alive : s.grants ≠ [] → s.inForce K ≠ none

/-- Where there is a grant it was there before, and the authority has not changed. -/
def Carries (K : Crates) (s s' : Core) : Prop :=
  Founded K s → Stored K.credentials s'.db ∧
    ∀ grant ∈ s'.grants, grant ∈ s.grants ∧ s'.inForce K = s.inForce K

variable {s s' s'' s₀ : Core}

/-- What is carried along stays founded: a grant that is there was there before, with the authority
in force then. -/
theorem Carries.founded (h : Carries K s s') (hs : Founded K s) : Founded K s' := by
  obtain ⟨hstored, hgrants⟩ := h hs
  refine ⟨hstored, fun hne => ?_⟩
  obtain ⟨grant, hgrant⟩ := List.exists_mem_of_ne_nil _ hne
  obtain ⟨hmem, hsame⟩ := hgrants grant hgrant
  rw [hsame]
  exact hs.alive (List.ne_nil_of_mem hmem)

/-- A core carries itself. -/
theorem Carries.refl (s : Core) : Carries K s s := fun hs => ⟨hs.stored, fun _ h => ⟨h, rfl⟩⟩

/-- What is carried twice is carried, by the authority in between. -/
theorem Carries.trans (h : Carries K s s') (h' : Carries K s' s'') : Carries K s s'' := by
  intro hs
  obtain ⟨hstored, hgrants'⟩ := h' (h.founded hs)
  refine ⟨hstored, fun grant hgrant => ?_⟩
  obtain ⟨hmem', hsame'⟩ := hgrants' grant hgrant
  obtain ⟨hmem, hsame⟩ := (h hs).2 grant hmem'
  exact ⟨hmem, hsame'.trans hsame⟩

/-- For the rules of procedures. -/
instance : Std.Refl (Carries K) := ⟨Carries.refl⟩

/-- For the rules of sequences. -/
instance : IsTrans Core (Carries K) := ⟨fun _ _ _ => Carries.trans⟩

/-- The account stays, and nothing is granted. -/
theorem Carries.of_account (haccount : s'.db.account = s.db.account)
    (hgrants : s'.grants ⊆ s.grants) : Carries K s s' :=
  fun hs => ⟨hs.stored.of_account_eq haccount,
    fun _ h => ⟨hgrants h, liveAuthority_of_account_eq haccount⟩⟩

/-- A binding changes the authority only where none is in force, and there is no grant then. -/
theorem Carries.bound (hK : K.json.Lawful) {io : Faults} {fid : Nat} {authority : Bytes}
    {identity : Identity} {now : Time} {random : Random} {a : Account} {db : Db}
    (h : Store.bindVerified K.credentials io s.db fid authority identity now random = .ok (a, db)) :
    Carries K s { s with db := db } ∧
      (Founded K s → Core.inForce K { s with db := db } = some authority) := by
  have hboth : Founded K s → Stored K.credentials db ∧
      liveAuthority K.credentials db = some authority ∧
        (s.grants ≠ [] → s.inForce K = some authority) := by
    intro hs
    obtain ⟨-, henabled, -, hauthority, -⟩ := Store.bindVerified_eq_ok h
    have hforce : ∀ {key : Bytes}, Bound K.credentials db a key →
        liveAuthority K.credentials db = some authority := fun hbound => by
      rw [hbound.liveAuthority_eq hK, henabled, if_pos rfl, hauthority]
    rcases hs.stored with hnone | ⟨b, key, hb⟩
    · obtain ⟨-, hbound, -⟩ := bindVerified_of_none h hnone (lt_trans now.isLt (by decide)) random.2
      refine ⟨.inr ⟨_, _, hbound⟩, hforce hbound, fun hne => absurd ?_ (hs.alive hne)⟩
      simp [liveAuthority, hnone]
    · obtain ⟨hbound, -, hsame, -⟩ := bindVerified_of_bound hK hb h
      refine ⟨.inr ⟨_, _, hbound⟩, hforce hbound, fun hne => ?_⟩
      have halive := hs.alive hne
      rw [Core.inForce, hb.liveAuthority_eq hK] at halive ⊢
      by_cases hen : b.enabled = true
      · rw [if_pos hen, hsame hen]
      · rw [if_neg hen] at halive
        exact absurd rfl halive
  refine ⟨fun hs => ⟨(hboth hs).1, fun grant hgrant => ⟨hgrant, ?_⟩⟩, fun hs => (hboth hs).2.1⟩
  exact (hboth hs).2.1.trans ((hboth hs).2.2 (List.ne_nil_of_mem hgrant)).symm

/-! ## Parts of the actions -/

section

variable {α : Type}

/-- Waiting changes nothing. -/
theorem carries_await {net : Option Net} {f : Net → Except AuthError α} :
    Along (Carries K) (await net f) :=
  fun s => wp_await.mpr ⟨fun _ => .refl s, fun _ _ => .refl s⟩

/-- Neither does reading the store. -/
theorem carries_query {io : Option Faults} {f : Faults → Bytes → Db → Except Error α} :
    Along (Carries K) (query io f) :=
  fun s => wp_query.mpr ⟨fun _ => .refl s, fun _ _ => ⟨fun _ _ => .refl s, fun _ _ => .refl s⟩⟩

/-- A call that leaves the account alone. -/
theorem carries_call {io : Option Faults} {f : Faults → Bytes → Db → Except Error (α × Db)}
    (h : ∀ faults key db a db', f faults key db = .ok (a, db') → db'.account = db.account) :
    Along (Carries K) (call io f) := by
  intro s
  refine wp_call.mpr ⟨fun _ => .refl s, fun faults _ => ⟨fun a db hf => ?_, fun _ _ => .refl s⟩⟩
  exact .of_account (h faults _ _ a db hf) (List.Subset.refl _)

/-- A write that leaves the account alone. -/
theorem carries_update {io : Option Faults} {f : Faults → Bytes → Db → Except Error Db}
    (h : ∀ faults key db db', f faults key db = .ok db' → db'.account = db.account) :
    Along (Carries K) (update io f) := by
  intro s
  refine wp_update.mpr ⟨fun _ => .refl s, fun faults _ => ⟨fun db hf => ?_, fun _ _ => .refl s⟩⟩
  exact .of_account (h faults _ _ db hf) (List.Subset.refl _)

end

/-- The history has no part in it. -/
theorem carries_note {deed : Deed} : Along (Carries K) (note deed) :=
  along_change fun _ => .of_account rfl (List.Subset.refl _)

/-- Storing evidence leaves the account alone. -/
theorem carries_storeEvidence {evidence : Evidence} :
    Along (Carries K) (storeEvidence K env evidence) := by
  unfold storeEvidence
  refine Along.bind (carries_update fun faults key db db' hdb => ?_) fun _ => carries_note
  obtain ⟨-, -, -, rfl⟩ := Store.setEvidence_eq_ok hdb
  rfl

/-- Recording a check is in memory only. -/
theorem carries_recordCheck {identity : VerifiedIdentity} {time : Nat} :
    Along (Carries K) (recordCheck identity time) :=
  Along.bind carries_note fun _ => along_change fun _ => .of_account rfl (List.Subset.refl _)

/-- An invalidation takes all grants with the authority. -/
theorem carries_invalidate (hK : K.json.Lawful) : Along (Carries K) (invalidate K env) := by
  intro s
  unfold invalidate
  simp only [wp_bind, wp_note, wp_update, wp_change]
  have hsame : Carries K s { s with history := .invalidating :: s.history } :=
    .of_account rfl (List.Subset.refl _)
  refine ⟨fun _ => hsame, fun faults _ => ⟨fun db hdb hs => ⟨?_, by simp⟩, fun _ _ => hsame⟩⟩
  have hrun : Call.run K.credentials faults [] s.db .invalidateAuthority = .ok ⟨.done, db, none⟩ :=
    bind_eq_ok.mpr ⟨db, hdb, rfl⟩
  exact (Call.account_change hK hs.stored rfl hrun).stored hs.stored

/-- A check leaves the account and the grants, or invalidates and takes all of them. -/
theorem carries_authority (hK : K.json.Lawful) : Along (Carries K) (authority K env) := by
  unfold authority
  apply along_read.bind
  intro core
  refine Along.bind along_require fun _ => ?_
  apply along_ite along_pure
  apply carries_query.bind
  intro account
  refine Along.bind along_lift fun account => Along.bind along_require fun _ => ?_
  apply carries_query.bind
  intro raw
  refine Along.bind along_lift fun raw => Along.bind along_lift fun evidence => ?_
  refine Along.bind along_require fun _ => Along.bind along_lift fun client => ?_
  apply carries_await.bind
  intro result
  cases result with
  | ok identity => exact carries_storeEvidence.bind fun _ => carries_recordCheck
  | error error =>
      refine Along.bind (along_change fun _ => .of_account rfl (List.Subset.refl _)) fun _ => ?_
      exact along_ite ((carries_invalidate hK).bind fun _ => along_stop) along_stop

/-- Looking for a grant changes nothing. -/
theorem carries_grant {token : Bytes} {now : Nat} : Along (Carries K) (grant token now) := by
  unfold grant
  exact along_read.bind fun _ => along_require

/-- A check between two looks at the grant carries what a check does. -/
theorem carries_granted (hK : K.json.Lawful) {token : Bytes} :
    Along (Carries K) (granted K env token) := by
  unfold granted
  exact carries_grant.bind fun _ => (carries_authority hK).bind fun _ => carries_grant

/-- Reading a session changes nothing. -/
theorem carries_readSession {token : Bytes} : Along (Carries K) (readSession K env token) :=
  carries_query

/-- What an action does that completes no sign-in. -/
theorem carries_run (hK : K.json.Lawful) {now : Nat} (action : Action)
    (haction : ∀ id token, action ≠ .poll id token) : Along (Carries K) (action.run K env now) := by
  have hauthority : Along (Carries K) (authority K env) := carries_authority hK
  cases action with
  | start =>
      refine along_read.bind fun core => ?_
      refine Along.bind (along_change fun _ => .of_account rfl (List.Subset.refl _)) fun _ => ?_
      refine Along.bind along_require fun _ => Along.bind along_require fun _ => ?_
      refine Along.bind along_lift fun client => carries_await.bind fun channel => ?_
      refine Along.bind along_lift fun channel => Along.bind along_lift fun qr => ?_
      refine Along.bind (along_change fun _ => .of_account rfl (List.Subset.refl _)) fun _ => ?_
      exact along_pure
  | poll id token => exact absurd rfl (haction id token)
  | passwords token =>
      exact (carries_granted hK).bind fun _ => carries_query.bind fun _ => along_pure
  | issue token name =>
      refine (carries_granted hK).bind fun _ => Along.bind (carries_call ?_) fun _ => ?_
      · exact fun faults key db a db' h => (issuePassword_frame h).1
      · exact carries_query.bind fun _ => Along.bind along_lift fun _ => along_pure
  | revoke token name =>
      refine carries_grant.bind fun _ => Along.bind (carries_update fun faults key db db' h => ?_)
        fun _ => along_pure
      obtain rfl := Store.revokePassword_eq_ok h
      rfl
  | login identifier password =>
      refine along_read.bind fun core => ?_
      refine Along.bind (along_change fun _ => .of_account rfl (List.Subset.refl _)) fun _ => ?_
      refine Along.bind along_require fun _ => carries_query.bind fun _ => hauthority.bind fun _ => ?_
      refine Along.bind (carries_call fun faults key db a db' h => ?_) fun _ => along_pure
      exact (authenticate_frame h).1
  | session token => exact carries_readSession.bind fun _ => hauthority.bind fun _ => along_pure
  | refresh token =>
      refine carries_query.bind fun _ => hauthority.bind fun _ => ?_
      refine Along.bind (carries_call fun faults key db a db' h => ?_) fun _ => along_pure
      exact (refreshSession_frame h).1
  | logout token =>
      refine Along.bind (carries_update fun faults key db db' h => ?_) fun _ => along_pure
      obtain ⟨_, _, -, rfl⟩ := Store.deleteSession_eq_ok h
      rfl
  | describe => exact along_read.bind fun _ => Along.bind along_lift fun _ => along_pure
  | did => exact carries_query (f := fun io _ db => Store.storeDidDocument K.credentials io db)
  | preferences token => exact carries_readSession.bind fun _ => hauthority.bind fun _ => along_pure

/-! ## Completing a sign-in -/

/-- What a sign-in grants. -/
def grantOf (env : Env) : Bytes × Nat :=
  (hash (randomToken (env.random .account)), env.now .entry + grantTtl)

/-- A sign-in was completed: its proof was accepted, the authority of its identity is in force, and
it made its grant and answered with its token. -/
structure Completed (K : Crates) (env : Env) (id token : Bytes) (s s' : Core) (value : Json)
    (verified : VerifiedIdentity) : Prop where
  consent : ∃ login proof, Consented K env id token s login proof verified
  answer : ∃ account, value = completionJson (randomToken (env.random .account)) account
    (env.now .entry + grantTtl)
  carries : ∃ s₁, Carries K s s₁ ∧ (Founded K s → s₁.inForce K = some (fingerprint verified)) ∧
    s'.db = s₁.db ∧ s'.grants ⊆ grantOf env :: s₁.grants

/-- Another authority goes with all its grants. -/
theorem carries_replaceAuthority (hK : K.json.Lawful) {authority : Bytes} :
    Along (Carries K) (replaceAuthority K env authority) := by
  unfold replaceAuthority
  refine carries_query.bind fun account => ?_
  cases account with
  | none => exact along_pure
  | some account => exact along_ite (carries_invalidate hK) along_pure

/-- Comparing blocks changes nothing. -/
theorem carries_checkBlock {verified : VerifiedIdentity} :
    Along (Carries K) (checkBlock K env verified) := by
  unfold checkBlock
  refine carries_query.bind fun raw => ?_
  cases raw with
  | none => exact along_pure
  | some raw => exact Along.bind along_lift fun _ => along_require

/-- Asking for a proof changes the requests only. -/
theorem carries_pollProof {client : AuthClient} {id : Bytes} {pending : Login} :
    Along (Carries K) (pollProof K env client id pending) := by
  unfold pollProof
  split
  · exact along_pure
  · refine carries_await.bind fun status => Along.bind along_lift fun status => ?_
    cases status with
    | pending => exact along_pure
    | completed proof =>
        refine Along.bind (along_change fun _ => .of_account rfl (List.Subset.refl _)) fun _ => ?_
        exact along_pure

/-- So does forgetting one. -/
theorem carries_removeLogin {id : Bytes} : Along (Carries K) (removeLogin id) :=
  along_change fun _ => .of_account rfl (List.Subset.refl _)

/-- A binding leaves its authority in force. -/
theorem wp_bind_verified (hK : K.json.Lawful) {settings : Settings} {verified : VerifiedIdentity}
    {proof : SignedProof} (hs : Carries K s₀ s) :
    wp (Node.bind K env settings verified proof)
      (fun _ s' => Carries K s₀ s' ∧
        (Founded K s₀ → s'.inForce K = some (fingerprint verified)))
      (fun _ => Carries K s₀) s := by
  unfold Node.bind
  refine wp.bind ((carries_replaceAuthority hK).after hs) (fun _ s₁ h₁ => ?_) fun _ _ h => h
  refine wp.bind (along_lift.after h₁) (fun identity s₂ h₂ => ?_) fun _ _ h => h
  refine (wp_bind _ _).mpr (wp_call.mpr ⟨fun _ => h₂, fun faults _ => ⟨fun a db hdb => ?_,
    fun _ _ => h₂⟩⟩)
  obtain ⟨hcarries, hforce⟩ := Carries.bound hK hdb
  have h₃ : Carries K s₀ { s₂ with db := db } := h₂.trans hcarries
  unfold storeEvidence recordCheck
  simp only [wp_bind, wp_update, wp_note, wp_change, wp_pure]
  refine ⟨fun _ => h₃, fun faults _ => ⟨fun db' hdb' => ?_, fun _ _ => h₃⟩⟩
  obtain ⟨-, -, -, rfl⟩ := Store.setEvidence_eq_ok hdb'
  exact ⟨h₃.trans (.of_account rfl (List.Subset.refl _)), fun hs₀ => hforce (h₂.founded hs₀)⟩

/-- Completing a sign-in makes its grant after the authority of its identity was bound. Where it
fails before, grants are carried along. -/
theorem wp_complete (hK : K.json.Lawful) {client : AuthClient} {id token : Bytes} {login : Login}
    {proof : SignedProof} (hs : Carries K s₀ s)
    (hclient : Core.client K s₀.settings = .ok client)
    (hlogin : Presented env id token s₀ login) (hnone : login.completion = none) :
    wp (complete K env s₀.settings client id login proof (env.now .entry))
      (fun value s' => ∃ verified, Completed K env id token s₀ s' value verified)
      (fun _ => Carries K s₀) s := by
  unfold complete
  refine (wp_bind _ _).mpr (wp_await.mpr ⟨fun _ => hs, fun net hnet => ?_⟩)
  refine (wp_bind _ _).mpr (wp_attempt.mpr ⟨fun verified hverified => ?_, fun _ _ => hs⟩)
  have hverified := Store.mapError_eq_ok.mp hverified
  split_ifs with hexpired hfid
  · exact (wp_bind _ _).mpr (carries_removeLogin.after hs)
  · exact (wp_bind _ _).mpr (carries_removeLogin.after hs)
  refine wp.bind (carries_checkBlock.after hs) (fun _ s₁ h₁ => ?_) fun _ _ h => h
  refine wp.bind (wp_bind_verified hK h₁) (fun account s₂ h₂ => ?_) fun _ _ h => h
  have hconsent : Consented K env id token s₀ login proof verified :=
    { hlogin with
      waiting := hnone
      accepted := ⟨client, net, hclient, hnet, hverified⟩
      unexpired := not_le.mp hexpired
      allowed := not_ne_iff.mp hfid }
  refine ⟨verified, ⟨login, proof, hconsent⟩, ⟨account, rfl⟩, s₂, h₂.1, h₂.2, rfl, ?_⟩
  exact List.cons_subset_cons _ List.filter_sublist.subset

/-- A Poll completes a sign-in, or carries grants along. -/
theorem wp_poll (hK : K.json.Lawful) {id token : Bytes} (hs : Carries K s₀ s)
    (hsettings : s.settings = s₀.settings) (hfound : s.pending.lookup id = s₀.found env id) :
    wp (poll K env id token (env.now .entry))
      (fun value s' => Carries K s₀ s' ∨
        ∃ verified, Completed K env id token s₀ s' value verified)
      (fun _ => Carries K s₀) s := by
  unfold poll
  simp only [wp_bind, wp_read, wp_attempt, wp_check]
  refine ⟨fun client hclient => ⟨fun login hlogin => ⟨fun htoken => ?_, fun _ => hs⟩, fun _ _ => hs⟩,
    fun _ _ => hs⟩
  have hpresented : Presented env id token s₀ login :=
    ⟨hfound.symm.trans (okOr_eq_ok.mp hlogin), htoken⟩
  cases hcompletion : login.completion with
  | some completion => exact .inl hs
  | none =>
      refine (wp_bind _ _).mpr (wp_check.mpr ⟨fun _ => ?_, fun _ => hs⟩)
      refine (wp_bind _ _).mpr ((wp_change _).mpr ?_)
      have htimed : Carries K s { s with
          pending := modifyKey s.pending id fun login =>
            { login with lastPoll := env.now .entry } } := .of_account rfl (List.Subset.refl _)
      refine wp.bind (carries_pollProof.after (hs.trans htimed)) (fun proof s₁ h₁ => ?_)
        fun _ _ h => h
      cases proof with
      | none => exact .inl h₁
      | some proof =>
          rw [hsettings] at hclient ⊢
          exact (wp_complete hK h₁ hclient hpresented hcompletion).mono (fun _ _ h => .inr h)
            fun _ _ h => h

/-- What an action leaves: grants with their authority, and the grant of a sign-in that it
completes. -/
theorem wp_execute_grants (hK : K.json.Lawful) (action : Action) :
    wp (execute K env action)
      (fun value s' => Carries K s s' ∨ ∃ id token verified, action = .poll id token ∧
        Completed K env id token s s' value verified)
      (fun _ => Carries K s) s := by
  unfold execute expire
  simp only [wp_bind, wp_read, wp_check, wp_change]
  refine ⟨fun _ => ?_, fun _ => .refl s⟩
  have hexpire : Carries K s { s with
      pending := s.pending.filter fun entry => (env.now .entry : Nat) < entry.2.challenge.expiresAt
      grants := s.grants.filter fun entry => (env.now .entry : Nat) < entry.2 } :=
    .of_account rfl List.filter_sublist.subset
  by_cases hpoll : ∃ id token, action = .poll id token
  · obtain ⟨id, token, rfl⟩ := hpoll
    refine (wp_poll hK hexpire rfl rfl).mono (fun _ s' h => ?_) fun _ _ h => h
    rcases h with hcarries | ⟨verified, hcompleted⟩
    · exact .inl hcarries
    · exact .inr ⟨id, token, verified, rfl, hcompleted⟩
  · have hother : ∀ id token, action ≠ .poll id token :=
      fun id token h => hpoll ⟨id, token, h⟩
    exact ((carries_run hK action hother).after hexpire).mono (fun _ _ h => .inl h) fun _ _ h => h

/-! ## Events -/

/-- The authority in force on a node. -/
abbrev Process.inForce (K : Crates) (p : Process) : Option Bytes :=
  liveAuthority K.credentials p.db

/-- The account of a node is genuine, and it has no grants without an authority in force. -/
abbrev Process.Founded (K : Crates) : Process → Prop :=
  Holds (fun db _ => Stored K.credentials db) (Node.Founded K)

/-- A Poll completes a sign-in with an identity, makes a grant, and answers with its token. -/
inductive Authorizes (K : Crates) (x : Machine.Entry Process Event Reply) (grant : Bytes × Nat)
    (verified : VerifiedIdentity) : Prop where
  | intro (core : Core) (env : Env) (id token : Bytes) (login : Login) (proof : SignedProof)
      (account : Account) (before : x.before = .running core)
      (event : x.event = .action (.poll id token) env)
      (consent : Consented K env id token core login proof verified) (made : grant = grantOf env)
      (reply : x.reply = .ok (completionJson (randomToken (env.random .account)) account
        (env.now .entry + grantTtl)))

/-- What an event does to grants: a grant was there under the same authority, or a sign-in is
completed under the authority of its identity. -/
structure Authorized (K : Crates) (x : Machine.Entry Process Event Reply) : Prop where
  founded : x.after.Founded K
  grants : ∀ grant ∈ x.after.grants,
    (grant ∈ x.before.grants ∧ x.after.inForce K = x.before.inForce K) ∨
      ∃ verified, Authorizes K x grant verified ∧
        x.after.inForce K = some (fingerprint verified)

/-- A node without grants. -/
theorem authorized_of_nil {x : Machine.Entry Process Event Reply} (hfounded : x.after.Founded K)
    (hnone : x.after.grants = []) : Authorized K x := by
  refine ⟨hfounded, fun grant hgrant => ?_⟩
  rw [hnone] at hgrant
  cases hgrant

/-- Carrying grants along is authorized, since no grant is new. -/
theorem authorized_of_carries {core core' : Core} {e : Event} {reply : Reply}
    (hs : Node.Founded K core) (h : Carries K core core') :
    Authorized K ⟨.running core, e, reply, .running core'⟩ :=
  ⟨h.founded hs, fun grant hgrant => .inl ((h hs).2 grant hgrant)⟩

/-- So is completing a sign-in, whose grant is the only new one. -/
theorem authorized_of_completed {core core' : Core} {id token : Bytes} {value : Json}
    {verified : VerifiedIdentity} (hs : Node.Founded K core)
    (h : Completed K env id token core core' value verified) :
    Authorized K ⟨.running core, .action (.poll id token) env, .ok value, .running core'⟩ := by
  obtain ⟨⟨login, proof, hconsent⟩, ⟨account, rfl⟩, s₁, hcarries, hforce, hdb, hgrants⟩ := h
  have hauthority : core'.inForce K = some (fingerprint verified) := by
    rw [Core.inForce, hdb]
    exact hforce hs
  have hstored : Stored K.credentials core'.db := hdb ▸ (hcarries hs).1
  refine ⟨⟨hstored, fun _ => by simp [hauthority]⟩, fun grant hgrant => ?_⟩
  rcases List.mem_cons.mp (hgrants hgrant) with rfl | hold
  · exact .inr ⟨verified, .intro core env id token login proof account rfl rfl hconsent rfl rfl,
      hauthority⟩
  · obtain ⟨hmem, hsame⟩ := (hcarries hs).2 grant hold
    refine .inl ⟨hmem, Eq.trans ?_ hsame⟩
    exact congrArg (liveAuthority K.credentials) hdb

/-- An action completes a sign-in or carries grants along, wherever it ends. The end of the process
takes them all. -/
theorem authorized_action (hK : K.json.Lawful) {core : Core} (hs : Node.Founded K core)
    (action : Action) (env : Env) :
    Authorized K ⟨.running core, .action action env, (executeNode K core action env).2,
      (executeNode K core action env).1⟩ := by
  have hwp : wp (execute K env action)
      (fun value s' => Carries K core s' ∨ ∃ id token verified, action = .poll id token ∧
        Completed K env id token core s' value verified)
      (fun _ => Carries K core) core :=
    wp_execute_grants hK action
  unfold wp at hwp
  unfold executeNode
  generalize execute K env action core = r at hwp
  obtain ⟨result, core'⟩ := r
  cases result with
  | ok value =>
      rcases hwp with hcarries | ⟨id, token, verified, rfl, hcompleted⟩
      · exact authorized_of_carries hs hcarries
      · exact authorized_of_completed hs hcompleted
  | error halt =>
      cases halt with
      | failed failure => exact authorized_of_carries hs hwp
      | timedOut => exact authorized_of_carries hs hwp
      | stopped => exact authorized_of_nil (hwp hs).1 rfl

/-- A node that is opened has no grants. -/
theorem authorized_opening {db : Db} {history : List Deed} (hs : Stored K.credentials db)
    (settings : Settings) (random : Random) (io reload : Faults) :
    let opened := openNode K db history settings random io reload
    Authorized K ⟨.stopped db history, .opening settings random io reload, opened.2, opened.1⟩ := by
  intro opened
  refine authorized_of_nil ?_ (openNode_empty db history settings random io reload).2.1
  rcases @openNode_cases K db history settings random io reload with
    h | ⟨key, db', hopen, h | ⟨account, -, -, -, h⟩⟩
  · show opened.1.Founded K
    rw [h]
    exact hs
  all_goals
    obtain ⟨-, -, haccount, -⟩ := Store.openKey_eq_ok hopen
    show opened.1.Founded K
    rw [h]
  · exact hs.of_account_eq haccount
  · exact ⟨hs.of_account_eq haccount, fun hne => absurd rfl hne⟩

/-- Every event is authorized. -/
theorem authorized_step (hK : K.json.Lawful) {p : Process} (hp : p.Founded K) (e : Event) :
    Authorized K ((nodes K).entry p e) := by
  have hsame : ∀ reply, Authorized K ⟨p, e, reply, p⟩ :=
    fun reply => ⟨hp, fun grant hgrant => .inl ⟨hgrant, rfl⟩⟩
  cases p with
  | stopped db history =>
      cases e with
      | opening settings random io reload => exact authorized_opening hp settings random io reload
      | action action env => exact hsame _
      | configure settings io saved => exact hsame _
      | stop => exact hsame _
  | running core =>
      cases e with
      | opening settings random io reload => exact hsame _
      | action action env => exact authorized_action hK hp action env
      | configure settings io saved =>
          have happly : Carries K core (core.apply settings) := by
            unfold Core.apply
            split_ifs
            · exact .refl core
            · exact .of_account rfl (List.nil_subset _)
          show Authorized K ⟨_, _, _, (if core.checkSettings K settings io then
            (Process.running (if saved then core.apply settings else core), Reply.configured)
            else (Process.running core, Reply.refused)).1⟩
          split_ifs
          · exact authorized_of_carries hp happly
          · exact hsame _
          · exact hsame _
      | stop => exact authorized_of_nil hp.stored rfl

/-- **Grants belong to the authority in force.** In every run of a node, whatever fails and wherever
its process ends: every grant there is was made by a Poll that completed a sign-in, which answered
with its token; and from then on the grant has been there and the authority of the identity that
signed in has been in force. -/
theorem grants_authorized (hK : K.json.Lawful) (es : List Event) {grant : Bytes × Nat}
    (hgrant : grant ∈ ((nodes K).final .init es).grants) :
    ∃ verified pre x post, (nodes K).trace .init es = pre ++ x :: post ∧
      Authorizes K x grant verified ∧
      ((nodes K).final .init es).inForce K = some (fingerprint verified) ∧
      (grant ∈ x.after.grants ∧ x.after.inForce K = some (fingerprint verified)) ∧
      ∀ y ∈ post, (grant ∈ y.before.grants ∧ y.before.inForce K = some (fingerprint verified)) ∧
        grant ∈ y.after.grants ∧ y.after.inForce K = some (fingerprint verified) := by
  have hmeets : (nodes K).Meets (fun _ _ => True) .init es :=
    Machine.meets_iff.mpr fun _ _ => trivial
  have hkeeps : (nodes K).Keeps (fun _ _ => True) (Process.Founded K) (Process.Founded K) :=
    fun p e hp _ _ => (authorized_step hK hp e).founded
  have hfinal : ((nodes K).final .init es).Founded K := hmeets.invariant hkeeps (.inl rfl)
  have halive : ∃ authority, ((nodes K).final .init es).inForce K = some authority := by
    apply Option.ne_none_iff_exists'.mp
    cases hp : (nodes K).final .init es with
    | stopped db history =>
        rw [hp] at hgrant
        cases hgrant
    | running core =>
        rw [hp] at hgrant hfinal
        exact hfinal.alive (List.ne_nil_of_mem hgrant)
  obtain ⟨authority, hauthority⟩ := halive
  obtain ⟨pre, x, post, htrace, ⟨verified, hauthorizes, hforce⟩, hafter, hpost⟩ :=
    hmeets.origin hkeeps (.inl rfl)
      (R := fun grant p => grant ∈ p.grants ∧ p.inForce K = some authority)
      (N := fun x grant => ∃ verified, Authorizes K x grant verified ∧
        x.after.inForce K = some (fingerprint verified))
      (fun h => by cases h.1)
      (fun p e hp _ h => by
        rcases (authorized_step hK hp e).grants _ h.1 with ⟨hmem, hsame⟩ | hnew
        · exact .inl ⟨hmem, hsame.symm.trans h.2⟩
        · exact .inr hnew)
      ⟨hgrant, hauthority⟩
  obtain rfl : authority = fingerprint verified := Option.some.inj (hafter.2.symm.trans hforce)
  exact ⟨verified, pre, x, post, htrace, hauthorizes, hauthority, hafter, hpost⟩

/-- Another sign-in is started after the first one, and the passwords are listed with its grant when
the authority has to be checked again. -/
def sampleLater : List Event :=
  sampleSignIn ++ [.action .start (sampleEnv 1700000030 20 fun _ _ => .failed)]

/-- The passwords are listed with the grant a minute after the sign-in. -/
def sampleListed : Machine.Entry Process Event Reply :=
  (nodes sampleNode).entry ((nodes sampleNode).final .init sampleLater)
    (.action (.passwords (randomToken (sampleRandom 2 .account)))
      (sampleEnv 1700000060 2 (sampleProvider "0x101" "0x6553f100" 6)))

/-- The grant of the first sign-in. -/
def sampleGrant : Bytes × Nat :=
  grantOf (sampleEnv 1700000000 2 (sampleProvider "0x100" "0x6553f100" 6))

/-- The grant outlives the check. -/
theorem sampleListed_runs :
    sampleGrant ∈ ((nodes sampleNode).final .init (sampleLater ++ [sampleListed.event])).grants := by
  decide +kernel

/-- When the passwords are listed the grant of the sign-in is there, and the authority in force is
that of the identity that signed in. -/
theorem grants_authorized_sample : ∃ verified pre x post,
    (nodes sampleNode).trace .init (sampleLater ++ [sampleListed.event]) = pre ++ x :: post ∧
      Authorizes sampleNode x sampleGrant verified ∧ sampleListed ∈ post ∧
      sampleGrant ∈ sampleListed.after.grants ∧
      sampleListed.after.inForce sampleNode = some (fingerprint verified) := by
  obtain ⟨verified, pre, x, post, htrace, hauthorizes, -, -, hlater⟩ :=
    grants_authorized (K := sampleNode) Json.compact_lawful (sampleLater ++ [sampleListed.event])
      sampleListed_runs
  have hlast : (pre ++ x :: post).getLast? = some sampleListed := by
    rw [← htrace, Machine.trace_append]
    exact List.getLast?_concat
  have hmem : sampleListed ∈ x :: post := by
    rw [List.getLast?_append_cons] at hlast
    exact List.mem_of_getLast? hlast
  have hpost : sampleListed ∈ post := by
    rcases List.mem_cons.mp hmem with heq | hpost
    · -- the sign-in is a Poll, and the last action is none
      obtain ⟨core, env, id, token, login, proof, account, -, hevent, -⟩ := hauthorizes
      rw [← heq] at hevent
      cases hevent
    · exact hpost
  exact ⟨verified, pre, x, post, htrace, hauthorizes, hpost, (hlater _ hpost).2⟩

end PurpleSky.Node
