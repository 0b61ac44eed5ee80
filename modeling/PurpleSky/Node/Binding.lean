import PurpleSky.Credentials.Metadata
import PurpleSky.Node.Routine
import PurpleSky.Node.Evidence

/-!
# Settings that fit the bound account

An account is bound for the identifier and the identity of the settings, and new settings are
checked against it. So the settings of a node fit its account, wherever its actions stop, and where
a Poll comes to the call that binds, that call can only fail with the storage.

* `fitted_moves`: what the moves of an action keep.
* `execute_poll`: a Poll is what it does up to the call, and the call with the rest.
* **`throws_approach`**: how the call may fail.
-/

namespace PurpleSky.Node

open Bytes Credentials Farcaster PurpleSky.Procedure

variable {K : Crates}

/-! ## Settings that fit -/

/-- A bound account has the identifier and the identity of the settings. -/
def Fitted (K : Crates) (settings : Settings) (db : Db) : Prop :=
  ∀ a key, Bound K.credentials db a key → settings.fits K a = true

theorem Settings.fits_iff {settings : Settings} {a : Account} :
    settings.fits K a = true ↔
      settings.allowedFid = some a.fid ∧ settings.identity K = .ok a.identity := by
  unfold Settings.fits
  cases settings.identity K with
  | error e => simp
  | ok identity => simp

variable {settings : Settings} {db db' : Db} {io : Faults}

theorem Fitted.of_account_eq (h : Fitted K settings db) (heq : db'.account = db.account) :
    Fitted K settings db' :=
  fun a key hb => h a key ⟨heq.symm.trans hb.row, hb.genuine⟩

theorem fitted_of_none (h : db.account = none) : Fitted K settings db := by
  intro a key hb
  have hrow := hb.row
  rw [h] at hrow
  cases hrow

/-- Settings that fit one account of a row fit every reading of it. -/
theorem fitted_of_bound (hK : K.json.Lawful) {a : Account} {key : Bytes}
    (hb : Bound K.credentials db a key) (h : settings.fits K a = true) : Fitted K settings db := by
  intro b key' hb'
  obtain ⟨rfl, -⟩ := hb.unique hK hb'
  exact h

/-- Settings fit when they fit what is read. -/
theorem fitted_of_account (hK : K.json.Lawful) {account : Option Account}
    (hread : Store.account K.credentials io db = .ok account)
    (hfits : account.all (settings.fits K) = true) : Fitted K settings db := by
  cases account with
  | none => exact fitted_of_none (loadAccount_eq_none hread)
  | some a =>
      intro b key hb
      obtain rfl := hb.eq_of_loadAccount hK hread
      exact hfits

/-- What is read is fitted by settings that fit. -/
theorem Fitted.all (hK : K.json.Lawful) (h : Fitted K settings db)
    (hstored : Stored K.credentials db)
    {account : Option Account} (hread : Store.account K.credentials io db = .ok account) :
    account.all (settings.fits K) = true := by
  cases account with
  | none => rfl
  | some a =>
      obtain ⟨key, hb⟩ := hstored.bound hK hread
      exact h a key hb

/-! ## What moves keep -/

/-- An account that is found invalidated is the one that was there, disabled. -/
theorem bound_of_invalidateAuthority (hK : K.json.Lawful) (hstored : Stored K.credentials db)
    (h : Store.invalidateAuthority K.credentials io db = .ok db') :
    ∃ a key, Bound K.credentials db a key ∧
    Bound K.credentials db' { a with enabled := false } key := by
  have hrun : Call.run K.credentials io [] db .invalidateAuthority = .ok ⟨.done, db', none⟩ :=
    bind_eq_ok.mpr ⟨db', h, rfl⟩
  cases Call.account_change hK hstored rfl hrun with
  | same account quiet => cases quiet
  | first fid now authority random identity a call => cases call
  | again fid now authority random key identity b a call => cases call
  | disabled key a call old bound => exact ⟨a, key, old, bound⟩

/-- An account that is bound is there. -/
theorem bound_of_bindVerified (hK : K.json.Lawful) (hstored : Stored K.credentials db) {fid : Nat}
    {authority : Bytes} {identity : Identity} {now : Time} {random : Random} {a : Account}
    (h : Store.bindVerified K.credentials io db fid authority identity now random = .ok (a, db')) :
    ∃ key, Bound K.credentials db' a key := by
  rcases hstored with hnone | ⟨b, key, hb⟩
  · exact ⟨random, (bindVerified_of_none h hnone (lt_trans now.isLt (by decide)) random.2).2.1⟩
  · exact ⟨key, (bindVerified_of_bound hK hb h).1⟩

/-- Every move keeps settings that fit. -/
theorem Fitted.move (hK : K.json.Lawful) {core core' : Core} (hmove : Move K core core')
    (hsound : Sound K core.db) (h : Fitted K core.settings core.db) :
    Fitted K core'.settings core'.db := by
  cases hmove with
  | memory => exact h
  | invalidating => exact h
  | invalidated io db call =>
      obtain ⟨a, key, hold, hnew⟩ := bound_of_invalidateAuthority hK hsound.stored call
      exact fitted_of_bound hK hnew (h a key hold)
  | bound io fid authority identity now random a db call allowed own =>
      obtain ⟨key, hb⟩ := bound_of_bindVerified hK hsound.stored call
      obtain ⟨-, -, rfl, -, rfl, -⟩ := Store.bindVerified_eq_ok call
      exact fitted_of_bound hK hb (Settings.fits_iff.mpr ⟨allowed, own⟩)
  | rechecked io client net e raw identity now db evidence read returned call =>
      obtain ⟨-, -, -, rfl⟩ := Store.setEvidence_eq_ok call
      exact h.of_account_eq rfl
  | completed io client net challenge verified proof now checked a repoKey pending grants db returned
      account createdAt enabled fid authority newer call =>
      obtain ⟨-, -, -, rfl⟩ := Store.setEvidence_eq_ok call
      exact h.of_account_eq rfl
  | credentials db account => exact h.of_account_eq account

theorem sound_moves (hK : K.json.Lawful) {core core' : Core} (hmoves : Moves K core core')
    (h : Sound K core.db) : Sound K core'.db := (kept_sound hK).moves hmoves h

/-- Wherever an action stops, the settings fit the account. -/
theorem fitted_moves (hK : K.json.Lawful) {core core' : Core} (hmoves : Moves K core core')
    (hsound : Sound K core.db) (h : Fitted K core.settings core.db) :
    Fitted K core'.settings core'.db := by
  induction hmoves with
  | refl => exact h
  | tail hmoves hmove ih => exact ih.move hK hmove (sound_moves hK hmoves hsound)

/-! ## New settings -/

/-- Source: `account.rs`, `ConfigurationGuard::check` (with its messages) -/
def Core.guard (K : Crates) (core : Core) (io : Faults) (settings : Settings) :
    Except String Unit := do
  (settings.validate K).mapError fun _ => "Invalid account configuration"
  match ← (Store.account K.credentials io core.db).mapError fun _ =>
    "Cannot read account binding" with
  | none => pure ()
  | some account => do
      ensure (settings.allowedFid = some account.fid)
        "The bound FID and service identity cannot be changed on this node"
      let identity ← (settings.identity K).mapError fun _ =>
        "A bound account needs its original service URL"
      ensure (identity = account.identity)
        "The bound FID and service identity cannot be changed on this node"

/-- New settings are accepted when they are valid and fit what is read. -/
theorem checkSettings_iff {core : Core} : core.checkSettings K settings io = true ↔
    settings.validate K = .ok () ∧ ∃ account, Store.account K.credentials io core.db = .ok account ∧
      account.all (settings.fits K) = true := by
  unfold Core.checkSettings
  cases settings.validate K with
  | error e => simp
  | ok _ =>
      cases Store.account K.credentials io core.db with
      | error e => simp
      | ok account => cases account <;> simp

/-- The guard has a message for all that is not accepted. -/
theorem guard_eq_ok {core : Core} :
    core.guard K io settings = .ok () ↔ core.checkSettings K settings io = true := by
  rw [checkSettings_iff, Core.guard]
  simp only [bind_eq_ok, Store.mapError_eq_ok]
  constructor
  · rintro ⟨_, hvalid, account, hread, h⟩
    refine ⟨hvalid, account, hread, ?_⟩
    cases account with
    | none => rfl
    | some a =>
        simp only [bind_eq_ok, ensure_eq_ok, Store.mapError_eq_ok] at h
        obtain ⟨_, hfid, _, hidentity, rfl⟩ := h
        exact Settings.fits_iff.mpr ⟨hfid, hidentity⟩
  · rintro ⟨hvalid, account, hread, hfits⟩
    refine ⟨(), hvalid, account, hread, ?_⟩
    cases account with
    | none => rfl
    | some a =>
        obtain ⟨hfid, hidentity⟩ := Settings.fits_iff.mp hfits
        simp only [bind_eq_ok, ensure_eq_ok, Store.mapError_eq_ok]
        exact ⟨(), hfid, _, hidentity, rfl⟩

/-! ## Up to the call that binds -/

/-- What a Poll binds: a verified authority with its proof, to the identity of the settings. -/
structure Approved where
  verified : VerifiedIdentity
  proof : SignedProof
  identity : Identity

/-- What a completed proof leads to before the call that binds.
Source: `account.rs`, `Core::execute` (`Action::Poll`, from `verify` to `bind_verified`) -/
def approve (K : Crates) (env : Env) (settings : Settings) (client : AuthClient) (id : Bytes)
    (pending : Login) (proof : SignedProof) : Act Approved := do
  let verified ← await (env.net .verify) fun net =>
    verify K.toCrates client net proof pending.challenge (env.now .verify)
  let verified ← attempt (verified.mapError .auth)
  if pending.challenge.expiresAt ≤ (env.now .expiry : Nat) then do
    removeLogin id
    fail .unverified
  else if settings.allowedFid ≠ some verified.fid then do
    removeLogin id
    fail ⟨403, "AccountNotAllowed", "This FID is not permitted on this node"⟩
  else do
    checkBlock K env verified
    replaceAuthority K env (fingerprint verified)
    let identity ← attempt ((settings.identity K).mapError fun _ => .disabled)
    pure ⟨verified, proof, identity⟩

/-- A Poll up to the call that binds, or its answer where it does not come to that.
Source: `account.rs`, `Core::execute` (`Action::Poll`, up to `bind_verified`) -/
def approach (K : Crates) (env : Env) (id token : Bytes) : Act (Json ⊕ Approved) := do
  let core ← read
  check (core.settings.enabled = true) .disabled
  expire (env.now .entry)
  let core ← read
  let client ← attempt (Core.client K core.settings)
  let pending ← attempt (okOr (core.pending.lookup id) .unverified)
  check (hash token = pending.pollHash) .unverified
  match pending.completion with
  | some completion => pure (.inl completion)
  | none => do
      check (2 ≤ (env.now .entry : Nat) - pending.lastPoll) .busy
      setLogin id fun pending => { pending with lastPoll := env.now .entry }
      match ← pollProof K env client id pending with
      | none => pure (.inl (.object [(str "status", .string (str "pending"))]))
      | some proof => do
          let approved ← approve K env core.settings client id pending proof
          pure (.inr approved)

/-- The call that binds, and what comes after it.
Source: `account.rs`, `Core::execute` (`Action::Poll`, from `bind_verified` on) -/
def conclude (K : Crates) (env : Env) (id : Bytes) (approved : Approved) : Act Json := do
  let account ← call (env.io .bindVerified) fun io _ db => Store.bindVerified K.credentials io db
    approved.verified.fid (fingerprint approved.verified) approved.identity
    (env.now (.access .bindVerified)) (env.random .repoKey)
  storeEvidence K env ⟨approved.verified, approved.proof⟩
  recordCheck approved.verified (env.now .checked)
  let accountToken := randomToken (env.random .account)
  let expires : Nat := env.now .entry + grantTtl
  change fun core => { core with grants := insertKey core.grants (hash accountToken) expires }
  let response := Json.object [(str "account_token", .string accountToken),
    (str "expires_at", .integer expires), (str "fid", .integer account.fid),
    (str "handle", .string account.identity.handle),
    (str "service_url", .string account.identity.serviceUrl),
    (str "status", .string (str "complete"))]
  setLogin id fun pending => { pending with
    proof := none, channel := [], completion := some response }
  pure response

variable {env : Env} {s : Core}

theorem fail_bind {α β : Type} (failure : Failure) (f : α → Act β) :
    (fail failure >>= f) = fail failure := rfl

theorem ite_bind {α β : Type} {c : Prop} [Decidable c] (x y : Act α) (f : α → Act β) :
    ((if c then x else y) >>= f) = if c then x >>= f else y >>= f := by
  split_ifs <;> rfl

/-- Completing is approving and concluding. -/
theorem complete_eq {client : AuthClient} {id : Bytes} {pending : Login} {proof : SignedProof} :
    complete K env settings client id pending proof (env.now .entry) =
      approve K env settings client id pending proof >>= conclude K env id := by
  unfold complete approve Node.bind conclude
  simp only [bind_assoc, pure_bind, ite_bind, fail_bind]

/-- **A Poll is what it does up to the call that binds, and the call with what comes after it.** -/
theorem execute_poll {id token : Bytes} : execute K env (.poll id token) =
    approach K env id token >>= fun
      | .inl value => pure value
      | .inr approved => conclude K env id approved := by
  unfold execute approach
  simp only [Action.run, poll, bind_assoc]
  refine bind_congr fun core => bind_congr fun _ => bind_congr fun _ => bind_congr fun core => ?_
  refine bind_congr fun client => bind_congr fun pending => bind_congr fun _ => ?_
  cases pending.completion with
  | some completion => rfl
  | none =>
      simp only [bind_assoc]
      refine bind_congr fun _ => bind_congr fun _ => bind_congr fun proof => ?_
      cases proof with
      | none => rfl
      | some proof => simp only [complete_eq, bind_assoc, pure_bind]

/-! ## The call that binds -/

/-- The call that binds is asked for what the settings allow, and an enabled account has this
authority already. -/
structure Acceptable (K : Crates) (approved : Approved) (core : Core) : Prop where
  enabled : core.settings.enabled = true
  allowed : core.settings.allowedFid = some approved.verified.fid
  own : core.settings.identity K = .ok approved.identity
  same : ∀ a key, Bound K.credentials core.db a key → a.enabled = true →
    a.authority = fingerprint approved.verified

theorem Acts.moves {α : Type} {x : Act α} {Q : α → Core → Prop} (hx : Acts K x Q s) :
    Acts K x (fun a s' => Q a s' ∧ Moves K s s') s :=
  wp.mono hx (fun _ _ ha => ⟨ha.1, ha.2, ha.1⟩) fun _ _ he => he

/-- Invalidating calls the store. -/
theorem wp_invalidate : wp (invalidate K env)
    (fun _ s' => ∃ io, Store.invalidateAuthority K.credentials io s.db = .ok s'.db)
    (fun _ _ => True) s := by
  unfold invalidate
  simp only [wp_bind, wp_note, wp_update, wp_change]
  exact ⟨fun _ => trivial, fun faults _ => ⟨fun db hdb => ⟨faults, hdb⟩, fun _ _ => trivial⟩⟩

/-- An account of another authority is disabled afterwards. -/
theorem replaceAuthority_same (hK : K.json.Lawful) {authority : Bytes}
    (hstored : Stored K.credentials s.db) :
    Acts K (replaceAuthority K env authority) (fun _ s' => ∀ a key, Bound K.credentials s'.db a key →
      a.enabled = true → a.authority = authority) s := by
  unfold replaceAuthority
  refine acts_query fun faults account hread => ?_
  cases account with
  | none =>
      refine acts_pure fun a key hb => ?_
      have hrow := hb.row
      rw [loadAccount_eq_none hread] at hrow
      cases hrow
  | some account =>
      by_cases hother : account.authority ≠ authority
      · simp only [if_pos hother]
        refine wp.mono (wp.and acts_invalidate wp_invalidate) (fun _ s' h => ⟨h.1.1, ?_⟩)
          fun _ _ h => h.1
        obtain ⟨-, io, hcall⟩ := h
        obtain ⟨a, key, -, hnew⟩ := bound_of_invalidateAuthority hK hstored hcall
        intro b key' hb henabled
        obtain ⟨rfl, -⟩ := hnew.unique hK hb
        cases henabled
      · simp only [if_neg hother]
        refine acts_pure fun a key hb _ => ?_
        obtain rfl := hb.eq_of_loadAccount hK hread
        exact not_ne_iff.mp hother

theorem approve_acts (hK : K.json.Lawful) {client : AuthClient} {id : Bytes} {pending : Login}
    {proof : SignedProof} (hsettings : s.settings = settings) (hsound : Sound K s.db)
    (henabled : settings.enabled = true) :
    Acts K (approve K env settings client id pending proof)
      (fun approved s' => Acceptable K approved s') s := by
  unfold approve
  refine acts_await fun answers => acts_attempt fun verified _ => ?_
  have hforget : Move K s { s with pending := removeKey s.pending id } :=
    .of_memory rfl rfl rfl rfl (List.Subset.refl _) (.inl rfl)
  split_ifs with hexpired hfid
  · exact acts_change hforget acts_fail
  · exact acts_change hforget acts_fail
  · refine checkBlock_acts.bind fun _ s₁ hs₁ => ?_
    obtain ⟨rfl, -⟩ := hs₁
    refine (replaceAuthority_same hK hsound.stored).settings.bind fun _ s₂ hs₂ => ?_
    obtain ⟨hsame, hsettings₂⟩ := hs₂
    obtain rfl : s₂.settings = settings := hsettings₂.trans hsettings
    refine acts_attempt fun identity hown => acts_pure ?_
    exact ⟨henabled, not_ne_iff.mp hfid, Store.mapError_eq_ok.mp hown, hsame⟩

theorem approach_acts (hK : K.json.Lawful) {id token : Bytes} (hsound : Sound K s.db) :
    Acts K (approach K env id token)
      (fun result s' => ∀ approved, result = .inr approved → Acceptable K approved s') s := by
  have quiet : ∀ {value : Json} {s' : Core}, Acts K (pure (.inl value) : Act (Json ⊕ Approved))
      (fun result s' => ∀ approved, result = .inr approved → Acceptable K approved s') s' :=
    acts_pure fun _ h => by cases h
  unfold approach expire
  refine acts_read (acts_check fun henabled => ?_)
  refine acts_change (.of_memory rfl rfl rfl rfl ?_ (.inl rfl)) ?_
  · exact fun _ h => (List.mem_filter.mp h).1
  refine acts_read (acts_attempt fun client _ => acts_attempt fun pending _ => acts_check fun _ => ?_)
  cases pending.completion with
  | some completion => exact quiet
  | none =>
      refine acts_check fun _ => acts_setLogin ?_
      refine pollProof_acts.moves.bind fun proof s₁ hs₁ => ?_
      cases proof with
      | none => exact quiet
      | some proof =>
          have hsound₁ : Sound K s₁.db := sound_moves hK hs₁.2 hsound
          have hsettings := settings_of_moves hs₁.2
          refine (approve_acts hK hsettings hsound₁ henabled).bind fun approved s₂ hs₂ => ?_
          refine acts_pure fun approved' h => ?_
          obtain rfl := Sum.inr.inj h
          exact hs₂

/-- A fingerprint has the form of an authority. -/
theorem validAuthority_fingerprint (identity : VerifiedIdentity) :
    validAuthority (fingerprint identity) = true := by
  have hform : ∀ b : UInt8, isHexDigit b = true → (isAlnum b || (str ":_-").contains b) = true := by
    decide +kernel
  have hlength : (fingerprint identity).length = 64 := by
    rw [fingerprint, hash, length_hexEncode, Sha2.length_sha256]
  have hne : fingerprint identity ≠ [] := by
    intro h
    rw [h] at hlength
    cases hlength
  simp only [validAuthority, Bool.and_eq_true, decide_eq_true_eq, hlength, List.all_eq_true]
  exact ⟨⟨hne, by decide⟩, fun b hb => hform b (isHexDigit_of_mem_hexEncode hb)⟩

/-- Settings that are enabled and valid permit an identifier in range, and have a valid identity. -/
theorem identity_of_validate (hvalid : settings.validate K = .ok ())
    (henabled : settings.enabled = true) :
    (∀ fid ∈ settings.allowedFid, 1 ≤ fid ∧ fid ≤ maxTestFid) ∧
    ∃ identity, settings.identity K = .ok identity ∧ identity.validate K.credentials = .ok () := by
  unfold Settings.validate at hvalid
  have hurl : ¬(settings.serviceUrl = [] ∧ settings.enabled = false) := by
    rintro ⟨-, h⟩
    rw [henabled] at h
    cases h
  rw [if_neg hurl] at hvalid
  simp only [bind_eq_ok, ensure_eq_ok, Store.mapError_eq_ok] at hvalid
  obtain ⟨_, ⟨hfid, -⟩, _, -, _, -, _, -, identity, hidentity, hvalid⟩ := hvalid
  exact ⟨hfid, identity, hidentity, hvalid⟩

/-- What is acceptable is bound, or the storage fails. -/
theorem Acceptable.throws_bindVerified (hK : K.json.Lawful)
    (hport : ∀ text url port, K.parseUrl text = some url → url.port = some port → port < 65536)
    {approved : Approved} (h : Acceptable K approved s) (hvalid : s.settings.validate K = .ok ())
    (hsound : Sound K s.db) (hfits : Fitted K s.settings s.db) (now : Time) (random : Random) :
    Throws (fun e => e = .persistence) (Store.bindVerified K.credentials io s.db approved.verified.fid
      (fingerprint approved.verified) approved.identity now random) := by
  obtain ⟨hrange, identity, hidentity, hok⟩ := identity_of_validate hvalid h.enabled
  obtain rfl := Except.ok.inj (h.own.symm.trans hidentity)
  have hfid := hrange _ h.allowed
  have hmax : maxTestFid < 9223372036854775808 := by decide
  refine Credentials.throws_bindVerified hport hok ⟨by omega, by omega⟩ (validAuthority_fingerprint _)
    fun a ha => ?_
  obtain ⟨key, hb⟩ := hsound.stored.bound hK ha
  obtain ⟨hallowed, hown⟩ := Settings.fits_iff.mp (hfits a key hb)
  refine ⟨?_, ?_, fun ⟨henabled, hne⟩ => hne (h.same a key hb henabled)⟩
  · exact Option.some.inj (hallowed.symm.trans h.allowed)
  · exact Except.ok.inj (hown.symm.trans h.own)

/-- **Where a Poll comes to the call that binds, it can only fail with the storage**, if the
settings are valid and fit the account. -/
theorem throws_approach (hK : K.json.Lawful)
    (hport : ∀ text url port, K.parseUrl text = some url → url.port = some port → port < 65536)
    {core core' : Core} (hvalid : core.settings.validate K = .ok ()) (hsound : Sound K core.db)
    (hfits : Fitted K core.settings core.db) {id token : Bytes} {approved : Approved}
    (h : approach K env id token core = (.ok (.inr approved), core')) (now : Time)
    (random : Random) :
    Throws (fun e => e = .persistence) (Store.bindVerified K.credentials io core'.db
      approved.verified.fid (fingerprint approved.verified) approved.identity now random) := by
  obtain ⟨hmoves, hacceptable⟩ := wp.of_ok (approach_acts hK hsound) h
  have hvalid' : core'.settings.validate K = .ok () := by
    rw [settings_of_moves hmoves]
    exact hvalid
  exact (hacceptable approved rfl).throws_bindVerified hK hport hvalid' (sound_moves hK hmoves hsound)
    (fitted_moves hK hmoves hsound hfits) now random

end PurpleSky.Node
