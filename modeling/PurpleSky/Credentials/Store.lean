import PurpleSky.Credentials.Database
import PurpleSky.Credentials.Token

/-!
# The credential store (`Store`)

Every operation is a function of the database that returns its result and the database it leaves, or
an error and nothing: a transaction that does not commit leaves no trace. Clocks, random values and
failing statements are arguments. `authenticate` and `refresh_session` are written in two parts,
before and after the tokens are signed; `get_session` and `validate_refresh` in their two reads.

For each operation a lemma says what its success means for the tables.
-/

namespace PurpleSky.Credentials

open Bytes

variable (C : Crates) (io : Faults) (key : Bytes) (db : Db)

namespace Store

/-! ## Reading the account -/

/-- Source: `lib.rs`, `load_account` -/
def loadAccount : Except Error (Option Account) := do
  io.run (.select .account)
  match db.account with
  | none => pure none
  | some row => do
      ensure (row.document.length ≤ 8192) .persistence
      let value ← okOr (C.json.parse row.document) .persistence
      let account ← okOr (Account.ofJson? value) .persistence
      pure (some account)

/-- Source: `lib.rs`, `enabled_account` -/
def enabledAccount : Except Error Account := do
  let account ← loadAccount C io db
  let account ← okOr account .notBound
  ensure account.enabled .disabled
  pure account

/-- Source: `lib.rs`, `token_account_error` -/
def tokenAccountError : Error → Error
  | .persistence => .persistence
  | _ => .invalidToken

/-- The enabled account, for a bearer of a token. -/
def tokenAccount : Except Error Account := (enabledAccount C io db).mapError tokenAccountError

/-- Source: `lib.rs`, `Store::account` -/
def account : Except Error (Option Account) := loadAccount C io db

/-! ## Opening -/

/-- The transaction of opening: the key of the store, made on the first opening.
Source: `lib.rs`, `Store::open` (up to its commit) -/
def openKey (random : Bytes) : Except Error (Bytes × Db) := do
  io.run .begin
  io.run (.select .secrets)
  match db.jwtKey with
  | some key => do
      ensure (key.length = 32) .persistence
      io.run .commit
      pure (key, db)
  | none => do
      io.run (.insert .secrets)
      io.run .commit
      pure (random, { db with jwtKey := some random })

/-- The account's empty repository.
Source: `lib.rs`, `Store::repository` -/
def repository : Except Error Repo.Repository := do
  let account ← account C io db
  let account ← okOr account .notBound
  let row ← okOr db.account .persistence
  ensure (row.repoKey.length = 32) .persistence
  let signer ← okOr (C.signingKey row.repoKey) .persistence
  match Repo.build sha2 C.ecdsa account.identity.did account.repoRevision Repo.RecordSet.new
      signer with
  | .ok repo => pure repo
  | .error _ => .error .persistence

/-- The checks of opening after its transaction: a bound account is valid, and its repository has
the recorded root.
Source: `lib.rs`, `Store::open` (after its commit) -/
def openCheck : Except Error Unit := do
  match ← account C io db with
  | none => pure ()
  | some account => do
      match account.identity.validate C with
      | .ok _ => pure ()
      | .error _ => .error .persistence
      ensure (account.fid ≠ 0 ∧ validAuthority account.authority) .persistence
      let repo ← repository C io db
      ensure (repo.root.text = account.repoCid) .persistence

/-- Source: `lib.rs`, `Store::open` -/
def openStore (random : Bytes) : Except Error (Bytes × Db) := do
  let (key, db) ← openKey io db random
  openCheck C io db
  pure (key, db)

/-! ## Evidence and binding -/

/-- The checks of `set_evidence`, which are not in one transaction with its write. -/
def checkEvidence (document : Bytes) : Except Error Unit := do
  ensure (document ≠ [] ∧ document.length ≤ 32 * 1024) .invalidInput
  let _ ← enabledAccount C io db
  pure ()

/-- The write of `set_evidence`. -/
def writeEvidence (document : Bytes) : Except Error Db := do
  io.run (.insert .evidence)
  pure { db with evidence := some document }

/-- Source: `lib.rs`, `Store::set_evidence` -/
def setEvidence (document : Bytes) : Except Error Db := do
  checkEvidence C io db document
  writeEvidence io db document

/-- Source: `lib.rs`, `Store::evidence` -/
def evidence : Except Error (Option Bytes) := do
  io.run (.select .evidence)
  ensure (∀ document ∈ db.evidence, document.length ≤ 32 * 1024) .persistence
  pure db.evidence

/-- The account of a first binding.
Source: `lib.rs`, `Store::bind_verified` (without a stored account) -/
def newAccount (fid : Nat) (authority : Bytes) (identity : Identity) (now : Nat) (random : Bytes) :
    Except Error Account := do
  let signer ← okOr (C.signingKey random) .persistence
  match Repo.build sha2 C.ecdsa identity.did (revision now) Repo.RecordSet.new signer with
  | .error _ => .error .invalidInput
  | .ok repo =>
      let multicodec := 0xe7 :: 0x01 :: Repo.publicKeySec1 C.ecdsa signer
      pure ⟨fid, authority, identity, true, now, 122 :: C.base58 multicodec, revision now,
        repo.root.text⟩

/-- Bind a verified authority: the first time, again, or a new one after an invalidation.
Source: `lib.rs`, `Store::bind_verified` -/
def bindVerified (fid : Nat) (authority : Bytes) (identity : Identity) (now : Nat)
    (random : Bytes) : Except Error (Account × Db) := do
  identity.validate C
  ensure (fid ≠ 0 ∧ fid < 9223372036854775808 ∧ validAuthority authority) .invalidInput
  io.run .begin
  match ← loadAccount C io db with
  | some account => do
      ensure (account.fid = fid ∧ account.identity = identity ∧
        ¬(account.enabled ∧ account.authority ≠ authority)) .bindingConflict
      let account := { account with enabled := true, authority := authority }
      io.run (.update .account)
      io.run .commit
      pure (account, db.setDocument (encodeAccount C account))
  | none => do
      let account ← newAccount C fid authority identity now random
      io.run (.insert .account)
      io.run .commit
      pure (account, { db with account := some ⟨encodeAccount C account, random⟩ })

/-- Disable the account and delete every password, every session and the evidence.
Source: `lib.rs`, `Store::invalidate_authority` -/
def invalidateAuthority : Except Error Db := do
  io.run .begin
  let account ← loadAccount C io db
  let account ← okOr account .notBound
  let account := { account with enabled := false }
  io.run (.update .account)
  io.run (.delete .passwords)
  io.run (.delete .evidence)
  io.run .commit
  let db := (db.setDocument (encodeAccount C account)).deletePasswords fun _ => true
  pure { db with evidence := none }

/-! ## Passwords -/

/-- Source: `lib.rs`, `Store::issue_password` -/
def issuePassword (name : Bytes) (now : Nat) (random salt : Bytes) :
    Except Error (IssuedPassword × Db) := do
  ensure (validName name) .invalidInput
  io.run .begin
  let _ ← enabledAccount C io db
  io.run (.select .passwords)
  ensure (db.passwords.rows.length < maxPasswords) .limit
  ensure (db.passwords.find? name = none) .invalidInput
  let password := str "psky-" ++ segment random
  io.run (.insert .passwords)
  bindU64 now
  let db ← okOr (db.insertPassword ⟨name, salt, passwordHash salt password, now⟩) .persistence
  io.run .commit
  pure (⟨⟨name, now⟩, password⟩, db)

/-- Source: `lib.rs`, `Store::list_passwords` -/
def listPasswords : Except Error (List PasswordInfo) := do
  io.run (.select .passwords)
  let order (p q : Password) : Bool :=
    p.createdAt < q.createdAt || (p.createdAt = q.createdAt && (compare p.name q.name).isLE)
  pure (((db.passwords.rows.mergeSort order).take 16).map fun p => ⟨p.name, p.createdAt⟩)

/-- Source: `lib.rs`, `Store::revoke_password` -/
def revokePassword (name : Bytes) : Except Error Db := do
  ensure (validName name) .invalidInput
  io.run (.delete .passwords)
  pure (db.deletePasswords fun p => p.name = name)

/-- The last of some passwords whose verifier fits. -/
def matchPassword (password : Bytes) : List Password → Option Bytes → Except Error (Option Bytes)
  | [], found => .ok found
  | p :: rest, found => do
      ensure (p.salt.length = 32 ∧ p.verifier.length = 32) .persistence
      matchPassword password rest
        (if passwordHash p.salt password = p.verifier then some p.name else found)

/-- The form of a generated password, and the longest identifier. -/
def credentialForm (identifier password : Bytes) : Bool :=
  identifier.length ≤ 512 && password.length = 48 && (str "psky-").isPrefixOf password

/-- Source: `lib.rs`, `verify_password` -/
def verifyPassword (identifier password : Bytes) : Except Error (Account × Bytes) := do
  ensure (credentialForm identifier password) .invalidCredentials
  let account ← (enabledAccount C io db).mapError fun
    | .persistence => .persistence
    | _ => .invalidCredentials
  io.run (.select .passwords)
  let found ← matchPassword password (db.passwords.rows.take 16) none
  ensure (identifier = account.identity.handle ∨ identifier = account.identity.did)
    .invalidCredentials
  let name ← okOr found .invalidCredentials
  pure (account, name)

/-- Source: `lib.rs`, `Store::validate_password` -/
def validatePassword (identifier password : Bytes) : Except Error Unit := do
  let _ ← verifyPassword C io db identifier password
  pure ()

/-! ## Sessions -/

/-- The claims of a token of an account. -/
def claimsFor (account : Account) (kind : TokenKind) (sid jti : Bytes) (now exp : Nat) : Claims :=
  ⟨account.identity.did, account.identity.serviceDid, kind.scope, now, exp, jti, sid⟩

/-- When an access token expires: after its lifetime, and not after the session. The sum is one of
sixty-four bits: it wraps (where overflows are checked, the process stops instead). -/
@[irreducible] def accessExp (now refreshExp : Nat) : Nat :=
  min ((now + accessSeconds) % (u64Max + 1)) refreshExp

/-- An access token does not outlive its session. -/
theorem accessExp_le (t exp : Nat) : accessExp t exp ≤ exp := by
  unfold accessExp
  exact Nat.min_le_right _ _

/-- An access token lives no longer than it may, also where the sum of its times wraps. -/
theorem accessExp_le_add (t exp : Nat) : accessExp t exp ≤ t + accessSeconds := by
  unfold accessExp
  exact (Nat.min_le_left _ _).trans (Nat.mod_le _ _)

/-- An access token of a session lives, where the sum of its times does not wrap. -/
theorem lt_accessExp {t exp : Nat} (hsum : t + accessSeconds ≤ u64Max) (h : t < exp) :
    t < accessExp t exp := by
  have hpositive : 0 < accessSeconds := by decide
  unfold accessExp
  rw [Nat.mod_eq_of_lt (Nat.lt_succ_of_le hsum)]
  exact lt_min (by omega) h

/-- Source: `lib.rs`, `create_session` -/
def createSession (account : Account) (sid refreshJti accessJti : Bytes) (now refreshExp : Nat) :
    Session where
  accessJwt := signToken C key
    (claimsFor account .access sid accessJti now (accessExp now refreshExp)) .access
  refreshJwt := signToken C key (claimsFor account .refresh sid refreshJti now refreshExp) .refresh
  info := sessionInfo account

/-- Logging in up to the tokens: the account, the password's name, and the database without expired
sessions.
Source: `lib.rs`, `Store::authenticate` (before `create_session`) -/
def beginAuthenticate (identifier password : Bytes) (now : Nat) :
    Except Error (Account × Bytes × Db) := do
  ensure (credentialForm identifier password) .invalidCredentials
  io.run .begin
  let (account, name) ← verifyPassword C io db identifier password
  bindU64 now
  io.run (.delete .sessions)
  let db := db.deleteSessions fun s => s.refreshExp ≤ now
  io.run (.select .sessions)
  ensure (db.sessions.rows.length < maxSessions) .limit
  pure (account, name, db)

/-- Recording a session.
Source: `lib.rs`, `Store::authenticate` (after `create_session`) -/
def commitSession (row : SessionRow) : Except Error Db := do
  io.run (.insert .sessions)
  bindU64 row.refreshExp
  let db ← okOr (db.insertSession row) .persistence
  io.run .commit
  pure db

/-- Source: `lib.rs`, `Store::authenticate` -/
def authenticate (identifier password : Bytes) (now : Nat) (sid jti accessJti : Bytes) :
    Except Error (Session × Db) := do
  let (account, name, db) ← beginAuthenticate C io db identifier password now
  let expires := now + refreshSeconds
  let session := createSession C key account sid jti accessJti now expires
  let db ← commitSession io db ⟨sid, name, jti, expires⟩
  pure (session, db)

/-- Source: `lib.rs`, `validate_session` -/
def validateSession (claims : Claims) (refresh : Bool) (now : Nat) : Except Error Unit := do
  io.run (.select .sessions)
  let row ← okOr (db.sessions.find? claims.sid) .invalidToken
  ensure (now < row.refreshExp ∧
    ¬(refresh = true ∧ (row.refreshJti ≠ claims.jti ∨ row.refreshExp ≠ claims.exp))) .invalidToken

/-- The first part of `get_session` and `validate_refresh`: the account, and the verified token. -/
def readToken (token : Bytes) (kind : TokenKind) (now : Nat) : Except Error (Account × Claims) := do
  let account ← tokenAccount C io db
  let claims ← verifyToken C key token account kind now
  pure (account, claims)

/-- The clock is read for the token and for the session.
Source: `lib.rs`, `Store::get_session` -/
def getSession (access : Bytes) (now now' : Nat) : Except Error SessionInfo := do
  let (account, claims) ← readToken C io key db access .access now
  validateSession io db claims false now'
  pure (sessionInfo account)

/-- Source: `lib.rs`, `Store::validate_refresh` -/
def validateRefresh (refresh : Bytes) (now : Nat) : Except Error SessionInfo := do
  let (account, claims) ← readToken C io key db refresh .refresh now
  validateSession io db claims true now
  pure (sessionInfo account)

/-- Refreshing up to the tokens: the account and the claims of the refresh token.
Source: `lib.rs`, `Store::refresh_session` (before `create_session`) -/
def beginRefresh (refresh : Bytes) (now : Nat) : Except Error (Account × Claims) := do
  io.run .begin
  let (account, claims) ← readToken C io key db refresh .refresh now
  validateSession io db claims true now
  pure (account, claims)

/-- Consuming a refresh token.
Source: `lib.rs`, `Store::refresh_session` (after `create_session`) -/
def commitRefresh (claims : Claims) (jti : Bytes) : Except Error Db := do
  io.run (.update .sessions)
  ensure ((db.rotate jti claims.sid claims.jti).1 = 1) .invalidToken
  io.run .commit
  pure (db.rotate jti claims.sid claims.jti).2

/-- Source: `lib.rs`, `Store::refresh_session` -/
def refreshSession (refresh : Bytes) (now : Nat) (jti accessJti : Bytes) :
    Except Error (Session × Db) := do
  let (account, claims) ← beginRefresh C io key db refresh now
  let session := createSession C key account claims.sid jti accessJti now claims.exp
  let db ← commitRefresh io db claims jti
  pure (session, db)

/-- Source: `lib.rs`, `Store::delete_session` -/
def deleteSession (refresh : Bytes) (now : Nat) : Except Error Db := do
  let (_, claims) ← beginRefresh C io key db refresh now
  io.run (.delete .sessions)
  io.run .commit
  pure (db.deleteSessions fun s => s.id = claims.sid)

/-- Source: `lib.rs`, `Store::empty_repository` -/
def emptyRepository : Except Error Bytes := do
  let repo ← repository C io db
  match repo.toCar with
  | .ok car => pure car
  | .error _ => .error .persistence

/-- Source: `lib.rs`, `Store::did_document` -/
def storeDidDocument : Except Error Json := do
  let account ← account C io db
  let account ← okOr account .notBound
  pure (didDocument account)

/-! ## What success means -/

variable {C io key db} {db' : Db}

theorem mapError_eq_ok {ε ε' α : Type} {f : ε → ε'} {x : Except ε α} {a : α} :
    x.mapError f = .ok a ↔ x = .ok a := by
  cases x <;> simp [Except.mapError]

/-- A bearer's account is the enabled account. -/
theorem tokenAccount_eq_ok {a : Account} :
    tokenAccount C io db = .ok a ↔ enabledAccount C io db = .ok a := mapError_eq_ok

theorem loadAccount_eq_ok {a : Account} (h : loadAccount C io db = .ok (some a)) :
    ∃ row, db.account = some row ∧ row.document.length ≤ 8192 ∧
      ∃ v, C.json.parse row.document = some v ∧ Account.ofJson? v = some a := by
  unfold loadAccount at h
  obtain ⟨_, -, h⟩ := bind_eq_ok.mp h
  cases hrow : db.account with
  | none =>
      rw [hrow] at h
      cases h
  | some row =>
      rw [hrow] at h
      simp only [bind_eq_ok, ensure_eq_ok, okOr_eq_ok, pure_eq_ok, Option.some.injEq] at h
      obtain ⟨_, hlen, v, hv, a', ha, rfl⟩ := h
      exact ⟨row, rfl, hlen, v, hv, ha⟩

theorem enabledAccount_eq_ok {a : Account} (h : enabledAccount C io db = .ok a) :
    loadAccount C io db = .ok (some a) ∧ a.enabled = true := by
  simp only [enabledAccount, bind_eq_ok, ensure_eq_ok, okOr_eq_ok, pure_eq_ok] at h
  obtain ⟨x, hx, y, rfl, _, hen, rfl⟩ := h
  exact ⟨hx, hen⟩

/-- Opening keeps everything but a missing key, and hands out the key of the store. -/
theorem openKey_eq_ok {random k : Bytes} (h : openKey io db random = .ok (k, db')) :
    db'.jwtKey = some k ∧ (∀ j ∈ db.jwtKey, j = k) ∧ db'.account = db.account ∧
      db'.passwords = db.passwords ∧ db'.sessions = db.sessions ∧ db'.evidence = db.evidence := by
  unfold openKey at h
  obtain ⟨_, -, h⟩ := bind_eq_ok.mp h
  obtain ⟨_, -, h⟩ := bind_eq_ok.mp h
  cases hk : db.jwtKey with
  | none =>
      rw [hk] at h
      simp only [bind_eq_ok, pure_eq_ok, Prod.mk.injEq] at h
      obtain ⟨_, -, _, -, rfl, rfl⟩ := h
      refine ⟨rfl, ?_, rfl, rfl, rfl, rfl⟩
      intro j hj
      cases hj
  | some j =>
      rw [hk] at h
      simp only [bind_eq_ok, pure_eq_ok, Prod.mk.injEq] at h
      obtain ⟨_, -, _, -, rfl, rfl⟩ := h
      exact ⟨hk, fun _ hj => (Option.some.inj hj).symm, rfl, rfl, rfl, rfl⟩

theorem writeEvidence_eq_ok {document : Bytes} (h : writeEvidence io db document = .ok db') :
    db' = { db with evidence := some document } := by
  simp only [writeEvidence, bind_eq_ok, pure_eq_ok] at h
  obtain ⟨_, -, rfl⟩ := h
  rfl

theorem setEvidence_eq_ok {document : Bytes} (h : setEvidence C io db document = .ok db') :
    document ≠ [] ∧ document.length ≤ 32 * 1024 ∧ (∃ a, enabledAccount C io db = .ok a) ∧
      db' = { db with evidence := some document } := by
  simp only [setEvidence, checkEvidence, bind_eq_ok, ensure_eq_ok] at h
  obtain ⟨_, ⟨_, ⟨hne, hlen⟩, a, ha, -⟩, hwrite⟩ := h
  exact ⟨hne, hlen, ⟨a, ha⟩, writeEvidence_eq_ok hwrite⟩

theorem evidence_eq_ok {document : Option Bytes} (h : evidence io db = .ok document) :
    document = db.evidence := by
  simp only [evidence, bind_eq_ok, ensure_eq_ok, pure_eq_ok] at h
  obtain ⟨_, -, _, -, rfl⟩ := h
  rfl

/-- Binding changes the account only, and enables it under the verified authority. -/
theorem bindVerified_eq_ok {fid now : Nat} {authority random : Bytes} {identity : Identity}
    {a : Account} (h : bindVerified C io db fid authority identity now random = .ok (a, db')) :
    (∃ key, db' = { db with account := some ⟨encodeAccount C a, key⟩ }) ∧ a.enabled = true ∧
      a.fid = fid ∧ a.authority = authority ∧ a.identity = identity ∧
      fid < 9223372036854775808 ∧
      (∀ b, loadAccount C io db = .ok (some b) →
        b.fid = fid ∧ a = { b with enabled := true, authority := authority }) := by
  unfold bindVerified at h
  obtain ⟨_, -, h⟩ := bind_eq_ok.mp h
  obtain ⟨_, hfid, h⟩ := bind_eq_ok.mp h
  obtain ⟨_, -, h⟩ := bind_eq_ok.mp h
  obtain ⟨old, hold, h⟩ := bind_eq_ok.mp h
  have hfid := (ensure_eq_ok.mp hfid).2.1
  cases old with
  | some old =>
      simp only [bind_eq_ok, ensure_eq_ok, pure_eq_ok, Prod.mk.injEq] at h
      obtain ⟨_, ⟨hf, hi, -⟩, _, -, _, -, rfl, rfl⟩ := h
      obtain ⟨row, hrow, -⟩ := loadAccount_eq_ok hold
      refine ⟨⟨row.repoKey, ?_⟩, rfl, hf, rfl, hi, hfid, fun b hb => ?_⟩
      · rw [Db.setDocument, hrow]
        rfl
      · rw [hold] at hb
        obtain rfl := Option.some.inj (Except.ok.inj hb)
        exact ⟨hf, rfl⟩
  | none =>
      simp only [bind_eq_ok, pure_eq_ok, Prod.mk.injEq] at h
      obtain ⟨new, hnew, _, -, _, -, rfl, rfl⟩ := h
      unfold newAccount at hnew
      obtain ⟨signer, -, hnew⟩ := bind_eq_ok.mp hnew
      split at hnew
      · cases hnew
      · obtain rfl := pure_eq_ok.mp hnew
        refine ⟨⟨random, rfl⟩, rfl, rfl, rfl, rfl, hfid, fun b hb => ?_⟩
        rw [hold] at hb
        cases hb

/-- An invalidation disables the account and leaves no password, no session and no evidence. -/
theorem invalidateAuthority_eq_ok (h : invalidateAuthority C io db = .ok db') :
    db'.passwords.rows = [] ∧ db'.sessions.rows = [] ∧ db'.evidence = none ∧
      db'.jwtKey = db.jwtKey ∧
      ∃ a key, loadAccount C io db = .ok (some a) ∧
        db'.account = some ⟨encodeAccount C { a with enabled := false }, key⟩ := by
  simp only [invalidateAuthority, bind_eq_ok, okOr_eq_ok, pure_eq_ok] at h
  obtain ⟨_, -, a', ha, a, rfl, _, -, _, -, _, -, _, -, rfl⟩ := h
  obtain ⟨row, hrow, -⟩ := loadAccount_eq_ok ha
  refine ⟨?_, ?_, rfl, rfl, a, row.repoKey, ha, ?_⟩
  · show List.filter _ _ = []
    simp
  · apply List.eq_nil_iff_forall_not_mem.mpr
    intro s hs
    obtain ⟨hs, hnone⟩ := Db.mem_sessions_deletePasswords.mp hs
    obtain ⟨p, hp, hps⟩ := db.references s hs
    cases hnone p hp hps
  · show Option.map _ db.account = _
    rw [hrow]
    rfl

theorem issuePassword_eq_ok {name random salt : Bytes} {now : Nat} {issued : IssuedPassword}
    (h : issuePassword C io db name now random salt = .ok (issued, db')) :
    (∃ a, enabledAccount C io db = .ok a) ∧
      db.insertPassword ⟨name, salt, passwordHash salt (str "psky-" ++ segment random), now⟩ =
        some db' := by
  simp only [issuePassword, bind_eq_ok, ensure_eq_ok, okOr_eq_ok, pure_eq_ok, Prod.mk.injEq] at h
  obtain ⟨_, -, _, -, a, ha, _, -, _, -, _, -, _, -, _, -, db'', hdb, _, -, -, rfl⟩ := h
  exact ⟨⟨a, ha⟩, hdb⟩

/-- What is issued, and that there was room for it. -/
theorem issued_of_issuePassword {name random salt : Bytes} {now : Nat} {issued : IssuedPassword}
    (h : issuePassword C io db name now random salt = .ok (issued, db')) :
    db.passwords.rows.length < maxPasswords ∧
      issued = ⟨⟨name, now⟩, str "psky-" ++ segment random⟩ := by
  simp only [issuePassword, bind_eq_ok, ensure_eq_ok, okOr_eq_ok, pure_eq_ok, Prod.mk.injEq] at h
  obtain ⟨_, -, _, -, a, -, _, -, _, hlength, _, -, _, -, _, -, db'', -, _, -, rfl, -⟩ := h
  exact ⟨hlength, rfl⟩

theorem revokePassword_eq_ok {name : Bytes} (h : revokePassword io db name = .ok db') :
    db' = db.deletePasswords fun p => p.name = name := by
  simp only [revokePassword, bind_eq_ok, pure_eq_ok] at h
  obtain ⟨_, -, _, -, rfl⟩ := h
  rfl

theorem matchPassword_eq_ok {password : Bytes} {rows : List Password} {found name : Option Bytes}
    (h : matchPassword password rows found = .ok name) :
    name = found ∨ ∃ p ∈ rows, name = some p.name := by
  induction rows generalizing found with
  | nil =>
      obtain rfl := Except.ok.inj h
      exact .inl rfl
  | cons p rows ih =>
      unfold matchPassword at h
      obtain ⟨_, -, h⟩ := bind_eq_ok.mp h
      rcases ih h with hname | ⟨q, hq, hname⟩
      · split at hname
        · exact .inr ⟨p, List.mem_cons_self, hname⟩
        · exact .inl hname
      · exact .inr ⟨q, List.mem_cons_of_mem _ hq, hname⟩

/-- A password that verifies is one of the table's. -/
theorem verifyPassword_eq_ok {identifier password name : Bytes} {a : Account}
    (h : verifyPassword C io db identifier password = .ok (a, name)) :
    enabledAccount C io db = .ok a ∧ ∃ p ∈ db.passwords.rows, p.name = name := by
  simp only [verifyPassword, bind_eq_ok, ensure_eq_ok, okOr_eq_ok, pure_eq_ok, Prod.mk.injEq,
    mapError_eq_ok] at h
  obtain ⟨_, -, a', ha, _, -, found, hfound, _, -, name', hname, rfl, rfl⟩ := h
  refine ⟨ha, ?_⟩
  rcases matchPassword_eq_ok hfound with h | ⟨p, hp, h⟩
  · rw [hname] at h
    cases h
  · rw [hname] at h
    exact ⟨p, List.mem_of_mem_take hp, (Option.some.inj h).symm⟩

theorem beginAuthenticate_eq_ok {identifier password name : Bytes} {now : Nat} {a : Account}
    (h : beginAuthenticate C io db identifier password now = .ok (a, name, db')) :
    enabledAccount C io db = .ok a ∧ (∃ p ∈ db.passwords.rows, p.name = name) ∧
      now < 9223372036854775808 ∧ db' = db.deleteSessions fun s => s.refreshExp ≤ now := by
  simp only [beginAuthenticate, bind_eq_ok, ensure_eq_ok, pure_eq_ok, Prod.mk.injEq,
    Prod.exists, bindU64] at h
  obtain ⟨_, -, _, -, a', name', hver, _, hnow, _, -, _, -, _, -, rfl, rfl, rfl⟩ := h
  obtain ⟨ha, hp⟩ := verifyPassword_eq_ok hver
  exact ⟨ha, hp, hnow, rfl⟩

/-- After expired sessions are gone there is room for another. -/
theorem length_of_beginAuthenticate {identifier password name : Bytes} {now : Nat} {a : Account}
    (h : beginAuthenticate C io db identifier password now = .ok (a, name, db')) :
    db'.sessions.rows.length < maxSessions := by
  simp only [beginAuthenticate, bind_eq_ok, ensure_eq_ok, pure_eq_ok, Prod.mk.injEq,
    Prod.exists] at h
  obtain ⟨_, -, _, -, a', name', -, _, -, _, -, _, -, _, hlength, -, -, rfl⟩ := h
  exact hlength

theorem commitSession_eq_ok {row : SessionRow} (h : commitSession io db row = .ok db') :
    db.insertSession row = some db' := by
  simp only [commitSession, bind_eq_ok, okOr_eq_ok, pure_eq_ok] at h
  obtain ⟨_, -, _, -, db'', hdb, _, -, rfl⟩ := h
  exact hdb

/-- The row a session's token is checked against. -/
theorem validateSession_eq_ok {claims : Claims} {refresh : Bool} {now : Nat}
    (h : validateSession io db claims refresh now = .ok ()) :
    ∃ row ∈ db.sessions.rows, row.id = claims.sid ∧ now < row.refreshExp ∧
      (refresh = true → row.refreshJti = claims.jti ∧ row.refreshExp = claims.exp) := by
  simp only [validateSession, bind_eq_ok, ensure_eq_ok, okOr_eq_ok] at h
  obtain ⟨_, -, row, hrow, hnow, hmatch⟩ := h
  obtain ⟨hmem, hid⟩ := Table.find?_eq_some_iff.mp hrow
  refine ⟨row, hmem, hid, hnow, fun hr => ?_⟩
  constructor
  · by_contra hj
    exact hmatch ⟨hr, .inl hj⟩
  · by_contra he
    exact hmatch ⟨hr, .inr he⟩

theorem readToken_eq_ok {token : Bytes} {kind : TokenKind} {now : Nat} {a : Account}
    {claims : Claims} (h : readToken C io key db token kind now = .ok (a, claims)) :
    enabledAccount C io db = .ok a ∧ verifyToken C key token a kind now = .ok claims := by
  simp only [readToken, bind_eq_ok, pure_eq_ok, Prod.mk.injEq, tokenAccount_eq_ok] at h
  obtain ⟨a', ha, c', hc, rfl, rfl⟩ := h
  exact ⟨ha, hc⟩

theorem beginRefresh_eq_ok {refresh : Bytes} {now : Nat} {a : Account} {claims : Claims}
    (h : beginRefresh C io key db refresh now = .ok (a, claims)) :
    enabledAccount C io db = .ok a ∧ verifyToken C key refresh a .refresh now = .ok claims ∧
      validateSession io db claims true now = .ok () := by
  simp only [beginRefresh, bind_eq_ok, pure_eq_ok, Prod.mk.injEq, Prod.exists] at h
  obtain ⟨_, -, a', c', hread, _, hval, rfl, rfl⟩ := h
  obtain ⟨ha, hc⟩ := readToken_eq_ok hread
  exact ⟨ha, hc, hval⟩

theorem commitRefresh_eq_ok {claims : Claims} {jti : Bytes}
    (h : commitRefresh io db claims jti = .ok db') :
    (db.rotate jti claims.sid claims.jti).1 = 1 ∧
      db' = (db.rotate jti claims.sid claims.jti).2 := by
  simp only [commitRefresh, bind_eq_ok, ensure_eq_ok, pure_eq_ok] at h
  obtain ⟨_, -, _, hone, _, -, rfl⟩ := h
  exact ⟨hone, rfl⟩

theorem refreshSession_eq_ok {refresh jti accessJti : Bytes} {now : Nat} {s : Session}
    (h : refreshSession C io key db refresh now jti accessJti = .ok (s, db')) :
    ∃ a claims, beginRefresh C io key db refresh now = .ok (a, claims) ∧
      s = createSession C key a claims.sid jti accessJti now claims.exp ∧
      commitRefresh io db claims jti = .ok db' := by
  simp only [refreshSession, bind_eq_ok, pure_eq_ok, Prod.mk.injEq, Prod.exists] at h
  obtain ⟨a, claims, hbegin, db'', hcommit, rfl, rfl⟩ := h
  exact ⟨a, claims, hbegin, rfl, hcommit⟩

theorem authenticate_eq_ok {identifier password sid jti accessJti : Bytes} {now : Nat}
    {s : Session}
    (h : authenticate C io key db identifier password now sid jti accessJti = .ok (s, db')) :
    ∃ a name db₁, beginAuthenticate C io db identifier password now = .ok (a, name, db₁) ∧
      s = createSession C key a sid jti accessJti now (now + refreshSeconds) ∧
      commitSession io db₁ ⟨sid, name, jti, now + refreshSeconds⟩ = .ok db' := by
  simp only [authenticate, bind_eq_ok, pure_eq_ok, Prod.mk.injEq, Prod.exists] at h
  obtain ⟨a, name, db₁, hbegin, db₂, hcommit, rfl, rfl⟩ := h
  exact ⟨a, name, db₁, hbegin, rfl, hcommit⟩

theorem deleteSession_eq_ok {refresh : Bytes} {now : Nat}
    (h : deleteSession C io key db refresh now = .ok db') :
    ∃ a claims, beginRefresh C io key db refresh now = .ok (a, claims) ∧
      db' = db.deleteSessions fun s => s.id = claims.sid := by
  simp only [deleteSession, bind_eq_ok, pure_eq_ok, Prod.exists] at h
  obtain ⟨a, claims, hbegin, _, -, _, -, rfl⟩ := h
  exact ⟨a, claims, hbegin, rfl⟩

end Store

end PurpleSky.Credentials
