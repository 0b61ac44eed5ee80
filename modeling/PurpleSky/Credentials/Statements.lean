import PurpleSky.Lib.Connection
import PurpleSky.Credentials.Store

/-!
# The operations of the store, statement by statement

The operations as they run on a connection: where a transaction begins, which statements read or
write, and where it commits. What an operation has written when it fails is rolled back with its
transaction; `set_evidence` and `revoke_password` write with a single statement.

* **`performs_authenticate`** and the like: an operation stores what the function of the same name
  in `Store` says, or changes nothing.
* **`all_or_nothing`**: an operation that fails leaves the database as it was, and so does one that
  only reads.
-/

namespace PurpleSky.Credentials

open Bytes Connection

namespace Statements

variable (C : Crates) (io : Faults) (key : Bytes)

/-- Go on when a condition holds. -/
def check (c : Prop) [Decidable c] (e : Error) : Procedure (Connection Db) Error Unit :=
  Procedure.lift (ensure c e)

/-- A statement that changes one table. -/
def write (s : Statement) (f : Db → Except Error Db) : Procedure (Connection Db) Error Unit :=
  execute fun db => do
    io.run s
    let db ← f db
    pure ((), db)

/-- A transaction of the store. -/
def transaction {α : Type} (body : Procedure (Connection Db) Error α) :
    Procedure (Connection Db) Error α :=
  Connection.transaction (io.run .begin) body

/-- Commit, and return a value. -/
def finish {α : Type} (a : α) : Procedure (Connection Db) Error α := do
  commit (io.run .commit)
  pure a

/-- Source: `lib.rs`, `Store::set_evidence` -/
def setEvidence (document : Bytes) : Procedure (Connection Db) Error Unit := do
  check (document ≠ [] ∧ document.length ≤ 32 * 1024) .invalidInput
  let _ ← select (Store.enabledAccount C io)
  write io (.insert .evidence) fun db => pure { db with evidence := some document }

/-- Source: `lib.rs`, `Store::bind_verified` -/
def bindVerified (fid : Nat) (authority : Bytes) (identity : Identity) (now : Nat)
    (random : Bytes) : Procedure (Connection Db) Error Account := do
  Procedure.lift (identity.validate C)
  check (fid ≠ 0 ∧ fid < 9223372036854775808 ∧ validAuthority authority) .invalidInput
  transaction io do
    match ← select (Store.loadAccount C io) with
    | some account => do
        check (account.fid = fid ∧ account.identity = identity ∧
          ¬(account.enabled ∧ account.authority ≠ authority)) .bindingConflict
        let account := { account with enabled := true, authority := authority }
        write io (.update .account) fun db => pure (db.setDocument (encodeAccount C account))
        finish io account
    | none => do
        let account ← Procedure.lift (Store.newAccount C fid authority identity now random)
        write io (.insert .account) fun db =>
          pure { db with account := some ⟨encodeAccount C account, random⟩ }
        finish io account

/-- Source: `lib.rs`, `Store::invalidate_authority` -/
def invalidateAuthority : Procedure (Connection Db) Error Unit :=
  transaction io do
    let account ← select (Store.loadAccount C io)
    let account ← Procedure.lift (okOr account .notBound)
    let account := { account with enabled := false }
    write io (.update .account) fun db => pure (db.setDocument (encodeAccount C account))
    write io (.delete .passwords) fun db => pure (db.deletePasswords fun _ => true)
    write io (.delete .evidence) fun db => pure { db with evidence := none }
    finish io ()

/-- Source: `lib.rs`, `Store::issue_password` -/
def issuePassword (name : Bytes) (now : Nat) (random salt : Bytes) :
    Procedure (Connection Db) Error IssuedPassword := do
  check (validName name) .invalidInput
  transaction io do
    let _ ← select (Store.enabledAccount C io)
    let count ← select fun db => do
      io.run (.select .passwords)
      pure db.passwords.rows.length
    check (count < maxPasswords) .limit
    let row ← select fun db => pure (db.passwords.find? name)
    check (row = none) .invalidInput
    let password := str "psky-" ++ segment random
    write io (.insert .passwords) fun db => do
      bindU64 now
      okOr (db.insertPassword ⟨name, salt, passwordHash salt password, now⟩) .persistence
    finish io ⟨⟨name, now⟩, password⟩

/-- Source: `lib.rs`, `Store::revoke_password` -/
def revokePassword (name : Bytes) : Procedure (Connection Db) Error Unit := do
  check (validName name) .invalidInput
  write io (.delete .passwords) fun db => pure (db.deletePasswords fun p => p.name = name)

/-- Source: `lib.rs`, `Store::authenticate` -/
def authenticate (identifier password : Bytes) (now : Nat) (sid jti accessJti : Bytes) :
    Procedure (Connection Db) Error Session := do
  check (Store.credentialForm identifier password) .invalidCredentials
  transaction io do
    let (account, name) ← select fun db => Store.verifyPassword C io db identifier password
    Procedure.lift (bindU64 now)
    write io (.delete .sessions) fun db => pure (db.deleteSessions fun s => s.refreshExp ≤ now)
    let count ← select fun db => do
      io.run (.select .sessions)
      pure db.sessions.rows.length
    check (count < maxSessions) .limit
    let expires := now + refreshSeconds
    let session := Store.createSession C key account sid jti accessJti now expires
    write io (.insert .sessions) fun db => do
      bindU64 expires
      okOr (db.insertSession ⟨sid, name, jti, expires⟩) .persistence
    finish io session

/-- Source: `lib.rs`, `Store::refresh_session` -/
def refreshSession (refresh : Bytes) (now : Nat) (jti accessJti : Bytes) :
    Procedure (Connection Db) Error Session :=
  transaction io do
    let (account, claims) ← select fun db => Store.readToken C io key db refresh .refresh now
    select fun db => Store.validateSession io db claims true now
    let session := Store.createSession C key account claims.sid jti accessJti now claims.exp
    let changed ← execute fun db => do
      io.run (.update .sessions)
      pure (db.rotate jti claims.sid claims.jti)
    check (changed = 1) .invalidToken
    finish io session

/-- Source: `lib.rs`, `Store::delete_session` -/
def deleteSession (refresh : Bytes) (now : Nat) : Procedure (Connection Db) Error Unit :=
  transaction io do
    let (_, claims) ← select fun db => Store.readToken C io key db refresh .refresh now
    select fun db => Store.validateSession io db claims true now
    write io (.delete .sessions) fun db => pure (db.deleteSessions fun s => s.id = claims.sid)
    finish io ()

/-- Source: `lib.rs`, `Store::get_session` -/
def getSession (access : Bytes) (now now' : Nat) : Procedure (Connection Db) Error SessionInfo := do
  let (account, claims) ← select fun db => Store.readToken C io key db access .access now
  select fun db => Store.validateSession io db claims false now'
  pure (sessionInfo account)

/-- Source: `lib.rs`, `Store::validate_refresh` -/
def validateRefresh (refresh : Bytes) (now : Nat) :
    Procedure (Connection Db) Error SessionInfo := do
  let (account, claims) ← select fun db => Store.readToken C io key db refresh .refresh now
  select fun db => Store.validateSession io db claims true now
  pure (sessionInfo account)

/-! ## What the operations store -/

variable {C io key}

theorem performs_setEvidence (document : Bytes) :
    Performs (setEvidence C io document) fun db =>
      (Store.setEvidence C io db document).map fun db => ((), db) := by
  refine (Performs.after_lift fun _ => Performs.after_select fun _ => performs_execute _).of_eq ?_
  intro db
  simp only [Store.setEvidence, Store.checkEvidence, Store.writeEvidence, Except.map_eq_bind,
    bind_assoc, pure_bind]

/-- What `bind_verified` stores over the account it has read. -/
def bindOver (C : Crates) (io : Faults) (fid : Nat) (authority : Bytes) (identity : Identity)
    (now : Nat) (random : Bytes) : Option Account → Db → Except Error (Account × Db)
  | some account, db => do
      ensure (account.fid = fid ∧ account.identity = identity ∧
        ¬(account.enabled ∧ account.authority ≠ authority)) .bindingConflict
      let account := { account with enabled := true, authority := authority }
      io.run (.update .account)
      io.run .commit
      pure (account, db.setDocument (encodeAccount C account))
  | none, db => do
      let account ← Store.newAccount C fid authority identity now random
      io.run (.insert .account)
      io.run .commit
      pure (account, { db with account := some ⟨encodeAccount C account, random⟩ })

theorem performs_bindVerified (fid : Nat) (authority : Bytes) (identity : Identity) (now : Nat)
    (random : Bytes) :
    Performs (bindVerified C io fid authority identity now random) fun db =>
      Store.bindVerified C io db fid authority identity now random := by
  refine (Performs.after_lift fun _ => Performs.after_lift fun _ => Commits.performs
    ((does_select _).commits (g := bindOver C io fid authority identity now random) ?_) _).of_eq ?_
  · rintro (_ | account)
    · refine ((does_lift _).commits fun _ => (does_execute _).commits fun _ =>
        commits_commit _ _).of_eq fun db => ?_
      simp only [bindOver, keeping_bind, keeping_map, bind_assoc, pure_bind]
    · refine ((does_lift _).commits fun _ => (does_execute _).commits fun _ =>
        commits_commit _ _).of_eq fun db => ?_
      simp only [bindOver, keeping_bind, keeping_map, bind_assoc, pure_bind]
  · intro db
    simp only [Store.bindVerified, keeping_bind]
    refine bind_congr fun _ => bind_congr fun _ => bind_congr fun _ => bind_congr fun old => ?_
    cases old <;> rfl

theorem performs_invalidateAuthority :
    Performs (invalidateAuthority C io) fun db =>
      (Store.invalidateAuthority C io db).map fun db => ((), db) := by
  refine (Commits.performs ((does_select _).commits fun _ => (does_lift _).commits fun _ =>
    (does_execute _).commits fun _ => (does_execute _).commits fun _ =>
      (does_execute _).commits fun _ => commits_commit _ _) _).of_eq ?_
  intro db
  simp only [keeping_bind, keeping_map]
  simp only [Store.invalidateAuthority, Except.map_eq_bind, bind_assoc, pure_bind]

theorem performs_issuePassword (name : Bytes) (now : Nat) (random salt : Bytes) :
    Performs (issuePassword C io name now random salt) fun db =>
      Store.issuePassword C io db name now random salt := by
  refine (Performs.after_lift fun _ => Commits.performs ((does_select _).commits fun _ =>
    (does_select _).commits fun _ => (does_lift _).commits fun _ => (does_select _).commits fun _ =>
      (does_lift _).commits fun _ => (does_execute _).commits fun _ =>
        commits_commit _ _) _).of_eq ?_
  intro db
  simp only [Store.issuePassword, keeping_bind, keeping_map, bind_assoc, pure_bind]

theorem performs_revokePassword (name : Bytes) :
    Performs (revokePassword io name) fun db =>
      (Store.revokePassword io db name).map fun db => ((), db) := by
  refine (Performs.after_lift fun _ => performs_execute _).of_eq ?_
  intro db
  simp only [Store.revokePassword, Except.map_eq_bind, bind_assoc, pure_bind]

theorem performs_authenticate (identifier password : Bytes) (now : Nat)
    (sid jti accessJti : Bytes) :
    Performs (authenticate C io key identifier password now sid jti accessJti) fun db =>
      Store.authenticate C io key db identifier password now sid jti accessJti := by
  refine (Performs.after_lift fun _ => Commits.performs ((does_select _).commits fun _ =>
    (does_lift _).commits fun _ => (does_execute _).commits fun _ =>
      (does_select _).commits fun _ =>
      (does_lift _).commits fun _ => (does_execute _).commits fun _ =>
        commits_commit _ _) _).of_eq ?_
  intro db
  simp only [Store.authenticate, Store.beginAuthenticate, Store.commitSession, keeping_bind,
    keeping_map, bind_assoc, pure_bind]

theorem performs_refreshSession (refresh : Bytes) (now : Nat) (jti accessJti : Bytes) :
    Performs (refreshSession C io key refresh now jti accessJti) fun db =>
      Store.refreshSession C io key db refresh now jti accessJti := by
  refine (Commits.performs ((does_select _).commits fun _ => (does_select _).commits fun _ =>
    (does_execute _).commits fun _ => (does_lift _).commits fun _ => commits_commit _ _) _).of_eq ?_
  intro db
  simp only [Store.refreshSession, Store.beginRefresh, Store.commitRefresh, keeping_bind,
    keeping_map, bind_assoc, pure_bind]

theorem performs_deleteSession (refresh : Bytes) (now : Nat) :
    Performs (deleteSession C io key refresh now) fun db =>
      (Store.deleteSession C io key db refresh now).map fun db => ((), db) := by
  refine (Commits.performs ((does_select _).commits fun _ => (does_select _).commits fun _ =>
    (does_execute _).commits fun _ => commits_commit _ _) _).of_eq ?_
  intro db
  simp only [keeping_bind, keeping_map]
  simp only [Store.deleteSession, Store.beginRefresh, Except.map_eq_bind, bind_assoc, pure_bind]

end Statements

/-! ## All or nothing -/

/-- An operation of the store with its arguments, clock readings and random values. -/
inductive Operation where
  | setEvidence (document : Bytes)
  | bindVerified (fid : Nat) (authority : Bytes) (identity : Identity) (now : Nat) (random : Bytes)
  | invalidateAuthority
  | issuePassword (name : Bytes) (now : Nat) (random salt : Bytes)
  | revokePassword (name : Bytes)
  | authenticate (identifier password : Bytes) (now : Nat) (sid jti accessJti : Bytes)
  | refreshSession (refresh : Bytes) (now : Nat) (jti accessJti : Bytes)
  | deleteSession (refresh : Bytes) (now : Nat)
  | getSession (access : Bytes) (now now' : Nat)
  | validateRefresh (refresh : Bytes) (now : Nat)
  | validatePassword (identifier password : Bytes)
  | listPasswords
  | account
  | evidence
  | repository
  | emptyRepository
  | didDocument

/-- The operations that only read. -/
def Operation.readOnly : Operation → Bool
  | getSession .. | validateRefresh .. | validatePassword .. | listPasswords | account | evidence
  | repository | emptyRepository | didDocument => true
  | _ => false

/-- What an operation answers. -/
inductive Answer where
  | done
  | bound (account : Account)
  | issued (password : IssuedPassword)
  | session (session : Session)
  | info (info : SessionInfo)
  | passwords (passwords : List PasswordInfo)
  | account (account : Option Account)
  | evidence (document : Option Bytes)
  | repository (repository : Repo.Repository)
  | car (car : Bytes)
  | didDocument (document : Json)

/-- Run an operation on a connection. -/
def Operation.run (C : Crates) (io : Faults) (key : Bytes) :
    Operation → Procedure (Connection Db) Error Answer
  | setEvidence document => do
      Statements.setEvidence C io document
      pure .done
  | bindVerified fid authority identity now random => do
      let account ← Statements.bindVerified C io fid authority identity now random
      pure (.bound account)
  | invalidateAuthority => do
      Statements.invalidateAuthority C io
      pure .done
  | issuePassword name now random salt => do
      let password ← Statements.issuePassword C io name now random salt
      pure (.issued password)
  | revokePassword name => do
      Statements.revokePassword io name
      pure .done
  | authenticate identifier password now sid jti accessJti => do
      let session ← Statements.authenticate C io key identifier password now sid jti accessJti
      pure (.session session)
  | refreshSession refresh now jti accessJti => do
      let session ← Statements.refreshSession C io key refresh now jti accessJti
      pure (.session session)
  | deleteSession refresh now => do
      Statements.deleteSession C io key refresh now
      pure .done
  | getSession access now now' => do
      let info ← Statements.getSession C io key access now now'
      pure (.info info)
  | validateRefresh refresh now => do
      let info ← Statements.validateRefresh C io key refresh now
      pure (.info info)
  | validatePassword identifier password => do
      select fun db => Store.validatePassword C io db identifier password
      pure .done
  | listPasswords => do
      let passwords ← select (Store.listPasswords io)
      pure (.passwords passwords)
  | account => do
      let account ← select (Store.account C io)
      pure (.account account)
  | evidence => do
      let document ← select (Store.evidence io)
      pure (.evidence document)
  | repository => do
      let repository ← select (Store.repository C io)
      pure (.repository repository)
  | emptyRepository => do
      let car ← select (Store.emptyRepository C io)
      pure (.car car)
  | didDocument => do
      let document ← select (Store.storeDidDocument C io)
      pure (.didDocument document)

/-- An operation that only reads leaves every connection as it is. -/
theorem Operation.readOnly_run {C : Crates} {io : Faults} {key : Bytes} {op : Operation}
    (h : op.readOnly = true) : ReadOnly (op.run C io key) := by
  cases op with
  | getSession access now now' =>
      refine ReadOnly.bind (ReadOnly.bind (readOnly_select _) fun _ => ?_) fun _ => readOnly_pure _
      exact ReadOnly.bind (readOnly_select _) fun _ => readOnly_pure _
  | validateRefresh refresh now =>
      refine ReadOnly.bind (ReadOnly.bind (readOnly_select _) fun _ => ?_) fun _ => readOnly_pure _
      exact ReadOnly.bind (readOnly_select _) fun _ => readOnly_pure _
  | validatePassword => exact ReadOnly.bind (readOnly_select _) fun _ => readOnly_pure _
  | listPasswords => exact ReadOnly.bind (readOnly_select _) fun _ => readOnly_pure _
  | account => exact ReadOnly.bind (readOnly_select _) fun _ => readOnly_pure _
  | evidence => exact ReadOnly.bind (readOnly_select _) fun _ => readOnly_pure _
  | repository => exact ReadOnly.bind (readOnly_select _) fun _ => readOnly_pure _
  | emptyRepository => exact ReadOnly.bind (readOnly_select _) fun _ => readOnly_pure _
  | didDocument => exact ReadOnly.bind (readOnly_select _) fun _ => readOnly_pure _
  | _ => cases h

/-- **Operations of the store are all or nothing.** On every database, with any arguments, clock
readings and failing statements, an operation that fails leaves what is stored as it was, and an
operation that only reads leaves it so in any case. -/
theorem all_or_nothing (C : Crates) (io : Faults) (key : Bytes) (op : Operation) (db : Db) :
    (∀ e, (op.run C io key (idle db)).1 = .error e → (op.run C io key (idle db)).2 = idle db) ∧
      (op.readOnly = true → (op.run C io key (idle db)).2 = idle db) := by
  have answered : ∀ {α : Type} {x : Procedure (Connection Db) Error α}
      {f : Db → Except Error (α × Db)} {g : α → Answer} {e : Error}, Performs x f →
      ((x >>= fun a => pure (g a)) (idle db)).1 = .error e →
      ((x >>= fun a => pure (g a)) (idle db)).2 = idle db := by
    intro α x f g e hx he
    cases hf : f db with
    | error e' => rw [Procedure.bind_of_error (hx.error hf)]
    | ok r =>
        rw [Procedure.bind_of_ok (hx.ok hf)] at he
        cases he
  refine ⟨fun e he => ?_, fun h => Operation.readOnly_run h _⟩
  cases op with
  | setEvidence document => exact answered (Statements.performs_setEvidence document) he
  | bindVerified fid authority identity now random =>
      exact answered (Statements.performs_bindVerified fid authority identity now random) he
  | invalidateAuthority => exact answered Statements.performs_invalidateAuthority he
  | issuePassword name now random salt =>
      exact answered (Statements.performs_issuePassword name now random salt) he
  | revokePassword name => exact answered (Statements.performs_revokePassword name) he
  | authenticate identifier password now sid jti accessJti =>
      exact answered
        (Statements.performs_authenticate identifier password now sid jti accessJti) he
  | refreshSession refresh now jti accessJti =>
      exact answered (Statements.performs_refreshSession refresh now jti accessJti) he
  | deleteSession refresh now => exact answered (Statements.performs_deleteSession refresh now) he
  | _ => exact Operation.readOnly_run rfl _

end PurpleSky.Credentials
