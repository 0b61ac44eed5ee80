import PurpleSky.Lib.Table
import PurpleSky.Credentials.Basic

/-!
# The credential database

The five tables of `credentials/state.sqlite3`. What SQLite enforces is part of the type: names and
session identifiers are primary keys, and every session refers to a password, so that deleting a
password deletes its sessions. Which statements fail is up to the environment (`Faults`).
-/

namespace PurpleSky.Credentials

/-- The row of the account table. -/
structure AccountRow where
  document : Bytes
  repoKey : Bytes
  deriving DecidableEq, Repr

/-- A row of the password table. -/
structure Password where
  name : Bytes
  salt : Bytes
  verifier : Bytes
  createdAt : Nat
  deriving DecidableEq, Repr

/-- A row of the session table. -/
structure SessionRow where
  id : Bytes
  passwordName : Bytes
  refreshJti : Bytes
  refreshExp : Nat
  deriving DecidableEq, Repr

/-- The database.
Source: `lib.rs`, `Store::open` (the schema) -/
structure Db where
  jwtKey : Option Bytes
  account : Option AccountRow
  passwords : Table Password.name
  sessions : Table SessionRow.id
  evidence : Option Bytes
  /-- `REFERENCES passwords(name)` -/
  references : ∀ s ∈ sessions.rows, ∃ p ∈ passwords.rows, p.name = s.passwordName

namespace Db

/-- A database file that was just created. -/
def empty : Db where
  jwtKey := none
  account := none
  passwords := .empty _
  sessions := .empty _
  evidence := none
  references := by simp

/-- `UPDATE account SET document=?1 WHERE id=1` -/
def setDocument (db : Db) (document : Bytes) : Db :=
  { db with account := db.account.map fun row => ⟨document, row.repoKey⟩ }

/-- `INSERT INTO passwords` -/
def insertPassword (db : Db) (p : Password) : Option Db :=
  match h : db.passwords.insert p with
  | none => none
  | some passwords => some { db with
      passwords := passwords
      references := by
        intro s hs
        obtain ⟨q, hq, hqs⟩ := db.references s hs
        have hrows := (Table.insert_eq_some_iff.mp h).2
        exact ⟨q, hrows ▸ List.mem_append_left _ hq, hqs⟩ }

/-- `DELETE FROM passwords`, and the sessions that refer to what is deleted. -/
def deletePasswords (db : Db) (p : Password → Bool) : Db := { db with
  passwords := db.passwords.delete p
  sessions := db.sessions.delete fun s =>
    db.passwords.rows.any fun q => p q && q.name = s.passwordName
  references := by
    intro s hs
    obtain ⟨hs, hkept⟩ := Table.mem_delete.mp hs
    obtain ⟨q, hq, hqs⟩ := db.references s hs
    refine ⟨q, Table.mem_delete.mpr ⟨hq, ?_⟩, hqs⟩
    have := List.any_eq_false.mp hkept q hq
    simpa [hqs] using this }

/-- `INSERT INTO sessions` -/
def insertSession (db : Db) (s : SessionRow) : Option Db :=
  match h : db.sessions.insert s with
  | none => none
  | some sessions =>
      if hp : ∃ p ∈ db.passwords.rows, p.name = s.passwordName then some { db with
        sessions := sessions
        references := by
          intro t ht
          rw [(Table.insert_eq_some_iff.mp h).2] at ht
          rcases List.mem_append.mp ht with ht | ht
          · exact db.references t ht
          · obtain rfl := List.mem_singleton.mp ht
            exact hp }
      else none

/-- `DELETE FROM sessions` -/
def deleteSessions (db : Db) (p : SessionRow → Bool) : Db := { db with
  sessions := db.sessions.delete p
  references := fun s hs => db.references s (Table.mem_delete.mp hs).1 }

/-- `UPDATE sessions SET refresh_jti=?1 WHERE id=?2 AND refresh_jti=?3`: how many rows it changed,
and the database after it. -/
def rotate (db : Db) (jti id old : Bytes) : Nat × Db :=
  let hit (s : SessionRow) : Bool := s.id = id && s.refreshJti = old
  (db.sessions.rows.countP hit, { db with
    sessions := db.sessions.update hit (fun s => { s with refreshJti := jti }) fun _ => rfl
    references := by
      intro s hs
      obtain ⟨t, ht, rfl⟩ := List.mem_map.mp hs
      obtain ⟨p, hp, hpt⟩ := db.references t ht
      refine ⟨p, hp, ?_⟩
      rw [hpt]
      split <;> rfl })

/-! ## What the statements do -/

variable {db db' : Db}

theorem insertPassword_eq_some {p : Password} (h : db.insertPassword p = some db') :
    (∀ q ∈ db.passwords.rows, q.name ≠ p.name) ∧
      db'.passwords.rows = db.passwords.rows ++ [p] ∧ db'.sessions = db.sessions ∧
      db'.jwtKey = db.jwtKey ∧ db'.account = db.account ∧ db'.evidence = db.evidence := by
  unfold insertPassword at h
  split at h
  · cases h
  · rename_i hi
    obtain rfl := Option.some.inj h
    obtain ⟨hnew, hrows⟩ := Table.insert_eq_some_iff.mp hi
    exact ⟨hnew, hrows, rfl, rfl, rfl, rfl⟩

theorem insertSession_eq_some {s : SessionRow} (h : db.insertSession s = some db') :
    (∀ t ∈ db.sessions.rows, t.id ≠ s.id) ∧
      db'.sessions.rows = db.sessions.rows ++ [s] ∧ db'.passwords = db.passwords ∧
      db'.jwtKey = db.jwtKey ∧ db'.account = db.account ∧ db'.evidence = db.evidence := by
  unfold insertSession at h
  split at h
  · cases h
  · rename_i hi
    split at h
    · obtain rfl := Option.some.inj h
      obtain ⟨hnew, hrows⟩ := Table.insert_eq_some_iff.mp hi
      exact ⟨hnew, hrows, rfl, rfl, rfl, rfl⟩
    · cases h

/-- A session with a new identifier, of a password that is there, can be inserted. -/
theorem exists_of_insertSession {s : SessionRow} (hid : ∀ t ∈ db.sessions.rows, t.id ≠ s.id)
    (hp : ∃ p ∈ db.passwords.rows, p.name = s.passwordName) :
    ∃ db', db.insertSession s = some db' := by
  unfold insertSession
  split
  · rename_i hinsert
    have hkey : ¬s.id ∈ db.sessions.rows.map SessionRow.id := by
      intro hmem
      obtain ⟨t, ht, hts⟩ := List.mem_map.mp hmem
      exact hid t ht hts
    rw [Table.insert, dif_neg hkey] at hinsert
    cases hinsert
  · exact ⟨_, dif_pos hp⟩

/-- The sessions left after deleting passwords are those of the passwords left. -/
theorem mem_sessions_deletePasswords {p : Password → Bool} {s : SessionRow} :
    s ∈ (db.deletePasswords p).sessions.rows ↔
      s ∈ db.sessions.rows ∧ ∀ q ∈ db.passwords.rows, q.name = s.passwordName → p q = false := by
  show s ∈ (db.sessions.delete _).rows ↔ _
  rw [Table.mem_delete, List.any_eq_false]
  refine and_congr_right fun _ => forall_congr' fun q => forall_congr' fun _ => ?_
  by_cases hq : q.name = s.passwordName <;> simp [hq]

/-- Deleting a password deletes the sessions that refer to it, and no other. -/
theorem sessions_deletePasswords_name (db : Db) (name : Bytes) :
    (db.deletePasswords fun p => p.name = name).sessions.rows =
      db.sessions.rows.filter fun s => s.passwordName ≠ name := by
  show (db.sessions.delete _).rows = _
  rw [Table.rows_delete]
  refine List.filter_congr fun s hs => ?_
  obtain ⟨q, hq, hqs⟩ := db.references s hs
  have hany : (db.passwords.rows.any fun p => p.name = name && p.name = s.passwordName) =
      decide (s.passwordName = name) := by
    rw [Bool.eq_iff_iff, List.any_eq_true, decide_eq_true_eq]
    constructor
    · rintro ⟨p, -, hp⟩
      simp only [Bool.and_eq_true, decide_eq_true_eq] at hp
      exact hp.2.symm.trans hp.1
    · intro h
      exact ⟨q, hq, by simp [hqs, h]⟩
  rw [hany, ← decide_not]

/-- A session with the replaced token is changed, and no other. -/
theorem mem_sessions_rotate {jti id old : Bytes} {s : SessionRow} :
    s ∈ (db.rotate jti id old).2.sessions.rows ↔
      (s ∈ db.sessions.rows ∧ ¬(s.id = id ∧ s.refreshJti = old)) ∨
        ∃ t ∈ db.sessions.rows, t.id = id ∧ t.refreshJti = old ∧
        s = { t with refreshJti := jti } := by
  show s ∈ List.map _ db.sessions.rows ↔ _
  rw [List.mem_map]
  constructor
  · rintro ⟨t, ht, rfl⟩
    by_cases hit : t.id = id ∧ t.refreshJti = old
    · exact .inr ⟨t, ht, hit.1, hit.2, by simp [hit]⟩
    · have hs : (if (decide (t.id = id) && decide (t.refreshJti = old)) = true then
          { t with refreshJti := jti } else t) = t := by
        rw [if_neg]
        simpa using fun h₁ h₂ => hit ⟨h₁, h₂⟩
      rw [hs]
      exact .inl ⟨ht, hit⟩
  · rintro (⟨hs, hit⟩ | ⟨t, ht, rfl, rfl, rfl⟩)
    · refine ⟨s, hs, if_neg ?_⟩
      simpa using fun h₁ h₂ => hit ⟨h₁, h₂⟩
    · exact ⟨t, ht, by simp⟩

end Db

/-! ## Failing statements -/

/-- The tables. -/
inductive TableName where
  | secrets
  | account
  | passwords
  | sessions
  | evidence
  deriving DecidableEq, Repr

/-- The statements of an operation. -/
inductive Statement where
  | begin
  | select (t : TableName)
  | insert (t : TableName)
  | update (t : TableName)
  | delete (t : TableName)
  | commit
  deriving DecidableEq, Repr

/-- Which statements of an operation fail. -/
abbrev Faults := Statement → Bool

/-- No statement fails. -/
def noFaults : Faults := fun _ => false

/-- Run a statement. -/
def Faults.run (io : Faults) (s : Statement) : Except Error Unit :=
  ensure (io s = false) .persistence

/-- Bind a number of sixty-four unsigned bits to a statement, whose numbers are signed. -/
def bindU64 (n : Nat) : Except Error Unit := ensure (n < 9223372036854775808) .persistence

end PurpleSky.Credentials
