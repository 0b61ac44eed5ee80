import PurpleSky.Credentials.Live

/-!
# Which passwords are accepted

* **`password_accepted_iff`**: the check of an identifier and a password succeeds exactly for the
  handle or the DID of an enabled account and the plaintext of a password that was issued and
  neither revoked nor lost to an invalidation since; then `authenticate` fails, storage apart,
  exactly when there are `maxSessions` sessions that have not expired.

Only sixteen rows are looked at. That this is all of them, that every row has the right lengths, and
that an account with passwords can be read, holds in every reachable state (`Secured`).
-/

namespace PurpleSky.Credentials

open Bytes Store

variable {C : Crates} {io : Faults} {key : Bytes} {db : Db}

/-! ## The invariant -/

/-- Passwords can be checked: their rows have the right lengths, and the account can be read. -/
structure Secured (C : Crates) (w : World) : Prop extends Live C w where
  lengths : ∀ p ∈ w.db.passwords.rows, p.salt.length = 32 ∧ p.verifier.length = 32
  short : w.db.passwords.rows ≠ [] → ∀ row ∈ w.db.account, row.document.length ≤ 8192

/-- A new database has no passwords. -/
theorem secured_init (C : Crates) : Secured C World.init where
  toLive := live_init C
  lengths := by simp [World.init, Db.empty]
  short := fun h => absurd rfl h

/-- The hash of a password has thirty-two bytes. -/
theorem length_passwordHash (salt password : Bytes) : (passwordHash salt password).length = 32 :=
  Sha2.length_sha256 _

/-- Every event keeps the database secured. -/
theorem keeps_secured (hC : C.json.Lawful) : (stores C).Keeps Typed (Secured C) (Secured C) := by
  intro w e hw he _
  have hlive := keeps_live hC w e hw.toLive he hw.toLive
  generalize hstep : w.step C e = p
  obtain ⟨w', reply⟩ := p
  have hafter : ((stores C).step w e).1 = w' := congrArg Prod.fst hstep
  rw [hafter] at hlive ⊢
  refine ⟨hlive, fun p hp => ?_, fun hne row hrow => ?_⟩
  · rcases step_rows hstep with ⟨hpasswords, -⟩ | ⟨i, io, c, rfl, hchange⟩
    · exact hw.lengths p (hpasswords ▸ hp)
    · cases hchange with
      | fewer passwords => exact hw.lengths p (passwords.subset hp)
      | issued name random salt now call reply enabled length passwords =>
          subst call
          rw [passwords] at hp
          rcases List.mem_append.mp hp with hp | hp
          · exact hw.lengths p hp
          · obtain rfl := List.mem_singleton.mp hp
            simp only [Typed, Event.wellTyped, Call.wellTyped, Bool.and_eq_true, beq_iff_eq] at he
            exact ⟨he.2, length_passwordHash _ _⟩
      | created identifier password sid jti accessJti name now call reply enabled length passwords =>
          exact hw.lengths p (passwords ▸ hp)
      | rotated refresh jti accessJti now claims call passwords =>
          exact hw.lengths p (passwords ▸ hp)
  · have hsame := (account_of_step hC hw.toLive he hstep).resolve_right hne
    rw [hsame] at hrow
    by_cases hold : w.db.passwords.rows = []
    · rcases step_rows hstep with ⟨hpasswords, -⟩ | ⟨i, io, c, rfl, hchange⟩
      · exact absurd (hpasswords ▸ hold) hne
      · cases hchange with
        | fewer passwords =>
            rw [hold] at passwords
            exact absurd (List.sublist_nil.mp passwords) hne
        | issued name random salt now call reply enabled =>
            -- the account was read when the password was issued
            obtain ⟨a, ha⟩ := enabled
            obtain ⟨row', hrow', hlen, -⟩ := loadAccount_eq_ok (enabledAccount_eq_ok ha).1
            obtain rfl := Option.some.inj (hrow'.symm.trans hrow)
            exact hlen
        | created identifier password sid jti accessJti name now call reply enabled length
            passwords => exact absurd (passwords ▸ hold) hne
        | rotated refresh jti accessJti now claims call passwords =>
            exact absurd (passwords ▸ hold) hne
    · exact hw.short hold row hrow

/-- The account of a store with passwords is enabled and can be read. -/
theorem Secured.account (hC : C.json.Lawful) {w : World} (hw : Secured C w)
    (hne : w.db.passwords.rows ≠ []) :
    ∃ a key, Bound C w.db a key ∧ a.enabled = true ∧ enabledAccount C noFaults w.db = .ok a := by
  rcases hw.stored with hnone | ⟨a, key, hb⟩
  · exact absurd (hw.authority (by simp [liveAuthority, hnone])) hne
  · have henabled : a.enabled = true := by
      by_contra hdisabled
      exact hne (hw.authority (by simp [hb.liveAuthority_eq hC, hdisabled]))
    have hload : loadAccount C noFaults w.db = .ok (some a) :=
      hb.loadAccount hC rfl (hw.short hne _ hb.row)
    refine ⟨a, key, hb, henabled, ?_⟩
    refine bind_eq_ok.mpr ⟨some a, hload, bind_eq_ok.mpr ⟨a, rfl, ?_⟩⟩
    exact bind_eq_ok.mpr ⟨(), ensure_eq_ok.mpr henabled, rfl⟩

/-! ## The check -/

/-- Rows of the right lengths are searched to the end; the search finds a row whose verifier fits.
-/
theorem matchPassword_of_lengths {password : Bytes} {rows : List Password}
    (h : ∀ p ∈ rows, p.salt.length = 32 ∧ p.verifier.length = 32) (found : Option Bytes) :
    ∃ name, matchPassword password rows found = .ok name ∧
      (name.isSome = true ↔
        found.isSome = true ∨ ∃ p ∈ rows, passwordHash p.salt password = p.verifier) := by
  induction rows generalizing found with
  | nil => exact ⟨found, rfl, by simp⟩
  | cons p rows ih =>
      obtain ⟨name, hname, hiff⟩ := ih (fun q hq => h q (List.mem_cons_of_mem _ hq))
        (if passwordHash p.salt password = p.verifier then some p.name else found)
      refine ⟨name, bind_eq_ok.mpr ⟨(), ensure_eq_ok.mpr (h p List.mem_cons_self), hname⟩, ?_⟩
      rw [hiff]
      by_cases hp : passwordHash p.salt password = p.verifier
      · simp [hp]
      · simp [hp]

/-- What it takes to pass the check, by the rows. -/
theorem validatePassword_isOk_iff (hC : C.json.Lawful)
    (hport : ∀ s url port, C.parseUrl s = some url → url.port = some port → port < 65536)
    {w : World} (hw : Secured C w) (identifier password : Bytes) :
    (validatePassword C noFaults w.db identifier password).isOk = true ↔
      (password.length = 48 ∧ (str "psky-").isPrefixOf password = true) ∧
      (∃ p ∈ w.db.passwords.rows, passwordHash p.salt password = p.verifier) ∧
      ∃ a key, Bound C w.db a key ∧ a.enabled = true ∧
        (identifier = a.identity.handle ∨ identifier = a.identity.did) := by
  have htake : w.db.passwords.rows.take 16 = w.db.passwords.rows :=
    List.take_of_length_le hw.passwords
  obtain ⟨found, hfound, hiff⟩ := @matchPassword_of_lengths password _ hw.lengths none
  simp only [Option.isSome_none, Bool.false_eq_true, false_or] at hiff
  constructor
  · intro h
    obtain ⟨u, h⟩ := exists_of_isOk h
    simp only [validatePassword, verifyPassword, bind_eq_ok, ensure_eq_ok, okOr_eq_ok,
      mapError_eq_ok, htake, hfound, Except.ok.injEq] at h
    obtain ⟨_, ⟨_, hform, a, ha, _, -, found', rfl, _, hidentifier, name, rfl, -⟩, -⟩ := h
    obtain ⟨key, hb⟩ := hw.stored.bound hC (enabledAccount_eq_ok ha).1
    simp only [credentialForm, Bool.and_eq_true, decide_eq_true_eq] at hform
    exact ⟨⟨hform.1.2, hform.2⟩, hiff.mp rfl, a, key, hb, (enabledAccount_eq_ok ha).2, hidentifier⟩
  · rintro ⟨⟨hlength, hprefix⟩, ⟨p, hp, hfit⟩, a, key, hb, -, hidentifier⟩
    obtain ⟨a', key', hb', -, henabled⟩ := hw.account hC (List.ne_nil_of_mem hp)
    obtain ⟨rfl, rfl⟩ := hb.unique hC hb'
    obtain ⟨hhandle, hdid, -⟩ := Identity.length_le hport hb.genuine.identity
    obtain ⟨name, rfl⟩ := Option.isSome_iff_exists.mp (hiff.mpr ⟨p, hp, hfit⟩)
    have hform : credentialForm identifier password = true := by
      have hlen : identifier.length ≤ 512 := by
        rcases hidentifier with rfl | rfl
        · omega
        · omega
      simp [credentialForm, hlen, hlength, hprefix]
    have hok : validatePassword C noFaults w.db identifier password = .ok () := by
      simp only [validatePassword, verifyPassword, bind_eq_ok, ensure_eq_ok, okOr_eq_ok,
        mapError_eq_ok, htake, hfound, Except.ok.injEq]
      exact ⟨(a', name), ⟨(), hform, a', henabled, (), rfl, some name, rfl, (), hidentifier, name, rfl,
        rfl⟩, rfl⟩
    rw [hok]
    rfl

/-! ## Logging in -/

/-- A statement fails as one of the storage, or does nothing more. -/
theorem run_cases (io : Faults) (s : Statement) :
    io.run s = .error .persistence ∨ io.run s = .ok () := by
  unfold Faults.run ensure
  by_cases h : io s = false
  · simp [h]
  · simp [h]

/-- Failing statements apart, the account is what it is. -/
theorem loadAccount_cases (C : Crates) (io : Faults) (db : Db) :
    loadAccount C io db = .error .persistence ∨
      loadAccount C io db = loadAccount C noFaults db := by
  unfold loadAccount
  rcases run_cases io (.select .account) with h | h
  · rw [h]
    exact .inl rfl
  · rw [h]
    exact .inr rfl

/-- A password that verifies without faults verifies with them, or the storage fails. -/
theorem verifyPassword_cases (io : Faults) {identifier password name : Bytes} {a : Account}
    (h : verifyPassword C noFaults db identifier password = .ok (a, name)) :
    verifyPassword C io db identifier password = .error .persistence ∨
      verifyPassword C io db identifier password = .ok (a, name) := by
  simp only [verifyPassword, bind_eq_ok, ensure_eq_ok, okOr_eq_ok, mapError_eq_ok, pure_eq_ok,
    Prod.mk.injEq] at h
  obtain ⟨_, hform, b, henabled, _, -, found, hfound, _, hidentifier, name', rfl, rfl, rfl⟩ := h
  have hensure : ensure (credentialForm identifier password = true) Error.invalidCredentials =
      .ok () := ensure_eq_ok.mpr hform
  rcases loadAccount_cases C io db with hload | hload
  · refine .inl ?_
    rw [verifyPassword, hensure, enabledAccount, hload]
    rfl
  · have hsame : enabledAccount C io db = .ok b := by
      rw [enabledAccount, hload]
      exact henabled
    rcases run_cases io (.select .passwords) with hrun | hrun
    · refine .inl ?_
      rw [verifyPassword, hensure, hsame, hrun]
      rfl
    · refine .inr ?_
      simp only [verifyPassword, bind_eq_ok, ensure_eq_ok, okOr_eq_ok, mapError_eq_ok, pure_eq_ok,
        Prod.mk.injEq]
      exact ⟨(), hform, b, hsame, (), hrun, some name', hfound, (), hidentifier, name',
        rfl, rfl, rfl⟩

/-- How many sessions have not expired. -/
def activeSessions (db : Db) (now : Nat) : Nat :=
  db.sessions.rows.countP fun s => now < s.refreshExp

/-- As many sessions stay as are active. -/
theorem length_deleteSessions (db : Db) (now : Nat) :
    (db.deleteSessions fun s => s.refreshExp ≤ now).sessions.rows.length = activeSessions db now := by
  show (Table.delete _ _).rows.length = _
  rw [Table.rows_delete, ← List.countP_eq_length_filter, activeSessions]
  refine List.countP_congr fun s _ => ?_
  simp

/-- There are never more active sessions than the limit. -/
theorem activeSessions_le (hw : Live C w) (now : Nat) : activeSessions w.db now ≤ maxSessions :=
  List.countP_le_length.trans hw.sessions

/-- A number is bound, or the storage fails. -/
theorem bindU64_cases (n : Nat) : bindU64 n = .error .persistence ∨ bindU64 n = .ok () := by
  unfold bindU64 ensure
  by_cases h : n < 9223372036854775808
  · simp [h]
  · simp [h]

section

variable {identifier password name sid jti accessJti : Bytes} {a : Account} {now : Nat}

/-- After a check that succeeds, logging in goes on, storage apart, exactly when there is room. -/
theorem beginAuthenticate_cases (io : Faults)
    (h : verifyPassword C noFaults db identifier password = .ok (a, name)) :
    beginAuthenticate C io db identifier password now = .error .persistence ∨
      (¬activeSessions db now < maxSessions ∧
        beginAuthenticate C io db identifier password now = .error .limit) ∨
      (activeSessions db now < maxSessions ∧
        beginAuthenticate C io db identifier password now =
          .ok (a, name, db.deleteSessions fun s => s.refreshExp ≤ now)) := by
  have hensure : ensure (credentialForm identifier password = true) Error.invalidCredentials =
      .ok () := by
    simp only [verifyPassword, bind_eq_ok, ensure_eq_ok] at h
    obtain ⟨_, hform, -⟩ := h
    exact ensure_eq_ok.mpr hform
  unfold beginAuthenticate
  rw [hensure]
  rcases run_cases io .begin with hbegin | hbegin
  · exact .inl (by rw [hbegin]; rfl)
  rcases verifyPassword_cases io h with hverify | hverify
  · exact .inl (by rw [hbegin, hverify]; rfl)
  rcases bindU64_cases now with hnow | hnow
  · exact .inl (by rw [hbegin, hverify]; simp only [bind, Except.bind, hnow])
  rcases run_cases io (.delete .sessions) with hdelete | hdelete
  · exact .inl (by rw [hbegin, hverify]; simp only [bind, Except.bind, hnow, hdelete])
  rcases run_cases io (.select .sessions) with hselect | hselect
  · exact .inl (by rw [hbegin, hverify]; simp only [bind, Except.bind, hnow, hdelete, hselect])
  rw [hbegin, hverify]
  simp only [bind, Except.bind, hnow, hdelete, hselect, length_deleteSessions, ensure]
  by_cases hroom : activeSessions db now < maxSessions
  · exact .inr (.inr ⟨hroom, by rw [if_pos hroom]; rfl⟩)
  · exact .inr (.inl ⟨hroom, by rw [if_neg hroom]⟩)

/-- A session is committed, or the storage fails. -/
theorem commitSession_cases (io : Faults) (db : Db) (row : SessionRow) :
    commitSession io db row = .error .persistence ∨ ∃ db', commitSession io db row = .ok db' := by
  unfold commitSession
  rcases run_cases io (.insert .sessions) with hinsert | hinsert
  · exact .inl (by rw [hinsert]; rfl)
  rcases bindU64_cases row.refreshExp with hexp | hexp
  · exact .inl (by rw [hinsert, hexp]; rfl)
  rw [hinsert, hexp]
  cases db.insertSession row with
  | none => exact .inl rfl
  | some db' =>
      rcases run_cases io .commit with hcommit | hcommit
      · exact .inl (by rw [hcommit]; rfl)
      · exact .inr ⟨db', by rw [hcommit]; rfl⟩

/-- A login after a check that succeeds fails for want of storage, or for want of room when there
is none, or succeeds. -/
theorem authenticate_cases (io : Faults) (key : Bytes)
    (h : verifyPassword C noFaults db identifier password = .ok (a, name)) :
    Store.authenticate C io key db identifier password now sid jti accessJti = .error .persistence ∨
      (¬activeSessions db now < maxSessions ∧
        Store.authenticate C io key db identifier password now sid jti accessJti = .error .limit) ∨
      (activeSessions db now < maxSessions ∧ ∃ r,
        Store.authenticate C io key db identifier password now sid jti accessJti = .ok r) := by
  unfold Store.authenticate
  rcases @beginAuthenticate_cases C db identifier password name a now io h with
    hbegin | ⟨hfull, hbegin⟩ | ⟨hroom, hbegin⟩
  · exact .inl (by rw [hbegin]; rfl)
  · exact .inr (.inl ⟨hfull, by rw [hbegin]; rfl⟩)
  · rw [hbegin]
    rcases commitSession_cases io (db.deleteSessions fun s => s.refreshExp ≤ now)
      ⟨sid, name, jti, now + refreshSeconds⟩ with hcommit | ⟨db', hcommit⟩
    · exact .inl (by simp only [bind, Except.bind, hcommit])
    · exact .inr (.inr ⟨hroom, _, by simp only [bind, Except.bind, hcommit]; rfl⟩)

/-- Without faults the first part of a sign-in does not fail in the storage. -/
theorem beginAuthenticate_stored
    (h : verifyPassword C noFaults db identifier password = .ok (a, name))
    (hnow : now < 9223372036854775808) :
    beginAuthenticate C noFaults db identifier password now ≠ .error .persistence := by
  have hrun : ∀ s, noFaults.run s = .ok () := fun _ => rfl
  have hform : credentialForm identifier password = true := by
    simp only [verifyPassword, bind_eq_ok, ensure_eq_ok] at h
    obtain ⟨_, hform, -⟩ := h
    exact hform
  intro herror
  simp only [beginAuthenticate, bind_eq_error, h, hrun, ensure_eq_error, bindU64, hnow, hform,
    not_true_eq_false, false_and, reduceCtorEq, and_false, exists_false, Except.ok.injEq, pure,
    Except.pure, or_false] at herror

/-- Without faults a session with a new identifier, of a stored password, is committed. -/
theorem commitSession_stored {row : SessionRow} (hid : ∀ s ∈ db.sessions.rows, s.id ≠ row.id)
    (hp : ∃ p ∈ db.passwords.rows, p.name = row.passwordName)
    (hexp : row.refreshExp < 9223372036854775808) :
    ∃ db', commitSession noFaults db row = .ok db' := by
  obtain ⟨db', hinsert⟩ := Db.exists_of_insertSession hid hp
  refine ⟨db', ?_⟩
  simp only [commitSession, bind_eq_ok, okOr_eq_ok, pure_eq_ok, bindU64, ensure_eq_ok]
  exact ⟨(), rfl, (), hexp, db', hinsert, (), rfl, rfl⟩

/-- With a time that can be stored and a new identifier, storage has no reason to fail. -/
theorem authenticate_stored (key : Bytes)
    (h : verifyPassword C noFaults db identifier password = .ok (a, name))
    (hnow : now + refreshSeconds < 9223372036854775808)
    (hsid : ∀ s ∈ db.sessions.rows, s.id ≠ sid) :
    Store.authenticate C noFaults key db identifier password now sid jti accessJti ≠
      .error .persistence := by
  have hbegin := @beginAuthenticate_stored C db identifier password name a now h (by omega)
  intro herror
  simp only [Store.authenticate, bind_eq_error, Prod.exists, pure, Except.pure, reduceCtorEq,
    and_false, exists_false, or_false] at herror
  rcases herror with herror | ⟨b, name', db₁, hok, hcommit⟩
  · exact hbegin herror
  · obtain ⟨-, ⟨p, hp, hname⟩, -, rfl⟩ := beginAuthenticate_eq_ok hok
    obtain ⟨db', hstored⟩ := @commitSession_stored (db.deleteSessions fun s => s.refreshExp ≤ now)
      ⟨sid, name', jti, now + refreshSeconds⟩ (fun t ht => hsid t (Table.mem_delete.mp ht).1)
      ⟨p, hp, hname⟩ hnow
    rw [hstored] at hcommit
    cases hcommit

/-- A check that succeeds at all succeeds when no statement fails. -/
theorem verifyPassword_noFaults (h : verifyPassword C io db identifier password = .ok (a, name)) :
    verifyPassword C noFaults db identifier password = .ok (a, name) := by
  simp only [verifyPassword, bind_eq_ok, ensure_eq_ok, okOr_eq_ok, mapError_eq_ok, pure_eq_ok,
    Prod.mk.injEq] at h ⊢
  obtain ⟨_, hform, b, henabled, _, -, found, hfound, _, hidentifier, name', rfl, rfl, rfl⟩ := h
  refine ⟨(), hform, b, ?_, (), rfl, some name', hfound, (), hidentifier, name', rfl, rfl, rfl⟩
  rcases loadAccount_cases C io db with hload | hload
  · rw [enabledAccount, hload] at henabled
    cases henabled
  · rw [enabledAccount, hload] at henabled
    exact henabled

end

/-! ## Runs -/

/-- The identifier is the handle or the DID of the account, which is enabled. -/
def Names (C : Crates) (db : Db) (identifier : Bytes) : Prop :=
  ∃ row a, db.account = some row ∧ row.account? C = some a ∧ a.enabled = true ∧
    (identifier = a.identity.handle ∨ identifier = a.identity.did)

/-- A run issued a password with this plaintext, and has neither revoked it nor lost it to an
invalidation since. -/
def InUse (C : Crates) (es : List Event) (password : Bytes) : Prop :=
  ∃ pre x post info, (stores C).trace World.init es = pre ++ x :: post ∧
    issued x = some ⟨info, password⟩ ∧ ∀ y ∈ post, revoked y ≠ some info.name ∧
      invalidated y = false

/-- A step draws a salt and a password whose verifier fits another password. -/
def collides (password : Bytes) : Step → Bool
  | ⟨_, .call _ _ (.issuePassword _ _ random salt), _, _⟩ =>
      passwordHash salt password = passwordHash salt (str "psky-" ++ segment random) &&
        password ≠ str "psky-" ++ segment random
  | _ => false

/-- A password stays until it is revoked or the authority is invalidated. -/
theorem keeps_password (C : Crates) (p : Password) :
    (stores C).Keeps (fun w e => revoked ((stores C).entry w e) ≠ some p.name ∧
      invalidated ((stores C).entry w e) = false) (fun w => p ∈ w.db.passwords.rows)
      fun w => p ∈ w.db.passwords.rows := by
  intro w e hp ⟨hrevoked, hinvalidated⟩ _
  generalize hstep : w.step C e = r
  obtain ⟨w', reply⟩ := r
  have hafter : ((stores C).step w e).1 = w' := congrArg Prod.fst hstep
  have hentry : (stores C).entry w e = ⟨w, e, reply, w'⟩ := by
    simp only [Machine.entry, stores, hstep]
  rw [hentry] at hrevoked hinvalidated
  rw [hafter]
  rcases step_rows hstep with ⟨hpasswords, -⟩ | ⟨i, io, c, rfl, hchange⟩
  · exact hpasswords ▸ hp
  · cases hchange with
    | fewer passwords sessions kept =>
        rcases kept p hp with hkept | ⟨rfl, rfl | rfl⟩
        · exact hkept
        · exact absurd rfl hrevoked
        · cases hinvalidated
    | issued name random salt now call reply enabled length passwords =>
        rw [passwords]
        exact List.mem_append_left _ hp
    | created identifier password sid jti accessJti name now call reply enabled length passwords =>
        exact passwords ▸ hp
    | rotated refresh jti accessJti now claims call passwords => exact passwords ▸ hp

/-- The row of a password that is in use is there. -/
theorem row_of_inUse {es : List Event} {password : Bytes}
    (hes : (stores C).Meets Typed World.init es)
    (h : InUse C es password) :
    (password.length = 48 ∧ (str "psky-").isPrefixOf password = true) ∧
      ∃ p ∈ ((stores C).final World.init es).db.passwords.rows,
        passwordHash p.salt password = p.verifier := by
  obtain ⟨pre, x, post, info, htrace, hissued, hpost⟩ := h
  obtain ⟨es₁, e, es₂, rfl, -, rfl, rfl⟩ := Machine.exists_of_trace_eq_cons htrace
  obtain ⟨i, io, name, now, random, salt, rfl, hp, hrow⟩ := of_issued hissued
  obtain ⟨rfl, rfl⟩ := IssuedPassword.mk.inj hp
  have htyped := (Machine.meets_append.mp hes).2.1
  simp only [Typed, Event.wellTyped, Call.wellTyped, Bool.and_eq_true, beq_iff_eq] at htyped
  refine ⟨⟨?_, List.isPrefixOf_iff_prefix.mpr (List.prefix_append _ _)⟩,
    ⟨name, salt, passwordHash salt (str "psky-" ++ segment random), now⟩, ?_, rfl⟩
  · have hprefix : (str "psky-").length = 5 := by decide
    have hsegment : (segment random).length = 43 := by
      rw [segment, Base64.length_encode, htyped.1.2]
    rw [List.length_append, hprefix, hsegment]
  · have hkept : (stores C).Meets (fun w e => revoked ((stores C).entry w e) ≠ some name ∧
        invalidated ((stores C).entry w e) = false) ((stores C).entry
          ((stores C).final World.init es₁) (.call i io (.issuePassword name now random salt))).after
        es₂ := by
      refine Machine.meets_iff.mpr fun y hy => ?_
      rw [← Machine.eq_entry_of_mem_trace hy]
      exact hpost y hy
    rw [Machine.final_append]
    exact hkept.invariant (keeps_password C ⟨name, salt, passwordHash salt
      (str "psky-" ++ segment random), now⟩) hrow

/-- A row whose verifier fits is that of a password in use, if nothing collides. -/
theorem inUse_of_row (hC : C.json.Lawful) {es : List Event} {password : Bytes}
    (hes : (stores C).Meets Typed World.init es)
    (hfree : ∀ x ∈ (stores C).trace World.init es, collides password x = false) {p : Password}
    (hp : p ∈ ((stores C).final World.init es).db.passwords.rows)
    (hfit : passwordHash p.salt password = p.verifier) : InUse C es password := by
  obtain ⟨authority, pre, x, post, htrace, ⟨i, io, random, hevent, hreply, hverifier⟩, -, hpost⟩ :=
    issues_of_mem hC hes hp
  have hx : x ∈ (stores C).trace World.init es := by
    rw [htrace]
    simp
  have hsame : password = str "psky-" ++ segment random := by
    by_contra hne
    have hnone := hfree x hx
    obtain ⟨before, event, reply, after⟩ := x
    simp only at hevent
    rw [hevent] at hnone
    simp [collides, hfit.trans hverifier, hne] at hnone
  refine ⟨pre, x, post, ⟨p.name, p.createdAt⟩, htrace, ?_, fun y hy => ?_⟩
  · obtain ⟨before, event, reply, after⟩ := x
    simp only at hevent hreply
    rw [hevent, hreply, hsame]
    rfl
  · have hthere := (hpost y (List.mem_cons_of_mem _ hy)).2
    have hentry : y = (stores C).entry y.before y.event := by
      have hmem : y ∈ (stores C).trace World.init es := by
        rw [htrace]
        exact List.mem_append_right _ (List.mem_cons_of_mem _ hy)
      exact Machine.eq_entry_of_mem_trace hmem
    rw [hentry] at hthere ⊢
    have hthere : p ∈ (World.step C y.before y.event).1.db.passwords.rows := hthere
    constructor
    · intro hrevoked
      rw [(of_revoked hrevoked).1] at hthere
      have := (Table.mem_delete.mp hthere).2
      simp at this
    · by_contra hinvalidated
      rw [(of_invalidated (Bool.eq_true_of_not_eq_false hinvalidated)).1] at hthere
      cases hthere

/-- The last theorem, by the definition of the identifier. -/
theorem names_iff (hC : C.json.Lawful) {w : World} (hw : Secured C w) {identifier : Bytes} :
    Names C w.db identifier ↔ ∃ a key, Bound C w.db a key ∧ a.enabled = true ∧
      (identifier = a.identity.handle ∨ identifier = a.identity.did) := by
  constructor
  · rintro ⟨row, a, hrow, hread, henabled, hidentifier⟩
    rcases hw.stored with hnone | ⟨b, key, hb⟩
    · rw [hnone] at hrow
      cases hrow
    · obtain rfl := Option.some.inj (hb.row.symm.trans hrow)
      obtain rfl := Option.some.inj ((hb.genuine.account? hC).symm.trans hread)
      exact ⟨_, key, hb, henabled, hidentifier⟩
  · rintro ⟨a, key, hb, henabled, hidentifier⟩
    exact ⟨_, a, hb.row, hb.genuine.account? hC, henabled, hidentifier⟩

/-- **Exactly the passwords in use are accepted.** In every reachable state and for every identifier
and password, the check that `validate_password` and `authenticate` share succeeds exactly when the
identifier names the enabled account and the password is the plaintext of one that was issued and
neither revoked nor lost to an invalidation since. Then `authenticate` fails, storage apart, only
for the limit, and exactly when `maxSessions` sessions have not expired; and storage has no reason
of its own to fail. Verifiers are assumed not to collide. -/
theorem password_accepted_iff {C : Crates} (hC : C.json.Lawful)
    (hport : ∀ s url port, C.parseUrl s = some url → url.port = some port → port < 65536)
    (es : List Event) (hes : (stores C).Meets Typed World.init es) (identifier password : Bytes)
    (hfree : ∀ x ∈ (stores C).trace World.init es, collides password x = false) :
    let db := ((stores C).final World.init es).db
    let accepted := (validatePassword C noFaults db identifier password).isOk = true
    (accepted ↔ Names C db identifier ∧ InUse C es password) ∧
    ∀ io key now sid jti accessJti,
      let login := Store.authenticate C io key db identifier password now sid jti accessJti
      (login.isOk = true → accepted) ∧
      (accepted →
        (login = .error .persistence ∨
          (login = .error .limit ∧ activeSessions db now = maxSessions) ∨
          (login.isOk = true ∧ activeSessions db now < maxSessions)) ∧
        (io = noFaults → now + refreshSeconds < 9223372036854775808 →
          (∀ s ∈ db.sessions.rows, s.id ≠ sid) → login ≠ .error .persistence)) := by
  intro db accepted
  have hw : Secured C ((stores C).final World.init es) :=
    hes.invariant (keeps_secured hC) (secured_init C)
  refine ⟨?_, fun io key now sid jti accessJti => ⟨fun hlogin => ?_, fun hok => ⟨?_, ?_⟩⟩⟩
  · show (validatePassword C noFaults ((stores C).final World.init es).db _ _).isOk = true ↔ _
    rw [validatePassword_isOk_iff hC hport hw, names_iff hC hw]
    constructor
    · rintro ⟨-, ⟨p, hp, hfit⟩, hnames⟩
      exact ⟨hnames, inUse_of_row hC hes hfree hp hfit⟩
    · rintro ⟨hnames, huse⟩
      obtain ⟨hform, hrow⟩ := row_of_inUse hes huse
      exact ⟨hform, hrow, hnames⟩
  · obtain ⟨⟨s, db'⟩, hlogin⟩ := exists_of_isOk hlogin
    obtain ⟨a, name, db₁, hbegin, -⟩ := authenticate_eq_ok hlogin
    simp only [beginAuthenticate, bind_eq_ok, Prod.exists] at hbegin
    obtain ⟨_, -, _, -, b, name', hverify, -⟩ := hbegin
    simp only [accepted, validatePassword, verifyPassword_noFaults hverify]
    rfl
  · obtain ⟨u, hok⟩ := exists_of_isOk hok
    simp only [validatePassword, bind_eq_ok, Prod.exists] at hok
    obtain ⟨a, name, hverify, -⟩ := hok
    rcases @authenticate_cases C db identifier password name sid jti accessJti a now io key hverify with
      hfail | ⟨hfull, hlimit⟩ | ⟨hroom, r, hr⟩
    · exact .inl hfail
    · have : activeSessions db now ≤ maxSessions := activeSessions_le hw.toLive now
      exact .inr (.inl ⟨hlimit, by omega⟩)
    · exact .inr (.inr ⟨by rw [hr]; rfl, hroom⟩)
  · rintro rfl hnow hsid
    obtain ⟨u, hok⟩ := exists_of_isOk hok
    simp only [validatePassword, bind_eq_ok, Prod.exists] at hok
    obtain ⟨a, name, hverify, -⟩ := hok
    exact authenticate_stored key hverify hnow hsid

/-- Opening, binding and a password. -/
def sampleIssue : List Event :=
  sampleOpening 0 ++
    [.call 0 noFaults (.bindVerified 1 (str "0xa1") sampleIdentity 1700000000 (List.replicate 32 1)),
      .call 0 noFaults (.issuePassword (str "phone") 1700000000 (List.replicate 32 2)
        (List.replicate 32 3))]

/-- The sample run is typed, its password does not collide and is accepted, and no session is
active. -/
theorem sampleIssue_runs :
    (stores sampleCrates).Meets Typed World.init sampleIssue ∧
      (∀ x ∈ (stores sampleCrates).trace World.init sampleIssue,
        collides (samplePassword 2) x = false) ∧
      (validatePassword sampleCrates noFaults ((stores sampleCrates).final World.init sampleIssue).db
        (str "did:web:alice.com") (samplePassword 2)).isOk = true ∧
      activeSessions ((stores sampleCrates).final World.init sampleIssue).db 1700000001 = 0 := by
  decide +kernel

/-- The issued password is in use, and there is room for a login. -/
theorem password_accepted_iff_sample :
    InUse sampleCrates sampleIssue (samplePassword 2) ∧
      Store.authenticate sampleCrates noFaults sampleKey
        ((stores sampleCrates).final World.init sampleIssue).db (str "did:web:alice.com")
        (samplePassword 2) 1700000001 (sampleId 4) (sampleId 5) (sampleId 6) ≠ .error .limit := by
  obtain ⟨htyped, hfree, hok, hactive⟩ := sampleIssue_runs
  obtain ⟨hiff, hlogin⟩ := password_accepted_iff Json.compact_lawful sampleCrates_port sampleIssue
    htyped (str "did:web:alice.com") (samplePassword 2) hfree
  refine ⟨(hiff.mp hok).2, fun hlimit => ?_⟩
  obtain ⟨-, hlogin⟩ := hlogin noFaults sampleKey 1700000001 (sampleId 4) (sampleId 5) (sampleId 6)
  obtain ⟨hcases, -⟩ := hlogin hok
  rw [hlimit, hactive] at hcases
  rcases hcases with h | ⟨-, h⟩ | ⟨h, -⟩
  · cases h
  · cases h
  · cases h

end PurpleSky.Credentials
