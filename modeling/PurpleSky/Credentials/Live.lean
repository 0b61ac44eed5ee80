import PurpleSky.Credentials.Bearer
import PurpleSky.Credentials.Binding

/-!
# Credentials belong to the current authority

* `liveAuthority`: the authority of the account while it is enabled.
* **`Call.row_change`**: what a call does to passwords and sessions.
* **`live_credentials`**: every password and every session was made under the authority there is
  now, which has been in force since; there are none without one, and not more than the limits.

Evidence is checked and written in two steps, so that what is said of it is said of runs whose
operations do not overlap (`Op`).
-/

namespace PurpleSky.Credentials

open Bytes Store

/-- The authority of the account, while it is enabled. -/
def liveAuthority (C : Crates) (db : Db) : Option Bytes :=
  match db.account.bind fun row => row.account? C with
  | some a => if a.enabled then some a.authority else none
  | none => none

variable {C : Crates} {io : Faults} {key : Bytes} {db db' : Db} {a : Account} {c : Call}

theorem liveAuthority_of_enabledAccount (h : enabledAccount C io db = .ok a) :
    liveAuthority C db = some a.authority := by
  obtain ⟨hload, henabled⟩ := enabledAccount_eq_ok h
  obtain ⟨row, hrow, hread⟩ := account?_of_loadAccount hload
  simp only [liveAuthority, hrow, Option.bind_some, hread, henabled, if_true]

theorem liveAuthority_of_account_eq (h : db'.account = db.account) :
    liveAuthority C db' = liveAuthority C db := by
  rw [liveAuthority, liveAuthority, h]

theorem Bound.liveAuthority_eq (hC : C.json.Lawful) (h : Bound C db a key) :
    liveAuthority C db = if a.enabled then some a.authority else none := by
  simp only [liveAuthority, h.row, Option.bind_some, h.genuine.account? hC]

/-! ## What a call does to passwords and sessions -/

/-- What a call does to passwords and sessions. -/
inductive RowChange (C : Crates) (io : Faults) (c : Call) (reply : Reply) (db db' : Db) : Prop where
  | fewer (passwords : db'.passwords.rows.Sublist db.passwords.rows)
      (sessions : db'.sessions.rows.Sublist db.sessions.rows)
      (kept : ∀ p ∈ db.passwords.rows, p ∈ db'.passwords.rows ∨
        (reply = .done ∧ (c = .revokePassword p.name ∨ c = .invalidateAuthority)))
  | issued (name random salt : Bytes) (now : Nat) (call : c = .issuePassword name now random salt)
      (reply : reply = .issued ⟨⟨name, now⟩, str "psky-" ++ segment random⟩)
      (enabled : ∃ a, enabledAccount C io db = .ok a)
      (length : db.passwords.rows.length < maxPasswords)
      (passwords : db'.passwords.rows = db.passwords.rows ++
        [⟨name, salt, passwordHash salt (str "psky-" ++ segment random), now⟩])
      (sessions : db'.sessions = db.sessions)
  | created (identifier password sid jti accessJti name : Bytes) (now : Nat)
      (call : c = .authenticate identifier password now sid jti accessJti)
      (reply : ∃ s, reply = .session s) (enabled : ∃ a, enabledAccount C io db = .ok a)
      (length : (db.deleteSessions fun s => s.refreshExp ≤ now).sessions.rows.length < maxSessions)
      (passwords : db'.passwords = db.passwords)
      (sessions : db'.sessions.rows = (db.deleteSessions fun s => s.refreshExp ≤ now).sessions.rows ++
        [⟨sid, name, jti, now + refreshSeconds⟩])
  | rotated (refresh jti accessJti : Bytes) (now : Nat) (claims : Claims)
      (call : c = .refreshSession refresh now jti accessJti)
      (passwords : db'.passwords = db.passwords)
      (sessions : db'.sessions = (db.rotate jti claims.sid claims.jti).2.sessions)

theorem Call.row_change {o : Outcome} (h : c.run C io key db = .ok o) :
    RowChange C io c o.reply db o.db := by
  cases c with
  | setEvidence document =>
      simp only [run, bind_eq_ok, pure_eq_ok] at h
      obtain ⟨_, -, rfl⟩ := h
      exact .fewer (.refl _) (.refl _) fun p hp => .inl hp
  | bindVerified fid authority identity now random =>
      simp only [run, bind_eq_ok, pure_eq_ok, Prod.exists] at h
      obtain ⟨a, db', hbind, rfl⟩ := h
      obtain ⟨⟨_, rfl⟩, -⟩ := bindVerified_eq_ok hbind
      exact .fewer (.refl _) (.refl _) fun p hp => .inl hp
  | invalidateAuthority =>
      simp only [run, bind_eq_ok, pure_eq_ok] at h
      obtain ⟨db', hinv, rfl⟩ := h
      obtain ⟨hpasswords, hsessions, -⟩ := invalidateAuthority_eq_ok hinv
      exact .fewer (by simp [hpasswords]) (by simp [hsessions]) fun p hp => .inr ⟨rfl, .inr rfl⟩
  | issuePassword name now random salt =>
      simp only [run, bind_eq_ok, pure_eq_ok, Prod.exists] at h
      obtain ⟨p, db', hissue, rfl⟩ := h
      obtain ⟨henabled, hinsert⟩ := issuePassword_eq_ok hissue
      obtain ⟨hlength, rfl⟩ := issued_of_issuePassword hissue
      obtain ⟨-, hrows, hsessions, -⟩ := Db.insertPassword_eq_some hinsert
      exact .issued name random salt now rfl rfl henabled hlength hrows hsessions
  | revokePassword name =>
      simp only [run, bind_eq_ok, pure_eq_ok] at h
      obtain ⟨db', hrevoke, rfl⟩ := h
      obtain rfl := revokePassword_eq_ok hrevoke
      refine .fewer List.filter_sublist List.filter_sublist fun p hp => ?_
      by_cases hname : p.name = name
      · exact .inr ⟨rfl, .inl (by rw [hname])⟩
      · exact .inl (Table.mem_delete.mpr ⟨hp, by simp [hname]⟩)
  | authenticate identifier password now sid jti accessJti =>
      simp only [run, bind_eq_ok, pure_eq_ok, Prod.exists] at h
      obtain ⟨s, db', hauth, rfl⟩ := h
      obtain ⟨a, name, db₁, hbegin, -, hcommit⟩ := authenticate_eq_ok hauth
      have hlength := length_of_beginAuthenticate hbegin
      obtain ⟨henabled, -, -, rfl⟩ := beginAuthenticate_eq_ok hbegin
      obtain ⟨-, hrows, hpasswords, -⟩ := Db.insertSession_eq_some (commitSession_eq_ok hcommit)
      exact .created identifier password sid jti accessJti name now rfl ⟨_, rfl⟩ ⟨a, henabled⟩
        hlength hpasswords hrows
  | getSession access now =>
      simp only [run, bind_eq_ok, pure_eq_ok, Prod.exists] at h
      obtain ⟨a, claims, -, rfl⟩ := h
      exact .fewer (.refl _) (.refl _) fun p hp => .inl hp
  | validateRefresh refresh now =>
      simp only [run, bind_eq_ok, pure_eq_ok, Prod.exists] at h
      obtain ⟨a, claims, -, rfl⟩ := h
      exact .fewer (.refl _) (.refl _) fun p hp => .inl hp
  | refreshSession refresh now jti accessJti =>
      simp only [run, bind_eq_ok, pure_eq_ok, Prod.exists] at h
      obtain ⟨s, db', hrefresh, rfl⟩ := h
      obtain ⟨a, claims, -, -, hcommit⟩ := refreshSession_eq_ok hrefresh
      obtain ⟨-, rfl⟩ := commitRefresh_eq_ok hcommit
      exact .rotated refresh jti accessJti now claims rfl rfl rfl
  | deleteSession refresh now =>
      simp only [run, bind_eq_ok, pure_eq_ok] at h
      obtain ⟨db', hdelete, rfl⟩ := h
      obtain ⟨a, claims, -, rfl⟩ := deleteSession_eq_ok hdelete
      exact .fewer (.refl _) List.filter_sublist fun p hp => .inl hp

/-- What a step does to passwords and sessions: nothing, or what the call that it ran does. -/
theorem step_rows {w w' : World} {e : Event} {reply : Reply} (h : w.step C e = (w', reply)) :
    (w'.db.passwords = w.db.passwords ∧ w'.db.sessions = w.db.sessions) ∨
      ∃ i io c, e = .call i io c ∧ RowChange C io c reply w.db w'.db := by
  rcases step_moves h with hdb | ⟨i, io, random, key, -, hopen⟩ |
    ⟨i, io, c, key, o, rfl, -, hrun, rfl, hdb⟩ | ⟨i, io, now, key, document, -, -, hdb⟩
  · exact .inl (by rw [hdb]; exact ⟨rfl, rfl⟩)
  · obtain ⟨-, -, -, hpasswords, hsessions, -⟩ := openKey_eq_ok hopen
    exact .inl ⟨hpasswords, hsessions⟩
  · rw [hdb]
    exact .inr ⟨i, io, c, rfl, c.row_change hrun⟩
  · exact .inl (by rw [hdb]; exact ⟨rfl, rfl⟩)

/-- A session after a call is new, or was there with its password and its end. -/
theorem RowChange.session_cases {reply : Reply} (h : RowChange C io c reply db db') {s : SessionRow}
    (hs : s ∈ db'.sessions.rows) :
    (∃ t ∈ db.sessions.rows, t.id = s.id ∧ t.passwordName = s.passwordName ∧
      t.refreshExp = s.refreshExp) ∨
    ∃ identifier password accessJti now,
      c = .authenticate identifier password now s.id s.refreshJti accessJti ∧
        (∃ r, reply = .session r) ∧ (∃ a, enabledAccount C io db = .ok a) ∧
        s.refreshExp = now + refreshSeconds := by
  cases h with
  | fewer passwords sessions => exact .inl ⟨s, sessions.subset hs, rfl, rfl, rfl⟩
  | issued name random salt now call reply enabled length passwords sessions =>
      rw [sessions] at hs
      exact .inl ⟨s, hs, rfl, rfl, rfl⟩
  | created identifier password sid jti accessJti name now call hreply enabled length passwords
      sessions =>
      rw [sessions] at hs
      rcases List.mem_append.mp hs with hs | hs
      · exact .inl ⟨s, (Table.mem_delete.mp hs).1, rfl, rfl, rfl⟩
      · obtain rfl := List.mem_singleton.mp hs
        exact .inr ⟨identifier, password, accessJti, now, call, hreply, enabled, rfl⟩
  | rotated refresh jti accessJti now claims call passwords sessions =>
      rw [sessions] at hs
      rcases Db.mem_sessions_rotate.mp hs with ⟨hs, -⟩ | ⟨t, ht, -, -, rfl⟩
      · exact .inl ⟨s, hs, rfl, rfl, rfl⟩
      · exact .inl ⟨t, ht, rfl, rfl, rfl⟩

/-! ## The invariant -/

/-- Nothing without an authority in force, and not more than the limits. -/
structure Live (C : Crates) (w : World) : Prop extends Standing C w where
  authority : liveAuthority C w.db = none → w.db.passwords.rows = []
  passwords : w.db.passwords.rows.length ≤ maxPasswords
  sessions : w.db.sessions.rows.length ≤ maxSessions

theorem live_init (C : Crates) : Live C World.init where
  toStanding := standing_init C
  authority := fun _ => rfl
  passwords := Nat.zero_le _
  sessions := Nat.zero_le _

theorem sessions_of_passwords (h : db.passwords.rows = []) : db.sessions.rows = [] := by
  apply List.eq_nil_iff_forall_not_mem.mpr
  intro s hs
  obtain ⟨p, hp, -⟩ := db.references s hs
  rw [h] at hp
  cases hp

/-- A step that leaves a password leaves the account row. -/
theorem account_of_step (hC : C.json.Lawful) {w w' : World} {e : Event} {reply : Reply}
    (hw : Live C w) (he : e.wellTyped = true) (h : w.step C e = (w', reply)) :
    w'.db.account = w.db.account ∨ w'.db.passwords.rows = [] := by
  rcases step_account hC hw.stored he h with hsame | ⟨i, io, c, rfl, hchange⟩
  · exact .inl hsame
  · cases hchange with
    | same account => exact .inl account
    | first fid now authority random identity a call reply none new bound hdb =>
        refine .inr ?_
        rw [hdb]
        exact hw.authority (by simp [liveAuthority, none])
    | again fid now authority random key identity b a call reply old bound account hauthority hdb =>
        by_cases hb : b.enabled = true
        · refine .inl ?_
          -- the same authority again: the account is what it was
          obtain rfl : a = b := by
            rw [account, hauthority hb, ← hb]
          rw [bound.row, old.row]
        · refine .inr ?_
          rw [hdb]
          exact hw.authority (by simp [old.liveAuthority_eq hC, hb])
    | disabled key a call old bound passwords => exact .inr passwords

/-- A step that leaves a password leaves the authority that was in force. -/
theorem liveAuthority_of_step (hC : C.json.Lawful) {w w' : World} {e : Event} {reply : Reply}
    (hw : Live C w) (he : e.wellTyped = true) (h : w.step C e = (w', reply)) :
    liveAuthority C w'.db = liveAuthority C w.db ∨ w'.db.passwords.rows = [] :=
  (account_of_step hC hw he h).imp_left liveAuthority_of_account_eq

theorem keeps_live (hC : C.json.Lawful) : (stores C).Keeps Typed (Live C) (Live C) := by
  intro w e hw he _
  have hstanding := keeps_standing hC w e hw.toStanding he hw.toStanding
  generalize hstep : w.step C e = p
  obtain ⟨w', reply⟩ := p
  have hafter : ((stores C).step w e).1 = w' := congrArg Prod.fst hstep
  rw [hafter] at hstanding ⊢
  have hauthority := liveAuthority_of_step hC hw he hstep
  rcases step_rows hstep with ⟨hpasswords, hsessions⟩ | ⟨i, io, c, rfl, hchange⟩
  · refine ⟨hstanding, fun hnone => ?_, hpasswords ▸ hw.passwords, hsessions ▸ hw.sessions⟩
    rcases hauthority with h | h
    · rw [hpasswords]
      exact hw.authority (h ▸ hnone)
    · exact h
  · refine ⟨hstanding, fun hnone => ?_, ?_, ?_⟩
    · rcases hauthority with h | h
      · have hold := hw.authority (h ▸ hnone)
        cases hchange with
        | fewer passwords sessions =>
            rw [hold] at passwords
            exact List.sublist_nil.mp passwords
        | issued name random salt now call reply enabled =>
            obtain ⟨a, ha⟩ := enabled
            rw [h, liveAuthority_of_enabledAccount ha] at hnone
            cases hnone
        | created identifier password sid jti accessJti name now call reply enabled length
            passwords => rw [passwords, hold]
        | rotated refresh jti accessJti now claims call passwords => rw [passwords, hold]
      · exact h
    · cases hchange with
      | fewer passwords sessions => exact passwords.length_le.trans hw.passwords
      | issued name random salt now call reply enabled length passwords =>
          rw [passwords, List.length_append]
          exact length
      | created identifier password sid jti accessJti name now call reply enabled length passwords =>
          rw [passwords]
          exact hw.passwords
      | rotated refresh jti accessJti now claims call passwords =>
          rw [passwords]
          exact hw.passwords
    · cases hchange with
      | fewer passwords sessions => exact sessions.length_le.trans hw.sessions
      | issued name random salt now call reply enabled length passwords sessions =>
          rw [sessions]
          exact hw.sessions
      | created identifier password sid jti accessJti name now call reply enabled length passwords
          sessions =>
          rw [sessions, List.length_append]
          exact length
      | rotated refresh jti accessJti now claims call passwords sessions =>
          rw [sessions]
          show (List.map _ _).length ≤ _
          rw [List.length_map]
          exact hw.sessions

/-! ## Where credentials come from -/

/-- A step issues a password. -/
def Issues (x : Step) (p : Password) : Prop :=
  ∃ i io random, x.event = .call i io (.issuePassword p.name p.createdAt random p.salt) ∧
    x.reply = .issued ⟨⟨p.name, p.createdAt⟩, str "psky-" ++ segment random⟩ ∧
    p.verifier = passwordHash p.salt (str "psky-" ++ segment random)

/-- A step creates a session. -/
def Creates (x : Step) (s : SessionRow) : Prop :=
  ∃ i io identifier password now jti accessJti r,
    x.event = .call i io (.authenticate identifier password now s.id jti accessJti) ∧
      x.reply = .session r ∧ s.refreshExp = now + refreshSeconds

/-- An authority is in force before and after a step. -/
def InForce (C : Crates) (authority : Bytes) (x : Step) : Prop :=
  liveAuthority C x.before.db = some authority ∧ liveAuthority C x.after.db = some authority

/-- A step after which a password is there under an authority issued it, or found both. -/
theorem issues_of_step (hC : C.json.Lawful) {w : World} {e : Event} (hw : Live C w)
    (he : e.wellTyped = true) {p : Password} {authority : Bytes}
    (hp : p ∈ (w.step C e).1.db.passwords.rows)
    (hauth : liveAuthority C (w.step C e).1.db = some authority) :
    liveAuthority C w.db = some authority ∧
      (p ∈ w.db.passwords.rows ∨ Issues ((stores C).entry w e) p) := by
  generalize hstep : w.step C e = r at hp hauth
  obtain ⟨w', reply⟩ := r
  have hentry : (stores C).entry w e = ⟨w, e, reply, w'⟩ := by
    simp only [Machine.entry, stores, hstep]
  rw [hentry]
  constructor
  · rcases liveAuthority_of_step hC hw he hstep with h | h
    · exact h.symm.trans hauth
    · rw [h] at hp
      cases hp
  · rcases step_rows hstep with ⟨hpasswords, -⟩ | ⟨i, io, c, rfl, hchange⟩
    · exact .inl (hpasswords ▸ hp)
    · cases hchange with
      | fewer passwords => exact .inl (passwords.subset hp)
      | issued name random salt now call hreply enabled length passwords =>
          rw [passwords] at hp
          rcases List.mem_append.mp hp with hp | hp
          · exact .inl hp
          · obtain rfl := List.mem_singleton.mp hp
            exact .inr ⟨i, io, random, by rw [call], hreply, rfl⟩
      | created identifier password sid jti accessJti name now call hreply enabled length passwords =>
          exact .inl (passwords ▸ hp)
      | rotated refresh jti accessJti now claims call passwords => exact .inl (passwords ▸ hp)

/-- A session is there, with its password and its end. -/
def HasSession (s : SessionRow) (db : Db) : Prop :=
  ∃ t ∈ db.sessions.rows, t.id = s.id ∧ t.passwordName = s.passwordName ∧
    t.refreshExp = s.refreshExp

/-- A step after which a session is there under an authority created it, or found both. -/
theorem creates_of_step (hC : C.json.Lawful) {w : World} {e : Event} (hw : Live C w)
    (he : e.wellTyped = true) {s : SessionRow} {authority : Bytes}
    (hs : HasSession s (w.step C e).1.db)
    (hauth : liveAuthority C (w.step C e).1.db = some authority) :
    liveAuthority C w.db = some authority ∧
      (HasSession s w.db ∨ Creates ((stores C).entry w e) s) := by
  obtain ⟨t, ht, hid, hpassword, hexp⟩ := hs
  generalize hstep : w.step C e = r at ht hauth
  obtain ⟨w', reply⟩ := r
  have hentry : (stores C).entry w e = ⟨w, e, reply, w'⟩ := by
    simp only [Machine.entry, stores, hstep]
  rw [hentry]
  constructor
  · rcases liveAuthority_of_step hC hw he hstep with h | h
    · exact h.symm.trans hauth
    · rw [sessions_of_passwords h] at ht
      cases ht
  · rcases step_rows hstep with ⟨-, hsessions⟩ | ⟨i, io, c, rfl, hchange⟩
    · exact .inl ⟨t, hsessions ▸ ht, hid, hpassword, hexp⟩
    · rcases hchange.session_cases ht with ⟨u, hu, huid, hupassword, huexp⟩ |
        ⟨identifier, password, accessJti, now, rfl, ⟨r, rfl⟩, -, hnow⟩
      · exact .inl ⟨u, hu, huid.trans hid, hupassword.trans hpassword, huexp.trans hexp⟩
      · exact .inr ⟨i, io, identifier, password, now, t.refreshJti, accessJti, r, by rw [hid], rfl,
          hexp.symm.trans hnow⟩

section

variable (hC : C.json.Lawful) {es : List Event} (hes : (stores C).Meets Typed World.init es)

include hC hes

/-- A password was issued under the authority of now, which has been in force since. -/
theorem issues_of_mem {p : Password}
    (hp : p ∈ ((stores C).final World.init es).db.passwords.rows) :
    ∃ authority pre x post, (stores C).trace World.init es = pre ++ x :: post ∧ Issues x p ∧
      liveAuthority C ((stores C).final World.init es).db = some authority ∧
      ∀ y ∈ x :: post, InForce C authority y ∧ p ∈ y.after.db.passwords.rows := by
  have hlive : Live C ((stores C).final World.init es) :=
    hes.invariant (keeps_live hC) (live_init C)
  cases hauth : liveAuthority C ((stores C).final World.init es).db with
  | none =>
      rw [hlive.authority hauth] at hp
      cases hp
  | some authority =>
      obtain ⟨pre, x, post, htrace, ⟨hissues, hbefore⟩, hafter, hpost⟩ :=
        hes.origin (keeps_live hC) (live_init C)
          (R := fun p w => p ∈ w.db.passwords.rows ∧ liveAuthority C w.db = some authority)
          (N := fun x p => Issues x p ∧ liveAuthority C x.before.db = some authority)
          (fun h => by cases h.1)
          (fun w e hw he h => by
            obtain ⟨hsame, hold | hnew⟩ := issues_of_step hC hw he h.1 h.2
            · exact .inl ⟨hold, hsame⟩
            · exact .inr ⟨hnew, hsame⟩)
          ⟨hp, hauth⟩
      refine ⟨authority, pre, x, post, htrace, hissues, rfl, fun y hy => ?_⟩
      rcases List.mem_cons.mp hy with rfl | hy
      · exact ⟨⟨hbefore, hafter.2⟩, hafter.1⟩
      · exact ⟨⟨(hpost y hy).1.2, (hpost y hy).2.2⟩, (hpost y hy).2.1⟩

/-- A session was created under the authority of now, which has been in force since. -/
theorem creates_of_mem {s : SessionRow}
    (hs : s ∈ ((stores C).final World.init es).db.sessions.rows) :
    ∃ authority pre x post, (stores C).trace World.init es = pre ++ x :: post ∧ Creates x s ∧
      liveAuthority C ((stores C).final World.init es).db = some authority ∧
      ∀ y ∈ x :: post, InForce C authority y ∧ HasSession s y.after.db := by
  have hlive : Live C ((stores C).final World.init es) :=
    hes.invariant (keeps_live hC) (live_init C)
  cases hauth : liveAuthority C ((stores C).final World.init es).db with
  | none =>
      rw [sessions_of_passwords (hlive.authority hauth)] at hs
      cases hs
  | some authority =>
      obtain ⟨pre, x, post, htrace, ⟨hcreates, hbefore⟩, hafter, hpost⟩ :=
        hes.origin (keeps_live hC) (live_init C)
          (R := fun s w => HasSession s w.db ∧ liveAuthority C w.db = some authority)
          (N := fun x s => Creates x s ∧ liveAuthority C x.before.db = some authority)
          (fun h => by
            obtain ⟨⟨t, ht, -⟩, -⟩ := h
            cases ht)
          (fun w e hw he h => by
            obtain ⟨hsame, hold | hnew⟩ := creates_of_step hC hw he h.1 h.2
            · exact .inl ⟨hold, hsame⟩
            · exact .inr ⟨hnew, hsame⟩)
          ⟨⟨s, hs, rfl, rfl, rfl⟩, hauth⟩
      refine ⟨authority, pre, x, post, htrace, hcreates, rfl, fun y hy => ?_⟩
      rcases List.mem_cons.mp hy with rfl | hy
      · exact ⟨⟨hbefore, hafter.2⟩, hafter.1⟩
      · exact ⟨⟨(hpost y hy).1.2, (hpost y hy).2.2⟩, (hpost y hy).2.1⟩

end

/-! ## Operations that do not overlap -/

/-- An operation with its arguments, from its beginning to its end. -/
inductive Op where
  | openStore (h : Nat) (io : Faults) (random : Bytes) (now : Nat)
  | close (h : Nat)
  | call (h : Nat) (io : Faults) (c : Call) (now : Nat)

/-- Its events. An operation that takes one step has nothing to finish. -/
def Op.events : Op → List Event
  | openStore h io random now => [.openStore h io random, .finish h io now]
  | close h => [.close h]
  | call h io c now => [.call h io c, .finish h io now]

/-- No handle is in the middle of an operation. -/
def Calm (w : World) : Prop := ∀ i o, w.handles i = some o → o.pending = none

/-- Between operations there is no evidence without an authority in force. -/
structure Settled (C : Crates) (w : World) : Prop extends Live C w where
  calm : Calm w
  evidence : liveAuthority C w.db = none → w.db.evidence = none

theorem settled_init (C : Crates) : Settled C World.init where
  toLive := live_init C
  calm := by simp [Calm, World.init]
  evidence := fun _ => rfl

/-- When only one handle is in the middle of something, finishing leaves none. -/
theorem calm_of_finish {w : World} {h : Nat} {now : Nat}
    (hw : ∀ i o, i ≠ h → w.handles i = some o → o.pending = none) :
    Calm (w.step C (.finish h io now)).1 := by
  have later : ∀ {key : Bytes} {p : Pending} {ok : Bool} {v : World}, v.handles = w.handles →
      Calm (v.setHandle h (p.handle key ok)) := by
    intro key p ok v hv i o ho
    simp only [World.setHandle] at ho
    split at ho
    · cases p with
      | opening =>
          cases ok
          · cases ho
          · obtain rfl := Option.some.inj ho
            rfl
      | _ =>
          obtain rfl := Option.some.inj ho
          rfl
    · rename_i hi
      rw [hv] at ho
      exact hw i o hi ho
  simp only [World.step]
  split
  · split
    · exact later rfl
    · exact later rfl
  · rename_i hidle
    intro i o ho
    by_cases hi : i = h
    · subst hi
      obtain ⟨key, p⟩ := o
      cases p with
      | none => rfl
      | some p => exact absurd ho (hidle key p)
    · exact hw i o hi ho

/-- The first step of an operation leaves nothing pending on other handles. -/
theorem calm_of_first {w w' : World} {e : Event} {reply : Reply} {h : Nat} (hw : Calm w)
    (he : (∃ io random, e = .openStore h io random) ∨ ∃ io c, e = .call h io c)
    (hstep : w.step C e = (w', reply)) :
    ∀ i o, i ≠ h → w'.handles i = some o → o.pending = none := by
  intro i o hi ho
  have kept : ∀ {v : World} {x : Option Handle}, v.handles = w.handles →
      (v.setHandle h x).handles i = some o → o.pending = none := by
    intro v x hv ho
    simp only [World.setHandle, if_neg hi] at ho
    exact hw i o (hv ▸ ho)
  rcases he with ⟨io, random, rfl⟩ | ⟨io, c, rfl⟩
  · simp only [World.step] at hstep
    split at hstep
    · obtain ⟨rfl, -⟩ := Prod.mk.inj hstep
      exact hw i o ho
    · split at hstep
      · obtain ⟨rfl, -⟩ := Prod.mk.inj hstep
        exact hw i o ho
      · obtain ⟨rfl, -⟩ := Prod.mk.inj hstep
        exact kept rfl ho
  · simp only [World.step] at hstep
    split at hstep
    · split at hstep
      · obtain ⟨rfl, -⟩ := Prod.mk.inj hstep
        exact hw i o ho
      · obtain ⟨rfl, -⟩ := Prod.mk.inj hstep
        exact kept rfl ho
    · obtain ⟨rfl, -⟩ := Prod.mk.inj hstep
      exact hw i o ho

/-- A step that does not finish anything leaves no evidence without an authority in force. -/
theorem evidence_of_first (hC : C.json.Lawful) {w w' : World} {e : Event} {reply : Reply}
    (hw : Settled C w) (he : e.wellTyped = true) (hfirst : ∀ h io now, e ≠ .finish h io now)
    (hstep : w.step C e = (w', reply)) (hnone : liveAuthority C w'.db = none) :
    w'.db.evidence = none := by
  have unwritten : (∀ d ∈ w'.db.evidence, d ∈ w.db.evidence) := by
    rcases step_moves hstep with hdb | ⟨i, io, random, key, -, hopen⟩ |
      ⟨i, io, c, key, o, rfl, -, hrun, rfl, hdb⟩ | ⟨i, io, now, key, document, rfl, -, -⟩
    · rw [hdb]
      exact fun _ hd => hd
    · rw [(openKey_eq_ok hopen).2.2.2.2.2]
      exact fun _ hd => hd
    · rw [hdb]
      exact (evidence_of_run hrun).1
    · exact absurd rfl (hfirst i io now)
  have kept : liveAuthority C w'.db = liveAuthority C w.db → w'.db.evidence = none := by
    intro h
    apply Option.eq_none_iff_forall_not_mem.mpr
    intro d hd
    have hold := unwritten d hd
    rw [hw.evidence (h ▸ hnone)] at hold
    cases hold
  rcases step_account hC hw.stored he hstep with hsame | ⟨i, io, c, rfl, hchange⟩
  · exact kept (liveAuthority_of_account_eq hsame)
  · cases hchange with
    | same account => exact kept (liveAuthority_of_account_eq account)
    | first fid now authority random identity a call reply _ new bound =>
        obtain ⟨signer, repo, -, -, rfl⟩ := newAccount_eq_ok new
        rw [bound.liveAuthority_eq hC] at hnone
        cases hnone
    | again fid now authority random key identity b a call reply old bound account =>
        rw [bound.liveAuthority_eq hC, account] at hnone
        cases hnone
    | disabled key a call old bound passwords sessions evidence => exact evidence

/-- Evidence that was checked and not yet written was checked under the authority in force. -/
theorem liveAuthority_of_pending {w w' : World} {e : Event} {reply : Reply} (hw : Calm w)
    (hstep : w.step C e = (w', reply)) {i : Nat} {document : Bytes}
    (ho : w'.handles i = some ⟨key, some (.evidence document)⟩) :
    liveAuthority C w'.db ≠ none := by
  rcases handle_of_step hstep ho with ho | ho | ⟨ho, -⟩ | ⟨io, c, key', out, rfl, hhandle, hrun, ho⟩
  · cases hw i _ ho
  · cases ho
  · cases ho
  · obtain ⟨rfl, hout⟩ := Handle.mk.inj ho
    obtain ⟨hcheck, hsame⟩ := (evidence_of_run hrun).2 document hout.symm
    have hdb : w'.db = out.db := by
      simp only [World.step, hhandle, hrun] at hstep
      obtain ⟨rfl, -⟩ := Prod.mk.inj hstep
      rfl
    simp only [checkEvidence, bind_eq_ok] at hcheck
    obtain ⟨_, -, a, henabled, -⟩ := hcheck
    rw [hdb, hsame, liveAuthority_of_enabledAccount henabled]
    exact Option.some_ne_none _

theorem Settled.of_op (hC : C.json.Lawful) {w : World} (hw : Settled C w) (op : Op)
    (hes : (stores C).Meets Typed w op.events) : Settled C ((stores C).final w op.events) := by
  have hlive : Live C ((stores C).final w op.events) := hes.invariant (keeps_live hC) hw.toLive
  have two : ∀ {e : Event} {h : Nat} {io : Faults} {now : Nat},
      ((∃ io random, e = .openStore h io random) ∨ ∃ io c, e = .call h io c) →
      (stores C).Meets Typed w [e, .finish h io now] →
      Live C ((stores C).final w [e, .finish h io now]) →
      Settled C ((stores C).final w [e, .finish h io now]) := by
    intro e h io now he hes hlive
    generalize hfirst : w.step C e = r
    obtain ⟨w₁, reply₁⟩ := r
    generalize hsecond : w₁.step C (.finish h io now) = r
    obtain ⟨w₂, reply₂⟩ := r
    have hfinal : (stores C).final w [e, .finish h io now] = w₂ := by
      simp only [Machine.final, stores, hfirst, hsecond]
    rw [hfinal] at hlive ⊢
    have hcalm := @calm_of_finish C io w₁ h now (calm_of_first hw.calm he hfirst)
    rw [hsecond] at hcalm
    have hnotfinish : ∀ h io now, e ≠ .finish h io now := by
      rintro h io now rfl
      rcases he with ⟨_, _, he⟩ | ⟨_, _, he⟩ <;> cases he
    refine ⟨hlive, hcalm, fun hnone => ?_⟩
    rcases step_moves hsecond with hdb | ⟨_, _, _, _, hevent, -⟩ |
      ⟨_, _, _, _, _, hevent, -, -, -, -⟩ | ⟨i, io', now', key, document, -, hhandle, hdb⟩
    · rw [hdb] at hnone ⊢
      exact evidence_of_first hC hw hes.1 hnotfinish hfirst hnone
    · cases hevent
    · cases hevent
    · have hsame : liveAuthority C w₂.db = liveAuthority C w₁.db :=
        liveAuthority_of_account_eq (by rw [hdb])
      exact absurd (hsame ▸ hnone) (liveAuthority_of_pending hw.calm hfirst hhandle)
  cases op with
  | openStore h io random now => exact two (.inl ⟨io, random, rfl⟩) hes hlive
  | call h io c now => exact two (.inr ⟨io, c, rfl⟩) hes hlive
  | close h =>
      generalize hstep : w.step C (.close h) = r
      obtain ⟨w', reply⟩ := r
      have hfinal : (stores C).final w (Op.close h).events = w' := by
        simp only [Op.events, Machine.final, stores, hstep]
      rw [hfinal] at hlive ⊢
      refine ⟨hlive, fun i o ho => ?_, evidence_of_first hC hw hes.1 (by simp) hstep⟩
      rcases handle_of_step hstep ho with ho | ho | ⟨-, _, _, he⟩ | ⟨_, _, _, _, he, -⟩
      · exact hw.calm i o ho
      · exact ho
      · cases he
      · cases he

theorem Settled.of_ops (hC : C.json.Lawful) (ops : List Op) {w : World} (hw : Settled C w)
    (hes : (stores C).Meets Typed w (ops.flatMap Op.events)) :
    Settled C ((stores C).final w (ops.flatMap Op.events)) := by
  induction ops generalizing w with
  | nil => exact hw
  | cons op ops ih =>
      rw [List.flatMap_cons] at hes ⊢
      obtain ⟨hop, hops⟩ := Machine.meets_append.mp hes
      rw [Machine.final_append]
      exact ih (hw.of_op hC op hop) hops

/-- **Every live credential belongs to the current authority.** In every run, with any handles and
operations overlapping in any way, every password was issued and every session created by a step
since which the authority there is now has been in force; sessions refer to passwords; without an
authority in force there are neither; and the limits hold. When operations do not overlap there is
no evidence without an authority in force either. -/
theorem live_credentials {C : Crates} (hC : C.json.Lawful) (es : List Event)
    (hes : (stores C).Meets Typed World.init es) :
    let w := (stores C).final World.init es
    (∀ p ∈ w.db.passwords.rows, ∃ authority pre x post,
      (stores C).trace World.init es = pre ++ x :: post ∧ Issues x p ∧
        liveAuthority C w.db = some authority ∧ ∀ y ∈ x :: post, InForce C authority y) ∧
    (∀ s ∈ w.db.sessions.rows, ∃ authority pre x post,
      (stores C).trace World.init es = pre ++ x :: post ∧ Creates x s ∧
        liveAuthority C w.db = some authority ∧ ∀ y ∈ x :: post, InForce C authority y) ∧
    (∀ s ∈ w.db.sessions.rows, ∃ p ∈ w.db.passwords.rows, p.name = s.passwordName) ∧
    (liveAuthority C w.db = none → w.db.passwords.rows = [] ∧ w.db.sessions.rows = [] ∧
      ∀ ops : List Op, es = ops.flatMap Op.events → w.db.evidence = none) ∧
    w.db.passwords.rows.length ≤ maxPasswords ∧ w.db.sessions.rows.length ≤ maxSessions := by
  intro w
  have hlive : Live C w := hes.invariant (keeps_live hC) (live_init C)
  refine ⟨fun p hp => ?_, fun s hs => ?_, w.db.references, fun hnone => ?_, hlive.passwords,
    hlive.sessions⟩
  · obtain ⟨authority, pre, x, post, htrace, hissues, hauth, hpost⟩ := issues_of_mem hC hes hp
    exact ⟨authority, pre, x, post, htrace, hissues, hauth, fun y hy => (hpost y hy).1⟩
  · obtain ⟨authority, pre, x, post, htrace, hcreates, hauth, hpost⟩ := creates_of_mem hC hes hs
    exact ⟨authority, pre, x, post, htrace, hcreates, hauth, fun y hy => (hpost y hy).1⟩
  · have hpasswords := hlive.authority hnone
    refine ⟨hpasswords, sessions_of_passwords hpasswords, ?_⟩
    rintro ops rfl
    exact (Settled.of_ops hC ops (settled_init C) hes).evidence hnone

/-- Opening, binding, a password, evidence and a login. -/
def sampleOps : List Op :=
  [.openStore 0 noFaults sampleKey 1700000000,
    .call 0 noFaults (.bindVerified 1 (str "0xa1") sampleIdentity 1700000000 (List.replicate 32 1))
      1700000000,
    .call 0 noFaults (.issuePassword (str "phone") 1700000000 (List.replicate 32 2)
      (List.replicate 32 3)) 1700000000,
    .call 0 noFaults (.setEvidence (str "proof")) 1700000000,
    .call 0 noFaults (.authenticate (str "alice.com") (samplePassword 2) 1700000000 (sampleId 1)
      (sampleId 2) (sampleId 3)) 1700000000]

def sampleInvalidation : Op := .call 0 noFaults .invalidateAuthority 1700000000

theorem sampleOps_runs :
    (stores sampleCrates).Meets Typed World.init
        ((sampleOps ++ [sampleInvalidation]).flatMap Op.events) ∧
      ((stores sampleCrates).final World.init (sampleOps.flatMap Op.events)).db.evidence =
        some (str "proof") ∧
      ((stores sampleCrates).final World.init (sampleOps.flatMap Op.events)).db.sessions.rows.map
        SessionRow.id = [sampleId 1] ∧
      liveAuthority sampleCrates ((stores sampleCrates).final World.init
        (sampleOps.flatMap Op.events)).db = some (str "0xa1") ∧
      liveAuthority sampleCrates ((stores sampleCrates).final World.init
        ((sampleOps ++ [sampleInvalidation]).flatMap Op.events)).db = none := by
  decide +kernel

/-- The session of the login was created under the authority, and after an invalidation neither it
nor the evidence is left. -/
theorem live_credentials_sample :
    (∃ s, s.id = sampleId 1 ∧ ∃ pre x post,
      (stores sampleCrates).trace World.init (sampleOps.flatMap Op.events) = pre ++ x :: post ∧
        Creates x s ∧ ∀ y ∈ x :: post, InForce sampleCrates (str "0xa1") y) ∧
    ((stores sampleCrates).final World.init
      ((sampleOps ++ [sampleInvalidation]).flatMap Op.events)).db.sessions.rows = [] ∧
    ((stores sampleCrates).final World.init
      ((sampleOps ++ [sampleInvalidation]).flatMap Op.events)).db.evidence = none := by
  obtain ⟨hruns, -, hids, hauth, hnone⟩ := sampleOps_runs
  have hsplit := hruns
  rw [List.flatMap_append] at hsplit
  obtain ⟨-, hsessions, -⟩ :=
    live_credentials Json.compact_lawful _ (Machine.meets_append.mp hsplit).1
  obtain ⟨-, -, -, hempty, -⟩ := live_credentials Json.compact_lawful _ hruns
  obtain ⟨-, hrows, hevidence⟩ := hempty hnone
  refine ⟨?_, hrows, hevidence _ rfl⟩
  have hmem : sampleId 1 ∈ ((stores sampleCrates).final World.init
      (sampleOps.flatMap Op.events)).db.sessions.rows.map SessionRow.id := by
    rw [hids]
    exact List.mem_singleton.mpr rfl
  obtain ⟨s, hs, hid⟩ := List.mem_map.mp hmem
  obtain ⟨authority, pre, x, post, htrace, hcreates, hlive, hpost⟩ := hsessions s hs
  obtain rfl := Option.some.inj (hlive.symm.trans hauth)
  exact ⟨s, hid, pre, x, post, htrace, hcreates, hpost⟩

end PurpleSky.Credentials
