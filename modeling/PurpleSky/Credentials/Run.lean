import PurpleSky.Lib.Machine
import PurpleSky.Credentials.Store

/-!
# Handles on one credential database

Any number of handles are open on a database, and their operations interleave. A transaction is one
step. Operations that read without one, `get_session`, `validate_refresh`, `set_evidence` and the
checks of opening, take two, and anything may happen in between. A handle does one operation at a
time; closing one, at any moment, also stands for the end of its process.

Besides the database and the handles a state has a history, which no step reads: the tokens that
were signed (`minted`), each with the password its session was made with, and the identifiers that
were drawn (`drawn`).

* **`Invariant.step`**: how sessions, signed tokens and drawn identifiers hang together, kept by
  every step that draws fresh identifiers.
-/

namespace PurpleSky.Credentials

open Bytes Store

/-! ## States -/

/-- What a handle is in the middle of. -/
inductive Pending where
  | opening
  | evidence (document : Bytes)
  | token (kind : TokenKind) (token : Bytes) (account : Account) (claims : Claims) (now : Nat)

/-- An open store. Source: `lib.rs`, `Store` -/
structure Handle where
  jwtKey : Bytes
  pending : Option Pending

/-- A signed token. -/
structure Mint where
  token : Bytes
  kind : TokenKind
  claims : Claims
  password : Bytes

/-- A database, the handles on it, and the history. -/
structure World where
  db : Db
  handles : Nat → Option Handle
  minted : List Mint
  drawn : List Bytes

/-- A new database file, which nobody has opened. -/
def World.init : World := ⟨.empty, fun _ => none, [], []⟩

/-- The world with another handle in a place. -/
def World.setHandle (w : World) (h : Nat) (handle : Option Handle) : World :=
  { w with handles := fun i => if i = h then handle else w.handles i }

/-! ## Steps -/

/-- An operation with its clock and its random values. -/
inductive Call where
  | setEvidence (document : Bytes)
  | bindVerified (fid : Nat) (authority : Bytes) (identity : Identity) (now : Nat) (random : Bytes)
  | invalidateAuthority
  | issuePassword (name : Bytes) (now : Nat) (random salt : Bytes)
  | revokePassword (name : Bytes)
  | authenticate (identifier password : Bytes) (now : Nat) (sid jti accessJti : Bytes)
  | getSession (access : Bytes) (now : Nat)
  | validateRefresh (refresh : Bytes) (now : Nat)
  | refreshSession (refresh : Bytes) (now : Nat) (jti accessJti : Bytes)
  | deleteSession (refresh : Bytes) (now : Nat)

/-- What a step answers. `idle` is for events that cannot happen. -/
inductive Reply where
  | idle
  | failed (e : Error)
  | pending
  | opened
  | closed
  | done
  | bound (account : Account)
  | issued (password : IssuedPassword)
  | session (session : Session)
  | info (kind : TokenKind) (token : Bytes) (info : SessionInfo)

/-- The outcome of a call that did not fail. -/
structure Outcome where
  reply : Reply
  db : Db
  pending : Option Pending

section

variable (C : Crates) (io : Faults) (key : Bytes) (db : Db)

/-- Run a call, or its first step. -/
def Call.run : Call → Except Error Outcome
  | setEvidence document => do
      checkEvidence C io db document
      pure ⟨.pending, db, some (.evidence document)⟩
  | bindVerified fid authority identity now random => do
      let (account, db) ← Store.bindVerified C io db fid authority identity now random
      pure ⟨.bound account, db, none⟩
  | invalidateAuthority => do
      let db ← Store.invalidateAuthority C io db
      pure ⟨.done, db, none⟩
  | issuePassword name now random salt => do
      let (password, db) ← Store.issuePassword C io db name now random salt
      pure ⟨.issued password, db, none⟩
  | revokePassword name => do
      let db ← Store.revokePassword io db name
      pure ⟨.done, db, none⟩
  | authenticate identifier password now sid jti accessJti => do
      let (session, db) ← Store.authenticate C io key db identifier password now sid jti accessJti
      pure ⟨.session session, db, none⟩
  | getSession access now => do
      let (account, claims) ← readToken C io key db access .access now
      pure ⟨.pending, db, some (.token .access access account claims now)⟩
  | validateRefresh refresh now => do
      let (account, claims) ← readToken C io key db refresh .refresh now
      pure ⟨.pending, db, some (.token .refresh refresh account claims now)⟩
  | refreshSession refresh now jti accessJti => do
      let (session, db) ← Store.refreshSession C io key db refresh now jti accessJti
      pure ⟨.session session, db, none⟩
  | deleteSession refresh now => do
      let db ← Store.deleteSession C io key db refresh now
      pure ⟨.done, db, none⟩

/-- The identifiers a call draws. -/
def Call.draws : Call → List Bytes
  | authenticate _ _ _ sid jti accessJti => [sid, jti, accessJti]
  | refreshSession _ _ jti accessJti => [jti, accessJti]
  | _ => []

/-- The two tokens of a session. -/
def sessionMints (account : Account) (password sid jti accessJti : Bytes) (now exp : Nat) :
    List Mint :=
  let access := claimsFor account .access sid accessJti now (accessExp now exp)
  let refresh := claimsFor account .refresh sid jti now exp
  [⟨signToken C key access .access, .access, access, password⟩,
    ⟨signToken C key refresh .refresh, .refresh, refresh, password⟩]

/-- The password of a session. -/
def passwordOf (sid : Bytes) : Bytes :=
  match db.sessions.find? sid with
  | some row => row.passwordName
  | none => []

/-- The tokens a call signs, whether or not it succeeds afterwards. -/
def Call.mints : Call → List Mint
  | authenticate identifier password now sid jti accessJti =>
      match beginAuthenticate C io db identifier password now with
      | .ok (account, name, _) =>
          sessionMints C key account name sid jti accessJti now (now + refreshSeconds)
      | .error _ => []
  | refreshSession refresh now jti accessJti =>
      match beginRefresh C io key db refresh now with
      | .ok (account, claims) =>
          sessionMints C key account (passwordOf db claims.sid) claims.sid jti accessJti now
            claims.exp
      | .error _ => []
  | _ => []

end

/-- What happens next: on which handle, and which statements fail. -/
inductive Event where
  | openStore (h : Nat) (io : Faults) (random : Bytes)
  | close (h : Nat)
  | call (h : Nat) (io : Faults) (c : Call)
  | finish (h : Nat) (io : Faults) (now : Nat)

/-- The identifiers an event draws. -/
def Event.draws : Event → List Bytes
  | call _ _ c => c.draws
  | _ => []

/-- The second step of an operation. The session of an access token is checked by a clock of its
own. -/
def Pending.finish (C : Crates) (io : Faults) (db : Db) (now : Nat) :
    Pending → Except Error (Reply × Db)
  | opening => do
      openCheck C io db
      pure (.opened, db)
  | evidence document => do
      let db ← writeEvidence io db document
      pure (.done, db)
  | token .access t account claims _ => do
      validateSession io db claims false now
      pure (.info .access t (sessionInfo account), db)
  | token .refresh t account claims now => do
      validateSession io db claims true now
      pure (.info .refresh t (sessionInfo account), db)

/-- The handle after the second step of an operation: a store that fails to open is not there. -/
def Pending.handle (key : Bytes) (ok : Bool) : Pending → Option Handle
  | opening => if ok then some ⟨key, none⟩ else none
  | _ => some ⟨key, none⟩

/-- One step of the world. -/
def World.step (C : Crates) (w : World) : Event → World × Reply
  | .openStore h io random =>
      match w.handles h with
      | some _ => (w, .idle)
      | none =>
          match openKey io w.db random with
          | .error e => (w, .failed e)
          | .ok (key, db) => ({ w with db }.setHandle h (some ⟨key, some .opening⟩), .pending)
  | .close h => (w.setHandle h none, .closed)
  | .call h io c =>
      match w.handles h with
      | some ⟨key, none⟩ =>
          let w' := { w with
            minted := w.minted ++ c.mints C io key w.db
            drawn := w.drawn ++ c.draws }
          match c.run C io key w.db with
          | .error e => (w', .failed e)
          | .ok o => ({ w' with db := o.db }.setHandle h (some ⟨key, o.pending⟩), o.reply)
      | _ => (w, .idle)
  | .finish h io now =>
      match w.handles h with
      | some ⟨key, some p⟩ =>
          match p.finish C io w.db now with
          | .error e => (w.setHandle h (p.handle key false), .failed e)
          | .ok (reply, db) => ({ w with db }.setHandle h (p.handle key true), reply)
      | _ => (w, .idle)

/-- The machine of the store. -/
def stores (C : Crates) : Machine World Event Reply := ⟨World.step C⟩

/-- An event draws identifiers that were not drawn before. -/
def Fresh (w : World) (e : Event) : Prop := (w.drawn ++ e.draws).Nodup

instance (w : World) (e : Event) : Decidable (Fresh w e) :=
  inferInstanceAs (Decidable (List.Nodup _))

/-! ## What a call does to sessions -/

variable {C : Crates} {io : Faults} {key : Bytes} {db : Db} {c : Call} {o : Outcome} {m m' : Mint}

/-- A call that gives a session with a refresh token `m` leaves its row `row`, and other rows as
they were. -/
structure Outcome.Renews (o : Outcome) (db : Db) (m : Mint) (row : SessionRow) : Prop where
  kind : m.kind = .refresh
  reply : ∃ s, o.reply = .session s ∧ s.refreshJwt = m.token
  id : row.id = m.claims.sid
  jti : row.refreshJti = m.claims.jti
  exp : row.refreshExp = m.claims.exp
  password : row.passwordName = m.password
  others : ∀ r ∈ o.db.sessions.rows, r = row ∨ (r ∈ db.sessions.rows ∧ r.id ≠ row.id)

/-- A call that gives no session, and leaves only rows that were there. -/
structure Outcome.Shrinks (o : Outcome) (db : Db) : Prop where
  reply : ∀ s, o.reply ≠ .session s
  rows : o.db.sessions.rows ⊆ db.sessions.rows

theorem sessionMints_eq (C : Crates) (key : Bytes) (account : Account)
    (password sid jti accessJti : Bytes) (now exp : Nat) :
    sessionMints C key account password sid jti accessJti now exp =
      let s := createSession C key account sid jti accessJti now exp
      [⟨s.accessJwt, .access,
          claimsFor account .access sid accessJti now (accessExp now exp), password⟩,
        ⟨s.refreshJwt, .refresh, claimsFor account .refresh sid jti now exp, password⟩] := rfl

theorem authenticate_renews {identifier password sid jti accessJti : Bytes} {now : Nat}
    {s : Session} {db' : Db}
    (h : Store.authenticate C io key db identifier password now sid jti accessJti = .ok (s, db')) :
    ∃ m ∈ (Call.authenticate identifier password now sid jti accessJti).mints C io key db,
      ∃ row, Outcome.Renews ⟨.session s, db', none⟩ db m row := by
  obtain ⟨a, name, db₁, hbegin, rfl, hcommit⟩ := authenticate_eq_ok h
  obtain ⟨-, -, -, rfl⟩ := beginAuthenticate_eq_ok hbegin
  obtain ⟨hnew, hrows, -⟩ := Db.insertSession_eq_some (commitSession_eq_ok hcommit)
  refine ⟨⟨_, .refresh, claimsFor a .refresh sid jti now (now + refreshSeconds), name⟩, ?_,
    ⟨sid, name, jti, now + refreshSeconds⟩, rfl, ⟨_, rfl, rfl⟩, rfl, rfl, rfl, rfl, ?_⟩
  · simp only [Call.mints, hbegin, sessionMints_eq]
    exact List.mem_cons_of_mem _ List.mem_cons_self
  · intro r hr
    rw [hrows] at hr
    rcases List.mem_append.mp hr with hr | hr
    · exact .inr ⟨(Table.mem_delete.mp hr).1, hnew r hr⟩
    · exact .inl (List.mem_singleton.mp hr)

theorem refreshSession_renews {refresh jti accessJti : Bytes} {now : Nat} {s : Session} {db' : Db}
    (h : Store.refreshSession C io key db refresh now jti accessJti = .ok (s, db')) :
    ∃ m ∈ (Call.refreshSession refresh now jti accessJti).mints C io key db,
      ∃ row, Outcome.Renews ⟨.session s, db', none⟩ db m row := by
  obtain ⟨a, claims, hbegin, rfl, hcommit⟩ := refreshSession_eq_ok h
  obtain ⟨-, rfl⟩ := commitRefresh_eq_ok hcommit
  obtain ⟨-, -, hval⟩ := beginRefresh_eq_ok hbegin
  obtain ⟨old, hold, hid, -, hmatch⟩ := validateSession_eq_ok hval
  obtain ⟨hjti, hexp⟩ := hmatch rfl
  have hfind : db.sessions.find? claims.sid = some old := Table.find?_eq_some_iff.mpr ⟨hold, hid⟩
  refine ⟨⟨_, .refresh, claimsFor a .refresh claims.sid jti now claims.exp, old.passwordName⟩, ?_,
    { old with refreshJti := jti }, rfl, ⟨_, rfl, rfl⟩, hid, rfl, hexp, rfl, ?_⟩
  · simp only [Call.mints, hbegin, sessionMints_eq, passwordOf, hfind]
    exact List.mem_cons_of_mem _ List.mem_cons_self
  · intro r hr
    rcases Db.mem_sessions_rotate.mp hr with ⟨hr, hne⟩ | ⟨t, ht, htid, -, rfl⟩
    · refine .inr ⟨hr, fun hrid => hne ⟨hrid.trans hid, ?_⟩⟩
      rw [Table.eq_of_key_eq db.sessions hr hold hrid]
      exact hjti
    · obtain rfl := Table.eq_of_key_eq db.sessions ht hold (htid.trans hid.symm)
      exact .inl rfl

/-- What a call does to the sessions. -/
theorem Call.run_sessions (h : c.run C io key db = .ok o) :
    o.db.jwtKey = db.jwtKey ∧
      (o.Shrinks db ∨ ∃ m ∈ c.mints C io key db, ∃ row, o.Renews db m row) := by
  have same : ∀ {db' : Db} {reply : Reply} {p : Option Pending}, (∀ s, reply ≠ .session s) →
      db'.sessions.rows ⊆ db.sessions.rows → Outcome.Shrinks ⟨reply, db', p⟩ db :=
    fun hreply hrows => ⟨hreply, hrows⟩
  cases c with
  | setEvidence document =>
      simp only [run, bind_eq_ok, pure_eq_ok] at h
      obtain ⟨_, -, rfl⟩ := h
      exact ⟨rfl, .inl (same (by simp) (List.Subset.refl _))⟩
  | bindVerified fid authority identity now random =>
      simp only [run, bind_eq_ok, pure_eq_ok, Prod.exists] at h
      obtain ⟨a, db', hbind, rfl⟩ := h
      obtain ⟨⟨_, rfl⟩, -⟩ := bindVerified_eq_ok hbind
      exact ⟨rfl, .inl (same (by simp) (List.Subset.refl _))⟩
  | invalidateAuthority =>
      simp only [run, bind_eq_ok, pure_eq_ok] at h
      obtain ⟨db', hinv, rfl⟩ := h
      obtain ⟨-, hrows, -, hkey, -⟩ := invalidateAuthority_eq_ok hinv
      exact ⟨hkey, .inl (same (by simp) (by simp [hrows]))⟩
  | issuePassword name now random salt =>
      simp only [run, bind_eq_ok, pure_eq_ok, Prod.exists] at h
      obtain ⟨p, db', hissue, rfl⟩ := h
      obtain ⟨-, -, hsessions, hkey, -⟩ :=
        Db.insertPassword_eq_some (issuePassword_eq_ok hissue).2
      refine ⟨hkey, .inl (same (by simp) ?_)⟩
      rw [hsessions]
      exact List.Subset.refl _
  | revokePassword name =>
      simp only [run, bind_eq_ok, pure_eq_ok] at h
      obtain ⟨db', hrevoke, rfl⟩ := h
      obtain rfl := revokePassword_eq_ok hrevoke
      exact ⟨rfl, .inl (same (by simp) fun s hs => (Db.mem_sessions_deletePasswords.mp hs).1)⟩
  | authenticate identifier password now sid jti accessJti =>
      simp only [run, bind_eq_ok, pure_eq_ok, Prod.exists] at h
      obtain ⟨s, db', hauth, rfl⟩ := h
      refine ⟨?_, .inr (authenticate_renews hauth)⟩
      obtain ⟨a, name, db₁, hbegin, -, hcommit⟩ := authenticate_eq_ok hauth
      obtain ⟨-, -, -, rfl⟩ := beginAuthenticate_eq_ok hbegin
      exact (Db.insertSession_eq_some (commitSession_eq_ok hcommit)).2.2.2.1
  | getSession access now =>
      simp only [run, bind_eq_ok, pure_eq_ok, Prod.exists] at h
      obtain ⟨a, claims, -, rfl⟩ := h
      exact ⟨rfl, .inl (same (by simp) (List.Subset.refl _))⟩
  | validateRefresh refresh now =>
      simp only [run, bind_eq_ok, pure_eq_ok, Prod.exists] at h
      obtain ⟨a, claims, -, rfl⟩ := h
      exact ⟨rfl, .inl (same (by simp) (List.Subset.refl _))⟩
  | refreshSession refresh now jti accessJti =>
      simp only [run, bind_eq_ok, pure_eq_ok, Prod.exists] at h
      obtain ⟨s, db', hrefresh, rfl⟩ := h
      refine ⟨?_, .inr (refreshSession_renews hrefresh)⟩
      obtain ⟨a, claims, -, -, hcommit⟩ := refreshSession_eq_ok hrefresh
      obtain ⟨-, rfl⟩ := commitRefresh_eq_ok hcommit
      rfl
  | deleteSession refresh now =>
      simp only [run, bind_eq_ok, pure_eq_ok] at h
      obtain ⟨db', hdelete, rfl⟩ := h
      obtain ⟨a, claims, -, rfl⟩ := deleteSession_eq_ok hdelete
      exact ⟨rfl, .inl (same (by simp) fun s hs => (Table.mem_delete.mp hs).1)⟩

/-- A call that goes on reading a token has verified it. -/
theorem Call.pending_of_run (h : c.run C io key db = .ok o) {kind : TokenKind} {t : Bytes}
    {a : Account} {cl : Claims} {now : Nat} (hp : o.pending = some (.token kind t a cl now)) :
    tokenClaims C t = some cl := by
  cases c with
  | getSession access now =>
      simp only [run, bind_eq_ok, pure_eq_ok, Prod.exists] at h
      obtain ⟨a', cl', hread, rfl⟩ := h
      cases hp
      exact (verifyToken_eq_ok.mp (readToken_eq_ok hread).2).2.2.2.1
  | validateRefresh refresh now =>
      simp only [run, bind_eq_ok, pure_eq_ok, Prod.exists] at h
      obtain ⟨a', cl', hread, rfl⟩ := h
      cases hp
      exact (verifyToken_eq_ok.mp (readToken_eq_ok hread).2).2.2.2.1
  | _ =>
      simp only [run, bind_eq_ok, pure_eq_ok, Prod.exists] at h
      grind

/-! ## What a call signs -/

/-- A signed token is for a new session, or for a session that is there. -/
structure Mint.Origin (C : Crates) (db : Db) (draws : List Bytes) (m : Mint) : Prop where
  token : ∃ key, m.token = signToken C key m.claims m.kind
  scope : m.claims.scope = m.kind.scope
  inRange : m.claims.InRange
  jti : m.claims.jti ∈ draws
  sid : m.claims.sid ∈ draws ∨
    ∃ r ∈ db.sessions.rows, r.id = m.claims.sid ∧ r.passwordName = m.password

theorem mem_sessionMints {account : Account} {password sid jti accessJti : Bytes} {now exp : Nat}
    (hm : m ∈ sessionMints C key account password sid jti accessJti now exp) :
    m.token = signToken C key m.claims m.kind ∧ m.claims.scope = m.kind.scope ∧
      m.claims.sid = sid ∧ m.password = password ∧ m.claims.iat = now ∧ m.claims.exp ≤ exp ∧
      (m.claims.jti = jti ∨ m.claims.jti = accessJti) := by
  rcases List.mem_cons.mp hm with rfl | hm
  · exact ⟨rfl, rfl, rfl, rfl, rfl, accessExp_le _ _, .inr rfl⟩
  · obtain rfl := List.mem_singleton.mp hm
    exact ⟨rfl, rfl, rfl, rfl, rfl, Nat.le_refl _, .inl rfl⟩

theorem Call.origin_of_mem_mints (hm : m ∈ c.mints C io key db) : m.Origin C db c.draws := by
  cases c with
  | authenticate identifier password now sid jti accessJti =>
      simp only [mints] at hm
      split at hm
      · rename_i a name db₁ hbegin
        obtain ⟨-, -, hnow, -⟩ := beginAuthenticate_eq_ok hbegin
        obtain ⟨htoken, hscope, hsid, -, hiat, hexp, hjti⟩ := mem_sessionMints hm
        have hseconds : refreshSeconds = 604800 := rfl
        refine ⟨⟨key, htoken⟩, hscope, ⟨?_, ?_⟩, ?_, .inl ?_⟩
        · rw [hiat, u64Max]
          omega
        · rw [u64Max]
          omega
        · rcases hjti with h | h <;> simp [draws, h]
        · simp [draws, hsid]
      · cases hm
  | refreshSession refresh now jti accessJti =>
      simp only [mints] at hm
      split at hm
      · rename_i a claims hbegin
        obtain ⟨-, hver, hval⟩ := beginRefresh_eq_ok hbegin
        obtain ⟨-, -, -, hclaims, -, hnow⟩ := verifyToken_eq_ok.mp hver
        obtain ⟨row, hrow, hid, -⟩ := validateSession_eq_ok hval
        obtain ⟨-, hmax⟩ := inRange_of_tokenClaims hclaims
        obtain ⟨htoken, hscope, hsid, hpassword, hiat, hexp, hjti⟩ := mem_sessionMints hm
        have hfind : db.sessions.find? claims.sid = some row :=
          Table.find?_eq_some_iff.mpr ⟨hrow, hid⟩
        refine ⟨⟨key, htoken⟩, hscope, ⟨by omega, by omega⟩, ?_,
          .inr ⟨row, hrow, hid.trans hsid.symm, ?_⟩⟩
        · rcases hjti with h | h <;> simp [draws, h]
        · rw [hpassword, passwordOf, hfind]
      · cases hm
  | _ => cases hm

/-- The tokens of a call belong to one session, and are told apart by their identifiers. -/
theorem Call.eq_of_mem_mints (hnd : c.draws.Nodup) (hm : m ∈ c.mints C io key db)
    (hm' : m' ∈ c.mints C io key db) :
    m.claims.sid = m'.claims.sid ∧ m.password = m'.password ∧
      (m.claims.jti = m'.claims.jti → m = m') := by
  have two : ∀ {account : Account} {password sid jti accessJti : Bytes} {now exp : Nat},
      jti ≠ accessJti → m ∈ sessionMints C key account password sid jti accessJti now exp →
      m' ∈ sessionMints C key account password sid jti accessJti now exp →
      m.claims.sid = m'.claims.sid ∧ m.password = m'.password ∧
        (m.claims.jti = m'.claims.jti → m = m') := by
    intro account password sid jti accessJti now exp hne hm hm'
    obtain ⟨-, -, hsid, hpw, -⟩ := mem_sessionMints hm
    obtain ⟨-, -, hsid', hpw', -⟩ := mem_sessionMints hm'
    refine ⟨hsid.trans hsid'.symm, hpw.trans hpw'.symm, fun hjti => ?_⟩
    simp only [sessionMints, List.mem_cons, List.not_mem_nil, or_false] at hm hm'
    rcases hm with rfl | rfl <;> rcases hm' with rfl | rfl
    · rfl
    · exact absurd hjti.symm hne
    · exact absurd hjti hne
    · rfl
  cases c with
  | authenticate identifier password now sid jti accessJti =>
      have hne : jti ≠ accessJti := by
        rintro rfl
        simp [draws] at hnd
      simp only [mints] at hm hm'
      split at hm
      · rename_i hbegin
        rw [hbegin] at hm'
        exact two hne hm hm'
      · cases hm
  | refreshSession refresh now jti accessJti =>
      have hne : jti ≠ accessJti := by
        rintro rfl
        simp [draws] at hnd
      simp only [mints] at hm hm'
      split at hm
      · rename_i hbegin
        rw [hbegin] at hm'
        exact two hne hm hm'
      · cases hm
  | _ => cases hm

/-! ## The invariant -/

/-- How sessions, signed tokens and drawn identifiers hang together. -/
structure Invariant (C : Crates) (w : World) : Prop where
  /-- Every handle has the key of the store. -/
  keys : ∀ h o, w.handles h = some o → w.db.jwtKey = some o.jwtKey
  /-- A token being read says the claims that were read from it. -/
  pending : ∀ h key kind t a c now, w.handles h = some ⟨key, some (.token kind t a c now)⟩ →
    tokenClaims C t = some c
  nodup : w.drawn.Nodup
  rowDrawn : ∀ r ∈ w.db.sessions.rows, r.id ∈ w.drawn ∧ r.refreshJti ∈ w.drawn
  mintDrawn : ∀ m ∈ w.minted, m.claims.sid ∈ w.drawn ∧ m.claims.jti ∈ w.drawn
  claims : ∀ m ∈ w.minted, tokenClaims C m.token = some m.claims ∧ m.claims.scope = m.kind.scope
  /-- The tokens of a session were signed under the password its row refers to. -/
  password : ∀ m ∈ w.minted, ∀ r ∈ w.db.sessions.rows, r.id = m.claims.sid →
    r.passwordName = m.password
  /-- An identifier is on one token. -/
  distinct : ∀ m ∈ w.minted, ∀ m' ∈ w.minted, m.claims.jti = m'.claims.jti → m = m'

theorem invariant_init (C : Crates) : Invariant C World.init where
  keys := by simp [World.init]
  pending := by simp [World.init]
  nodup := List.nodup_nil
  rowDrawn := by simp [World.init, Db.empty]
  mintDrawn := by simp [World.init]
  claims := by simp [World.init]
  password := by simp [World.init]
  distinct := by simp [World.init]

/-- What a step did to the history and the sessions: the identifiers it drew, the tokens it signed
with them, and the row it renewed with one of these, if any. -/
structure Effect (C : Crates) (w w' : World) (reply : Reply) (draws : List Bytes)
    (new : List Mint) : Prop where
  drawn : w'.drawn = w.drawn ++ draws
  minted : w'.minted = w.minted ++ new
  origin : ∀ m ∈ new, m.Origin C w.db draws
  related : draws.Nodup → ∀ m ∈ new, ∀ m' ∈ new, m.claims.sid = m'.claims.sid ∧
    m.password = m'.password ∧ (m.claims.jti = m'.claims.jti → m = m')
  sessions : Outcome.Shrinks ⟨reply, w'.db, none⟩ w.db ∨
    ∃ m ∈ new, ∃ row, Outcome.Renews ⟨reply, w'.db, none⟩ w.db m row

theorem Outcome.Shrinks.refl {reply : Reply} (h : ∀ s, reply ≠ .session s) (db : Db) :
    Outcome.Shrinks ⟨reply, db, none⟩ db := ⟨h, List.Subset.refl _⟩

theorem finish_eq_ok {p : Pending} {now : Nat} {reply : Reply} {db' : Db}
    (h : p.finish C io db now = .ok (reply, db')) :
    db'.jwtKey = db.jwtKey ∧ db'.passwords = db.passwords ∧ db'.sessions = db.sessions ∧
      (∀ s, reply ≠ .session s) ∧
      ∀ kind t i, reply = .info kind t i →
        ∃ a c now₀ now', p = .token kind t a c now₀ ∧
          validateSession io db c (kind = .refresh) now' = .ok () := by
  cases p with
  | opening =>
      simp only [Pending.finish, bind_eq_ok, pure_eq_ok, Prod.mk.injEq] at h
      obtain ⟨_, -, rfl, rfl⟩ := h
      exact ⟨rfl, rfl, rfl, by simp, by simp⟩
  | evidence document =>
      simp only [Pending.finish, bind_eq_ok, pure_eq_ok, Prod.mk.injEq] at h
      obtain ⟨_, hwrite, rfl, rfl⟩ := h
      obtain rfl := writeEvidence_eq_ok hwrite
      exact ⟨rfl, rfl, rfl, by simp, by simp⟩
  | token kind t a c now₀ =>
      cases kind with
      | access =>
          simp only [Pending.finish, bind_eq_ok, pure_eq_ok, Prod.mk.injEq] at h
          obtain ⟨_, hval, rfl, rfl⟩ := h
          refine ⟨rfl, rfl, rfl, by simp, ?_⟩
          intro kind t i hi
          cases hi
          exact ⟨a, c, now₀, now, rfl, hval⟩
      | refresh =>
          simp only [Pending.finish, bind_eq_ok, pure_eq_ok, Prod.mk.injEq] at h
          obtain ⟨_, hval, rfl, rfl⟩ := h
          refine ⟨rfl, rfl, rfl, by simp, ?_⟩
          intro kind t i hi
          cases hi
          exact ⟨a, c, now₀, now₀, rfl, hval⟩

/-- Every step has such an effect, with the identifiers of its event or none. -/
theorem step_effect {w w' : World} {e : Event} {reply : Reply} (h : w.step C e = (w', reply)) :
    ∃ draws new, Effect C w w' reply draws new ∧ (draws = [] ∨ draws = e.draws) := by
  have quiet : ∀ {w' : World} {reply : Reply}, w'.minted = w.minted → w'.drawn = w.drawn →
      w'.db.sessions = w.db.sessions → (∀ s, reply ≠ .session s) →
      ∃ draws new, Effect C w w' reply draws new ∧ (draws = [] ∨ draws = e.draws) := by
    intro w' reply hm hd hs hr
    refine ⟨[], [], ⟨by simp [hd], by simp [hm], by simp, by simp, .inl ⟨hr, ?_⟩⟩, .inl rfl⟩
    rw [hs]
    exact List.Subset.refl _
  cases e with
  | openStore i io random =>
      simp only [World.step] at h
      split at h
      · obtain ⟨rfl, rfl⟩ := Prod.mk.inj h
        exact quiet rfl rfl rfl (by simp)
      · split at h
        · obtain ⟨rfl, rfl⟩ := Prod.mk.inj h
          exact quiet rfl rfl rfl (by simp)
        · rename_i hopen
          obtain ⟨rfl, rfl⟩ := Prod.mk.inj h
          exact quiet rfl rfl (openKey_eq_ok hopen).2.2.2.2.1 (by simp)
  | close i =>
      obtain ⟨rfl, rfl⟩ := Prod.mk.inj h
      exact quiet rfl rfl rfl (by simp)
  | call i io c =>
      simp only [World.step] at h
      split at h
      · rename_i key _
        have horigin : ∀ m ∈ c.mints C io key w.db, m.Origin C w.db c.draws :=
          fun m => Call.origin_of_mem_mints
        have hrelated := fun (hnd : c.draws.Nodup) m (hm : m ∈ c.mints C io key w.db) m'
          (hm' : m' ∈ c.mints C io key w.db) => Call.eq_of_mem_mints hnd hm hm'
        split at h
        · obtain ⟨rfl, rfl⟩ := Prod.mk.inj h
          exact ⟨c.draws, _, ⟨rfl, rfl, horigin, hrelated, .inl (.refl (by simp) _)⟩, .inr rfl⟩
        · rename_i o hrun
          obtain ⟨rfl, rfl⟩ := Prod.mk.inj h
          refine ⟨c.draws, _, ⟨rfl, rfl, horigin, hrelated, ?_⟩, .inr rfl⟩
          rcases (Call.run_sessions hrun).2 with hs | ⟨m, hm, row, hr⟩
          · exact .inl ⟨hs.reply, hs.rows⟩
          · exact .inr ⟨m, hm, row, hr.kind, hr.reply, hr.id, hr.jti, hr.exp, hr.password,
              hr.others⟩
      · obtain ⟨rfl, rfl⟩ := Prod.mk.inj h
        exact quiet rfl rfl rfl (by simp)
  | finish i io now =>
      simp only [World.step] at h
      split at h
      · split at h
        · obtain ⟨rfl, rfl⟩ := Prod.mk.inj h
          exact quiet rfl rfl rfl (by simp)
        · rename_i hfinish
          obtain ⟨rfl, rfl⟩ := Prod.mk.inj h
          obtain ⟨-, -, hs, hr, -⟩ := finish_eq_ok hfinish
          exact quiet rfl rfl hs hr
      · obtain ⟨rfl, rfl⟩ := Prod.mk.inj h
        exact quiet rfl rfl rfl (by simp)

/-- Every handle has the key of the store, and a token that a handle is reading says the claims that
were read from it. -/
structure Held (C : Crates) (w : World) : Prop where
  keys : ∀ h o, w.handles h = some o → w.db.jwtKey = some o.jwtKey
  pending : ∀ h key kind t a c now, w.handles h = some ⟨key, some (.token kind t a c now)⟩ →
    tokenClaims C t = some c

/-- The handles of the next state go with its key, and say what they read. -/
theorem step_handles {w w' : World} {e : Event} {reply : Reply} (h : w.step C e = (w', reply))
    (hw : Held C w) : Held C w' := by
  have set : ∀ {db' : Db} {i : Nat} {x : Option Handle} {ms : List Mint} {ds : List Bytes},
      (∀ j o, w.handles j = some o → db'.jwtKey = some o.jwtKey) →
      (∀ o ∈ x, db'.jwtKey = some o.jwtKey ∧ ∀ kind t a c now,
        o.pending = some (.token kind t a c now) → tokenClaims C t = some c) →
      let v : World := World.setHandle ⟨db', w.handles, ms, ds⟩ i x
      Held C v := by
    intro db' i x ms ds hold hx
    constructor
    · intro j o ho
      simp only [World.setHandle] at ho
      split at ho
      · exact (hx o ho).1
      · exact hold j o ho
    · intro j key kind t a c now ho
      simp only [World.setHandle] at ho
      split at ho
      · exact (hx _ ho).2 kind t a c now rfl
      · exact hw.pending j key kind t a c now ho
  have none : ∀ {db' : Db}, ∀ o ∈ (none : Option Handle), db'.jwtKey = some o.jwtKey ∧
      ∀ kind t a c now, o.pending = some (.token kind t a c now) → tokenClaims C t = some c := by
    intro db' o ho
    cases ho
  cases e with
  | openStore i io random =>
      simp only [World.step] at h
      split at h
      · obtain ⟨rfl, rfl⟩ := Prod.mk.inj h
        exact hw
      · split at h
        · obtain ⟨rfl, rfl⟩ := Prod.mk.inj h
          exact hw
        · rename_i key db' hopen
          obtain ⟨rfl, rfl⟩ := Prod.mk.inj h
          obtain ⟨hkey, hold, -⟩ := openKey_eq_ok hopen
          refine set (fun j o ho => ?_) ?_
          · rw [hkey, hold _ (hw.keys j o ho)]
          · intro o ho
            obtain rfl := Option.some.inj ho
            exact ⟨hkey, by simp⟩
  | close i =>
      obtain ⟨rfl, rfl⟩ := Prod.mk.inj h
      exact set hw.keys none
  | call i io c =>
      simp only [World.step] at h
      split at h
      · rename_i key hhandle
        have hkey := hw.keys i _ hhandle
        split at h
        · obtain ⟨rfl, rfl⟩ := Prod.mk.inj h
          exact ⟨hw.keys, hw.pending⟩
        · rename_i o hrun
          obtain ⟨rfl, rfl⟩ := Prod.mk.inj h
          have hsame := (Call.run_sessions hrun).1
          refine set (fun j o ho => ?_) ?_
          · rw [hsame]
            exact hw.keys j o ho
          · intro x hx
            obtain rfl := Option.some.inj hx
            refine ⟨?_, fun kind t a cl now hp => Call.pending_of_run hrun hp⟩
            rw [hsame]
            exact hkey
      · obtain ⟨rfl, rfl⟩ := Prod.mk.inj h
        exact hw
  | finish i io now =>
      simp only [World.step] at h
      split at h
      · rename_i key p hhandle
        have hkey := hw.keys i _ hhandle
        have hlater : ∀ (ok : Bool) {db' : Db}, db'.jwtKey = w.db.jwtKey →
            ∀ o ∈ p.handle key ok, db'.jwtKey = some o.jwtKey ∧ ∀ kind t a c now,
              o.pending = some (.token kind t a c now) → tokenClaims C t = some c := by
          intro ok db' hdb o ho
          rw [hdb]
          cases p with
          | opening =>
              cases ok
              · cases ho
              · obtain rfl := Option.some.inj ho
                exact ⟨hkey, by simp⟩
          | _ =>
              obtain rfl := Option.some.inj ho
              exact ⟨hkey, by simp⟩
        split at h
        · obtain ⟨rfl, rfl⟩ := Prod.mk.inj h
          exact set hw.keys (hlater false rfl)
        · rename_i hfinish
          obtain ⟨rfl, rfl⟩ := Prod.mk.inj h
          have hsame := (finish_eq_ok hfinish).1
          refine set (fun j o ho => ?_) (hlater true hsame)
          rw [hsame]
          exact hw.keys j o ho
      · obtain ⟨rfl, rfl⟩ := Prod.mk.inj h
        exact hw

section

variable {w w' : World} {reply : Reply} {draws : List Bytes} {new : List Mint}

/-- A row of the next state was there, or is the row of the token that was returned. -/
theorem Effect.row_cases (h : Effect C w w' reply draws new) {r : SessionRow}
    (hr : r ∈ w'.db.sessions.rows) :
    r ∈ w.db.sessions.rows ∨ ∃ m ∈ new, Outcome.Renews ⟨reply, w'.db, none⟩ w.db m r := by
  rcases h.sessions with hs | ⟨m, hm, row, hrenew⟩
  · exact .inl (hs.rows hr)
  · rcases hrenew.others r hr with rfl | ⟨hr, -⟩
    · exact .inr ⟨m, hm, hrenew⟩
    · exact .inl hr

/-- A token of the next state was there, or was signed now. -/
theorem Effect.mint_cases (h : Effect C w w' reply draws new) (hm : m ∈ w'.minted) :
    m ∈ w.minted ∨ m ∈ new := by
  rw [h.minted] at hm
  exact List.mem_append.mp hm

variable (hw : Invariant C w) (h : Effect C w w' reply draws new)
  (hfresh : (w.drawn ++ draws).Nodup)

theorem not_drawn {x : Bytes} (hfresh : (w.drawn ++ draws).Nodup) (hx : x ∈ draws) :
    x ∉ w.drawn := fun hold => (List.nodup_append.mp hfresh).2.2 x hold x hx rfl

include hw h

/-- The session of a token signed now was drawn, now or before. -/
theorem sid_drawn (hm : m ∈ new) : m.claims.sid ∈ w'.drawn := by
  rw [h.drawn]
  rcases (h.origin m hm).sid with hsid | ⟨r, hr, hid, -⟩
  · exact List.mem_append_right _ hsid
  · exact List.mem_append_left _ (hid ▸ (hw.rowDrawn r hr).1)

include hfresh

/-- The password of a token signed now is that of any row of its session. -/
theorem password_of_new (hm : m ∈ new) {r : SessionRow} (hr : r ∈ w.db.sessions.rows)
    (hid : r.id = m.claims.sid) : r.passwordName = m.password := by
  rcases (h.origin m hm).sid with hsid | ⟨r', hr', hid', hpw⟩
  · exact absurd (hid ▸ (hw.rowDrawn r hr).1) (not_drawn hfresh hsid)
  · rw [← hpw, Table.eq_of_key_eq w.db.sessions hr hr' (hid.trans hid'.symm)]

/-- The password of a token signed before is that of a row renewed now. -/
theorem password_of_renewed (hm' : m' ∈ new) {row : SessionRow}
    (hrow : Outcome.Renews ⟨reply, w'.db, none⟩ w.db m' row) (hm : m ∈ w.minted)
    (hid : row.id = m.claims.sid) : row.passwordName = m.password := by
  rcases (h.origin m' hm').sid with hsid | ⟨r, hr, hrid, hpw⟩
  · rw [← hrow.id, hid] at hsid
    exact absurd (hw.mintDrawn m hm).1 (not_drawn hfresh hsid)
  · rw [hrow.password, ← hpw]
    exact hw.password m hm r hr (by rw [hrid, ← hrow.id, hid])

end

/-- The invariant is kept by every step that draws fresh identifiers. -/
theorem Invariant.step (hC : C.json.Lawful) {w : World} (hw : Invariant C w) {e : Event}
    (hfresh : Fresh w e) : Invariant C (w.step C e).1 := by
  generalize hstep : w.step C e = p
  obtain ⟨w', reply⟩ := p
  obtain ⟨draws, new, heff, hdraws⟩ := step_effect hstep
  have hnd : (w.drawn ++ draws).Nodup := by
    rcases hdraws with rfl | rfl
    · rw [List.append_nil]
      exact hw.nodup
    · exact hfresh
  have hold : ∀ {x}, x ∈ w.drawn → x ∈ w'.drawn := fun hx =>
    heff.drawn ▸ List.mem_append_left _ hx
  have hnew : ∀ {x}, x ∈ draws → x ∈ w'.drawn := fun hx =>
    heff.drawn ▸ List.mem_append_right _ hx
  obtain ⟨hkeys, hpending⟩ := step_handles hstep ⟨hw.keys, hw.pending⟩
  refine ⟨hkeys, hpending, heff.drawn ▸ hnd, ?_, ?_, ?_, ?_, ?_⟩
  · intro r hr
    rcases heff.row_cases hr with hr | ⟨m, hm, hrenew⟩
    · exact ⟨hold (hw.rowDrawn r hr).1, hold (hw.rowDrawn r hr).2⟩
    · exact ⟨hrenew.id ▸ sid_drawn hw heff hm, hrenew.jti ▸ hnew (heff.origin m hm).jti⟩
  · intro m hm
    rcases heff.mint_cases hm with hm | hm
    · exact ⟨hold (hw.mintDrawn m hm).1, hold (hw.mintDrawn m hm).2⟩
    · exact ⟨sid_drawn hw heff hm, hnew (heff.origin m hm).jti⟩
  · intro m hm
    rcases heff.mint_cases hm with hm | hm
    · exact hw.claims m hm
    · have horigin := heff.origin m hm
      obtain ⟨key, htoken⟩ := horigin.token
      rw [htoken]
      exact ⟨tokenClaims_signToken hC key horigin.inRange m.kind, horigin.scope⟩
  · intro m hm r hr hid
    rcases heff.row_cases hr with hr | ⟨m', hm', hrenew⟩
    · rcases heff.mint_cases hm with hm | hm
      · exact hw.password m hm r hr hid
      · exact password_of_new hw heff hnd hm hr hid
    · rcases heff.mint_cases hm with hm | hm
      · exact password_of_renewed hw heff hnd hm' hrenew hm hid
      · rw [hrenew.password]
        exact (heff.related (List.nodup_append.mp hnd).2.1 m' hm' m hm).2.1
  · intro m hm m' hm' hjti
    rcases heff.mint_cases hm with hm | hm
    · rcases heff.mint_cases hm' with hm' | hm'
      · exact hw.distinct m hm m' hm' hjti
      · exact absurd (hjti ▸ (hw.mintDrawn m hm).2) (not_drawn hnd (heff.origin m' hm').jti)
    · rcases heff.mint_cases hm' with hm' | hm'
      · exact absurd (hjti ▸ (hw.mintDrawn m' hm').2) (not_drawn hnd (heff.origin m hm).jti)
      · exact (heff.related (List.nodup_append.mp hnd).2.1 m hm m' hm').2.2 hjti

theorem keeps_invariant (hC : C.json.Lawful) :
    (stores C).Keeps Fresh (Invariant C) (Invariant C) :=
  fun _ _ hw hfresh _ => hw.step hC hfresh

/-! ## A run -/

/-- Base58 digits of a number, at most as many as the first argument. -/
def base58Digits : Nat → Nat → Bytes → Bytes
  | 0, _, digits => digits
  | fuel + 1, n, digits =>
      if n = 0 then digits
      else
        let symbols := str "123456789ABCDEFGHJKLMNPQRSTUVWXYZabcdefghijkmnopqrstuvwxyz"
        base58Digits fuel (n / 58) (symbols.getD (n % 58) 49 :: digits)

/-- Base58, with a `1` for every zero byte in front. -/
def base58 (bytes : Bytes) : Bytes :=
  (bytes.takeWhile (· = 0)).map (fun _ => 49) ++
    base58Digits (2 * bytes.length) (ofBigEndian bytes) []

def sampleIdentity : Identity :=
  ⟨str "alice.com", str "did:web:alice.com", str "https://pds.com", str "did:web:pds.com"⟩

/-- The secp256k1 key `0x0101..01`, the JSON texts without spaces, and one URL. The signature is
that of the empty repository of `sampleIdentity` at the revision of second 1700000000. -/
def sampleCrates : Crates where
  json := Json.compact
  parseUrl s :=
    if s = str "https://pds.com" then
      some ⟨str "https", [], none, some (str "pds.com"), none, str "/", none, none⟩
    else none
  ecdsa := Repo.tableEcdsa (List.replicate 32 1)
    (Repo.hex "031b84c5567b126440995d3ed5aaba0565d71e1834604819ff9c17f5e9d5dd078f")
    (Repo.hex ("a563646964716469643a7765623a616c6963652e636f6d637265766d336b65366b6733776b3232323264" ++
      "64617461d82a582500017112209dfefe61dd76ea3dcae5023880b08379d57adf20482d6fdbe2759289f64767" ++
      "7b6470726576f66776657273696f6e03"))
    (Repo.hex ("0557e9f5b328e4b901ec2ac2c76048b32d8ab460d0c50381f725961edce7ba93" ++
      "231ccbe1bfe318fabe71ea1c3310e3418be6869388818b51cbb625c91c40eb17"))
  signingKey bytes := if bytes = List.replicate 32 1 then some bytes else none
  base58 := base58

theorem sampleCrates_port (s : Bytes) (url : Url) (port : Nat)
    (hurl : sampleCrates.parseUrl s = some url) (hport : url.port = some port) : port < 65536 := by
  simp only [sampleCrates] at hurl
  split at hurl
  · obtain rfl := Option.some.inj hurl
    cases hport
  · cases hurl

def sampleKey : Bytes := List.replicate 32 7

/-- A generated password. -/
def samplePassword (b : UInt8) : Bytes := str "psky-" ++ segment (List.replicate 32 b)

/-- A generated identifier. -/
def sampleId (b : UInt8) : Bytes := hexEncode (List.replicate 32 b)

/-- A token of a session. -/
def sampleToken (kind : TokenKind) (sid jti : Bytes) (iat exp : Nat) : Bytes :=
  signToken sampleCrates sampleKey
    ⟨sampleIdentity.did, sampleIdentity.serviceDid, kind.scope, iat, exp, jti, sid⟩ kind

/-- Opening a store. -/
def sampleOpening (h : Nat) : List Event := [.openStore h noFaults sampleKey, .finish h noFaults 0]

/-- Two stores; on one, binding the account, issuing a password, and logging in with it. -/
def sampleLogin : List Event :=
  sampleOpening 0 ++ sampleOpening 1 ++
    [.call 0 noFaults (.bindVerified 1 (str "0xa1") sampleIdentity 1700000000 (List.replicate 32 1)),
      .call 0 noFaults (.issuePassword (str "phone") 1700000000 (List.replicate 32 2)
        (List.replicate 32 3)),
      .call 0 noFaults (.authenticate (str "alice.com") (samplePassword 2) 1700000000 (sampleId 1)
        (sampleId 2) (sampleId 3))]

/-- The refresh token of this login. -/
def sampleFirst : Bytes := sampleToken .refresh (sampleId 1) (sampleId 2) 1700000000 1700604800

end PurpleSky.Credentials
