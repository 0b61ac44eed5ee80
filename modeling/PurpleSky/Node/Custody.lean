import PurpleSky.Credentials.Origins
import PurpleSky.Node.Grants
import PurpleSky.Node.Sessions

/-!
# The custody of a token

A token is accepted for a session; the session was opened by a Login; the Login was let in by a
password; the password was issued for a grant; and the grant was made by a sign-in. Each link is
found in the run before the next, and the authority of the identity that signed in has been in force
from one end of the chain to the other.

* `Block`: the steps of the store that one event makes, from a store that is in order.
* `issue_step`, `login_step`: what one event does to passwords and to sessions.
* **`custody`**: the chain of every token that is accepted.
-/

namespace PurpleSky.Node

open Bytes Credentials Farcaster Procedure Machine

variable {K : Crates}

/-! ## The links -/

/-- An Issue made a password for a grant. -/
inductive Issue (x : Exchange) (q : Password) (grant : Bytes × Nat) : Prop where
  | intro (core : Core) (env : Env) (token : Bytes) (before : x.before = .running core)
      (event : x.event = .action (.issue token q.name) env) (presented : hash token = grant.1)
      (granted : grant ∈ core.grants) (salt : q.salt = env.random .salt)
      (verifier : q.verifier = passwordHash q.salt (str "psky-" ++ segment (env.random .password)))

/-- A Login opened a session, and a password let it in. -/
inductive LogIn (x : Exchange) (s : SessionRow) (q : Password) : Prop where
  | intro (env : Env) (identifier password : Bytes) (session : Session)
      (event : x.event = .action (.login identifier password) env)
      (reply : x.reply = .ok (sessionJson session)) (sid : s.id = randomToken (env.random .sid))
      (name : q.name = s.passwordName) (fits : passwordHash q.salt password = q.verifier)

/-- A session rests on a sign-in of an identity: a sign-in made a grant, an Issue a password for it,
and a Login the session with the password; the grant, the password and the session were there until
the next of these, and the authority of the identity has been in force since. -/
inductive Custody (K : Crates) (earlier : List Exchange) (sid : Bytes)
    (verified : VerifiedIdentity) : Prop where
  | intro (p₁ p₂ p₃ p₄ : List Exchange) (signIn issue login : Exchange) (grant : Bytes × Nat)
      (q : Password) (s : SessionRow)
      (order : earlier = p₁ ++ signIn :: (p₂ ++ issue :: (p₃ ++ login :: p₄)))
      (authorizes : Authorizes K signIn grant verified) (issues : Issue issue q grant)
      (opens : LogIn login s q) (session : s.id = sid)
      (granted : ∀ y ∈ signIn :: p₂, grant ∈ y.after.grants)
      (kept : ∀ y ∈ issue :: p₃, q ∈ y.after.db.passwords.rows)
      (stays : ∀ y ∈ login :: p₄, HasSession s y.after.db)
      (inForce : ∀ y ∈ signIn :: (p₂ ++ issue :: (p₃ ++ login :: p₄)),
        y.after.inForce K = some (fingerprint verified))

/-! ## The steps of one event -/

/-- A password is issued by an Issue. -/
theorem issue_of_makes {p : Process} {e : Event} {i : Nat} {io : Faults}
    {name random salt : Bytes} {now : Nat}
    (h : e.Makes K p (.call i io (.issuePassword name now random salt))) :
    ∃ core env token, p = .running core ∧ e = .action (.issue token name) env ∧
      Granted core token ∧ random = env.random .password ∧ salt = env.random .salt := by
  cases h with
  | calls io makes =>
      cases makes with
      | issue granted => exact ⟨_, _, _, rfl, rfl, granted, rfl, rfl⟩

/-- A session is opened by a Login. -/
theorem login_of_makes {p : Process} {e : Event} {i : Nat} {io : Faults}
    {identifier password sid jti accessJti : Bytes} {now : Nat}
    (h : e.Makes K p (.call i io (.authenticate identifier password now sid jti accessJti))) :
    ∃ env, e = .action (.login identifier password) env ∧ sid = randomToken (env.random .sid) := by
  cases h with
  | calls io makes =>
      cases makes with
      | login => exact ⟨_, rfl, rfl⟩

/-- The steps of the store that one event makes, from a store that is in order. -/
structure Block (K : Crates) (p : Process) (e : Event) (w : World)
    (ds : List Credentials.Event) : Prop where
  linked : p.Linked w
  live : Credentials.Live K.credentials w
  typed : (stores K.credentials).Meets Typed w ds
  next : ((nodes K).step p e).1.Linked ((stores K.credentials).final w ds)
  shows : Shows K ((nodes K).entry p e) ((stores K.credentials).trace w ds)

/-- A node whose store is in order. -/
def Backed (K : Crates) (p : Process) : Prop := ∃ w, p.Linked w ∧ Credentials.Live K.credentials w

theorem backed_init (K : Crates) : Backed K .init := ⟨World.init, ⟨rfl, rfl⟩, live_init _⟩

theorem exists_block_of_backed {p : Process} (hp : Backed K p) (e : Event) :
    ∃ w ds, Block K p e w ds := by
  obtain ⟨w, hlinked, hlive⟩ := hp
  obtain ⟨ds, hnext, hshows⟩ := simulates_store K p w e hlinked trivial
  refine ⟨w, ds, hlinked, hlive, meets_iff.mpr fun y hy => ?_, hnext, hshows⟩
  exact (hshows.fits.makes y hy).wellTyped

namespace Block

variable {p : Process} {e : Event} {w : World} {ds : List Credentials.Event}
  {authority : Bytes}

theorem backed (h : Block K p e w ds) (hK : K.json.Lawful) : Backed K ((nodes K).step p e).1 :=
  ⟨_, h.next, h.typed.invariant (keeps_live (C := K.credentials) hK) h.live⟩

theorem before_db (h : Block K p e w ds) : w.db = p.db := db_of_linked h.linked

theorem after_db (h : Block K p e w ds) :
    ((stores K.credentials).final w ds).db = ((nodes K).step p e).1.db := db_of_linked h.next

theorem makes (h : Block K p e w ds) {d : Credentials.Event} (hd : d ∈ ds) : e.Makes K p d := by
  rw [← map_event_trace (M := stores K.credentials) w ds] at hd
  obtain ⟨y, hy, rfl⟩ := List.mem_map.mp hd
  exact h.shows.fits.makes y hy

/-- Only a Poll brings an authority into force. -/
theorem authority_before (h : Block K p e w ds) (hK : K.json.Lawful)
    (hpoll : ∀ id token env, e ≠ .action (.poll id token) env)
    (hauth : ((nodes K).step p e).1.inForce K = some authority) :
    p.inForce K = some authority := by
  rw [Process.inForce, ← h.after_db] at hauth
  rw [Process.inForce, ← h.before_db]
  refine authority_in_part (C := K.credentials) hK h.live h.typed ?_ hauth
  intro i io fid authority identity now random hd
  cases h.makes hd with
  | calls io makes =>
      cases makes with
      | binding => exact hpoll _ _ _ rfl

end Block

section

variable (hK : K.json.Lawful) {p : Process} (hp : Backed K p) (e : Event) {authority : Bytes}
  (hauth : ((nodes K).step p e).1.inForce K = some authority)

include hK hp hauth

/-- A password was there before an event, or the event is the Issue that made it. -/
theorem issue_step {q : Password} (hq : q ∈ ((nodes K).step p e).1.db.passwords.rows) :
    (q ∈ p.db.passwords.rows ∧ p.inForce K = some authority) ∨
      (∃ grant, Issue ((nodes K).entry p e) q grant) ∧ p.inForce K = some authority := by
  obtain ⟨w, ds, hblock⟩ := exists_block_of_backed hp e
  have hq' := hq
  have hauth' := hauth
  rw [← hblock.after_db] at hq'
  rw [Process.inForce, ← hblock.after_db] at hauth'
  rcases issues_in_part (C := K.credentials) hK hblock.live hblock.typed hq' hauth' with
    hold | ⟨y, hy, i, io, random, hevent, -, hverifier⟩
  · rw [hblock.before_db] at hold
    exact .inl hold
  · have hmakes := hblock.shows.fits.makes y hy
    rw [hevent] at hmakes
    obtain ⟨core, env, token, rfl, rfl, ⟨expires, hgrant⟩, rfl, hsalt⟩ := issue_of_makes hmakes
    refine .inr ⟨⟨_, .intro core env token rfl rfl rfl hgrant hsalt hverifier⟩, ?_⟩
    exact hblock.authority_before hK (fun _ _ _ h => by cases h) hauth

/-- A session was there before an event, or the event is the Login that opened it. -/
theorem login_step {s : SessionRow} (hs : HasSession s ((nodes K).step p e).1.db) :
    (HasSession s p.db ∧ p.inForce K = some authority) ∨
      (∃ q ∈ p.db.passwords.rows, LogIn ((nodes K).entry p e) s q) ∧
        p.inForce K = some authority := by
  obtain ⟨w, ds, hblock⟩ := exists_block_of_backed hp e
  have hs' := hs
  have hauth' := hauth
  rw [← hblock.after_db] at hs'
  rw [Process.inForce, ← hblock.after_db] at hauth'
  rcases creates_in_part (C := K.credentials) hK hblock.live hblock.typed hs' hauth' with
    hold | ⟨us, y, vs, htrace, hcreates, hthere, hforce⟩
  · rw [hblock.before_db] at hold
    exact .inl hold
  · have hy : y ∈ (stores K.credentials).trace w ds :=
      htrace ▸ List.mem_append_right _ List.mem_cons_self
    obtain ⟨ds₁, d, ds₂, rfl, -, rfl, -⟩ := exists_of_trace_eq_cons htrace
    obtain ⟨i, io, identifier, password, now, jti, accessJti, r, q, rfl, hreply, hadmits⟩ :=
      admits_of_creates hcreates hthere
    have hmakes := hblock.makes (List.mem_append_right _ List.mem_cons_self)
    obtain ⟨env, rfl, hsid⟩ := login_of_makes hmakes
    refine .inr ⟨⟨q, ?_, .intro env identifier password r rfl (hblock.shows.answers _ hy r hreply)
      hsid hadmits.name hadmits.fits⟩, hblock.authority_before hK (fun _ _ _ h => by cases h) hauth⟩
    -- no step of a Login issues a password, so that this one was there before
    have htyped := (meets_append.mp hblock.typed).1
    rcases issues_in_part (C := K.credentials) hK hblock.live htyped hadmits.mem hforce with
      ⟨hmem, -⟩ | ⟨z, hz, i', io', random, hevent, -⟩
    · rwa [hblock.before_db] at hmem
    · have hz' := hblock.makes (List.mem_append_left _ (event_mem_of_mem_trace hz))
      rw [hevent] at hz'
      obtain ⟨_, _, _, -, heq, -⟩ := issue_of_makes hz'
      cases heq

end

/-! ## Runs -/

section

variable (hK : K.json.Lawful)

include hK

theorem keeps_backed : (nodes K).Keeps (fun _ _ => True) (Backed K) (Backed K) := by
  intro p e hp _ _
  obtain ⟨w, ds, hblock⟩ := exists_block_of_backed hp e
  exact hblock.backed hK

theorem backed_final (es : List Event) : Backed K ((nodes K).final .init es) :=
  (meets_iff.mpr fun _ _ => trivial : (nodes K).Meets (fun _ _ => True) .init es).invariant
    (keeps_backed hK) (backed_init K)

variable {es : List Event} {authority : Bytes}
  (hauth : ((nodes K).final .init es).inForce K = some authority)

include hauth

/-- The Issue of a password that is there. -/
theorem exists_issue {q : Password} (hq : q ∈ ((nodes K).final .init es).db.passwords.rows) :
    ∃ pre x post grant, (nodes K).trace .init es = pre ++ x :: post ∧ Issue x q grant ∧
      x.before.inForce K = some authority ∧
      ∀ y ∈ x :: post, q ∈ y.after.db.passwords.rows ∧ y.after.inForce K = some authority := by
  have hmeets : (nodes K).Meets (fun _ _ => True) .init es := meets_iff.mpr fun _ _ => trivial
  obtain ⟨pre, x, post, htrace, ⟨⟨grant, hissue⟩, hbefore⟩, hafter, hpost⟩ :=
    hmeets.origin (keeps_backed hK) (backed_init K)
      (R := fun q p => q ∈ p.db.passwords.rows ∧ p.inForce K = some authority)
      (N := fun x q => (∃ grant, Issue x q grant) ∧ x.before.inForce K = some authority)
      (fun h => by cases h.1)
      (fun p e hp _ h => issue_step hK hp e h.2 h.1)
      ⟨hq, hauth⟩
  refine ⟨pre, x, post, grant, htrace, hissue, hbefore, fun y hy => ?_⟩
  rcases List.mem_cons.mp hy with rfl | hy
  · exact hafter
  · exact (hpost y hy).2

/-- The Login of a session that is there. -/
theorem exists_login {s : SessionRow} (hs : HasSession s ((nodes K).final .init es).db) :
    ∃ pre x post q, (nodes K).trace .init es = pre ++ x :: post ∧ LogIn x s q ∧
      q ∈ x.before.db.passwords.rows ∧ x.before.inForce K = some authority ∧
      ∀ y ∈ x :: post, HasSession s y.after.db ∧ y.after.inForce K = some authority := by
  have hmeets : (nodes K).Meets (fun _ _ => True) .init es := meets_iff.mpr fun _ _ => trivial
  obtain ⟨pre, x, post, htrace, ⟨⟨q, hq, hlogin⟩, hbefore⟩, hafter, hpost⟩ :=
    hmeets.origin (keeps_backed hK) (backed_init K)
      (R := fun s p => HasSession s p.db ∧ p.inForce K = some authority)
      (N := fun x s => (∃ q ∈ x.before.db.passwords.rows, LogIn x s q) ∧
        x.before.inForce K = some authority)
      (fun h => by
        obtain ⟨⟨t, ht, -⟩, -⟩ := h
        cases ht)
      (fun p e hp _ h => login_step hK hp e h.2 h.1)
      ⟨hs, hauth⟩
  refine ⟨pre, x, post, q, htrace, hlogin, hq, hbefore, fun y hy => ?_⟩
  rcases List.mem_cons.mp hy with rfl | hy
  · exact hafter
  · exact (hpost y hy).2

/-- A session that is there rests on a sign-in. -/
theorem custody_of_session {s : SessionRow} (hs : HasSession s ((nodes K).final .init es).db) :
    ∃ verified, authority = fingerprint verified ∧
      Custody K ((nodes K).trace .init es) s.id verified := by
  obtain ⟨pre, login, p₄, q, htrace, hlogin, hq, hforce₃, hlast⟩ := exists_login hK hauth hs
  obtain ⟨es₃, e₃, es₄, rfl, rfl, hlogin', -⟩ := exists_of_trace_eq_cons htrace
  -- the password that let it in was there before the Login
  have hbefore₃ : login.before = (nodes K).final .init es₃ := by rw [hlogin', entry]
  rw [hbefore₃] at hq hforce₃
  obtain ⟨pre₂, issue, p₃, grant, htrace₃, hissue, hforce₂, hissued⟩ := exists_issue hK hforce₃ hq
  obtain ⟨es₂, e₂, es₃', rfl, rfl, hissue', -⟩ := exists_of_trace_eq_cons htrace₃
  -- the grant it was issued for was there before the Issue
  have hbefore₂ : issue.before = (nodes K).final .init es₂ := by rw [hissue', entry]
  rw [hbefore₂] at hforce₂
  have hgrant : grant ∈ ((nodes K).final .init es₂).grants := by
    cases hissue with
    | intro core env token before event presented granted salt verifier =>
        rw [← hbefore₂, before]
        exact granted
  obtain ⟨verified, p₁, signIn, p₂, htrace₂, hauthorizes, hforce₁, hafter₁, hgranted⟩ :=
    grants_authorized hK es₂ hgrant
  obtain rfl : authority = fingerprint verified := Option.some.inj (hforce₂.symm.trans hforce₁)
  refine ⟨verified, rfl, .intro p₁ p₂ p₃ p₄ signIn issue login grant q s ?_ hauthorizes hissue hlogin
    rfl (fun y hy => ?_) (fun y hy => (hissued y hy).1) (fun y hy => (hlast y hy).1) fun y hy => ?_⟩
  · rw [htrace, htrace₃, htrace₂]
    simp
  · rcases List.mem_cons.mp hy with rfl | hy
    · exact hafter₁.1
    · exact (hgranted y hy).2.1
  · rcases List.mem_cons.mp hy with rfl | hy
    · exact hafter₁.2
    · rcases List.mem_append.mp hy with hy | hy
      · exact (hgranted y hy).2.2
      · rw [← List.cons_append] at hy
        rcases List.mem_append.mp hy with hy | hy
        · exact (hissued y hy).2
        · exact (hlast y hy).2

end

/-! ## Tokens -/

/-- What is known before a procedure is known after it. -/
theorem wp_known {α : Type} {x : Act α} {P : Prop} {core : Core} (h : P) :
    wp x (fun _ _ => P) (fun _ _ => True) core := by
  unfold wp
  split
  · exact h
  · trivial

/-- A token that is accepted names a session that was there before. -/
theorem wp_bearer {core : Core} {env : Env} {action : Action} {kind : TokenKind} {t : Bytes}
    (h : action.bearer = some (kind, t)) :
    wp (execute K env action) (fun _ _ => ∃ claims, tokenClaims K.credentials t = some claims ∧
      ∃ r ∈ core.db.sessions.rows, r.id = claims.sid) (fun _ _ => True) core := by
  have hread : ∀ {io : Faults} {claims : Claims} {a : Account} {kind : TokenKind} {now now' : Nat}
      {refresh : Bool},
      Store.readToken K.credentials io core.jwtKey core.db t kind now = .ok (a, claims) →
      Store.validateSession io core.db claims refresh now' = .ok () →
      ∃ claims, tokenClaims K.credentials t = some claims ∧
        ∃ r ∈ core.db.sessions.rows, r.id = claims.sid := by
    intro io claims a kind now now' refresh hread hsession
    obtain ⟨-, -, -, hclaims, -⟩ := verifyToken_eq_ok.mp (Store.readToken_eq_ok hread).2
    obtain ⟨r, hr, hid, -⟩ := Store.validateSession_eq_ok hsession
    exact ⟨claims, hclaims, r, hr, hid⟩
  have hsession : ∀ {token : Bytes} {f : SessionInfo → Act Json}, token = t →
      wp (readSession K env token >>= f) (fun _ _ => ∃ claims,
        tokenClaims K.credentials t = some claims ∧
          ∃ r ∈ core.db.sessions.rows, r.id = claims.sid) (fun _ _ => True)
        { core with
          pending := core.pending.filter fun entry =>
            (env.now .entry : Nat) < entry.2.challenge.expiresAt
          grants := core.grants.filter fun entry => (env.now .entry : Nat) < entry.2 } := by
    rintro token f rfl
    unfold readSession
    refine (wp_bind _ _).mpr (wp_query.mpr ⟨fun _ => trivial, fun faults _ =>
      ⟨fun info hinfo => wp_known ?_, fun _ _ => trivial⟩⟩)
    simp only [Store.getSession, bind_eq_ok, Prod.exists] at hinfo
    obtain ⟨a, claims, htoken, _, hvalid, -⟩ := hinfo
    exact hread htoken hvalid
  unfold execute expire
  simp only [wp_bind, wp_read, wp_check, wp_change]
  refine ⟨fun _ => ?_, fun _ => trivial⟩
  cases action with
  | session token => exact hsession (Prod.mk.inj (Option.some.inj h)).2
  | preferences token => exact hsession (Prod.mk.inj (Option.some.inj h)).2
  | refresh token =>
      obtain ⟨-, rfl⟩ := Prod.mk.inj (Option.some.inj h)
      refine (wp_bind _ _).mpr (wp_query.mpr ⟨fun _ => trivial, fun faults _ =>
        ⟨fun info hinfo => wp_known ?_, fun _ _ => trivial⟩⟩)
      simp only [Store.validateRefresh, bind_eq_ok, Prod.exists] at hinfo
      obtain ⟨a, claims, htoken, _, hvalid, -⟩ := hinfo
      exact hread htoken hvalid
  | logout token =>
      obtain ⟨-, rfl⟩ := Prod.mk.inj (Option.some.inj h)
      refine (wp_bind _ _).mpr (wp_update.mpr ⟨fun _ => trivial, fun faults _ =>
        ⟨fun db hdb => wp_known ?_, fun _ _ => trivial⟩⟩)
      obtain ⟨a, claims, hbegin, -⟩ := Store.deleteSession_eq_ok hdb
      obtain ⟨hclaims, r, hr, hid, -⟩ := row_of_beginRefresh hbegin
      exact ⟨claims, hclaims, r, hr, hid⟩
  | _ => cases h

/-- **The custody of a token.** In every run of a node, with whatever failing and wherever its
process ends: a token that is accepted names a session that rests on a sign-in. An earlier Poll
completed a sign-in of an identity and made a grant; a later Issue made a password for that grant; a
later Login was let in by that password and opened the session; and the authority of the identity
has been in force from the sign-in up to now. -/
theorem custody (hK : K.json.Lawful) {es : List Event} {pre post : List Exchange} {x : Exchange}
    (h : (nodes K).trace .init es = pre ++ x :: post) {kind : TokenKind} {t : Bytes}
    (hx : accepted x = some (kind, t)) :
    ∃ claims verified, tokenClaims K.credentials t = some claims ∧
      Custody K pre claims.sid verified ∧ x.before.inForce K = some (fingerprint verified) := by
  obtain ⟨action, env, value, hevent, hreply, hbearer⟩ := exists_of_accepted hx
  have hmem : x ∈ (nodes K).trace .init es := h ▸ List.mem_append_right _ List.mem_cons_self
  obtain ⟨core, core', hbefore, -, claims, hclaims, r, hr, hid⟩ :=
    of_answered hmem hevent hreply fun _ => wp_bearer hbearer
  obtain ⟨es₁, e, es₂, rfl, rfl, rfl, -⟩ := exists_of_trace_eq_cons h
  have hfinal : (nodes K).final .init es₁ = .running core := hbefore
  have hs : HasSession r ((nodes K).final .init es₁).db := by
    rw [hfinal]
    exact ⟨r, hr, rfl, rfl, rfl⟩
  -- where there is a session there is a password, and where there is one an authority is in force
  obtain ⟨w, hlinked, hlive⟩ := backed_final hK es₁
  have halive : ((nodes K).final .init es₁).inForce K ≠ none := by
    intro hnone
    rw [Process.inForce, ← db_of_linked hlinked] at hnone
    have hempty := sessions_of_passwords (hlive.authority hnone)
    rw [db_of_linked hlinked, hfinal] at hempty
    exact absurd hr (hempty ▸ List.not_mem_nil)
  obtain ⟨authority, hauth⟩ := Option.ne_none_iff_exists'.mp halive
  obtain ⟨verified, rfl, hcustody⟩ := custody_of_session hK hauth hs
  exact ⟨claims, verified, hclaims, hid ▸ hcustody, hauth⟩

/-- The refresh token of the sample rests on its sign-in. -/
theorem custody_sample : ∃ claims verified,
    tokenClaims sampleNode.credentials sampleBearer = some claims ∧
      Custody sampleNode ((nodes sampleNode).trace .init sampleLoggedIn) claims.sid verified := by
  obtain ⟨claims, verified, hclaims, hcustody, -⟩ := custody (K := sampleNode) Json.compact_lawful
    (trace_append_cons _ _ sampleLoggedIn sampleRefresh.event sampleReplay) sampleLoggedIn_runs.2
  exact ⟨claims, verified, hclaims, hcustody⟩

end PurpleSky.Node
