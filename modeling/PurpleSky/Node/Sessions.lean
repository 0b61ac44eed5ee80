import PurpleSky.Credentials.SingleUse
import PurpleSky.Credentials.Revocation
import PurpleSky.Node.Calls

/-!
# The sessions of a node

What the store keeps of tokens, read back at the service: over refused actions, outages, new
settings and restarts, a refresh token is good for one answer, and a session that is gone does not
come back.

* `accepted`: the token that an action was answered for.
* `Surrounds`: the part of the store's run that one event of a node makes.
* **`sessions_end`**: nothing accepts a token that was used up or whose session is gone, and what
  ends a session.
-/

namespace PurpleSky.Node

open Bytes Credentials Farcaster Procedure Machine

variable {K : Crates}

/-! ## Accepting a token -/

/-- An event of a node and what was answered. -/
abbrev Exchange := Machine.Entry Process Event Reply

/-- The token that an action presents, and what it is taken for. -/
def Action.bearer : Action → Option (TokenKind × Bytes)
  | .session token => some (.access, token)
  | .preferences token => some (.access, token)
  | .refresh token => some (.refresh, token)
  | .logout token => some (.refresh, token)
  | _ => none

/-- The token that an action was answered with a value for. -/
def accepted (x : Exchange) : Option (TokenKind × Bytes) :=
  match x.event, x.reply with
  | .action action _, .ok _ => action.bearer
  | _, _ => none

section

variable {x : Exchange} {kind : TokenKind} {t : Bytes} {ys : List Step}

theorem exists_of_accepted {p : TokenKind × Bytes} (h : accepted x = some p) :
    ∃ action env value, x.event = .action action env ∧ x.reply = .ok value ∧
      action.bearer = some p := by
  obtain ⟨before, event, reply, after⟩ := x
  unfold accepted at h
  split at h
  · rename_i action env value hevent hreply
    exact ⟨action, env, value, hevent, hreply, h⟩
  · cases h

theorem validated_of_finished {info : SessionInfo} (h : Finished ys (.info kind t info)) :
    ∃ y ∈ ys, validated kind y = some t := by
  obtain ⟨⟨before, event, reply, after⟩, hy, io, now, hevent, hreply⟩ := h
  obtain rfl : event = _ := hevent
  obtain rfl : reply = _ := hreply
  exact ⟨_, hy, if_pos rfl⟩

theorem refreshed_of_performed {now : Nat} {jti accessJti : Bytes} {s : Session}
    (h : Performed ys (.refreshSession t now jti accessJti) (.session s)) :
    ∃ y ∈ ys, refreshed y = some t := by
  obtain ⟨⟨before, event, reply, after⟩, hy, io, hevent, hreply⟩ := h
  obtain rfl : event = _ := hevent
  obtain rfl : reply = _ := hreply
  exact ⟨_, hy, rfl⟩

theorem deleted_of_performed {now : Nat} (h : Performed ys (.deleteSession t now) .done) :
    ∃ y ∈ ys, deleted y = some t := by
  obtain ⟨⟨before, event, reply, after⟩, hy, io, hevent, hreply⟩ := h
  obtain rfl : event = _ := hevent
  obtain rfl : reply = _ := hreply
  exact ⟨_, hy, rfl⟩

/-- A refresh token that is accepted is consumed, or its session deleted. -/
theorem used_of_accepted (hx : Shows K x ys) (h : accepted x = some (.refresh, t)) :
    ∃ y ∈ ys, refreshed y = some t ∨ deleted y = some t := by
  obtain ⟨action, env, value, hevent, hreply, hbearer⟩ := exists_of_accepted h
  obtain ⟨core, -, hrelays⟩ := hx.relays action env value hevent hreply
  cases action with
  | refresh token =>
      obtain ⟨s, -, -, hperformed⟩ := hrelays
      obtain ⟨-, rfl⟩ := Prod.mk.inj (Option.some.inj hbearer)
      obtain ⟨y, hy, hrefreshed⟩ := refreshed_of_performed hperformed
      exact ⟨y, hy, .inl hrefreshed⟩
  | logout token =>
      obtain ⟨-, rfl⟩ := Prod.mk.inj (Option.some.inj hbearer)
      obtain ⟨y, hy, hdeleted⟩ := deleted_of_performed hrelays.2
      exact ⟨y, hy, .inr hdeleted⟩
  | session token => cases hbearer
  | preferences token => cases hbearer
  | _ => cases hbearer

/-- A token that is accepted is accepted by the store. -/
theorem accepts_of_accepted (hx : Shows K x ys) (h : accepted x = some (kind, t)) :
    ∃ y ∈ ys, Accepts y t ∧ (kind = .refresh → AcceptsRefresh y t) := by
  cases kind with
  | refresh =>
      obtain ⟨y, hy, hused⟩ := used_of_accepted hx h
      have haccepts : AcceptsRefresh y t := hused.imp_right .inl
      exact ⟨y, hy, .inl haccepts, fun _ => haccepts⟩
  | access =>
      obtain ⟨action, env, value, hevent, hreply, hbearer⟩ := exists_of_accepted h
      obtain ⟨core, -, hrelays⟩ := hx.relays action env value hevent hreply
      have hread : ∃ info, Finished ys (.info .access t info) := by
        cases action with
        | session token =>
            obtain ⟨-, rfl⟩ := Prod.mk.inj (Option.some.inj hbearer)
            obtain ⟨info, -, hfinished⟩ := hrelays
            exact ⟨info, hfinished⟩
        | preferences token =>
            obtain ⟨-, rfl⟩ := Prod.mk.inj (Option.some.inj hbearer)
            exact hrelays.2
        | refresh token => cases hbearer
        | logout token => cases hbearer
        | _ => cases hbearer
      obtain ⟨info, hfinished⟩ := hread
      obtain ⟨y, hy, hvalidated⟩ := validated_of_finished hfinished
      exact ⟨y, hy, .inr hvalidated, TokenKind.noConfusion⟩

end

/-! ## One event of a run -/

/-- The run of the store around one event of a node: the steps before it, its own, and the steps
after it. -/
structure Surrounds (K : Crates) (es : List Event) (pre : List Exchange) (x : Exchange)
    (post : List Exchange) (ds₁ ds ds₂ : List Credentials.Event) : Prop where
  serves : Serves K es (ds₁ ++ ds ++ ds₂)
  before : ((stores K.credentials).final World.init ds₁).db = x.before.db
  after : ((stores K.credentials).final World.init (ds₁ ++ ds)).db = x.after.db
  earlier : Explains (Shows K) pre ((stores K.credentials).trace World.init ds₁)
  shows : Shows K x ((stores K.credentials).trace ((stores K.credentials).final World.init ds₁) ds)
  later : Explains (Shows K) post
    ((stores K.credentials).trace ((stores K.credentials).final World.init (ds₁ ++ ds)) ds₂)

theorem exists_surrounds {es : List Event} {pre post : List Exchange} {x : Exchange}
    (h : (nodes K).trace .init es = pre ++ x :: post) :
    ∃ ds₁ ds ds₂, Surrounds K es pre x post ds₁ ds ds₂ := by
  obtain ⟨es₁, e, es₂, rfl, rfl, rfl, rfl⟩ := exists_of_trace_eq_cons h
  obtain ⟨ds₁, hserves₁⟩ := exists_serves K es₁
  obtain ⟨ds, hserves, hshows⟩ := hserves₁.extend [e]
  obtain ⟨ds₂, hserves₂, hlater⟩ := hserves.extend es₂
  have hafter : (nodes K).final .init (es₁ ++ [e]) =
      ((nodes K).entry ((nodes K).final .init es₁) e).after := final_concat _ _ _
  refine ⟨ds₁, ds, ds₂, ?_, db_of_linked hserves₁.linked, ?_, hserves₁.explains, ?_, ?_⟩
  · rw [List.append_cons]
    exact hserves₂
  · rw [db_of_linked hserves.linked, hafter]
  · generalize (stores K.credentials).trace _ ds = ys at hshows ⊢
    cases hshows with
    | cons block rest =>
        cases rest
        rwa [List.append_nil]
  · rwa [hafter] at hlater

section

variable {es : List Event} {pre post : List Exchange} {x : Exchange}
  {ds₁ ds ds₂ : List Credentials.Event} (h : Surrounds K es pre x post ds₁ ds ds₂)

include h

theorem Surrounds.fresh (hes : (es.flatMap Event.draws).Nodup) :
    (stores K.credentials).Meets Credentials.Fresh World.init (ds₁ ++ ds ++ ds₂) :=
  h.serves.fresh hes

/-- After a step of the store that is of an event, come the steps of the later events. -/
theorem Surrounds.split {y : Step}
    (hy : y ∈ (stores K.credentials).trace ((stores K.credentials).final World.init ds₁) ds) :
    ∃ us vs, (stores K.credentials).trace World.init (ds₁ ++ ds ++ ds₂) = us ++ y :: vs ∧
      ∀ z ∈ post, ∃ block, Shows K z block ∧ block ⊆ vs := by
  obtain ⟨as, bs, hblock⟩ := List.append_of_mem hy
  refine ⟨(stores K.credentials).trace World.init ds₁ ++ as, bs ++
    (stores K.credentials).trace ((stores K.credentials).final World.init (ds₁ ++ ds)) ds₂, ?_, ?_⟩
  · rw [trace_append, trace_append, hblock]
    simp
  · intro z hz
    obtain ⟨block, hshows, hsub⟩ := h.later.exists_block hz
    exact ⟨block, hshows, fun y hy => List.mem_append_right _ (hsub hy)⟩

end

/-! ## The end of a session -/

section

variable (hK : K.json.Lawful) {es : List Event} (hes : (es.flatMap Event.draws).Nodup)
  {pre post : List Exchange} {x : Exchange} (h : (nodes K).trace .init es = pre ++ x :: post)

include hK hes h

/-- A refresh token is good for one answer. -/
theorem refreshes_once {t : Bytes} (hx : accepted x = some (.refresh, t)) :
    ∀ y ∈ post, accepted y ≠ some (.refresh, t) := by
  obtain ⟨ds₁, ds, ds₂, hsurrounds⟩ := exists_surrounds h
  have hfresh := hsurrounds.fresh hes
  obtain ⟨z, hz, hused⟩ := used_of_accepted hsurrounds.shows hx
  obtain ⟨us, vs, htrace, hlater⟩ := hsurrounds.split hz
  have husesUp : UsesUp K.credentials z t := by
    rcases hused with hrefreshed | hdeleted
    · exact .refreshed hrefreshed
    · obtain ⟨hstep, -, -⟩ := entry_of_trace (C := K.credentials) hK hfresh htrace
      rw [hstep] at hdeleted
      obtain ⟨_, _, _, _, claims, hbegin, -⟩ := of_deleted hdeleted
      have hclaims := (row_of_beginRefresh hbegin).1
      exact .deleted claims claims t (hstep ▸ hdeleted) hclaims hclaims rfl
  intro y hy haccepted
  obtain ⟨block, hshows, hsub⟩ := hlater y hy
  obtain ⟨y', hy', -, haccepts⟩ := accepts_of_accepted hshows haccepted
  exact not_acceptsRefresh_of_usesUp (C := K.credentials) hK hfresh htrace husesUp y' (hsub hy')
    (haccepts rfl)

/-- A session that is gone does not come back. -/
theorem gone_for_good {t : Bytes} {claims : Claims} (ht : tokenClaims K.credentials t = some claims)
    (hbefore : ∃ r ∈ x.before.db.sessions.rows, r.id = claims.sid)
    (hafter : ∀ r ∈ x.after.db.sessions.rows, r.id ≠ claims.sid) :
    ∀ y ∈ post, ∀ kind, accepted y ≠ some (kind, t) := by
  obtain ⟨ds₁, ds, ds₂, hsurrounds⟩ := exists_surrounds h
  have hfresh := hsurrounds.fresh hes
  obtain ⟨hfirst, hlast⟩ := meets_append.mp hfresh
  obtain ⟨hfirst', hmiddle⟩ := meets_append.mp hfirst
  -- the identifier of the session was drawn before the event, and is still drawn after it
  have hinv₁ := hfirst'.invariant (keeps_invariant (C := K.credentials) hK) (invariant_init _)
  have hinv := hfirst.invariant (keeps_invariant (C := K.credentials) hK) (invariant_init _)
  have hdrawn : claims.sid ∈ ((stores K.credentials).final World.init (ds₁ ++ ds)).drawn := by
    have hkeeps : (stores K.credentials).Keeps Credentials.Fresh (Invariant K.credentials)
        fun w => claims.sid ∈ w.drawn := by
      intro w e hw hfresh hsid
      obtain ⟨draws, new, heffect, -⟩ := effect_of_fresh hw hfresh
      exact heffect.drawn ▸ List.mem_append_left _ hsid
    rw [final_append]
    refine hmiddle.kept (keeps_invariant (C := K.credentials) hK) hkeeps hinv₁ ?_
    obtain ⟨r, hr, hid⟩ := hbefore
    rw [← hsurrounds.before] at hr
    exact hid ▸ (hinv₁.rowDrawn r hr).1
  have hended : Ended claims.sid ((stores K.credentials).final World.init (ds₁ ++ ds)) := by
    refine ⟨hdrawn, fun r hr => ?_⟩
    rw [hsurrounds.after] at hr
    exact hafter r hr
  intro y hy kind haccepted
  obtain ⟨block, hshows, hsub⟩ := hsurrounds.later.exists_block hy
  obtain ⟨y', hy', haccepts, -⟩ := accepts_of_accepted hshows haccepted
  obtain ⟨hstep, hw, -, hd⟩ := hlast.always (keeps_invariant (C := K.credentials) hK)
    (keeps_ended K.credentials claims.sid) hinv hended y' (hsub hy')
  rw [hstep] at haccepts
  refine not_accepts_of_ended hw hd (fun c hc => ?_) haccepts
  rw [Option.some.inj (hc.symm.trans ht)]

end

/-- A Logout that is answered ends the session of its token, and no other. -/
theorem wp_logout (env : Env) (token : Bytes) (core : Core) :
    wp (execute K env (.logout token))
      (fun _ core' => ∃ claims, tokenClaims K.credentials token = some claims ∧
        core'.db = core.db.deleteSessions fun s => s.id = claims.sid)
      (fun _ _ => True) core := by
  unfold execute expire Action.run logout
  simp only [wp_bind, wp_read, wp_check, wp_change, wp_update, wp_pure]
  refine ⟨fun _ => ⟨fun _ => trivial, fun faults _ => ⟨fun db hdb => ?_, fun _ _ => trivial⟩⟩,
    fun _ => trivial⟩
  obtain ⟨a, claims, hbegin, rfl⟩ := Store.deleteSession_eq_ok hdb
  exact ⟨claims, (row_of_beginRefresh hbegin).1, rfl⟩

/-- A Revoke that is answered ends the sessions of its password, and no others. -/
theorem wp_revoke (env : Env) (token name : Bytes) (core : Core) :
    wp (execute K env (.revoke token name))
      (fun _ core' => core'.db = core.db.deletePasswords fun p => p.name = name)
      (fun _ _ => True) core := by
  unfold execute expire Action.run revoke grant
  simp only [wp_bind, wp_read, wp_check, wp_change, wp_update, wp_pure]
  refine ⟨fun _ => ⟨fun _ => ⟨fun _ => trivial, fun faults _ => ⟨fun db hdb => ?_, fun _ _ =>
    trivial⟩⟩, fun _ => trivial⟩, fun _ => trivial⟩
  exact Store.revokePassword_eq_ok hdb

/-- What an action answers and leaves. -/
theorem of_answered {es : List Event} {x : Exchange} {action : Action} {env : Env} {value : Json}
    {Q : Core → Json → Core → Prop} (hx : x ∈ (nodes K).trace .init es)
    (hevent : x.event = .action action env) (hreply : x.reply = .ok value)
    (hQ : ∀ core, wp (execute K env action) (Q core) (fun _ _ => True) core) :
    ∃ core core', x.before = .running core ∧ x.after = .running core' ∧ Q core value core' := by
  have hstep := eq_entry_of_mem_trace hx
  have hafter : (x.before.step K x.event) = (x.after, x.reply) := by
    conv_rhs => rw [hstep]
    rfl
  rw [hevent, hreply] at hafter
  cases hbefore : x.before with
  | stopped db history =>
      rw [hbefore] at hafter
      cases (Prod.mk.inj hafter).2
  | running core =>
      rw [hbefore] at hafter
      have hexecute : executeNode K core action env = (x.after, .ok value) := hafter
      have hwp := hQ core
      unfold wp at hwp
      unfold executeNode at hexecute
      cases hresult : execute K env action core with
      | mk result core' =>
          rw [hresult] at hexecute hwp
          cases result with
          | ok value' =>
              obtain ⟨hrun, hvalue⟩ := Prod.mk.inj hexecute
              obtain rfl := Reply.ok.inj hvalue
              exact ⟨core, core', rfl, hrun.symm, hwp⟩
          | error halt =>
              cases halt with
              | failed failure => cases (Prod.mk.inj hexecute).2
              | timedOut => cases (Prod.mk.inj hexecute).2
              | stopped => cases (Prod.mk.inj hexecute).2

/-- **Sessions end for good.** In every run of a node whose identifiers are distinct, with refused
actions, outages, new settings and restarts in any order:

* a refresh token is good for one answer, of a Refresh or a Logout;
* once a session is gone, by whatever event, no action accepts a token that names it;
* a Logout that is answered removes the session of its token, and no other; a Revoke that is
  answered removes the sessions of its password, and no others. -/
theorem sessions_end (hK : K.json.Lawful) {es : List Event} (hes : (es.flatMap Event.draws).Nodup)
    {pre post : List Exchange} {x : Exchange} (h : (nodes K).trace .init es = pre ++ x :: post) :
    (∀ t, accepted x = some (.refresh, t) → ∀ y ∈ post, accepted y ≠ some (.refresh, t)) ∧
    (∀ t claims, tokenClaims K.credentials t = some claims →
      (∃ r ∈ x.before.db.sessions.rows, r.id = claims.sid) →
      (∀ r ∈ x.after.db.sessions.rows, r.id ≠ claims.sid) →
      ∀ y ∈ post, ∀ kind, accepted y ≠ some (kind, t)) ∧
    (∀ t env value, x.event = .action (.logout t) env → x.reply = .ok value →
      ∃ claims, tokenClaims K.credentials t = some claims ∧
        x.after.db.sessions.rows = x.before.db.sessions.rows.filter fun r => r.id ≠ claims.sid) ∧
    ∀ t name env value, x.event = .action (.revoke t name) env → x.reply = .ok value →
      x.after.db.sessions.rows =
        x.before.db.sessions.rows.filter fun r => r.passwordName ≠ name := by
  have hx : x ∈ (nodes K).trace .init es := h ▸ List.mem_append_right _ List.mem_cons_self
  refine ⟨fun t => refreshes_once hK hes h, fun t claims ht => gone_for_good hK hes h ht,
    fun t env value hevent hreply => ?_, fun t name env value hevent hreply => ?_⟩
  · obtain ⟨core, core', hbefore, hafter, claims, hclaims, hdb⟩ :=
      of_answered hx hevent hreply (wp_logout env t)
    refine ⟨claims, hclaims, ?_⟩
    rw [hbefore, hafter]
    show core'.db.sessions.rows = _
    rw [hdb]
    show (Table.delete _ _).rows = _
    rw [Table.rows_delete]
    simp [Process.db]
  · obtain ⟨core, core', hbefore, hafter, hdb⟩ :=
      of_answered hx hevent hreply (wp_revoke env t name)
    rw [hbefore, hafter]
    show core'.db.sessions.rows = _
    rw [hdb, Db.sessions_deletePasswords_name]
    rfl

/-- A minute after a sign-in the provider is away. -/
def sampleQuiet (b : UInt8) : Env := sampleEnv 1700000010 b fun _ _ => .failed

/-- A password is issued after a sign-in, and someone logs in with it. -/
def sampleLoggedIn : List Event :=
  sampleSignIn ++ [
    .action (.issue (randomToken (sampleRandom 2 .account)) (str "phone")) (sampleQuiet 2),
    .action (.login (str "did:web:alice.com") (samplePassword 6)) (sampleQuiet 40)]

/-- The refresh token of the login. -/
def sampleBearer : Bytes :=
  signToken sampleNode.credentials sampleKey ⟨str "did:web:alice.com", str "did:web:alice.com",
    TokenKind.refresh.scope, 1700000010, 1700604810, sampleId 47, sampleId 46⟩ .refresh

/-- It is used. -/
def sampleRefresh : Exchange :=
  (nodes sampleNode).entry ((nodes sampleNode).final .init sampleLoggedIn)
    (.action (.refresh sampleBearer) (sampleQuiet 60))

/-- And used again after a restart. -/
def sampleReplay : List Event :=
  [.stop, sampleOpen, .action (.logout sampleBearer) (sampleQuiet 80)]

theorem sampleLoggedIn_runs :
    ((sampleLoggedIn ++ sampleRefresh.event :: sampleReplay).flatMap Event.draws).Nodup ∧
      accepted sampleRefresh = some (.refresh, sampleBearer) := by
  decide +kernel

/-- The refresh token of a login is used up by a Refresh. -/
theorem sessions_end_sample : accepted sampleRefresh = some (.refresh, sampleBearer) ∧
    ∀ y ∈ (nodes sampleNode).trace sampleRefresh.after sampleReplay,
      accepted y ≠ some (.refresh, sampleBearer) := by
  obtain ⟨hdraws, hrefresh⟩ := sampleLoggedIn_runs
  exact ⟨hrefresh, (sessions_end (K := sampleNode) Json.compact_lawful hdraws
    (trace_append_cons _ _ sampleLoggedIn sampleRefresh.event sampleReplay)).1 _ hrefresh⟩

end PurpleSky.Node
