import PurpleSky.Credentials.Run

/-!
# When a bearer is accepted

The steps at which `get_session`, `validate_refresh`, `refresh_session` and `delete_session` accept
a token, and two states a token does not come back from: its refresh identifier is no longer in the
session table (`Spent`), or its session is no longer there (`Ended`).

* **`row_of_accepts`**: an accepted token names a session that is there; an accepted refresh token
  also its identifier and its expiry.
* **`keeps_spent`**, **`keeps_ended`**: both states are kept.
-/

namespace PurpleSky.Credentials

open Bytes Store

/-- A step of a run. -/
abbrev Step := Machine.Entry World Event Reply

/-- The token that `refresh_session` accepts in a step. -/
def refreshed : Step → Option Bytes
  | ⟨_, .call _ _ (.refreshSession t _ _ _), .session _, _⟩ => some t
  | _ => none

/-- The token that `delete_session` accepts in a step. -/
def deleted : Step → Option Bytes
  | ⟨_, .call _ _ (.deleteSession t _), .done, _⟩ => some t
  | _ => none

/-- The password that `issue_password` issues in a step. -/
def issued : Step → Option IssuedPassword
  | ⟨_, .call _ _ (.issuePassword _ _ _ _), .issued p, _⟩ => some p
  | _ => none

/-- The password that `revoke_password` revokes in a step. -/
def revoked : Step → Option Bytes
  | ⟨_, .call _ _ (.revokePassword name), .done, _⟩ => some name
  | _ => none

/-- `invalidate_authority` succeeds in a step. -/
def invalidated : Step → Bool
  | ⟨_, .call _ _ .invalidateAuthority, .done, _⟩ => true
  | _ => false

/-- The token that `get_session` or `validate_refresh` accepts in a step. -/
def validated (kind : TokenKind) : Step → Option Bytes
  | ⟨_, .finish _ _ _, .info k t _, _⟩ => if k = kind then some t else none
  | _ => none

/-- A step accepts a refresh token. -/
def AcceptsRefresh (x : Step) (t : Bytes) : Prop :=
  refreshed x = some t ∨ deleted x = some t ∨ validated .refresh x = some t

/-- A step accepts a token. -/
def Accepts (x : Step) (t : Bytes) : Prop := AcceptsRefresh x t ∨ validated .access x = some t

instance (x : Step) (t : Bytes) : Decidable (AcceptsRefresh x t) :=
  inferInstanceAs (Decidable (_ ∨ _))

instance (x : Step) (t : Bytes) : Decidable (Accepts x t) := inferInstanceAs (Decidable (_ ∨ _))

variable {C : Crates} {io : Faults} {key : Bytes} {db : Db} {w w' : World} {e : Event}
  {t : Bytes} {claims : Claims}

/-! ## What acceptance takes -/

/-- The row of a token that `refresh_session` or `delete_session` goes on with. -/
theorem row_of_beginRefresh {now : Nat} {a : Account}
    (h : beginRefresh C io key db t now = .ok (a, claims)) :
    tokenClaims C t = some claims ∧ ∃ r ∈ db.sessions.rows, r.id = claims.sid ∧
      r.refreshJti = claims.jti ∧ r.refreshExp = claims.exp := by
  obtain ⟨-, hver, hval⟩ := beginRefresh_eq_ok h
  obtain ⟨r, hr, hid, -, hmatch⟩ := validateSession_eq_ok hval
  obtain ⟨hjti, hexp⟩ := hmatch rfl
  exact ⟨(verifyToken_eq_ok.mp hver).2.2.2.1, r, hr, hid, hjti, hexp⟩

/-- A call that is answered with more than a failure was run. -/
theorem run_of_step {h : Nat} {c : Call} {reply : Reply}
    (hstep : w.step C (.call h io c) = (w', reply)) (hidle : reply ≠ .idle)
    (hfailed : ∀ e, reply ≠ .failed e) :
    ∃ key o, w.handles h = some ⟨key, none⟩ ∧ c.run C io key w.db = .ok o ∧ o.reply = reply ∧
      w'.db = o.db ∧ w'.drawn = w.drawn ++ c.draws ∧
      w'.minted = w.minted ++ c.mints C io key w.db := by
  simp only [World.step] at hstep
  split at hstep
  · rename_i key hkey
    split at hstep
    · obtain ⟨-, rfl⟩ := Prod.mk.inj hstep
      exact absurd rfl (hfailed _)
    · rename_i o hrun
      obtain ⟨rfl, rfl⟩ := Prod.mk.inj hstep
      exact ⟨key, o, hkey, hrun, rfl, rfl, rfl, rfl⟩
  · obtain ⟨-, rfl⟩ := Prod.mk.inj hstep
    exact absurd rfl hidle

/-- A refresh token that was consumed. -/
theorem of_refreshed (h : refreshed ((stores C).entry w e) = some t) :
    ∃ i io now jti acc key a claims, e = .call i io (.refreshSession t now jti acc) ∧
      beginRefresh C io key w.db t now = .ok (a, claims) ∧
      (w.step C e).1.db = (w.db.rotate jti claims.sid claims.jti).2 ∧
      (w.step C e).1.drawn = w.drawn ++ [jti, acc] := by
  generalize hstep : w.step C e = p
  obtain ⟨w', reply⟩ := p
  unfold refreshed at h
  split at h
  · rename_i heq
    simp only [Machine.entry, stores, hstep, Machine.Entry.mk.injEq] at heq
    obtain ⟨rfl, rfl, rfl, rfl⟩ := heq
    obtain rfl := Option.some.inj h
    obtain ⟨key, o, -, hrun, hreply, hdb, hdrawn, -⟩ := run_of_step hstep (by simp) (by simp)
    simp only [Call.run, bind_eq_ok, pure_eq_ok, Prod.exists] at hrun
    obtain ⟨s, db', hrefresh, rfl⟩ := hrun
    obtain ⟨a, claims, hbegin, -, hcommit⟩ := refreshSession_eq_ok hrefresh
    exact ⟨_, _, _, _, _, key, a, claims, rfl, hbegin, hdb.trans (commitRefresh_eq_ok hcommit).2,
      hdrawn⟩
  · cases h

/-- A refresh token whose session was deleted. -/
theorem of_deleted (h : deleted ((stores C).entry w e) = some t) :
    ∃ io now key a claims, beginRefresh C io key w.db t now = .ok (a, claims) ∧
      (w.step C e).1.db = w.db.deleteSessions (fun s => s.id = claims.sid) ∧
      (w.step C e).1.drawn = w.drawn := by
  generalize hstep : w.step C e = p
  obtain ⟨w', reply⟩ := p
  unfold deleted at h
  split at h
  · rename_i heq
    simp only [Machine.entry, stores, hstep, Machine.Entry.mk.injEq] at heq
    obtain ⟨rfl, rfl, rfl, rfl⟩ := heq
    obtain rfl := Option.some.inj h
    obtain ⟨key, o, -, hrun, -, hdb, hdrawn, -⟩ := run_of_step hstep (by simp) (by simp)
    simp only [Call.run, bind_eq_ok, pure_eq_ok] at hrun
    obtain ⟨db', hdelete, rfl⟩ := hrun
    obtain ⟨a, claims, hbegin, rfl⟩ := deleteSession_eq_ok hdelete
    refine ⟨_, _, key, a, claims, hbegin, hdb, ?_⟩
    rw [hdrawn]
    exact List.append_nil _
  · cases h

/-- A password that was issued, and its row. -/
theorem of_issued {p : IssuedPassword} (h : issued ((stores C).entry w e) = some p) :
    ∃ i io name now random salt, e = .call i io (.issuePassword name now random salt) ∧
      p = ⟨⟨name, now⟩, str "psky-" ++ segment random⟩ ∧
      ⟨name, salt, passwordHash salt p.password, now⟩ ∈ (w.step C e).1.db.passwords.rows := by
  generalize hstep : w.step C e = q
  obtain ⟨w', reply⟩ := q
  unfold issued at h
  split at h
  · rename_i heq
    simp only [Machine.entry, stores, hstep, Machine.Entry.mk.injEq] at heq
    obtain ⟨rfl, rfl, rfl, rfl⟩ := heq
    obtain rfl := Option.some.inj h
    obtain ⟨key, o, -, hrun, hreply, hdb, -⟩ := run_of_step hstep (by simp) (by simp)
    simp only [Call.run, bind_eq_ok, pure_eq_ok, Prod.exists] at hrun
    obtain ⟨q, db', hissue, rfl⟩ := hrun
    obtain rfl := Reply.issued.inj hreply
    obtain ⟨-, rfl⟩ := issued_of_issuePassword hissue
    refine ⟨_, _, _, _, _, _, rfl, rfl, ?_⟩
    rw [hdb, (Db.insertPassword_eq_some (issuePassword_eq_ok hissue).2).2.1]
    exact List.mem_append_right _ (List.mem_singleton.mpr rfl)
  · cases h

/-- A password that was revoked. -/
theorem of_revoked {name : Bytes} (h : revoked ((stores C).entry w e) = some name) :
    (w.step C e).1.db = w.db.deletePasswords (fun p => p.name = name) ∧
      (w.step C e).1.drawn = w.drawn := by
  generalize hstep : w.step C e = p
  obtain ⟨w', reply⟩ := p
  unfold revoked at h
  split at h
  · rename_i heq
    simp only [Machine.entry, stores, hstep, Machine.Entry.mk.injEq] at heq
    obtain ⟨rfl, rfl, rfl, rfl⟩ := heq
    obtain rfl := Option.some.inj h
    obtain ⟨key, o, -, hrun, -, hdb, hdrawn, -⟩ := run_of_step hstep (by simp) (by simp)
    simp only [Call.run, bind_eq_ok, pure_eq_ok] at hrun
    obtain ⟨db', hrevoke, rfl⟩ := hrun
    exact ⟨hdb.trans (revokePassword_eq_ok hrevoke), hdrawn.trans (List.append_nil _)⟩
  · cases h

/-- An authority that was invalidated. -/
theorem of_invalidated (h : invalidated ((stores C).entry w e) = true) :
    (w.step C e).1.db.passwords.rows = [] ∧ (w.step C e).1.db.sessions.rows = [] ∧
      (w.step C e).1.drawn = w.drawn := by
  generalize hstep : w.step C e = p
  obtain ⟨w', reply⟩ := p
  unfold invalidated at h
  split at h
  · rename_i heq
    simp only [Machine.entry, stores, hstep, Machine.Entry.mk.injEq] at heq
    obtain ⟨rfl, rfl, rfl, rfl⟩ := heq
    obtain ⟨key, o, -, hrun, -, hdb, hdrawn, -⟩ := run_of_step hstep (by simp) (by simp)
    simp only [Call.run, bind_eq_ok, pure_eq_ok] at hrun
    obtain ⟨db', hinv, rfl⟩ := hrun
    obtain ⟨hpasswords, hsessions, -⟩ := invalidateAuthority_eq_ok hinv
    rw [hdb]
    exact ⟨hpasswords, hsessions, hdrawn.trans (List.append_nil _)⟩
  · cases h

/-- A token that `get_session` or `validate_refresh` answered for. -/
theorem of_validated (hw : Invariant C w) {kind : TokenKind}
    (h : validated kind ((stores C).entry w e) = some t) :
    ∃ io claims now, tokenClaims C t = some claims ∧
      validateSession io w.db claims (kind = .refresh) now = .ok () := by
  generalize hstep : w.step C e = p
  obtain ⟨w', reply⟩ := p
  unfold validated at h
  split at h
  · rename_i i io now k t' info _ heq
    simp only [Machine.entry, stores, hstep, Machine.Entry.mk.injEq] at heq
    obtain ⟨rfl, rfl, rfl, rfl⟩ := heq
    split at h
    · rename_i hk
      subst hk
      obtain rfl := Option.some.inj h
      simp only [World.step] at hstep
      split at hstep
      · rename_i key p hhandle
        split at hstep
        · cases (Prod.mk.inj hstep).2
        · rename_i hfinish
          obtain ⟨-, rfl⟩ := Prod.mk.inj hstep
          obtain ⟨a, c, now₀, now', rfl, hval⟩ := (finish_eq_ok hfinish).2.2.2.2 _ _ _ rfl
          exact ⟨io, c, now', hw.pending i key _ _ a c now₀ hhandle, hval⟩
      · cases (Prod.mk.inj hstep).2
    · cases h
  · cases h

/-- An accepted refresh token has its session's identifier and expiry. -/
theorem row_of_acceptsRefresh (hw : Invariant C w)
    (h : AcceptsRefresh ((stores C).entry w e) t) :
    ∃ claims, tokenClaims C t = some claims ∧ ∃ r ∈ w.db.sessions.rows, r.id = claims.sid ∧
      r.refreshJti = claims.jti ∧ r.refreshExp = claims.exp := by
  rcases h with h | h | h
  · obtain ⟨_, _, _, _, _, _, _, claims, -, hbegin, -⟩ := of_refreshed h
    exact ⟨claims, row_of_beginRefresh hbegin⟩
  · obtain ⟨_, _, _, _, claims, hbegin, -⟩ := of_deleted h
    exact ⟨claims, row_of_beginRefresh hbegin⟩
  · obtain ⟨io, claims, now, hclaims, hval⟩ := of_validated hw h
    obtain ⟨r, hr, hid, -, hmatch⟩ := validateSession_eq_ok hval
    obtain ⟨hjti, hexp⟩ := hmatch rfl
    exact ⟨claims, hclaims, r, hr, hid, hjti, hexp⟩

/-- An accepted token has a session. -/
theorem row_of_accepts (hw : Invariant C w) (h : Accepts ((stores C).entry w e) t) :
    ∃ claims, tokenClaims C t = some claims ∧ ∃ r ∈ w.db.sessions.rows, r.id = claims.sid := by
  rcases h with h | h
  · obtain ⟨claims, hclaims, r, hr, hid, -⟩ := row_of_acceptsRefresh hw h
    exact ⟨claims, hclaims, r, hr, hid⟩
  · obtain ⟨io, claims, now, hclaims, hval⟩ := of_validated hw h
    obtain ⟨r, hr, hid, -⟩ := validateSession_eq_ok hval
    exact ⟨claims, hclaims, r, hr, hid⟩

/-! ## States without return -/

/-- The identifier of a refresh token was drawn, and is not in the row of its session. -/
def Spent (C : Crates) (t : Bytes) (w : World) : Prop :=
  ∃ claims, tokenClaims C t = some claims ∧ claims.jti ∈ w.drawn ∧
    ∀ r ∈ w.db.sessions.rows, r.id = claims.sid → r.refreshJti ≠ claims.jti

/-- The identifier of a session was drawn, and the session is not there. -/
def Ended (sid : Bytes) (w : World) : Prop :=
  sid ∈ w.drawn ∧ ∀ r ∈ w.db.sessions.rows, r.id ≠ sid

theorem not_acceptsRefresh_of_spent (hw : Invariant C w) (h : Spent C t w) :
    ¬AcceptsRefresh ((stores C).entry w e) t := by
  intro hacc
  obtain ⟨c, hc, -, hrows⟩ := h
  obtain ⟨c', hc', r, hr, hid, hjti, -⟩ := row_of_acceptsRefresh hw hacc
  obtain rfl := Option.some.inj (hc.symm.trans hc')
  exact hrows r hr hid hjti

theorem not_accepts_of_ended (hw : Invariant C w) {sid : Bytes} (h : Ended sid w)
    (ht : ∀ c, tokenClaims C t = some c → c.sid = sid) :
    ¬Accepts ((stores C).entry w e) t := by
  intro hacc
  obtain ⟨c, hc, r, hr, hid⟩ := row_of_accepts hw hacc
  exact h.2 r hr (hid.trans (ht c hc))

/-- What a step that draws fresh identifiers does. -/
theorem effect_of_fresh (hw : Invariant C w) (hfresh : Fresh w e) :
    ∃ draws new, Effect C w (w.step C e).1 (w.step C e).2 draws new ∧
      (w.drawn ++ draws).Nodup := by
  generalize hstep : w.step C e = p
  obtain ⟨w', reply⟩ := p
  obtain ⟨draws, new, heff, hdraws⟩ := step_effect hstep
  refine ⟨draws, new, heff, ?_⟩
  rcases hdraws with rfl | rfl
  · rw [List.append_nil]
    exact hw.nodup
  · exact hfresh

/-- A spent token stays spent: a row that is renewed gets an identifier that was never drawn. -/
theorem keeps_spent (C : Crates) (t : Bytes) :
    (stores C).Keeps Fresh (Invariant C) (Spent C t) := by
  intro w e hw hfresh ⟨c, hc, hjti, hrows⟩
  obtain ⟨draws, new, heff, hnd⟩ := effect_of_fresh hw hfresh
  refine ⟨c, hc, heff.drawn ▸ List.mem_append_left _ hjti, ?_⟩
  intro r hr hid
  rcases heff.row_cases hr with hr | ⟨m, hm, hrenew⟩
  · exact hrows r hr hid
  · intro h
    rw [hrenew.jti] at h
    exact not_drawn hnd (heff.origin m hm).jti (h ▸ hjti)

/-- An ended session stays ended: a row that is made has an identifier that was never drawn. -/
theorem keeps_ended (C : Crates) (sid : Bytes) :
    (stores C).Keeps Fresh (Invariant C) (Ended sid) := by
  intro w e hw hfresh ⟨hsid, hrows⟩
  obtain ⟨draws, new, heff, hnd⟩ := effect_of_fresh hw hfresh
  refine ⟨heff.drawn ▸ List.mem_append_left _ hsid, ?_⟩
  intro r hr
  rcases heff.row_cases hr with hr | ⟨m, hm, hrenew⟩
  · exact hrows r hr
  · rintro rfl
    rcases (heff.origin m hm).sid with h | ⟨r', hr', hid', -⟩
    · exact not_drawn hnd h (hrenew.id ▸ hsid)
    · exact hrows r' hr' (hid'.trans hrenew.id.symm)

/-- A session ends when it is deleted. -/
theorem ended_of_deleted (hw : Invariant C w) (h : deleted ((stores C).entry w e) = some t)
    {claims : Claims} (hclaims : tokenClaims C t = some claims) :
    Ended claims.sid (w.step C e).1 := by
  obtain ⟨io, now, key, a, claims', hbegin, hdb, hdrawn⟩ := of_deleted h
  obtain ⟨hclaims', r, hr, hid, -⟩ := row_of_beginRefresh hbegin
  obtain rfl := Option.some.inj (hclaims.symm.trans hclaims')
  refine ⟨hdrawn ▸ hid ▸ (hw.rowDrawn r hr).1, fun s hs => ?_⟩
  rw [hdb] at hs
  simpa using (Table.mem_delete.mp hs).2

section

variable (hC : C.json.Lawful) {es : List Event} (hes : (stores C).Meets Fresh World.init es)
  {pre post : List Step} {x : Step}

include hC hes

/-- An entry of a run is a step from a state with the invariant. -/
theorem entry_of_trace (h : (stores C).trace World.init es = pre ++ x :: post) :
    x = (stores C).entry x.before x.event ∧ Invariant C x.before ∧ Fresh x.before x.event := by
  have hmem : x ∈ (stores C).trace World.init es := h ▸ List.mem_append_right _ List.mem_cons_self
  exact hes.entries (keeps_invariant hC) (invariant_init C) x hmem

/-- Nothing accepts a token of a session after the session ended. -/
theorem never_accepts (h : (stores C).trace World.init es = pre ++ x :: post) {sid : Bytes}
    (hended : Ended sid x.after) (ht : ∀ c, tokenClaims C t = some c → c.sid = sid) :
    ∀ y ∈ post, ¬Accepts y t := by
  intro y hy hacc
  obtain ⟨hy, hwy, -, hd⟩ :=
    hes.later (keeps_invariant hC) (keeps_ended C sid) (invariant_init C) h hended y hy
  rw [hy] at hacc
  exact not_accepts_of_ended hwy hd ht hacc

end

end PurpleSky.Credentials
