import PurpleSky.Credentials.Bearer

/-!
# Revocation is permanent

* **`revocation_permanent`**: after a password is revoked, the authority is invalidated or a session
  is deleted, no step of any continuation accepts a token that was signed before for that password,
  for any password, or for that session; other sessions are left as they were.

A continuation may issue the password again, bind the account again, close the stores and open
others. Identifiers are fresh (`Fresh`).
-/

namespace PurpleSky.Credentials

open Bytes Store

section

variable {C : Crates} (hC : C.json.Lawful) {es : List Event}
  (hes : (stores C).Meets Fresh World.init es) {pre post : List Step} {x : Step}
  (h : (stores C).trace World.init es = pre ++ x :: post)

include hC hes h

/-- A token that was signed is not accepted after its session is gone. -/
theorem never_accepts_of_minted {m : Mint} (hm : m ∈ x.before.minted)
    (hdrawn : x.after.drawn = x.before.drawn)
    (hrows : ∀ r ∈ x.after.db.sessions.rows, r.id ≠ m.claims.sid) :
    ∀ y ∈ post, ¬Accepts y m.token := by
  obtain ⟨-, hw, -⟩ := entry_of_trace hC hes h
  have hsid : m.claims.sid ∈ x.after.drawn := hdrawn ▸ (hw.mintDrawn m hm).1
  refine never_accepts hC hes h ⟨hsid, hrows⟩ fun c hc => ?_
  rw [Option.some.inj (hc.symm.trans (hw.claims m hm).1)]

/-- After a password is revoked no token of its sessions is accepted, and only its sessions are
gone. -/
theorem revokePassword_permanent {name : Bytes} (hx : revoked x = some name) :
    (∀ m ∈ x.before.minted, m.password = name → ∀ y ∈ post, ¬Accepts y m.token) ∧
      x.after.db.sessions.rows =
        x.before.db.sessions.rows.filter fun r => r.passwordName ≠ name := by
  obtain ⟨hstep, hw, -⟩ := entry_of_trace hC hes h
  have hafter : x.after = (x.before.step C x.event).1 := congrArg Machine.Entry.after hstep
  rw [hstep] at hx
  obtain ⟨hdb, hdrawn⟩ := of_revoked hx
  have hrows : x.after.db.sessions.rows =
      x.before.db.sessions.rows.filter fun r => r.passwordName ≠ name := by
    rw [hafter, hdb, Db.sessions_deletePasswords_name]
  refine ⟨fun m hm hname => ?_, hrows⟩
  apply never_accepts_of_minted hC hes h hm
  · rw [hafter]
    exact hdrawn
  · intro r hr hid
    rw [hrows, List.mem_filter] at hr
    -- a row of the token's session refers to the token's password
    have hpassword := hw.password m hm r hr.1 hid
    exact of_decide_eq_true hr.2 (hpassword.trans hname)

/-- After an authority is invalidated no token made before is accepted, and no session is left. -/
theorem invalidateAuthority_permanent (hx : invalidated x = true) :
    (∀ m ∈ x.before.minted, ∀ y ∈ post, ¬Accepts y m.token) ∧ x.after.db.sessions.rows = [] := by
  obtain ⟨hstep, -, -⟩ := entry_of_trace hC hes h
  have hafter : x.after = (x.before.step C x.event).1 := congrArg Machine.Entry.after hstep
  rw [hstep] at hx
  obtain ⟨-, hrows, hdrawn⟩ := of_invalidated hx
  have hnone : x.after.db.sessions.rows = [] := by
    rw [hafter]
    exact hrows
  refine ⟨fun m hm => ?_, hnone⟩
  apply never_accepts_of_minted hC hes h hm
  · rw [hafter]
    exact hdrawn
  · intro r hr
    rw [hnone] at hr
    cases hr

/-- After a session is deleted none of its tokens is accepted, and only it is gone. -/
theorem deleteSession_permanent {t : Bytes} (hx : deleted x = some t) :
    ∃ claims, tokenClaims C t = some claims ∧
      (∀ m ∈ x.before.minted, m.claims.sid = claims.sid → ∀ y ∈ post, ¬Accepts y m.token) ∧
      x.after.db.sessions.rows = x.before.db.sessions.rows.filter fun r => r.id ≠ claims.sid := by
  obtain ⟨hstep, -, -⟩ := entry_of_trace hC hes h
  have hafter : x.after = (x.before.step C x.event).1 := congrArg Machine.Entry.after hstep
  rw [hstep] at hx
  obtain ⟨io, now, key, a, claims, hbegin, hdb, hdrawn⟩ := of_deleted hx
  have hrows : x.after.db.sessions.rows =
      x.before.db.sessions.rows.filter fun r => r.id ≠ claims.sid := by
    rw [hafter, hdb]
    show (Table.delete _ _).rows = _
    simp
  refine ⟨claims, (row_of_beginRefresh hbegin).1, fun m hm hsid => ?_, hrows⟩
  apply never_accepts_of_minted hC hes h hm
  · rw [hafter]
    exact hdrawn
  · intro r hr hid
    rw [hrows, List.mem_filter] at hr
    exact of_decide_eq_true hr.2 (hid.trans hsid)

end

/-- Revocation is permanent, and only what is revoked is lost. -/
theorem revocation_permanent {C : Crates} (hC : C.json.Lawful) (es : List Event)
    (hes : (stores C).Meets Fresh World.init es) (pre : List Step) (x : Step) (post : List Step)
    (h : (stores C).trace World.init es = pre ++ x :: post) :
    (∀ name, revoked x = some name →
      (∀ m ∈ x.before.minted, m.password = name → ∀ y ∈ post, ¬Accepts y m.token) ∧
        x.after.db.sessions.rows =
          x.before.db.sessions.rows.filter fun r => r.passwordName ≠ name) ∧
    (invalidated x = true →
      (∀ m ∈ x.before.minted, ∀ y ∈ post, ¬Accepts y m.token) ∧ x.after.db.sessions.rows = []) ∧
    ∀ t, deleted x = some t → ∃ claims, tokenClaims C t = some claims ∧
      (∀ m ∈ x.before.minted, m.claims.sid = claims.sid → ∀ y ∈ post, ¬Accepts y m.token) ∧
        x.after.db.sessions.rows =
          x.before.db.sessions.rows.filter fun r => r.id ≠ claims.sid :=
  ⟨fun _ => revokePassword_permanent hC hes h, invalidateAuthority_permanent hC hes h,
    fun _ => deleteSession_permanent hC hes h⟩

/-- The step after some events of a run. -/
def sampleStep (es : List Event) (e : Event) : Step :=
  (stores sampleCrates).entry ((stores sampleCrates).final World.init es) e

/-- The session of a login is deleted by another handle. -/
def sampleDelete : Event := .call 1 noFaults (.deleteSession sampleFirst 1700000100)

/-- The password of the login is revoked. -/
def sampleRevoke : Event := .call 1 noFaults (.revokePassword (str "phone"))

/-- The authority is invalidated. -/
def sampleInvalidate : Event := .call 0 noFaults .invalidateAuthority

/-- The account is bound again, the password issued again, and the token presented again. -/
def sampleReturn : List Event :=
  [.call 0 noFaults (.bindVerified 1 (str "0xa2") sampleIdentity 1700000200 (List.replicate 32 1)),
    .call 0 noFaults (.issuePassword (str "phone") 1700000200 (List.replicate 32 2)
      (List.replicate 32 3)),
    .call 0 noFaults (.refreshSession sampleFirst 1700000300 (sampleId 8) (sampleId 9))]

/-- Each of the three succeeds, and the token is presented again afterwards. -/
theorem sampleRevocation_runs :
    (stores sampleCrates).Meets Fresh World.init (sampleLogin ++ sampleDelete :: sampleReturn) ∧
      (stores sampleCrates).Meets Fresh World.init (sampleLogin ++ sampleRevoke :: sampleReturn) ∧
      (stores sampleCrates).Meets Fresh World.init
        (sampleLogin ++ sampleInvalidate :: sampleReturn) ∧
      deleted (sampleStep sampleLogin sampleDelete) = some sampleFirst ∧
      revoked (sampleStep sampleLogin sampleRevoke) = some (str "phone") ∧
      invalidated (sampleStep sampleLogin sampleInvalidate) = true ∧
      ∃ m ∈ ((stores sampleCrates).final World.init sampleLogin).minted, m.token = sampleFirst ∧
        m.password = str "phone" ∧ tokenClaims sampleCrates sampleFirst = some m.claims := by
  decide +kernel

/-- The run with a step after some events. -/
theorem sampleTrace_eq (es : List Event) (e : Event) (es' : List Event) :
    (stores sampleCrates).trace World.init (es ++ e :: es') =
      (stores sampleCrates).trace World.init es ++ sampleStep es e ::
        (stores sampleCrates).trace (sampleStep es e).after es' :=
  Machine.trace_append _ _ _

/-- The token of a login is not accepted after its session was deleted, after its password was
revoked, and after the authority was invalidated. -/
theorem revocation_permanent_sample :
    (∀ y ∈ (stores sampleCrates).trace (sampleStep sampleLogin sampleDelete).after sampleReturn,
      ¬Accepts y sampleFirst) ∧
    (∀ y ∈ (stores sampleCrates).trace (sampleStep sampleLogin sampleRevoke).after sampleReturn,
      ¬Accepts y sampleFirst) ∧
    ∀ y ∈ (stores sampleCrates).trace (sampleStep sampleLogin sampleInvalidate).after sampleReturn,
      ¬Accepts y sampleFirst := by
  obtain ⟨h₁, h₂, h₃, hdeleted, hrevoked, hinvalidated, m, hm, htoken, hname, hclaims⟩ :=
    sampleRevocation_runs
  rw [← htoken]
  refine ⟨?_, ?_, ?_⟩
  · obtain ⟨claims, hc, hnever, -⟩ := (revocation_permanent Json.compact_lawful _ h₁ _ _ _
      (sampleTrace_eq _ _ _)).2.2 sampleFirst hdeleted
    exact hnever m hm (by rw [Option.some.inj (hclaims.symm.trans hc)])
  · exact ((revocation_permanent Json.compact_lawful _ h₂ _ _ _ (sampleTrace_eq _ _ _)).1
      (str "phone") hrevoked).1 m hm hname
  · exact ((revocation_permanent Json.compact_lawful _ h₃ _ _ _ (sampleTrace_eq _ _ _)).2.1
      hinvalidated).1 m hm

end PurpleSky.Credentials
