import PurpleSky.Credentials.Bearer

/-!
# Refresh tokens are used once

In every interleaving of operations on any number of handles:

* **`refresh_single_use`**: a refresh token is consumed at most once; after it was consumed, or its
  session is gone, nothing accepts it; and a session has one acceptable refresh token, the one that
  was last returned for it.

Identifiers are fresh (`Fresh`). For the last part, a token with a valid tag was signed
(`Unforged`).
-/

namespace PurpleSky.Credentials

open Store

/-- The refresh token a step answers with. -/
def returnedRefresh : Step → Option Bytes
  | ⟨_, _, .session s, _⟩ => some s.refreshJwt
  | _ => none

/-- The refresh token that was last returned for a session. -/
def lastReturned (C : Crates) (sid : Bytes) (steps : List Step) : Option Bytes :=
  (steps.filterMap returnedRefresh).reverse.find? fun t => (tokenClaims C t).any (·.sid = sid)

/-- A step uses up a refresh token: it consumes it, or its session is deleted, by itself or with
its password. -/
inductive UsesUp (C : Crates) (x : Step) (t : Bytes) : Prop where
  | refreshed (h : refreshed x = some t)
  | deleted (claims claims' : Claims) (t' : Bytes) (h : deleted x = some t')
      (h₁ : tokenClaims C t' = some claims') (h₂ : tokenClaims C t = some claims)
      (same : claims.sid = claims'.sid)
  | gone (claims : Claims) (h : tokenClaims C t = some claims)
      (before : ∃ r ∈ x.before.db.sessions.rows, r.id = claims.sid)
      (after : ∀ r ∈ x.after.db.sessions.rows, r.id ≠ claims.sid)

/-- The store would accept a refresh token for a session, at some time. -/
def Acceptable (C : Crates) (w : World) (r : SessionRow) (t : Bytes) : Prop :=
  ∃ io key now a claims, w.db.jwtKey = some key ∧
    beginRefresh C io key w.db t now = .ok (a, claims) ∧ claims.sid = r.id

/-- A token with a valid tag was signed with the key of the store. -/
def Unforged (w : World) (t : Bytes) : Prop :=
  ∀ key ∈ w.db.jwtKey, validTag key t = true → ∃ m ∈ w.minted, m.token = t

variable {C : Crates} {w : World} {e : Event} {t : Bytes}

/-! ## Consuming and deleting -/

/-- A consumed token was not spent before and is spent afterwards. -/
theorem spent_of_refreshed (hw : Invariant C w) (hfresh : Fresh w e)
    (h : refreshed ((stores C).entry w e) = some t) :
    ¬Spent C t w ∧ Spent C t (w.step C e).1 := by
  refine ⟨fun hs => not_acceptsRefresh_of_spent hw hs (.inl h), ?_⟩
  obtain ⟨i, io, now, jti, acc, key, a, claims, rfl, hbegin, hdb, hdrawn⟩ := of_refreshed h
  obtain ⟨hclaims, r, hr, -, hjti, -⟩ := row_of_beginRefresh hbegin
  have hold : claims.jti ∈ w.drawn := hjti ▸ (hw.rowDrawn r hr).2
  refine ⟨claims, hclaims, hdrawn ▸ List.mem_append_left _ hold, ?_⟩
  intro s hs hid hsjti
  rw [hdb] at hs
  rcases Db.mem_sessions_rotate.mp hs with ⟨-, hne⟩ | ⟨s', -, -, -, rfl⟩
  · exact hne ⟨hid, hsjti⟩
  · -- the new identifier is fresh, the consumed one was drawn before
    have hnew : jti ∉ w.drawn := not_drawn hfresh List.mem_cons_self
    have hsame : jti = claims.jti := hsjti
    rw [hsame] at hnew
    exact hnew hold

/-! ## The token that was last returned -/

theorem lastReturned_concat (C : Crates) (sid : Bytes) (xs : List Step) (x : Step) :
    lastReturned C sid (xs ++ [x]) =
      match returnedRefresh x with
      | none => lastReturned C sid xs
      | some t => if (tokenClaims C t).any (·.sid = sid) then some t
          else lastReturned C sid xs := by
  unfold lastReturned
  rw [List.filterMap_append, List.reverse_append]
  cases h : returnedRefresh x with
  | none => simp [h]
  | some t =>
      simp only [List.filterMap_cons, h, List.filterMap_nil, List.reverse_cons, List.reverse_nil,
        List.nil_append, List.cons_append, List.find?_cons]
      cases (tokenClaims C t).any (·.sid = sid) <;> rfl

theorem returnedRefresh_of_shrinks {w' : World} {reply : Reply} {db : Db}
    (h : Outcome.Shrinks ⟨reply, w'.db, none⟩ db) :
    returnedRefresh ⟨w, e, reply, w'⟩ = none := by
  unfold returnedRefresh
  split
  · rename_i heq
    simp only [Machine.Entry.mk.injEq] at heq
    exact absurd heq.2.2.1 (h.reply _)
  · rfl

theorem returnedRefresh_of_renews {w' : World} {reply : Reply} {db : Db} {m : Mint}
    {row : SessionRow} (h : Outcome.Renews ⟨reply, w'.db, none⟩ db m row) :
    returnedRefresh ⟨w, e, reply, w'⟩ = some m.token := by
  obtain ⟨s, hreply, htoken⟩ := h.reply
  obtain rfl : reply = .session s := hreply
  exact congrArg some htoken

/-- The row of a session has the identifier and the expiry of the refresh token last returned for
it. -/
theorem current (hC : C.json.Lawful) {es : List Event}
    (hes : (stores C).Meets Fresh World.init es) :
    ∀ r ∈ ((stores C).final World.init es).db.sessions.rows,
      ∃ m ∈ ((stores C).final World.init es).minted, m.claims.jti = r.refreshJti ∧
        lastReturned C r.id ((stores C).trace World.init es) = some m.token := by
  induction es using List.reverseRecOn with
  | nil =>
      intro r hr
      cases hr
  | append_singleton es e ih =>
      obtain ⟨hes, hlast⟩ := Machine.meets_append.mp hes
      have ih := ih hes
      have hw := hes.invariant (keeps_invariant hC) (invariant_init C)
      have hw' := hw.step hC hlast.1
      obtain ⟨draws, new, heff, -⟩ := effect_of_fresh hw hlast.1
      rw [Machine.final_append, Machine.trace_append]
      generalize (stores C).final World.init es = w at *
      generalize (stores C).trace World.init es = xs at *
      change ∀ r ∈ (w.step C e).1.db.sessions.rows, ∃ m ∈ (w.step C e).1.minted,
        m.claims.jti = r.refreshJti ∧
          lastReturned C r.id (xs ++ [⟨w, e, (w.step C e).2, (w.step C e).1⟩]) = some m.token
      intro r hr
      rcases heff.sessions with hshrinks | ⟨m, hm, row, hrenews⟩
      · obtain ⟨m, hm, hjti, hlast⟩ := ih r (hshrinks.rows hr)
        refine ⟨m, heff.minted ▸ List.mem_append_left _ hm, hjti, ?_⟩
        rw [lastReturned_concat, returnedRefresh_of_shrinks hshrinks]
        exact hlast
      · -- the returned token belongs to the session of `row`
        have hm' : m ∈ (w.step C e).1.minted := heff.minted ▸ List.mem_append_right _ hm
        have hclaims := (hw'.claims m hm').1
        have hreturned := returnedRefresh_of_renews (w := w) (e := e) hrenews
        rcases hrenews.others r hr with rfl | ⟨hold, hne⟩
        · refine ⟨m, hm', hrenews.jti.symm, ?_⟩
          rw [lastReturned_concat, hreturned]
          simp [hclaims, hrenews.id]
        · obtain ⟨m₀, hm₀, hjti, hlast⟩ := ih r hold
          refine ⟨m₀, heff.minted ▸ List.mem_append_left _ hm₀, hjti, ?_⟩
          have hother : m.claims.sid ≠ r.id := fun h => hne (h.symm.trans hrenews.id.symm)
          rw [lastReturned_concat, hreturned]
          simpa [hclaims, hother] using hlast

/-- A session whose row is not in the next state has ended. -/
theorem ended_of_gone (hw : Invariant C w) (hfresh : Fresh w e) {sid : Bytes}
    (hbefore : ∃ r ∈ w.db.sessions.rows, r.id = sid)
    (hafter : ∀ r ∈ (w.step C e).1.db.sessions.rows, r.id ≠ sid) : Ended sid (w.step C e).1 := by
  obtain ⟨draws, new, heff, -⟩ := effect_of_fresh hw hfresh
  obtain ⟨r, hr, rfl⟩ := hbefore
  exact ⟨heff.drawn ▸ List.mem_append_left _ (hw.rowDrawn r hr).1, hafter⟩

/-- Nothing accepts a refresh token after it was used up. -/
theorem not_acceptsRefresh_of_usesUp (hC : C.json.Lawful) {es : List Event}
    (hes : (stores C).Meets Fresh World.init es) {pre post : List Step} {x : Step}
    (h : (stores C).trace World.init es = pre ++ x :: post) (hx : UsesUp C x t) :
    ∀ y ∈ post, ¬AcceptsRefresh y t := by
  obtain ⟨hstep, hw, hfresh⟩ := entry_of_trace hC hes h
  have hnever : ∀ {claims : Claims}, tokenClaims C t = some claims → Ended claims.sid x.after →
      ∀ y ∈ post, ¬AcceptsRefresh y t := by
    intro claims hclaims hended y hy hacc
    refine never_accepts hC hes h hended (fun c hc => ?_) y hy (.inl hacc)
    rw [Option.some.inj (hc.symm.trans hclaims)]
  cases hx with
  | refreshed hx =>
      rw [hstep] at hx
      have hspent : Spent C t x.after := by
        rw [hstep]
        exact (spent_of_refreshed hw hfresh hx).2
      intro y hy hacc
      obtain ⟨hy, hwy, -, hd⟩ :=
        hes.later (keeps_invariant hC) (keeps_spent C t) (invariant_init C) h hspent y hy
      rw [hy] at hacc
      exact not_acceptsRefresh_of_spent hwy hd hacc
  | deleted claims claims' t' hx h₁ h₂ same =>
      rw [hstep] at hx
      refine hnever h₂ ?_
      rw [same, hstep]
      exact ended_of_deleted hw hx h₁
  | gone claims hclaims before after =>
      refine hnever hclaims ?_
      rw [hstep] at after ⊢
      exact ended_of_gone hw hfresh before after

/-- A session accepts the refresh token that was last returned for it, and no other. -/
theorem eq_lastReturned (hC : C.json.Lawful) {es : List Event}
    (hes : (stores C).Meets Fresh World.init es) {r : SessionRow}
    (hr : r ∈ ((stores C).final World.init es).db.sessions.rows)
    (ht : Unforged ((stores C).final World.init es) t)
    (hacc : Acceptable C ((stores C).final World.init es) r t) :
    lastReturned C r.id ((stores C).trace World.init es) = some t := by
  have hw := hes.invariant (keeps_invariant hC) (invariant_init C)
  obtain ⟨m, hm, hjti, hlast⟩ := current hC hes r hr
  obtain ⟨io, key, now, a, claims, hkey, hbegin, hsid⟩ := hacc
  obtain ⟨hclaims, r', hr', hid, hrjti, -⟩ := row_of_beginRefresh hbegin
  obtain rfl := Table.eq_of_key_eq _ hr' hr (hid.trans hsid)
  -- the accepted token was signed, so it is the one with the identifier in the row
  have hver := verifyToken_eq_ok.mp (beginRefresh_eq_ok hbegin).2.1
  obtain ⟨m', hm', rfl⟩ := ht key hkey hver.2.1
  have hsame : m'.claims = claims := Option.some.inj ((hw.claims m' hm').1.symm.trans hclaims)
  have heq : m' = m := hw.distinct m' hm' m hm (by rw [hsame, hjti, hrjti])
  rw [hlast, heq]

/-- Refresh tokens are used once. -/
theorem refresh_single_use (hC : C.json.Lawful) (es : List Event)
    (hes : (stores C).Meets Fresh World.init es) :
    (((stores C).trace World.init es).filterMap refreshed).Nodup ∧
      (∀ pre x post, (stores C).trace World.init es = pre ++ x :: post →
        ∀ t, UsesUp C x t → ∀ y ∈ post, ¬AcceptsRefresh y t) ∧
      ∀ r ∈ ((stores C).final World.init es).db.sessions.rows, ∀ t,
        Unforged ((stores C).final World.init es) t →
        Acceptable C ((stores C).final World.init es) r t →
        lastReturned C r.id ((stores C).trace World.init es) = some t := by
  refine ⟨?_, fun pre x post h t hx => not_acceptsRefresh_of_usesUp hC hes h hx,
    fun r hr t ht hacc => eq_lastReturned hC hes hr ht hacc⟩
  exact hes.nodup_filterMap (keeps_invariant hC) (invariant_init C) (keeps_spent C)
    fun s e t hw hfresh h => spent_of_refreshed hw hfresh h

/-- The refresh token after the first. -/
def sampleSecond : Bytes :=
  sampleToken .refresh (sampleId 1) (sampleId 4) 1700000100 1700604800

/-- A login, and the same refresh token on both stores. -/
def sampleRefresh : List Event :=
  sampleLogin ++
    [.call 1 noFaults (.refreshSession sampleFirst 1700000100 (sampleId 4) (sampleId 5)),
      .call 0 noFaults (.refreshSession sampleFirst 1700000100 (sampleId 6) (sampleId 7))]

/-- The session after the run. -/
def sampleRow : SessionRow := ⟨sampleId 1, str "phone", sampleId 4, 1700604800⟩

theorem sampleRefresh_runs :
    (stores sampleCrates).Meets Fresh World.init sampleRefresh ∧
      ((stores sampleCrates).trace World.init sampleRefresh).filterMap refreshed = [sampleFirst] ∧
      sampleRow ∈ ((stores sampleCrates).final World.init sampleRefresh).db.sessions.rows ∧
      (∃ m ∈ ((stores sampleCrates).final World.init sampleRefresh).minted,
        m.token = sampleSecond) ∧
      ((stores sampleCrates).final World.init sampleRefresh).db.jwtKey = some sampleKey ∧
      ((beginRefresh sampleCrates noFaults sampleKey
        ((stores sampleCrates).final World.init sampleRefresh).db sampleSecond 1700000200).map
          fun (_, claims) => claims.sid).toOption = some (sampleId 1) := by
  decide +kernel

/-- One of the two refreshes is accepted, nothing accepts the token after that, and the session
accepts the token that replaced it. -/
theorem refresh_single_use_sample :
    ((stores sampleCrates).trace World.init sampleRefresh).filterMap refreshed = [sampleFirst] ∧
      (∀ pre x post, (stores sampleCrates).trace World.init sampleRefresh = pre ++ x :: post →
        refreshed x = some sampleFirst → ∀ y ∈ post, ¬AcceptsRefresh y sampleFirst) ∧
      lastReturned sampleCrates (sampleId 1)
        ((stores sampleCrates).trace World.init sampleRefresh) = some sampleSecond := by
  obtain ⟨hmeets, hfirst, hrow, ⟨m, hm, hsecond⟩, hkey, hbegin⟩ := sampleRefresh_runs
  obtain ⟨-, hlater, hcurrent⟩ := refresh_single_use Json.compact_lawful sampleRefresh hmeets
  refine ⟨hfirst, fun pre x post h hx => hlater pre x post h sampleFirst (.refreshed hx), ?_⟩
  refine hcurrent sampleRow hrow sampleSecond (fun _ _ _ => ⟨m, hm, hsecond⟩) ?_
  cases h : beginRefresh sampleCrates noFaults sampleKey
      ((stores sampleCrates).final World.init sampleRefresh).db sampleSecond 1700000200 with
  | error e =>
      rw [h] at hbegin
      cases hbegin
  | ok p =>
      rw [h] at hbegin
      exact ⟨noFaults, sampleKey, 1700000200, p.1, p.2, hkey, h, Option.some.inj hbegin⟩

end PurpleSky.Credentials
