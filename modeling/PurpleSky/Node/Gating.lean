import PurpleSky.Node.Evidence

/-!
# Gated actions

Using a password, a session or a grant needs an authority that was checked recently. The check may
be one that is remembered (`checkedAt`), without a look at the account; that this is enough is an
invariant: what is remembered is of the stored evidence (`Live`), or there is nothing left that it
could be used with.

* **`gated_of_ok`**: what holds after an action that needs an authority returned.
-/

namespace PurpleSky.Node

open Bytes Credentials Farcaster Procedure

variable {K : Crates}

/-- The remembered check is of the authority in the stored evidence: a verification returned it for
the proof that is stored, and since then there was no invalidation. -/
def Live (K : Crates) (s : Core) : Prop :=
  ∃ time raw e identity newer older, s.checkedAt = some time ∧ s.db.evidence = some raw ∧
    readEvidence K raw = some e ∧ s.history = newer ++ .verified identity time :: older ∧
    .invalidated ∉ newer ∧ Returned K.toCrates e.proof identity ∧
    identity.fid = e.identity.fid ∧ fingerprint identity = fingerprint e.identity

/-- A remembered check is live, or nothing is left to use. -/
structure Guarded (K : Crates) (s : Core) : Prop where
  sound : Sound K s.db
  live : s.checkedAt ≠ none → Live K s ∨ (s.grants = [] ∧ s.db.passwords.rows = [])

/-- Other data of a core is no part of a live check. -/
theorem Live.of_frame {s s' : Core} (h : Live K s) (hchecked : s'.checkedAt = s.checkedAt)
    (hevidence : s'.db.evidence = s.db.evidence) (hhistory : s'.history = s.history) :
    Live K s' := by
  obtain ⟨time, raw, e, identity, newer, older, htime, hraw, hread, hpast, hrest⟩ := h
  exact ⟨time, raw, e, identity, newer, older, hchecked.trans htime, hevidence.trans hraw, hread,
    hhistory.trans hpast, hrest⟩

/-- A check that was just recorded with its evidence is live. -/
theorem live_of_stored (hK : K.json.Lawful) {s : Core} {identity : VerifiedIdentity}
    {proof : SignedProof} {time : Nat} {older : List Deed} (hrange : identity.InRange)
    (hreturned : Returned K.toCrates proof identity) (hchecked : s.checkedAt = some time)
    (hevidence : s.db.evidence = some (encodeEvidence K ⟨identity, proof⟩))
    (hhistory : s.history = .verified identity time :: older) : Live K s :=
  ⟨time, _, ⟨identity, proof⟩, identity, [], older, hchecked, hevidence,
    readEvidence_encodeEvidence hK hrange, hhistory, List.not_mem_nil, hreturned, rfl, rfl⟩

theorem Guarded.move (hK : K.json.Lawful) {s s' : Core} (hmove : Move K s s') (h : Guarded K s) :
    Guarded K s' := by
  refine ⟨h.sound.move hK hmove, fun hchecked => ?_⟩
  cases hmove with
  | memory pending grants startTimes passwordTimes checkedAt fewer checked =>
      rcases checked with rfl | rfl
      · rcases h.live hchecked with hlive | ⟨hgrants, hpasswords⟩
        · exact .inl (hlive.of_frame rfl rfl rfl)
        · exact .inr ⟨List.subset_nil.mp (hgrants ▸ fewer), hpasswords⟩
      · exact absurd rfl hchecked
  | invalidating =>
      rcases h.live hchecked with hlive | hnone
      · obtain ⟨time, raw, e, identity, newer, older, htime, hraw, hread, hpast, hnewer, hsame⟩ :=
          hlive
        refine .inl ⟨time, raw, e, identity, .invalidating :: newer, older, htime, hraw,
          hread, ?_, ?_, hsame⟩
        · rw [hpast]
          rfl
        · simpa using hnewer
      · exact .inr hnone
  | invalidated io db call => exact .inr ⟨rfl, (Store.invalidateAuthority_eq_ok call).1⟩
  | bound io fid authority identity now random a db call =>
      obtain ⟨⟨key, rfl⟩, -⟩ := Store.bindVerified_eq_ok call
      rcases h.live hchecked with hlive | hnone
      · exact .inl (hlive.of_frame rfl rfl rfl)
      · exact .inr hnone
  | rechecked io client net e raw identity now db evidence read returned call =>
      obtain ⟨-, -, -, rfl⟩ := Store.setEvidence_eq_ok call
      obtain ⟨-, -, hrange⟩ := same_of_recheckIdentity returned
      exact .inl (live_of_stored hK hrange (.recheckIdentity returned) rfl rfl rfl)
  | completed io client net challenge verified proof now checked a repoKey pending grants db returned
      account createdAt enabled fid authority newer call =>
      obtain ⟨-, -, -, rfl⟩ := Store.setEvidence_eq_ok call
      exact .inl (live_of_stored hK (inRange_of_verify returned) (.verify returned) rfl rfl rfl)
  | credentials db account evidence passwords =>
      rcases h.live hchecked with hlive | ⟨hgrants, hpasswords⟩
      · exact .inl (hlive.of_frame rfl evidence rfl)
      · rcases passwords with hfewer | hsome
        · exact .inr ⟨hgrants, List.subset_nil.mp (hpasswords ▸ hfewer)⟩
        · exact absurd hgrants hsome

theorem kept_guarded (hK : K.json.Lawful) : Kept K (fun db _ => Sound K db) (Guarded K) where
  init := (kept_sound hK).init
  key hopen h := h.openKey hopen
  opened _ _ h := ⟨h, fun hchecked => absurd rfl hchecked⟩
  move hmove h := h.move hK hmove
  configured {core} settings h := by
    refine ⟨(kept_sound hK).configured settings h.sound, ?_⟩
    unfold Core.apply
    split_ifs
    · exact h.live
    · exact fun hchecked => absurd rfl hchecked
  stopped h := h.sound

/-- An action that returned left a core that its moves lead to, and its gate. -/
theorem gate_of_ok {core core' : Core} {action : Action} {env : Env} {value : Json}
    (h : executeNode K core action env = (.running core', .ok value)) :
    Moves K core core' ∧ (action.gated = true → Gate env core') := by
  have hacts : Acts K (execute K env action) (fun _ s => action.gated = true → Gate env s) core :=
    execute_acts action
  unfold executeNode at h
  unfold Acts wp at hacts
  match hx : execute K env action core with
  | (.ok v, s') =>
      rw [hx] at h hacts
      obtain rfl := Process.running.inj (Prod.mk.inj h).1
      exact hacts
  | (.error (.failed failure), s') =>
      rw [hx] at h
      cases (Prod.mk.inj h).2
  | (.error .timedOut, s') =>
      rw [hx] at h
      cases (Prod.mk.inj h).2
  | (.error .stopped, s') =>
      rw [hx] at h
      cases (Prod.mk.inj h).2

/-- **Gated actions fail closed.** In every run of a node: when an action that needs an authority
returns, login is enabled, the store has an enabled account and evidence of its identifier and
authority, and a verification of exactly that authority, which `verify` or `recheck_identity` returned
for the stored proof, is recorded less than thirty seconds before the action's check, without an
invalidation since then. -/
theorem gated_of_ok {K : Crates} (hK : K.json.Lawful) (es : List Event) (core core' : Core)
    (action : Action) (env : Env) (value : Json)
    (hrun : (nodes K).final .init es = .running core)
    (hreply : executeNode K core action env = (.running core', .ok value))
    (hgated : action.gated = true) :
    core'.settings.enabled = true ∧
    ∃ a raw e time identity newer older,
    Store.account K.credentials noFaults core'.db = .ok (some a) ∧
      a.enabled = true ∧ core'.db.evidence = some raw ∧ readEvidence K raw = some e ∧
      e.identity.fid = a.fid ∧ fingerprint e.identity = a.authority ∧
      core'.checkedAt = some time ∧ time ≤ env.now .authority ∧ env.now .authority - time < 30 ∧
      core'.history = newer ++ .verified identity time :: older ∧ .invalidated ∉ newer ∧
      Returned K.toCrates e.proof identity ∧ identity.fid = a.fid ∧ fingerprint identity = a.authority := by
  obtain ⟨hmoves, hgate⟩ := gate_of_ok hreply
  obtain ⟨henabled, hfresh, hused⟩ := hgate hgated
  have hcore : Guarded K core := by
    have h := (kept_guarded hK).final es
    rw [hrun] at h
    exact h
  have hcore' : Guarded K core' := (kept_guarded hK).moves hmoves hcore
  have hchecked : core'.checkedAt ≠ none := by
    intro hnone
    rw [Core.isFresh, hnone] at hfresh
    cases hfresh
  rcases hcore'.live hchecked with hlive | ⟨hgrants, hpasswords⟩
  · obtain ⟨time, raw, e, identity, newer, older, htime, hraw, hread, hpast, hnewer, hreturned, hfid,
      hauth⟩ := hlive
    obtain ⟨e', a, repoKey, he⟩ := hcore'.sound.evident raw hraw
    obtain rfl : e' = e := Option.some.inj ((he.read hK).symm.trans hread)
    rw [Core.isFresh, htime, Option.any_some] at hfresh
    simp only [Bool.and_eq_true, decide_eq_true_eq] at hfresh
    exact ⟨henabled, a, raw, e', time, identity, newer, older,
      he.bound.loadAccount hK rfl he.short, he.enabled, hraw, hread, he.fid, he.authority, htime,
      hfresh.1, hfresh.2, hpast, hnewer, hreturned, hfid.trans he.fid, hauth.trans he.authority⟩
  · rcases hused with hsome | hsome
    · exact absurd hgrants hsome
    · exact absurd hpasswords hsome

/-- Listing the passwords with the grant of a sign-in, while its check is remembered. -/
def sampleListing : Action := .passwords (randomToken (sampleRandom 2 .account))

def sampleListingEnv : Env := sampleEnv 1700000020 2 fun _ _ => .failed

theorem sampleListing_runs :
    (match (nodes sampleNode).final .init sampleSignIn with
      | .running core => match executeNode sampleNode core sampleListing sampleListingEnv with
        | (.running _, .ok _) => true
        | _ => false
      | .stopped _ _ => false) = true := by
  decide +kernel

/-- The passwords are listed twenty seconds after the sign-in, on the evidence that it stored. -/
theorem gated_of_ok_sample : ∃ (core' : Core) (a : Account) (raw : Bytes) (e : Evidence)
    (time : Nat), core'.settings.enabled = true ∧
    Store.account sampleNode.credentials noFaults core'.db = .ok (some a) ∧ a.enabled = true ∧
    core'.db.evidence = some raw ∧ readEvidence sampleNode raw = some e ∧ e.identity.fid = a.fid ∧
    fingerprint e.identity = a.authority ∧ core'.checkedAt = some time ∧
    (1700000020 : Nat) - time < 30 := by
  have hruns := sampleListing_runs
  match hrun : (nodes sampleNode).final .init sampleSignIn with
  | .stopped db history =>
      rw [hrun] at hruns
      cases hruns
  | .running core =>
      rw [hrun] at hruns
      match hreply : executeNode sampleNode core sampleListing sampleListingEnv with
      | (.running core', .ok value) =>
          obtain ⟨henabled, a, raw, e, time, _, _, _, ha, hen, hraw, hread, hfid, hauth,
            htime, -, hage,
            -⟩ := gated_of_ok Json.compact_lawful sampleSignIn core core' sampleListing
              sampleListingEnv value hrun hreply rfl
          exact ⟨core', a, raw, e, time, henabled, ha, hen, hraw, hread, hfid, hauth, htime, hage⟩
      | (.stopped _ _, _) | (.running _, .idle) | (.running _, .opened) | (.running _, .refused)
      | (.running _, .configured) | (.running _, .failed _) | (.running _, .stopped) =>
          simp only [hreply, Bool.false_eq_true] at hruns

end PurpleSky.Node
