import PurpleSky.Node.Evidence

/-!
# Revoking an authority

When the check of an authority calls for its invalidation: only when the provider spoke against the
stored identity (`Refuted`). Whatever else goes wrong leaves the store as it was.

* **`revocation_justified`**: what a check does to the store, and why.
-/

namespace PurpleSky.Node

open Bytes Credentials Farcaster Procedure

variable {K : Crates} {env : Env}

/-- A provider that was asked for the stored evidence spoke against it. -/
def Refutation (K : Crates) (env : Env) (core : Core) : Prop :=
  ∃ raw e client answers parsed, core.db.evidence = some raw ∧ readEvidence K raw = some e ∧
    Core.client K core.settings = .ok client ∧ env.net .recheck = some answers ∧
    parseAuthority K.toCrates e.proof client.config.domain client.config.uri = .ok parsed ∧
    e.identity.checkedAt ≤ env.now .authority ∧
    Refuted K.toCrates client answers parsed e.identity (env.now .authority)

/-- Whatever is stored as evidence was returned for its proof. -/
def StoresReturned (K : Crates) (db : Db) : Prop :=
  ∀ raw e, db.evidence = some raw → readEvidence K raw = some e →
    Returned K.toCrates e.proof e.identity

/-- A check that returns notes no invalidation. -/
def Calm (core core' : Core) : Prop :=
  ∃ newer, core'.history = newer ++ core.history ∧ .invalidating ∉ newer

/-- A check that fails leaves the store and its history alone, or has a reason to invalidate. -/
def Excused (K : Crates) (env : Env) (core core' : Core) : Prop :=
  (core'.db = core.db ∧ core'.history = core.history) ∨ Refutation K env core

theorem wp_recheck {core : Core} {client : AuthClient} {answers : Net} {e : Evidence} {raw : Bytes}
    (hclient : Core.client K core.settings = .ok client) (hnet : env.net .recheck = some answers)
    (hevidence : core.db.evidence = some raw) (hread : readEvidence K raw = some e)
    (hreturned : Returned K.toCrates e.proof e.identity) :
    wp (recheck K env e.proof (env.now .authority)
      (recheckIdentity K.toCrates client answers e.identity e.proof (env.now .authority)))
      (fun _ => Calm core) (fun _ => Excused K env core) core := by
  cases hresult : recheckIdentity K.toCrates client answers e.identity e.proof (env.now .authority) with
  | ok identity =>
      unfold recheck storeEvidence recordCheck
      simp only [wp_bind, wp_note, wp_update, wp_change]
      refine ⟨fun _ => .inl ⟨rfl, rfl⟩, fun faults _ => ⟨fun db hdb => ?_, fun _ _ => .inl ⟨rfl, rfl⟩⟩⟩
      exact ⟨[.verified identity _, .stored identity], rfl, by simp⟩
  | error error =>
      by_cases hrevokes : error.Revokes
      · obtain ⟨parsed, hparse, hclock, hrefuted⟩ :=
          refuted_of_recheckIdentity hreturned hresult hrevokes
        have hreason : Refutation K env core :=
          ⟨raw, e, client, answers, parsed, hevidence, hread, hclient, hnet, hparse,
            hclock, hrefuted⟩
        have hrevokes : error = .unauthorized ∨ error = .invalidSignature := hrevokes
        unfold recheck invalidate
        simp only [wp_bind, wp_change, if_pos hrevokes, wp_note, wp_update, wp_fail]
        exact ⟨fun _ => .inr hreason, fun _ _ => ⟨fun _ _ => .inr hreason, fun _ _ => .inr hreason⟩⟩
      · have hrevokes : ¬(error = .unauthorized ∨ error = .invalidSignature) := hrevokes
        unfold recheck
        simp only [wp_bind, wp_change, if_neg hrevokes, wp_fail]
        exact .inl ⟨rfl, rfl⟩

theorem wp_authority {core : Core} (hreturned : StoresReturned K core.db) :
    wp (authority K env) (fun _ => Calm core) (fun _ => Excused K env core) core := by
  have hsame : Excused K env core core := .inl ⟨rfl, rfl⟩
  unfold authority
  simp only [wp_bind, wp_read, wp_check]
  refine ⟨fun _ => ?_, fun _ => hsame⟩
  by_cases hfresh : core.isFresh (env.now .authority) = true
  · rw [if_pos hfresh]
    exact ⟨[], rfl, List.not_mem_nil⟩
  · rw [if_neg hfresh]
    simp only [wp_bind, wp_query, wp_attempt, wp_check, wp_await]
    refine ⟨fun _ => hsame, fun _ _ => ⟨fun account _ => ⟨fun a _ => ⟨fun _ => ?_, fun _ => hsame⟩,
      fun _ _ => hsame⟩, fun _ _ => hsame⟩⟩
    refine ⟨fun _ => hsame, fun _ _ => ⟨fun raw hraw => ⟨fun raw' hraw' => ?_, fun _ _ => hsame⟩,
      fun _ _ => hsame⟩⟩
    refine ⟨fun e he => ⟨fun _ => ⟨fun client hclient => ⟨fun _ => hsame, fun answers hnet => ?_⟩,
      fun _ _ => hsame⟩, fun _ => hsame⟩, fun _ _ => hsame⟩
    have hevidence : core.db.evidence = some raw' := by
      rw [← Store.evidence_eq_ok hraw]
      exact okOr_eq_ok.mp hraw'
    have hread : readEvidence K raw' = some e := okOr_eq_ok.mp he
    exact wp_recheck hclient hnet hevidence hread (hreturned raw' e hevidence hread)

/-- **Operational failures never revoke.** On every core that stores evidence of an identity that
was returned for its proof, at any time and with any provider: a check of the authority that returns
invalidates nothing, and one that fails leaves the store as it was, unless the provider served a
recent finalized block that is not behind the identity's, and spoke against the identity at it. What
a node stores in any run is such evidence. -/
theorem revocation_justified {K : Crates} (hK : K.json.Lawful) :
    (∀ (core core' : Core) (env : Env), StoresReturned K core.db →
      (∀ u, authority K env core = (.ok u, core') → Calm core core') ∧
      (∀ halt, authority K env core = (.error halt, core') → ¬Refutation K env core →
        core'.db = core.db ∧ core'.history = core.history)) ∧
    ∀ es : List Event, StoresReturned K ((nodes K).final .init es).db := by
  refine ⟨fun core core' env hreturned => ⟨fun u h => ?_, fun halt h hnot => ?_⟩,
    fun es raw e hraw he => ?_⟩
  · exact (wp_authority hreturned).of_ok h
  · have hwp : wp (authority K env) (fun _ => Calm core) (fun _ => Excused K env core) core :=
      wp_authority hreturned
    unfold wp at hwp
    rw [h] at hwp
    exact hwp.resolve_right hnot
  · obtain ⟨e', a, repoKey, he'⟩ := (sound_final hK es).evident raw hraw
    obtain rfl : e' = e := Option.some.inj ((he'.read hK).symm.trans he)
    exact he'.returned

/-- A minute after a sign-in, while the provider is away. -/
def sampleOutage : Env := sampleEnv 1700000060 2 fun _ _ => .failed

theorem sampleOutage_runs :
    (match (nodes sampleNode).final .init sampleSignIn with
      | .running core => match (authority sampleNode sampleOutage core).1 with
        | .error _ => core.db.evidence.isSome
        | .ok _ => false
      | .stopped _ _ => false) = true := by
  decide +kernel

/-- While the provider is away the check fails, and the evidence of the sign-in stays. -/
theorem revocation_justified_sample : ∃ (core core' : Core) (halt : Halt),
    (nodes sampleNode).final .init sampleSignIn = .running core ∧ core.db.evidence.isSome = true ∧
    authority sampleNode sampleOutage core = (.error halt, core') ∧ core'.db = core.db := by
  obtain ⟨hcheck, hstores⟩ := revocation_justified (K := sampleNode) Json.compact_lawful
  have hruns := sampleOutage_runs
  match hrun : (nodes sampleNode).final .init sampleSignIn with
  | .stopped db history =>
      rw [hrun] at hruns
      cases hruns
  | .running core =>
      have hreturned : StoresReturned sampleNode core.db := by
        have h := hstores sampleSignIn
        rw [hrun] at h
        exact h
      rw [hrun] at hruns
      match hauth : authority sampleNode sampleOutage core with
      | (.ok _, _) => simp only [hauth, Bool.false_eq_true] at hruns
      | (.error halt, core') =>
          simp only [hauth] at hruns
          have hnot : ¬Refutation sampleNode sampleOutage core := by
            rintro ⟨_, _, _, answers, _, -, -, -, hnet, -, -, x, hserves, -⟩
            obtain rfl := Option.some.inj hnet
            obtain ⟨_, ⟨_, _, _, hreply, -⟩, -⟩ := hserves.chainId
            cases hreply
          have hsame := (hcheck core core' sampleOutage hreturned).2 halt hauth hnot
          exact ⟨core, core', halt, rfl, hruns, hauth, hsame.1⟩

end PurpleSky.Node
