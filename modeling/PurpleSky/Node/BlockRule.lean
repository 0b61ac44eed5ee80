import PurpleSky.Farcaster.Texts
import PurpleSky.Node.Evidence

/-!
# Two tests of a block

A block that was just verified is compared with the one that evidence was stored at: by a sign-in in
`checkBlock`, and by a periodic check in `finalizedBlock`. Both refuse a lower block, and another
block of the same height. The second one reads two hashes in any letter case as one, the first one
does not; and a hash is stored as a provider wrote it.

* `checkBlock_eq`, `finalizedBlock_eq`: what each of them does.
* **`oneRule_iff`**: they are one rule, that of `Behind`, exactly when the hash is not written in
  another case (`Retold`).
* `retold_fails`: a run where the periodic check passes on evidence, and the sign-in after it does
  not.
-/

namespace PurpleSky.Node

open Bytes Credentials Farcaster PurpleSky.Procedure

variable {K : Crates}

/-! ## The rule -/

/-- A block is lower than the one of an identity, or another one of its height. -/
def Behind (block : Block) (previous : VerifiedIdentity) : Prop :=
  block.number < previous.checkedBlock ∨
    (block.number = previous.checkedBlock ∧ decodeHex block.hash ≠ decodeHex previous.blockHash)

/-- A block is the one of an identity, and its hash is written in another letter case. -/
def Retold (block : Block) (previous : VerifiedIdentity) : Prop :=
  block.number = previous.checkedBlock ∧ block.hash ≠ previous.blockHash ∧
    eqIgnoreCase block.hash previous.blockHash = true

/-- A hash is thirty-two bytes. -/
def IsHash (hash : Bytes) : Prop := ∃ bytes, decodeHex hash = .ok bytes ∧ bytes.length = 32

theorem eqIgnoreCase_iff_of_isHash {s t : Bytes} (hs : IsHash s) (ht : IsHash t) :
    eqIgnoreCase s t = true ↔ decodeHex s = decodeHex t := by
  obtain ⟨bytes, hbytes, -⟩ := hs
  obtain ⟨bytes', hbytes', -⟩ := ht
  rw [eqIgnoreCase_iff_decodeHex hbytes hbytes', hbytes, hbytes', Except.ok.injEq]

/-! ## The tests -/

/-- What a sign-in does with a verified block. -/
theorem checkBlock_eq {env : Env} {core : Core} {faults : Faults} {raw : Bytes} {e : Evidence}
    {verified : VerifiedIdentity} (hio : env.io .evidence = some faults)
    (hraw : Store.evidence faults core.db = .ok (some raw)) (he : readEvidence K raw = some e) :
    checkBlock K env verified core =
      if verified.checkedBlock < e.identity.checkedBlock ∨
          (verified.checkedBlock = e.identity.checkedBlock ∧ verified.blockHash ≠ e.identity.blockHash)
      then (.error (.failed (.auth .invalidChainEvidence)), core) else (.ok (), core) := by
  have hquery : query (env.io .evidence) (fun io _ db => Store.evidence io db) core =
      (.ok (some raw), core) := by
    rw [hio]
    exact query_of_ok hraw
  have hread : attempt (okOr ((K.json.parse raw).bind Evidence.ofJson?) .unverified) core =
      (.ok e, core) := by
    rw [show (K.json.parse raw).bind Evidence.ofJson? = some e from he]
    rfl
  rw [checkBlock, bind_of_ok hquery]
  show (attempt _ >>= _) core = _
  rw [bind_of_ok hread]
  by_cases h : verified.checkedBlock < e.identity.checkedBlock ∨
      (verified.checkedBlock = e.identity.checkedBlock ∧ verified.blockHash ≠ e.identity.blockHash)
  · rw [if_pos h]
    exact congrFun (if_neg (not_not_intro h)) core
  · rw [if_neg h]
    exact check_of h

/-- What a periodic check does with a block that is good without evidence. -/
theorem finalizedBlock_eq {C : Farcaster.Crates} {client : AuthClient} {net : Net} {now : Nat}
    {block : Block} {previous : VerifiedIdentity}
    (h : finalizedBlock C client net now none = .ok block) :
    finalizedBlock C client net now (some previous) =
      if block.number < previous.checkedBlock ∨
          (block.number = previous.checkedBlock ∧ eqIgnoreCase block.hash previous.blockHash = false)
      then .error .invalidChainEvidence else .ok block := by
  simp only [finalizedBlock, bind_eq_ok, ensure_eq_ok, pure_eq_ok] at h
  obtain ⟨v, hv, t, ht, n, hn, _, hchain, w, hw, t₁, ht₁, number, hnumber, hash, hhash,
    bytes, hbytes, _, hlength, t₂, ht₂, time, htime, _, hrecent, _, -, rfl⟩ := h
  simp only [finalizedBlock, hv, ht, hn, ok_bind, ensure_of hchain, hw, ht₁, hnumber, hhash, hbytes,
    ensure_of hlength, ht₂, htime, ensure_of hrecent]
  by_cases h : number < previous.checkedBlock ∨
      (number = previous.checkedBlock ∧ eqIgnoreCase hash previous.blockHash = false)
  · rw [if_pos h, ensure_of_not fun hall => hall previous rfl h]
    rfl
  · rw [if_neg h, ensure_of fun p hp => by rwa [← Option.some.inj hp]]
    rfl

/-! ## One rule -/

/-- A sign-in with a block is refused as one that is not evidence. -/
def SignInRefuses (K : Crates) (env : Env) (core : Core) (verified : VerifiedIdentity) : Prop :=
  (checkBlock K env verified core).1 = .error (.failed (.auth .invalidChainEvidence))

/-- A check of an identity on the answers of a provider is refused as no evidence. -/
def RecheckRefuses (K : Crates) (client : AuthClient) (net : Net) (now : Nat)
    (previous : VerifiedIdentity) : Prop :=
  finalizedBlock K.toCrates client net now (some previous) = .error .invalidChainEvidence

/-- On a block and an identity the tests are one rule: a provider whose block passes the check does
not make the sign-in fail. -/
structure OneRule (K : Crates) (env : Env) (core : Core) (client : AuthClient)
    (net : Net) (now : Nat)
    (verified previous : VerifiedIdentity) : Prop where
  same : SignInRefuses K env core verified ↔ RecheckRefuses K client net now previous
  rule : SignInRefuses K env core verified ↔
    Behind ⟨verified.checkedBlock, verified.blockHash⟩ previous
  passes : (∃ block, finalizedBlock K.toCrates client net now (some previous) = .ok block) →
    checkBlock K env verified core = (.ok (), core)

/-- **One rule.** With evidence of an identity stored, and a verified block that a provider says,
the sign-in and the periodic check refuse the same: what is behind, and nothing else, so that a
block that passes the check passes the sign-in. This is so exactly when the hash is not the stored
one in another letter case. -/
theorem oneRule_iff (K : Crates) (env : Env) (core : Core) (faults : Faults) (raw : Bytes)
    (e : Evidence)
    (client : AuthClient) (net : Net) (now : Nat) (verified : VerifiedIdentity)
    (hio : env.io .evidence = some faults) (hraw : Store.evidence faults core.db = .ok (some raw))
    (he : readEvidence K raw = some e) (hstored : IsHash e.identity.blockHash)
    (hblock : finalizedBlock K.toCrates client net now none =
      .ok ⟨verified.checkedBlock, verified.blockHash⟩) :
    OneRule K env core client net now verified e.identity ↔
      ¬Retold ⟨verified.checkedBlock, verified.blockHash⟩ e.identity := by
  obtain ⟨x, -, hfinal, -, heq⟩ := finalizedBlock_eq_ok.mp hblock
  have hnew : IsHash verified.blockHash := by
    rw [show verified.blockHash = x.hash from congrArg Block.hash heq]
    exact hfinal.hash
  have hcase := eqIgnoreCase_iff_of_isHash hnew hstored
  have hsignIn := @checkBlock_eq K env core faults raw e verified hio hraw he
  have hcheck := @finalizedBlock_eq K.toCrates client net now _ e.identity hblock
  have hrefuses : SignInRefuses K env core verified ↔
      verified.checkedBlock < e.identity.checkedBlock ∨
        (verified.checkedBlock = e.identity.checkedBlock ∧
          verified.blockHash ≠ e.identity.blockHash) := by
    rw [SignInRefuses, hsignIn]
    split_ifs with h
    · exact iff_of_true rfl h
    · exact iff_of_false nofun h
  have hrecheck : RecheckRefuses K client net now e.identity ↔
      Behind ⟨verified.checkedBlock, verified.blockHash⟩ e.identity := by
    rw [RecheckRefuses, hcheck, Behind, Ne, ← hcase, Bool.not_eq_true]
    split_ifs with h
    · exact iff_of_true rfl h
    · exact iff_of_false nofun h
  constructor
  · rintro hrule ⟨hnumber, hne, hsame⟩
    rcases hrecheck.mp (hrule.same.mp (hrefuses.mpr (.inr ⟨hnumber, hne⟩))) with hlt | ⟨-, hother⟩
    · exact absurd hnumber hlt.ne
    · exact hother (hcase.mp hsame)
  · intro hnot
    have hrule : SignInRefuses K env core verified ↔
        Behind ⟨verified.checkedBlock, verified.blockHash⟩ e.identity := by
      rw [hrefuses]
      refine or_congr_right (and_congr_right fun hnumber => not_congr ?_)
      constructor
      · intro h
        rw [h]
      · intro h
        by_contra hne
        exact hnot ⟨hnumber, hne, hcase.mpr h⟩
    refine ⟨hrule.trans hrecheck.symm, hrule, fun ⟨block, hpasses⟩ => ?_⟩
    rw [hsignIn, if_neg fun h => ?_]
    have hrefused := hrecheck.mpr (hrule.mp (hrefuses.mpr h))
    rw [RecheckRefuses, hpasses] at hrefused
    cases hrefused

/-! ## A block in two letter cases -/

/-- A provider at block 256 that writes its hash in some way. -/
def sampleWriter (hash : Bytes) : Net := fun i request =>
  match i with
  | 1 => sampleAnswer (.object [(str "hash", .string hash), (str "number", .string (str "0x100")),
      (str "timestamp", .string (str "0x6553f100"))])
  | _ => sampleProvider "0x100" "0x6553f100" 6 i request

def sampleLower : Bytes := hexText (List.replicate 32 0xab)

def sampleUpper : Bytes := str "0x" ++ (List.replicate 32 (str "AB")).flatten

def sampleClient : AuthClient :=
  let url : Url := ⟨str "https", [], none, some (str "rpc.com"), none, str "/", none, none⟩
  ⟨⟨[], [], [], []⟩, url, url⟩

theorem sampleWriter_lower : finalizedBlock sampleNode.toCrates sampleClient
    (sampleWriter sampleLower) 1700000070 none = .ok ⟨256, sampleLower⟩ := by
  decide +kernel

/-- An identity that was checked at the block. -/
def sampleSeen : VerifiedIdentity :=
  ⟨1, [], [], .eoa, .custody, 256, sampleLower, 1700000000⟩

/-- A core with evidence of it. -/
def sampleStored : Core :=
  let raw := encodeEvidence sampleNode ⟨sampleSeen, ⟨[], []⟩⟩
  ⟨sampleSettings, [], { Db.empty with evidence := some raw }, [], [], [], [], none, []⟩

/-- On the block that was stored, as it was stored, the tests are one rule. -/
theorem oneRule_iff_sample : OneRule sampleNode (sampleEnv 1700000070 20 (sampleWriter sampleLower))
    sampleStored sampleClient (sampleWriter sampleLower) 1700000070 sampleSeen sampleSeen := by
  have hread : readEvidence sampleNode (encodeEvidence sampleNode ⟨sampleSeen, ⟨[], []⟩⟩) =
      some ⟨sampleSeen, ⟨[], []⟩⟩ :=
    readEvidence_encodeEvidence Json.compact_lawful ⟨by decide, by decide, by decide⟩
  have hhash : IsHash sampleLower := ⟨List.replicate 32 0xab, by decide +kernel, by decide⟩
  refine (oneRule_iff sampleNode _ sampleStored noFaults _ ⟨sampleSeen, ⟨[], []⟩⟩ sampleClient _
    1700000070 sampleSeen rfl (by decide +kernel) hread hhash sampleWriter_lower).mpr ?_
  rintro ⟨-, hne, -⟩
  exact hne rfl

/-- Two sign-ins are started, and one is completed. A minute later the account is checked with a
provider that writes the hash of the same block in capitals. -/
def sampleRetold : List Event :=
  let env := sampleEnv 1700000000 2 (sampleWriter sampleLower)
  [sampleOpen, .action .start env, .action .start (sampleEnv 1700000000 20 fun _ _ => .failed),
    .action (.poll (sampleId 3) (sampleId 4)) env,
    .action (.passwords (randomToken (sampleRandom 2 .account)))
      (sampleEnv 1700000060 2 (sampleWriter sampleUpper))]

/-- The other sign-in is completed with the provider of the first one. -/
def sampleAgain : Env := sampleEnv 1700000070 20 (sampleWriter sampleLower)

theorem sampleRetold_runs :
    (match (nodes sampleNode).final .init sampleRetold with
      | .running core => match core.db.evidence, (executeNode sampleNode core
            (.poll (sampleId 21) (sampleId 22)) sampleAgain).2 with
        | some raw, .failed failure => decide (raw.length ≤ 32 * 1024 ∧
            failure = .auth .invalidChainEvidence) && (readEvidence sampleNode raw).any fun e =>
              e.identity.checkedBlock = 256 && e.identity.blockHash = sampleUpper
        | _, _ => false
      | .stopped _ _ => false) = true := by
  decide +kernel

/-- The provider's block passes the periodic check, and the sign-in with it is refused. -/
theorem retold_fails : ∃ (core : Core) (e : Evidence) (verified : VerifiedIdentity),
    (nodes sampleNode).final .init sampleRetold = .running core ∧
    core.db.evidence.bind (readEvidence sampleNode) = some e ∧
    finalizedBlock sampleNode.toCrates sampleClient (sampleWriter sampleLower) 1700000070
      (some e.identity) = .ok ⟨verified.checkedBlock, verified.blockHash⟩ ∧
    (executeNode sampleNode core (.poll (sampleId 21) (sampleId 22)) sampleAgain).2 =
      .failed (.auth .invalidChainEvidence) ∧
    ¬OneRule sampleNode sampleAgain core sampleClient (sampleWriter sampleLower) 1700000070 verified
      e.identity := by
  have hruns := sampleRetold_runs
  match hrun : (nodes sampleNode).final .init sampleRetold with
  | .stopped db history =>
      rw [hrun] at hruns
      cases hruns
  | .running core =>
      simp only [hrun] at hruns
      match hevidence : core.db.evidence, hreply : (executeNode sampleNode core
          (.poll (sampleId 21) (sampleId 22)) sampleAgain).2 with
      | none, _ => simp only [hevidence, Bool.false_eq_true] at hruns
      | some raw, .failed failure =>
          simp only [hevidence, hreply, Bool.and_eq_true, decide_eq_true_eq,
            Option.any_eq_true] at hruns
          obtain ⟨⟨hlength, rfl⟩, e, he, hnumber, hhash⟩ := hruns
          have hcase : eqIgnoreCase sampleLower sampleUpper = true := by decide +kernel
          have hne : sampleLower ≠ sampleUpper := by decide +kernel
          have hpasses : finalizedBlock sampleNode.toCrates sampleClient (sampleWriter sampleLower)
              1700000070 (some e.identity) = .ok ⟨256, sampleLower⟩ := by
            rw [finalizedBlock_eq sampleWriter_lower, if_neg]
            rw [hnumber, hhash, hcase]
            simp
          have hraw : Store.evidence noFaults core.db = .ok (some raw) := by
            rw [← hevidence]
            refine bind_eq_ok.mpr ⟨(), rfl, bind_eq_ok.mpr ⟨(), ensure_eq_ok.mpr ?_, rfl⟩⟩
            rintro _ h
            rw [hevidence] at h
            rwa [← Option.some.inj h]
          refine ⟨core, e, { e.identity with checkedBlock := 256, blockHash := sampleLower }, rfl,
            by rw [hevidence]; exact he, hpasses, hreply, fun h => ?_⟩
          have hrule := h.passes ⟨_, hpasses⟩
          rw [checkBlock_eq rfl hraw he, if_pos (.inr ⟨hnumber.symm, by rw [hhash]; exact hne⟩)] at hrule
          cases hrule
      | some _, .idle | some _, .opened | some _, .refused | some _, .configured | some _, .ok _
      | some _, .stopped => simp only [hevidence, hreply, Bool.false_eq_true] at hruns

end PurpleSky.Node
