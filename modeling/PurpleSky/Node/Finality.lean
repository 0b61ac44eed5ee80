import PurpleSky.Farcaster.Texts
import PurpleSky.Node.Consent
import PurpleSky.Node.Gating

/-!
# Finalized blocks

Evidence is not replaced by evidence of an older block. An invalidation deletes it, and with it what
the next sign-in would be compared with: that sign-in may be at an older block than the deleted
evidence (`goes_back`). What holds is told by the history, which says what was stored and
invalidated.

* `Forward`: whatever was stored is not behind what was stored since the invalidation before it.
* **`forward_final`**: this holds in every run, and a Poll is not behind what it finds.
-/

namespace PurpleSky.Node

open Bytes Credentials Farcaster PurpleSky.Procedure

variable {K : Crates}

/-! ## The order of blocks -/

/-- An identity was not checked at an older block than another one, and at the same height it was
checked at the same block. -/
def Precedes (i j : VerifiedIdentity) : Prop :=
  i.checkedBlock ≤ j.checkedBlock ∧ (i.checkedBlock = j.checkedBlock →
    ∃ hash, decodeHex i.blockHash = .ok hash ∧ decodeHex j.blockHash = .ok hash)

theorem Precedes.trans {i j k : VerifiedIdentity} (h : Precedes i j) (h' : Precedes j k) :
    Precedes i k := by
  obtain ⟨hle, hsame⟩ := h
  obtain ⟨hle', hsame'⟩ := h'
  refine ⟨hle.trans hle', fun heq => ?_⟩
  obtain ⟨hash, hi, hj⟩ := hsame (by omega)
  obtain ⟨hash', hj', hk⟩ := hsame' (by omega)
  obtain rfl := Except.ok.inj (hj.symm.trans hj')
  exact ⟨hash, hi, hk⟩

/-- A block that was returned has a hash. -/
theorem hash_of_returned {proof : SignedProof} {identity : VerifiedIdentity}
    (h : Returned K.toCrates proof identity) : ∃ hash, decodeHex identity.blockHash = .ok hash := by
  obtain ⟨parsed, domain, uri, now, x, -, hauth⟩ := h.authorised
  obtain ⟨hash, hhash, -⟩ := hauth.final.hash
  exact ⟨hash, hauth.blockHash ▸ hhash⟩

theorem precedes_refl {proof : SignedProof} {identity : VerifiedIdentity}
    (h : Returned K.toCrates proof identity) : Precedes identity identity := by
  obtain ⟨hash, hhash⟩ := hash_of_returned h
  exact ⟨le_refl _, fun _ => ⟨hash, hhash, hhash⟩⟩

/-- A recheck is not at an older block. -/
theorem precedes_of_recheckIdentity {client : AuthClient} {net : Net}
    {previous identity : VerifiedIdentity}
    {proof : SignedProof} {now : Nat} (hprevious : Returned K.toCrates proof previous)
    (h : recheckIdentity K.toCrates client net previous proof now = .ok identity) :
    Precedes previous identity := by
  obtain ⟨parsed, hparse, -, -, hverify⟩ := parseAuthority_of_recheckIdentity h
  obtain ⟨x, -, hauth, hexpected⟩ :=
    (verifyAuthority_eq_ok (fid_lt_of_parseAuthority hparse)).mp hverify
  obtain ⟨⟨hle, hsame⟩, -⟩ := hexpected previous rfl
  rw [← hauth.checkedBlock] at hle hsame
  rw [← hauth.blockHash] at hsame
  refine ⟨hle, fun heq => ?_⟩
  obtain ⟨hash, hhash⟩ := hash_of_returned hprevious
  obtain ⟨hash', hhash'⟩ := hash_of_returned (.recheckIdentity h)
  obtain rfl := (eqIgnoreCase_iff_decodeHex hhash' hhash).mp (hsame heq.symm)
  exact ⟨hash', hhash, hhash'⟩

/-- A sign-in is not at an older block than the evidence that is there. -/
theorem precedes_of_supersedes {proof : SignedProof} {verified : VerifiedIdentity} {db : Db}
    {raw : Bytes}
    {e : Evidence} (h : Supersedes K verified db) (hreturned : Returned K.toCrates proof verified)
    (hraw : db.evidence = some raw) (hread : readEvidence K raw = some e) :
    Precedes e.identity verified := by
  obtain ⟨e', hread', hnewer⟩ := h raw hraw
  obtain rfl := Option.some.inj (hread'.symm.trans hread)
  obtain ⟨hold, hsame⟩ := not_or.mp hnewer
  refine ⟨not_lt.mp hold, fun heq => ?_⟩
  obtain ⟨hash, hhash⟩ := hash_of_returned hreturned
  have htext : verified.blockHash = e'.identity.blockHash := by
    by_contra hne
    exact hsame ⟨heq.symm, hne⟩
  exact ⟨hash, htext ▸ hhash, hhash⟩

/-! ## The history -/

/-- The identities that were stored since the last invalidation. -/
def recent : List Deed → List VerifiedIdentity
  | [] => []
  | .stored identity :: older => identity :: recent older
  | .invalidated :: _ => []
  | .verified _ _ :: older => recent older
  | .invalidating :: older => recent older

/-- Whatever was stored is not behind what was stored since the invalidation before it. -/
def Forward (history : List Deed) : Prop :=
  ∀ newer identity older, history = newer ++ .stored identity :: older →
    ∀ earlier ∈ recent older, Precedes earlier identity

/-- The history is forward, and the evidence is what was stored last, unless it was invalidated
since. -/
structure Advanced (K : Crates) (db : Db) (history : List Deed) : Prop where
  sound : Sound K db
  forward : Forward history
  evidence : ∀ earlier ∈ recent history, ∃ raw e, db.evidence = some raw ∧
    readEvidence K raw = some e ∧ Precedes earlier e.identity
  logged : ∀ raw e, db.evidence = some raw → readEvidence K raw = some e →
    (recent history).head? = some e.identity

theorem forward_cons {deed : Deed} {history : List Deed} (h : Forward history)
    (hdeed : ∀ identity, deed = .stored identity → ∀ earlier ∈ recent history,
      Precedes earlier identity) : Forward (deed :: history) := by
  intro newer identity older heq
  rcases List.cons_eq_append_iff.mp heq with ⟨-, hfirst⟩ | ⟨newer', -, hrest⟩
  · obtain ⟨rfl, rfl⟩ := List.cons.inj hfirst
    exact hdeed identity rfl
  · exact h newer' identity older hrest

/-- A deed that stores nothing. -/
theorem forward_cons_of_ne {deed : Deed} {history : List Deed} (h : Forward history)
    (hdeed : ∀ identity, deed ≠ .stored identity) : Forward (deed :: history) :=
  forward_cons h fun identity heq => absurd heq (hdeed identity)

/-- Evidence that is stored after what it does not precede. -/
theorem Advanced.stored (hK : K.json.Lawful) {db db' : Db} {history : List Deed}
    {identity : VerifiedIdentity}
    {proof : SignedProof} {time : Nat} (h : Advanced K db history) (hsound : Sound K db')
    (hrange : identity.InRange) (hreturned : Returned K.toCrates proof identity)
    (hevidence : db'.evidence = some (encodeEvidence K ⟨identity, proof⟩))
    (hprecedes : ∀ raw e, db.evidence = some raw → readEvidence K raw = some e →
      Precedes e.identity identity) :
    Advanced K db' (.verified identity time :: .stored identity :: history) := by
  have hearlier : ∀ earlier ∈ recent history, Precedes earlier identity := by
    intro earlier hmem
    obtain ⟨raw, e, hraw, hread, hbefore⟩ := h.evidence earlier hmem
    exact hbefore.trans (hprecedes raw e hraw hread)
  have hread := readEvidence_encodeEvidence hK (e := ⟨identity, proof⟩) hrange
  refine ⟨hsound, ?_, fun earlier hmem => ?_, fun raw e hraw hread' => ?_⟩
  · refine forward_cons_of_ne (forward_cons h.forward fun identity' heq => ?_) fun _ => Deed.noConfusion
    obtain rfl := Deed.stored.inj heq
    exact hearlier
  · refine ⟨_, ⟨identity, proof⟩, hevidence, hread, ?_⟩
    rcases List.mem_cons.mp hmem with rfl | hmem
    · exact precedes_refl hreturned
    · exact hearlier earlier hmem
  · obtain rfl := Option.some.inj (hevidence.symm.trans hraw)
    obtain rfl := Option.some.inj (hread.symm.trans hread')
    rfl

/-- Without a change to the evidence and the history. -/
theorem Advanced.of_frame {db db' : Db} {history : List Deed} (h : Advanced K db history)
    (hsound : Sound K db') (hevidence : db'.evidence = db.evidence) : Advanced K db' history := by
  refine ⟨hsound, h.forward, ?_, ?_⟩
  · rw [hevidence]
    exact h.evidence
  · rw [hevidence]
    exact h.logged

theorem Advanced.move (hK : K.json.Lawful) {s s' : Core} (hmove : Move K s s')
    (h : Advanced K s.db s.history) : Advanced K s'.db s'.history := by
  have hsound : Sound K s'.db := h.sound.move hK hmove
  cases hmove with
  | memory pending grants startTimes passwordTimes checkedAt fewer checked => exact h
  | invalidating =>
      exact ⟨hsound, forward_cons_of_ne h.forward fun _ => Deed.noConfusion, h.evidence, h.logged⟩
  | invalidated io db call =>
      obtain ⟨-, -, hevidence, -⟩ := Store.invalidateAuthority_eq_ok call
      refine ⟨hsound, forward_cons_of_ne h.forward fun _ => Deed.noConfusion,
        fun earlier hmem => absurd hmem List.not_mem_nil, fun raw e hraw _ => ?_⟩
      rw [hevidence] at hraw
      cases hraw
  | bound io fid authority identity now random a db call =>
      obtain ⟨⟨key, rfl⟩, -⟩ := Store.bindVerified_eq_ok call
      exact h.of_frame hsound rfl
  | rechecked io client net e raw identity now db evidence read returned call =>
      obtain ⟨-, -, -, rfl⟩ := Store.setEvidence_eq_ok call
      obtain ⟨-, -, hrange⟩ := same_of_recheckIdentity returned
      refine h.stored hK hsound hrange (.recheckIdentity returned) rfl fun raw' e' hraw' hread' => ?_
      obtain rfl := Option.some.inj (evidence.symm.trans hraw')
      obtain rfl := Option.some.inj (read.symm.trans hread')
      obtain ⟨e', a, repoKey, he⟩ := h.sound.evident raw evidence
      obtain rfl := Option.some.inj ((he.read hK).symm.trans read)
      exact precedes_of_recheckIdentity he.returned returned
  | completed io client net challenge verified proof now checked a repoKey pending grants db returned
      account createdAt enabled fid authority newer call =>
      obtain ⟨-, -, -, rfl⟩ := Store.setEvidence_eq_ok call
      exact h.stored hK hsound (inRange_of_verify returned) (.verify returned) rfl
        fun raw e hraw hread => precedes_of_supersedes newer (.verify returned) hraw hread
  | credentials db account evidence passwords => exact h.of_frame hsound evidence

theorem apply_history (core : Core) (settings : Settings) :
    (core.apply settings).history = core.history := by
  unfold Core.apply
  split_ifs <;> rfl

theorem kept_advanced (hK : K.json.Lawful) :
    Kept K (Advanced K) fun core => Advanced K core.db core.history where
  init := ⟨.of_none (.inl rfl) rfl, fun newer identity older heq => by simp at heq,
    fun _ hmem => absurd hmem List.not_mem_nil, fun raw e hraw => by cases hraw⟩
  key hopen h := by
    obtain ⟨-, -, -, -, -, hevidence⟩ := Store.openKey_eq_ok hopen
    exact h.of_frame (h.sound.openKey hopen) hevidence
  opened _ _ h := h
  move hmove h := h.move hK hmove
  configured settings h := by
    rw [apply_db, apply_history]
    exact h
  stopped h := h

/-! ## Runs -/

theorem advanced_final (hK : K.json.Lawful) (es : List Event) :
    Advanced K ((nodes K).final .init es).db ((nodes K).final .init es).history := by
  have h := (kept_advanced hK).final es
  revert h
  cases (nodes K).final .init es with
  | stopped db history => exact id
  | running core => exact id

/-- A Poll that completes a request stores evidence, which is not behind what it finds. -/
theorem precedes_of_issued (hK : K.json.Lawful) {p : Process} {event : Event} {id raw : Bytes}
    {e : Evidence} (hissued : (issued id ((nodes K).entry p event)).isSome = true)
    (hraw : p.db.evidence = some raw) (hread : readEvidence K raw = some e) :
    ∃ raw' e', ((nodes K).step p event).1.db.evidence = some raw' ∧ readEvidence K raw' = some e' ∧
      Precedes e.identity e'.identity := by
  obtain ⟨core, core', env, token, login, proof, verified, rfl, rfl, hstep, consent, newer,
    -, hstored⟩ :=
    completed_of_issued hissued
  obtain ⟨client, net, -, -, hverify⟩ := consent.accepted
  rw [hstep]
  exact ⟨_, ⟨verified, proof⟩, hstored, readEvidence_encodeEvidence hK (inRange_of_verify hverify),
    precedes_of_supersedes newer (.verify hverify) hraw hread⟩

/-- **Evidence does not go back before an invalidation.** In every run of a node: whatever evidence
was stored is not of an older block than what was stored since the invalidation before it, nor of
another block of the same height; the stored evidence is what was stored last; and what a Poll
stores is not behind the evidence it finds, where it invalidates another authority, too. -/
theorem forward_final {K : Crates} (hK : K.json.Lawful) (es : List Event) :
    Forward ((nodes K).final .init es).history ∧
    (∀ raw e, ((nodes K).final .init es).db.evidence = some raw → readEvidence K raw = some e →
      (recent ((nodes K).final .init es).history).head? = some e.identity) ∧
    (∀ x ∈ entries K es, ∀ id raw e, (issued id x).isSome = true → x.before.db.evidence = some raw →
      readEvidence K raw = some e → ∃ raw' e', x.after.db.evidence = some raw' ∧
        readEvidence K raw' = some e' ∧ Precedes e.identity e'.identity) := by
  have h := advanced_final hK es
  refine ⟨h.forward, h.logged, fun x hx id raw e hissued hraw hread => ?_⟩
  rw [Machine.eq_entry_of_mem_trace hx] at hissued ⊢
  exact precedes_of_issued hK hissued hraw hread

/-- The sample sign-in, and a check a minute later that finds the next block. -/
def sampleForward : List Event :=
  sampleSignIn ++
    [.action sampleListing (sampleEnv 1700000060 2 (sampleProvider "0x101" "0x6553f100" 6))]

/-- The height of evidence that was stored. -/
def Deed.height : Deed → Option Nat
  | .stored identity => some identity.checkedBlock
  | _ => none

theorem sampleForward_runs :
    ((nodes sampleNode).final .init sampleForward).history.filterMap Deed.height = [257, 256] := by
  decide +kernel

/-- The evidence of the sign-in and that of the check are stored one after the other, and the second
one is not behind the first. -/
theorem forward_final_sample :
    let history := ((nodes sampleNode).final .init sampleForward).history
    history.filterMap Deed.height = [257, 256] ∧ Forward history :=
  ⟨sampleForward_runs, (forward_final (K := sampleNode) Json.compact_lawful sampleForward).1⟩

/-! ## After an invalidation -/

/-- Two sign-ins are started. The first is completed at block 256, then the provider says that the
identifier has another custody, and the second sign-in is completed at block 128. -/
def sampleBack : List Event :=
  let first := sampleEnv 1700000000 2 (sampleProvider "0x100" "0x6553f100" 6)
  let second := sampleEnv 1700000000 20 fun _ _ => .failed
  [sampleOpen, .action .start first, .action .start second,
    .action (.poll (sampleId 3) (sampleId 4)) first,
    .action sampleListing (sampleEnv 1700000060 2 (sampleProvider "0x100" "0x6553f100" 8)),
    .action (.poll (sampleId 21) (sampleId 22))
      (sampleEnv 1700000070 20 (sampleProvider "0x80" "0x6553f100" 6))]

/-- Evidence of an older block is stored, on an account that is enabled again. -/
theorem goes_back :
    ((nodes sampleNode).final .init sampleBack).history.filterMap Deed.height = [128, 256] ∧
    (match Store.account sampleNode.credentials noFaults ((nodes sampleNode).final .init sampleBack).db with
      | .ok account => account.any fun a => a.enabled
      | .error _ => false) = true := by
  decide +kernel

end PurpleSky.Node
