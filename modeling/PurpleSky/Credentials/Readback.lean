import PurpleSky.Credentials.Bearer
import PurpleSky.Credentials.Binding

/-!
# What is written and what can be read

`load_account` refuses documents of more than 8192 bytes. The calls that write one do not look at
its length, while `set_evidence` does for its own.

* **`length_encodeAccount`**: the length of a genuine account's document, by the values it is made
  of.
* **`readable_iff`**: a store reads back and opens again in every state of a run exactly when every
  document that the run wrote fits.
-/

namespace PurpleSky.Credentials

open Bytes Store

/-! ## The length of a document -/

/-- Letters and digits need no escapes. -/
theorem length_quote_of_isAlnum {s : Bytes} (h : ∀ b ∈ s, isAlnum b = true) :
    (Json.quote s).length = s.length + 2 := by
  have hplain : ∀ b : UInt8, isAlnum b = true → Json.escapeByte b = [b] := by decide +kernel
  exact Json.length_quote fun b hb => hplain b (h b hb)

/-- A revision is of letters and digits, which JSON does not escape. -/
theorem isAlnum_of_mem_revision {n : Nat} {b : UInt8} (hb : b ∈ revision n) : isAlnum b = true := by
  have hsymbol : ∀ i < 32, isAlnum ((str "234567abcdefghijklmnopqrstuvwxyz").getD i 50) = true := by
    decide +kernel
  obtain ⟨i, -, rfl⟩ := List.mem_map.mp hb
  exact hsymbol _ (Nat.mod_lt _ (by decide))

/-- A revision has thirteen of them. -/
theorem length_revision (n : Nat) : (revision n).length = 13 := by simp [revision]

/-- The text of an identifier is of letters and digits, too. -/
theorem isAlnum_of_mem_text {c : Cid} {b : UInt8} (hb : b ∈ c.text) : isAlnum b = true := by
  have hsymbol : ∀ n < 32, isAlnum (Base32.symbol n) = true := by decide +kernel
  rcases List.mem_cons.mp hb with rfl | hb
  · decide
  · obtain ⟨n, hn, rfl⟩ := List.mem_map.mp hb
    exact hsymbol n (Base32.groups_lt _ n hn)

/-- The identifier of a block has a text of fifty-nine. -/
theorem length_text_cidFor (H : Sha256) (bytes : Bytes) :
    (Repo.cidFor H bytes).text.length = 59 := by
  have hbytes : (Repo.cidFor H bytes).toBytes.length = 36 := by
    have hone : (Leb128.encode 1).length = 1 := by decide +kernel
    have hcodec : (Leb128.encode (0x71 : UInt64).toNat).length = 1 := by decide +kernel
    have hcode : (Leb128.encode (0x12 : UInt64).toNat).length = 1 := by decide +kernel
    have hsize : (Leb128.encode 32).length = 1 := by decide +kernel
    simp only [Repo.cidFor, Cid.newV1, Cid.toBytes, Multihash.toBytes, List.length_append,
      H.length_digest, hone, hcodec, hcode, hsize]
  rw [Cid.text, List.length_cons, Base32.length_encode, hbytes]

/-- The length of the document of an account with these values. The field names, the punctuation,
the revision and the root of the repository are always as long. -/
def documentSize (fid createdAt : Nat) (authority : Bytes) (identity : Identity) (enabled : Bool)
    (publicKey : Bytes) : Nat :=
  235 + (decimal fid).length + (decimal createdAt).length + (Json.quote authority).length +
    (Json.quote identity.handle).length + (Json.quote identity.did).length +
    (Json.quote identity.serviceUrl).length + (Json.quote identity.serviceDid).length +
    (if enabled then 4 else 5) + (Json.quote publicKey).length

variable {C : Crates} {db db' : Db} {a : Account} {key : Bytes}

/-- So that of a genuine account has a known length with its quotes. -/
theorem Genuine.length_repoCid (h : Genuine C a key) : (Json.quote a.repoCid).length = 61 := by
  obtain ⟨signer, repo, -, hbuild, hroot, -⟩ := h.repo
  obtain ⟨bytes, hbytes⟩ := Repo.root_of_build hbuild
  rw [← hroot, length_quote_of_isAlnum fun b hb => isAlnum_of_mem_text hb, hbytes,
    length_text_cidFor]

/-- The document of a genuine account is as long as the formula says. -/
theorem Genuine.length_encodeAccount (h : Genuine C a key) :
    (encodeAccount C a).length =
      documentSize a.fid a.createdAt a.authority a.identity a.enabled a.publicKeyMultibase := by
  have hint : ∀ n : Nat, Json.renderInt n = decimal n := fun n => by simp [Json.renderInt]
  have hbool : (if a.enabled = true then str "true" else str "false").length =
      if a.enabled = true then 4 else 5 := by
    cases a.enabled <;> decide
  have hrevision : (Json.quote a.repoRevision).length = 15 := by
    rw [h.revision, length_quote_of_isAlnum fun b hb => isAlnum_of_mem_revision hb, length_revision]
  have hnames : [str "fid", str "authority", str "identity", str "handle", str "did",
      str "service_url", str "service_did", str "enabled", str "created_at",
      str "public_key_multibase", str "repo_revision", str "repo_cid"].map
        (fun s => (Json.quote s).length) = [5, 11, 10, 8, 5, 13, 13, 9, 12, 22, 15, 10] := by
    decide +kernel
  simp only [List.map_cons, List.map_nil, List.cons.injEq, and_true] at hnames
  obtain ⟨h₁, h₂, h₃, h₄, h₅, h₆, h₇, h₈, h₉, h₁₀, h₁₁, h₁₂⟩ := hnames
  simp only [encodeAccount, JsonText.render, Account.toJson, Identity.toJson, Json.record,
    Account.names, Identity.names, List.zip_cons_cons, List.zip_nil_right, Json.render,
    Json.renderFields, List.intercalate_cons_cons, List.intercalate_singleton, List.length_cons,
    List.length_append, List.length_nil, hint, hbool, hrevision, h.length_repoCid, documentSize,
    h₁, h₂, h₃, h₄, h₅, h₆, h₇, h₈, h₉, h₁₀, h₁₁, h₁₂]
  omega

/-! ## Reading back -/

/-- The account row is one that `load_account` reads. -/
def Short (db : Db) : Prop := ∀ row ∈ db.account, row.document.length ≤ 8192

/-- A store reads back: the account and the evidence can be read, and opening the directory again
gives the key there is, or makes one, and leaves everything else as it is. -/
structure Readable (C : Crates) (db : Db) : Prop where
  account : Store.account C noFaults db = .ok (db.account.bind fun row => row.account? C)
  bound : ∀ row ∈ db.account, ∃ a, row.account? C = some a
  evidence : Store.evidence noFaults db = .ok db.evidence
  reopen : ∀ random, Store.openStore C noFaults db random =
    .ok (db.jwtKey.getD random, { db with jwtKey := some (db.jwtKey.getD random) })

/-- A store with a genuine account, whose document is short, passes what is checked at an opening. -/
theorem openCheck_eq_ok (hC : C.json.Lawful) (hdb : Stored C db) (hshort : Short db) :
    openCheck C noFaults db = .ok () := by
  unfold openCheck
  rcases hdb with hnone | ⟨a, key, hb⟩
  · have hload : Store.account C noFaults db = .ok none := by
      rw [Store.account, loadAccount, hnone]
      rfl
    rw [hload]
    rfl
  · have hload : Store.account C noFaults db = .ok (some a) :=
      hb.loadAccount hC rfl (hshort _ hb.row)
    obtain ⟨signer, repo, hsigner, hbuild, hroot, -⟩ := hb.genuine.repo
    have hrepo : Store.repository C noFaults db = .ok repo := by
      simp only [Store.repository, bind_eq_ok, okOr_eq_ok, ensure_eq_ok]
      refine ⟨_, hload, a, rfl, _, hb.row, (), hb.genuine.key_length, signer, hsigner, ?_⟩
      rw [hbuild]
      rfl
    refine bind_eq_ok.mpr ⟨_, hload, ?_⟩
    simp only [hb.genuine.identity]
    refine bind_eq_ok.mpr ⟨(), ensure_eq_ok.mpr ?_, ?_⟩
    · exact ⟨hb.genuine.fid_ne, hb.genuine.authority⟩
    · exact bind_eq_ok.mpr ⟨repo, hrepo, ensure_eq_ok.mpr hroot⟩

/-- The key is kept where there is one, and is the random one where there is none. -/
theorem openKey_eq (hkey : ∀ k ∈ db.jwtKey, k.length = 32) (random : Bytes) :
    openKey noFaults db random =
      .ok (db.jwtKey.getD random, { db with jwtKey := some (db.jwtKey.getD random) }) := by
  unfold openKey
  cases h : db.jwtKey with
  | none => rfl
  | some k =>
      have hlen : ensure (k.length = 32) Error.persistence = .ok () := ensure_eq_ok.mpr (hkey k h)
      have hsame : db = { db with jwtKey := some k } := by
        rw [← h]
      show (ensure (k.length = 32) Error.persistence >>= fun _ => _) = _
      rw [hlen, Option.getD_some, ← hsame]
      rfl

/-- What holds in every run: the key of the store has 32 bytes, and so long evidence was never
written that it could not be read. -/
structure Intact (C : Crates) (w : World) : Prop extends Standing C w where
  keyLength : ∀ k ∈ w.db.jwtKey, k.length = 32
  evidence : ∀ d ∈ w.db.evidence, d.length ≤ 32 * 1024
  checked : ∀ i key d, w.handles i = some ⟨key, some (.evidence d)⟩ → d.length ≤ 32 * 1024

/-- An empty database is intact. -/
theorem intact_init (C : Crates) : Intact C World.init where
  toStanding := standing_init C
  keyLength := by simp [World.init, Db.empty]
  evidence := by simp [World.init, Db.empty]
  checked := by simp [World.init]

/-- A store reads back when the document of its account is not too long. -/
theorem Intact.reads_iff (hC : C.json.Lawful) {w : World} (hw : Intact C w) :
    Readable C w.db ↔ Short w.db := by
  constructor
  · intro h row hrow
    obtain ⟨a, ha⟩ := h.bound row hrow
    have haccount := h.account
    rw [hrow, Option.bind_some, ha] at haccount
    obtain ⟨row', hrow', hlen, -⟩ := loadAccount_eq_ok haccount
    obtain rfl := Option.some.inj (hrow'.symm.trans hrow)
    exact hlen
  · intro hshort
    refine ⟨?_, fun row hrow => ?_, ?_, fun random => ?_⟩
    · rcases hw.stored with hnone | ⟨a, key, hb⟩
      · rw [Store.account, loadAccount, hnone]
        rfl
      · rw [Store.account, hb.loadAccount hC rfl (hshort _ hb.row), hb.row, Option.bind_some,
          hb.genuine.account? hC]
    · rcases hw.stored with hnone | ⟨a, key, hb⟩
      · rw [hnone] at hrow
        cases hrow
      · obtain rfl := Option.some.inj (hb.row.symm.trans hrow)
        exact ⟨a, hb.genuine.account? hC⟩
    · exact bind_eq_ok.mpr ⟨(), rfl, bind_eq_ok.mpr ⟨(), ensure_eq_ok.mpr hw.evidence, rfl⟩⟩
    · have hcheck : openCheck C noFaults
          { w.db with jwtKey := some (w.db.jwtKey.getD random) } = .ok () :=
        openCheck_eq_ok hC (hw.stored.of_account_eq rfl) hshort
      rw [openStore, openKey_eq hw.keyLength]
      show (openCheck C noFaults _ >>= fun _ => _) = _
      rw [hcheck]
      rfl

/-! ## Runs -/

/-- Every call keeps what was written readable. -/
theorem keeps_intact (hC : C.json.Lawful) : (stores C).Keeps Typed (Intact C) (Intact C) := by
  intro w e hw he _
  have hstanding := keeps_standing hC w e hw.toStanding he hw.toStanding
  generalize hstep : w.step C e = p
  obtain ⟨w', reply⟩ := p
  have hafter : ((stores C).step w e).1 = w' := congrArg Prod.fst hstep
  rw [hafter] at hstanding ⊢
  have hchecked : ∀ i key d, w'.handles i = some ⟨key, some (.evidence d)⟩ →
      d.length ≤ 32 * 1024 := by
    intro i key d ho
    rcases handle_of_step hstep ho with ho | ho | ⟨ho, -⟩ | ⟨io, c, key', out, rfl, -, hrun, ho⟩
    · exact hw.checked i key d ho
    · cases ho
    · cases ho
    · obtain ⟨rfl, hout⟩ := Handle.mk.inj ho
      have hcheck := ((evidence_of_run hrun).2 d hout.symm).1
      simp only [checkEvidence, bind_eq_ok, ensure_eq_ok] at hcheck
      obtain ⟨_, ⟨-, hlength⟩, -⟩ := hcheck
      exact hlength
  rcases step_moves hstep with hdb | ⟨i, io, random, key, rfl, hopen⟩ |
    ⟨i, io, c, key, o, rfl, -, hrun, rfl, hdb⟩ | ⟨i, io, now, key, document, -, hhandle, hdb⟩
  · exact ⟨hstanding, hdb ▸ hw.keyLength, hdb ▸ hw.evidence, hchecked⟩
  · refine ⟨hstanding, fun k hk => ?_, fun d hd => ?_, hchecked⟩
    · unfold openKey at hopen
      simp only [Typed, Event.wellTyped, beq_iff_eq] at he
      obtain ⟨_, -, hopen⟩ := bind_eq_ok.mp hopen
      obtain ⟨_, -, hopen⟩ := bind_eq_ok.mp hopen
      cases hold : w.db.jwtKey with
      | none =>
          rw [hold] at hopen
          simp only [bind_eq_ok, pure_eq_ok, Prod.mk.injEq] at hopen
          obtain ⟨_, -, _, -, -, hdb⟩ := hopen
          rw [← hdb] at hk
          obtain rfl := Option.some.inj hk
          exact he
      | some j =>
          rw [hold] at hopen
          simp only [bind_eq_ok, pure_eq_ok, Prod.mk.injEq] at hopen
          obtain ⟨_, -, _, -, -, hdb⟩ := hopen
          rw [← hdb] at hk
          exact hw.keyLength k hk
    · rw [(openKey_eq_ok hopen).2.2.2.2.2] at hd
      exact hw.evidence d hd
  · refine ⟨hstanding, ?_, fun d hd => ?_, hchecked⟩
    · rw [hdb, (Call.run_sessions hrun).1]
      exact hw.keyLength
    · rw [hdb] at hd
      exact hw.evidence d ((evidence_of_run hrun).1 d hd)
  · refine ⟨hstanding, ?_, fun d hd => ?_, hchecked⟩
    · rw [hdb]
      exact hw.keyLength
    · rw [hdb] at hd
      obtain rfl := Option.some.inj hd
      exact hw.checked i key _ hhandle

/-- The public key of an account that is bound with these random bytes. -/
def publicKeyOf (C : Crates) (random : Bytes) : Bytes :=
  match C.signingKey random with
  | some signer => 122 :: C.base58 (0xe7 :: 0x01 :: Repo.publicKeySec1 C.ecdsa signer)
  | none => []

/-- The document that a successful step writes for the account fits. Binding again and invalidating
keep the values of the account that is there. -/
def Fits (C : Crates) : Step → Bool
  | ⟨w, .call _ _ (.bindVerified fid authority identity now random), .bound _, _⟩ =>
      match w.db.account.bind fun row => row.account? C with
      | some a =>
          documentSize a.fid a.createdAt authority a.identity true a.publicKeyMultibase ≤ 8192
      | none => documentSize fid now authority identity true (publicKeyOf C random) ≤ 8192
  | ⟨w, .call _ _ .invalidateAuthority, .done, _⟩ =>
      (w.db.account.bind fun row => row.account? C).all fun a =>
        documentSize a.fid a.createdAt a.authority a.identity false a.publicKeyMultibase ≤ 8192
  | _ => true

/-- The document of a bound account is short exactly when its size is within the limit. -/
theorem Bound.short_iff (h : Bound C db a key) : Short db ↔
    documentSize a.fid a.createdAt a.authority a.identity a.enabled a.publicKeyMultibase ≤ 8192 := by
  rw [← h.genuine.length_encodeAccount, Short, h.row]
  simp

/-- A call that writes no account fits. -/
theorem fits_of_quiet {w w' : World} {i : Nat} {io : Faults} {c : Call} {reply : Reply}
    (hc : c.rewrites = false) : Fits C ⟨w, .call i io c, reply, w'⟩ = true := by
  cases c with
  | bindVerified fid authority identity now random => cases hc
  | invalidateAuthority => cases hc
  | _ => rfl

/-- So does a call that failed. -/
theorem fits_of_failed {w w' : World} {i : Nat} {io : Faults} {c : Call} {e : Error} :
    Fits C ⟨w, .call i io c, .failed e, w'⟩ = true := by cases c <;> rfl

/-- So does one that did not happen. -/
theorem fits_of_idle {w w' : World} {i : Nat} {io : Faults} {c : Call} :
    Fits C ⟨w, .call i io c, .idle, w'⟩ = true := by cases c <;> rfl

/-- Only the account counts. -/
theorem Short.of_account_eq (h : Short db) (heq : db'.account = db.account) : Short db' := by
  intro row hrow
  exact h row (heq ▸ hrow)

/-- The document that a call leaves is not too long exactly when it fits. -/
theorem short_of_run (hC : C.json.Lawful) {w w' : World} (hw : Stored C w.db) {i : Nat}
    {io : Faults}
    {c : Call} {o : Outcome} (hc : c.wellTyped = true) (h : c.run C io key w.db = .ok o) :
    (Short w.db → Fits C ⟨w, .call i io c, o.reply, w'⟩ = true → Short o.db) ∧
      (Short o.db → Fits C ⟨w, .call i io c, o.reply, w'⟩ = true) := by
  have hread : ∀ {a : Account} {key : Bytes}, Bound C w.db a key →
      (w.db.account.bind fun row => row.account? C) = some a := by
    intro a key hb
    rw [hb.row, Option.bind_some, hb.genuine.account? hC]
  obtain ⟨reply, db, pending⟩ := o
  cases c.account_change hC hw hc h with
  | same account quiet =>
      exact ⟨fun hshort _ => hshort.of_account_eq account, fun _ => fits_of_quiet quiet⟩
  | first fid now authority random identity a call hreply none new bound =>
      subst call
      obtain rfl : reply = .bound a := hreply
      obtain ⟨signer, repo, hsigner, -, rfl⟩ := newAccount_eq_ok new
      simp only [Fits, none, Option.bind_none, publicKeyOf, hsigner, decide_eq_true_eq]
      rw [bound.short_iff]
      exact ⟨fun _ h => h, fun h => h⟩
  | again fid now authority random key identity b a call hreply old bound account =>
      subst call
      obtain rfl : reply = .bound a := hreply
      simp only [Fits, hread old, decide_eq_true_eq]
      rw [bound.short_iff, account]
      exact ⟨fun _ h => h, fun h => h⟩
  | disabled key a call old bound =>
      subst call
      simp only [Call.run, bind_eq_ok, pure_eq_ok, Outcome.mk.injEq] at h
      obtain ⟨_, -, rfl, -⟩ := h
      simp only [Fits, hread old, Option.all_some, decide_eq_true_eq]
      rw [bound.short_iff]
      exact ⟨fun _ h => h, fun h => h⟩

/-- The same for a step. -/
theorem short_of_step (hC : C.json.Lawful) {w : World} {e : Event} (hw : Stored C w.db)
    (he : e.wellTyped = true) :
    (Short w.db → Fits C ((stores C).entry w e) = true → Short ((stores C).step w e).1.db) ∧
      (Short ((stores C).step w e).1.db → Fits C ((stores C).entry w e) = true) := by
  generalize hstep : w.step C e = p
  obtain ⟨w', reply⟩ := p
  have hafter : (stores C).step w e = (w', reply) := hstep
  rw [Machine.entry, hafter]
  cases e with
  | call i io c =>
      have hrun := hstep
      simp only [World.step] at hrun
      split at hrun
      · split at hrun
        · obtain ⟨rfl, rfl⟩ := Prod.mk.inj hrun
          exact ⟨fun h _ => h, fun _ => fits_of_failed⟩
        · rename_i o ho
          obtain ⟨rfl, rfl⟩ := Prod.mk.inj hrun
          exact short_of_run hC hw he ho
      · obtain ⟨rfl, rfl⟩ := Prod.mk.inj hrun
        exact ⟨fun h _ => h, fun _ => fits_of_idle⟩
  | _ =>
      rcases step_account hC hw he hstep with hsame | ⟨_, _, _, hcall, -⟩
      · exact ⟨fun h _ => h.of_account_eq hsame, fun _ => rfl⟩
      · cases hcall

/-- **A store reads back as long as its documents fit.** In every run, every state can be read and
opened again exactly when each document that a bind or an invalidation wrote has at most 8192 bytes.
No other condition is needed on identities, arguments or the order of operations. -/
theorem readable_iff {C : Crates} (hC : C.json.Lawful) (es : List Event)
    (hes : (stores C).Meets Typed World.init es) :
    (∀ es₁ es₂, es = es₁ ++ es₂ → Readable C ((stores C).final World.init es₁).db) ↔
      ∀ x ∈ (stores C).trace World.init es, Fits C x = true := by
  have hintact : ∀ es₁ es₂, es = es₁ ++ es₂ → Intact C ((stores C).final World.init es₁) := by
    rintro es₁ es₂ rfl
    exact (Machine.meets_append.mp hes).1.invariant (keeps_intact hC) (intact_init C)
  constructor
  · intro hread x hx
    obtain ⟨pre, post, hsplit⟩ := List.append_of_mem hx
    obtain ⟨es₁, e, es₂, rfl, -, rfl, -⟩ := Machine.exists_of_trace_eq_cons hsplit
    have hw := hintact es₁ (e :: es₂) rfl
    have hafter := hread (es₁ ++ [e]) es₂ (by simp)
    have hend := (hintact (es₁ ++ [e]) es₂ (by simp)).reads_iff hC
    rw [Machine.final_append] at hafter hend
    exact (short_of_step hC hw.stored (Machine.meets_append.mp hes).2.1).2 (hend.mp hafter)
  · rintro hfits es₁ es₂ rfl
    have hw := hintact es₁ es₂ rfl
    obtain ⟨hes₁, -⟩ := Machine.meets_append.mp hes
    -- along the run, every step is typed and fits
    have hmeets : (stores C).Meets (fun w e => Typed w e ∧ Fits C ((stores C).entry w e) = true)
        World.init es₁ := by
      refine Machine.meets_iff.mpr fun x hx => ⟨Machine.meets_iff.mp hes₁ x hx, ?_⟩
      rw [← Machine.eq_entry_of_mem_trace hx]
      refine hfits x ?_
      rw [Machine.trace_append]
      exact List.mem_append_left _ hx
    refine (hw.reads_iff hC).mpr (hmeets.invariant (I := fun w => Intact C w ∧ Short w.db) ?_
      ⟨intact_init C, by simp [Short, World.init, Db.empty]⟩).2
    intro w e hw he _
    exact ⟨keeps_intact hC w e hw.1 he.1 hw.1, (short_of_step hC hw.1.stored he.1).1 hw.2 he.2⟩

/-- The states after a login, and after a binding to another authority that follows, can be read and
opened again. -/
theorem readable_iff_sample :
    Readable sampleCrates ((stores sampleCrates).final World.init sampleLogin).db ∧
    Readable sampleCrates
      ((stores sampleCrates).final World.init (sampleLogin ++ sampleRebinding)).db := by
  have hall := (readable_iff Json.compact_lawful (sampleLogin ++ sampleRebinding)
    sampleRebinding_runs.1).mpr (by decide +kernel)
  exact ⟨hall _ _ rfl, hall _ [] (List.append_nil _).symm⟩

/-! ## A document that does not fit -/

/-- The URL parser of `sampleCrates`, which drops spaces behind a URL. -/
def spacedCrates : Crates :=
  { sampleCrates with
    parseUrl := fun s => sampleCrates.parseUrl (s.reverse.dropWhile fun b => b = 32).reverse }

/-- An identity that passes `validate`, with eight thousand spaces behind its URL. -/
def spacedIdentity : Identity :=
  { sampleIdentity with serviceUrl := str "https://pds.com" ++ List.replicate 8000 32 }

/-- An account is bound with a URL that is followed by many spaces. -/
def sampleSpaced : Event :=
  .call 0 noFaults (.bindVerified 1 (str "0xa1") spacedIdentity 1700000000 (List.replicate 32 1))

/-- What the binding answered: whether an account was bound. -/
def isBound : Reply → Bool
  | .bound _ => true
  | _ => false

/-- The binding, on a store that was just opened. -/
def spacedStep : Step :=
  (stores spacedCrates).entry ((stores spacedCrates).final World.init (sampleOpening 0)) sampleSpaced

/-- The identity is accepted, and the account is bound; then it cannot be loaded. -/
theorem spacedStep_runs :
    (stores spacedCrates).Meets Typed World.init (sampleOpening 0 ++ [sampleSpaced]) ∧
      (spacedIdentity.validate spacedCrates).isOk = true ∧ isBound spacedStep.reply = true ∧
      spacedStep.after.db.jwtKey = some sampleKey ∧
      (Store.account spacedCrates noFaults spacedStep.after.db).isOk = false ∧
      (openCheck spacedCrates noFaults
        { spacedStep.after.db with jwtKey := some sampleKey }).isOk = false := by
  decide +kernel

/-- The binding succeeds, and afterwards the account cannot be read and the store not be opened. -/
theorem readable_spaced :
    (stores spacedCrates).Meets Typed World.init (sampleOpening 0 ++ [sampleSpaced]) ∧
      (spacedIdentity.validate spacedCrates).isOk = true ∧ isBound spacedStep.reply = true ∧
      (Store.account spacedCrates noFaults spacedStep.after.db).isOk = false ∧
      ∀ random, (Store.openStore spacedCrates noFaults spacedStep.after.db random).isOk = false := by
  obtain ⟨hmeets, hvalid, hbound, hkey, haccount, hcheck⟩ := spacedStep_runs
  refine ⟨hmeets, hvalid, hbound, haccount, fun random => ?_⟩
  generalize spacedStep.after.db = db at hkey hcheck ⊢
  have hlen : ∀ k ∈ db.jwtKey, k.length = 32 := by
    rw [hkey]
    intro k hk
    obtain rfl := Option.some.inj hk
    rfl
  rw [openStore, openKey_eq hlen, hkey, Option.getD_some]
  cases h : openCheck spacedCrates noFaults { db with jwtKey := some sampleKey } with
  | error e =>
      show (openCheck spacedCrates noFaults _ >>= fun _ => _).isOk = false
      rw [h]
      rfl
  | ok u =>
      rw [h] at hcheck
      cases hcheck

end PurpleSky.Credentials
