import PurpleSky.Node.Sessions
import PurpleSky.Repo.Reading

/-!
# What a node publishes of its account

A node serves the account's repository (`Core.repository`) and its DID document (the action `did`),
at any time and each on its own. Someone who fetched them at different times, before and after
outages, other sign-ins, new settings and restarts, still has to be able to put them together.

* `bound_at_end`: an account that is bound at some time is there at the end, but for its authority
  and its state.
* **`published_once`**: there is one export and one document, and the export is a repository of the
  document's DID that verifies under the document's key, unless two of its blocks collide.
-/

namespace PurpleSky.Node

open Bytes Credentials Farcaster Procedure Machine

/-- The account's repository, where login is enabled and the DID is the account's.
Source: `account.rs`, `AccountNode::repository` -/
def Core.repository (K : Crates) (core : Core) (io io' : Faults) (did : Bytes) :
    Option (Except Error Bytes) :=
  match Store.account K.credentials io core.db with
  | .ok (some account) =>
      if core.settings.enabled = true ∧ account.identity.did = did then
        some (Store.emptyRepository K.credentials io' core.db)
      else none
  | _ => none

/-- The repository that a node serves while it has a process. -/
def Process.repository (K : Crates) (p : Process) (io io' : Faults) (did : Bytes) :
    Option (Except Error Bytes) :=
  match p with
  | .running core => core.repository K io io' did
  | .stopped _ _ => none

/-- At some time of a run the repository is served under a DID. -/
def Serving (K : Crates) (es : List Event) (did car : Bytes) : Prop :=
  ∃ es₁ es₂ io io', es = es₁ ++ es₂ ∧
    ((nodes K).final .init es₁).repository K io io' did = some (.ok car)

/-- At some time of a run the DID document is answered. -/
def Describing (K : Crates) (es : List Event) (document : Json) : Prop :=
  ∃ x ∈ (nodes K).trace .init es, ∃ env, x.event = .action .did env ∧ x.reply = .ok document

/-- The first method of a DID document's verification methods. -/
def documentKey (document : Json) : Option Bytes := do
  let .array (method :: _) ← document.get (str "verificationMethod") | none
  (← method.get (str "publicKeyMultibase")).asStr

/-- The DID of a document. -/
def documentId (document : Json) : Option Bytes := (document.get (str "id")).bind Json.asStr

variable {K : Crates}

/-! ## The account at the end -/

/-- At some time of a run this account is bound, with this repository key. -/
def Published (K : Crates) (es : List Event) (a : Account) (key : Bytes) : Prop :=
  ∃ es₁ es₂, es = es₁ ++ es₂ ∧ Bound K.credentials ((nodes K).final .init es₁).db a key

section

variable (hK : K.json.Lawful) {es : List Event} {a b : Account} {key key' : Bytes}

include hK

/-- An account that is bound at some time is there at the end, but for its authority and its
state. -/
theorem bound_at_end (h : Published K es a key) :
    ∃ b, Bound K.credentials ((nodes K).final .init es).db b key ∧ b.binding = a.binding := by
  obtain ⟨es₁, es₂, rfl, hbound⟩ := h
  obtain ⟨ds₁, hserves₁⟩ := exists_serves K es₁
  obtain ⟨ds₂, hserves, -⟩ := hserves₁.extend es₂
  obtain ⟨htyped₁, htyped₂⟩ := meets_append.mp hserves.typed
  have hstanding := htyped₁.invariant (keeps_standing (C := K.credentials) hK)
    (standing_init K.credentials)
  have hfirst : BoundTo K.credentials a key
      ((stores K.credentials).final World.init ds₁) := by
    refine ⟨a, ?_, rfl⟩
    rwa [db_of_linked hserves₁.linked]
  obtain ⟨b, hb, hbinding⟩ := htyped₂.kept (keeps_standing (C := K.credentials) hK)
    (keeps_boundTo (C := K.credentials) hK a key) hstanding hfirst
  refine ⟨b, ?_, hbinding⟩
  rw [← db_of_linked hserves.linked, final_append]
  exact hb

/-- A run binds one account. -/
theorem binding_unique (h : Published K es a key) (h' : Published K es b key') :
    b.binding = a.binding ∧ key' = key := by
  obtain ⟨c, hc, hca⟩ := bound_at_end hK h
  obtain ⟨d, hd, hdb⟩ := bound_at_end hK h'
  obtain ⟨rfl, rfl⟩ := hc.unique (C := K.credentials) hK hd
  exact ⟨hdb.symm.trans hca, rfl⟩

end

/-! ## What is served and described -/

/-- What a served export is of. -/
structure Exports (K : Crates) (a : Account) (key car : Bytes) : Prop where
  made : ∃ signer repo, K.signingKey key = some signer ∧
    Repo.build sha2 K.ecdsa a.identity.did a.repoRevision Repo.RecordSet.new signer = .ok repo ∧
    repo.toCar = .ok car ∧
    a.publicKeyMultibase = 122 :: K.base58 (0xe7 :: 0x01 :: Repo.publicKeySec1 K.ecdsa signer)

/-- The blocks of an account's repository, as it is served. -/
def blocksOf (K : Crates) (a : Account) (signer : K.ecdsa.SigningKey) : List Bytes :=
  Repo.allBlocks sha2 K.ecdsa a.identity.did a.repoRevision Repo.RecordSet.new signer

theorem exports_of_bound {db : Db} {a : Account} {key car : Bytes} {io : Faults}
    (hK : K.json.Lawful) (h : Bound K.credentials db a key)
    (hcar : Store.emptyRepository K.credentials io db = .ok car) : Exports K a key car := by
  simp only [Store.emptyRepository, Store.repository, bind_eq_ok, okOr_eq_ok, ensure_eq_ok] at hcar
  obtain ⟨repo, ⟨_, hload, b, rfl, row, hrow, _, -, signer, hsigner, hrepo⟩, hcar⟩ := hcar
  obtain rfl := h.eq_of_loadAccount (C := K.credentials) hK hload
  obtain rfl := Option.some.inj (hrow.symm.trans h.row)
  obtain ⟨signer', repo', hsigner', hbuild, -, hkey⟩ := h.genuine.repo
  obtain rfl := Option.some.inj (hsigner.symm.trans hsigner')
  rw [hbuild] at hrepo
  obtain rfl := pure_eq_ok.mp hrepo
  refine ⟨signer, repo', hsigner, hbuild, ?_, hkey⟩
  cases hexport : repo'.toCar with
  | ok bytes =>
      rw [hexport] at hcar
      rw [pure_eq_ok.mp hcar]
  | error e =>
      rw [hexport] at hcar
      cases hcar

/-- A node reads the account that is bound. -/
theorem exists_bound (hK : K.json.Lawful) (es : List Event) {io : Faults} {a : Account}
    (h : Store.account K.credentials io ((nodes K).final .init es).db = .ok (some a)) :
    ∃ key, Bound K.credentials ((nodes K).final .init es).db a key := by
  obtain ⟨ds, hserves⟩ := exists_serves K es
  have hstanding := hserves.typed.invariant (keeps_standing (C := K.credentials) hK)
    (standing_init K.credentials)
  have hstored := hstanding.stored
  rw [db_of_linked hserves.linked] at hstored
  exact hstored.bound (C := K.credentials) hK h

theorem of_serving (hK : K.json.Lawful) {es : List Event} {did car : Bytes}
    (h : Serving K es did car) :
    ∃ a key, Published K es a key ∧ a.identity.did = did ∧ Exports K a key car := by
  obtain ⟨es₁, es₂, io, io', rfl, hserved⟩ := h
  have hbound := fun {io a} => @exists_bound K hK es₁ io a
  have hpublished : ∀ {a key}, Bound K.credentials ((nodes K).final .init es₁).db a key →
      Published K (es₁ ++ es₂) a key := fun h => ⟨es₁, es₂, rfl, h⟩
  generalize (nodes K).final .init es₁ = p at hserved hbound hpublished
  cases p with
  | stopped db history => cases hserved
  | running core =>
      have hcore : core.repository K io io' did = some (.ok car) := hserved
      unfold Core.repository at hcore
      split at hcore
      · rename_i a haccount
        split_ifs at hcore with hdid
        obtain ⟨key, hkey⟩ := hbound haccount
        exact ⟨a, key, hpublished hkey, hdid.2,
          exports_of_bound hK hkey (Option.some.inj hcore)⟩
      · cases hcore

theorem documentKey_didDocument (a : Account) :
    documentKey (didDocument a) = some a.publicKeyMultibase := rfl

theorem documentId_didDocument (a : Account) : documentId (didDocument a) = some a.identity.did :=
  rfl

/-- A document is of the account that is bound. -/
theorem wp_did (env : Env) (core : Core) :
    wp (execute K env .did)
      (fun value _ => ∃ io a, Store.account K.credentials io core.db = .ok (some a) ∧
        value = didDocument a) (fun _ _ => True) core := by
  unfold execute expire Action.run did
  simp only [wp_bind, wp_read, wp_check, wp_change]
  refine ⟨fun _ => ?_, fun _ => trivial⟩
  refine (wp_query (f := fun io _ db => Store.storeDidDocument K.credentials io db)).mpr ?_
  refine ⟨fun _ => trivial, fun faults _ => ⟨fun document h => ?_, fun _ _ => trivial⟩⟩
  simp only [Store.storeDidDocument, bind_eq_ok, okOr_eq_ok, pure_eq_ok] at h
  obtain ⟨_, haccount, a, rfl, rfl⟩ := h
  exact ⟨faults, a, haccount, rfl⟩

theorem of_describing (hK : K.json.Lawful) {es : List Event} {document : Json}
    (h : Describing K es document) :
    ∃ a key, Published K es a key ∧ document = didDocument a := by
  obtain ⟨x, hx, env, hevent, hreply⟩ := h
  obtain ⟨core, -, hbefore, -, io, a, haccount, rfl⟩ :=
    of_answered hx hevent hreply (wp_did env)
  obtain ⟨pre, post, htrace⟩ := List.append_of_mem hx
  obtain ⟨es₁, e, es₂, rfl, -, rfl, -⟩ := exists_of_trace_eq_cons htrace
  have hfinal : (nodes K).final .init es₁ = .running core := hbefore
  have hdb : ((nodes K).final .init es₁).db = core.db := by
    rw [hfinal]
    rfl
  obtain ⟨key, hbound⟩ := exists_bound hK es₁ (hdb ▸ haccount)
  exact ⟨a, key, ⟨es₁, _, rfl, hbound⟩, rfl⟩

/-- What the binding of an account fixes of what is published. -/
theorem published_of_binding {a b : Account} (h : b.binding = a.binding) :
    b.identity = a.identity ∧ b.publicKeyMultibase = a.publicKeyMultibase ∧
      b.repoRevision = a.repoRevision := by
  simp only [Account.binding, Prod.mk.injEq] at h
  exact ⟨h.2.1, h.2.2.2.1, h.2.2.2.2.1⟩

/-- An export reads back as the account's repository. -/
theorem Exports.read {a : Account} {key car : Bytes} {signer : K.ecdsa.SigningKey}
    (hE : K.ecdsa.Lawful) (h : Exports K a key car) (hsigner : K.signingKey key = some signer)
    (hfree : Cas.CollisionFree (Repo.cidFor sha2) (blocksOf K a signer)) :
    ∃ r, Repo.readRepository car = some r ∧ r.did = a.identity.did ∧ r.revision = a.repoRevision ∧
      r.records = Repo.RecordSet.new ∧
      Repo.verify sha2 K.ecdsa r (Repo.publicKeySec1 K.ecdsa signer) = .ok () := by
  obtain ⟨signer', repo, hsigner', hbuild, hcar, -⟩ := h.made
  obtain rfl := Option.some.inj (hsigner'.symm.trans hsigner)
  have hmeta : Repo.Syntax.metadata a.identity.did a.repoRevision = .ok () :=
    (bind_eq_ok.mp hbuild).choose_spec.1
  have hvalid := @Repo.valid_new sha2 fun _ => none
  obtain ⟨car', hcar', hread⟩ := Repo.readRepository_toCar hvalid hfree
  have hverify := Repo.verify_of_build hE hvalid hbuild hfree
  rw [Repo.build_eq hmeta hvalid] at hbuild
  obtain rfl := Except.ok.inj hbuild
  obtain rfl := Except.ok.inj (hcar'.symm.trans hcar)
  exact ⟨_, hread, rfl, rfl, rfl, hverify⟩

/-- **An account is published once.** In every run of a node, with refused actions, outages, other
sign-ins, new settings and restarts in any order:

* whenever its repository is served, it is served under one DID and with the same bytes;
* whenever its DID document is answered, it is the same document;
* and whatever the times at which both were fetched, an account is published, the document is of
  that DID, which is the account's, and names the account's key. Unless two blocks of the account's
  repository collide, a mirror reads from the export an empty repository of that DID, at the
  account's revision, that passes `verify` under the key that the document names. -/
theorem published_once (hK : K.json.Lawful) (hE : K.ecdsa.Lawful) (es : List Event) :
    (∀ did car did' car', Serving K es did car → Serving K es did' car' →
      did' = did ∧ car' = car) ∧
    (∀ document document', Describing K es document → Describing K es document' →
      document' = document) ∧
    ∀ did car document, Serving K es did car → Describing K es document →
      documentId document = some did ∧ (∃ a key, Published K es a key) ∧
      ∀ a key, Published K es a key → a.identity.did = did ∧
        ∃ signer, K.signingKey key = some signer ∧
          documentKey document =
            some (122 :: K.base58 (0xe7 :: 0x01 :: Repo.publicKeySec1 K.ecdsa signer)) ∧
          (Cas.CollisionFree (Repo.cidFor sha2) (blocksOf K a signer) →
            ∃ r, Repo.readRepository car = some r ∧ r.did = did ∧ r.revision = a.repoRevision ∧
              r.records = Repo.RecordSet.new ∧
              Repo.verify sha2 K.ecdsa r (Repo.publicKeySec1 K.ecdsa signer) = .ok ()) := by
  refine ⟨fun did car did' car' hserving hserving' => ?_, fun document document' hdoc hdoc' => ?_,
    fun did car document hserving hdoc => ?_⟩
  · obtain ⟨a, key, ha, rfl, signer, repo, hsigner, hbuild, hcar, -⟩ := of_serving hK hserving
    obtain ⟨b, key', hb, rfl, signer', repo', hsigner', hbuild', hcar', -⟩ := of_serving hK hserving'
    obtain ⟨hsame, rfl⟩ := binding_unique hK ha hb
    obtain ⟨hidentity, -, hrevision⟩ := published_of_binding hsame
    obtain rfl := Option.some.inj (hsigner'.symm.trans hsigner)
    rw [hidentity, hrevision, hbuild] at hbuild'
    obtain rfl := Except.ok.inj hbuild'
    exact ⟨by rw [hidentity], Except.ok.inj (hcar'.symm.trans hcar)⟩
  · obtain ⟨a, key, ha, rfl⟩ := of_describing hK hdoc
    obtain ⟨b, key', hb, rfl⟩ := of_describing hK hdoc'
    obtain ⟨hidentity, hmultibase, -⟩ := published_of_binding (binding_unique hK ha hb).1
    rw [didDocument, didDocument, hidentity, hmultibase]
  · obtain ⟨a, key, ha, rfl, hexports⟩ := of_serving hK hserving
    obtain ⟨signer, repo, hsigner, -, -, hkey⟩ := hexports.made
    obtain ⟨c, key', hc, rfl⟩ := of_describing hK hdoc
    obtain ⟨hidentity, hmultibase, -⟩ := published_of_binding (binding_unique hK ha hc).1
    refine ⟨by rw [documentId_didDocument, hidentity], ⟨a, key, ha⟩, fun b key'' hb => ?_⟩
    obtain ⟨hsame, rfl⟩ := binding_unique hK ha hb
    obtain ⟨hid, -, hrevision⟩ := published_of_binding hsame
    refine ⟨by rw [hid], signer, hsigner, ?_, fun hfree => ?_⟩
    · rw [documentKey_didDocument, hmultibase, hkey]
    · rw [blocksOf, hid, hrevision] at hfree
      rw [hrevision]
      exact hexports.read hE hsigner hfree

/-- The value of an answer. -/
def Reply.value? : Reply → Option Json
  | .ok value => some value
  | _ => none

/-- After a sign-in the DID document is asked for. -/
def sampleDescribed : Exchange :=
  (nodes sampleNode).entry ((nodes sampleNode).final .init sampleSignIn)
    (.action .did (sampleQuiet 3))

/-- No two blocks of the stored account's repository collide. -/
def uncollided (K : Crates) (db : Db) : Bool :=
  match Store.account K.credentials noFaults db, db.account with
  | .ok (some a), some row => (K.signingKey row.repoKey).any fun signer =>
      decide (Cas.CollisionFree (Repo.cidFor sha2) (blocksOf K a signer))
  | _, _ => false

theorem sampleDescribed_runs :
    sampleDescribed.reply.value?.isSome = true ∧
    ((sampleDescribed.after.repository sampleNode noFaults noFaults
      (str "did:web:alice.com")).bind Except.toOption).isSome = true ∧
    uncollided sampleNode sampleDescribed.after.db = true := by
  decide +kernel

/-- The export of the sample is read back under the DID and the key of its document. -/
theorem published_once_sample : ∃ car document signer r,
    Serving sampleNode (sampleSignIn ++ [sampleDescribed.event]) (str "did:web:alice.com") car ∧
      sampleDescribed.reply = .ok document ∧
      documentId document = some (str "did:web:alice.com") ∧
      documentKey document = some (122 :: sampleNode.base58
        (0xe7 :: 0x01 :: Repo.publicKeySec1 sampleNode.ecdsa signer)) ∧
      Repo.readRepository car = some r ∧ r.did = str "did:web:alice.com" ∧
      Repo.verify sha2 sampleNode.ecdsa r (Repo.publicKeySec1 sampleNode.ecdsa signer) = .ok () := by
  obtain ⟨hdocument, hcar, hfree⟩ := sampleDescribed_runs
  obtain ⟨document, hdocument⟩ := Option.isSome_iff_exists.mp hdocument
  obtain ⟨car, hcar⟩ := Option.isSome_iff_exists.mp hcar
  obtain ⟨result, hserved, hresult⟩ := Option.bind_eq_some_iff.mp hcar
  have hreply : sampleDescribed.reply = .ok document := by
    generalize sampleDescribed.reply = reply at hdocument
    cases reply with
    | ok value => rw [Option.some.inj hdocument]
    | _ => cases hdocument
  have hok : result = .ok car := by
    cases result with
    | ok bytes => rw [Option.some.inj hresult]
    | error e => cases hresult
  rw [hok] at hserved
  have hafter : (nodes sampleNode).final .init (sampleSignIn ++ [sampleDescribed.event]) =
      sampleDescribed.after := final_concat _ _ _
  have hserving : Serving sampleNode (sampleSignIn ++ [sampleDescribed.event])
      (str "did:web:alice.com") car := by
    refine ⟨_, [], noFaults, noFaults, (List.append_nil _).symm, ?_⟩
    rw [hafter]
    exact hserved
  have hdescribing : Describing sampleNode (sampleSignIn ++ [sampleDescribed.event]) document := by
    refine ⟨sampleDescribed, ?_, _, rfl, hreply⟩
    rw [trace_append_cons _ _ sampleSignIn sampleDescribed.event []]
    exact List.mem_append_right _ List.mem_cons_self
  -- the account that is stored at the end is the published one
  have hstored := fun {a} => @exists_bound sampleNode Json.compact_lawful
    (sampleSignIn ++ [sampleDescribed.event]) noFaults a
  rw [hafter] at hstored
  unfold uncollided at hfree
  split at hfree
  · rename_i a row haccount hrow
    obtain ⟨key, hbound⟩ := hstored haccount
    obtain rfl := Option.some.inj (hrow.symm.trans hbound.row)
    have hpublished : Published sampleNode (sampleSignIn ++ [sampleDescribed.event]) a key :=
      ⟨_, [], (List.append_nil _).symm, hafter ▸ hbound⟩
    have h := published_once (K := sampleNode) Json.compact_lawful (Repo.tableEcdsa_lawful _ _ _ _)
      (sampleSignIn ++ [sampleDescribed.event])
    obtain ⟨hid, -, hpub⟩ := h.2.2 _ _ _ hserving hdescribing
    obtain ⟨-, signer, hsigner, hkey, hread⟩ := hpub a key hpublished
    rw [hsigner] at hfree
    simp only [Option.any_some, decide_eq_true_eq] at hfree
    obtain ⟨r, hr, hdid, -, -, hverify⟩ := hread hfree
    exact ⟨car, document, signer, r, hserving, hreply, hid, hkey, hr, hdid, hverify⟩
  · cases hfree

end PurpleSky.Node
