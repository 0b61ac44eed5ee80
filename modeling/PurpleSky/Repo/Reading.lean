import PurpleSky.Repo.Closure
import PurpleSky.Repo.Layers

/-!
# Reading an export back

The crate only writes exports. `readRepository` is what a mirror makes of one that has nothing but
its bytes: it files the blocks, decodes the commit at the root, walks the tree behind it and fetches
the record behind each entry.

* **`mirrored`**: from the export of a snapshot a mirror reads the snapshot, which passes `verify`,
  and under every path the value that was put there last.
* **`authentic`**: whatever bytes are served under the root of a snapshot, a mirror that verifies
  what it reads has the commit and the records of the snapshot.
* **`root_binds`**: two snapshots of one signer have one root exactly when they have the same
  identity, revision and values.
-/

namespace PurpleSky

/-- A map is what any list of its entries makes. -/
theorem BTreeMap.ofList_eq {K V : Type} [Ord K] [Std.TransOrd K] [Std.LawfulEqOrd K]
    [DecidableEq K] {m : BTreeMap K V} {entries : List (K × V)}
    (hkeys : (entries.map Prod.fst).Nodup)
    (h : ∀ (k : K) (v : V), (k, v) ∈ entries ↔ m[k]? = some v) :
    Std.ExtTreeMap.ofList entries compare = m := by
  have hdistinct : entries.Pairwise fun a b => ¬compare a.1 b.1 = .eq :=
    (List.pairwise_map.mp hkeys).imp fun hne heq => hne (Std.LawfulEqCmp.eq_of_compare heq)
  refine Std.ExtTreeMap.ext_getElem? fun k => ?_
  rcases hm : m[k]? with _ | v
  · refine Std.ExtTreeMap.getElem?_ofList_of_contains_eq_false ?_
    rw [List.contains_eq_mem, decide_eq_false_iff_not]
    intro hmem
    obtain ⟨e, he, rfl⟩ := List.mem_map.mp hmem
    rw [(h e.1 e.2).mp he] at hm
    cases hm
  · exact Std.ExtTreeMap.getElem?_ofList_of_mem Std.ReflCmp.compare_self hdistinct ((h k v).mpr hm)

namespace Repo

namespace Mst

variable {H : Sha256}

/-! ## How high a tree is -/

/-- No layer is above this one: a hash has 256 bits. -/
def maxLayer : Nat := 128

theorem leadingZeros_le (b : UInt8) : leadingZeros b ≤ 8 := by
  unfold leadingZeros
  split_ifs <;> omega

theorem zeroBits_le (s : Bytes) : zeroBits s ≤ 8 * s.length := by
  induction s with
  | nil => exact Nat.zero_le _
  | cons b rest ih =>
      have hb := leadingZeros_le b
      rw [zeroBits, List.length_cons]
      split_ifs <;> omega

theorem layer_le (key : Bytes) : layer H key ≤ maxLayer := by
  have h := zeroBits_le (H.digest key)
  rw [H.length_digest] at h
  unfold layer maxLayer
  omega

theorem topLayer_le (mapping : BTreeMap Bytes Cid) : topLayer (items H mapping) ≤ maxLayer := by
  by_cases h : items H mapping = []
  · rw [h]
    exact Nat.zero_le _
  · obtain ⟨item, hitem, htop⟩ := topLayer_mem h
    obtain ⟨e, -, rfl⟩ := List.mem_map.mp hitem
    rw [← htop]
    exact layer_le e.1

/-- The keys and values of the tree at an address, however high it is. -/
def readTree (blocks : Blocks) (root : Cid) : Option (List (Bytes × Cid)) :=
  decodeTree blocks (maxLayer + 1) root

theorem readTree_rootCid {mapping : BTreeMap Bytes Cid} {blocks : Blocks}
    (hblocks : ∀ b ∈ nodeBlocks H mapping, blocks[cidFor H b]? = some b) :
    readTree blocks (rootCid H mapping) = some mapping.toList :=
  decodeTree_rootCid H hblocks (Nat.lt_succ_of_le (topLayer_le mapping))

end Mst

/-! ## Reading -/

/-- The identity of a snapshot.
Source: `lib.rs`, `Repository::did` -/
def Repository.did (r : Repository) : Bytes := r.commit.did

/-- The revision of a snapshot.
Source: `lib.rs`, `Repository::revision` -/
def Repository.revision (r : Repository) : Bytes := r.commit.rev

/-- The values of a record set, as JSON, in path order. -/
def RecordSet.contents (s : RecordSet) : List (Bytes × Json) :=
  s.records.toList.filterMap fun e => (DagCbor.decode e.2.bytes).map fun x => (e.1, toJson x)

/-- The record set of some records. -/
def recordSetOf (records : List (Bytes × Record)) : RecordSet :=
  ⟨.ofList records compare, (records.map fun e => e.2.bytes.length).sum⟩

/-- The record behind an entry of the tree. -/
def fetch (blocks : Blocks) (entry : Bytes × Cid) : Option (Bytes × Record) :=
  blocks[entry.2]?.map fun bytes => (entry.1, ⟨entry.2, bytes⟩)

/-- Read a repository from the bytes of an export. -/
def readRepository (car : Bytes) : Option Repository := do
  let (header, listed) ← Car.readCar car
  let [root] := header.roots | none
  let blocks : Blocks := .ofList listed compare
  let commit ← blocks[root]?.bind fun bytes => (decodeCommit bytes).toOption
  let entries ← Mst.readTree blocks commit.data
  let records ← entries.mapM (fetch blocks)
  pure ⟨commit, root, recordSetOf records, blocks⟩

variable {H : Sha256} {E : Ecdsa} {parse : Bytes → Option Cid}

/-- What reading takes from the bytes. -/
theorem readRepository_eq_some {car : Bytes} {r : Repository} :
    readRepository car = some r ↔ ∃ header listed records, Car.readCar car = some (header, listed) ∧
      header.roots = [r.root] ∧ r.blocks = .ofList listed compare ∧
      (∃ bytes, r.blocks[r.root]? = some bytes ∧ decodeCommit bytes = .ok r.commit) ∧
      (∃ entries, Mst.readTree r.blocks r.commit.data = some entries ∧
        entries.mapM (fetch r.blocks) = some records) ∧
      r.records = recordSetOf records := by
  obtain ⟨commit, root, set, blocks⟩ := r
  have hcommit : ∀ bytes, (decodeCommit bytes).toOption = some commit ↔
      decodeCommit bytes = .ok commit := by
    intro bytes
    cases decodeCommit bytes <;> simp [Except.toOption]
  unfold readRepository
  simp only [Option.bind_eq_bind, Option.bind_eq_some_iff, Option.pure_def, Prod.exists]
  constructor
  · rintro ⟨header, listed, hcar, h⟩
    rcases hroots : header.roots with _ | ⟨root', _ | _⟩ <;> rw [hroots] at h
    · cases h
    · simp only [Option.bind_eq_some_iff, Option.some.injEq, Repository.mk.injEq] at h
      obtain ⟨commit', hget, entries, htree, records, hrecords, rfl, rfl, rfl, rfl⟩ := h
      obtain ⟨bytes, hbytes, hdecode⟩ := hget
      exact ⟨header, listed, records, hcar, hroots, rfl, ⟨bytes, hbytes, (hcommit bytes).mp hdecode⟩,
        ⟨entries, htree, hrecords⟩, rfl⟩
    · cases h
  · rintro ⟨header, listed, records, hcar, hroots, rfl, ⟨bytes, hbytes, hdecode⟩,
      ⟨entries, htree, hrecords⟩, rfl⟩
    refine ⟨header, listed, hcar, ?_⟩
    rw [hroots]
    simp only [Option.bind_eq_some_iff]
    exact ⟨commit, ⟨bytes, hbytes, (hcommit bytes).mpr hdecode⟩, entries, htree, records, hrecords,
      rfl⟩

theorem mapM_fetch {blocks : Blocks} {entries : List (Bytes × Record)}
    (h : ∀ e ∈ entries, blocks[e.2.cid]? = some e.2.bytes) :
    (entries.map fun e => (e.1, e.2.cid)).mapM (fetch blocks) = some entries := by
  induction entries with
  | nil => rfl
  | cons e entries ih =>
      rw [List.map_cons, List.mapM_cons, fetch, h e List.mem_cons_self,
        ih fun e' he' => h e' (List.mem_cons_of_mem _ he')]
      rfl

/-- What was fetched: the records of the entries, with the blocks at their addresses. -/
theorem of_mapM_fetch {blocks : Blocks} {entries : List (Bytes × Cid)}
    {records : List (Bytes × Record)} (h : entries.mapM (fetch blocks) = some records) :
    (records.map fun e => (e.1, e.2.cid)) = entries ∧
      ∀ e ∈ records, blocks[e.2.cid]? = some e.2.bytes := by
  induction entries generalizing records with
  | nil =>
      obtain rfl : records = [] := by simpa using h.symm
      exact ⟨rfl, fun e he => absurd he List.not_mem_nil⟩
  | cons entry entries ih =>
      simp only [List.mapM_cons, Option.bind_eq_bind, Option.bind_eq_some_iff, Option.pure_def,
        Option.some.injEq, fetch, Option.map_eq_some_iff] at h
      obtain ⟨_, ⟨bytes, hbytes, rfl⟩, rest, hrest, rfl⟩ := h
      obtain ⟨hmap, hall⟩ := ih hrest
      refine ⟨by rw [List.map_cons, hmap], ?_⟩
      rw [List.forall_mem_cons]
      exact ⟨hbytes, hall⟩

theorem RecordSet.toList_mapping (s : RecordSet) :
    s.mapping.toList = s.records.toList.map fun e => (e.1, e.2.cid) :=
  Std.ExtTreeMap.toList_map

theorem nodup_map_fst_toList {V : Type} (m : BTreeMap Bytes V) :
    (m.toList.map Prod.fst).Nodup := by
  rw [Std.ExtTreeMap.map_fst_toList_eq_keys]
  exact Std.ExtTreeMap.nodup_keys

/-- A valid set is the set of its records. -/
theorem RecordSet.Valid.recordSetOf_toList {s : RecordSet} (hs : s.Valid H parse) :
    recordSetOf s.records.toList = s := by
  obtain ⟨records, encodedBytes⟩ := s
  have hrecords : Std.ExtTreeMap.ofList records.toList compare = records :=
    BTreeMap.ofList_eq (nodup_map_fst_toList _) fun k v => BTreeMap.mem_toList
  have hcount : encodedBytes = BTreeMap.total (fun r => r.bytes.length) records := hs.encodedBytes_eq
  rw [recordSetOf, hrecords, hcount]
  rfl

theorem nodup_map_fst_exportOrder (root : Cid) (rootBytes : Bytes) (blocks : Blocks) :
    ((Car.exportOrder root rootBytes blocks).map Prod.fst).Nodup := by
  obtain ⟨hascending, hne⟩ := Car.exportOrder_tail_ascending root rootBytes blocks
  refine List.nodup_cons.mpr ⟨?_, ?_⟩
  · intro hmem
    obtain ⟨b, hb, hroot⟩ := List.mem_map.mp hmem
    exact hne b hb hroot
  · refine List.pairwise_map.mpr (hascending.imp fun {a b} hlt heq => ?_)
    have hself : compare b.1 b.1 = .eq := Std.ReflCmp.compare_self
    rw [heq, hself] at hlt
    cases hlt

/-! ## What a mirror reads -/

section

variable {did rev : Bytes} {s : RecordSet} {signer : E.SigningKey}

/-- **An export reads back as the snapshot.** -/
theorem readRepository_toCar (hs : s.Valid H parse)
    (hfree : Cas.CollisionFree (cidFor H) (allBlocks H E did rev s signer)) :
    ∃ car, (repositoryFor H E did rev s signer).toCar = .ok car ∧
      readRepository car = some (repositoryFor H E did rev s signer) := by
  have hget : ∀ b ∈ allBlocks H E did rev s signer,
      (repositoryFor H E did rev s signer).blocks[cidFor H b]? = some b :=
    fun b hb => getElem?_repositoryFor hfree hb
  have hroot := hget _ commit_mem_allBlocks
  obtain ⟨car, hcar, hread⟩ := (Car.readCar_exportCar hroot).1
  refine ⟨car, hcar, readRepository_eq_some.mpr ⟨_, _, s.records.toList, hread, rfl, ?_,
    ⟨_, hroot, decodeCommit_commitBytes⟩, ⟨_, Mst.readTree_rootCid (H := H) ?_, ?_⟩,
    hs.recordSetOf_toList.symm⟩⟩
  · exact (BTreeMap.ofList_eq (nodup_map_fst_exportOrder _ _ _)
      fun k v => Car.mem_exportOrder hroot).symm
  · intro b hb
    exact hget b (List.mem_append_left _ (List.mem_append_left _ hb))
  · rw [RecordSet.toList_mapping]
    refine mapM_fetch fun e he => ?_
    rw [← hs.cid_eq e he]
    exact hget _ (List.mem_append_left _ (List.mem_append_right _ (List.mem_map_of_mem he)))

end

/-! ## What was published -/

/-- What calls publish: the paths still present, each with the value of its last put, without the
padding of its bytes. -/
def published (H : Sha256) (parse : Bytes → Option Cid) (calls : List Call) : List (Bytes × Json) :=
  (history H parse calls).map fun p => (p.1, unpad p.2)

/-- A record that is a stored value. -/
structure Stores (H : Sha256) (record : Record) (x : Ipld) : Prop where
  storable : Storable 0 x
  cost_le : cost x ≤ maxRecordBytes
  eq : record = ⟨cidFor H (encode x), encode x⟩

theorem Stores.decode {record : Record} {x : Ipld} (h : Stores H record x) :
    DagCbor.decode record.bytes = some x := by
  rw [h.eq]
  exact DagCbor.decode_encode h.storable.sorted

/-- A record of a set is a stored value, the one of the last put of its path. -/
theorem exists_stores {calls : List Call} (hcalls : ∀ c ∈ calls, c.Sorted)
    {e : Bytes × Record} (he : e ∈ (runCalls H parse calls .new).records.toList) :
    ∃ value x, lastPut H parse e.1 calls .new = some value ∧ Stores H e.2 x ∧
      unpad value = toJson x := by
  obtain ⟨value, hlast, hadm⟩ := lastPut_of_getElem? (BTreeMap.mem_toList.mp he)
  obtain ⟨x, left, hx, hrecord⟩ := hadm.converts
  have hfaithful := faithful_of_jsonToIpld value (hcalls _ (mem_of_lastPut hlast)) 0 _ _ _ hx
  have hcost := hfaithful.cost_le
  exact ⟨value, x, hlast, ⟨hfaithful.storable, by omega, hrecord⟩, hfaithful.unpad_eq⟩

/-- The values in a set are those that were published. -/
theorem contents_runCalls {calls : List Call} (hcalls : ∀ c ∈ calls, c.Sorted) :
    (runCalls H parse calls .new).contents = published H parse calls := by
  rw [published, history, ← Std.ExtTreeMap.map_fst_toList_eq_keys, List.filterMap_map,
    List.map_filterMap, RecordSet.contents]
  refine List.filterMap_congr fun e he => ?_
  obtain ⟨value, x, hlast, hstores, hunpad⟩ := exists_stores hcalls he
  rw [hstores.decode, Function.comp_apply, hlast]
  simp [hunpad]

/-- The record a published value is stored as. -/
def recordOf (H : Sha256) (parse : Bytes → Option Cid) (value : Json) : Option Record :=
  (jsonToIpld parse value 0 maxRecordBytes).toOption.map fun r =>
    ⟨cidFor H (encode r.1), encode r.1⟩

theorem recordOf_toJson (hparse : ParsesText parse) {record : Record} {x : Ipld}
    (h : Stores H record x) : recordOf H parse (toJson x) = some record := by
  rw [recordOf, jsonToIpld_toJson hparse h.storable _ h.cost_le, h.eq]
  rfl

/-- The records of a set are those of its values. -/
theorem map_recordOf_contents (hparse : ParsesText parse) {entries : List (Bytes × Record)}
    (h : ∀ e ∈ entries, ∃ x, Stores H e.2 x) :
    ((entries.filterMap fun e =>
        (DagCbor.decode e.2.bytes).map fun x => (e.1, toJson x)).map fun p =>
      (p.1, recordOf H parse p.2)) = entries.map fun e => (e.1, some e.2) := by
  induction entries with
  | nil => rfl
  | cons e entries ih =>
      obtain ⟨x, hx⟩ := h e List.mem_cons_self
      rw [List.filterMap_cons_some (b := (e.1, toJson x)) (by rw [hx.decode]; rfl), List.map_cons,
        List.map_cons, recordOf_toJson hparse hx, ih fun e' he' => h e' (List.mem_cons_of_mem _ he')]

/-- **A set is what was published in it.** -/
theorem eq_of_published_eq (hparse : ParsesText parse) {calls calls' : List Call}
    (hcalls : ∀ c ∈ calls, c.Sorted) (hcalls' : ∀ c ∈ calls', c.Sorted)
    (h : published H parse calls = published H parse calls') :
    runCalls H parse calls .new = runCalls H parse calls' .new := by
  have hs : (runCalls H parse calls .new).Valid H parse := valid_runCalls valid_new calls
  have hs' : (runCalls H parse calls' .new).Valid H parse := valid_runCalls valid_new calls'
  have hstores : ∀ {cs : List Call}, (∀ c ∈ cs, c.Sorted) →
      ∀ e ∈ (runCalls H parse cs .new).records.toList, ∃ x, Stores H e.2 x := by
    intro cs hcs e he
    obtain ⟨-, x, -, hx, -⟩ := exists_stores hcs he
    exact ⟨x, hx⟩
  rw [← contents_runCalls hcalls, ← contents_runCalls hcalls'] at h
  have hmap := map_recordOf_contents hparse (hstores hcalls)
  rw [← RecordSet.contents, h, RecordSet.contents,
    map_recordOf_contents hparse (hstores hcalls')] at hmap
  have hlist : (runCalls H parse calls' .new).records.toList =
      (runCalls H parse calls .new).records.toList := by
    have hinj : Function.Injective fun e : Bytes × Record => (e.1, some e.2) := by
      intro e e' heq
      obtain ⟨hkey, hrecord⟩ := Prod.mk.inj heq
      exact Prod.ext hkey (Option.some.inj hrecord)
    exact List.map_injective_iff.mpr hinj hmap
  rw [← hs.recordSetOf_toList, ← hs'.recordSetOf_toList, hlist]

/-- **A mirror reads what was published.** For every accepted identity and revision, any calls on a
record set and any signer, the snapshot is exported, and from the bytes alone a mirror reads the
snapshot again: it passes `verify` under the signer's key, has the identity and the revision, and
its values are those of the last puts of the paths still present. -/
theorem mirrored (hE : E.Lawful) {did rev : Bytes}
    (hmeta : Syntax.metadata did rev = .ok ()) {calls : List Call}
    (hcalls : ∀ c ∈ calls, c.Sorted) (signer : E.SigningKey)
    (hfree : Cas.CollisionFree (cidFor H)
      (allBlocks H E did rev (runCalls H parse calls .new) signer)) :
    ∃ r car, build H E did rev (runCalls H parse calls .new) signer = .ok r ∧ r.toCar = .ok car ∧
      readRepository car = some r ∧ verify H E r (publicKeySec1 E signer) = .ok () ∧
      r.did = did ∧ r.revision = rev ∧ r.records.contents = published H parse calls := by
  have hs : (runCalls H parse calls .new).Valid H parse := valid_runCalls valid_new calls
  have hbuild : build H E did rev (runCalls H parse calls .new) signer = .ok _ :=
    build_eq hmeta hs signer
  obtain ⟨car, hcar, hread⟩ := readRepository_toCar hs hfree
  exact ⟨_, car, hbuild, hcar, hread, verify_of_build hE hs hbuild hfree, rfl, rfl,
    contents_runCalls hcalls⟩

/-! ## What a root binds -/

/-- What passes `verify` has every block under its address, and the tree of its records behind the
commit at its root. -/
theorem of_verify {r : Repository} {publicKey : Bytes} (h : verify H E r publicKey = .ok ()) :
    Cas.Addressed (cidFor H) r.blocks ∧
      (∃ bytes commit, r.blocks[r.root]? = some bytes ∧ decodeCommit bytes = .ok commit ∧
        commit.data = Mst.rootCid H r.records.mapping) ∧
      BTreeMap.Contains r.blocks
        (Cas.insertAll (cidFor H) (Mst.nodeBlocks H r.records.mapping) ∅) := by
  unfold verify at h
  simp only [bind_eq_ok, ensure_eq_ok, okOr_eq_ok, decide_eq_true_eq, List.all_eq_true] at h
  obtain ⟨-, haddr, bytes, hroot, commit, hdecode, -, -, -, -, -, -, -, -, -, -, -, -, built, hbuild,
    -, hdata, -, hmst, -⟩ := h
  rw [Mst.build_eq] at hbuild
  obtain rfl := Except.ok.inj hbuild
  exact ⟨BTreeMap.forall_mem_toList.mp haddr, ⟨bytes, commit, hroot, hdecode, hdata.symm⟩,
    BTreeMap.forall_mem_toList.mp hmst⟩

/-- What is read and verified under the root of a snapshot is the snapshot. -/
theorem eq_of_served {did rev : Bytes} {s : RecordSet} (hs : s.Valid H parse)
    {signer : E.SigningKey} {car : Bytes} {served : Repository}
    (hread : readRepository car = some served) {publicKey : Bytes}
    (hverify : verify H E served publicKey = .ok ())
    (hfree : Cas.CollisionFree (cidFor H) (allBlocks H E did rev s signer ++
      served.blocks.toList.map Prod.snd ++ Mst.nodeBlocks H served.records.mapping))
    (hsame : served.root = (repositoryFor H E did rev s signer).root) :
    served.commit = commitFor H E did rev s signer ∧ served.records = s := by
  obtain ⟨haddr, ⟨bytes', commit', hroot', hdecode', hdata⟩, hnodes⟩ := of_verify hverify
  obtain ⟨-, -, records, -, -, -, ⟨bytes, hroot, hdecode⟩, ⟨entries, htree, hrecords⟩, hset⟩ :=
    readRepository_eq_some.mp hread
  -- a served block at the address of one of the snapshot is that block
  have hserved : ∀ b ∈ allBlocks H E did rev s signer, ∀ b', served.blocks[cidFor H b]? = some b' →
      b' = b := by
    intro b hb b' hget
    exact hfree b' (by simp [BTreeMap.mem_map_snd_toList hget]) b (by simp [hb])
      (haddr _ _ hget)
  have hcommit : served.commit = commitFor H E did rev s signer := by
    rw [hsame] at hroot
    obtain rfl := hserved _ commit_mem_allBlocks _ hroot
    rw [decodeCommit_commitBytes] at hdecode
    exact (Except.ok.inj hdecode).symm
  rw [hroot] at hroot'
  obtain rfl := Option.some.inj hroot'
  rw [hdecode] at hdecode'
  obtain rfl := Except.ok.inj hdecode'
  -- one tree, so the entries that were read are those of the set
  have hown : Cas.CollisionFree (cidFor H) (Mst.nodeBlocks H served.records.mapping) :=
    hfree.of_subset fun b hb => by simp [hb]
  have hentries : entries = s.records.toList.map fun e => (e.1, e.2.cid) := by
    have hmapping : served.records.mapping = s.mapping := by
      refine Mst.eq_of_rootCid_eq H (hfree.of_subset fun b hb => ?_) ?_
      · simp only [allBlocks, List.mem_append] at hb ⊢
        tauto
      · rw [← hdata, hcommit]
        rfl
    have hread' := Mst.readTree_rootCid ((Cas.contains_insertAll_iff hown).mp hnodes)
    rw [← hdata, htree, hmapping, RecordSet.toList_mapping] at hread'
    exact Option.some.inj hread'
  obtain ⟨hmap, hfetched⟩ := of_mapM_fetch hrecords
  have hpresent : ∀ e ∈ s.records.toList, served.blocks[e.2.cid]? = some e.2.bytes := by
    intro e he
    have hentry : (e.1, e.2.cid) ∈ records.map fun e => (e.1, e.2.cid) := by
      rw [hmap, hentries]
      exact List.mem_map_of_mem he
    obtain ⟨e', he', heq⟩ := List.mem_map.mp hentry
    obtain ⟨-, hcid⟩ := Prod.mk.inj heq
    have hget := hfetched e' he'
    rw [hcid] at hget
    have hblock : e.2.bytes ∈ allBlocks H E did rev s signer :=
      List.mem_append_left _ (List.mem_append_right _ (List.mem_map_of_mem he))
    rw [hget, hserved _ hblock e'.2.bytes (by rw [hs.cid_eq e he, hget])]
  rw [hentries, mapM_fetch hpresent] at hrecords
  obtain rfl := Option.some.inj hrecords
  exact ⟨hcommit, by rw [hset, hs.recordSetOf_toList]⟩

/-- **A root is authentic.** Whoever serves whatever bytes: a mirror that reads them, verifies them
under any key and finds the root of a snapshot has the commit and the record set of the snapshot.
The blocks involved are those of the snapshot, those that were served, and the tree that `verify`
builds. -/
theorem authentic {did rev : Bytes} (hmeta : Syntax.metadata did rev = .ok ()) (calls : List Call)
    (signer : E.SigningKey) {car : Bytes} {served : Repository}
    (hread : readRepository car = some served) {publicKey : Bytes}
    (hverify : verify H E served publicKey = .ok ())
    (hfree : Cas.CollisionFree (cidFor H)
      (allBlocks H E did rev (runCalls H parse calls .new) signer ++
        served.blocks.toList.map Prod.snd ++ Mst.nodeBlocks H served.records.mapping)) :
    ∃ r, build H E did rev (runCalls H parse calls .new) signer = .ok r ∧
      (served.root = r.root → served.commit = r.commit ∧ served.records = r.records) := by
  have hs : (runCalls H parse calls .new).Valid H parse := valid_runCalls valid_new calls
  exact ⟨_, build_eq hmeta hs signer, fun hsame => eq_of_served hs hread hverify hfree hsame⟩

/-- The blocks of a snapshot and of its tree are those that were filed. -/
theorem collisionFree_served {did rev : Bytes} {s : RecordSet} {signer : E.SigningKey}
    {bs : List Bytes} (h : Cas.CollisionFree (cidFor H) (bs ++ allBlocks H E did rev s signer)) :
    Cas.CollisionFree (cidFor H) (bs ++
      (repositoryFor H E did rev s signer).blocks.toList.map Prod.snd ++
        Mst.nodeBlocks H s.mapping) := by
  have hfiled : (repositoryFor H E did rev s signer).blocks.toList.map Prod.snd ⊆
      allBlocks H E did rev s signer := Cas.map_snd_insertAll_subset _
  refine h.of_subset fun b hb => ?_
  rw [List.mem_append, List.mem_append] at hb
  rcases hb with (hb | hb) | hb
  · exact List.mem_append_left _ hb
  · exact List.mem_append_right _ (hfiled hb)
  · exact List.mem_append_right _ (List.mem_append_left _ (List.mem_append_left _ hb))

/-- **A root binds what was published.** Two snapshots of one signer have one root exactly when they
have one identity, one revision and the same published values; and then they have one export. -/
theorem root_binds (hE : E.Lawful) (hparse : ParsesText parse) {did rev did' rev' : Bytes}
    (hmeta : Syntax.metadata did rev = .ok ()) (hmeta' : Syntax.metadata did' rev' = .ok ())
    {calls calls' : List Call} (hcalls : ∀ c ∈ calls, c.Sorted) (hcalls' : ∀ c ∈ calls', c.Sorted)
    (signer : E.SigningKey)
    (hfree : Cas.CollisionFree (cidFor H)
      (allBlocks H E did rev (runCalls H parse calls .new) signer ++
        allBlocks H E did' rev' (runCalls H parse calls' .new) signer)) :
    ∃ r r', build H E did rev (runCalls H parse calls .new) signer = .ok r ∧
      build H E did' rev' (runCalls H parse calls' .new) signer = .ok r' ∧
      (r.root = r'.root ↔
        did = did' ∧ rev = rev' ∧ published H parse calls = published H parse calls') ∧
      (r.toCar = r'.toCar ↔ r.root = r'.root) := by
  have hs : (runCalls H parse calls .new).Valid H parse := valid_runCalls valid_new calls
  have hs' : (runCalls H parse calls' .new).Valid H parse := valid_runCalls valid_new calls'
  have hown := hfree.of_subset (List.subset_append_left _ _)
  have hown' := hfree.of_subset (List.subset_append_right _ _)
  obtain ⟨car, hcar, hread⟩ := readRepository_toCar hs hown
  obtain ⟨car', hcar', hread'⟩ := readRepository_toCar hs' hown'
  have hverify := verify_of_build hE hs' (build_eq hmeta' hs' signer) hown'
  have hiff : (repositoryFor H E did rev (runCalls H parse calls .new) signer).root =
        (repositoryFor H E did' rev' (runCalls H parse calls' .new) signer).root ↔
      did = did' ∧ rev = rev' ∧ published H parse calls = published H parse calls' := by
    constructor
    · intro hsame
      obtain ⟨hcommit, hset⟩ :=
        eq_of_served hs hread' hverify (collisionFree_served hfree) hsame.symm
      have hset' : runCalls H parse calls' .new = runCalls H parse calls .new := hset
      refine ⟨(congrArg SignedCommit.did hcommit).symm, (congrArg SignedCommit.rev hcommit).symm, ?_⟩
      rw [← contents_runCalls hcalls, ← contents_runCalls hcalls', hset']
    · rintro ⟨rfl, rfl, hpublished⟩
      rw [eq_of_published_eq hparse hcalls hcalls' hpublished]
  refine ⟨_, _, build_eq hmeta hs signer, build_eq hmeta' hs' signer, hiff, ?_⟩
  constructor
  · intro h
    rw [hcar, hcar'] at h
    obtain rfl := Except.ok.inj h
    rw [hread] at hread'
    rw [Option.some.inj hread']
  · intro hsame
    obtain ⟨rfl, rfl, hpublished⟩ := hiff.mp hsame
    rw [eq_of_published_eq hparse hcalls hcalls' hpublished]

/-! ## Samples -/

theorem post_sorted (text : String) : (post text).Sorted := by
  have hkeys : compare (str "$type") (str "text") = .lt := by decide
  refine .object (List.pairwise_pair.mpr hkeys) fun f hf => ?_
  simp only [List.mem_cons, List.not_mem_nil, or_false] at hf
  rcases hf with rfl | rfl <;> exact .string _

theorem sampleCalls_sorted : ∀ c ∈ sampleCalls, c.Sorted := by
  intro c hc
  simp only [sampleCalls, List.mem_cons, List.not_mem_nil, or_false] at hc
  rcases hc with rfl | rfl | rfl | rfl | rfl
  · exact post_sorted _
  · exact post_sorted _
  · exact post_sorted _
  · trivial
  · exact .null

/-- The one post left is read back from the export. -/
theorem mirrored_sample : ∃ r car,
    build sha2 sampleEcdsa sampleDid sampleRev (runCalls sha2 Cid.ofBase32 sampleCalls .new)
      sampleSigner = .ok r ∧ r.toCar = .ok car ∧ readRepository car = some r ∧
      r.records.contents.map Prod.fst = [str "app.bsky.feed.post/1"] := by
  obtain ⟨r, car, hbuild, hcar, hread, -, -, -, hcontents⟩ := mirrored sampleEcdsa_lawful
    sample_metadata sampleCalls_sorted sampleSigner sample_collisionFree
  refine ⟨r, car, hbuild, hcar, hread, ?_⟩
  rw [hcontents]
  decide +kernel

/-- What the sample exports is read and verified under its root. -/
theorem authentic_sample : ∃ r car served,
    build sha2 sampleEcdsa sampleDid sampleRev (runCalls sha2 Cid.ofBase32 sampleCalls .new)
      sampleSigner = .ok r ∧ readRepository car = some served ∧ served.root = r.root ∧
      served.commit = r.commit ∧ served.records = r.records := by
  have hs : (runCalls sha2 Cid.ofBase32 sampleCalls .new).Valid sha2 Cid.ofBase32 :=
    valid_runCalls valid_new sampleCalls
  have hbuild := build_eq sample_metadata hs sampleSigner
  obtain ⟨car, -, hread⟩ := readRepository_toCar hs sample_collisionFree
  have hboth := sample_collisionFree.of_subset
    (List.append_subset.mpr ⟨List.Subset.refl _, List.Subset.refl _⟩)
  obtain ⟨r, hr, hauthentic⟩ := authentic sample_metadata sampleCalls sampleSigner hread
    (verify_of_build sampleEcdsa_lawful hs hbuild sample_collisionFree)
    (collisionFree_served hboth)
  rw [hbuild] at hr
  obtain rfl := Except.ok.inj hr
  exact ⟨_, car, _, hbuild, hread, rfl, hauthentic rfl⟩

/-- The one post that is left, put alone. -/
def samplePut : List Call := [.put (str "app.bsky.feed.post/1") (post "new")]

/-- The post put alone has the root that the calls led to, so they published the same. -/
theorem root_binds_sample : ∃ r r',
    build sha2 sampleEcdsa sampleDid sampleRev (runCalls sha2 Cid.ofBase32 sampleCalls .new)
      sampleSigner = .ok r ∧
    build sha2 sampleEcdsa sampleDid sampleRev (runCalls sha2 Cid.ofBase32 samplePut .new)
      sampleSigner = .ok r' ∧
    r.toCar = r'.toCar ∧
      published sha2 Cid.ofBase32 sampleCalls = published sha2 Cid.ofBase32 samplePut := by
  have hsorted : ∀ c ∈ samplePut, c.Sorted := by
    intro c hc
    obtain rfl := List.mem_singleton.mp hc
    exact post_sorted _
  have hfree : Cas.CollisionFree (cidFor sha2)
      (allBlocks sha2 sampleEcdsa sampleDid sampleRev
          (runCalls sha2 Cid.ofBase32 sampleCalls .new) sampleSigner ++
        allBlocks sha2 sampleEcdsa sampleDid sampleRev
          (runCalls sha2 Cid.ofBase32 samplePut .new) sampleSigner) := by
    decide +kernel
  obtain ⟨r, r', hbuild, hbuild', hiff, hcar⟩ := root_binds sampleEcdsa_lawful parsesText_ofBase32
    sample_metadata sample_metadata sampleCalls_sorted hsorted sampleSigner hfree
  have hroot : r.root = r'.root := by
    have hr := hbuild
    have hr' := hbuild'
    rw [build_eq sample_metadata (valid_runCalls valid_new _)] at hr hr'
    obtain rfl := Except.ok.inj hr
    obtain rfl := Except.ok.inj hr'
    decide +kernel
  exact ⟨r, r', hbuild, hbuild', hcar.mpr hroot, (hiff.mp hroot).2.2⟩

end Repo

end PurpleSky
