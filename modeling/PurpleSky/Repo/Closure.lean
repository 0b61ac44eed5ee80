import PurpleSky.Repo.Repository

/-!
# Built repositories are closed and leak nothing

`Link` is one link in a block map, from a commit to the tree or from a tree node to a node below it
or to a record; `Reaches` follows links from the root.

* **`reaches_node_iff`**, `reaches_record_iff`: in a built repository, what is reached is the nodes
  of the canonical tree and the records of the set.
* **`build_closed`**: every link resolves, every block is reached, and the export holds these blocks
  and no others.
-/

namespace PurpleSky.Repo

/-! ## The tree -/

namespace Mst

/-- The subtrees a node links to. -/
def Node.children (n : Node) : List Cid := (n.l :: n.e.map Entry.t).reduceOption

/-- The values a node links to. -/
def Node.values (n : Node) : List Cid := n.e.map Entry.v

variable (H : Sha256)

theorem map_t_entriesOf (link : List Item → Option Cid) (previous : Bytes)
    (segs : List (Item × List Item)) :
    (entriesOf link previous segs).map Entry.t = (segs.map Prod.snd).map link := by
  induction segs generalizing previous with
  | nil => rfl
  | cons seg segs ih =>
      obtain ⟨item, run⟩ := seg
      rw [entriesOf, List.map_cons, ih]
      rfl

theorem map_v_entriesOf (link : List Item → Option Cid) (previous : Bytes)
    (segs : List (Item × List Item)) :
    (entriesOf link previous segs).map Entry.v = segs.map fun seg => seg.1.value := by
  induction segs generalizing previous with
  | nil => rfl
  | cons seg segs ih =>
      obtain ⟨item, run⟩ := seg
      rw [entriesOf, List.map_cons, ih]
      rfl

/-- A canonical node links to its runs. -/
theorem mem_children_nodeAt {at_ : Nat} {entries : List Item} {c : Cid} :
    c ∈ (nodeAt H at_ entries).children ↔ ∃ run ∈ slots at_ entries, linkAt H at_ run = some c := by
  have hlinks : (nodeAt H at_ entries).l :: (nodeAt H at_ entries).e.map Entry.t =
      (slots at_ entries).map (linkAt H at_) := by
    rw [nodeAt_eq, nodeWith, map_t_entriesOf]
    rfl
  rw [Node.children, hlinks, List.reduceOption_mem_iff, List.mem_map]

/-- An entry is a key of the node or in one of its runs. -/
theorem mem_entries_iff {at_ : Nat} {entries : List Item} {item : Item} :
    item ∈ entries ↔ item ∈ (segments at_ entries).2.map Prod.fst ∨
      ∃ run ∈ slots at_ entries, item ∈ run := by
  conv_lhs => rw [← segments_flatten at_ entries]
  simp only [slots, List.mem_append, List.mem_flatMap, List.mem_cons, List.mem_map,
    exists_eq_or_imp]
  constructor
  · rintro (h | ⟨seg, hseg, rfl | h⟩)
    · exact Or.inr (Or.inl h)
    · exact Or.inl ⟨seg, hseg, rfl⟩
    · exact Or.inr (Or.inr ⟨seg.2, ⟨seg, hseg, rfl⟩, h⟩)
  · rintro (⟨seg, hseg, rfl⟩ | h | ⟨run, ⟨seg, hseg, rfl⟩, h⟩)
    · exact Or.inr ⟨seg, hseg, Or.inl rfl⟩
    · exact Or.inl h
    · exact Or.inr ⟨seg, hseg, Or.inr h⟩

theorem values_nodeAt (at_ : Nat) (entries : List Item) :
    (nodeAt H at_ entries).values =
      ((segments at_ entries).2.map Prod.fst).map Item.value := by
  rw [nodeAt_eq, nodeWith, Node.values, map_v_entriesOf, List.map_map]
  rfl

theorem nodeAt_mem_nodesAt (at_ : Nat) (entries : List Item) :
    nodeAt H at_ entries ∈ nodesAt H at_ entries := by
  rw [nodesAt_eq]
  exact List.mem_append_right _ (List.mem_singleton_self _)

/-- The nodes of a tree: its root and the nodes of its nonempty runs, one layer down. -/
theorem mem_nodesAt_succ {n : Nat} {entries : List Item} {m : Node} :
    m ∈ nodesAt H (n + 1) entries ↔ m = nodeAt H (n + 1) entries ∨
      ∃ run ∈ slots (n + 1) entries, run ≠ [] ∧ m ∈ nodesAt H n run := by
  rw [nodesAt, List.mem_append, List.mem_singleton, List.mem_flatMap, or_comm]
  refine or_congr_right (exists_congr fun run => and_congr_right fun _ => ?_)
  cases run with
  | nil => simp
  | cons item run => simp

/-- The link to a nonempty run, one layer down. -/
theorem linkAt_succ {n : Nat} {run : List Item} {c : Cid} :
    linkAt H (n + 1) run = some c ↔ run ≠ [] ∧ cidFor H (nodeAt H n run).bytes = c := by
  cases run with
  | nil => simp [linkAt]
  | cons item run => simp [linkAt]

/-- **Links between nodes stay in the tree.** -/
theorem exists_node_of_mem_children {at_ : Nat} {entries : List Item} {m : Node}
    (hm : m ∈ nodesAt H at_ entries) {c : Cid} (hc : c ∈ m.children) :
    ∃ m' ∈ nodesAt H at_ entries, cidFor H m'.bytes = c := by
  induction at_ generalizing entries with
  | zero =>
      obtain rfl : m = nodeAt H 0 entries := by simpa [nodesAt] using hm
      obtain ⟨run, -, hrun⟩ := (mem_children_nodeAt H).mp hc
      cases hrun
  | succ n ih =>
      rcases (mem_nodesAt_succ H).mp hm with rfl | ⟨run, hrun, hne, hm⟩
      · obtain ⟨run, hrun, hlink⟩ := (mem_children_nodeAt H).mp hc
        obtain ⟨hne, rfl⟩ := (linkAt_succ H).mp hlink
        exact ⟨_, (mem_nodesAt_succ H).mpr
          (Or.inr ⟨run, hrun, hne, nodeAt_mem_nodesAt H n run⟩), rfl⟩
      · obtain ⟨m', hm', hcid⟩ := ih hm
        exact ⟨m', (mem_nodesAt_succ H).mpr (Or.inr ⟨run, hrun, hne, hm'⟩), hcid⟩

/-- **Links to values are the values of the keys.** -/
theorem mem_values_iff {at_ : Nat} {entries : List Item}
    (h : ∀ item ∈ entries, item.layer ≤ at_) {v : Cid} :
    (∃ m ∈ nodesAt H at_ entries, v ∈ m.values) ↔ ∃ item ∈ entries, item.value = v := by
  induction at_ generalizing entries with
  | zero =>
      have hnodes : nodesAt H 0 entries = [nodeAt H 0 entries] := rfl
      have hentries : ∀ item, item ∈ entries ↔ item ∈ (segments 0 entries).2.map Prod.fst := by
        intro item
        rw [@mem_entries_iff 0 entries]
        refine or_iff_left ?_
        rintro ⟨run, hrun, hitem⟩
        rw [slots_zero_eq_nil h hrun] at hitem
        cases hitem
      simp only [hnodes, List.mem_singleton, exists_eq_left, values_nodeAt, hentries]
      exact List.mem_map
  | succ n ih =>
      constructor
      · rintro ⟨m, hm, hv⟩
        rcases (mem_nodesAt_succ H).mp hm with rfl | ⟨run, hrun, -, hm⟩
        · rw [values_nodeAt] at hv
          obtain ⟨item, hitem, rfl⟩ := List.mem_map.mp hv
          exact ⟨item, mem_entries_iff.mpr (Or.inl hitem), rfl⟩
        · obtain ⟨item, hitem, rfl⟩ :=
            (ih (layer_le_of_mem_slots h hrun)).mp ⟨m, hm, hv⟩
          exact ⟨item, mem_entries_iff.mpr (Or.inr ⟨run, hrun, hitem⟩), rfl⟩
      · rintro ⟨item, hitem, rfl⟩
        rcases (@mem_entries_iff (n + 1) entries item).mp hitem with hkey | ⟨run, hrun, hitem⟩
        · refine ⟨_, nodeAt_mem_nodesAt H (n + 1) entries, ?_⟩
          rw [values_nodeAt]
          exact List.mem_map_of_mem hkey
        · obtain ⟨m, hm, hv⟩ :=
            (ih (layer_le_of_mem_slots h hrun)).mpr ⟨item, hitem, rfl⟩
          exact ⟨m, (mem_nodesAt_succ H).mpr
            (Or.inr ⟨run, hrun, List.ne_nil_of_mem hitem, hm⟩), hv⟩

end Mst

/-! ## Links -/

/-- What a link leads to. -/
inductive Kind where
  | commit
  | node
  | record
  deriving DecidableEq, Repr

/-- One link in a block map. -/
inductive Link (blocks : Blocks) : Kind × Cid → Kind × Cid → Prop where
  | data {c bytes commit} : blocks[c]? = some bytes → decodeCommit bytes = .ok commit →
      Link blocks (.commit, c) (.node, commit.data)
  | child {c bytes n c'} : blocks[c]? = some bytes → Mst.decodeNode bytes = some n →
      c' ∈ n.children → Link blocks (.node, c) (.node, c')
  | value {c bytes n v} : blocks[c]? = some bytes → Mst.decodeNode bytes = some n →
      v ∈ n.values → Link blocks (.node, c) (.record, v)

/-- What links lead to from the root. -/
def Reaches (blocks : Blocks) (root : Cid) (k : Kind) (c : Cid) : Prop :=
  Relation.ReflTransGen (Link blocks) (.commit, root) (k, c)

variable {H : Sha256} {E : Ecdsa} {parse : Bytes → Option Cid}

/-- **Every node is reached from the root of its tree**, in a block map that has the nodes. -/
theorem reaches_nodesAt {blocks : Blocks} {at_ : Nat} {entries : List Mst.Item}
    (hblocks : ∀ n ∈ Mst.nodesAt H at_ entries, blocks[cidFor H n.bytes]? = some n.bytes)
    {m : Mst.Node} (hm : m ∈ Mst.nodesAt H at_ entries) :
    Relation.ReflTransGen (Link blocks) (.node, cidFor H (Mst.nodeAt H at_ entries).bytes)
      (.node, cidFor H m.bytes) := by
  induction at_ generalizing entries with
  | zero =>
      obtain rfl : m = Mst.nodeAt H 0 entries := by simpa [Mst.nodesAt] using hm
      exact .refl
  | succ n ih =>
      rcases (Mst.mem_nodesAt_succ H).mp hm with rfl | ⟨run, hrun, hne, hm⟩
      · exact .refl
      · have hrest := @ih run (fun m' hm' => hblocks m' ((Mst.mem_nodesAt_succ H).mpr
          (Or.inr ⟨run, hrun, hne, hm'⟩))) hm
        have hroot := hblocks _ (Mst.nodeAt_mem_nodesAt H (n + 1) entries)
        refine .head (.child hroot (Mst.decodeNode_bytes _) ?_) hrest
        exact (Mst.mem_children_nodeAt H).mpr ⟨run, hrun, (Mst.linkAt_succ H).mpr ⟨hne, rfl⟩⟩

/-- The nodes of a record set's tree. -/
def treeNodes (H : Sha256) (s : RecordSet) : List Mst.Node :=
  Mst.nodesAt H (Mst.topLayer (Mst.items H s.mapping)) (Mst.items H s.mapping)

theorem nodeBlocks_eq (s : RecordSet) :
    Mst.nodeBlocks H s.mapping = (treeNodes H s).map Mst.Node.bytes :=
  rfl

theorem value_mem_items {s : RecordSet} {v : Cid} :
    (∃ item ∈ Mst.items H s.mapping, item.value = v) ↔
      ∃ (path : Bytes) (record : Record), s.records[path]? = some record ∧ record.cid = v := by
  simp only [Mst.items, List.mem_map, Prod.exists, BTreeMap.mem_toList, RecordSet.mapping,
    Std.ExtTreeMap.getElem?_map, Option.map_eq_some_iff]
  constructor
  · rintro ⟨item, ⟨path, c, ⟨record, hrecord, rfl⟩, rfl⟩, rfl⟩
    exact ⟨path, record, hrecord, rfl⟩
  · rintro ⟨path, record, hrecord, rfl⟩
    exact ⟨_, ⟨path, record.cid, ⟨record, hrecord, rfl⟩, rfl⟩, rfl⟩

/-! ## Built repositories -/

section

variable {did rev : Bytes} {s : RecordSet} {signer : E.SigningKey}

/-- The blocks of a snapshot are found under their addresses. -/
theorem getElem?_repositoryFor
    (hfree : Cas.CollisionFree (cidFor H) (allBlocks H E did rev s signer)) {b : Bytes}
    (hb : b ∈ allBlocks H E did rev s signer) :
    (repositoryFor H E did rev s signer).blocks[cidFor H b]? = some b :=
  Cas.getElem?_insertAll_of_mem hfree hb

theorem node_mem_allBlocks {n : Mst.Node} (hn : n ∈ treeNodes H s) :
    n.bytes ∈ allBlocks H E did rev s signer := by
  rw [allBlocks, nodeBlocks_eq]
  exact List.mem_append_left _ (List.mem_append_left _ (List.mem_map_of_mem hn))

theorem commit_mem_allBlocks :
    commitBytes H E did rev s signer ∈ allBlocks H E did rev s signer := by
  rw [allBlocks]
  exact List.mem_append_right _ (List.mem_singleton_self _)

theorem decodeCommit_commitBytes :
    decodeCommit (commitBytes H E did rev s signer) = .ok (commitFor H E did rev s signer) :=
  decodeCommit_encode (by decide : 3 < 2 ^ 64)

/-- The blocks of each kind a snapshot should have. -/
def Present (H : Sha256) (s : RecordSet) (root : Cid) : Kind × Cid → Prop
  | (.commit, c) => c = root
  | (.node, c) => ∃ n ∈ treeNodes H s, cidFor H n.bytes = c
  | (.record, c) => ∃ (path : Bytes) (record : Record),
      s.records[path]? = some record ∧ record.cid = c

/-- **What links reach is what should be there**: the commit, the nodes of the tree and the records
of the set. -/
theorem reaches_iff (hfree : Cas.CollisionFree (cidFor H) (allBlocks H E did rev s signer))
    {k : Kind} {c : Cid} :
    Reaches (repositoryFor H E did rev s signer).blocks
        (cidFor H (commitBytes H E did rev s signer)) k c ↔
      Present H s (cidFor H (commitBytes H E did rev s signer)) (k, c) := by
  have hcommit := getElem?_repositoryFor hfree commit_mem_allBlocks
  have hnode : ∀ n ∈ treeNodes H s,
      (repositoryFor H E did rev s signer).blocks[cidFor H n.bytes]? = some n.bytes :=
    fun n hn => getElem?_repositoryFor hfree (node_mem_allBlocks hn)
  have hroot : Mst.nodeAt H (Mst.topLayer (Mst.items H s.mapping)) (Mst.items H s.mapping) ∈
      treeNodes H s := Mst.nodeAt_mem_nodesAt H _ _
  have hvalues := fun v =>
    @Mst.mem_values_iff H _ _ (Mst.layer_le_topLayer (Mst.items H s.mapping)) v
  constructor
  · -- each step from what should be there leads to what should be there
    intro h
    unfold Reaches at h
    generalize hx : (k, c) = x at h ⊢
    clear hx
    induction h with
    | refl => rfl
    | @tail y z _ hstep ih =>
        cases hstep with
        | @data c bytes commit hget hdecode =>
            obtain rfl : c = _ := ih
            rw [hcommit] at hget
            obtain rfl := Option.some.inj hget
            rw [decodeCommit_commitBytes] at hdecode
            obtain rfl := Except.ok.inj hdecode
            exact ⟨_, hroot, rfl⟩
        | @child c bytes n c' hget hdecode hchild =>
            obtain ⟨m, hm, rfl⟩ := ih
            rw [hnode m hm] at hget
            obtain rfl := Option.some.inj hget
            rw [Mst.decodeNode_bytes] at hdecode
            obtain rfl := Option.some.inj hdecode
            exact Mst.exists_node_of_mem_children H hm hchild
        | @value c bytes n v hget hdecode hvalue =>
            obtain ⟨m, hm, rfl⟩ := ih
            rw [hnode m hm] at hget
            obtain rfl := Option.some.inj hget
            rw [Mst.decodeNode_bytes] at hdecode
            obtain rfl := Option.some.inj hdecode
            exact value_mem_items.mp ((hvalues v).mp ⟨m, hm, hvalue⟩)
  · have hdata : Reaches (repositoryFor H E did rev s signer).blocks
        (cidFor H (commitBytes H E did rev s signer)) .node (Mst.rootCid H s.mapping) :=
      .single (.data hcommit decodeCommit_commitBytes)
    intro h
    cases k with
    | commit =>
        obtain rfl : c = _ := h
        exact .refl
    | node =>
        obtain ⟨n, hn, rfl⟩ := h
        exact hdata.trans (reaches_nodesAt hnode hn)
    | record =>
        obtain ⟨m, hm, hvalue⟩ := (hvalues c).mpr (value_mem_items.mpr h)
        exact (hdata.trans (reaches_nodesAt hnode hm)).tail
          (.value (hnode m hm) (Mst.decodeNode_bytes m) hvalue)

/-- The addresses in a snapshot. -/
theorem mem_repositoryFor (hs : s.Valid H parse) {c : Cid} :
    c ∈ (repositoryFor H E did rev s signer).blocks ↔
      ∃ k, Present H s (cidFor H (commitBytes H E did rev s signer)) (k, c) := by
  have hrecords : (∃ b ∈ recordBlocks s, cidFor H b = c) ↔
      ∃ (path : Bytes) (record : Record), s.records[path]? = some record ∧ record.cid = c := by
    simp only [recordBlocks, List.mem_map, Prod.exists]
    constructor
    · rintro ⟨_, ⟨path, record, hmem, rfl⟩, rfl⟩
      exact ⟨path, record, BTreeMap.mem_toList.mp hmem, (hs.cid_eq _ hmem).symm⟩
    · rintro ⟨path, record, hget, rfl⟩
      have hmem : (path, record) ∈ s.records.toList := BTreeMap.mem_toList.mpr hget
      exact ⟨_, ⟨path, record, hmem, rfl⟩, hs.cid_eq _ hmem⟩
  have hnodes : (∃ b ∈ Mst.nodeBlocks H s.mapping, cidFor H b = c) ↔
      ∃ n ∈ treeNodes H s, cidFor H n.bytes = c := by
    rw [nodeBlocks_eq]
    simp only [List.mem_map, exists_exists_and_eq_and]
  have hmem : c ∈ (repositoryFor H E did rev s signer).blocks ↔
      ∃ b ∈ allBlocks H E did rev s signer, cidFor H b = c := by
    unfold repositoryFor
    rw [Cas.mem_insertAll, or_iff_left (by simp)]
  rw [hmem]
  simp only [allBlocks, List.mem_append, List.mem_singleton, or_and_right, exists_or,
    exists_eq_left, hnodes, hrecords]
  constructor
  · rintro ((h | h) | h)
    · exact ⟨.node, h⟩
    · exact ⟨.record, h⟩
    · exact ⟨.commit, h.symm⟩
  · rintro ⟨k, h⟩
    cases k with
    | commit => exact Or.inr (Eq.symm h)
    | node => exact Or.inl (Or.inl h)
    | record => exact Or.inl (Or.inr h)

end

/-- **A built repository is closed and leaks nothing.** Every link that is reached from its root, of
the commit, of a tree node or of an entry, resolves; every block is reached; the addresses are those
of the commit, of the tree's nodes and of the records now in the set; and the export has these
blocks and no others. -/
theorem build_closed {did rev : Bytes} (hmeta : Syntax.metadata did rev = .ok ())
    (calls : List Call) (signer : E.SigningKey)
    (hfree : Cas.CollisionFree (cidFor H)
      (allBlocks H E did rev (runCalls H parse calls .new) signer)) :
    ∃ r, build H E did rev (runCalls H parse calls .new) signer = .ok r ∧
      (∀ k c, Reaches r.blocks r.root k c → c ∈ r.blocks) ∧
      (∀ c, c ∈ r.blocks → ∃ k, Reaches r.blocks r.root k c) ∧
      (∀ c, c ∈ r.blocks ↔ c = r.root ∨
        (∃ n ∈ treeNodes H (runCalls H parse calls .new), cidFor H n.bytes = c) ∨
        ∃ (path : Bytes) (record : Record),
          (runCalls H parse calls .new).records[path]? = some record ∧ record.cid = c) ∧
      ∃ car listed, r.toCar = .ok car ∧ Car.readCar car = some (⟨[r.root], 1⟩, listed) ∧
        ∀ c bytes, (c, bytes) ∈ listed ↔ r.blocks[c]? = some bytes := by
  have hs : (runCalls H parse calls .new).Valid H parse := valid_runCalls valid_new calls
  refine ⟨_, build_eq hmeta hs signer, ?_, ?_, ?_, ?_⟩
  · intro k c h
    exact (mem_repositoryFor hs).mpr ⟨k, (reaches_iff hfree).mp h⟩
  · intro c h
    obtain ⟨k, hk⟩ := (mem_repositoryFor hs).mp h
    exact ⟨k, (reaches_iff hfree).mpr hk⟩
  · intro c
    rw [mem_repositoryFor hs]
    constructor
    · rintro ⟨k, h⟩
      cases k with
      | commit => exact Or.inl h
      | node => exact Or.inr (Or.inl h)
      | record => exact Or.inr (Or.inr h)
    · rintro (h | h | h)
      · exact ⟨.commit, h⟩
      · exact ⟨.node, h⟩
      · exact ⟨.record, h⟩
  · have hroot := getElem?_repositoryFor hfree commit_mem_allBlocks
    obtain ⟨car, hcar, hread⟩ := (Car.readCar_exportCar hroot).1
    exact ⟨car, _, hcar, hread, fun c bytes => Car.mem_exportOrder hroot⟩

/-- One post is left: with the tree and the commit it makes three blocks, all of them reached. -/
theorem build_closed_sample :
    ∃ r, build sha2 sampleEcdsa sampleDid sampleRev (runCalls sha2 Cid.ofBase32 sampleCalls .new)
        sampleSigner = .ok r ∧
      (∀ c, c ∈ r.blocks ↔ ∃ k, Reaches r.blocks r.root k c) ∧ r.blocks.size = 3 := by
  obtain ⟨r, hbuild, hresolve, hreach, -, -⟩ := @build_closed sha2 sampleEcdsa Cid.ofBase32
    sampleDid sampleRev sample_metadata sampleCalls sampleSigner sample_collisionFree
  have hsize : (repositoryFor sha2 sampleEcdsa sampleDid sampleRev
      (runCalls sha2 Cid.ofBase32 sampleCalls .new) sampleSigner).blocks.size = 3 := by
    decide +kernel
  have hr := hbuild
  rw [build_eq sample_metadata (valid_runCalls valid_new sampleCalls)] at hr
  obtain rfl := Except.ok.inj hr
  exact ⟨_, hbuild, fun c => ⟨hreach c, fun ⟨k, hk⟩ => hresolve k c hk⟩, hsize⟩

end PurpleSky.Repo
