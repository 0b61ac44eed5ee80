import PurpleSky.Repo.Basic

/-!
# Merkle search tree construction (`mst.rs`)

`build` turns a sorted map into node blocks. A node at layer `at` holds the keys of that layer,
each compressed against the previous key of the same node, and links to the nodes of the layer
below that hold the keys in between.

The model follows the source statement by statement: `anchors` are positions, the slices between
them go to `child`, and blocks are inserted into a shared map. Over it stands the canonical tree as
a function of the layer and the keys (`nodeAt`, `nodesAt`), cut by `segments` instead of positions.

* **`subtree_eq`**: `subtree` never fails on keys of layers at most `at`; it returns the address of
  `nodeAt` and files exactly the blocks of `nodesAt`.
* `decodeTree` reads blocks back in key order, and **`decodeTree_nodeAt`**: what it reads from the
  blocks of `nodesAt` is the list of keys and values.
-/

namespace PurpleSky.Repo.Mst

/-- One key of a node: `p` bytes shared with the previous key, the other bytes, the value, and the
subtree after the key.
Source: `mst.rs`, `Entry` -/
structure Entry where
  p : Nat
  k : Bytes
  v : Cid
  t : Option Cid
  deriving DecidableEq, Repr

/-- A tree node: the subtree before its first key, and its keys.
Source: `mst.rs`, `Node` -/
structure Node where
  l : Option Cid
  e : List Entry
  deriving DecidableEq, Repr

/-- A key with its value and its layer: the source's triple. -/
structure Item where
  key : Bytes
  value : Cid
  layer : Nat
  deriving DecidableEq, Repr

/-! ## Serialization -/

/-- The derived serialization of an entry. -/
def Entry.toIpld (e : Entry) : Ipld :=
  .map [(str "k", .bytes e.k), (str "p", .integer e.p), (str "t", linkOrNull e.t),
    (str "v", .link e.v)]

/-- The derived serialization of a node. -/
def Node.toIpld (n : Node) : Ipld :=
  .map [(str "e", .list (n.e.map Entry.toIpld)), (str "l", linkOrNull n.l)]

/-- The block of a node. -/
def Node.bytes (n : Node) : Bytes := encode n.toIpld

/-- Read an entry. -/
def Entry.ofIpld? : Ipld → Option Entry
  | .map [(k₁, .bytes k), (k₂, .integer p), (k₃, t), (k₄, .link v)] =>
      if k₁ = str "k" ∧ k₂ = str "p" ∧ k₃ = str "t" ∧ k₄ = str "v" ∧ 0 ≤ p then
        (linkOrNull? t).map fun t => ⟨p.toNat, k, v, t⟩
      else none
  | _ => none

/-- Read a node. -/
def Node.ofIpld? : Ipld → Option Node
  | .map [(k₁, .list e), (k₂, l)] =>
      if k₁ = str "e" ∧ k₂ = str "l" then do
        let e ← e.mapM Entry.ofIpld?
        let l ← linkOrNull? l
        pure ⟨l, e⟩
      else none
  | _ => none

theorem Entry.ofIpld?_toIpld (e : Entry) : Entry.ofIpld? e.toIpld = some e := by
  simp [Entry.ofIpld?, Entry.toIpld]

theorem Node.ofIpld?_toIpld (n : Node) : Node.ofIpld? n.toIpld = some n := by
  have he : ∀ es : List Entry, (es.map Entry.toIpld).mapM Entry.ofIpld? = some es := by
    intro es
    induction es with
    | nil => rfl
    | cons e es ih => simp [Entry.ofIpld?_toIpld, ih]
  simp [Node.ofIpld?, Node.toIpld, he]

theorem Entry.toIpld_sorted (e : Entry) : e.toIpld.Sorted := by
  refine .map (by simp [Ipld.FieldLt]; decide) ?_
  simp only [List.mem_cons, List.not_mem_nil, or_false, forall_eq_or_imp, forall_eq]
  exact ⟨.bytes _, .integer _, linkOrNull_sorted _, .link _⟩

theorem Node.toIpld_sorted (n : Node) : n.toIpld.Sorted := by
  refine .map (by simp [Ipld.FieldLt]; decide) ?_
  simp only [List.mem_cons, List.not_mem_nil, or_false, forall_eq_or_imp, forall_eq]
  refine ⟨.list ?_, linkOrNull_sorted _⟩
  intro x hx
  obtain ⟨e, -, rfl⟩ := List.mem_map.mp hx
  exact e.toIpld_sorted

/-- The node a block holds. -/
def decodeNode (bytes : Bytes) : Option Node := (DagCbor.decode bytes).bind Node.ofIpld?

@[simp] theorem decodeNode_bytes (n : Node) : decodeNode n.bytes = some n := by
  rw [decodeNode, Node.bytes, encode, DagCbor.decode_encode n.toIpld_sorted, Option.bind_some,
    Node.ofIpld?_toIpld]

/-! ## Layers -/

/-- Leading zero bits of a byte. -/
def leadingZeros (b : UInt8) : Nat := if b = 0 then 8 else 7 - Nat.log2 b.toNat

/-- Leading zero bits of a byte string. -/
def zeroBits : Bytes → Nat
  | [] => 0
  | b :: rest => leadingZeros b + if b ≠ 0 then 0 else zeroBits rest

/-- The layer of a key: leading zero bits of its hash, in pairs.
Source: `mst.rs`, `layer` -/
def layer (H : Sha256) (key : Bytes) : Nat := zeroBits (H.digest key) / 2

variable (H : Sha256)

/-! ## Construction -/

/-- Positions of the keys of this layer. -/
def anchors (entries : List Item) (at_ : Nat) : List Nat :=
  entries.zipIdx.filterMap fun (item, i) => if item.layer = at_ then some i else none

/-- A slice by positions, which aborts out of range. -/
def slice (entries : List Item) (start stop : Nat) : Except Error (List Item) :=
  if start ≤ stop ∧ stop ≤ entries.length then .ok ((entries.take stop).drop start)
  else .error (.panic "slice index out of range")

/-- Length of the common prefix. -/
def commonPrefix (previous key : Bytes) : Nat :=
  ((previous.zip key).takeWhile fun (a, b) => a = b).length

/-- Builds the subtree of a slice, if it has keys. -/
abbrev Child := List Item → Blocks → Except Error (Option Cid × Blocks)

/-- The loop of `subtree` over its anchors. The anchor after the present one, or the end, bounds
the slice of its subtree. -/
def encodeEntries (child : Child) (entries : List Item) :
    List Nat → Bytes → Blocks → Except Error (List Entry × Blocks)
  | [], _, blocks => .ok ([], blocks)
  | start :: rest, previous, blocks => do
      let some item := entries[start]? | .error (.panic "index out of bounds")
      let stop := rest.head?.getD entries.length
      let (tree, blocks) ← child (← slice entries (start + 1) stop) blocks
      let p := commonPrefix previous item.key
      let (tail, blocks) ← encodeEntries child entries rest item.key blocks
      pure (⟨p, item.key.drop p, item.value, tree⟩ :: tail, blocks)

/-- The body of `subtree`, over the function that builds its children.
Source: `mst.rs`, `subtree` -/
def subtreeWith (child : Child) (entries : List Item) (at_ : Nat) (blocks : Blocks) :
    Except Error (Cid × Blocks) := do
  let anchors := anchors entries at_
  let leftEnd := anchors.head?.getD entries.length
  let (left, blocks) ← child (← slice entries 0 leftEnd) blocks
  let (encodedEntries, blocks) ← encodeEntries child entries anchors [] blocks
  let bytes := Node.bytes ⟨left, encodedEntries⟩
  let cid := cidFor H bytes
  pure (cid, blocks.insert cid bytes)

/-- A node and everything below it. The recursion is on the layer: `child` descends one layer, and
below layer zero there is none.
Source: `mst.rs`, `subtree` and `child` -/
def subtree (entries : List Item) (at_ : Nat) (blocks : Blocks) : Except Error (Cid × Blocks) :=
  match at_ with
  | 0 => subtreeWith H (fun entries blocks =>
      if entries.isEmpty then .ok (none, blocks)
      else .error (.verification "MST layer underflow")) entries 0 blocks
  | n + 1 => subtreeWith H (fun entries blocks =>
      if entries.isEmpty then .ok (none, blocks)
      else (subtree entries n blocks).map fun (cid, blocks) => (some cid, blocks))
      entries (n + 1) blocks

/-- The subtree of a slice one layer down, if it has keys.
Source: `mst.rs`, `child` -/
def child (parentLayer : Nat) : Child := fun entries blocks =>
  if entries.isEmpty then .ok (none, blocks)
  else
    match parentLayer with
    | 0 => .error (.verification "MST layer underflow")
    | n + 1 => (subtree H entries n blocks).map fun (cid, blocks) => (some cid, blocks)

/-- The two functions of the source call each other. -/
theorem subtree_eq_subtreeWith (entries : List Item) (at_ : Nat) (blocks : Blocks) :
    subtree H entries at_ blocks = subtreeWith H (child H at_) entries at_ blocks := by
  cases at_ <;> rfl

/-- The keys of a map with their layers. -/
def items (mapping : BTreeMap Bytes Cid) : List Item :=
  mapping.toList.map fun (k, v) => ⟨k, v, layer H k⟩

/-- The highest occupied layer. -/
def topLayer (entries : List Item) : Nat := ((entries.map Item.layer).max?).getD 0

/-- Build the tree of a map.
Source: `mst.rs`, `build` -/
def build (mapping : BTreeMap Bytes Cid) (blocks : Blocks) : Except Error (Cid × Blocks) :=
  subtree H (items H mapping) (topLayer (items H mapping)) blocks

/-! ## The canonical tree -/

/-- Cut a list at the keys of a layer: what stands before the first of them, and each of them with
what follows it. -/
def segments (at_ : Nat) : List Item → List Item × List (Item × List Item)
  | [] => ([], [])
  | item :: rest =>
      if item.layer = at_ then ([], (item, (segments at_ rest).1) :: (segments at_ rest).2)
      else (item :: (segments at_ rest).1, (segments at_ rest).2)

/-- The runs between the keys of a layer: one for each link of a node. -/
def slots (at_ : Nat) (entries : List Item) : List (List Item) :=
  (segments at_ entries).1 :: (segments at_ entries).2.map Prod.snd

/-- The entries of a node, each key compressed against the one before it. -/
def entriesOf (link : List Item → Option Cid) : Bytes → List (Item × List Item) → List Entry
  | _, [] => []
  | previous, (item, run) :: rest =>
      ⟨commonPrefix previous item.key, item.key.drop (commonPrefix previous item.key), item.value,
        link run⟩ :: entriesOf link item.key rest

/-- A node over the links of its runs. -/
def nodeWith (link : List Item → Option Cid) (at_ : Nat) (entries : List Item) : Node :=
  ⟨link (segments at_ entries).1, entriesOf link [] (segments at_ entries).2⟩

/-- The root node of the canonical tree of a layer. -/
def nodeAt : Nat → List Item → Node
  | 0, entries => nodeWith (fun _ => none) 0 entries
  | n + 1, entries => nodeWith
      (fun run => if run.isEmpty then none else some (cidFor H (nodeAt n run).bytes)) (n + 1) entries

/-- The link to a run in a node of a layer. -/
def linkAt (at_ : Nat) (run : List Item) : Option Cid :=
  match at_ with
  | 0 => none
  | n + 1 => if run.isEmpty then none else some (cidFor H (nodeAt H n run).bytes)

theorem nodeAt_eq (at_ : Nat) (entries : List Item) :
    nodeAt H at_ entries = nodeWith (linkAt H at_) at_ entries := by
  cases at_ <;> rfl

/-- All nodes of the canonical tree, children before parents, in the order they are filed. -/
def nodesAt : Nat → List Item → List Node
  | 0, entries => [nodeAt H 0 entries]
  | n + 1, entries =>
      (slots (n + 1) entries).flatMap (fun run => if run.isEmpty then [] else nodesAt n run) ++
        [nodeAt H (n + 1) entries]

/-- The nodes below a link. -/
def nodesBelow (at_ : Nat) (run : List Item) : List Node :=
  match at_ with
  | 0 => []
  | n + 1 => if run.isEmpty then [] else nodesAt H n run

theorem nodesAt_eq (at_ : Nat) (entries : List Item) :
    nodesAt H at_ entries =
      (slots at_ entries).flatMap (nodesBelow H at_) ++ [nodeAt H at_ entries] := by
  cases at_ with
  | zero =>
      have : (slots 0 entries).flatMap (nodesBelow H 0) = [] := by simp [nodesBelow]
      rw [this]
      rfl
  | succ n => rfl

/-- File the blocks of nodes. -/
def store (nodes : List Node) (blocks : Blocks) : Blocks :=
  Cas.insertAll (cidFor H) (nodes.map Node.bytes) blocks

theorem store_append (nodes more : List Node) (blocks : Blocks) :
    store H (nodes ++ more) blocks = store H more (store H nodes blocks) := by
  simp [store, Cas.insertAll_append]

/-! ### Runs -/

theorem segments_flatten (at_ : Nat) (entries : List Item) :
    (segments at_ entries).1 ++ (segments at_ entries).2.flatMap (fun (item, run) => item :: run) =
      entries := by
  induction entries with
  | nil => rfl
  | cons item rest ih =>
      unfold segments
      split_ifs with h
      · simpa using ih
      · simpa using ih

theorem layer_of_mem_slots {at_ : Nat} {entries run : List Item} (hrun : run ∈ slots at_ entries)
    {item : Item} (hitem : item ∈ run) : item ∈ entries ∧ item.layer ≠ at_ := by
  induction entries generalizing run with
  | nil =>
      simp only [slots, segments, List.map_nil, List.mem_singleton] at hrun
      subst hrun
      cases hitem
  | cons x rest ih =>
      unfold slots segments at hrun
      split_ifs at hrun with h
      · rcases List.mem_cons.mp hrun with rfl | hrun
        · cases hitem
        · obtain ⟨hmem, hne⟩ := ih hrun hitem
          exact ⟨List.mem_cons_of_mem _ hmem, hne⟩
      · rcases List.mem_cons.mp hrun with rfl | hrun
        · rcases List.mem_cons.mp hitem with rfl | hitem
          · exact ⟨List.mem_cons_self, h⟩
          · obtain ⟨hmem, hne⟩ := ih List.mem_cons_self hitem
            exact ⟨List.mem_cons_of_mem _ hmem, hne⟩
        · obtain ⟨hmem, hne⟩ := ih (List.mem_cons_of_mem _ hrun) hitem
          exact ⟨List.mem_cons_of_mem _ hmem, hne⟩

/-- Below the layer of a node its runs hold lower keys only. -/
theorem layer_le_of_mem_slots {n : Nat} {entries run : List Item}
    (h : ∀ item ∈ entries, item.layer ≤ n + 1) (hrun : run ∈ slots (n + 1) entries) :
    ∀ item ∈ run, item.layer ≤ n := by
  intro item hitem
  obtain ⟨hmem, hne⟩ := layer_of_mem_slots hrun hitem
  have := h item hmem
  omega

theorem slots_zero_eq_nil {entries run : List Item} (h : ∀ item ∈ entries, item.layer ≤ 0)
    (hrun : run ∈ slots 0 entries) : run = [] := by
  rw [List.eq_nil_iff_forall_not_mem]
  intro item hitem
  obtain ⟨hmem, hne⟩ := layer_of_mem_slots hrun hitem
  have := h item hmem
  omega

/-! ### Positions and runs -/

/-- Anchors of a list that starts at position `k`. -/
def anchorsFrom (at_ k : Nat) (entries : List Item) : List Nat :=
  (entries.zipIdx k).filterMap fun (item, i) => if item.layer = at_ then some i else none

theorem anchorsFrom_cons (at_ k : Nat) (item : Item) (rest : List Item) :
    anchorsFrom at_ k (item :: rest) =
      if item.layer = at_ then k :: anchorsFrom at_ (k + 1) rest
      else anchorsFrom at_ (k + 1) rest := by
  by_cases h : item.layer = at_ <;> simp [anchorsFrom, h]

/-- The first anchor, or the end, is where the first run ends. -/
theorem head?_anchorsFrom (at_ k : Nat) (entries : List Item) :
    (anchorsFrom at_ k entries).head?.getD (k + entries.length) =
      k + (segments at_ entries).1.length := by
  induction entries generalizing k with
  | nil => simp [anchorsFrom, segments]
  | cons item rest ih =>
      rw [anchorsFrom_cons, segments]
      split_ifs with h
      · simp
      · have := ih (k + 1)
        simp only [List.length_cons]
        rw [show k + (rest.length + 1) = k + 1 + rest.length by omega, this]
        omega

theorem slice_run (done run tail : List Item) :
    slice (done ++ (run ++ tail)) done.length (done.length + run.length) = .ok run := by
  rw [slice, if_pos (by simp), ← List.append_assoc, ← List.length_append, List.take_left,
    List.drop_left]

/-- The loop of `subtree` over runs instead of positions. -/
def encodeSegments (child : Child) :
    List (Item × List Item) → Bytes → Blocks → Except Error (List Entry × Blocks)
  | [], _, blocks => .ok ([], blocks)
  | (item, run) :: rest, previous, blocks => do
      let (tree, blocks) ← child run blocks
      let (tail, blocks) ← encodeSegments child rest item.key blocks
      pure (⟨commonPrefix previous item.key, item.key.drop (commonPrefix previous item.key),
        item.value, tree⟩ :: tail, blocks)

/-- The anchors of a suffix cut the whole list exactly at the suffix's runs. -/
theorem encodeEntries_eq (child : Child) (at_ : Nat) (done entries : List Item) (previous : Bytes)
    (blocks : Blocks) :
    encodeEntries child (done ++ entries) (anchorsFrom at_ done.length entries) previous blocks =
      encodeSegments child (segments at_ entries).2 previous blocks := by
  induction entries generalizing done previous blocks with
  | nil => rfl
  | cons item rest ih =>
      have hnext : ∀ (previous : Bytes) (blocks : Blocks),
          encodeEntries child (done ++ item :: rest) (anchorsFrom at_ (done.length + 1) rest)
            previous blocks = encodeSegments child (segments at_ rest).2 previous blocks := by
        intro previous blocks
        have := ih (done ++ [item]) previous blocks
        rwa [List.append_assoc, List.singleton_append, List.length_append,
          List.length_singleton] at this
      rw [anchorsFrom_cons, segments]
      split_ifs with h
      · have hget : (done ++ item :: rest)[done.length]? = some item := by simp
        have hstop : (anchorsFrom at_ (done.length + 1) rest).head?.getD
            (done ++ item :: rest).length = done.length + 1 + (segments at_ rest).1.length := by
          rw [← head?_anchorsFrom]
          congr 1
          simp only [List.length_append, List.length_cons]
          omega
        have hslice : slice (done ++ item :: rest) (done.length + 1)
            (done.length + 1 + (segments at_ rest).1.length) = .ok (segments at_ rest).1 := by
          have := slice_run (done ++ [item]) (segments at_ rest).1
            ((segments at_ rest).2.flatMap fun (item, run) => item :: run)
          rwa [segments_flatten, List.append_assoc, List.singleton_append, List.length_append,
            List.length_singleton] at this
        simp only [encodeEntries, hget, hstop, hslice, encodeSegments, hnext, bind, Except.bind]
      · exact hnext previous blocks

/-- `subtree` over runs. -/
theorem subtreeWith_eq (child : Child) (entries : List Item) (at_ : Nat) (blocks : Blocks) :
    subtreeWith H child entries at_ blocks = (do
      let (left, blocks) ← child (segments at_ entries).1 blocks
      let (encoded, blocks) ← encodeSegments child (segments at_ entries).2 [] blocks
      pure (cidFor H (Node.bytes ⟨left, encoded⟩),
        blocks.insert (cidFor H (Node.bytes ⟨left, encoded⟩)) (Node.bytes ⟨left, encoded⟩))) := by
  have hanchors : anchors entries at_ = anchorsFrom at_ 0 entries := rfl
  have hend : (anchorsFrom at_ 0 entries).head?.getD entries.length =
      0 + (segments at_ entries).1.length := by
    have := head?_anchorsFrom at_ 0 entries
    rwa [Nat.zero_add entries.length] at this
  have hslice : slice entries 0 (0 + (segments at_ entries).1.length) =
      .ok (segments at_ entries).1 := by
    have := slice_run [] (segments at_ entries).1
      ((segments at_ entries).2.flatMap fun (item, run) => item :: run)
    rwa [segments_flatten, List.nil_append] at this
  have hloop := encodeEntries_eq child at_ [] entries []
  simp only [List.nil_append, List.length_nil] at hloop
  simp only [subtreeWith, hanchors, hend, hslice, hloop, bind, Except.bind]

/-! ### Construction builds the canonical tree -/

/-- The loop over runs whose subtrees are built as `link` and `nodes` say. -/
theorem encodeSegments_eq {child : Child} {link : List Item → Option Cid}
    {nodes : List Item → List Node} {segs : List (Item × List Item)}
    (hchild : ∀ seg ∈ segs, ∀ blocks,
      child seg.2 blocks = .ok (link seg.2, store H (nodes seg.2) blocks)) :
    ∀ previous blocks, encodeSegments child segs previous blocks =
      .ok (entriesOf link previous segs,
        store H ((segs.map Prod.snd).flatMap nodes) blocks) := by
  induction segs with
  | nil => exact fun _ _ => rfl
  | cons seg segs ih =>
      intro previous blocks
      obtain ⟨item, run⟩ := seg
      have hrun := hchild (item, run) List.mem_cons_self
      have htail := ih fun seg h => hchild seg (List.mem_cons_of_mem _ h)
      simp only at hrun
      simp only [encodeSegments, entriesOf, hrun, htail, bind, Except.bind, pure, Except.pure,
        List.map_cons, List.flatMap_cons, store_append]

/-- **Construction is total and canonical**: over keys of layers at most `at_`, `subtree` returns
the address of the canonical node and files exactly the canonical nodes. -/
theorem subtree_eq {at_ : Nat} {entries : List Item} (h : ∀ item ∈ entries, item.layer ≤ at_)
    (blocks : Blocks) :
    subtree H entries at_ blocks =
      .ok (cidFor H (nodeAt H at_ entries).bytes, store H (nodesAt H at_ entries) blocks) := by
  induction at_ generalizing entries blocks with
  | zero =>
      have hchild : ∀ run ∈ slots 0 entries, ∀ blocks,
          child H 0 run blocks = .ok (linkAt H 0 run, store H (nodesBelow H 0 run) blocks) := by
        intro run hrun blocks
        rw [slots_zero_eq_nil h hrun]
        rfl
      have hleft := hchild _ List.mem_cons_self
      have hloop := @encodeSegments_eq H _ _ (nodesBelow H 0) _
        fun seg hseg => hchild seg.2 (List.mem_cons_of_mem _ (List.mem_map_of_mem hseg))
      rw [subtree_eq_subtreeWith, subtreeWith_eq]
      simp only [hleft, hloop, bind, Except.bind, pure, Except.pure, nodesAt_eq, nodeAt_eq, slots,
        List.flatMap_cons, store_append]
      rfl
  | succ n ih =>
      have hchild : ∀ run ∈ slots (n + 1) entries, ∀ blocks,
          child H (n + 1) run blocks =
            .ok (linkAt H (n + 1) run, store H (nodesBelow H (n + 1) run) blocks) := by
        intro run hrun blocks
        by_cases hempty : run.isEmpty
        · simp [child, linkAt, nodesBelow, hempty, store]
        · simp only [child, linkAt, nodesBelow, hempty, if_false,
            ih (layer_le_of_mem_slots h hrun) blocks, Except.map, Bool.false_eq_true]
      have hleft := hchild _ List.mem_cons_self
      have hloop := @encodeSegments_eq H _ _ (nodesBelow H (n + 1)) _
        fun seg hseg => hchild seg.2 (List.mem_cons_of_mem _ (List.mem_map_of_mem hseg))
      rw [subtree_eq_subtreeWith, subtreeWith_eq]
      simp only [hleft, hloop, bind, Except.bind, pure, Except.pure, nodesAt_eq, nodeAt_eq, slots,
        List.flatMap_cons, store_append]
      rfl

theorem layer_le_topLayer (entries : List Item) :
    ∀ item ∈ entries, item.layer ≤ topLayer entries := by
  intro item hitem
  have hmem : item.layer ∈ entries.map Item.layer := List.mem_map_of_mem hitem
  unfold topLayer
  rcases hmax : (entries.map Item.layer).max? with _ | m
  · rw [List.max?_eq_none_iff] at hmax
    rw [hmax] at hmem
    cases hmem
  · exact (List.max?_eq_some_iff.mp hmax).2 _ hmem

/-- The root node of a map's tree. -/
def rootNode (mapping : BTreeMap Bytes Cid) : Node :=
  nodeAt H (topLayer (items H mapping)) (items H mapping)

/-- The node blocks of a map's tree. -/
def nodeBlocks (mapping : BTreeMap Bytes Cid) : List Bytes :=
  (nodesAt H (topLayer (items H mapping)) (items H mapping)).map Node.bytes

/-- The address of a map's tree. -/
def rootCid (mapping : BTreeMap Bytes Cid) : Cid := cidFor H (rootNode H mapping).bytes

/-- `build` succeeds on every map, with the canonical root and blocks. -/
theorem build_eq (mapping : BTreeMap Bytes Cid) (blocks : Blocks) :
    build H mapping blocks =
      .ok (rootCid H mapping, Cas.insertAll (cidFor H) (nodeBlocks H mapping) blocks) :=
  subtree_eq H (layer_le_topLayer _) blocks

/-! ## Reading a tree back -/

/-- The keys and values of a run of entries: each key is the first `p` bytes of the previous key of
the node and the bytes of the entry; the keys of its subtree follow it. -/
def decodeEntries (link : Option Cid → Option (List (Bytes × Cid))) :
    Bytes → List Entry → Option (List (Bytes × Cid))
  | _, [] => some []
  | previous, e :: rest => do
      let key := previous.take e.p ++ e.k
      let below ← link e.t
      let tail ← decodeEntries link key rest
      pure ((key, e.v) :: below ++ tail)

/-- The keys and values of the tree at an address, in order. -/
def decodeTree (blocks : Blocks) : Nat → Cid → Option (List (Bytes × Cid))
  | 0, _ => none
  | fuel + 1, cid => do
      let node ← blocks[cid]?.bind decodeNode
      let link : Option Cid → Option (List (Bytes × Cid)) := fun
        | none => some []
        | some cid => decodeTree blocks fuel cid
      let left ← link node.l
      let rest ← decodeEntries link [] node.e
      pure (left ++ rest)

/-- The common prefix with any key, and the rest of the key, make the key. -/
theorem take_commonPrefix_append (previous key : Bytes) :
    previous.take (commonPrefix previous key) ++ key.drop (commonPrefix previous key) = key := by
  induction previous generalizing key with
  | nil => simp [commonPrefix]
  | cons a previous ih =>
      cases key with
      | nil => simp [commonPrefix]
      | cons b key =>
          unfold commonPrefix
          by_cases h : a = b
          · subst h
            simpa [List.takeWhile_cons, commonPrefix] using ih key
          · simp [h]

/-- The pairs of a run. -/
def pairs (entries : List Item) : List (Bytes × Cid) := entries.map fun i => (i.key, i.value)

theorem decodeEntries_entriesOf {link : List Item → Option Cid}
    {read : Option Cid → Option (List (Bytes × Cid))} {segs : List (Item × List Item)}
    (hread : ∀ seg ∈ segs, read (link seg.2) = some (pairs seg.2)) (previous : Bytes) :
    decodeEntries read previous (entriesOf link previous segs) =
      some (pairs (segs.flatMap fun (item, run) => item :: run)) := by
  induction segs generalizing previous with
  | nil => rfl
  | cons seg segs ih =>
      obtain ⟨item, run⟩ := seg
      have hrun := hread (item, run) List.mem_cons_self
      have htail := ih (fun seg h => hread seg (List.mem_cons_of_mem _ h)) item.key
      simp only at hrun
      simp [decodeEntries, entriesOf, take_commonPrefix_append, hrun, htail, pairs]

/-- **Reading the canonical tree returns its keys and values**, from any block map that holds the
canonical nodes and with any fuel above the layer. -/
theorem decodeTree_nodeAt {at_ : Nat} {entries : List Item}
    (h : ∀ item ∈ entries, item.layer ≤ at_) {blocks : Blocks}
    (hblocks : ∀ n ∈ nodesAt H at_ entries, blocks[cidFor H n.bytes]? = some n.bytes)
    {fuel : Nat} (hfuel : at_ < fuel) :
    decodeTree blocks fuel (cidFor H (nodeAt H at_ entries).bytes) = some (pairs entries) := by
  induction at_ generalizing entries fuel with
  | zero =>
      obtain ⟨fuel, rfl⟩ : ∃ f, fuel = f + 1 := ⟨fuel - 1, by omega⟩
      have hroot := hblocks (nodeAt H 0 entries) (by simp [nodesAt])
      have hslot : ∀ run ∈ slots 0 entries, run = [] := fun run => slots_zero_eq_nil h
      have hleft := hslot _ List.mem_cons_self
      simp only [decodeTree, hroot, Option.bind_some, decodeNode_bytes, Option.bind_eq_bind]
      rw [nodeAt_eq, nodeWith]
      simp only [linkAt]
      rw [@decodeEntries_entriesOf (linkAt H 0)]
      · have hflat := segments_flatten 0 entries
        rw [hleft, List.nil_append] at hflat
        simp [hflat]
      · intro seg hseg
        rw [hslot seg.2 (List.mem_cons_of_mem _ (List.mem_map_of_mem hseg))]
        rfl
  | succ n ih =>
      obtain ⟨fuel, rfl⟩ : ∃ f, fuel = f + 1 := ⟨fuel - 1, by omega⟩
      have hroot := hblocks (nodeAt H (n + 1) entries) (by simp [nodesAt])
      have hslot : ∀ run ∈ slots (n + 1) entries,
          (match linkAt H (n + 1) run with
            | none => some []
            | some cid => decodeTree blocks fuel cid) = some (pairs run) := by
        intro run hrun
        by_cases hempty : run.isEmpty
        · rw [List.isEmpty_iff.mp hempty]
          rfl
        · simp only [linkAt, hempty, if_false, Bool.false_eq_true]
          refine ih (layer_le_of_mem_slots h hrun) (fun m hm => hblocks m ?_) (by omega)
          simp only [nodesAt, List.mem_append, List.mem_flatMap]
          exact Or.inl ⟨run, hrun, by simpa [hempty] using hm⟩
      have hleft := hslot _ List.mem_cons_self
      simp only [decodeTree, hroot, Option.bind_some, decodeNode_bytes, Option.bind_eq_bind]
      rw [nodeAt_eq, nodeWith]
      simp only [hleft, Option.bind_some]
      rw [@decodeEntries_entriesOf (linkAt H (n + 1)) _ _
        fun seg hseg => hslot seg.2 (List.mem_cons_of_mem _ (List.mem_map_of_mem hseg))]
      simp only [Option.bind_some, Option.pure_def, Option.some.injEq]
      rw [pairs, pairs, ← List.map_append, segments_flatten]
      rfl

theorem pairs_items (mapping : BTreeMap Bytes Cid) : pairs (items H mapping) = mapping.toList := by
  rw [pairs, items, List.map_map]
  exact List.map_id _

/-- A map is read back from any block map that holds its nodes. -/
theorem decodeTree_rootCid {mapping : BTreeMap Bytes Cid} {blocks : Blocks}
    (hblocks : ∀ b ∈ nodeBlocks H mapping, blocks[cidFor H b]? = some b) {fuel : Nat}
    (hfuel : topLayer (items H mapping) < fuel) :
    decodeTree blocks fuel (rootCid H mapping) = some mapping.toList := by
  rw [← pairs_items H mapping]
  exact decodeTree_nodeAt H (layer_le_topLayer _)
    (fun n hn => hblocks n.bytes (List.mem_map_of_mem hn)) hfuel

/-- Two maps with one root are equal, when no two of their node blocks collide. -/
theorem eq_of_rootCid_eq {m m' : BTreeMap Bytes Cid}
    (hfree : Cas.CollisionFree (cidFor H) (nodeBlocks H m ++ nodeBlocks H m'))
    (hroot : rootCid H m = rootCid H m') : m = m' := by
  -- one block map that holds the nodes of both trees
  let blocks : Blocks := Cas.insertAll (cidFor H) (nodeBlocks H m ++ nodeBlocks H m') ∅
  have hget : ∀ b ∈ nodeBlocks H m ++ nodeBlocks H m', blocks[cidFor H b]? = some b :=
    fun b hb => Cas.getElem?_insertAll_of_mem hfree hb
  let fuel := topLayer (items H m) + topLayer (items H m') + 1
  have h : decodeTree blocks fuel (rootCid H m) = some m.toList :=
    decodeTree_rootCid H (fun b hb => hget b (by simp [hb])) (by omega)
  have h' : decodeTree blocks fuel (rootCid H m') = some m'.toList :=
    decodeTree_rootCid H (fun b hb => hget b (by simp [hb])) (by omega)
  rw [hroot, h'] at h
  exact Std.ExtTreeMap.toList_inj.mp (Option.some.inj h).symm

/-- **The tree loses nothing.** For every map, construction succeeds; reading the blocks it filed
from the root it returned gives the map's entries, in strictly ascending order of keys; and only
this map has this root, as long as the node blocks involved do not collide. -/
theorem build_lossless (m : BTreeMap Bytes Cid) (blocks₀ : Blocks)
    (hfree : Cas.CollisionFree (cidFor H) (nodeBlocks H m)) :
    ∃ root blocks, build H m blocks₀ = .ok (root, blocks) ∧
      (∀ fuel, topLayer (items H m) < fuel → decodeTree blocks fuel root = some m.toList) ∧
      (m.toList.Pairwise fun x y => compare x.1 y.1 = .lt) ∧
      ∀ m' blocks₀' blocks',
        Cas.CollisionFree (cidFor H) (nodeBlocks H m ++ nodeBlocks H m') →
        build H m' blocks₀' = .ok (root, blocks') → m' = m := by
  refine ⟨_, _, build_eq H m blocks₀, ?_, ?_, ?_⟩
  · intro fuel hfuel
    exact decodeTree_rootCid H (fun b hb => Cas.getElem?_insertAll_of_mem hfree hb) hfuel
  · exact Std.ExtTreeMap.ordered_keys_toList
  · intro m' blocks₀' blocks' hboth h
    rw [build_eq] at h
    have hroot : rootCid H m' = rootCid H m := congrArg Prod.fst (Except.ok.inj h)
    exact (eq_of_rootCid_eq H hboth hroot.symm).symm

/-- Two keys of different layers. -/
def twoLayers : BTreeMap Bytes Cid :=
  ((∅ : BTreeMap Bytes Cid).insert (str "2653ae71") (cidFor sha2 [1])).insert (str "blue")
    (cidFor sha2 [2])

/-- `blue` is alone at layer one; `2653ae71` is in the node to its left. -/
theorem build_lossless_twoLayers :
    ∃ root blocks, build sha2 twoLayers ∅ = .ok (root, blocks) ∧
      decodeTree blocks 2 root = some twoLayers.toList := by
  obtain ⟨root, blocks, hbuild, hdecode, -, -⟩ :=
    build_lossless sha2 twoLayers ∅ (by decide +kernel)
  exact ⟨root, blocks, hbuild, hdecode 2 (by decide +kernel)⟩

end PurpleSky.Repo.Mst
