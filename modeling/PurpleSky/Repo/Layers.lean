import PurpleSky.Repo.Mst

/-!
# The layers of a tree

Every node that `build` files, with the layer it stands at and the keys and values below it: the
list of `Placed` nodes is the tree, and `Canonical` says of each of them what the format asks. Its
own keys are keys of its layer, each link is the address of a node one layer down with keys of its
own, and the keys are compressed against each other.

* `layer_eq`: the layer of a key is the number of zero groups of two bits its hash starts with.
* **`canonical_placedAt`**: all nodes of a tree are canonical, whatever layers the hash gives.
* **`build_layers`**: so are those of every map, and the root is at the highest layer of a key.

The hash is any function, and an address stands for the block that was hashed: no statement here
needs that hashes do not collide, apart from what is found in the block map.
-/

namespace PurpleSky.Repo.Mst

variable (H : Sha256)

/-! ## Layers as groups of bits -/

/-- The four groups of two bits of a byte, the highest first. -/
def twoBits (b : UInt8) : List (Fin 4) :=
  [⟨b.toNat / 64 % 4, Nat.mod_lt _ (by decide)⟩, ⟨b.toNat / 16 % 4, Nat.mod_lt _ (by decide)⟩,
    ⟨b.toNat / 4 % 4, Nat.mod_lt _ (by decide)⟩, ⟨b.toNat % 4, Nat.mod_lt _ (by decide)⟩]

/-- Zero groups at the start of a byte string. -/
def zeroGroups (s : Bytes) : Nat := ((s.flatMap twoBits).takeWhile (· = 0)).length

/-- A byte that is not zero starts with half as many zero groups as zero bits, and not with four. -/
theorem takeWhile_twoBits {b : UInt8} (h : b ≠ 0) :
    ((twoBits b).takeWhile (· = 0)).length = leadingZeros b / 2 ∧ leadingZeros b / 2 < 4 := by
  have hall : ∀ n < 256, UInt8.ofNat n ≠ 0 →
      ((twoBits (UInt8.ofNat n)).takeWhile (· = 0)).length = leadingZeros (UInt8.ofNat n) / 2 ∧
        leadingZeros (UInt8.ofNat n) / 2 < 4 := by decide +kernel
  have hb := hall b.toNat b.toNat_lt
  rw [UInt8.ofNat_toNat] at hb
  exact hb h

theorem zeroBits_eq (s : Bytes) : zeroBits s / 2 = zeroGroups s := by
  induction s with
  | nil => rfl
  | cons b s ih =>
      unfold zeroBits zeroGroups
      rw [List.flatMap_cons]
      by_cases hb : b = 0
      · subst hb
        have hbits : twoBits 0 = [0, 0, 0, 0] := rfl
        have hzeros : leadingZeros 0 = 8 := rfl
        rw [hbits, hzeros, if_neg (not_not.mpr rfl)]
        simp only [List.cons_append, List.nil_append, List.takeWhile_cons, decide_true, if_true,
          List.length_cons]
        rw [zeroGroups] at ih
        omega
      · obtain ⟨hlength, hlt⟩ := takeWhile_twoBits hb
        have hstop : ((twoBits b).takeWhile (· = 0)).length ≠ (twoBits b).length := by
          rw [hlength]
          exact hlt.ne
        rw [if_pos hb, Nat.add_zero, List.takeWhile_append, if_neg hstop, hlength]

/-- The layer of a key, by groups of two bits. -/
theorem layer_eq (key : Bytes) : layer H key = zeroGroups (H.digest key) := zeroBits_eq _

/-! ## Canonical trees -/

/-- A node of a tree with the layer it stands at, and the keys and values at it and below it. -/
structure Placed where
  layer : Nat
  node : Node
  below : List (Bytes × Cid)

/-- The address of a node. -/
def Placed.cid (t : Placed) : Cid := cidFor H t.node.bytes

/-- A link of a node at a layer, over what is below it: a node of the tree one layer down with keys
of its own, or nothing over nothing. -/
def Links (tree : List Placed) (at_ : Nat) (link : Option Cid)
    (below : List (Bytes × Cid)) : Prop :=
  match link with
  | none => below = []
  | some cid => below ≠ [] ∧ ∃ c ∈ tree, c.cid H = cid ∧ c.layer + 1 = at_ ∧ c.below = below

/-- The entries of a node at a layer after a key: keys of this layer, each cut after what it shares
with the one before it, and a link after each. -/
inductive Entries (tree : List Placed) (at_ : Nat) :
    Bytes → List Entry → List (Bytes × Cid) → Prop where
  | nil (previous) : Entries tree at_ previous [] []
  | cons (previous key value) {link below rest after} : layer H key = at_ →
      Links H tree at_ link below → Entries tree at_ key rest after →
      Entries tree at_ previous (⟨commonPrefix previous key, key.drop (commonPrefix previous key),
        value, link⟩ :: rest) ((key, value) :: (below ++ after))

/-- A node is as the format has it. -/
structure Canonical (tree : List Placed) (t : Placed) : Prop where
  /-- Its links go one layer down, its keys are keys of its layer. -/
  entries : ∃ left right, t.below = left ++ right ∧ Links H tree t.layer t.node.l left ∧
    Entries H tree t.layer [] t.node.e right
  /-- A node with keys below it and none of its own has a link to the left. -/
  left_of_nil : t.node.e = [] → t.below ≠ [] → t.node.l ≠ none
  /-- The first key of a node is whole. -/
  first : ∀ e ∈ t.node.e.head?, e.p = 0
  /-- No key is empty where it differs from the one before it, unless a key is. -/
  rest_ne : (∀ pair ∈ t.below, pair.1 ≠ []) → ∀ e ∈ t.node.e, e.k ≠ []

variable {H}

theorem Links.mono {tree tree' : List Placed} (h : tree ⊆ tree') {at_ : Nat} {link : Option Cid}
    {below : List (Bytes × Cid)} (hlink : Links H tree at_ link below) :
    Links H tree' at_ link below := by
  rcases link with _ | cid
  · exact hlink
  · obtain ⟨hne, c, hc, hrest⟩ := hlink
    exact ⟨hne, c, h hc, hrest⟩

theorem Entries.mono {tree tree' : List Placed} (h : tree ⊆ tree') {at_ : Nat} {previous : Bytes}
    {es : List Entry} {below : List (Bytes × Cid)} (hes : Entries H tree at_ previous es below) :
    Entries H tree' at_ previous es below := by
  induction hes with
  | nil previous => exact .nil previous
  | cons previous key value hlayer hlink _ ih =>
      exact .cons previous key value hlayer (hlink.mono h) ih

/-- A node stays canonical in a tree with more nodes. -/
theorem Canonical.mono {tree tree' : List Placed} (h : tree ⊆ tree') {t : Placed}
    (ht : Canonical H tree t) : Canonical H tree' t := by
  obtain ⟨left, right, hbelow, hleft, hright⟩ := ht.entries
  exact ⟨⟨left, right, hbelow, hleft.mono h, hright.mono h⟩, ht.left_of_nil, ht.first, ht.rest_ne⟩

/-! ## The placed nodes of a construction -/

variable (H)

/-- The nodes of the canonical tree in the order they are filed, each with its place. -/
def placedAt : Nat → List Item → List Placed
  | 0, entries => [⟨0, nodeAt H 0 entries, pairs entries⟩]
  | n + 1, entries =>
      (slots (n + 1) entries).flatMap (fun run => if run.isEmpty then [] else placedAt n run) ++
        [⟨n + 1, nodeAt H (n + 1) entries, pairs entries⟩]

/-- The root of a placed tree. -/
theorem mem_placedAt (at_ : Nat) (entries : List Item) :
    ⟨at_, nodeAt H at_ entries, pairs entries⟩ ∈ placedAt H at_ entries := by
  cases at_ <;> simp [placedAt]

/-- They are the nodes that are filed. -/
theorem map_node_placedAt (at_ : Nat) (entries : List Item) :
    (placedAt H at_ entries).map Placed.node = nodesAt H at_ entries := by
  induction at_ generalizing entries with
  | zero => rfl
  | succ n ih =>
      rw [placedAt, nodesAt, List.map_append, List.map_flatMap]
      congr 1
      refine congrArg (List.flatMap · _) (funext fun run => ?_)
      by_cases hempty : run.isEmpty
      · simp [hempty]
      · simp [hempty, ih]

/-- Only a tree without keys has a node without keys below it. -/
theorem below_ne_nil {at_ : Nat} {entries : List Item} (h : entries ≠ []) :
    ∀ t ∈ placedAt H at_ entries, t.below ≠ [] := by
  have hroot : pairs entries ≠ [] := by simpa [pairs] using h
  induction at_ generalizing entries with
  | zero =>
      intro t ht
      rw [placedAt, List.mem_singleton] at ht
      rwa [ht]
  | succ n ih =>
      intro t ht
      rw [placedAt, List.mem_append, List.mem_flatMap, List.mem_singleton] at ht
      rcases ht with ⟨run, -, ht⟩ | rfl
      · by_cases hempty : run.isEmpty
        · simp [hempty] at ht
        · rw [if_neg hempty] at ht
          have hne : run ≠ [] := by simpa using hempty
          exact ih hne (by simpa [pairs] using hne) t ht
      · exact hroot

/-! ## They are canonical -/

variable {H}

/-- A key has something after what it shares with a smaller one. -/
theorem drop_commonPrefix_ne_nil {previous key : Bytes} (h : compare previous key = .lt) :
    key.drop (commonPrefix previous key) ≠ [] := by
  intro hdrop
  have hkey := take_commonPrefix_append previous key
  rw [hdrop, List.append_nil] at hkey
  -- a key that is a prefix of the one before it is not above it
  have hprefix : ∀ n, compare previous (previous.take n) ≠ .lt := by
    clear h hdrop hkey
    induction previous with
    | nil =>
        intro n h
        rw [List.take_nil] at h
        cases h
    | cons b previous ih =>
        intro n h
        cases n with
        | zero => cases h
        | succ n =>
            rw [List.take_succ_cons, List.compare_cons_cons,
              (Std.ReflCmp.compare_self : compare b b = .eq)] at h
            exact ih n h
  exact hprefix _ (hkey.symm ▸ h)

theorem layer_of_mem_segments {at_ : Nat} {entries : List Item} :
    ∀ seg ∈ (segments at_ entries).2, seg.1 ∈ entries ∧ seg.1.layer = at_ := by
  induction entries with
  | nil =>
      intro seg h
      cases h
  | cons item rest ih =>
      intro seg h
      unfold segments at h
      split_ifs at h with hlayer
      · rcases List.mem_cons.mp h with rfl | h
        · exact ⟨List.mem_cons_self, hlayer⟩
        · exact ⟨List.mem_cons_of_mem _ (ih seg h).1, (ih seg h).2⟩
      · exact ⟨List.mem_cons_of_mem _ (ih seg h).1, (ih seg h).2⟩

/-- The keys of a node are keys of its tree, in their order. -/
theorem segments_sublist (at_ : Nat) (entries : List Item) :
    ((segments at_ entries).2.map Prod.fst).Sublist entries := by
  induction entries with
  | nil => exact .slnil
  | cons item rest ih =>
      unfold segments
      split_ifs with h
      · exact ih.cons_cons item
      · exact ih.cons item

theorem entries_entriesOf {tree : List Placed} {at_ : Nat} {link : List Item → Option Cid}
    {segs : List (Item × List Item)} (hlayer : ∀ seg ∈ segs, layer H seg.1.key = at_)
    (hlink : ∀ seg ∈ segs, Links H tree at_ (link seg.2) (pairs seg.2)) (previous : Bytes) :
    Entries H tree at_ previous (entriesOf link previous segs)
      (pairs (segs.flatMap fun (item, run) => item :: run)) := by
  induction segs generalizing previous with
  | nil => exact .nil previous
  | cons seg segs ih =>
      obtain ⟨item, run⟩ := seg
      rw [List.forall_mem_cons] at hlayer hlink
      have htail := ih hlayer.2 hlink.2 item.key
      have hpairs : pairs (((item, run) :: segs).flatMap fun (item, run) => item :: run) =
          (item.key, item.value) ::
            (pairs run ++ pairs (segs.flatMap fun (item, run) => item :: run)) := by
        simp [pairs]
      rw [hpairs, entriesOf]
      exact .cons previous item.key item.value hlayer.1 hlink.1 htail

/-- The parts of keys in a node whose keys ascend from a smaller one. -/
theorem rest_ne_entriesOf {link : List Item → Option Cid} {segs : List (Item × List Item)}
    (hsorted : (segs.map Prod.fst).Pairwise fun a b => compare a.key b.key = .lt) {previous : Bytes}
    (hprevious : ∀ item ∈ segs.map Prod.fst, compare previous item.key = .lt) :
    ∀ e ∈ entriesOf link previous segs, e.k ≠ [] := by
  induction segs generalizing previous with
  | nil =>
      intro e he
      cases he
  | cons seg segs ih =>
      obtain ⟨item, run⟩ := seg
      rw [List.map_cons, List.pairwise_cons] at hsorted
      rw [List.map_cons, List.forall_mem_cons] at hprevious
      intro e he
      rw [entriesOf, List.mem_cons] at he
      rcases he with rfl | he
      · exact drop_commonPrefix_ne_nil hprevious.1
      · exact ih hsorted.2 hsorted.1 e he

/-- The keys of a tree: each with its own layer, in strictly ascending order. -/
structure Keyed (H : Sha256) (entries : List Item) : Prop where
  layer_eq : ∀ item ∈ entries, item.layer = layer H item.key
  sorted : entries.Pairwise fun a b => compare a.key b.key = .lt

theorem compare_nil_lt {key : Bytes} (h : key ≠ []) : compare [] key = .lt := by
  cases key with
  | nil => exact absurd rfl h
  | cons b key => rfl

/-- A node over links that are as they should be is canonical. -/
theorem canonical_nodeWith {tree : List Placed} {at_ : Nat} {link : List Item → Option Cid}
    {entries : List Item} (hkeys : Keyed H entries)
    (hlink : ∀ run ∈ slots at_ entries, Links H tree at_ (link run) (pairs run)) :
    Canonical H tree ⟨at_, nodeWith link at_ entries, pairs entries⟩ := by
  have hleft := hlink _ List.mem_cons_self
  have hright : ∀ seg ∈ (segments at_ entries).2, Links H tree at_ (link seg.2) (pairs seg.2) :=
    fun seg hseg => hlink seg.2 (List.mem_cons_of_mem _ (List.mem_map_of_mem hseg))
  have hlayer : ∀ seg ∈ (segments at_ entries).2, layer H seg.1.key = at_ := by
    intro seg hseg
    obtain ⟨hmem, hat⟩ := layer_of_mem_segments seg hseg
    rw [← hkeys.layer_eq _ hmem, hat]
  have hsplit : pairs entries = pairs (segments at_ entries).1 ++
      pairs ((segments at_ entries).2.flatMap fun (item, run) => item :: run) := by
    rw [pairs, pairs, pairs, ← List.map_append, segments_flatten]
  refine ⟨⟨_, _, hsplit, hleft, entries_entriesOf hlayer hright []⟩, ?_, ?_, ?_⟩
  · intro hnil hne hnone
    have hsegs : (segments at_ entries).2 = [] := by
      rcases hsegs : (segments at_ entries).2 with _ | ⟨⟨item, run⟩, rest⟩
      · rfl
      · simp only [nodeWith, hsegs, entriesOf] at hnil
        cases hnil
    have hempty : link (segments at_ entries).1 = none := hnone
    rw [hempty] at hleft
    refine hne (hsplit.trans ?_)
    rw [hsegs, show pairs (segments at_ entries).1 = [] from hleft]
    rfl
  · intro e he
    rcases hsegs : (segments at_ entries).2 with _ | ⟨⟨item, run⟩, rest⟩
    · simp only [nodeWith, hsegs, entriesOf] at he
      cases he
    · simp only [nodeWith, hsegs, entriesOf, List.head?_cons, Option.mem_def,
        Option.some.injEq] at he
      subst he
      rfl
  · intro hne
    have hsub := segments_sublist at_ entries
    refine rest_ne_entriesOf (hkeys.sorted.sublist hsub) fun item hitem => compare_nil_lt ?_
    exact hne (item.key, item.value) (List.mem_map_of_mem (hsub.subset hitem))

/-- The keys of a run are the keys of a tree. -/
theorem Keyed.slots {at_ : Nat} {entries run : List Item} (h : Keyed H entries)
    (hrun : run ∈ slots at_ entries) : Keyed H run := by
  have hsub : run.Sublist entries := by
    have hflat := segments_flatten at_ entries
    rcases List.mem_cons.mp hrun with rfl | hrun
    · conv_rhs => rw [← hflat]
      exact List.sublist_append_left _ _
    · obtain ⟨⟨item, run⟩, hseg, rfl⟩ := List.mem_map.mp hrun
      obtain ⟨before, after, hsegs⟩ := List.append_of_mem hseg
      rw [← hflat, hsegs, List.flatMap_append, List.flatMap_cons]
      refine List.Sublist.trans ?_ (List.sublist_append_right _ _)
      refine List.Sublist.trans ?_ (List.sublist_append_right _ _)
      exact (List.sublist_cons_self item run).trans (List.sublist_append_left _ _)
  exact ⟨fun item hitem => h.layer_eq item (hsub.subset hitem), h.sorted.sublist hsub⟩

/-- **The nodes of a tree are canonical.** By induction on the layer: below the keys of a layer
there are keys of lower layers only, whatever the layers are, so that no run is left over at layer
zero. -/
theorem canonical_placedAt {at_ : Nat} {entries : List Item} (hkeys : Keyed H entries)
    (h : ∀ item ∈ entries, item.layer ≤ at_) :
    ∀ t ∈ placedAt H at_ entries, Canonical H (placedAt H at_ entries) t := by
  induction at_ generalizing entries with
  | zero =>
      intro t ht
      rw [placedAt, List.mem_singleton] at ht
      subst ht
      rw [nodeAt_eq]
      refine canonical_nodeWith hkeys fun run hrun => ?_
      rw [slots_zero_eq_nil h hrun]
      rfl
  | succ n ih =>
      have hrun : ∀ run ∈ slots (n + 1) entries, run ≠ [] →
          placedAt H n run ⊆ placedAt H (n + 1) entries := by
        intro run hrun hne t ht
        rw [placedAt, List.mem_append, List.mem_flatMap]
        refine .inl ⟨run, hrun, ?_⟩
        rwa [if_neg (by simpa using hne)]
      intro t ht
      have hmem := ht
      rw [placedAt, List.mem_append, List.mem_flatMap, List.mem_singleton] at ht
      rcases ht with ⟨run, hslot, ht⟩ | rfl
      · by_cases hempty : run.isEmpty
        · simp [hempty] at ht
        · rw [if_neg hempty] at ht
          exact (ih (hkeys.slots hslot) (layer_le_of_mem_slots h hslot) t ht).mono
            (hrun run hslot (by simpa using hempty))
      · rw [nodeAt_eq]
        refine canonical_nodeWith hkeys fun run hslot => ?_
        by_cases hempty : run = []
        · subst hempty
          rfl
        · have hlink : linkAt H (n + 1) run = some (cidFor H (nodeAt H n run).bytes) :=
            if_neg (by simpa using hempty)
          rw [hlink]
          exact ⟨by simpa [pairs] using hempty, _, hrun run hslot hempty (mem_placedAt H n run), rfl,
            rfl, rfl⟩

/-! ## The tree of a map -/

/-- The items of a map are keyed. -/
theorem keyed_items (mapping : BTreeMap Bytes Cid) : Keyed H (items H mapping) := by
  constructor
  · intro item hitem
    obtain ⟨⟨k, v⟩, -, rfl⟩ := List.mem_map.mp hitem
    rfl
  · exact List.pairwise_map.mpr Std.ExtTreeMap.ordered_keys_toList

/-- The highest layer is one of the layers, unless there are none. -/
theorem topLayer_mem {entries : List Item} (h : entries ≠ []) :
    ∃ item ∈ entries, item.layer = topLayer entries := by
  unfold topLayer
  rcases hmax : (entries.map Item.layer).max? with _ | m
  · rw [List.max?_eq_none_iff, List.map_eq_nil_iff] at hmax
    exact absurd hmax h
  · obtain ⟨item, hitem, hlayer⟩ := List.mem_map.mp (List.max?_eq_some_iff.mp hmax).1
    exact ⟨item, hitem, hlayer⟩

/-- **Layers.** On every map construction succeeds: no layer underflows and no slice or index is out
of range. The nodes it files are a tree: its root is at the highest layer of a key, or at layer zero
for the empty map, with all keys and values below it, all its nodes are canonical, and each of them
has keys below it, unless the map is empty and the root alone. Where the nodes do not collide, each
of them is found at its address. -/
theorem build_layers (H : Sha256) (mapping : BTreeMap Bytes Cid) (blocks₀ : Blocks) :
    (∀ key, layer H key = zeroGroups (H.digest key)) ∧
    ∃ (root : Placed) (tree : List Placed),
      build H mapping blocks₀ = .ok (root.cid H,
        Cas.insertAll (cidFor H) (tree.map fun t => t.node.bytes) blocks₀) ∧
      root ∈ tree ∧ root.below = mapping.toList ∧
      (∀ pair ∈ mapping.toList, zeroGroups (H.digest pair.1) ≤ root.layer) ∧
      (mapping.toList = [] → root.layer = 0 ∧ tree = [root] ∧ root.node = ⟨none, []⟩) ∧
      (mapping.toList ≠ [] → (∃ pair ∈ mapping.toList, zeroGroups (H.digest pair.1) = root.layer) ∧
        ∀ t ∈ tree, t.below ≠ []) ∧
      (∀ t ∈ tree, Canonical H tree t) ∧
      (Cas.CollisionFree (cidFor H) (tree.map fun t => t.node.bytes) → ∀ t ∈ tree,
        (Cas.insertAll (cidFor H) (tree.map fun t => t.node.bytes) blocks₀)[t.cid H]? =
          some t.node.bytes) := by
  have hbytes : ((placedAt H (topLayer (items H mapping)) (items H mapping)).map
      fun t => t.node.bytes) = nodeBlocks H mapping := by
    rw [nodeBlocks, ← map_node_placedAt, List.map_map]
    rfl
  have hpairs := pairs_items H mapping
  have hkeyed := keyed_items (H := H) mapping
  refine ⟨layer_eq H, ⟨topLayer (items H mapping), rootNode H mapping, pairs (items H mapping)⟩,
    placedAt H (topLayer (items H mapping)) (items H mapping), ?_, mem_placedAt H _ _, hpairs, ?_,
    ?_, ?_, canonical_placedAt hkeyed (layer_le_topLayer _), ?_⟩
  · rw [hbytes]
    exact build_eq H mapping blocks₀
  · intro pair hpair
    rw [← hpairs] at hpair
    obtain ⟨item, hitem, rfl⟩ := List.mem_map.mp hpair
    rw [← layer_eq, ← hkeyed.layer_eq item hitem]
    exact layer_le_topLayer _ item hitem
  · intro hnil
    have hitems : items H mapping = [] := by rw [items, hnil, List.map_nil]
    rw [rootNode, hitems]
    exact ⟨rfl, rfl, rfl⟩
  · intro hne
    have hitems : items H mapping ≠ [] := by simpa [items] using hne
    refine ⟨?_, below_ne_nil H hitems⟩
    obtain ⟨item, hitem, hlayer⟩ := topLayer_mem hitems
    refine ⟨(item.key, item.value), hpairs ▸ List.mem_map_of_mem hitem, ?_⟩
    rw [← layer_eq, ← hkeyed.layer_eq item hitem, hlayer]
  · intro hfree t ht
    exact Cas.getElem?_insertAll_of_mem hfree (List.mem_map_of_mem ht)

end PurpleSky.Repo.Mst
