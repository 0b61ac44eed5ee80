import PurpleSky.Hypersnap.Preflight

/-!
# When a set of nodes is healthy (`psky-hypersnap`)

A run counts the peer identifiers and compares the sum of the counts with the number of nodes. What
that comes to is said here of the nodes themselves: which identifier is at which node.

* `peerUnique_eq_false`, `peerUnique_eq_true`: what a node is told of its identifier.
* **`preflight_health`**: the aggregate, exactly, and what the order of the nodes does to it.
-/

namespace PurpleSky.Hypersnap

open Bytes Console

variable {K : Crates} {config : PreflightConfig} {nodes before after : List NodeReport}
  {node : NodeReport}

/-! ## Identifiers -/

/-- The identifiers that were reported. -/
def peerIds (nodes : List NodeReport) : List Bytes := nodes.filterMap NodeReport.peerId

/-- The sum of the counts is the number of nodes where every node reported an identifier. -/
theorem total_peerIds :
    BTreeMap.total id (tally (peerIds nodes)) = nodes.length ↔
      ∀ node ∈ nodes, node.peerId ≠ none := by
  rw [total_tally, peerIds, List.filterMap_length_eq_length]
  exact forall₂_congr fun node _ => Option.isSome_iff_ne_none

theorem mem_peerIds {peerId : Bytes} :
    peerId ∈ peerIds nodes ↔ ∃ node ∈ nodes, node.peerId = some peerId :=
  List.mem_filterMap

/-- An identifier that comes twice is at another node. -/
theorem one_lt_count {peerId : Bytes} (hnode : node.peerId = some peerId) :
    1 < (peerIds (before ++ node :: after)).count peerId ↔
      ∃ other ∈ before ++ after, other.peerId = some peerId := by
  rw [← mem_peerIds, peerIds, peerIds, List.filterMap_append, List.filterMap_cons, hnode,
    List.filterMap_append, List.count_append, List.count_cons_self, ← List.count_pos_iff,
    List.count_append]
  omega

/-- The judgement of a node among the others. -/
def uniqueAmong (nodes : List NodeReport) (node : NodeReport) : Option Bool :=
  peerUnique (tally (peerIds nodes))
    (decide (BTreeMap.total id (tally (peerIds nodes)) = nodes.length)) node

theorem uniqueAmong_of_none (hnode : node.peerId = none) : uniqueAmong nodes node = none := by
  rw [uniqueAmong, peerUnique, hnode, Option.bind_none]

theorem uniqueAmong_of_some {peerId : Bytes} (hnode : node.peerId = some peerId)
    (hmem : node ∈ nodes) :
    uniqueAmong nodes node =
      if 1 < (peerIds nodes).count peerId then some false
      else if ∀ node ∈ nodes, node.peerId ≠ none then some true else none := by
  have hcount : (tally (peerIds nodes))[peerId]? = some ((peerIds nodes).count peerId) := by
    rw [getElem?_tally, if_pos (mem_peerIds.mpr ⟨node, hmem, hnode⟩)]
  simp only [uniqueAmong, peerUnique, hnode, Option.bind_some, hcount, Option.any_some,
    decide_eq_true_eq, total_peerIds]

theorem uniqueAmong_append {peerId : Bytes} (hnode : node.peerId = some peerId) :
    uniqueAmong (before ++ node :: after) node =
      if ∃ other ∈ before ++ after, other.peerId = some peerId then some false
      else if ∀ other ∈ before ++ node :: after, other.peerId ≠ none then some true else none := by
  have hmem : node ∈ before ++ node :: after := by simp
  simp only [uniqueAmong_of_some hnode hmem, one_lt_count hnode]

/-- A node whose identifier is at another node too is told so. -/
theorem uniqueAmong_eq_false :
    uniqueAmong (before ++ node :: after) node = some false ↔
      ∃ peerId, node.peerId = some peerId ∧
        ∃ other ∈ before ++ after, other.peerId = some peerId := by
  cases hnode : node.peerId with
  | none => simp [uniqueAmong_of_none hnode]
  | some peerId =>
      simp only [uniqueAmong_append hnode, Option.some.injEq, exists_eq_left']
      split_ifs with hother hknown
      · exact ⟨fun _ => hother, fun _ => rfl⟩
      · exact ⟨fun h => (by cases h), fun h => absurd h hother⟩
      · exact ⟨fun h => (by cases h), fun h => absurd h hother⟩

/-- A node is told that its identifier is its own where every node reported one. -/
theorem uniqueAmong_eq_true :
    uniqueAmong (before ++ node :: after) node = some true ↔
      (∀ other ∈ before ++ node :: after, other.peerId ≠ none) ∧
        ∀ other ∈ before ++ after, other.peerId ≠ node.peerId := by
  cases hnode : node.peerId with
  | none =>
      rw [uniqueAmong_of_none hnode]
      refine ⟨fun h => (by cases h), fun h => absurd hnode (h.1 node (by simp))⟩
  | some peerId =>
      rw [uniqueAmong_append hnode]
      split_ifs with hother hknown
      · obtain ⟨other, hmem, heq⟩ := hother
        exact ⟨fun h => (by cases h), fun h => absurd heq (h.2 other hmem)⟩
      · exact ⟨fun _ => ⟨hknown, fun other hmem heq => hother ⟨other, hmem, heq⟩⟩, fun _ => rfl⟩
      · exact ⟨fun h => (by cases h), fun h => absurd h.1 hknown⟩

/-- A node is told nothing where an identifier that would be needed is missing. -/
theorem uniqueAmong_eq_none :
    uniqueAmong (before ++ node :: after) node = none ↔ node.peerId = none ∨
      (∃ other ∈ before ++ node :: after, other.peerId = none) ∧
        ∀ other ∈ before ++ after, other.peerId ≠ node.peerId := by
  cases hnode : node.peerId with
  | none => simp [uniqueAmong_of_none hnode]
  | some peerId =>
      rw [uniqueAmong_append hnode]
      split_ifs with hother hknown
      · obtain ⟨other, hmem, heq⟩ := hother
        refine ⟨fun h => (by cases h), fun h => ?_⟩
        rcases h with h | h
        · cases h
        · exact absurd heq (h.2 other hmem)
      · refine ⟨fun h => (by cases h), fun h => ?_⟩
        rcases h with h | ⟨⟨other, hmem, hnone⟩, -⟩
        · cases h
        · exact absurd hnone (hknown other hmem)
      · push Not at hknown
        exact ⟨fun _ => .inr ⟨hknown, fun other hmem heq => hother ⟨other, hmem, heq⟩⟩,
          fun _ => rfl⟩

/-- No two items of a list have the same image: none shares it with an item elsewhere. -/
theorem pairwise_ne_iff {α β : Type} {f : α → β} {l : List α} :
    (l.Pairwise fun a b => f a ≠ f b) ↔
      ∀ before a after, l = before ++ a :: after → ∀ b ∈ before ++ after, f b ≠ f a := by
  constructor
  · rintro h before a after rfl b hb
    obtain ⟨-, hafter, hacross⟩ := List.pairwise_append.mp h
    rcases List.mem_append.mp hb with hb | hb
    · exact hacross b hb a List.mem_cons_self
    · exact ((List.pairwise_cons.mp hafter).1 b hb).symm
  · intro h
    induction l with
    | nil => exact List.Pairwise.nil
    | cons x l ih =>
        refine List.pairwise_cons.mpr ⟨fun b hb => (h [] x l rfl b hb).symm, ih ?_⟩
        rintro before a after rfl b hb
        exact h (x :: before) a after rfl b (List.mem_cons_of_mem x hb)

/-- Every identifier is its own exactly where all are known and no two are the same. -/
theorem forall_uniqueAmong :
    (∀ node ∈ nodes, uniqueAmong nodes node = some true) ↔
      (∀ node ∈ nodes, node.peerId ≠ none) ∧
        nodes.Pairwise fun node other => node.peerId ≠ other.peerId := by
  rw [pairwise_ne_iff]
  constructor
  · intro h
    refine ⟨fun node hnode hnone => ?_, fun before node after hnodes => ?_⟩
    · have htrue := h node hnode
      rw [uniqueAmong_of_none hnone] at htrue
      cases htrue
    · subst hnodes
      exact (uniqueAmong_eq_true.mp (h node (by simp))).2
  · rintro ⟨hknown, hdistinct⟩ node hnode
    obtain ⟨before, after, rfl⟩ := List.append_of_mem hnode
    exact uniqueAmong_eq_true.mpr ⟨hknown, hdistinct before node after rfl⟩

/-! ## The report -/

/-- A node as the report has it. -/
def judged (nodes : List NodeReport) (node : NodeReport) : NodeReport :=
  judge (tally (peerIds nodes))
    (decide (BTreeMap.total id (tally (peerIds nodes)) = nodes.length)) node

theorem nodes_summarize : (summarize config nodes).nodes = nodes.map (judged nodes) := rfl

theorem healthy_judged : (judged nodes node).healthy = true ↔
    (node.protocol = .compatible ∧ node.network = .compatible ∧ node.freshness = .fresh) ∧
      uniqueAmong nodes node = some true := by
  simp only [judged, judge, Bool.and_eq_true, decide_eq_true_eq, uniqueAmong, and_assoc]

theorem healthy_summarize : (summarize config nodes).healthy = true ↔
    (∀ node ∈ nodes, node.protocol = .compatible ∧ node.network = .compatible ∧
      node.freshness = .fresh ∧ node.peerId ≠ none) ∧
    nodes.Pairwise fun node other => node.peerId ≠ other.peerId := by
  have hall : (summarize config nodes).healthy = true ↔
      ∀ node ∈ nodes, (judged nodes node).healthy = true := by
    show (((summarize config nodes).nodes).all NodeReport.healthy) = true ↔ _
    rw [nodes_summarize, List.all_map, List.all_eq_true]
    rfl
  rw [hall]
  simp only [healthy_judged, forall₂_and]
  rw [forall_uniqueAmong]
  tauto

/-- How many different identifiers were reported. -/
theorem distinctPeerCount_summarize :
    (summarize config nodes).distinctPeerCount = (peerIds nodes).toFinset.card :=
  size_tally _

theorem card_peerIds (hknown : ∀ node ∈ nodes, node.peerId ≠ none)
    (hdistinct : nodes.Pairwise fun node other => node.peerId ≠ other.peerId) :
    (peerIds nodes).toFinset.card = nodes.length := by
  have hnodup : (peerIds nodes).Nodup := by
    rw [List.Nodup, peerIds, List.pairwise_filterMap]
    refine hdistinct.imp fun hne a ha b hb heq => hne ?_
    rw [ha, hb, heq]
  rw [List.toFinset_card_of_nodup hnodup, peerIds, List.filterMap_length_eq_length]
  exact fun node hnode => Option.isSome_iff_ne_none.mpr (hknown node hnode)

/-- In another order the nodes are judged the same, and together the same. -/
theorem summarize_perm {nodes' : List NodeReport} (h : nodes.Perm nodes') :
    summarize config nodes' = { summarize config nodes with nodes := nodes'.map (judged nodes) } := by
  have hpeers : tally (nodes'.filterMap NodeReport.peerId) =
      tally (nodes.filterMap NodeReport.peerId) := tally_perm (h.filterMap _).symm
  have hall : ∀ p, nodes'.all p = nodes.all p := fun p => h.symm.all_eq
  simp only [summarize, List.all_map, hpeers, hall, h.symm.length_eq]
  rfl

/-- **When a set of nodes is healthy.** Every node is compatible and fresh, every node reported an
identifier, and no two the same. What a node is told of its identifier is about the other nodes, and
the order of the nodes is only the order of the report. -/
theorem preflight_health (config : PreflightConfig) (nodes : List NodeReport) :
    (∀ K nets, inspectNodes K config nets 0 config.endpoints = some nodes →
      run K config nets = some (summarize config nodes)) ∧
    ((summarize config nodes).healthy = true ↔
      (∀ node ∈ nodes, node.protocol = .compatible ∧ node.network = .compatible ∧
        node.freshness = .fresh ∧ node.peerId ≠ none) ∧
      nodes.Pairwise fun node other => node.peerId ≠ other.peerId) ∧
    ((summarize config nodes).healthy = true →
      (summarize config nodes).distinctPeerCount = nodes.length ∧
        (summarize config nodes).compatible = true) ∧
    (∀ before node after, nodes = before ++ node :: after →
      ∃ report, (summarize config nodes).nodes[before.length]? = some report ∧
        report = { node with peerUnique := report.peerUnique, healthy := report.healthy } ∧
        (report.peerUnique = some false ↔ ∃ peerId, node.peerId = some peerId ∧
          ∃ other ∈ before ++ after, other.peerId = some peerId) ∧
        (report.peerUnique = some true ↔ (∀ other ∈ nodes, other.peerId ≠ none) ∧
          ∀ other ∈ before ++ after, other.peerId ≠ node.peerId) ∧
        (report.peerUnique = none ↔ node.peerId = none ∨
          (∃ other ∈ nodes, other.peerId = none) ∧
            ∀ other ∈ before ++ after, other.peerId ≠ node.peerId)) ∧
    ∀ nodes', nodes.Perm nodes' → ∃ f : NodeReport → NodeReport,
      (summarize config nodes).nodes = nodes.map f ∧
      summarize config nodes' = { summarize config nodes with nodes := nodes'.map f } := by
  refine ⟨fun K nets h => by rw [run, h, Option.map_some], healthy_summarize, fun h => ?_,
    fun before node after hnodes => ?_, fun nodes' hperm =>
      ⟨judged nodes, rfl, summarize_perm hperm⟩⟩
  · obtain ⟨hall, hdistinct⟩ := healthy_summarize.mp h
    refine ⟨?_, List.all_eq_true.mpr fun node hnode => ?_⟩
    · rw [distinctPeerCount_summarize,
        card_peerIds (fun node hnode => (hall node hnode).2.2.2) hdistinct]
    · obtain ⟨hprotocol, hnetwork, -⟩ := hall node hnode
      simp [hprotocol, hnetwork]
  · subst hnodes
    refine ⟨judged (before ++ node :: after) node, ?_, rfl, uniqueAmong_eq_false,
      uniqueAmong_eq_true, uniqueAmong_eq_none⟩
    rw [nodes_summarize, List.getElem?_map, List.getElem?_append_right le_rfl, Nat.sub_self]
    rfl

/-- What a node says of itself: one data shard beside the block shard, and a peer. -/
def sampleInfo (peer : String) : Json :=
  .object [(str "version", .string (str "0.13.5")), (str "numShards", .integer 1),
    (str "dbStats", .object []), (str "peer_id", .string (str peer)),
    (str "shardInfos", .array ([0, 1].map fun shard => .object [(str "shardId", .integer shard),
      (str "maxHeight", .integer 9), (str "blockDelay", .integer 2)]))]

/-- A cast of the account 7 on the main network. -/
def sampleCast : Json :=
  .object [(str "messages", .array [.object [(str "data", .object [(str "fid", .integer 7),
    (str "network", .integer 1)])]])]

/-- A parser that knows the answers of two nodes. -/
def sampleParser : Crates where
  parseJson body :=
    if body = str "A" then some (sampleInfo "NodeA")
    else if body = str "B" then some (sampleInfo "NodeB")
    else if body = str "cast" then some sampleCast else none
  urlText url := url.originText

def sampleConfig : PreflightConfig :=
  ⟨[⟨str "https", [], none, some (str "a.com"), none, str "/", none, none⟩,
    ⟨str "https", [], none, some (str "b.com"), none, str "/", none, none⟩], .mainnet, some 7, 5000,
    262144, 30⟩

/-- Two nodes that serve what they say of themselves, and a cast. -/
def sampleNets (i : Nat) : Net := fun route _ =>
  if route = str "/v1/info" then .reply 200 none [if i = 0 then str "A" else str "B"] none
  else if route = str "/v1/castsByFid" then .reply 200 none [str "cast"] none
  else .reply 404 none [] none

/-- Two different nodes, both of which agree with what is expected. -/
theorem preflight_health_sample : ∃ report,
    run sampleParser sampleConfig sampleNets = some report ∧ report.healthy = true ∧
      report.distinctPeerCount = 2 ∧ report.compatible = true := by
  obtain ⟨nodes, hnodes, hall, hlength⟩ : ∃ nodes,
      inspectNodes sampleParser sampleConfig sampleNets 0 sampleConfig.endpoints = some nodes ∧
      ((∀ node ∈ nodes, node.protocol = .compatible ∧ node.network = .compatible ∧
        node.freshness = .fresh ∧ node.peerId ≠ none) ∧
      nodes.Pairwise fun node other => node.peerId ≠ other.peerId) ∧ nodes.length = 2 :=
    ⟨(inspectNodes sampleParser sampleConfig sampleNets 0 sampleConfig.endpoints).getD [],
      by decide +kernel, by decide +kernel, by decide +kernel⟩
  obtain ⟨hrun, hhealthy, hcount, -⟩ := preflight_health sampleConfig nodes
  have htrue := hhealthy.mpr hall
  exact ⟨_, hrun _ _ hnodes, htrue, (hcount htrue).1.trans hlength, (hcount htrue).2⟩

end PurpleSky.Hypersnap
