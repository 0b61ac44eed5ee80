import PurpleSky.Lib.Json
import PurpleSky.Lib.SortByKey

/-!
# What a node reports of itself (`psky-hypersnap`)

`parseInfo` reads the answer to `/v1/info`, and `Freshness.fromInfo` judges its shards. That no
shard is missing is nowhere looked at: the parser refuses a shard that comes twice or is out of
range, and the judge counts them.

* `parseShards_eq_some`: what the parser takes for shards, in any order.
* **`fresh_complete`**: a parsed answer has the shards that were reported, what each judgement means
  for it, and that the order in which the shards were reported does not matter.
-/

namespace PurpleSky

/-- The items of an array. -/
def Json.asArray : Json → Option (List Json)
  | .array values => some values
  | _ => none

/-- The fields of an object. -/
def Json.asObject : Json → Option (List (Bytes × Json))
  | .object fields => some fields
  | _ => none

namespace Hypersnap

open Bytes

/-! ## Reports -/

/-- Source: `lib.rs`, `ShardInfo` -/
structure ShardInfo where
  shardId : Nat
  maxHeight : Nat
  blockDelaySeconds : Nat
  numMessages : Option Nat
  deriving DecidableEq, Repr

/-- Source: `lib.rs`, `NodeInfo` -/
structure NodeInfo where
  version : Bytes
  numShards : Nat
  numMessages : Option Nat
  peerId : Option Bytes
  shardInfos : List ShardInfo
  deriving DecidableEq, Repr

/-- Source: `lib.rs`, `Freshness` -/
inductive Freshness where
  | fresh
  | lagging
  | unknown
  deriving DecidableEq, Repr

/-- Source: `lib.rs`, `Freshness::from_info` -/
def Freshness.fromInfo (info : NodeInfo) (maxBlockDelaySecs : Nat) : Freshness :=
  if info.shardInfos.any fun shard => maxBlockDelaySecs < shard.blockDelaySeconds then .lagging
  else if info.shardInfos.length ≠ min (info.numShards + 1) 18446744073709551615 ∨
      info.shardInfos.any fun shard => shard.maxHeight = 0 then .unknown
  else .fresh

/-! ## Reading a report -/

/-- A text of so many ASCII letters, digits and other bytes. -/
def validText (s : Bytes) (maxLength : Nat) (others : Bytes) : Bool :=
  s ≠ [] && s.length ≤ maxLength && s.all fun b => isAlnum b || others.contains b

/-- A number that may be missing. -/
def optionalCount (v : Json) (key : Bytes) : Option (Option Nat) :=
  match v.last key with
  | some count => count.asU64.map some
  | none => some none

/-- Source: `lib.rs`, `parse_info` (the peer) -/
def parsePeer (v : Json) : Option (Option Bytes) :=
  match v.last (str "peer_id") with
  | some value => do
      let peer ← value.asStr
      guard (validText peer 128 (str "-_"))
      pure (some peer)
  | none => some none

/-- Source: `lib.rs`, `parse_info` (one item of its loop) -/
def parseShard (numShards : Nat) (shardInfos : List ShardInfo) (shard : Json) :
    Option ShardInfo := do
  let shardId ← (← shard.last (str "shardId")).asU64
  guard (shardId < 4294967296)
  guard (¬(numShards < shardId ∨ shardInfos.any fun info => info.shardId = shardId))
  let maxHeight ← (← shard.last (str "maxHeight")).asU64
  let blockDelaySeconds ← (← shard.last (str "blockDelay")).asU64
  let numMessages ← optionalCount shard (str "numMessages")
  pure ⟨shardId, maxHeight, blockDelaySeconds, numMessages⟩

/-- Source: `lib.rs`, `parse_info` (its loop) -/
def parseShards (numShards : Nat) : List ShardInfo → List Json → Option (List ShardInfo)
  | shardInfos, [] => some shardInfos
  | shardInfos, shard :: shards => do
      let info ← parseShard numShards shardInfos shard
      parseShards numShards (shardInfos ++ [info]) shards

/-- Source: `lib.rs`, `parse_info` (the shards) -/
def parseShardInfos (v : Json) (numShards : Nat) : Option (List ShardInfo) :=
  match v.last (str "shardInfos") with
  | some value => do
      let shards ← value.asArray
      guard (shards.length ≤ 256)
      let shardInfos ← parseShards numShards [] shards
      pure (sortByKey ShardInfo.shardId shardInfos)
  | none => some []

/-- Source: `lib.rs`, `parse_info` -/
def parseInfo (value : Json) : Option NodeInfo := do
  let version ← (← value.last (str "version")).asStr
  guard (validText version 64 (str ".-+_"))
  let numShards ← (← value.last (str "numShards")).asU64
  guard (numShards ≠ 0)
  let dbStats ← (← value.last (str "dbStats")).asObject
  let numMessages ← optionalCount (.object dbStats) (str "numMessages")
  let peerId ← parsePeer value
  let shardInfos ← parseShardInfos value numShards
  pure ⟨version, numShards, numMessages, peerId, shardInfos⟩

/-! ## The shards of a report -/

variable {n d : Nat} {infos : List ShardInfo} {shards shards' : List Json}

/-- An item says what is known of a shard. -/
def Reports (shard : Json) (info : ShardInfo) : Prop :=
  (shard.last (str "shardId")).bind Json.asU64 = some info.shardId ∧ info.shardId < 4294967296 ∧
    (shard.last (str "maxHeight")).bind Json.asU64 = some info.maxHeight ∧
    (shard.last (str "blockDelay")).bind Json.asU64 = some info.blockDelaySeconds ∧
    optionalCount shard (str "numMessages") = some info.numMessages

theorem parseShard_eq_some {shard : Json} {info : ShardInfo} :
    parseShard n infos shard = some info ↔
      Reports shard info ∧ info.shardId ≤ n ∧ info.shardId ∉ infos.map ShardInfo.shardId := by
  simp only [parseShard, Reports, Option.bind_eq_bind, Option.bind_eq_some_iff,
    Option.guard_eq_some',
    Option.pure_def, Option.some.injEq, not_or, not_lt, List.any_eq_true, decide_eq_true_eq,
    List.mem_map]
  constructor
  · rintro ⟨i, hi, shardId, hid, _, hlt, _, ⟨hle, hnew⟩, h, hh, maxHeight, hheight, t, ht,
      delay, hdelay, count, hcount, rfl⟩
    exact ⟨⟨⟨i, hi, hid⟩, hlt, ⟨h, hh, hheight⟩, ⟨t, ht, hdelay⟩, hcount⟩, hle, hnew⟩
  · rintro ⟨⟨⟨i, hi, hid⟩, hlt, ⟨h, hh, hheight⟩, ⟨t, ht, hdelay⟩, hcount⟩, hle, hnew⟩
    exact ⟨i, hi, info.shardId, hid, (), hlt, (), ⟨hle, hnew⟩, h, hh, _, hheight, t, ht, _, hdelay,
      _, hcount, rfl⟩

/-- The loop takes items that report shards in range, each of them once. -/
theorem parseShards_eq_some (hnd : (infos.map ShardInfo.shardId).Nodup) {all : List ShardInfo} :
    parseShards n infos shards = some all ↔ ∃ new, List.Forall₂ Reports shards new ∧
      (∀ info ∈ new, info.shardId ≤ n) ∧ ((infos ++ new).map ShardInfo.shardId).Nodup ∧
      all = infos ++ new := by
  induction shards generalizing infos with
  | nil =>
      simp only [parseShards, Option.some.injEq, List.forall₂_nil_left_iff]
      constructor
      · rintro rfl
        exact ⟨[], rfl, by simp, by rwa [List.append_nil], (List.append_nil _).symm⟩
      · rintro ⟨_, rfl, -, -, rfl⟩
        exact (List.append_nil _).symm
  | cons shard shards ih =>
      simp only [parseShards, Option.bind_eq_bind, Option.bind_eq_some_iff, parseShard_eq_some]
      constructor
      · rintro ⟨info, ⟨hreports, hle, hnew⟩, hrest⟩
        have hnd' : ((infos ++ [info]).map ShardInfo.shardId).Nodup := by
          rw [List.map_append, List.map_singleton, ← List.concat_eq_append]
          exact hnd.concat hnew
        obtain ⟨new, hnew, hall, hnodup, rfl⟩ := (ih hnd').mp hrest
        rw [List.append_assoc, List.singleton_append] at hnodup
        refine ⟨info :: new, .cons hreports hnew, List.forall_mem_cons.mpr ⟨hle, hall⟩, hnodup, ?_⟩
        rw [List.append_assoc, List.singleton_append]
      · rintro ⟨_, hforall, hall, hnodup, rfl⟩
        obtain ⟨info, new, hreports, hnew, rfl⟩ := List.forall₂_cons_left_iff.mp hforall
        obtain ⟨hle, hall⟩ := List.forall_mem_cons.mp hall
        have hassoc : infos ++ info :: new = infos ++ [info] ++ new := by
          rw [List.append_assoc, List.singleton_append]
        rw [hassoc] at hnodup
        have hnd' : ((infos ++ [info]).map ShardInfo.shardId).Nodup := by
          rw [List.map_append] at hnodup
          exact hnodup.of_append_left
        refine ⟨info, ⟨hreports, hle, fun hmem => ?_⟩,
          (ih hnd').mpr ⟨new, hnew, hall, hnodup, hassoc⟩⟩
        rw [List.map_append, List.map_singleton] at hnd'
        exact List.disjoint_of_nodup_append hnd' hmem List.mem_cons_self

/-- What is read from an array of shards. -/
theorem parseShards_nil_eq_some : parseShards n [] shards = some infos ↔
    List.Forall₂ Reports shards infos ∧ (∀ info ∈ infos, info.shardId ≤ n) ∧
      (infos.map ShardInfo.shardId).Nodup := by
  rw [parseShards_eq_some (by rw [List.map_nil]; exact List.nodup_nil)]
  constructor
  · rintro ⟨_, hforall, hall, hnodup, rfl⟩
    exact ⟨hforall, hall, hnodup⟩
  · rintro ⟨hforall, hall, hnodup⟩
    exact ⟨infos, hforall, hall, hnodup, rfl⟩

/-- Items in another order report the same shards. -/
theorem parseShards_perm (h : shards'.Perm shards)
    (hparse : parseShards n [] shards = some infos) : ∃ infos', infos'.Perm infos ∧
      parseShards n [] shards' = some infos' := by
  obtain ⟨hforall, hall, hnodup⟩ := parseShards_nil_eq_some.mp hparse
  obtain ⟨infos', hforall', hperm⟩ := List.perm_comp_forall₂ h hforall
  refine ⟨infos', hperm, parseShards_nil_eq_some.mpr ⟨hforall', fun info hinfo => ?_, ?_⟩⟩
  · exact hall info (hperm.mem_iff.mp hinfo)
  · exact (hperm.map ShardInfo.shardId).nodup_iff.mpr hnodup

/-- What the loop takes has distinct identifiers, so that their sort is the same for every order. -/
theorem sort_parseShards_congr (h : shards'.Perm shards) :
    (parseShards n [] shards').map (sortByKey ShardInfo.shardId) =
      (parseShards n [] shards).map (sortByKey ShardInfo.shardId) := by
  rcases hparse : parseShards n [] shards with _ | infos
  · rcases hparse' : parseShards n [] shards' with _ | infos'
    · rfl
    · obtain ⟨_, -, hsome⟩ := parseShards_perm h.symm hparse'
      rw [hparse] at hsome
      cases hsome
  · obtain ⟨infos', hperm, hparse'⟩ := parseShards_perm h hparse
    obtain ⟨-, -, hnodup⟩ := parseShards_nil_eq_some.mp hparse
    rw [hparse', Option.map_some, Option.map_some, sortByKey_congr hnodup hperm]

/-! ## Reports in another order -/

/-- A report, and one with its shards in another order. -/
inductive Reordered : Json → Json → Prop where
  | mk {before after : List (Bytes × Json)} {shards shards' : List Json} (h : shards'.Perm shards) :
      Reordered (.object (before ++ (str "shardInfos", .array shards) :: after))
        (.object (before ++ (str "shardInfos", .array shards') :: after))

variable {v w : Json} {info : NodeInfo}

theorem Reordered.last_of_ne (h : Reordered v w) {key : Bytes} (hkey : key ≠ str "shardInfos") :
    w.last key = v.last key := by
  obtain ⟨hperm⟩ := h
  have hne : (key == str "shardInfos") = false := beq_eq_false_iff_ne.mpr hkey
  simp only [Json.last, List.reverse_append, List.reverse_cons, List.lookup_append,
    List.lookup_cons, hne, List.lookup_nil]

/-- The shards that are read are the ones in another order, or later ones that both have. -/
theorem Reordered.last_shards (h : Reordered v w) :
    w.last (str "shardInfos") = v.last (str "shardInfos") ∨ ∃ shards shards', shards'.Perm shards ∧
      v.last (str "shardInfos") = some (.array shards) ∧
      w.last (str "shardInfos") = some (.array shards') := by
  obtain @⟨before, after, shards, shards', hperm⟩ := h
  simp only [Json.last, List.reverse_append, List.reverse_cons, List.lookup_append,
    List.lookup_cons, beq_self_eq_true]
  rcases after.reverse.lookup (str "shardInfos") with _ | value
  · exact .inr ⟨shards, shards', hperm, rfl, rfl⟩
  · exact .inl rfl

theorem parseShardInfos_congr (h : Reordered v w) (n : Nat) :
    parseShardInfos w n = parseShardInfos v n := by
  unfold parseShardInfos
  rcases h.last_shards with heq | ⟨shards, shards', hperm, hv, hw⟩
  · rw [heq]
  · have hsort := @sort_parseShards_congr n shards shards' hperm
    rw [Option.map_eq_bind, Option.map_eq_bind] at hsort
    rw [hv, hw]
    show (do guard (shards'.length ≤ 256); (parseShards n [] shards').bind _) =
      (do guard (shards.length ≤ 256); (parseShards n [] shards).bind _)
    rw [hperm.length_eq]
    exact congrArg (guard (shards.length ≤ 256) >>= ·) (funext fun _ => hsort)

theorem parseInfo_congr (h : Reordered v w) : parseInfo w = parseInfo v := by
  have hversion : w.last (str "version") = v.last (str "version") :=
    h.last_of_ne (by decide +kernel)
  have hshards : w.last (str "numShards") = v.last (str "numShards") :=
    h.last_of_ne (by decide +kernel)
  have hstats : w.last (str "dbStats") = v.last (str "dbStats") := h.last_of_ne (by decide +kernel)
  have hpeer : w.last (str "peer_id") = v.last (str "peer_id") := h.last_of_ne (by decide +kernel)
  simp only [parseInfo, parsePeer, hversion, hshards, hstats, hpeer, parseShardInfos_congr h]

/-! ## Judgements -/

/-- Shards as the parser returns them. -/
structure Listed (n : Nat) (infos : List ShardInfo) : Prop where
  ascending : (infos.map ShardInfo.shardId).Pairwise (· < ·)
  inRange : ∀ info ∈ infos, info.shardId ≤ n
  few : infos.length ≤ 256

/-- What is read of a report: the number of its shards, and each of its items. -/
structure Reported (v : Json) (info : NodeInfo) : Prop where
  numShards : (v.last (str "numShards")).bind Json.asU64 = some info.numShards
  shards : ∃ shards all, (v.last (str "shardInfos")).getD (.array []) = .array shards ∧
    List.Forall₂ Reports shards all ∧ info.shardInfos.Perm all

theorem reports_of_parseShardInfos (h : parseShardInfos v n = some infos) :
    ∃ shards all, (v.last (str "shardInfos")).getD (.array []) = .array shards ∧
      List.Forall₂ Reports shards all ∧ infos.Perm all := by
  unfold parseShardInfos at h
  split at h
  · rename_i value hvalue
    simp only [Option.bind_eq_bind, Option.bind_eq_some_iff, Option.guard_eq_some', Option.pure_def,
      Option.some.injEq] at h
    obtain ⟨shards, harray, _, -, all, hall, rfl⟩ := h
    obtain ⟨hforall, -, -⟩ := parseShards_nil_eq_some.mp hall
    have hshards : value = .array shards := by
      unfold Json.asArray at harray
      split at harray
      · rw [Option.some.inj harray]
      · cases harray
    exact ⟨shards, all, by rw [hvalue, hshards]; rfl, hforall, sortByKey_perm ShardInfo.shardId all⟩
  · rename_i hnone
    obtain rfl := Option.some.inj h
    exact ⟨[], [], by rw [hnone]; rfl, .nil, .refl _⟩

theorem reported_of_parseInfo (h : parseInfo v = some info) : Reported v info := by
  simp only [parseInfo, Option.bind_eq_bind, Option.bind_eq_some_iff, Option.guard_eq_some',
    Option.pure_def, Option.some.injEq] at h
  obtain ⟨_, -, version, -, _, -, value, hvalue, numShards, hnum, _, -, _, -, _, -, _, -, _, -,
    shardInfos, hshards, rfl⟩ := h
  exact ⟨Option.bind_eq_some_iff.mpr ⟨value, hvalue, hnum⟩, reports_of_parseShardInfos hshards⟩

theorem listed_of_parseShardInfos (h : parseShardInfos v n = some infos) : Listed n infos := by
  unfold parseShardInfos at h
  split at h
  · simp only [Option.bind_eq_bind, Option.bind_eq_some_iff, Option.guard_eq_some', Option.pure_def,
      Option.some.injEq] at h
    obtain ⟨shards, -, _, hfew, all, hall, rfl⟩ := h
    obtain ⟨hforall, hrange, hnodup⟩ := parseShards_nil_eq_some.mp hall
    have hperm := sortByKey_perm ShardInfo.shardId all
    refine ⟨ascending_sortByKey hnodup, fun info hinfo => hrange info (hperm.mem_iff.mp hinfo), ?_⟩
    rwa [hperm.length_eq, ← hforall.length_eq]
  · obtain rfl := Option.some.inj h
    exact ⟨by simp, by simp, by simp⟩

theorem listed_of_parseInfo (h : parseInfo v = some info) :
    Listed info.numShards info.shardInfos := by
  simp only [parseInfo, Option.bind_eq_bind, Option.bind_eq_some_iff, Option.guard_eq_some',
    Option.pure_def, Option.some.injEq] at h
  obtain ⟨_, -, version, -, _, -, _, -, numShards, -, _, -, _, -, _, -, _, -, _, -,
    shardInfos, hshards, rfl⟩ := h
  exact listed_of_parseShardInfos hshards

/-- As many shards as there are identifiers are one for each of them. The sum does not saturate for
so few. -/
theorem Listed.length_iff (h : Listed n infos) :
    infos.length = min (n + 1) 18446744073709551615 ↔
      infos.map ShardInfo.shardId = List.range (n + 1) := by
  have hfew := h.few
  constructor
  · intro hlength
    refine eq_range_of_ascending h.ascending (fun i hi => ?_) ?_
    · obtain ⟨info, hinfo, rfl⟩ := List.mem_map.mp hi
      exact Nat.lt_succ_of_le (h.inRange info hinfo)
    · rw [List.length_map]
      omega
  · intro hall
    have hlength := congrArg List.length hall
    rw [List.length_map, List.length_range] at hlength
    omega

/-- Every shard that there is was reported, with blocks, and none is late. -/
def Complete (info : NodeInfo) (d : Nat) : Prop :=
  info.shardInfos.map ShardInfo.shardId = List.range (info.numShards + 1) ∧
    ∀ shard ∈ info.shardInfos, 0 < shard.maxHeight ∧ shard.blockDelaySeconds ≤ d

/-- A shard is late. -/
def Late (info : NodeInfo) (d : Nat) : Prop :=
  ∃ shard ∈ info.shardInfos, d < shard.blockDelaySeconds

theorem Listed.fromInfo (h : Listed info.numShards info.shardInfos) (d : Nat) :
    (Freshness.fromInfo info d = .lagging ↔ Late info d) ∧
    (Freshness.fromInfo info d = .fresh ↔ Complete info d) := by
  have hlate : (info.shardInfos.any fun shard => d < shard.blockDelaySeconds) = true ↔
    Late info d := by
    simp [Late]
  unfold Freshness.fromInfo
  split_ifs with hany hrest
  · refine ⟨iff_of_true rfl (hlate.mp hany), iff_of_false nofun fun hcomplete => ?_⟩
    obtain ⟨shard, hshard, hlt⟩ := hlate.mp hany
    exact absurd (hcomplete.2 shard hshard).2 hlt.not_ge
  · refine ⟨iff_of_false nofun (mt hlate.mpr hany), iff_of_false nofun fun hcomplete => ?_⟩
    rcases hrest with hlength | hempty
    · exact hlength (h.length_iff.mpr hcomplete.1)
    · obtain ⟨shard, hshard, hzero⟩ := List.any_eq_true.mp hempty
      exact (hcomplete.2 shard hshard).1.ne' (of_decide_eq_true hzero)
  · refine ⟨iff_of_false nofun (mt hlate.mpr hany), iff_of_true rfl ?_⟩
    obtain ⟨hlength, hheight⟩ := not_or.mp hrest
    refine ⟨h.length_iff.mp (not_not.mp hlength), fun shard hshard => ⟨?_, ?_⟩⟩
    · refine Nat.pos_of_ne_zero fun hzero => hheight ?_
      exact List.any_eq_true.mpr ⟨shard, hshard, decide_eq_true hzero⟩
    · exact not_lt.mp fun hlt => hany (hlate.mpr ⟨shard, hshard, hlt⟩)

/-- **Fresh means complete.** A parsed answer has the shards that were reported. It is fresh exactly
when they are 0, 1 and so on up to `numShards`, in this order, each with blocks and within the
threshold; it is lagging exactly when a shard exceeds the threshold, and unknown otherwise. An answer
with its shards in another order is parsed to the same, or refused as well. -/
theorem fresh_complete (v : Json) (d : Nat) :
    (∀ info, parseInfo v = some info → Reported v info ∧
      (Freshness.fromInfo info d = .fresh ↔
        info.shardInfos.map ShardInfo.shardId = List.range (info.numShards + 1) ∧
          ∀ shard ∈ info.shardInfos, 0 < shard.maxHeight ∧ shard.blockDelaySeconds ≤ d) ∧
      (Freshness.fromInfo info d = .lagging ↔
        ∃ shard ∈ info.shardInfos, d < shard.blockDelaySeconds) ∧
      (Freshness.fromInfo info d = .unknown ↔ ¬Complete info d ∧ ¬Late info d)) ∧
    ∀ w, Reordered v w → parseInfo w = parseInfo v := by
  refine ⟨fun info hparse => ?_, fun w h => parseInfo_congr h⟩
  obtain ⟨hlagging, hfresh⟩ := (listed_of_parseInfo hparse).fromInfo d
  refine ⟨reported_of_parseInfo hparse, hfresh, hlagging, ?_⟩
  rw [← hfresh, ← hlagging]
  cases Freshness.fromInfo info d with
  | fresh => simp
  | lagging => simp
  | unknown => simp

/-- An item of a report. -/
def sampleShard (i : Int) : Json :=
  .object [(str "blockDelay", .integer 2), (str "maxHeight", .integer 9), (str "shardId", .integer i)]

/-- A report of two shards, with its items in some order. -/
def sampleReport (shards : List Json) : Json :=
  .object ([(str "dbStats", .object []), (str "numShards", .integer 1)] ++
    (str "shardInfos", .array shards) :: [(str "version", .string (str "0.13.5"))])

theorem sampleReport_fresh :
    ((parseInfo (sampleReport [sampleShard 1, sampleShard 0])).any fun info =>
      Freshness.fromInfo info 5 = .fresh ∧ info.numShards = 1) = true := by
  decide +kernel

/-- A report that is fresh has both shards, in whatever order they come. -/
theorem fresh_complete_sample : ∃ info,
    parseInfo (sampleReport [sampleShard 0, sampleShard 1]) = some info ∧
      info.shardInfos.map ShardInfo.shardId = [0, 1] := by
  obtain ⟨info, hparse, hinfo⟩ := (Option.any_eq_true _ _).mp sampleReport_fresh
  obtain ⟨hfresh, hnum⟩ := of_decide_eq_true hinfo
  obtain ⟨hjudged, hreordered⟩ := fresh_complete (sampleReport [sampleShard 1, sampleShard 0]) 5
  obtain ⟨-, hcomplete, -, -⟩ := hjudged info hparse
  refine ⟨info, (hreordered _ (.mk (.swap _ _ _))).trans hparse, ?_⟩
  rw [(hcomplete.mp hfresh).1, hnum]
  rfl

end Hypersnap

end PurpleSky
