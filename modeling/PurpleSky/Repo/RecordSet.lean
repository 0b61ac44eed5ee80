import PurpleSky.Repo.DataModel
import PurpleSky.Repo.Syntax

/-!
# The record map of a repository (`RecordSet`)

`put` and `delete` return their result and the set after the call, on failure too. The set keeps a
running count of record bytes; `RecordSet.Valid` says that the count is the sum over the records,
that the limits hold, and that every record comes from an admissible put.

* **`put_eq_ok`** and `delete_eq`: what a call does.
* **`valid_runCalls`**: every set reached from the empty one is valid, so no counter underflows.
* `lastPut` is the value of the last put of a path that succeeded, `history` the list of the paths
  still present with these values; **`putAll_history`**: putting them again in any order succeeds
  at every step and gives the same set.
-/

namespace PurpleSky.Repo

/-- A stored record.
Source: `lib.rs`, `Record` -/
structure Record where
  cid : Cid
  bytes : Bytes
  deriving DecidableEq, Repr

/-- A record map with its count of encoded bytes.
Source: `lib.rs`, `RecordSet` -/
structure RecordSet where
  records : BTreeMap Bytes Record
  encodedBytes : Nat

namespace RecordSet

/-- The empty set.
Source: `lib.rs`, `RecordSet::new` -/
def new : RecordSet := ⟨∅, 0⟩

/-- Number of records.
Source: `lib.rs`, `RecordSet::len` -/
def len (s : RecordSet) : Nat := s.records.size

/-- Length of the record at a path, zero if there is none. -/
def bytesAt (s : RecordSet) (path : Bytes) : Nat := s.records[path]?.elim 0 fun r => r.bytes.length

end RecordSet

open RecordSet

variable (H : Sha256) (parse : Bytes → Option Cid)

/-- What `put` checks and computes before it changes the set: the record and the new count. -/
def prepare (path : Bytes) (value : Json) (s : RecordSet) : Except Error (Record × Nat) := do
  Syntax.path path
  let some (collection, _) := Bytes.splitOnce 47 path | .error (.panic "validated path")
  if (value.get (str "$type")).bind Json.asStr ≠ some collection then
    .error (.invalidRecord "$type must match the collection")
  if path ∉ s.records ∧ maxRecords ≤ s.len then .error (.limit "record count")
  let (ipld, _) ← jsonToIpld parse value 0 maxRecordBytes
  let bytes := encode ipld
  if bytes.length > maxRecordBytes then .error (.limit "encoded record bytes")
  if s.encodedBytes < s.bytesAt path then .error (.panic "attempt to subtract with overflow")
  let encodedBytes := s.encodedBytes - s.bytesAt path + bytes.length
  if encodedBytes > maxTotalRecordBytes then .error (.limit "aggregate record bytes")
  pure (⟨cidFor H bytes, bytes⟩, encodedBytes)

/-- Add or replace a record.
Source: `lib.rs`, `RecordSet::put` -/
def put (path : Bytes) (value : Json) (s : RecordSet) : Except Error Cid × RecordSet :=
  match prepare H parse path value s with
  | .error e => (.error e, s)
  | .ok (record, encodedBytes) =>
      (.ok record.cid, ⟨s.records.insert path record, encodedBytes⟩)

/-- Remove a record, if it is there.
Source: `lib.rs`, `RecordSet::delete` -/
def delete (path : Bytes) (s : RecordSet) : Except Error Bool × RecordSet :=
  match Syntax.path path with
  | .error e => (.error e, s)
  | .ok () =>
      match s.records[path]? with
      | none => (.ok false, s)
      | some record =>
          if s.encodedBytes < record.bytes.length then
            (.error (.panic "attempt to subtract with overflow"),
              ⟨s.records.erase path, s.encodedBytes⟩)
          else (.ok true, ⟨s.records.erase path, s.encodedBytes - record.bytes.length⟩)

/-- A call that changes a set. -/
inductive Call where
  | put (path : Bytes) (value : Json)
  | delete (path : Bytes)

/-- The set after a call. -/
def Call.run : Call → RecordSet → RecordSet
  | .put path value, s => (Repo.put H parse path value s).2
  | .delete path, s => (Repo.delete path s).2

/-- The set after some calls, whether they fail or not. -/
def runCalls (calls : List Call) (s : RecordSet) : RecordSet :=
  calls.foldl (fun s c => c.run H parse s) s

/-- The value of the last put of a path that succeeds. -/
def lastPut (path : Bytes) : List Call → RecordSet → Option Json
  | [], _ => none
  | c :: calls, s =>
      (lastPut path calls (c.run H parse s)).or <|
        match c with
        | .put p value => if p = path ∧ (put H parse p value s).1.isOk then some value else none
        | .delete _ => none

/-- The paths present after some calls, each with its last put. -/
def history (calls : List Call) : List (Bytes × Json) :=
  (runCalls H parse calls new).records.keys.filterMap fun path =>
    (lastPut H parse path calls new).map fun value => (path, value)

/-- Put pairs in turn, up to the first that fails. -/
def putAll : List (Bytes × Json) → RecordSet → Except Error RecordSet
  | [], s => .ok s
  | (path, value) :: rest, s =>
      match put H parse path value s with
      | (.error e, _) => .error e
      | (.ok _, s) => putAll rest s

/-! ## What a call does -/

/-- What `put` asks of a path and a value alone, and the record it makes of them. -/
structure Admissible (path : Bytes) (value : Json) (record : Record) : Prop where
  path_ok : Syntax.path path = .ok ()
  type_ok : (value.get (str "$type")).bind Json.asStr = (Bytes.splitOnce 47 path).map Prod.fst
  converts : ∃ ipld left, jsonToIpld parse value 0 maxRecordBytes = .ok (ipld, left) ∧
    record = ⟨cidFor H (encode ipld), encode ipld⟩
  length_le : record.bytes.length ≤ maxRecordBytes

variable {H parse}

theorem Admissible.cid_eq {path : Bytes} {value : Json} {record : Record}
    (h : Admissible H parse path value record) : cidFor H record.bytes = record.cid := by
  obtain ⟨ipld, left, -, rfl⟩ := h.converts
  rfl

theorem prepare_eq_ok {path : Bytes} {value : Json} {s : RecordSet} {record : Record} {n : Nat} :
    prepare H parse path value s = .ok (record, n) ↔
      Admissible H parse path value record ∧ (path ∈ s.records ∨ s.len < maxRecords) ∧
        s.bytesAt path ≤ s.encodedBytes ∧
        n = s.encodedBytes - s.bytesAt path + record.bytes.length ∧
        n ≤ maxTotalRecordBytes := by
  constructor
  · intro h
    unfold prepare at h
    obtain ⟨⟨⟩, hpath, h⟩ := bind_eq_ok.mp h
    rcases hsplit : Bytes.splitOnce 47 path with _ | ⟨collection, key⟩
    · simp only [hsplit] at h
      cases h
    simp only [hsplit] at h
    obtain ⟨htype, h⟩ := ite_error_eq_ok.mp h
    obtain ⟨hcount, h⟩ := ite_error_eq_ok.mp h
    obtain ⟨⟨ipld, left⟩, hipld, h⟩ := bind_eq_ok.mp h
    obtain ⟨hlen, h⟩ := ite_error_eq_ok.mp h
    obtain ⟨hunder, h⟩ := ite_error_eq_ok.mp h
    obtain ⟨htotal, h⟩ := ite_error_eq_ok.mp h
    obtain ⟨rfl, rfl⟩ := Prod.mk.inj (pure_eq_ok.mp h)
    refine ⟨⟨hpath, ?_, ⟨ipld, left, hipld, rfl⟩, not_lt.mp hlen⟩, ?_, not_lt.mp hunder, rfl,
      not_lt.mp htotal⟩
    · rw [hsplit, Option.map_some]
      exact not_not.mp htype
    · by_cases hmem : path ∈ s.records
      · exact Or.inl hmem
      · exact Or.inr (not_le.mp fun hle => hcount ⟨hmem, hle⟩)
  · rintro ⟨⟨hpath, htype, ⟨ipld, left, hipld, rfl⟩, hlen⟩, hcount, hunder, rfl, htotal⟩
    obtain ⟨collection, key, hsplit, -⟩ := Syntax.exists_split_of_path hpath
    rw [hsplit, Option.map_some] at htype
    unfold prepare
    refine bind_eq_ok.mpr ⟨(), hpath, ?_⟩
    simp only [hsplit]
    rw [if_neg (not_not.mpr htype), if_neg]
    · refine bind_eq_ok.mpr ⟨_, hipld, ?_⟩
      rw [if_neg (not_lt.mpr hlen), if_neg (not_lt.mpr hunder), if_neg (not_lt.mpr htotal)]
      rfl
    · rintro ⟨hmem, hle⟩
      rcases hcount with h | h
      · exact hmem h
      · omega

/-- **A put that succeeds.** -/
theorem put_eq_ok {path : Bytes} {value : Json} {s s' : RecordSet} {cid : Cid} :
    put H parse path value s = (.ok cid, s') ↔
      ∃ record, Admissible H parse path value record ∧
        (path ∈ s.records ∨ s.len < maxRecords) ∧ s.bytesAt path ≤ s.encodedBytes ∧
        s.encodedBytes - s.bytesAt path + record.bytes.length ≤ maxTotalRecordBytes ∧
        cid = record.cid ∧ s' = ⟨s.records.insert path record,
          s.encodedBytes - s.bytesAt path + record.bytes.length⟩ := by
  unfold put
  rcases hprepare : prepare H parse path value s with e | ⟨record, n⟩
  · simp only [Prod.mk.injEq, reduceCtorEq, false_and, false_iff, not_exists, not_and]
    intro record hrecord hcount hunder htotal
    have := prepare_eq_ok.mpr ⟨hrecord, hcount, hunder, rfl, htotal⟩
    rw [hprepare] at this
    cases this
  · obtain ⟨hrecord, hcount, hunder, rfl, htotal⟩ := prepare_eq_ok.mp hprepare
    simp only [Prod.mk.injEq, Except.ok.injEq]
    constructor
    · rintro ⟨rfl, rfl⟩
      exact ⟨record, hrecord, hcount, hunder, htotal, rfl, rfl⟩
    · rintro ⟨record', hrecord', -, -, -, rfl, rfl⟩
      obtain ⟨ipld, left, hipld, rfl⟩ := hrecord.converts
      obtain ⟨ipld', left', hipld', rfl⟩ := hrecord'.converts
      rw [hipld] at hipld'
      obtain ⟨rfl, rfl⟩ := Prod.mk.inj (Except.ok.inj hipld')
      exact ⟨rfl, rfl⟩

/-- A put that fails leaves the set as it is. -/
theorem put_of_error {path : Bytes} {value : Json} {s s' : RecordSet} {e : Error}
    (h : put H parse path value s = (.error e, s')) : s' = s := by
  unfold put at h
  split at h
  · exact (congrArg Prod.snd h).symm
  · cases h

theorem put_cases (path : Bytes) (value : Json) (s : RecordSet) :
    (∃ e, put H parse path value s = (.error e, s)) ∨
      ∃ record, Admissible H parse path value record ∧
        (path ∈ s.records ∨ s.len < maxRecords) ∧
        s.encodedBytes - s.bytesAt path + record.bytes.length ≤ maxTotalRecordBytes ∧
        put H parse path value s = (.ok record.cid, ⟨s.records.insert path record,
          s.encodedBytes - s.bytesAt path + record.bytes.length⟩) := by
  rcases hput : put H parse path value s with ⟨e | cid, s'⟩
  · rw [put_of_error hput]
    exact Or.inl ⟨e, rfl⟩
  · obtain ⟨record, hrecord, hcount, hunder, htotal, rfl, rfl⟩ := put_eq_ok.mp hput
    exact Or.inr ⟨record, hrecord, hcount, htotal, rfl⟩

/-- **A removal of a path that the counter covers.** -/
theorem delete_eq {path : Bytes} {s : RecordSet} (h : s.bytesAt path ≤ s.encodedBytes) :
    delete path s =
      match Syntax.path path with
      | .error e => (.error e, s)
      | .ok () => (.ok (s.records.contains path),
          ⟨s.records.erase path, s.encodedBytes - s.bytesAt path⟩) := by
  unfold delete
  rcases Syntax.path path with e | ⟨⟩
  · rfl
  · unfold RecordSet.bytesAt at h ⊢
    simp only
    rcases hget : s.records[path]? with _ | record
    · have hmem : path ∉ s.records := by
        rw [← Std.ExtTreeMap.isSome_getElem?_iff_mem, hget]
        simp
      have hcontains : s.records.contains path = false := by
        rw [← Bool.not_eq_true, Std.ExtTreeMap.contains_iff_mem]
        exact hmem
      rw [BTreeMap.erase_eq_self hmem, hcontains]
      rfl
    · have hcontains : s.records.contains path = true := by
        rw [Std.ExtTreeMap.contains_iff_mem, ← Std.ExtTreeMap.isSome_getElem?_iff_mem, hget]
        rfl
      rw [hget] at h
      simp only [Option.elim_some] at h ⊢
      rw [if_neg (not_lt.mpr h), hcontains]

/-! ## Valid sets -/

variable (H parse)

/-- The count is the sum over the records, the limits hold, and every record is what an admissible
put made. -/
structure RecordSet.Valid (s : RecordSet) : Prop where
  encodedBytes_eq : s.encodedBytes = BTreeMap.total (fun r => r.bytes.length) s.records
  len_le : s.len ≤ maxRecords
  encodedBytes_le : s.encodedBytes ≤ maxTotalRecordBytes
  admissible : ∀ path record, s.records[path]? = some record →
    ∃ value, Admissible H parse path value record

variable {H parse}

theorem RecordSet.bytesAt_add_total_erase (s : RecordSet) (path : Bytes) :
    BTreeMap.total (fun r => r.bytes.length) s.records =
      s.bytesAt path + BTreeMap.total (fun r => r.bytes.length) (s.records.erase path) := by
  unfold RecordSet.bytesAt
  rcases hget : s.records[path]? with _ | record
  · have hmem : path ∉ s.records := by
      rw [← Std.ExtTreeMap.isSome_getElem?_iff_mem, hget]
      simp
    rw [BTreeMap.erase_eq_self hmem, Option.elim_none, Nat.zero_add]
  · exact BTreeMap.total_eq_add_erase _ hget

/-- The counter covers every record. -/
theorem RecordSet.Valid.bytesAt_le {s : RecordSet} (hs : s.Valid H parse) (path : Bytes) :
    s.bytesAt path ≤ s.encodedBytes := by
  rw [hs.encodedBytes_eq, s.bytesAt_add_total_erase path]
  exact Nat.le_add_right _ _

/-- The counter without a path is the sum over the others. -/
theorem RecordSet.Valid.sub_bytesAt {s : RecordSet} (hs : s.Valid H parse) (path : Bytes) :
    s.encodedBytes - s.bytesAt path =
      BTreeMap.total (fun r => r.bytes.length) (s.records.erase path) := by
  rw [hs.encodedBytes_eq, s.bytesAt_add_total_erase path, Nat.add_sub_cancel_left]

theorem valid_new : RecordSet.new.Valid H parse := by
  refine ⟨rfl, Nat.zero_le _, Nat.zero_le _, ?_⟩
  intro path record h
  simp [RecordSet.new] at h

theorem valid_put {s : RecordSet} (hs : s.Valid H parse) (path : Bytes) (value : Json) :
    (put H parse path value s).2.Valid H parse := by
  rcases put_cases path value s with ⟨e, hput⟩ | ⟨record, hrecord, hcount, htotal, hput⟩
  · rw [hput]
    exact hs
  · rw [hput]
    refine ⟨?_, ?_, htotal, ?_⟩
    · rw [hs.sub_bytesAt, BTreeMap.total_insert, Nat.add_comm]
    · unfold RecordSet.len at hcount ⊢
      rw [Std.ExtTreeMap.size_insert]
      have hle : s.records.size ≤ maxRecords := hs.len_le
      split_ifs with hmem
      · exact hle
      · rcases hcount with h | h
        · exact absurd h hmem
        · exact h
    · intro p r hr
      rw [BTreeMap.getElem?_insert] at hr
      split_ifs at hr with hp
      · obtain rfl := Option.some.inj hr
        exact ⟨value, hp ▸ hrecord⟩
      · exact hs.admissible p r hr

theorem valid_delete {s : RecordSet} (hs : s.Valid H parse) (path : Bytes) :
    (delete path s).2.Valid H parse := by
  rw [delete_eq (hs.bytesAt_le path)]
  rcases Syntax.path path with e | ⟨⟩
  · exact hs
  · refine ⟨hs.sub_bytesAt path, ?_, ?_, ?_⟩
    · exact Std.ExtTreeMap.size_erase_le.trans hs.len_le
    · exact (Nat.sub_le _ _).trans hs.encodedBytes_le
    · intro p r hr
      rw [BTreeMap.getElem?_erase] at hr
      split_ifs at hr with hp
      exact hs.admissible p r hr

theorem valid_run {s : RecordSet} (hs : s.Valid H parse) (c : Call) :
    (c.run H parse s).Valid H parse := by
  cases c with
  | put path value => exact valid_put hs path value
  | delete path => exact valid_delete hs path

/-- **Every set reached by calls is valid.** -/
theorem valid_runCalls {s : RecordSet} (hs : s.Valid H parse) (calls : List Call) :
    (runCalls H parse calls s).Valid H parse := by
  induction calls generalizing s with
  | nil => exact hs
  | cons c calls ih => exact ih (valid_run hs c)

/-! ## Histories -/

theorem lastPut_put (path p : Bytes) (value : Json) (calls : List Call) (s : RecordSet) :
    lastPut H parse path (.put p value :: calls) s =
      (lastPut H parse path calls (put H parse p value s).2).or
        (if p = path ∧ (put H parse p value s).1.isOk then some value else none) :=
  rfl

theorem lastPut_delete (path p : Bytes) (calls : List Call) (s : RecordSet) :
    lastPut H parse path (.delete p :: calls) s =
      (lastPut H parse path calls (delete p s).2).or none :=
  rfl

/-- A record after some calls: of the last put of its path, or there from the start. -/
theorem getElem?_runCalls {calls : List Call} {s : RecordSet} (hs : s.Valid H parse) {path : Bytes}
    {record : Record} (h : (runCalls H parse calls s).records[path]? = some record) :
    (∃ value, lastPut H parse path calls s = some value ∧
        Admissible H parse path value record) ∨
      lastPut H parse path calls s = none ∧ s.records[path]? = some record := by
  induction calls generalizing s with
  | nil => exact Or.inr ⟨rfl, h⟩
  | cons c calls ih =>
      have hrest := ih (valid_run hs c) h
      cases c with
      | put p value =>
          simp only [Call.run] at hrest
          rw [lastPut_put]
          rcases hrest with ⟨value', hlast, hrecord⟩ | ⟨hlast, hget⟩
          · refine Or.inl ⟨value', ?_, hrecord⟩
            rw [hlast, Option.some_or]
          -- no later put of the path succeeds, so this call decides
          rw [hlast, Option.none_or]
          rcases put_cases p value s with ⟨e, hput⟩ | ⟨record', hrecord', -, -, hput⟩
          · rw [hput] at hget ⊢
            exact Or.inr ⟨if_neg (by simp [Except.isOk, Except.toBool]), hget⟩
          · rw [hput] at hget ⊢
            rw [BTreeMap.getElem?_insert] at hget
            by_cases hp : p = path
            · rw [if_pos hp] at hget
              obtain rfl := Option.some.inj hget
              exact Or.inl ⟨value, if_pos ⟨hp, rfl⟩, hp ▸ hrecord'⟩
            · rw [if_neg hp] at hget
              exact Or.inr ⟨if_neg fun h => hp h.1, hget⟩
      | delete p =>
          simp only [Call.run] at hrest
          rw [lastPut_delete, Option.or_none]
          rcases hrest with hrest | ⟨hlast, hget⟩
          · exact Or.inl hrest
          rw [delete_eq (hs.bytesAt_le p)] at hget
          refine Or.inr ⟨hlast, ?_⟩
          rcases hpath : Syntax.path p with e | ⟨⟩
          · rw [hpath] at hget
            exact hget
          · rw [hpath] at hget
            simp only at hget
            rw [BTreeMap.getElem?_erase] at hget
            split_ifs at hget
            exact hget

/-- A path still present has a last put, which made its record. -/
theorem lastPut_of_getElem? {calls : List Call} {path : Bytes} {record : Record}
    (h : (runCalls H parse calls new).records[path]? = some record) :
    ∃ value, lastPut H parse path calls new = some value ∧
      Admissible H parse path value record := by
  rcases getElem?_runCalls valid_new h with h | ⟨-, h⟩
  · exact h
  · simp [RecordSet.new] at h

/-- The history names every path still present, in order. -/
theorem map_fst_history (calls : List Call) :
    (history H parse calls).map Prod.fst = (runCalls H parse calls new).records.keys := by
  unfold history
  have hall : ∀ path ∈ (runCalls H parse calls new).records.keys,
      ∃ value, lastPut H parse path calls new = some value := by
    intro path hpath
    rw [Std.ExtTreeMap.mem_keys, ← Std.ExtTreeMap.isSome_getElem?_iff_mem] at hpath
    obtain ⟨record, hrecord⟩ := Option.isSome_iff_exists.mp hpath
    obtain ⟨value, hvalue, -⟩ := lastPut_of_getElem? hrecord
    exact ⟨value, hvalue⟩
  generalize (runCalls H parse calls new).records.keys = paths at hall ⊢
  induction paths with
  | nil => rfl
  | cons path paths ih =>
      obtain ⟨value, hvalue⟩ := hall path List.mem_cons_self
      rw [List.filterMap_cons, hvalue, Option.map_some, List.map_cons,
        ih fun p hp => hall p (List.mem_cons_of_mem _ hp)]

/-- A pair of the history is a last put, and its record is in the set. -/
theorem of_mem_history {calls : List Call} {p : Bytes × Json} (h : p ∈ history H parse calls) :
    ∃ record, (runCalls H parse calls new).records[p.1]? = some record ∧
      Admissible H parse p.1 p.2 record := by
  obtain ⟨path, hpath, hmap⟩ := List.mem_filterMap.mp h
  obtain ⟨value, hvalue, rfl⟩ := Option.map_eq_some_iff.mp hmap
  rw [Std.ExtTreeMap.mem_keys, ← Std.ExtTreeMap.isSome_getElem?_iff_mem] at hpath
  obtain ⟨record, hrecord⟩ := Option.isSome_iff_exists.mp hpath
  obtain ⟨value', hvalue', hadm⟩ := lastPut_of_getElem? hrecord
  rw [hvalue] at hvalue'
  obtain rfl := Option.some.inj hvalue'
  exact ⟨record, hrecord, hadm⟩

/-- The set that holds exactly these entries. -/
structure Holds (s : RecordSet) (entries : List (Bytes × Record)) : Prop where
  perm : s.records.toList.Perm entries
  encodedBytes_eq : s.encodedBytes = (entries.map fun e => e.2.bytes.length).sum

/-- **Replay**: putting pairs with distinct paths in turn, next to entries already there, reaches
the set with all of them, as long as this set is within the limits. -/
theorem putAll_eq_ok {pairs : List (Bytes × Json)} {done rest : List (Bytes × Record)}
    {s : RecordSet} (hs : Holds s done)
    (hpairs : List.Forall₂ (fun p e => p.1 = e.1 ∧ Admissible H parse p.1 p.2 e.2) pairs rest)
    (hnodup : ((done ++ rest).map Prod.fst).Nodup) (hlen : (done ++ rest).length ≤ maxRecords)
    (htotal : ((done ++ rest).map fun e => e.2.bytes.length).sum ≤ maxTotalRecordBytes) :
    ∃ s', putAll H parse pairs s = .ok s' ∧ Holds s' (done ++ rest) := by
  induction hpairs generalizing done s with
  | nil => exact ⟨s, rfl, by rwa [List.append_nil]⟩
  | @cons p e pairs rest he _ ih =>
      obtain ⟨path, value⟩ := p
      obtain ⟨path', record⟩ := e
      obtain ⟨rfl, hadm⟩ := he
      simp only at hadm
      have hmem : path ∉ s.records := by
        intro hmem
        obtain ⟨r, hr⟩ := Option.isSome_iff_exists.mp
          (Std.ExtTreeMap.isSome_getElem?_iff_mem.mpr hmem)
        have hdone : (path, r) ∈ done := hs.perm.mem_iff.mp (BTreeMap.mem_toList.mpr hr)
        rw [List.map_append, List.nodup_append] at hnodup
        exact hnodup.2.2 path (List.mem_map_of_mem hdone) path (by simp) rfl
      have hzero : s.bytesAt path = 0 := by
        rw [RecordSet.bytesAt, Std.ExtTreeMap.getElem?_eq_none hmem, Option.elim_none]
      -- the entries with this one moved to those already there
      have hcomm : done ++ (path, record) :: rest = (done ++ [(path, record)]) ++ rest := by
        rw [List.append_assoc, List.singleton_append]
      have hsum : s.encodedBytes - s.bytesAt path + record.bytes.length =
          ((done ++ [(path, record)]).map fun e => e.2.bytes.length).sum := by
        rw [hzero, Nat.sub_zero, hs.encodedBytes_eq, List.map_append, List.sum_append,
          List.map_singleton, List.sum_singleton]
      have hput : put H parse path value s = (.ok record.cid, ⟨s.records.insert path record,
          s.encodedBytes - s.bytesAt path + record.bytes.length⟩) := by
        refine put_eq_ok.mpr ⟨record, hadm, Or.inr ?_, ?_, ?_, rfl, rfl⟩
        · rw [RecordSet.len, ← Std.ExtTreeMap.length_toList, hs.perm.length_eq]
          rw [List.length_append, List.length_cons] at hlen
          omega
        · rw [hzero]
          exact Nat.zero_le _
        · rw [hcomm, List.map_append, List.sum_append] at htotal
          rw [hsum]
          exact (Nat.le_add_right _ _).trans htotal
      have hnext : Holds ⟨s.records.insert path record,
          s.encodedBytes - s.bytesAt path + record.bytes.length⟩ (done ++ [(path, record)]) := by
        refine ⟨?_, hsum⟩
        refine (BTreeMap.toList_insert_perm _ _ _).trans ?_
        rw [BTreeMap.erase_eq_self hmem]
        exact (hs.perm.cons _).trans (List.perm_append_singleton _ _).symm
      rw [hcomm] at hnodup hlen htotal ⊢
      obtain ⟨s', hs', hholds⟩ := ih hnext hnodup hlen htotal
      refine ⟨s', ?_, hholds⟩
      rw [putAll, hput]
      exact hs'

/-- **Putting a history again, in any order, gives the same set.** No call fails on the way. -/
theorem putAll_history (calls : List Call) {pairs : List (Bytes × Json)}
    (hpairs : pairs.Perm (history H parse calls)) :
    putAll H parse pairs new = .ok (runCalls H parse calls new) := by
  have hvalid : (runCalls H parse calls new).Valid H parse := valid_runCalls valid_new calls
  -- the entries of the set, in the order of the pairs
  have hentries : ∃ entries : List (Bytes × Record),
      List.Forall₂ (fun p e => p.1 = e.1 ∧ Admissible H parse p.1 p.2 e.2) pairs entries ∧
        ∀ e ∈ entries, (runCalls H parse calls new).records[e.1]? = some e.2 := by
    have hmem : ∀ p ∈ pairs, p ∈ history H parse calls := fun p hp => hpairs.mem_iff.mp hp
    clear hpairs
    induction pairs with
    | nil => exact ⟨[], .nil, by simp⟩
    | cons p pairs ih =>
        obtain ⟨entries, hall, hget⟩ := ih fun q hq => hmem q (List.mem_cons_of_mem _ hq)
        obtain ⟨record, hrecord, hadm⟩ := of_mem_history (hmem p List.mem_cons_self)
        refine ⟨(p.1, record) :: entries, .cons ⟨rfl, hadm⟩ hall, ?_⟩
        rw [List.forall_mem_cons]
        exact ⟨hrecord, hget⟩
  obtain ⟨entries, hall, hget⟩ := hentries
  have hfst : entries.map Prod.fst = pairs.map Prod.fst := by
    clear hpairs hget
    induction hall with
    | nil => rfl
    | cons he _ ih => rw [List.map_cons, List.map_cons, ih, he.1]
  have hkeys : (entries.map Prod.fst).Perm (runCalls H parse calls new).records.keys := by
    rw [hfst, ← map_fst_history]
    exact hpairs.map _
  have hnodup : (entries.map Prod.fst).Nodup :=
    hkeys.nodup_iff.mpr Std.ExtTreeMap.nodup_keys
  have hperm : (runCalls H parse calls new).records.toList.Perm entries := by
    rw [List.perm_ext_iff_of_nodup (BTreeMap.nodup_toList _) hnodup.of_map]
    intro e
    constructor
    · intro he
      have hkey : e.1 ∈ entries.map Prod.fst := by
        rw [hkeys.mem_iff, ← Std.ExtTreeMap.map_fst_toList_eq_keys]
        exact List.mem_map_of_mem he
      obtain ⟨e', he', hkey'⟩ := List.mem_map.mp hkey
      have h' := hget e' he'
      rw [hkey', BTreeMap.mem_toList.mp he] at h'
      rwa [Prod.ext hkey'.symm (Option.some.inj h')]
    · intro he
      exact BTreeMap.mem_toList.mpr (hget e he)
  have hsum : (runCalls H parse calls new).encodedBytes =
      (entries.map fun e => e.2.bytes.length).sum := by
    rw [hvalid.encodedBytes_eq, BTreeMap.total, (hperm.map _).sum_eq]
  obtain ⟨s', hs', hholds⟩ := @putAll_eq_ok H parse pairs [] entries new
    ⟨.nil, rfl⟩ hall hnodup
    (by
      rw [List.nil_append, ← hperm.length_eq, Std.ExtTreeMap.length_toList]
      exact hvalid.len_le)
    (by
      rw [List.nil_append, ← hsum]
      exact hvalid.encodedBytes_le)
  rw [hs']
  congr 1
  have hrecords : s'.records = (runCalls H parse calls new).records :=
    Std.ExtTreeMap.ext_toList (hholds.perm.trans hperm.symm)
  have hbytes : s'.encodedBytes = (runCalls H parse calls new).encodedBytes := by
    rw [hholds.encodedBytes_eq, List.nil_append, hsum]
  calc s' = ⟨s'.records, s'.encodedBytes⟩ := rfl
    _ = ⟨(runCalls H parse calls new).records, (runCalls H parse calls new).encodedBytes⟩ := by
      rw [hrecords, hbytes]
    _ = runCalls H parse calls new := rfl

/-! ## Every record decodes -/

/-- The objects of the value of a call are ordered maps. -/
def Call.Sorted : Call → Prop
  | .put _ value => value.Sorted
  | .delete _ => True

/-- A last put is one of the calls. -/
theorem mem_of_lastPut {path : Bytes} {value : Json} {calls : List Call} {s : RecordSet}
    (h : lastPut H parse path calls s = some value) : .put path value ∈ calls := by
  induction calls generalizing s with
  | nil => cases h
  | cons c calls ih =>
      rcases Option.or_eq_some_iff.mp h with h | ⟨-, h⟩
      · exact List.mem_cons_of_mem _ (ih h)
      · cases c with
        | put p v =>
            simp only at h
            split_ifs at h with hp
            obtain rfl := Option.some.inj h
            rw [hp.1]
            exact List.mem_cons_self
        | delete p => cases h

/-- The bytes of an admissible record decode to a map whose type is the collection of its path. -/
theorem Admissible.decodes {path : Bytes} {value : Json} {record : Record}
    (h : Admissible H parse path value record) (hvalue : value.Sorted) :
    ∃ collection key fields, Bytes.splitOnce 47 path = some (collection, key) ∧
      DagCbor.decode record.bytes = some (.map fields) ∧
      fields.lookup (str "$type") = some (.string collection) := by
  obtain ⟨collection, key, hsplit, -⟩ := Syntax.exists_split_of_path h.path_ok
  have htype := h.type_ok
  rw [hsplit, Option.map_some] at htype
  obtain ⟨ipld, left, hipld, rfl⟩ := h.converts
  obtain ⟨fields, rfl, hlookup⟩ := map_of_type hipld htype
  have hsorted := (faithful_of_jsonToIpld value hvalue 0 _ _ _ hipld).storable.sorted
  exact ⟨collection, key, fields, hsplit, DagCbor.decode_encode hsorted, hlookup⟩

/-- The counter is the sum over the records and covers each of them, the limits hold, every record
is one its path admits, and a call that fails changes nothing. -/
theorem recordSet_invariant (calls : List Call) (hcalls : ∀ c ∈ calls, c.Sorted) :
    let s := runCalls H parse calls new
    s.encodedBytes = (s.records.toList.map fun e => e.2.bytes.length).sum ∧
      s.encodedBytes ≤ maxTotalRecordBytes ∧ s.len ≤ maxRecords ∧
      (∀ path record, s.records[path]? = some record →
        record.bytes.length ≤ maxRecordBytes ∧ record.cid = cidFor H record.bytes ∧
        Syntax.path path = .ok () ∧ ∃ collection key fields,
          Bytes.splitOnce 47 path = some (collection, key) ∧
          DagCbor.decode record.bytes = some (.map fields) ∧
          fields.lookup (str "$type") = some (.string collection)) ∧
      (∀ path, s.bytesAt path ≤ s.encodedBytes) ∧
      (∀ path value e s', put H parse path value s = (.error e, s') → s' = s) ∧
      ∀ path e s', delete path s = (.error e, s') → s' = s := by
  intro s
  have hs : s.Valid H parse := valid_runCalls valid_new calls
  refine ⟨hs.encodedBytes_eq, hs.encodedBytes_le, hs.len_le, ?_, hs.bytesAt_le,
    fun path value e s' h => put_of_error h, ?_⟩
  · intro path record hrecord
    obtain ⟨value, hvalue, hadm⟩ := lastPut_of_getElem? hrecord
    have hsorted : value.Sorted := hcalls _ (mem_of_lastPut hvalue)
    exact ⟨hadm.length_le, hadm.cid_eq.symm, hadm.path_ok, hadm.decodes hsorted⟩
  · intro path e s' h
    rw [delete_eq (hs.bytesAt_le path)] at h
    rcases hpath : Syntax.path path with e' | ⟨⟩
    · rw [hpath] at h
      exact (congrArg Prod.snd h).symm
    · rw [hpath] at h
      cases h

/-- A record put, put again and deleted twice. -/
theorem recordSet_invariant_sample :
    let path := str "app.bsky.feed.post/1"
    let value (text : String) : Json :=
      .object [(str "$type", .string (str "app.bsky.feed.post")), (str "text", .string (str text))]
    let s := runCalls sha2 Cid.ofBase32
      [.put path (value "a long text"), .put path (value "short"), .delete (str "no path"),
        .delete (str "app.bsky.feed.post/2")] new
    s.len = 1 ∧ s.encodedBytes = 37 ∧
      s.encodedBytes = (s.records.toList.map fun e => e.2.bytes.length).sum := by
  intro path value s
  refine ⟨by decide +kernel, by decide +kernel, ?_⟩
  refine (recordSet_invariant _ ?_).1
  have hkeys : compare (str "$type") (str "text") = .lt := by decide
  have hvalue : ∀ text, (value text).Sorted := fun text =>
    .object (List.pairwise_pair.mpr hkeys) (by
      intro f hf
      simp only [List.mem_cons, List.not_mem_nil, or_false] at hf
      rcases hf with rfl | rfl <;> exact .string _)
  simp [Call.Sorted, hvalue]

end PurpleSky.Repo
