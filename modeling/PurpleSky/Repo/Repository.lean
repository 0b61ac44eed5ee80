import PurpleSky.Repo.Car
import PurpleSky.Repo.Mst
import PurpleSky.Repo.RecordSet

/-!
# Signed repositories (`Repository`)

`build` makes the tree, the commit and the block map of a record set; `verify` checks a block map
against the record set and a public key. Signatures are a parameter, `Ecdsa`, with what the program
relies on in `Ecdsa.Lawful`.

* **`build_eq`**: `build` succeeds on accepted metadata and files exactly `allBlocks`.
* **`verify_iff`**: a block map passes `verify` exactly when it has every built block unchanged and
  every block of it has its own address.
* **`history_independent`**: the calls that led to a record set do not show in the repository.
-/

namespace PurpleSky.Repo

/-- Signatures as the program uses them: the signer of the curve's library, the low-S form of a
signature if it is not low already, and the byte forms of signatures and keys. -/
structure Ecdsa where
  SigningKey : Type
  VerifyingKey : Type
  Signature : Type
  verifyingKey : SigningKey → VerifyingKey
  sign : SigningKey → Bytes → Signature
  normalizeS : Signature → Option Signature
  toBytes : Signature → Bytes
  fromSlice : Bytes → Option Signature
  toSec1 : VerifyingKey → Bytes
  fromSec1 : Bytes → Option VerifyingKey
  verify : VerifyingKey → Bytes → Signature → Bool

namespace Ecdsa

/-- The low-S form of a signature. -/
def lowS (E : Ecdsa) (s : E.Signature) : E.Signature := (E.normalizeS s).getD s

/-- Byte forms read back; a low-S form is low; and the low-S form of a signature made with a key
verifies under it. -/
structure Lawful (E : Ecdsa) : Prop where
  fromSec1_toSec1 : ∀ k, E.fromSec1 (E.toSec1 k) = some k
  fromSlice_toBytes : ∀ s, E.fromSlice (E.toBytes s) = some s
  normalizeS_lowS : ∀ s, E.normalizeS (E.lowS s) = none
  verify_lowS_sign : ∀ k m, E.verify (E.verifyingKey k) m (E.lowS (E.sign k m)) = true

end Ecdsa

/-! ## Commits -/

/-- A commit before it is signed.
Source: `lib.rs`, `UnsignedCommit` -/
structure UnsignedCommit where
  did : Bytes
  version : Nat
  data : Cid
  rev : Bytes
  prev : Option Cid
  deriving DecidableEq, Repr

/-- A signed commit.
Source: `lib.rs`, `SignedCommit` -/
structure SignedCommit where
  did : Bytes
  version : Nat
  data : Cid
  rev : Bytes
  prev : Option Cid
  sig : Bytes
  deriving DecidableEq, Repr

/-- The derived serialization of an unsigned commit. -/
def UnsignedCommit.toIpld (c : UnsignedCommit) : Ipld :=
  .map [(str "data", .link c.data), (str "did", .string c.did), (str "prev", linkOrNull c.prev),
    (str "rev", .string c.rev), (str "version", .integer c.version)]

/-- The fields of a signed commit. -/
def SignedCommit.toFields (c : SignedCommit) : List (Bytes × Ipld) :=
  [(str "data", .link c.data), (str "did", .string c.did), (str "prev", linkOrNull c.prev),
    (str "rev", .string c.rev), (str "sig", .bytes c.sig), (str "version", .integer c.version)]

/-- The derived serialization of a signed commit. -/
def SignedCommit.toIpld (c : SignedCommit) : Ipld := .map c.toFields

/-- What a signature covers.
Source: `lib.rs`, `SignedCommit::unsigned` -/
def SignedCommit.unsigned (c : SignedCommit) : UnsignedCommit :=
  ⟨c.did, c.version, c.data, c.rev, c.prev⟩

/-- The derived reading of a commit: the fields by name, in any order and among others; a missing
`prev` is none. -/
def SignedCommit.ofIpld? : Ipld → Option SignedCommit
  | .map fields =>
      if (fields.map Prod.fst).Nodup then
        match fields.lookup (str "did"), fields.lookup (str "version"), fields.lookup (str "data"),
          fields.lookup (str "rev"), fields.lookup (str "sig") with
        | some (.string did), some (.integer version), some (.link data), some (.string rev),
          some (.bytes sig) =>
            if 0 ≤ version ∧ version < 2 ^ 64 then
              (((fields.lookup (str "prev")).map linkOrNull?).getD (some none)).map fun prev =>
                ⟨did, version.toNat, data, rev, prev, sig⟩
            else none
        | _, _, _, _, _ => none
      else none
  | _ => none

/-- The commit a block holds. -/
def decodeCommit (bytes : Bytes) : Except Error SignedCommit :=
  match (DagCbor.decode bytes).bind SignedCommit.ofIpld? with
  | some commit => .ok commit
  | none => .error (.cbor "invalid commit")

theorem SignedCommit.toIpld_sorted (c : SignedCommit) : c.toIpld.Sorted := by
  refine .map (by simp [toFields, Ipld.FieldLt]; decide) ?_
  simp only [toFields, List.mem_cons, List.not_mem_nil, or_false, forall_eq_or_imp, forall_eq]
  exact ⟨.link _, .string _, linkOrNull_sorted _, .string _, .bytes _, .integer _⟩

theorem SignedCommit.ofIpld?_toIpld {c : SignedCommit} (h : c.version < 2 ^ 64) :
    SignedCommit.ofIpld? c.toIpld = some c := by
  have hversion : (0 : Int) ≤ c.version ∧ (c.version : Int) < 2 ^ 64 := by
    constructor
    · exact Int.natCast_nonneg _
    · exact_mod_cast h
  have hnodup : (c.toFields.map Prod.fst).Nodup := by
    show [str "data", str "did", str "prev", str "rev", str "sig", str "version"].Nodup
    decide
  have hdid : c.toFields.lookup (str "did") = some (.string c.did) := rfl
  have hprev : c.toFields.lookup (str "prev") = some (linkOrNull c.prev) := rfl
  have hrev : c.toFields.lookup (str "rev") = some (.string c.rev) := rfl
  have hsig : c.toFields.lookup (str "sig") = some (.bytes c.sig) := rfl
  have hdata : c.toFields.lookup (str "data") = some (.link c.data) := rfl
  have hver : c.toFields.lookup (str "version") = some (.integer c.version) := rfl
  simp only [SignedCommit.ofIpld?, SignedCommit.toIpld, hdid, hprev, hrev, hsig, hdata, hver]
  rw [if_pos hnodup, if_pos hversion, Option.map_some, linkOrNull?_linkOrNull, Option.getD_some,
    Option.map_some, Int.toNat_natCast]

/-- A commit block reads back. -/
theorem decodeCommit_encode {c : SignedCommit} (h : c.version < 2 ^ 64) :
    decodeCommit (encode c.toIpld) = .ok c := by
  rw [decodeCommit, encode, DagCbor.decode_encode c.toIpld_sorted, Option.bind_some,
    SignedCommit.ofIpld?_toIpld h]

/-! ## Building and verifying -/

/-- A repository snapshot with its blocks.
Source: `lib.rs`, `Repository` -/
structure Repository where
  commit : SignedCommit
  root : Cid
  records : RecordSet
  blocks : Blocks

/-- The addresses of the records by path. -/
def RecordSet.mapping (s : RecordSet) : BTreeMap Bytes Cid := s.records.map fun _ r => r.cid

variable (H : Sha256) (E : Ecdsa)

/-- The compressed public key of a signer.
Source: `lib.rs`, `RepoSigner::public_key_sec1` -/
def publicKeySec1 (signer : E.SigningKey) : Bytes := E.toSec1 (E.verifyingKey signer)

/-- Sign bytes, in low-S form.
Source: `lib.rs`, `RepoSigner::sign` -/
def sign (signer : E.SigningKey) (bytes : Bytes) : Bytes := E.toBytes (E.lowS (E.sign signer bytes))

/-- Build a snapshot of a record set.
Source: `lib.rs`, `Repository::build` -/
def build (did rev : Bytes) (records : RecordSet) (signer : E.SigningKey) :
    Except Error Repository := do
  Syntax.metadata did rev
  let (data, blocks) ← Mst.build H records.mapping ∅
  let blocks := records.records.toList.foldl (fun blocks (_, r) => blocks.insert r.cid r.bytes) blocks
  let unsigned : UnsignedCommit := ⟨did, 3, data, rev, none⟩
  let signature := sign E signer (encode unsigned.toIpld)
  let commit : SignedCommit := ⟨unsigned.did, 3, data, unsigned.rev, none, signature⟩
  let bytes := encode commit.toIpld
  let root := cidFor H bytes
  pure ⟨commit, root, records, blocks.insert root bytes⟩

/-- The root of the record tree.
Source: `lib.rs`, `Repository::mst_root` -/
def Repository.mstRoot (r : Repository) : Cid := r.commit.data

/-- The CAR export.
Source: `lib.rs`, `Repository::to_car` -/
def Repository.toCar (r : Repository) : Except Error Bytes := Car.exportCar r.root r.blocks

/-- Check every block's address, the commit, its signature, and the tree and records.
Source: `lib.rs`, `Repository::verify` -/
def verify (r : Repository) (publicKey : Bytes) : Except Error Unit := do
  ensure (r.blocks.toList.all fun (cid, bytes) => decide (cidFor H bytes = cid))
    (.verification "block hash mismatch")
  let commitBytes ← okOr r.blocks[r.root]? (.verification "missing commit")
  let commit ← decodeCommit commitBytes
  Syntax.metadata commit.did commit.rev
  ensure (commit.version = 3 ∧ commit.prev = none ∧ encode commit.toIpld = commitBytes)
    (.verification "invalid commit schema or encoding")
  let key ← okOr (E.fromSec1 publicKey) .signature
  let sig ← okOr (E.fromSlice commit.sig) .signature
  ensure (E.normalizeS sig).isNone .signature
  ensure (E.verify key (encode commit.unsigned.toIpld) sig) .signature
  let (data, expectedBlocks) ← Mst.build H r.records.mapping ∅
  ensure (data = commit.data) (.verification "MST root mismatch")
  ensure (expectedBlocks.toList.all fun (cid, bytes) => decide (r.blocks[cid]? = some bytes))
    (.verification "missing or incorrect MST block")
  ensure (r.records.records.toList.all fun (_, record) =>
    decide (r.blocks[record.cid]? = some record.bytes)) (.verification "missing record block")

/-! ## What `build` returns -/

/-- The commit of a snapshot. -/
def commitFor (did rev : Bytes) (records : RecordSet) (signer : E.SigningKey) : SignedCommit :=
  ⟨did, 3, Mst.rootCid H records.mapping, rev, none,
    sign E signer (encode (UnsignedCommit.toIpld
      ⟨did, 3, Mst.rootCid H records.mapping, rev, none⟩))⟩

/-- The block of this commit. -/
def commitBytes (did rev : Bytes) (records : RecordSet) (signer : E.SigningKey) : Bytes :=
  encode (commitFor H E did rev records signer).toIpld

/-- The record blocks, in path order. -/
def recordBlocks (records : RecordSet) : List Bytes := records.records.toList.map fun e => e.2.bytes

/-- All blocks of a snapshot in the order they are filed: tree nodes, records, commit. -/
def allBlocks (did rev : Bytes) (records : RecordSet) (signer : E.SigningKey) : List Bytes :=
  Mst.nodeBlocks H records.mapping ++ recordBlocks records ++
    [commitBytes H E did rev records signer]

/-- The snapshot. -/
def repositoryFor (did rev : Bytes) (records : RecordSet) (signer : E.SigningKey) : Repository :=
  ⟨commitFor H E did rev records signer, cidFor H (commitBytes H E did rev records signer), records,
    Cas.insertAll (cidFor H) (allBlocks H E did rev records signer) ∅⟩

variable {H E} {parse : Bytes → Option Cid}

theorem foldl_insert_records {entries : List (Bytes × Record)}
    (h : ∀ e ∈ entries, cidFor H e.2.bytes = e.2.cid) (blocks : Blocks) :
    entries.foldl (fun blocks (_, r) => blocks.insert r.cid r.bytes) blocks =
      Cas.insertAll (cidFor H) (entries.map fun e => e.2.bytes) blocks := by
  induction entries generalizing blocks with
  | nil => rfl
  | cons e entries ih =>
      rw [List.foldl_cons, ih fun e' he' => h e' (List.mem_cons_of_mem _ he'), List.map_cons,
        Cas.insertAll_cons, h e List.mem_cons_self]

theorem RecordSet.Valid.cid_eq {s : RecordSet} (hs : s.Valid H parse) :
    ∀ e ∈ s.records.toList, cidFor H e.2.bytes = e.2.cid := by
  intro e he
  obtain ⟨value, hvalue⟩ := hs.admissible e.1 e.2 (BTreeMap.mem_toList.mp he)
  exact hvalue.cid_eq

/-- **`build` succeeds on accepted metadata** and files exactly the blocks of the snapshot. -/
theorem build_eq {did rev : Bytes} (hmeta : Syntax.metadata did rev = .ok ()) {s : RecordSet}
    (hs : s.Valid H parse) (signer : E.SigningKey) :
    build H E did rev s signer = .ok (repositoryFor H E did rev s signer) := by
  unfold build
  refine bind_eq_ok.mpr ⟨(), hmeta, ?_⟩
  refine bind_eq_ok.mpr ⟨_, Mst.build_eq H s.mapping ∅, ?_⟩
  simp only [foldl_insert_records hs.cid_eq]
  unfold repositoryFor allBlocks
  rw [Cas.insertAll_append, Cas.insertAll_append]
  rfl

/-- The root is the address of a block. -/
theorem root_of_build {did rev : Bytes} {s : RecordSet} {signer : E.SigningKey} {r : Repository}
    (h : build H E did rev s signer = .ok r) : ∃ bytes, r.root = cidFor H bytes := by
  simp only [build, bind_eq_ok, pure_eq_ok, Prod.exists] at h
  obtain ⟨_, -, data, blocks, -, rfl⟩ := h
  exact ⟨_, rfl⟩

/-! ## What `verify` accepts -/

/-- What `verify` asks of the blocks of a snapshot: their addresses, the commit, the tree and the
records. -/
theorem verify_eq_ok (hE : E.Lawful) {did rev : Bytes} (hmeta : Syntax.metadata did rev = .ok ())
    {s : RecordSet} (hs : s.Valid H parse) {signer : E.SigningKey} {blocks : Blocks}
    (hfree : Cas.CollisionFree (cidFor H) (commitBytes H E did rev s signer ::
      (Mst.nodeBlocks H s.mapping ++ blocks.toList.map Prod.snd))) :
    verify H E { repositoryFor H E did rev s signer with blocks } (publicKeySec1 E signer) =
        .ok () ↔
      Cas.Addressed (cidFor H) blocks ∧
        ∀ b ∈ allBlocks H E did rev s signer, blocks[cidFor H b]? = some b := by
  let commit := commitFor H E did rev s signer
  let bytes := commitBytes H E did rev s signer
  have hdecode : decodeCommit bytes = .ok commit := decodeCommit_encode (by decide : 3 < 2 ^ 64)
  have hnodes : Cas.CollisionFree (cidFor H) (Mst.nodeBlocks H s.mapping) :=
    hfree.of_subset fun b hb => by simp [hb]
  have hrecords : (∀ e ∈ s.records.toList, blocks[e.2.cid]? = some e.2.bytes) ↔
      ∀ b ∈ recordBlocks s, blocks[cidFor H b]? = some b := by
    rw [recordBlocks, List.forall_mem_map]
    exact forall₂_congr fun e he => by rw [hs.cid_eq e he]
  have hall : (∀ b ∈ allBlocks H E did rev s signer, blocks[cidFor H b]? = some b) ↔
      (∀ b ∈ Mst.nodeBlocks H s.mapping, blocks[cidFor H b]? = some b) ∧
        (∀ b ∈ recordBlocks s, blocks[cidFor H b]? = some b) ∧
          blocks[cidFor H bytes]? = some bytes := by
    rw [allBlocks, List.forall_mem_append, List.forall_mem_append, List.forall_mem_singleton,
      and_assoc]
  have haddressed : (∀ e ∈ blocks.toList, cidFor H e.2 = e.1) ↔ Cas.Addressed (cidFor H) blocks :=
    BTreeMap.forall_mem_toList
  have hexpected : (∀ e ∈ (Cas.insertAll (cidFor H) (Mst.nodeBlocks H s.mapping)
      (∅ : Blocks)).toList, blocks[e.1]? = some e.2) ↔
        ∀ b ∈ Mst.nodeBlocks H s.mapping, blocks[cidFor H b]? = some b := by
    rw [BTreeMap.forall_mem_toList, ← Cas.contains_insertAll_iff hnodes]
    rfl
  rw [hall, ← hrecords, ← hexpected, ← haddressed]
  unfold verify
  simp only [bind_eq_ok, ensure_eq_ok, okOr_eq_ok, repositoryFor, decide_eq_true_eq,
    List.all_eq_true]
  constructor
  · rintro ⟨-, haddr, root, hroot, -, -, -, -, -, -, -, -, -, -, -, -, -, -, built, hbuild, -, -, -,
      hmst, hrec⟩
    rw [Mst.build_eq] at hbuild
    obtain rfl := Except.ok.inj hbuild
    -- the block at the root has the address of the commit, so it is the commit
    have hroot' : root = bytes := by
      refine hfree root ?_ bytes (by simp [bytes]) ?_
      · rw [List.mem_cons, List.mem_append]
        exact Or.inr (Or.inr (BTreeMap.mem_map_snd_toList hroot))
      · exact haddressed.mp haddr _ _ hroot
    rw [hroot'] at hroot
    exact ⟨haddr, hmst, hrec, hroot⟩
  · rintro ⟨haddr, hmst, hrec, hroot⟩
    have hsig := hE.fromSlice_toBytes (E.lowS (E.sign signer (encode commit.unsigned.toIpld)))
    have hlow := hE.normalizeS_lowS (E.sign signer (encode commit.unsigned.toIpld))
    refine ⟨(), haddr, bytes, hroot, commit, hdecode, (), hmeta, (), ⟨rfl, rfl, rfl⟩,
      E.verifyingKey signer, hE.fromSec1_toSec1 _, _, hsig, (), ?_, (), hE.verify_lowS_sign _ _, _,
      Mst.build_eq H s.mapping ∅, (), rfl, (), hmst, hrec⟩
    rw [hlow]
    rfl

/-- **`verify` accepts exactly the untampered block maps.** A snapshot is built from any accepted
metadata and any record set that calls reach; whatever blocks it is given, it passes `verify` under
its signer's key exactly when every built block is there unchanged and every block has its own
address. The blocks involved are those of the snapshot and those given. -/
theorem verify_iff (hE : E.Lawful) {did rev : Bytes} (hmeta : Syntax.metadata did rev = .ok ())
    (calls : List Call) (signer : E.SigningKey) :
    ∃ r, build H E did rev (runCalls H parse calls .new) signer = .ok r ∧
      ∀ blocks : Blocks,
        Cas.CollisionFree (cidFor H) (allBlocks H E did rev (runCalls H parse calls .new) signer ++
          blocks.toList.map Prod.snd) →
        (verify H E { r with blocks } (publicKeySec1 E signer) = .ok () ↔
          (∀ (cid : Cid) (bytes : Bytes), r.blocks[cid]? = some bytes → blocks[cid]? = some bytes) ∧
            ∀ (cid : Cid) (bytes : Bytes), blocks[cid]? = some bytes → cidFor H bytes = cid) := by
  have hs : (runCalls H parse calls .new).Valid H parse := valid_runCalls valid_new calls
  refine ⟨_, build_eq hmeta hs signer, ?_⟩
  intro blocks hfree
  have hown : Cas.CollisionFree (cidFor H)
      (allBlocks H E did rev (runCalls H parse calls .new) signer) :=
    hfree.of_subset fun b hb => by simp [hb]
  rw [verify_eq_ok hE hmeta hs]
  · rw [← Cas.contains_insertAll_iff hown, and_comm]
    rfl
  · refine hfree.of_subset fun b hb => ?_
    simp only [allBlocks, List.mem_cons, List.mem_append] at hb ⊢
    tauto

/-- A snapshot as built passes. -/
theorem verify_of_build (hE : E.Lawful) {did rev : Bytes} {s : RecordSet} (hs : s.Valid H parse)
    {signer : E.SigningKey} {r : Repository} (h : build H E did rev s signer = .ok r)
    (hfree : Cas.CollisionFree (cidFor H) (allBlocks H E did rev s signer)) :
    verify H E r (publicKeySec1 E signer) = .ok () := by
  have hmeta : Syntax.metadata did rev = .ok () := (bind_eq_ok.mp h).choose_spec.1
  rw [build_eq hmeta hs] at h
  obtain rfl := Except.ok.inj h
  have hfiled : (repositoryFor H E did rev s signer).blocks.toList.map Prod.snd ⊆
      allBlocks H E did rev s signer := Cas.map_snd_insertAll_subset _
  have hcommit : commitBytes H E did rev s signer ∈ allBlocks H E did rev s signer := by
    simp [allBlocks]
  refine (verify_eq_ok hE hmeta hs (hfree.of_subset ?_)).mpr
    ⟨Cas.Addressed.insertAll Cas.addressed_empty _, fun b hb => Cas.getElem?_insertAll_of_mem hfree hb⟩
  intro b hb
  rcases List.mem_cons.mp hb with rfl | hb
  · exact hcommit
  · rcases List.mem_append.mp hb with hb | hb
    · exact List.mem_append_left _ (List.mem_append_left _ hb)
    · exact hfiled hb

/-- The signatures of one key, as known for one message. Any other signature only tells its key and
message. -/
def tableEcdsa (secret publicKey message signature : Bytes) : Ecdsa where
  SigningKey := Bytes
  VerifyingKey := Bytes
  Signature := Bytes
  verifyingKey k := if k = secret then publicKey else k
  sign k m :=
    let v := if k = secret then publicKey else k
    if v = publicKey ∧ m = message then signature else v ++ m
  normalizeS _ := none
  toBytes := id
  fromSlice := some
  toSec1 := id
  fromSec1 := some
  verify v m s := decide (s = if v = publicKey ∧ m = message then signature else v ++ m)

theorem tableEcdsa_lawful (secret publicKey message signature : Bytes) :
    (tableEcdsa secret publicKey message signature).Lawful where
  fromSec1_toSec1 _ := rfl
  fromSlice_toBytes _ := rfl
  normalizeS_lowS _ := rfl
  verify_lowS_sign k m := by
    simp [tableEcdsa, Ecdsa.lowS]

/-- Bytes from hexadecimal digits. -/
def hex (s : String) : Bytes := (Bytes.hexDecode (str s)).getD []

def sampleDid : Bytes := str "did:plc:abcdefghijklmnopqrstuvwx"

def sampleRev : Bytes := str "3jzfcijpj2z2a"

/-- A post with a text. -/
def post (text : String) : Json :=
  .object [(str "$type", .string (str "app.bsky.feed.post")), (str "text", .string (str text))]

/-- Two records, one replaced and one removed, and a put that fails. -/
def sampleCalls : List Call :=
  [.put (str "app.bsky.feed.post/1") (post "old"), .put (str "app.bsky.feed.post/2") (post "gone"),
    .put (str "app.bsky.feed.post/1") (post "new"), .delete (str "app.bsky.feed.post/2"),
    .put (str "bad") .null]

/-- The secp256k1 key `0x0101..01` and its signature of the commit of these posts. -/
def sampleEcdsa : Ecdsa :=
  tableEcdsa (List.replicate 32 1)
    (hex "031b84c5567b126440995d3ed5aaba0565d71e1834604819ff9c17f5e9d5dd078f")
    (hex ("a56364696478206469643a706c633a6162636465666768696a6b6c6d6e6f70717273747576777863726576" ++
      "6d336a7a6663696a706a327a32616464617461d82a582500017112205035f3760c642ba4e2576f8ee24dcc22" ++
      "d9f58d5881832b195909c0644ce704e76470726576f66776657273696f6e03"))
    (hex ("39dbe6c43cb4012dd977c22f1f0a31e7d64d5a6889ba7c0377bc412da2772e1e" ++
      "3f7c57e986c2b1870b399e58ea512f932d43253cbeb262fd4491aa2dec8a9541"))

def sampleSigner : sampleEcdsa.SigningKey := (List.replicate 32 1 : Bytes)

theorem sampleEcdsa_lawful : sampleEcdsa.Lawful := tableEcdsa_lawful _ _ _ _

theorem sample_metadata : Syntax.metadata sampleDid sampleRev = .ok () := by decide +kernel

theorem sample_collisionFree : Cas.CollisionFree (cidFor sha2)
    (allBlocks sha2 sampleEcdsa sampleDid sampleRev
      (runCalls sha2 Cid.ofBase32 sampleCalls .new) sampleSigner) := by
  decide +kernel

/-- A snapshot of the posts, signed with the known signature, passes; without its blocks it does
not. -/
theorem verify_iff_sample :
    ∃ r, build sha2 sampleEcdsa sampleDid sampleRev
      (runCalls sha2 Cid.ofBase32 sampleCalls .new) sampleSigner = .ok r ∧
      r.commit.sig = hex ("39dbe6c43cb4012dd977c22f1f0a31e7d64d5a6889ba7c0377bc412da2772e1e" ++
        "3f7c57e986c2b1870b399e58ea512f932d43253cbeb262fd4491aa2dec8a9541") ∧
      verify sha2 sampleEcdsa r (publicKeySec1 sampleEcdsa sampleSigner) = .ok () ∧
      verify sha2 sampleEcdsa { r with blocks := ∅ } (publicKeySec1 sampleEcdsa sampleSigner) ≠
        .ok () := by
  obtain ⟨r, hbuild, h⟩ := @verify_iff sha2 sampleEcdsa Cid.ofBase32 sampleEcdsa_lawful sampleDid
    sampleRev sample_metadata sampleCalls sampleSigner
  have hr := hbuild
  rw [build_eq sample_metadata (valid_runCalls valid_new sampleCalls)] at hr
  obtain rfl := Except.ok.inj hr
  have hfree := sample_collisionFree
  have hsig : (commitFor sha2 sampleEcdsa sampleDid sampleRev
      (runCalls sha2 Cid.ofBase32 sampleCalls .new) sampleSigner).sig =
        hex ("39dbe6c43cb4012dd977c22f1f0a31e7d64d5a6889ba7c0377bc412da2772e1e" ++
          "3f7c57e986c2b1870b399e58ea512f932d43253cbeb262fd4491aa2dec8a9541") := by
    decide +kernel
  -- nothing below looks at the records themselves
  generalize runCalls sha2 Cid.ofBase32 sampleCalls .new = s at hbuild h hfree hsig ⊢
  refine ⟨_, hbuild, hsig, ?_, ?_⟩
  · have hsubset := @Cas.map_snd_insertAll_subset _ _ _ _ _ _ (cidFor sha2)
      (allBlocks sha2 sampleEcdsa sampleDid sampleRev s sampleSigner)
    have hboth := hfree.of_subset (List.append_subset.mpr ⟨List.Subset.refl _, hsubset⟩)
    exact (h _ hboth).mpr ⟨fun _ _ hget => hget, Cas.Addressed.insertAll Cas.addressed_empty _⟩
  · intro hv
    have hcommit : commitBytes sha2 sampleEcdsa sampleDid sampleRev s sampleSigner ∈
        allBlocks sha2 sampleEcdsa sampleDid sampleRev s sampleSigner := by
      simp [allBlocks]
    have hempty : (∅ : Blocks).toList.map Prod.snd = [] := rfl
    have hall := h ∅
    rw [hempty, List.append_nil] at hall
    have hget := ((hall hfree).mp hv).1 _ _ (Cas.getElem?_insertAll_of_mem hfree hcommit)
    simp at hget

/-! ## Histories do not show -/

/-- **History independence.** After any calls, whether they failed or not, the history names every
path still present with its last put. Putting these pairs into an empty set in any order succeeds at
every step and gives the same set, counter included; so `build` gives the same tree root, the same
commit and the same export. -/
theorem history_independent (calls : List Call) :
    (history H parse calls).map Prod.fst = (runCalls H parse calls .new).records.keys ∧
      ∀ pairs, pairs.Perm (history H parse calls) →
        ∃ s, putAll H parse pairs .new = .ok s ∧ s = runCalls H parse calls .new ∧
          s.encodedBytes = (runCalls H parse calls .new).encodedBytes ∧
          ∀ did rev signer, Syntax.metadata did rev = .ok () →
            ∃ r r', build H E did rev s signer = .ok r ∧
              build H E did rev (runCalls H parse calls .new) signer = .ok r' ∧
              r.mstRoot = r'.mstRoot ∧ r.root = r'.root ∧ r.toCar = r'.toCar ∧
              r.toCar.isOk = true := by
  refine ⟨map_fst_history calls, ?_⟩
  intro pairs hpairs
  have hs : (runCalls H parse calls .new).Valid H parse := valid_runCalls valid_new calls
  refine ⟨_, putAll_history calls hpairs, rfl, rfl, ?_⟩
  intro did rev signer hmeta
  refine ⟨_, _, build_eq hmeta hs signer, build_eq hmeta hs signer, rfl, rfl, rfl, ?_⟩
  have hroot : cidFor H (commitBytes H E did rev (runCalls H parse calls .new) signer) ∈
      (repositoryFor H E did rev (runCalls H parse calls .new) signer).blocks :=
    Cas.mem_insertAll.mpr (Or.inl ⟨_, by simp [allBlocks], rfl⟩)
  obtain ⟨bytes, hbytes⟩ :=
    Option.isSome_iff_exists.mp (Std.ExtTreeMap.isSome_getElem?_iff_mem.mpr hroot)
  have hcar := Car.exportCar_eq hbytes
  rw [Repository.toCar]
  unfold repositoryFor at hcar ⊢
  rw [hcar]
  rfl

/-- Three posts of which one is replaced and one removed, and a put that fails. -/
def sampleEdits : List Call :=
  [.put (str "app.bsky.feed.post/1") (post "old"), .put (str "app.bsky.feed.post/3") (post "third"),
    .put (str "app.bsky.feed.post/2") (post "gone"), .put (str "app.bsky.feed.post/1") (post "new"),
    .delete (str "app.bsky.feed.post/2"), .put (str "bad") .null]

/-- The two posts left are put in the other order, which gives the same set and the same root. -/
theorem history_independent_sample :
    (history sha2 Cid.ofBase32 sampleEdits).map Prod.fst =
        [str "app.bsky.feed.post/1", str "app.bsky.feed.post/3"] ∧
      ∃ s r r', putAll sha2 Cid.ofBase32 (history sha2 Cid.ofBase32 sampleEdits).reverse .new =
          .ok s ∧ s = runCalls sha2 Cid.ofBase32 sampleEdits .new ∧
        build sha2 sampleEcdsa sampleDid sampleRev s sampleSigner = .ok r ∧
        build sha2 sampleEcdsa sampleDid sampleRev (runCalls sha2 Cid.ofBase32 sampleEdits .new)
          sampleSigner = .ok r' ∧ r.root = r'.root := by
  obtain ⟨-, h⟩ := @history_independent sha2 sampleEcdsa Cid.ofBase32 sampleEdits
  obtain ⟨s, hs, hsame, -, hbuild⟩ := h _ (List.reverse_perm _)
  obtain ⟨r, r', hr, hr', -, hroot, -⟩ := hbuild sampleDid sampleRev sampleSigner sample_metadata
  exact ⟨by decide +kernel, s, r, r', hs, hsame, hr, hr', hroot⟩

end PurpleSky.Repo
