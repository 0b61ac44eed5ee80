import PurpleSky.Lib.Base32
import PurpleSky.Lib.Leb128

/-!
# Content identifiers

A CID is a version, a content codec and a multihash. The binary form of version 1 is four LEB128
numbers and the digest; version 0 is the bare multihash, which is always SHA-256. Both are
self-delimiting (`readBytes_toBytes_append`).

The text of a version 1 CID is `b` and base32 (`Cid.text`).

CIDs are ordered by version, codec, hash code, digest size and digest, in this order; `Cid.key` is
the list whose lexicographic order that is.
-/

namespace PurpleSky

/-- A digest with the code of the function that made it; at most 64 bytes. -/
@[ext]
structure Multihash where
  code : UInt64
  digest : Bytes
  size_le : digest.length ≤ 64
  deriving DecidableEq, Repr

namespace Multihash

/-- Code, size, digest. -/
def toBytes (h : Multihash) : Bytes :=
  Leb128.encode h.code.toNat ++ Leb128.encode h.digest.length ++ h.digest

/-- The first `n` bytes and the rest. -/
def readExact (n : Nat) (s : Bytes) : Option (Bytes × Bytes) :=
  if n ≤ s.length then some (s.take n, s.drop n) else none

/-- Read a digest of a given size under a code. -/
def wrap (code : Nat) (digest : Bytes) : Option Multihash :=
  if h : digest.length ≤ 64 then
    if code < 2 ^ 64 then some ⟨UInt64.ofNat code, digest, h⟩ else none
  else none

/-- Read a multihash off the front. -/
def read (s : Bytes) : Option (Multihash × Bytes) := do
  let (code, s) ← Leb128.decode s
  let (size, s) ← Leb128.decode s
  let (digest, s) ← readExact size s
  let hash ← wrap code digest
  pure (hash, s)

theorem readExact_append (d rest : Bytes) : readExact d.length (d ++ rest) = some (d, rest) := by
  simp [readExact]

theorem wrap_toNat (h : Multihash) : wrap h.code.toNat h.digest = some h := by
  rw [wrap, dif_pos h.size_le, if_pos h.code.toNat_lt, UInt64.ofNat_toNat]

theorem read_toBytes_append (h : Multihash) (rest : Bytes) :
    read (h.toBytes ++ rest) = some (h, rest) := by
  simp only [read, toBytes, List.append_assoc, Leb128.decode_encode_append, Option.bind_eq_bind,
    Option.bind_some, readExact_append, wrap_toNat, Option.pure_def]

end Multihash

/-- The two CID versions. -/
inductive Cid.Version where
  | v0
  | v1
  deriving DecidableEq, Repr

/-- A content identifier. Version 0 exists for SHA-256 DAG-PB blocks only. -/
@[ext]
structure Cid where
  version : Cid.Version
  codec : UInt64
  hash : Multihash
  v0_spec : version = .v0 → codec = 0x70 ∧ hash.code = 0x12 ∧ hash.digest.length = 32
  deriving DecidableEq, Repr

namespace Cid

/-- A version 1 CID. -/
def newV1 (codec : UInt64) (hash : Multihash) : Cid := ⟨.v1, codec, hash, by simp⟩

/-- A version 0 CID, of a SHA-256 multihash. -/
def newV0 (hash : Multihash) : Option Cid :=
  if h : hash.code = 0x12 ∧ hash.digest.length = 32 then
    some ⟨.v0, 0x70, hash, fun _ => ⟨rfl, h.1, h.2⟩⟩
  else none

/-- The binary form. -/
def toBytes (c : Cid) : Bytes :=
  match c.version with
  | .v0 => c.hash.toBytes
  | .v1 => Leb128.encode 1 ++ Leb128.encode c.codec.toNat ++ c.hash.toBytes

/-- Read a CID off the front: `0x12 0x20` opens a version 0 CID. -/
def readBytes (s : Bytes) : Option (Cid × Bytes) := do
  let (version, s) ← Leb128.decode s
  let (codec, s) ← Leb128.decode s
  if version = 0x12 ∧ codec = 0x20 then
    let (digest, s) ← Multihash.readExact 32 s
    let hash ← Multihash.wrap 0x12 digest
    let cid ← newV0 hash
    pure (cid, s)
  else if version = 1 ∧ codec < 2 ^ 64 then
    let (hash, s) ← Multihash.read s
    pure (newV1 (UInt64.ofNat codec) hash, s)
  else none

/-- **The binary form is self-delimiting.** -/
theorem readBytes_toBytes_append (c : Cid) (rest : Bytes) :
    readBytes (c.toBytes ++ rest) = some (c, rest) := by
  obtain ⟨version, codec, hash, v0_spec⟩ := c
  cases version with
  | v0 =>
      obtain ⟨rfl, hcode, hlen⟩ := v0_spec rfl
      have hw := Multihash.wrap_toNat hash
      have hc : hash.code.toNat = 0x12 := by rw [hcode]; rfl
      rw [hc] at hw
      have hr : Multihash.readExact 32 (hash.digest ++ rest) = some (hash.digest, rest) := by
        rw [← hlen]
        exact Multihash.readExact_append _ _
      have hn : newV0 hash = some ⟨.v0, 0x70, hash, v0_spec⟩ := by simp [newV0, hcode, hlen]
      simp only [readBytes, toBytes, Multihash.toBytes, hc, hlen, List.append_assoc,
        Leb128.decode_encode_append, Option.bind_eq_bind, Option.bind_some, and_self, if_true, hr,
        hw, hn, Option.pure_def]
  | v1 =>
      have hlt : codec.toNat < 2 ^ 64 := codec.toNat_lt
      simp only [readBytes, toBytes, List.append_assoc, Leb128.decode_encode_append,
        Option.bind_eq_bind, Option.bind_some, OfNat.one_ne_ofNat, false_and, if_false,
        Multihash.read_toBytes_append, UInt64.ofNat_toNat, Option.pure_def]
      rw [if_pos ⟨trivial, hlt⟩]
      rfl

/-! ## Text -/

/-- The text of a version 1 CID: `b` and the base32 symbols of the binary form. -/
def text (c : Cid) : Bytes := 98 :: Base32.encode c.toBytes

/-- Read a base32 text: the CID at the front of the bytes. -/
def ofBase32 : Bytes → Option Cid
  | 98 :: s => ((Base32.decode s).bind readBytes).map Prod.fst
  | _ => none

theorem ofBase32_text (c : Cid) : ofBase32 c.text = some c := by
  have h := readBytes_toBytes_append c []
  rw [List.append_nil] at h
  simp only [ofBase32, text, Base32.decode_encode, Option.bind_some, h, Option.map_some]

/-! ## Order -/

/-- The comparison key: version, codec, hash code, digest size, digest bytes. -/
def key (c : Cid) : List Nat :=
  (match c.version with | .v0 => 0 | .v1 => 1) :: c.codec.toNat :: c.hash.code.toNat ::
    c.hash.digest.length :: c.hash.digest.map UInt8.toNat

theorem key_injective : Function.Injective key := by
  intro c d h
  simp only [key, List.cons.injEq] at h
  obtain ⟨hv, hcodec, hcode, -, hdigest⟩ := h
  have hv' : c.version = d.version := by
    cases hc : c.version <;> cases hd : d.version <;> simp [hc, hd] at hv ⊢
  have hd' : c.hash.digest = d.hash.digest :=
    List.map_injective_iff.mpr (fun _ _ => UInt8.toNat_inj.mp) hdigest
  exact Cid.ext hv' (UInt64.toNat_inj.mp hcodec)
    (Multihash.ext (UInt64.toNat_inj.mp hcode) hd')

instance : Ord Cid where
  compare c d := compare c.key d.key

instance : Std.TransOrd Cid :=
  inferInstanceAs (Std.TransCmp (compareOn key))

instance : Std.LawfulEqOrd Cid where
  compare_self {c} := (Std.ReflCmp.compare_self : compare c.key c.key = .eq)
  eq_of_compare {c d} h := by
    have hkey : compare c.key d.key = .eq := h
    exact key_injective (Std.LawfulEqCmp.eq_of_compare hkey)

end Cid

end PurpleSky
