import PurpleSky.Lib.Cas
import PurpleSky.Lib.DagCbor
import PurpleSky.Lib.Sha2

/-!
# `psky-repo`: limits, errors and block addresses

What the modules of the repository crate share: its limits, its error type, and the address
`cidFor` of a block. SHA-256 enters as any function to thirty-two bytes (`Sha256`, with the real one
as `sha2`); statements that need more of it say so with `Cas.CollisionFree`.
-/

namespace PurpleSky

/-- A hash function with digests of thirty-two bytes. -/
structure Sha256 where
  digest : Bytes → Bytes
  length_digest : ∀ b, (digest b).length = 32

/-- The function the program uses. -/
def sha2 : Sha256 := ⟨Sha2.sha256, Sha2.length_sha256⟩

namespace Repo

/-- Maximum encoded record size. Source: `lib.rs`, `MAX_RECORD_BYTES`. -/
def maxRecordBytes : Nat := 1000000

/-- Maximum number of records. Source: `lib.rs`, `MAX_RECORDS`. -/
def maxRecords : Nat := 100000

/-- Maximum combined record bytes. Source: `lib.rs`, `MAX_TOTAL_RECORD_BYTES`. -/
def maxTotalRecordBytes : Nat := 16 * 1024 * 1024

/-- Maximum nesting of a record. Source: `lib.rs`, `MAX_RECORD_DEPTH`. -/
def maxRecordDepth : Nat := 64

/-- Validation, encoding or verification failure. `panic` stands for an abort of the process: an
index or a slice out of range.
Source: `lib.rs`, `Error` -/
inductive Error where
  | invalidPath (path : Bytes)
  | invalidMetadata (message : String)
  | invalidRecord (message : String)
  | limit (what : String)
  | cbor (message : String)
  | signature
  | verification (message : String)
  | panic (what : String)
  deriving DecidableEq, Repr

/-- The block map of a repository. -/
abbrev Blocks := BTreeMap Cid Bytes

/-- DAG-CBOR serialization. The types the crate serializes all have a binary form, so the error of
the source's signature is never built.
Source: `lib.rs`, `encode` -/
def encode (x : Ipld) : Bytes := DagCbor.encode x

/-- The address of a block: version 1, DAG-CBOR, SHA-256.
Source: `lib.rs`, `cid_for` -/
def cidFor (H : Sha256) (bytes : Bytes) : Cid :=
  Cid.newV1 0x71 ⟨0x12, H.digest bytes, by rw [H.length_digest]; decide⟩

/-- A link or its absence. -/
def linkOrNull : Option Cid → Ipld
  | none => .null
  | some c => .link c

theorem linkOrNull_sorted (c : Option Cid) : (linkOrNull c).Sorted := by
  cases c with
  | none => exact .null
  | some c => exact .link c

/-- Read a link or its absence. -/
def linkOrNull? : Ipld → Option (Option Cid)
  | .null => some none
  | .link c => some (some c)
  | _ => none

@[simp] theorem linkOrNull?_linkOrNull (c : Option Cid) : linkOrNull? (linkOrNull c) = some c := by
  cases c <;> rfl

end Repo

end PurpleSky
