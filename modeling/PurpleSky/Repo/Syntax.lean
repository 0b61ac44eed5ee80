import PurpleSky.Repo.Basic

/-!
# Syntax of record paths and commit metadata (`syntax.rs`)

`path` accepts a collection name and a record key around the first slash; `metadata` accepts a DID
and a revision. Both return the error of the source, with the text it carries.
-/

namespace PurpleSky

namespace Repo.Syntax

open Bytes

/-- A label of a collection authority or a host name. -/
def labelValid (s : Bytes) : Bool :=
  !s.isEmpty && s.length ≤ 63 && s.head? != some 45 && s.getLast? != some 45 &&
    s.all fun c => isLower c || isDigit c || c == 45

/-- A collection name: at least two authority labels and a name.
Source: `syntax.rs`, `nsid_valid` -/
def nsidValid (nsid : Bytes) : Bool :=
  match rsplitOnce 46 nsid with
  | none => false
  | some (authority, name) =>
      if nsid.length > 317 || authority.length > 253 || name.isEmpty || name.length > 63 ||
          !(name.head?.any isAlpha) || !name.all isAlnum then false
      else
        let segments := authority.splitOn 46
        segments.length ≥ 2 && (segments.head?.bind List.head?).any isLower &&
          segments.all labelValid

/-- A record path: a collection name, a slash and a record key.
Source: `syntax.rs`, `path` -/
def path (path : Bytes) : Except Error Unit := do
  let some (nsid, key) := splitOnce 47 path | .error (.invalidPath path)
  if !nsidValid nsid || key.isEmpty || key.length > 512 || key == [46] || key == [46, 46] ||
      !key.all (fun c => isAlnum c || (str ".-_:~").contains c) then
    .error (.invalidPath path)
  else pure ()

/-- The identifier of a `did:plc`. -/
def plcValid (id : Bytes) : Bool :=
  id.length == 24 && id.all fun c => isLower c || (50 ≤ c && c ≤ 55)

/-- The host of a `did:web`: `localhost` with an optional canonical port, or a host name. -/
def webValid (domain : Bytes) : Bool :=
  let loc := domain == str "localhost" ||
    (stripPrefix (str "localhost%3A") domain).any fun port =>
      (parseU16 port).any fun number => number > 0 && decimal number == port
  loc || (domain.length ≤ 253 && domain.contains 46 && (domain.splitOn 46).all labelValid &&
    (domain.splitOn 46).getLast?.any fun s => s.any isLower)

/-- The DID and the revision of a commit.
Source: `syntax.rs`, `metadata` -/
def metadata (did rev : Bytes) : Except Error Unit := do
  let validDid :=
    match stripPrefix (str "did:plc:") did with
    | some id => plcValid id
    | none =>
        match stripPrefix (str "did:web:") did with
        | some domain => webValid domain
        | none => false
  if !validDid then
    .error (.invalidMetadata "expected normalized did:plc or hostname-only did:web")
  else if rev.length ≠ 13 || !(rev.head?.any (str "234567abcdefghij").contains) ||
      !rev.all (str "234567abcdefghijklmnopqrstuvwxyz").contains then
    .error (.invalidMetadata "revision must be a 13-character TID")
  else pure ()

/-- An accepted path splits into a collection and a key. -/
theorem exists_split_of_path {p : Bytes} (h : path p = .ok ()) :
    ∃ nsid key, splitOnce 47 p = some (nsid, key) ∧ nsidValid nsid = true := by
  unfold path at h
  rcases hsplit : splitOnce 47 p with _ | ⟨nsid, key⟩
  · rw [hsplit] at h
    cases h
  · refine ⟨nsid, key, rfl, ?_⟩
    rw [hsplit] at h
    cases hnsid : nsidValid nsid with
    | true => rfl
    | false =>
        simp only [hnsid, Bool.not_false, Bool.true_or, if_true] at h
        cases h

example : path (str "app.bsky.feed.post/3jzfcijpj2z2a") = .ok () := by decide +kernel

example : metadata (str "did:web:localhost%3A2583") (str "3jzfcijpj2z2a") = .ok () := by
  decide +kernel

end Repo.Syntax

end PurpleSky
