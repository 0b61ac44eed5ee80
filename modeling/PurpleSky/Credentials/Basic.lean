import PurpleSky.Lib.Except
import PurpleSky.Lib.JsonText
import PurpleSky.Lib.Url
import PurpleSky.Repo.Repository

/-!
# `psky-credentials`: accounts, limits and errors

The constants, the error type, the account record with its stored text, and the checks on
identities, names and authorities. What the crate takes from other crates (JSON texts, URLs, the
curve, Base58) is a parameter, `Crates`.

* `Account.ofJson?_toJson`: a stored account reads back.
-/

namespace PurpleSky.Credentials

open Bytes

/-! ## Constants and errors -/

/-- Maximum simultaneously valid app passwords. Source: `lib.rs`, `MAX_PASSWORDS`. -/
def maxPasswords : Nat := 16

/-- Maximum simultaneously valid sessions. Source: `lib.rs`, `MAX_SESSIONS`. -/
def maxSessions : Nat := 64

/-- Access-token lifetime in seconds. Source: `lib.rs`, `ACCESS_SECONDS`. -/
def accessSeconds : Nat := 30 * 60

/-- Refresh-token lifetime in seconds. Source: `lib.rs`, `REFRESH_SECONDS`. -/
def refreshSeconds : Nat := 7 * 24 * 60 * 60

/-- Source: `lib.rs`, `Error` -/
inductive Error where
  | invalidInput
  | invalidCredentials
  | invalidToken
  | expiredToken
  | notBound
  | disabled
  | bindingConflict
  | limit
  | persistence
  deriving DecidableEq, Repr

/-- The text of an error. -/
def Error.message : Error → String
  | invalidInput => "invalid credential configuration"
  | invalidCredentials => "Invalid identifier or password"
  | invalidToken => "Token is invalid"
  | expiredToken => "Token has expired"
  | notBound => "no verified account is configured"
  | disabled => "account authority must be verified again"
  | bindingConflict => "account binding conflicts with the existing identity"
  | limit => "credential limit reached"
  | persistence => "private credential storage is unavailable"

/-! ## Other crates -/

/-- What the crate takes from other crates. -/
structure Crates where
  json : JsonText
  parseUrl : Bytes → Option Url
  ecdsa : Repo.Ecdsa
  signingKey : Bytes → Option ecdsa.SigningKey
  base58 : Bytes → Bytes

/-! ## Identities -/

/-- Public identity chosen by the operator.
Source: `lib.rs`, `Identity` -/
structure Identity where
  handle : Bytes
  did : Bytes
  serviceUrl : Bytes
  serviceDid : Bytes
  deriving DecidableEq, Repr

/-- Source: `lib.rs`, `valid_hostname` -/
def validHostname (host : Bytes) : Bool :=
  host.length ≤ 253 && host.contains 46 && (host.splitOn 46).all Repo.Syntax.labelValid &&
    (host.splitOn 46).getLast?.any fun tld => tld.head?.any isAlpha &&
      !([str "arpa", str "invalid", str "local", str "onion"].contains tld)

/-- Source: `lib.rs`, `valid_name` -/
def validName (name : Bytes) : Bool :=
  name ≠ [] && name.length ≤ 64 && name.head? ≠ some 32 && name.getLast? ≠ some 32 &&
    name.all fun b => 0x20 ≤ b && b ≤ 0x7e

/-- Source: `lib.rs`, `valid_authority` -/
def validAuthority (authority : Bytes) : Bool :=
  authority ≠ [] && authority.length ≤ 128 &&
    authority.all fun b => isAlnum b || (str ":_-").contains b

/-- The DID of a host. -/
def didHost (did : Bytes) : Option Bytes := stripPrefix (str "did:web:") did

/-- The DID of a local development service. -/
def localDid (port : Option Nat) : Bytes :=
  str "did:web:localhost" ++
    match port with
    | some port => str "%3A" ++ decimal port
    | none => []

/-- A `.test` name. -/
def isTest (name : Bytes) : Bool := (str ".test").isSuffixOf name

/-- Validate an identity: a local development service, or one host for the handle and the DID and
one for the service.
Source: `lib.rs`, `Identity::validate` -/
def Identity.validate (C : Crates) (identity : Identity) : Except Error Unit := do
  let url ← okOr (C.parseUrl identity.serviceUrl) .invalidInput
  ensure (url.username = [] ∧ url.password = none ∧ url.query = none ∧ url.fragment = none ∧
    url.path = str "/" ∧ url.host ≠ none ∧ validHostname identity.handle) .invalidInput
  if url.scheme = str "http" ∧ url.host = some (str "localhost") then
    ensure (identity.did = localDid url.port ∧ identity.serviceDid = localDid url.port ∧
      isTest identity.handle ∧ url.port ≠ some 0) .invalidInput
  else do
    let did ← okOr (didHost identity.did) .invalidInput
    let service ← okOr (didHost identity.serviceDid) .invalidInput
    ensure (validHostname did ∧ identity.handle = did ∧ validHostname service ∧
      ¬isTest identity.handle ∧ ¬isTest service) .invalidInput
    ensure (url.scheme = str "https" ∧ url.port = none ∧ url.host = some service) .invalidInput

/-- The names of a valid identity are short, when ports are numbers of sixteen bits. -/
theorem Identity.length_le {C : Crates}
    (hport : ∀ s url port, C.parseUrl s = some url → url.port = some port → port < 65536)
    {identity : Identity} (h : identity.validate C = .ok ()) :
    identity.handle.length ≤ 253 ∧ identity.did.length ≤ 261 ∧
    identity.serviceDid.length ≤ 261 := by
  have host : ∀ {name : Bytes}, validHostname name = true → name.length ≤ 253 := by
    intro name hname
    simp only [validHostname, Bool.and_eq_true, decide_eq_true_eq] at hname
    exact hname.1.1.1
  have did : ∀ {did name : Bytes}, didHost did = some name → validHostname name = true →
      did.length ≤ 261 := by
    intro did name hdid hname
    rw [didHost, stripPrefix_eq_some] at hdid
    rw [hdid, List.length_append]
    have hlength : (str "did:web:").length = 8 := by decide
    have := host hname
    omega
  unfold validate at h
  obtain ⟨url, hurl, h⟩ := bind_eq_ok.mp h
  obtain ⟨_, hchecks, h⟩ := bind_eq_ok.mp h
  have hhandle := host (ensure_eq_ok.mp hchecks).2.2.2.2.2.2
  split at h
  · obtain ⟨hdid, hservice, -⟩ := ensure_eq_ok.mp h
    have hlocal : (localDid url.port).length ≤ 261 := by
      have hprefix : (str "did:web:localhost").length = 17 := by decide
      have hcolon : (str "%3A").length = 3 := by decide
      cases hp : url.port with
      | none => simp [localDid, hprefix]
      | some port =>
          have hlt := hport _ url port (okOr_eq_ok.mp hurl) hp
          have hdigits : (decimal port).length ≤ 5 := length_decimal_le (by decide) (by omega)
          simp only [localDid, List.length_append, hprefix, hcolon]
          omega
    exact ⟨hhandle, hdid ▸ hlocal, hservice ▸ hlocal⟩
  · simp only [bind_eq_ok, okOr_eq_ok, ensure_eq_ok] at h
    obtain ⟨name, hdid, service, hservice, _, ⟨hname, -, hservicename, -⟩, -⟩ := h
    exact ⟨hhandle, did hdid hname, did hservice hservicename⟩

/-! ## Accounts -/

/-- Public account state.
Source: `lib.rs`, `Account` -/
structure Account where
  fid : Nat
  authority : Bytes
  identity : Identity
  enabled : Bool
  createdAt : Nat
  publicKeyMultibase : Bytes
  repoRevision : Bytes
  repoCid : Bytes
  deriving DecidableEq, Repr

/-- The field names of an identity. -/
def Identity.names : List Bytes := [str "handle", str "did", str "service_url", str "service_did"]

/-- The derived serialization of an identity. -/
def Identity.toJson (i : Identity) : Json :=
  .record names [.string i.handle, .string i.did, .string i.serviceUrl, .string i.serviceDid]

/-- The derived reading of an identity, which takes no other fields. -/
def Identity.ofJson? (v : Json) : Option Identity :=
  match Json.fieldsOf true names v with
  | some [handle, did, serviceUrl, serviceDid] => do
      pure ⟨← handle.asStr, ← did.asStr, ← serviceUrl.asStr, ← serviceDid.asStr⟩
  | _ => none

/-- The field names of an account. -/
def Account.names : List Bytes :=
  [str "fid", str "authority", str "identity", str "enabled", str "created_at",
    str "public_key_multibase", str "repo_revision", str "repo_cid"]

/-- The derived serialization of an account. -/
def Account.toJson (a : Account) : Json :=
  .record names [.integer a.fid, .string a.authority, a.identity.toJson, .bool a.enabled,
    .integer a.createdAt, .string a.publicKeyMultibase, .string a.repoRevision, .string a.repoCid]

/-- The derived reading of an account. -/
def Account.ofJson? (v : Json) : Option Account :=
  match Json.fieldsOf false names v with
  | some [fid, authority, identity, enabled, createdAt, publicKey, revision, cid] => do
      pure ⟨← fid.asU64, ← authority.asStr, ← Identity.ofJson? identity, ← enabled.asBool,
        ← createdAt.asU64, ← publicKey.asStr, ← revision.asStr, ← cid.asStr⟩
  | _ => none

/-- Source: `lib.rs`, `encode_account` -/
def encodeAccount (C : Crates) (a : Account) : Bytes := C.json.render a.toJson

theorem Identity.names_nodup : Identity.names.Nodup := by decide +kernel

theorem Account.names_nodup : Account.names.Nodup := by decide +kernel

@[simp] theorem Identity.ofJson?_toJson (i : Identity) : Identity.ofJson? i.toJson = some i := by
  rw [toJson, ofJson?, Json.fieldsOf_record true names_nodup rfl]
  rfl

/-- An account with numbers of sixty-four bits reads back. -/
theorem Account.ofJson?_toJson {a : Account} (hf : a.fid < 18446744073709551616)
    (hc : a.createdAt < 18446744073709551616) : Account.ofJson? a.toJson = some a := by
  rw [toJson, ofJson?, Json.fieldsOf_record false names_nodup rfl]
  simp only [Json.asU64_integer hf, Json.asU64_integer hc, Identity.ofJson?_toJson, Json.asStr,
    Json.asBool]
  rfl

/-- The time of an account that is read fits in sixty-four bits. -/
theorem Account.createdAt_lt_of_ofJson? {v : Json} {a : Account} (h : ofJson? v = some a) :
    a.createdAt < 18446744073709551616 := by
  unfold ofJson? at h
  split at h
  · simp only [Option.bind_eq_bind, Option.bind_eq_some_iff, Option.pure_def,
      Option.some.injEq] at h
    obtain ⟨_, -, _, -, _, -, _, -, createdAt, htime, _, -, _, -, _, -, rfl⟩ := h
    exact Json.lt_of_asU64 htime
  · cases h

/-- A password's public metadata.
Source: `lib.rs`, `PasswordInfo` -/
structure PasswordInfo where
  name : Bytes
  createdAt : Nat
  deriving DecidableEq, Repr

/-- An issued password with its plaintext.
Source: `lib.rs`, `IssuedPassword` -/
structure IssuedPassword where
  info : PasswordInfo
  password : Bytes
  deriving DecidableEq, Repr

/-- Source: `lib.rs`, `SessionInfo` -/
structure SessionInfo where
  handle : Bytes
  did : Bytes
  didDoc : Json
  emailConfirmed : Bool
  emailAuthFactor : Bool
  active : Bool

/-- An access token, a refresh token and the public account information.
Source: `lib.rs`, `Session` -/
structure Session where
  accessJwt : Bytes
  refreshJwt : Bytes
  info : SessionInfo

/-- The DID document of an account. The keys of its objects are in order.
Source: `lib.rs`, `did_document` -/
def didDocument (a : Account) : Json :=
  .object [
    (str "@context", .array [.string (str "https://www.w3.org/ns/did/v1"),
      .string (str "https://w3id.org/security/multikey/v1")]),
    (str "alsoKnownAs", .array [.string (str "at://" ++ a.identity.handle)]),
    (str "id", .string a.identity.did),
    (str "service", .array [.object [
      (str "id", .string (a.identity.did ++ str "#atproto_pds")),
      (str "serviceEndpoint", .string a.identity.serviceUrl),
      (str "type", .string (str "AtprotoPersonalDataServer"))]]),
    (str "verificationMethod", .array [.object [
      (str "controller", .string a.identity.did),
      (str "id", .string (a.identity.did ++ str "#atproto")),
      (str "publicKeyMultibase", .string a.publicKeyMultibase),
      (str "type", .string (str "Multikey"))]])]

/-- Source: `lib.rs`, `session_info` -/
def sessionInfo (a : Account) : SessionInfo :=
  ⟨a.identity.handle, a.identity.did, didDocument a, false, false, a.enabled⟩

/-- The verifier of a password.
Source: `lib.rs`, `password_hash` -/
def passwordHash (salt password : Bytes) : Bytes :=
  Sha2.sha256 (str "PurpleSky generated app password v1\x00" ++ salt ++ password)

/-- The largest number of sixty-four bits. -/
def u64Max : Nat := 18446744073709551615

/-- A time as a repository revision: thirteen symbols for its microseconds shifted by ten bits.
Source: `lib.rs`, `revision` -/
def revision (seconds : Nat) : Bytes :=
  let value := min (min (seconds * 1000000) u64Max * 1024) u64Max
  (List.range 13).reverse.map fun i =>
    (str "234567abcdefghijklmnopqrstuvwxyz").getD (value / 32 ^ i % 32) 50

end PurpleSky.Credentials
