import PurpleSky.Lib.Except
import PurpleSky.Lib.JsonText
import PurpleSky.Lib.Url

/-!
# `psky-farcaster-auth`: challenges, signed messages and identities

The data of a sign-in, its errors, and the checks of a signed message: against one challenge
(`parse`), and without one (`parseAuthority`). What the crate takes from other crates (JSON, URLs,
signed messages and their signatures, the hash function, time stamps) is a parameter, `Crates`.

* `VerifiedIdentity.ofJson?_toJson`: a stored identity reads back.
-/

namespace PurpleSky.Farcaster

open Bytes

/-! ## Constants and errors -/

/-- Source: `message.rs`, `MAX_MESSAGE_BYTES` -/
def maxMessageBytes : Nat := 8192

/-- Source: `message.rs`, `MAX_SIGNATURE_BYTES` -/
def maxSignatureBytes : Nat := 4096

/-- Source: `message.rs`, `MAX_FID` -/
def maxFid : Nat := 9007199254740991

/-- Source: `message.rs`, `CLOCK_SKEW_SECONDS` -/
def clockSkewSeconds : Nat := 60

/-- Maximum lifetime of a local challenge. Source: `lib.rs`, `MAX_CHALLENGE_SECONDS` -/
def maxChallengeSeconds : Nat := 600

/-- Source: `lib.rs`, `AuthError` -/
inductive AuthError where
  | invalidConfig
  | invalidChallenge
  | invalidRelayResponse
  | channelExpired
  | unavailable
  | invalidMessage
  | invalidSignature
  | unsupportedWallet
  | invalidChainEvidence
  | unauthorized
  deriving DecidableEq, Repr

/-- The text of an error. -/
def AuthError.message : AuthError → String
  | invalidConfig => "invalid Farcaster authentication configuration"
  | invalidChallenge => "Farcaster sign-in challenge expired or invalid"
  | invalidRelayResponse => "Farcaster relay returned an invalid response"
  | channelExpired => "Farcaster sign-in channel expired or was already consumed"
  | unavailable => "Farcaster authentication service is unavailable; retry shortly"
  | invalidMessage => "Farcaster sign-in message does not match this challenge"
  | invalidSignature => "Farcaster sign-in signature is invalid"
  | unsupportedWallet => "this Farcaster wallet signature type is not supported"
  | invalidChainEvidence => "Optimism identity verification returned invalid chain evidence"
  | unauthorized => "signing address is not authorized for this Farcaster identity"

/-! ## Data -/

/-- Source: `lib.rs`, `Challenge` -/
structure Challenge where
  nonce : Bytes
  createdAt : Nat
  expiresAt : Nat
  deriving DecidableEq, Repr

/-- Source: `lib.rs`, `Channel` -/
structure Channel where
  channelToken : Bytes
  authUrl : Bytes
  deriving DecidableEq, Repr

/-- Source: `lib.rs`, `SignedProof` -/
structure SignedProof where
  message : Bytes
  signature : Bytes
  deriving DecidableEq, Repr

/-- Source: `lib.rs`, `ChannelStatus` -/
inductive ChannelStatus where
  | pending
  | completed (proof : SignedProof)
  deriving DecidableEq, Repr

/-- Source: `lib.rs`, `ProofKind` -/
inductive ProofKind where
  | custody
  | authAddress
  deriving DecidableEq, Repr

/-- Source: `lib.rs`, `WalletKind` -/
inductive WalletKind where
  | eoa
  | erc1271
  deriving DecidableEq, Repr

/-- Source: `lib.rs`, `VerifiedIdentity` -/
structure VerifiedIdentity where
  fid : Nat
  address : Bytes
  custodyAddress : Bytes
  walletKind : WalletKind
  proofKind : ProofKind
  checkedBlock : Nat
  blockHash : Bytes
  checkedAt : Nat
  deriving DecidableEq, Repr

/-! ### Stored forms -/

def ProofKind.name : ProofKind → Bytes
  | custody => str "custody"
  | authAddress => str "auth_address"

def ProofKind.ofName? (s : Bytes) : Option ProofKind :=
  if s = str "custody" then some custody
  else if s = str "auth_address" then some authAddress
  else none

def WalletKind.name : WalletKind → Bytes
  | eoa => str "eoa"
  | erc1271 => str "erc1271"

def WalletKind.ofName? (s : Bytes) : Option WalletKind :=
  if s = str "eoa" then some eoa else if s = str "erc1271" then some erc1271 else none

/-- The derived reading of a variant without data: its name, or its name with nothing. -/
def unitVariant : Json → Option Bytes
  | .string name => some name
  | .object [(name, .null)] => some name
  | _ => none

/-- The field names of a proof. -/
def SignedProof.names : List Bytes := [str "message", str "signature"]

/-- The derived serialization of a proof. -/
def SignedProof.toJson (p : SignedProof) : Json :=
  .record names [.string p.message, .string p.signature]

/-- The derived reading of a proof. -/
def SignedProof.ofJson? (v : Json) : Option SignedProof :=
  match Json.fieldsOf false names v with
  | some [message, signature] => do pure ⟨← message.asStr, ← signature.asStr⟩
  | _ => none

/-- The field names of an identity. -/
def VerifiedIdentity.names : List Bytes :=
  [str "fid", str "address", str "custody_address", str "wallet_kind", str "proof_kind",
    str "checked_block", str "block_hash", str "checked_at"]

/-- The derived serialization of an identity. -/
def VerifiedIdentity.toJson (i : VerifiedIdentity) : Json :=
  .record names [.integer i.fid, .string i.address, .string i.custodyAddress,
    .string i.walletKind.name, .string i.proofKind.name, .integer i.checkedBlock,
    .string i.blockHash, .integer i.checkedAt]

/-- The derived reading of an identity. -/
def VerifiedIdentity.ofJson? (v : Json) : Option VerifiedIdentity :=
  match Json.fieldsOf false names v with
  | some [fid, address, custody, wallet, proof, block, hash, time] => do
      pure ⟨← fid.asU64, ← address.asStr, ← custody.asStr,
        ← (unitVariant wallet).bind WalletKind.ofName?,
        ← (unitVariant proof).bind ProofKind.ofName?, ← block.asU64, ← hash.asStr, ← time.asU64⟩
  | _ => none

theorem SignedProof.names_nodup : SignedProof.names.Nodup := by decide +kernel

theorem VerifiedIdentity.names_nodup : VerifiedIdentity.names.Nodup := by decide +kernel

@[simp] theorem ProofKind.ofName?_name (k : ProofKind) : ofName? k.name = some k := by
  cases k <;> decide +kernel

@[simp] theorem WalletKind.ofName?_name (k : WalletKind) : ofName? k.name = some k := by
  cases k <;> decide +kernel

@[simp] theorem SignedProof.ofJson?_toJson (p : SignedProof) : ofJson? p.toJson = some p := by
  rw [toJson, ofJson?, Json.fieldsOf_record false names_nodup rfl]
  rfl

/-- The numbers of an identity fit in sixty-four bits. -/
structure VerifiedIdentity.InRange (i : VerifiedIdentity) : Prop where
  fid : i.fid < 18446744073709551616
  checkedBlock : i.checkedBlock < 18446744073709551616
  checkedAt : i.checkedAt < 18446744073709551616

/-- An identity with numbers of sixty-four bits reads back. -/
theorem VerifiedIdentity.ofJson?_toJson {i : VerifiedIdentity} (hi : i.InRange) :
    ofJson? i.toJson = some i := by
  rw [toJson, ofJson?, Json.fieldsOf_record false names_nodup rfl]
  simp only [Json.asU64_integer hi.fid, Json.asU64_integer hi.checkedBlock,
    Json.asU64_integer hi.checkedAt, Json.asStr, unitVariant, Option.bind_some,
    WalletKind.ofName?_name, ProofKind.ofName?_name]
  rfl

/-! ## Other crates -/

/-- A parsed sign-in message, as far as it is looked at. Times are in Unix seconds, those with an
exact value also in nanoseconds.
Source: the crate `siwe`, `Message` -/
structure Message where
  domain : Bytes
  address : Bytes
  statement : Option Bytes
  uri : Bytes
  nonce : Bytes
  chainId : Nat
  issuedAt : Int
  expirationTime : Option (Int × Nat)
  notBefore : Option (Int × Nat)
  requestId : Option Bytes
  resources : List Bytes
  deriving DecidableEq, Repr

/-- What the crate takes from other crates. -/
structure Crates where
  json : JsonText
  parseUrl : Bytes → Option Url
  queryPairs : Url → List (Bytes × Bytes)
  parseMessage : Bytes → Option Message
  messageText : Message → Bytes
  verifyEip191 : Message → Bytes → Bool
  keccak256 : Bytes → Bytes
  rfc3339 : Nat → Option Bytes

/-! ## Checking a message -/

/-- Source: `message.rs`, `ParsedProof` -/
structure ParsedProof where
  message : Message
  fid : Nat
  signature : Bytes
  digest : Bytes
  deriving DecidableEq, Repr

variable (K : Crates)

/-- Source: `message.rs`, `timestamp` -/
def timestamp (seconds : Nat) : Except AuthError Bytes := do
  ensure (seconds < 9223372036854775808) .invalidChallenge
  okOr (K.rfc3339 seconds) .invalidChallenge

/-- The form of a nonce. -/
def validNonce (nonce : Bytes) : Bool :=
  16 ≤ nonce.length && nonce.length ≤ 128 && nonce.all isAlnum

/-- Source: `message.rs`, `validate_challenge` -/
def validateChallenge (challenge : Challenge) : Except AuthError Unit := do
  ensure (validNonce challenge.nonce ∧ challenge.createdAt < challenge.expiresAt ∧
    challenge.expiresAt - challenge.createdAt ≤ maxChallengeSeconds) .invalidChallenge
  let _ ← timestamp K challenge.createdAt
  let _ ← timestamp K challenge.expiresAt
  pure ()

/-- The identifier in the one resource of a message. -/
def resourceFid (resource : Bytes) : Except AuthError Nat := do
  let digits ← okOr (stripPrefix (str "farcaster://fid/") resource) .invalidMessage
  let digits := if digits.getLast? = some 47 then digits.dropLast else digits
  ensure (digits.head? ≠ some 48 ∧ digits ≠ [] ∧ digits.all isDigit) .invalidMessage
  let fid := ofDecimal digits
  ensure (fid < 18446744073709551616) .invalidMessage
  ensure (fid ≠ 0 ∧ fid ≤ maxFid) .invalidMessage
  pure fid

/-- The bytes of a signature. A wrapped signature of a wallet that is not deployed is not taken for
another one. -/
def signatureBytes (signature : Bytes) : Except AuthError Bytes := do
  let digits ← okOr (stripPrefix (str "0x") signature) .invalidSignature
  ensure (digits ≠ [] ∧ digits.length ≤ maxSignatureBytes * 2) .invalidSignature
  let signature ← okOr (hexDecode digits) .invalidSignature
  ensure ((List.replicate 16 [0x64, 0x92]).flatten.isSuffixOf signature = false) .unsupportedWallet
  pure signature

/-- Check a message without a challenge: its exact text, its origin, its statement and its one
resource.
Source: `message.rs`, `parse_authority` -/
def parseAuthority (proof : SignedProof) (domain uri : Bytes) : Except AuthError ParsedProof := do
  ensure (proof.message.length ≤ maxMessageBytes ∧ proof.message.all fun b => b < 128)
    .invalidMessage
  let message ← okOr (K.parseMessage proof.message) .invalidMessage
  ensure (K.messageText message = proof.message ∧ message.domain = domain ∧ message.uri = uri ∧
    validNonce message.nonce ∧ message.chainId = 10 ∧
    (message.statement = some (str "Farcaster Auth") ∨
      message.statement = some (str "Farcaster Connect")) ∧
    message.requestId = none ∧ message.resources.length = 1) .invalidMessage
  let fid ← resourceFid (message.resources.headD [])
  let signature ← signatureBytes proof.signature
  let signed := str "\x19Ethereum Signed Message:\n" ++ decimal proof.message.length
  pure ⟨message, fid, signature, K.keccak256 (signed ++ proof.message)⟩

/-- Check a message against a challenge.
Source: `message.rs`, `parse` -/
def parse (proof : SignedProof) (challenge : Challenge) (domain uri : Bytes) (now : Nat) :
    Except AuthError ParsedProof := do
  validateChallenge K challenge
  ensure (challenge.createdAt ≤ now ∧ now < challenge.expiresAt) .invalidChallenge
  let parsed ← parseAuthority K proof domain uri
  let message := parsed.message
  ensure (message.nonce = challenge.nonce) .invalidMessage
  ensure (0 ≤ message.issuedAt) .invalidMessage
  let issued := message.issuedAt.toNat
  ensure (challenge.createdAt - clockSkewSeconds ≤ issued ∧ issued ≤ now + clockSkewSeconds ∧
    issued < challenge.expiresAt) .invalidMessage
  let expiry ← okOr message.expirationTime .invalidMessage
  ensure (expiry = ((challenge.expiresAt : Int), 0)) .invalidMessage
  ensure (∀ notBefore ∈ message.notBefore, notBefore = ((challenge.createdAt : Int), 0))
    .invalidMessage
  pure parsed

/-- Source: `message.rs`, `verify_eoa` -/
def verifyEoa (proof : ParsedProof) : Except AuthError Unit := do
  ensure (proof.signature.length = 65) .invalidSignature
  ensure ([0, 1, 27, 28].contains (proof.signature.getD 64 0)) .invalidSignature
  ensure (K.verifyEip191 proof.message proof.signature) .invalidSignature

end PurpleSky.Farcaster
