import PurpleSky.Farcaster.Message

/-!
# The Farcaster client (`AuthClient`)

Requests to a relay and to an RPC provider, and what is made of the answers. The network is a
function from the number of a request in its operation, and the request, to what comes back; nothing
is assumed of it. `verifyAuthority` is written in the four parts of its argument: the block, the
signature, the custody and the authority.

* `verify`: a signed message for a challenge, and the authority of its signer on the chain.
* `recheckIdentity`: the same authority later, at a block that is not older.
-/

namespace PurpleSky.Farcaster

open Bytes

/-! ## The network -/

/-- A request. -/
inductive Request where
  | post (url : Url) (body : Json)
  | get (url : Url) (bearer : Bytes)

/-- What comes back: nothing in time, or an answer in chunks, perhaps cut off. -/
inductive Response where
  | failed
  | reply (status : Nat) (contentLength : Option Nat) (chunks : List Bytes) (complete : Bool)
  deriving DecidableEq

/-- Answers to the requests of an operation, by their number. -/
abbrev Net := Nat → Request → Response

/-- Source: `client.rs`, `MAX_RESPONSE_BYTES` -/
def maxResponseBytes : Nat := 64 * 1024

/-- Source: `client.rs`, `MAX_FINALIZED_AGE_SECONDS` -/
def maxFinalizedAgeSeconds : Nat := 3600

/-- Source: `client.rs`, `ID_REGISTRY` -/
def idRegistry : Bytes := str "0x00000000fc6c5f01fc30151999387bb99a9f489b"

/-- Source: `client.rs`, `KEY_REGISTRY` -/
def keyRegistry : Bytes := str "0x00000000fc1237824fb747abde0ff18990e59b7e"

/-- Read chunks up to the limit. -/
def readChunks : Bytes → List Bytes → Bool → Except AuthError Bytes
  | bytes, [], complete => do
      ensure (complete = true) .unavailable
      pure bytes
  | bytes, chunk :: rest, complete => do
      ensure (bytes.length + chunk.length ≤ maxResponseBytes) .unavailable
      readChunks (bytes ++ chunk) rest complete

/-- Source: `client.rs`, `AuthClient::send` -/
def send : Response → Except AuthError (Nat × Bytes)
  | .failed => .error .unavailable
  | .reply status contentLength chunks complete => do
      ensure (∀ n ∈ contentLength, n ≤ maxResponseBytes) .unavailable
      let bytes ← readChunks [] chunks complete
      pure (status, bytes)

/-! ## Configuration -/

/-- Source: `client.rs`, `AuthConfig` -/
structure AuthConfig where
  domain : Bytes
  uri : Bytes
  relayUrl : Bytes
  optimismRpcUrl : Bytes
  deriving DecidableEq

/-- Source: `client.rs`, `AuthClient` -/
structure AuthClient where
  config : AuthConfig
  relay : Url
  rpc : Url
  deriving DecidableEq

variable (K : Crates)

/-- Source: `client.rs`, `safe_url` -/
def safeUrl (input : Bytes) : Except AuthError Url := do
  ensure (input.length ≤ 2048) .invalidConfig
  let url ← okOr (K.parseUrl input) .invalidConfig
  let secure := url.scheme = str "https" ∨ (url.scheme = str "http" ∧ url.host.any isLoopback)
  ensure (secure ∧ url.host ≠ none ∧ input.contains 64 = false ∧ url.username = [] ∧
    url.password = none ∧ url.query = none ∧ url.fragment = none ∧
    input.all fun b => 32 < b && b ≠ 127) .invalidConfig
  pure url

/-- Source: `client.rs`, `AuthConfig::validate` -/
def AuthConfig.validate (config : AuthConfig) : Except AuthError Unit := do
  let uri ← safeUrl K config.uri
  ensure (config.domain = uri.hostPort ∧ config.domain.length ≤ 253 ∧ config.domain ≠ [] ∧
    config.domain.all fun b => isAlnum b || (str ".:-").contains b) .invalidConfig
  let relay ← safeUrl K config.relayUrl
  ensure (relay.path = str "/") .invalidConfig
  let _ ← safeUrl K config.optimismRpcUrl
  pure ()

/-- Source: `client.rs`, `AuthClient::new` -/
def AuthClient.new (config : AuthConfig) : Except AuthError AuthClient := do
  config.validate K
  let relay ← safeUrl K config.relayUrl
  let rpc ← safeUrl K config.optimismRpcUrl
  pure ⟨config, relay, rpc⟩

/-! ## The relay -/

/-- Source: `client.rs`, `valid_channel` -/
def validChannel (input : Bytes) : Bool :=
  8 ≤ input.length && input.length ≤ 128 && input.all fun b => isAlnum b || (str "_-").contains b

/-- Source: `client.rs`, `validate_auth_url` -/
def validateAuthUrl (input token : Bytes) : Except AuthError Unit := do
  ensure (input.length ≤ 1024) .invalidRelayResponse
  let url ← okOr (K.parseUrl input) .invalidRelayResponse
  ensure (url.scheme = str "https" ∧
    (url.host = some (str "farcaster.xyz") ∨ url.host = some (str "warpcast.com")) ∧
    url.path = str "/~/siwf" ∧ url.port = none ∧ url.username = [] ∧ url.password = none ∧
    url.fragment = none ∧ K.queryPairs url = [(str "channelToken", token)]) .invalidRelayResponse

/-- A text that may be missing from a record. -/
def optionalStr (fields : List (Bytes × Json)) (name : Bytes) : Option (Option Bytes) :=
  match fields.filter fun f => f.1 = name with
  | [] => some none
  | [(_, .null)] => some none
  | [(_, v)] => v.asStr.map some
  | _ => none

/-- The answer of the relay on a channel: its state, a message and a signature. -/
def channelRecord : Json → Option (Bytes × Option Bytes × Option Bytes)
  | .object fields => do
      let state ← Json.only fields (str "state")
      pure (← state.asStr, ← optionalStr fields (str "message"),
        ← optionalStr fields (str "signature"))
  | .array [state, message, signature] => do
      let fields := [(str "message", message), (str "signature", signature)]
      pure (← state.asStr, ← optionalStr fields (str "message"),
        ← optionalStr fields (str "signature"))
  | _ => none

variable (client : AuthClient) (net : Net)

/-- Source: `client.rs`, `AuthClient::start` -/
def start (challenge : Challenge) : Except AuthError Channel := do
  validateChallenge K challenge
  let notBefore ← timestamp K challenge.createdAt
  let expirationTime ← timestamp K challenge.expiresAt
  let body : Json := .object [
    (str "acceptAuthAddress", .bool true), (str "domain", .string client.config.domain),
    (str "expirationTime", .string expirationTime), (str "nonce", .string challenge.nonce),
    (str "notBefore", .string notBefore), (str "siweUri", .string client.config.uri)]
  let (status, response) ← send (net 0 (.post { client.relay with path := str "/v1/channel" } body))
  ensure (status = 201) .unavailable
  let value ← okOr (K.json.parse response) .invalidRelayResponse
  let fields ← okOr (Json.fieldsOf false [str "channelToken", str "url", str "nonce"] value)
    .invalidRelayResponse
  let texts ← okOr (fields.mapM Json.asStr) .invalidRelayResponse
  match texts with
  | [token, url, nonce] => do
      ensure (nonce = challenge.nonce ∧ validChannel token) .invalidRelayResponse
      validateAuthUrl K url token
      pure ⟨token, url⟩
  | _ => .error .invalidRelayResponse

/-- Source: `client.rs`, `AuthClient::status` -/
def status (channelToken : Bytes) : Except AuthError ChannelStatus := do
  ensure (validChannel channelToken) .invalidRelayResponse
  let url := { client.relay with path := str "/v1/channel/status" }
  let (status, response) ← send (net 0 (.get url channelToken))
  ensure (status ≠ 401) .channelExpired
  ensure (status = 200 ∨ status = 202) .unavailable
  let value ← okOr (K.json.parse response) .invalidRelayResponse
  let (state, message, signature) ← okOr (channelRecord value) .invalidRelayResponse
  if status = 202 ∧ state = str "pending" then pure .pending
  else do
    ensure (status = 200 ∧ state = str "completed") .invalidRelayResponse
    let message ← okOr message .invalidRelayResponse
    let signature ← okOr signature .invalidRelayResponse
    ensure (message.length ≤ maxMessageBytes ∧ signature.length ≤ maxSignatureBytes * 2 + 2)
      .invalidRelayResponse
    pure (.completed ⟨message, signature⟩)

/-! ## The RPC provider -/

/-- Source: `client.rs`, `AuthClient::rpc` -/
def rpc (i : Nat) (method : Bytes) (params : List Json) : Except AuthError Json := do
  let body : Json := .object [(str "id", .integer 1), (str "jsonrpc", .string (str "2.0")),
    (str "method", .string method), (str "params", .array params)]
  let (status, response) ← send (net i (.post client.rpc body))
  ensure (status = 200) .unavailable
  let value ← okOr (K.json.parse response) .invalidChainEvidence
  ensure ((value.last (str "jsonrpc")).bind Json.asStr = some (str "2.0") ∧
    (value.last (str "id")).bind Json.asU64 = some 1 ∧ (value.last (str "error")).isNone)
    .invalidChainEvidence
  match value.last (str "result") with
  | none => .error .invalidChainEvidence
  | some .null => .error .invalidChainEvidence
  | some v => pure v

/-- Source: `client.rs`, `quantity` -/
def quantity (input : Bytes) : Except AuthError Nat := do
  let digits ← okOr (stripPrefix (str "0x") input) .invalidChainEvidence
  ensure (digits ≠ [] ∧ ¬(1 < digits.length ∧ digits.head? = some 48)) .invalidChainEvidence
  okOr (parseHexU64 digits) .invalidChainEvidence

/-- Source: `client.rs`, `decode_hex` -/
def decodeHex (input : Bytes) : Except AuthError Bytes := do
  let digits ← okOr (stripPrefix (str "0x") input) .invalidChainEvidence
  okOr (hexDecode digits) .invalidChainEvidence

/-- A text of an answer. -/
def text (v : Json) : Except AuthError Bytes := okOr v.asStr .invalidChainEvidence

/-- Source: `client.rs`, `field` -/
def field (value : Json) (key : Bytes) : Except AuthError Bytes :=
  okOr ((value.last key).bind Json.asStr) .invalidChainEvidence

/-- Bytes as lowercase digits after `0x`. -/
def hexText (bytes : Bytes) : Bytes := str "0x" ++ hexEncode bytes

/-- Source: `client.rs`, `word_u64` -/
def wordU64 (word : Bytes) : Except AuthError Nat := do
  ensure (word.length = 32 ∧ (word.take 24).all fun b => b = 0) .invalidChainEvidence
  pure (ofBigEndian (word.drop 24))

/-- A number as a word of 32 bytes. -/
def word (value : Nat) : Bytes := List.replicate 24 0 ++ bigEndian 8 value

/-- Source: `client.rs`, `append_word` -/
def appendWord (output : Bytes) (value : Nat) : Bytes := output ++ word value

/-- Source: `client.rs`, `function_selector` -/
def functionSelector (signature : Bytes) : Bytes := (K.keccak256 signature).take 4

/-- Source: `client.rs`, `verify_authority` (the call of `custodyOf`) -/
def custodyOfCalldata (fid : Nat) : Bytes :=
  appendWord (functionSelector K (str "custodyOf(uint256)")) fid

/-- Source: `client.rs`, `id_of_calldata` -/
def idOfCalldata (address : Bytes) : Bytes :=
  functionSelector K (str "idOf(address)") ++ List.replicate 12 0 ++ address

/-- Source: `client.rs`, `auth_key_calldata` -/
def authKeyCalldata (fid : Nat) (address : Bytes) : Bytes :=
  appendWord (appendWord (appendWord
    (functionSelector K (str "keyDataOf(uint256,bytes)")) fid) 64) 32 ++
    List.replicate 12 0 ++ address

/-- Source: `client.rs`, `erc1271_calldata` -/
def erc1271Calldata (digest signature : Bytes) : Bytes :=
  appendWord (appendWord
    (functionSelector K (str "isValidSignature(bytes32,bytes)") ++ digest) 64) signature.length ++
    signature ++ List.replicate ((32 - signature.length % 32) % 32) 0

/-- A block as the parameter of a read: its hash, and that it is canonical. -/
def selector (blockHash : Bytes) : Json :=
  .object [(str "blockHash", .string blockHash), (str "requireCanonical", .bool true)]

/-- Source: `client.rs`, `AuthClient::eth_call` -/
def ethCall (i : Nat) (target data : Bytes) (block : Json) : Except AuthError Bytes := do
  let result ← rpc K client net i (str "eth_call")
    [.object [(str "data", .string (hexText data)), (str "to", .string target)], block]
  decodeHex (← text result)

/-! ## Verifying an authority -/

/-- The finalized block of an authority. -/
structure Block where
  number : Nat
  hash : Bytes
  deriving DecidableEq, Repr

/-- The finalized block of the chain: recent, and not behind the block that was seen before.
Source: `client.rs`, `AuthClient::verify_authority` (up to its reads) -/
def finalizedBlock (now : Nat) (expected : Option VerifiedIdentity) : Except AuthError Block := do
  let chain ← rpc K client net 0 (str "eth_chainId") []
  let chain ← quantity (← text chain)
  ensure (chain = 10) .invalidChainEvidence
  let block ← rpc K client net 1 (str "eth_getBlockByNumber")
    [.string (str "finalized"), .bool false]
  let number ← quantity (← field block (str "number"))
  let hash ← field block (str "hash")
  let bytes ← decodeHex hash
  ensure (bytes.length = 32) .invalidChainEvidence
  let time ← quantity (← field block (str "timestamp"))
  ensure (number ≠ 0 ∧ time ≤ min (now + 60) 18446744073709551615 ∧
    now - time ≤ maxFinalizedAgeSeconds) .invalidChainEvidence
  -- before any verdict, so that a provider that is behind revokes nothing
  ensure (∀ previous ∈ expected, ¬(number < previous.checkedBlock ∨
    (number = previous.checkedBlock ∧ eqIgnoreCase hash previous.blockHash = false)))
    .invalidChainEvidence
  pure ⟨number, hash⟩

/-- The answer of a contract that accepts a signature. -/
def magicWord : Bytes := [0x16, 0x26, 0xba, 0x7e] ++ List.replicate 28 0

/-- The kind of the wallet, whose signature is checked.
Source: `client.rs`, `AuthClient::verify_authority` (the signature) -/
def checkSignature (parsed : ParsedProof) (block : Block) : Except AuthError WalletKind := do
  let address := hexText parsed.message.address
  let code ← rpc K client net 2 (str "eth_getCode") [.string address, selector block.hash]
  let code ← decodeHex (← text code)
  if code = [] then do
    verifyEoa K parsed
    pure .eoa
  else do
    ensure ([0xef, 0x01, 0x00].isPrefixOf code = false) .unsupportedWallet
    let result ← ethCall K client net 3 address (erc1271Calldata K parsed.digest parsed.signature)
      (selector block.hash)
    ensure (result.length = 32 ∧ result.take 4 = [0x16, 0x26, 0xba, 0x7e] ∧
      (result.drop 4).all fun b => b = 0) .invalidSignature
    pure .erc1271

/-- The address with the custody, unchanged where one is expected.
Source: `client.rs`, `AuthClient::verify_authority` (the custody) -/
def checkCustody (parsed : ParsedProof) (block : Block) (expected : Option VerifiedIdentity) :
    Except AuthError Bytes := do
  let custody ← ethCall K client net 4 idRegistry (custodyOfCalldata K parsed.fid)
    (selector block.hash)
  ensure (custody.length = 32 ∧ (custody.take 12).all fun b => b = 0) .invalidChainEvidence
  ensure ((custody.drop 12).all (fun b => b = 0) = false) .unauthorized
  let custodyAddress := hexText (custody.drop 12)
  ensure (∀ previous ∈ expected, previous.custodyAddress = custodyAddress) .unauthorized
  pure custodyAddress

/-- The authority of the address: a registered key, or the custody.
Source: `client.rs`, `AuthClient::verify_authority` (the authority) -/
def checkAuthority (parsed : ParsedProof) (block : Block) (custodyAddress : Bytes) :
    Except AuthError ProofKind := do
  let address := parsed.message.address
  let auth ← ethCall K client net 5 keyRegistry (authKeyCalldata K parsed.fid address)
    (selector block.hash)
  ensure (auth.length = 64) .invalidChainEvidence
  let keyState ← wordU64 (auth.take 32)
  let keyType ← wordU64 (auth.drop 32)
  ensure (keyState ≤ 2 ∧ keyType ≤ 4294967295) .invalidChainEvidence
  if keyState = 1 ∧ keyType = 2 then pure .authAddress
  else do
    let custody ← ethCall K client net 6 idRegistry (idOfCalldata K address) (selector block.hash)
    ensure (custody.length = 32) .invalidChainEvidence
    let fid ← wordU64 custody
    ensure (fid = parsed.fid ∧ custodyAddress = hexText address) .unauthorized
    pure .custody

/-- Source: `client.rs`, `AuthClient::verify_authority` -/
def verifyAuthority (parsed : ParsedProof) (now : Nat) (expected : Option VerifiedIdentity) :
    Except AuthError VerifiedIdentity := do
  let block ← finalizedBlock K client net now expected
  let walletKind ← checkSignature K client net parsed block
  let custodyAddress ← checkCustody K client net parsed block expected
  let proofKind ← checkAuthority K client net parsed block custodyAddress
  pure ⟨parsed.fid, hexText parsed.message.address, custodyAddress, walletKind, proofKind,
    block.number, block.hash, now⟩

/-- Source: `client.rs`, `AuthClient::verify` -/
def verify (proof : SignedProof) (challenge : Challenge) (now : Nat) :
    Except AuthError VerifiedIdentity := do
  let parsed ← parse K proof challenge client.config.domain client.config.uri now
  verifyAuthority K client net parsed now none

/-- Source: `client.rs`, `AuthClient::recheck_identity` -/
def recheckIdentity (identity : VerifiedIdentity) (proof : SignedProof) (now : Nat) :
    Except AuthError VerifiedIdentity := do
  let parsed ← parseAuthority K proof client.config.domain client.config.uri
  ensure (parsed.fid = identity.fid ∧ hexText parsed.message.address = identity.address)
    .unauthorized
  let custody ← decodeHex identity.custodyAddress
  ensure (custody.length = 20) .unauthorized
  ensure (identity.checkedAt ≤ now ∧ identity.checkedBlock ≠ 0) .invalidChainEvidence
  let hash ← decodeHex identity.blockHash
  ensure (hash.length = 32) .invalidChainEvidence
  verifyAuthority K client net parsed now (some identity)

end PurpleSky.Farcaster
