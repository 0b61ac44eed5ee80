import PurpleSky.Credentials.Store
import PurpleSky.Farcaster.Client

/-!
# Account settings (`settings.rs`)

What the operator configures of the account service, and the public identity that follows from it.
What the service takes from other crates is `Crates`: that of its two libraries, and a drawing of QR
codes.
-/

namespace PurpleSky.Node

open Bytes Credentials Farcaster

/-- What the node takes from other crates. -/
structure Crates extends Farcaster.Crates where
  ecdsa : Repo.Ecdsa
  signingKey : Bytes → Option ecdsa.SigningKey
  base58 : Bytes → Bytes
  qrDataUrl : Bytes → Option Bytes

/-- What the credential store takes from them. -/
def Crates.credentials (K : Crates) : Credentials.Crates :=
  ⟨K.json, K.parseUrl, K.ecdsa, K.signingKey, K.base58⟩

/-- Source: `settings.rs`, `MAX_TEST_FID` -/
def maxTestFid : Nat := 9007199254740991

/-- Source: `settings.rs`, `AccountSettings` -/
structure Settings where
  enabled : Bool
  serviceUrl : Bytes
  allowedFid : Option Nat
  optimismRpcUrl : Bytes
  deriving DecidableEq, Repr

/-- The texts of rejected settings. Source: `settings.rs`, `SettingsError::Invalid` -/
inductive SettingsError where
  | fid
  | origin
  | host
  | missingHost
  | identity
  deriving DecidableEq, Repr

def SettingsError.message : SettingsError → String
  | fid => "account login requires a permitted FID"
  | origin => "account URLs must be HTTPS origins without credentials, paths or queries; " ++
      "HTTP loopback is allowed for development"
  | host => "account service requires a DNS hostname or IPv4 loopback"
  | missingHost => "missing account hostname"
  | identity => "use a canonical HTTPS hostname, or http://localhost:port for development"

namespace Settings

variable (K : Crates) (settings : Settings)

/-- Source: `settings.rs`, `AccountSettings::origin` -/
def origin (value : Bytes) : Except SettingsError Url := do
  ensure (value.length ≤ 2048) .origin
  let url ← okOr (K.parseUrl value) .origin
  ensure ((url.scheme = str "https" ∨ (url.scheme = str "http" ∧ url.host.any isLoopback)) ∧
    url.username = [] ∧ url.password = none ∧ url.query = none ∧ url.fragment = none ∧
    url.path = str "/" ∧ url.host ≠ none) .origin
  pure url

/-- The host with an escaped port, as it stands in a DID. -/
def authorityOf (host : Bytes) (port : Option Nat) : Bytes :=
  match port with
  | some port => host ++ str "%3A" ++ decimal port
  | none => host

/-- Source: `settings.rs`, `AccountSettings::identity` -/
def identity : Except SettingsError Identity := do
  let url ← origin K settings.serviceUrl
  let host ← okOr url.host .missingHost
  let did := str "did:web:" ++ authorityOf host url.port
  pure ⟨if host = str "localhost" then str "psky.test" else host, did, url.originText, did⟩

/-- Source: `settings.rs`, `AccountSettings::validate` -/
def validate : Except SettingsError Unit := do
  ensure ((∀ fid ∈ settings.allowedFid, 1 ≤ fid ∧ fid ≤ maxTestFid) ∧
    (settings.enabled = true → settings.allowedFid ≠ none)) .fid
  if settings.serviceUrl = [] ∧ settings.enabled = false then do
    let _ ← origin K settings.optimismRpcUrl
    pure ()
  else do
    let service ← origin K settings.serviceUrl
    ensure (service.host.any fun host => !host.contains 58) .host
    let _ ← origin K settings.optimismRpcUrl
    let identity ← settings.identity K
    (identity.validate K.credentials).mapError fun _ => .identity

end Settings

end PurpleSky.Node
