import PurpleSky.Lib.JsonPretty
import PurpleSky.Node.Settings

/-!
# Operator settings (`settings.rs`)

The settings of a node with the account settings among them, their validation, and the document in
which they are saved. What is taken from other crates is `Crates`; beside that of the account
service it has the texts of socket addresses.

* `Crates.lawful_onTexts`: what is relied on of a JSON library that takes texts only.
* `ConfigDocument.ofJson?_toJson`: a document of validated settings reads back.
-/

namespace PurpleSky.Console

open Bytes

/-! ## Values -/

/-- A socket address. One that is read from a text has no flow information. -/
inductive SocketAddr where
  | v4 (ip : BitVec 32) (port : UInt16)
  | v6 (ip : BitVec 128) (port : UInt16) (scope : UInt32)
  deriving DecidableEq, Repr

namespace SocketAddr

def port : SocketAddr → UInt16
  | v4 _ port => port
  | v6 _ port _ => port

/-- The address is of this machine. -/
def isLoopback : SocketAddr → Bool
  | v4 ip _ => ip.toNat / 2 ^ 24 = 127
  | v6 ip _ _ => ip = 1

def isMulticast : SocketAddr → Bool
  | v4 ip _ => ip.toNat / 2 ^ 28 = 14
  | v6 ip _ _ => ip.toNat / 2 ^ 120 = 255

end SocketAddr

/-- What the console takes from other crates. -/
structure Crates extends toNode : Node.Crates where
  addrText : SocketAddr → Bytes
  parseAddr : Bytes → Option SocketAddr

/-- The pretty text of a JSON value. -/
def Crates.pretty (K : Crates) (v : Json) : Bytes := v.pretty K.json.float 0

/-- What the console relies on: pretty texts and the texts of addresses read back. -/
structure Crates.Lawful (K : Crates) : Prop where
  parse_pretty : ∀ v : Json, v.Plain 127 → K.json.parse (K.pretty v) = some v
  parseAddr_addrText : ∀ a, K.parseAddr (K.addrText a) = some a

/-- The crates with a JSON library that reads bytes other than texts, too. No text is read in
another way. -/
def Crates.onTexts (K : Crates) : Crates := { K with json := K.json.onTexts }

/-- With a JSON library that takes texts only, the console relies on nothing else than that these
read back. -/
theorem Crates.lawful_onTexts {K : Crates} (hjson : K.json.ReadsTexts)
    (haddr : ∀ a, K.parseAddr (K.addrText a) = some a) :
    K.onTexts.Lawful ∧ K.onTexts.json.Lawful :=
  ⟨⟨fun _ hv => JsonText.pretty_onTexts hjson hv, haddr⟩, JsonText.lawful_onTexts hjson⟩

/-- Source: `psky-hypersnap`, `Network` -/
inductive Network where
  | mainnet
  | testnet
  | devnet
  deriving DecidableEq, Repr

def Network.name : Network → Bytes
  | mainnet => str "mainnet"
  | testnet => str "testnet"
  | devnet => str "devnet"

def Network.ofName? (s : Bytes) : Option Network :=
  [mainnet, testnet, devnet].find? fun network => network.name = s

/-- Source: `settings.rs`, `Settings` -/
structure Settings where
  account : Node.Settings
  nodeName : Bytes
  endpoints : List Bytes
  network : Network
  testFid : Option Nat
  requestTimeoutMs : Nat
  maxResponseBytes : Nat
  maxBlockDelaySeconds : Nat
  serveFixture : Bool
  adminBind : SocketAddr
  publicBind : SocketAddr
  deriving DecidableEq, Repr

/-- Source: `settings.rs`, `ConfigDocument` -/
structure ConfigDocument where
  schemaVersion : Nat
  revision : Nat
  settings : Settings
  deriving DecidableEq, Repr

/-- Source: `settings.rs`, `SettingsError` -/
inductive SettingsError where
  | invalid (message : String)
  | conflict
  | persistence (message : String)
  deriving DecidableEq, Repr

/-- Source: `settings.rs`, `SCHEMA_VERSION` -/
def schemaVersion : Nat := 1

/-- Source: `settings.rs`, `MAX_SETTINGS_BYTES` -/
def maxSettingsBytes : Nat := 32 * 1024

/-- Source: `psky-hypersnap`, `MAX_ENDPOINTS` -/
def maxEndpoints : Nat := 8

/-- Source: `psky-hypersnap`, `MAX_RESPONSE_BYTES` -/
def maxResponseBytes : Nat := 1024 * 1024

/-- Source: `psky-hypersnap`, `MAX_BLOCK_DELAY_SECS` -/
def maxBlockDelaySecs : Nat := 86400

/-! ## Peers -/

/-- Source: `psky-hypersnap`, `PreflightConfig` -/
structure PreflightConfig where
  endpoints : List Url
  expectedNetwork : Network
  testFid : Option Nat
  timeoutMs : Nat
  maxResponseBytes : Nat
  maxBlockDelaySecs : Nat
  deriving DecidableEq, Repr

/-- The host of an endpoint is this machine. -/
def isLocal (host : Bytes) : Bool := isLoopback host || host = str "[::1]"

variable (K : Crates)

/-- Source: `psky-hypersnap`, `validate_endpoint` -/
def validateEndpoint (input : Bytes) : Except String Url := do
  let endpoint ← okOr (K.parseUrl input) "invalid endpoint URL"
  ensure (endpoint.username = [] ∧ endpoint.password = none)
    "endpoint URLs must not contain credentials"
  ensure (endpoint.query = none ∧ endpoint.fragment = none)
    "endpoint URLs must not contain queries or fragments"
  ensure (endpoint.path = str "/") "endpoint URL must use the root path"
  let host ← okOr endpoint.host "endpoint URL must have a host"
  ensure (endpoint.scheme = str "https" ∨ (endpoint.scheme = str "http" ∧ isLocal host))
    "remote endpoints require HTTPS; HTTP requires loopback"
  pure endpoint

/-- Validated endpoints, none of them twice. -/
def validateEndpoints : List Bytes → List Url → Except String (List Url)
  | [], urls => pure urls
  | input :: inputs, urls => do
      let endpoint ← validateEndpoint K input
      ensure (endpoint ∉ urls) "duplicate endpoints are not allowed"
      validateEndpoints inputs (urls ++ [endpoint])

/-- Source: `psky-hypersnap`, `PreflightConfig::new` -/
def PreflightConfig.new (endpoints : List Bytes) (network : Network) (testFid : Option Nat) :
    Except String PreflightConfig := do
  ensure (endpoints ≠ [] ∧ endpoints.length ≤ maxEndpoints) "configure between 1 and 8 endpoints"
  ensure (testFid ≠ some 0) "test FID must be greater than zero"
  let urls ← validateEndpoints K endpoints []
  pure ⟨urls, network, testFid, 5000, 256 * 1024, 30⟩

/-- Source: `psky-hypersnap`, `PreflightConfig::with_limits` -/
def PreflightConfig.withLimits (config : PreflightConfig) (timeoutMs responseBytes : Nat) :
    Except String PreflightConfig := do
  ensure (10 ≤ timeoutMs ∧ timeoutMs ≤ 30000) "request timeout must be 10ms through 30s"
  ensure (responseBytes ≠ 0 ∧ responseBytes ≤ Console.maxResponseBytes)
    "response limit must be 1 through 1048576 bytes"
  pure { config with timeoutMs := timeoutMs, maxResponseBytes := responseBytes }

/-- Source: `psky-hypersnap`, `PreflightConfig::with_max_block_delay_secs` -/
def PreflightConfig.withMaxBlockDelaySecs (config : PreflightConfig) (seconds : Nat) :
    Except String PreflightConfig := do
  ensure (1 ≤ seconds ∧ seconds ≤ Console.maxBlockDelaySecs)
    "maximum block delay must be 1 through 86400 seconds"
  pure { config with maxBlockDelaySecs := seconds }

/-! ## Validation -/

/-- The scalar values of a UTF-8 text, last one first. -/
def scalarStep (scalars : List Nat) (b : UInt8) : List Nat :=
  if b < 128 then b.toNat :: scalars
  else if b < 192 then
    match scalars with
    | [] => []
    | c :: rest => (c * 64 + (b.toNat - 128)) :: rest
  else if b < 224 then (b.toNat - 192) :: scalars
  else if b < 240 then (b.toNat - 224) :: scalars
  else (b.toNat - 240) :: scalars

/-- The scalar values of a UTF-8 text. -/
def scalars (s : Bytes) : List Nat := (s.foldl scalarStep []).reverse

/-- White space, as `char::is_whitespace` has it. -/
def isWhitespace (c : Nat) : Bool :=
  (9 ≤ c && c ≤ 13) || c = 32 || c = 133 || c = 160 || c = 5760 || (8192 ≤ c && c ≤ 8202) ||
    c = 8232 || c = 8233 || c = 8239 || c = 8287 || c = 12288

/-- A control code, as `char::is_control` has it. -/
def isControl (c : Nat) : Bool := c < 32 || (127 ≤ c && c < 160)

namespace Settings

/-- Source: `settings.rs`, `Settings::build_preflight` -/
def buildPreflight (settings : Settings) : Except SettingsError PreflightConfig :=
  (do
    let config ← PreflightConfig.new K settings.endpoints settings.network settings.testFid
    let config ← config.withLimits settings.requestTimeoutMs settings.maxResponseBytes
    config.withMaxBlockDelaySecs settings.maxBlockDelaySeconds).mapError fun _ =>
      .invalid "invalid Hypersnap endpoints or read limits"

/-- Source: `settings.rs`, `Settings::validate` -/
def validate (settings : Settings) : Except SettingsError Unit := do
  (settings.account.validate K.toNode).mapError fun e => .invalid e.message
  ensure ((scalars settings.nodeName).any (fun c => !isWhitespace c) = true ∧
    (scalars settings.nodeName).length ≤ 64 ∧ (scalars settings.nodeName).any isControl = false)
    (.invalid "node name must contain 1 through 64 printable characters")
  ensure (settings.adminBind.isLoopback = true) (.invalid "admin listener must bind loopback")
  ensure (settings.adminBind ≠ settings.publicBind ∨ settings.adminBind.port = 0)
    (.invalid "listener addresses must differ")
  ensure (settings.publicBind.isMulticast = false)
    (.invalid "public listener must not bind a multicast address")
  ensure (∀ fid ∈ settings.testFid, 1 ≤ fid ∧ fid ≤ Node.maxTestFid)
    (.invalid "test FID must be 1 through 9007199254740991")
  ensure (10 ≤ settings.requestTimeoutMs ∧ settings.requestTimeoutMs ≤ 30000)
    (.invalid "request timeout must be 10 through 30000 milliseconds")
  ensure (1 ≤ settings.maxResponseBytes ∧ settings.maxResponseBytes ≤ Console.maxResponseBytes)
    (.invalid "response limit must be 1 through 1048576 bytes")
  ensure (1 ≤ settings.maxBlockDelaySeconds ∧ settings.maxBlockDelaySeconds ≤ maxBlockDelaySecs)
    (.invalid "block delay threshold must be 1 through 86400 seconds")
  ensure (∀ endpoint ∈ settings.endpoints, endpoint.length ≤ 2048)
    (.invalid "endpoint URL exceeds length limit")
  if settings.endpoints = [] then pure ()
  else do
    let _ ← settings.buildPreflight K
    pure ()

/-- Source: `settings.rs`, `Settings::preflight` -/
def preflight (settings : Settings) : Except SettingsError (Option PreflightConfig) := do
  settings.validate K
  if settings.endpoints = [] then pure none
  else do
    let config ← settings.buildPreflight K
    pure (some config)

end Settings

/-! ## The saved document -/

/-- The only field of a name, or a default where there is none. -/
def fieldOr (given : List (Bytes × Json)) (field : Bytes × Option Json) : Option Json :=
  match given.filter fun f => f.1 = field.1 with
  | [] => field.2
  | [(_, v)] => some v
  | _ => none

/-- The fields of a record, some of which may be left out of an object for a default. -/
def fieldsOr (fields : List (Bytes × Option Json)) : Json → Option (List Json)
  | .object given =>
      if given.all fun f => (fields.map Prod.fst).contains f.1 then fields.mapM (fieldOr given)
      else none
  | .array values => if values.length = fields.length then some values else none
  | _ => none

/-- An optional value. -/
def optionJson {α : Type} (f : α → Json) : Option α → Json
  | none => .null
  | some a => f a

/-- The reading of an optional value. -/
def asOption {α : Type} (f : Json → Option α) : Json → Option (Option α)
  | .null => some none
  | v => (f v).map some

/-- The reading of a list. -/
def asList {α : Type} (f : Json → Option α) : Json → Option (List α)
  | .array values => values.mapM f
  | _ => none

/-- An identifier. -/
def fidJson (fid : Nat) : Json := .integer fid

/-- The fields of account settings, and the default of what may be left out. -/
def accountFields : List (Bytes × Option Json) :=
  [(str "enabled", none), (str "service_url", none), (str "allowed_fid", some .null),
    (str "optimism_rpc_url", none)]

/-- The derived serialization of account settings. -/
def accountJson (a : Node.Settings) : Json :=
  .record (accountFields.map Prod.fst) [.bool a.enabled, .string a.serviceUrl,
    optionJson fidJson a.allowedFid, .string a.optimismRpcUrl]

/-- The derived reading of account settings. -/
def accountOfJson? (v : Json) : Option Node.Settings :=
  match fieldsOr accountFields v with
  | some [enabled, url, fid, rpc] => do
      pure ⟨← enabled.asBool, ← url.asStr, ← asOption Json.asU64 fid, ← rpc.asStr⟩
  | _ => none

/-- Source: `settings.rs`, `AccountSettings::default` -/
def defaultAccount : Node.Settings := ⟨false, [], none, str "https://mainnet.optimism.io"⟩

namespace Settings

/-- The fields of settings, and the defaults of what may be left out. -/
def fields : List (Bytes × Option Json) :=
  [(str "account", some (accountJson defaultAccount)), (str "node_name", none),
    (str "endpoints", none), (str "network", none), (str "test_fid", some .null),
    (str "request_timeout_ms", none), (str "max_response_bytes", none),
    (str "max_block_delay_seconds", none), (str "serve_fixture", none), (str "admin_bind", none),
    (str "public_bind", none)]

/-- The derived serialization of settings. -/
def toJson (s : Settings) : Json :=
  .record (fields.map Prod.fst) [accountJson s.account, .string s.nodeName,
    .array (s.endpoints.map .string), .string s.network.name, optionJson fidJson s.testFid,
    .integer s.requestTimeoutMs, .integer s.maxResponseBytes, .integer s.maxBlockDelaySeconds,
    .bool s.serveFixture, .string (K.addrText s.adminBind), .string (K.addrText s.publicBind)]

/-- The derived reading of settings. -/
def ofJson? (v : Json) : Option Settings :=
  match fieldsOr fields v with
  | some [account, name, endpoints, network, fid, timeout, bytes, delay, fixture, admin, pub] => do
      pure ⟨← accountOfJson? account, ← name.asStr, ← asList Json.asStr endpoints,
        ← (Farcaster.unitVariant network).bind Network.ofName?, ← asOption Json.asU64 fid,
        ← timeout.asU64, ← bytes.asU64, ← delay.asU64, ← fixture.asBool,
        ← admin.asStr.bind K.parseAddr, ← pub.asStr.bind K.parseAddr⟩
  | _ => none

end Settings

namespace ConfigDocument

/-- The fields of a document. -/
def fields : List (Bytes × Option Json) :=
  [(str "schema_version", none), (str "revision", none), (str "settings", none)]

/-- The derived serialization of a document. -/
def toJson (d : ConfigDocument) : Json :=
  .record (fields.map Prod.fst) [.integer d.schemaVersion, .integer d.revision, d.settings.toJson K]

/-- The derived reading of a document. -/
def ofJson? (v : Json) : Option ConfigDocument :=
  match fieldsOr fields v with
  | some [schema, revision, settings] => do
      pure ⟨← schema.asU64.filter (· < 4294967296), ← revision.asU64, ← Settings.ofJson? K settings⟩
  | _ => none

end ConfigDocument

/-! ## Reading back -/

theorem fieldOr_of_only {given : List (Bytes × Json)} {field : Bytes × Option Json} {v : Json}
    (h : Json.only given field.1 = some v) : fieldOr given field = some v := by
  unfold Json.only at h
  unfold fieldOr
  split at h
  · rename_i hfilter
    rw [hfilter]
    exact h
  · cases h

theorem mapM_fieldOr {given : List (Bytes × Json)} {fields : List (Bytes × Option Json)}
    {values : List Json} (h : (fields.map Prod.fst).mapM (Json.only given) = some values) :
    fields.mapM (fieldOr given) = some values := by
  induction fields generalizing values with
  | nil => exact h
  | cons field fields ih =>
      rw [List.map_cons, List.mapM_cons] at h
      obtain ⟨v, hv, h⟩ := Option.bind_eq_some_iff.mp h
      obtain ⟨rest, hrest, h⟩ := Option.bind_eq_some_iff.mp h
      rw [List.mapM_cons, fieldOr_of_only hv, ih hrest]
      exact h

/-- A record that is written with all of its fields reads back. -/
theorem fieldsOr_record {fields : List (Bytes × Option Json)} (hnd : (fields.map Prod.fst).Nodup)
    {values : List Json} (hlen : values.length = fields.length) :
    fieldsOr fields (.record (fields.map Prod.fst) values) = some values := by
  have hlen' : values.length = (fields.map Prod.fst).length := by rw [hlen, List.length_map]
  have hfst : ((fields.map Prod.fst).zip values).map Prod.fst = fields.map Prod.fst :=
    List.map_fst_zip hlen'.ge
  have hsnd : ((fields.map Prod.fst).zip values).map Prod.snd = values := List.map_snd_zip hlen'.le
  have hmapM := Json.mapM_only (hfst.symm ▸ hnd) (List.Subset.refl ((fields.map Prod.fst).zip values))
  rw [hfst, hsnd] at hmapM
  have hall : (((fields.map Prod.fst).zip values).all fun f =>
      (fields.map Prod.fst).contains f.1) = true := by
    rw [List.all_eq_true]
    intro f hf
    exact List.contains_iff_mem.mpr (List.of_mem_zip hf).1
  rw [Json.record, fieldsOr, if_pos hall, mapM_fieldOr hmapM]

theorem accountFields_nodup : (accountFields.map Prod.fst).Nodup := by decide +kernel

theorem Settings.fields_nodup : (Settings.fields.map Prod.fst).Nodup := by decide +kernel

theorem ConfigDocument.fields_nodup : (ConfigDocument.fields.map Prod.fst).Nodup := by
  decide +kernel

theorem asOption_fidJson {fid : Option Nat} (h : ∀ n ∈ fid, n < 18446744073709551616) :
    asOption Json.asU64 (optionJson fidJson fid) = some fid := by
  cases fid with
  | none => rfl
  | some n =>
      show (Json.asU64 (.integer n)).map some = _
      rw [Json.asU64_integer (h n rfl)]
      rfl

@[simp] theorem asList_asStr (l : List Bytes) :
    asList Json.asStr (.array (l.map .string)) = some l := by
  show (l.map Json.string).mapM Json.asStr = some l
  induction l with
  | nil => rfl
  | cons s l ih =>
      rw [List.map_cons, List.mapM_cons, ih]
      rfl

@[simp] theorem Network.ofName?_name (network : Network) : ofName? network.name = some network := by
  cases network <;> decide +kernel

/-- The numbers of settings fit in sixty-four bits. -/
structure Settings.InRange (s : Settings) : Prop where
  allowedFid : ∀ fid ∈ s.account.allowedFid, fid < 18446744073709551616
  testFid : ∀ fid ∈ s.testFid, fid < 18446744073709551616
  requestTimeoutMs : s.requestTimeoutMs < 18446744073709551616
  maxResponseBytes : s.maxResponseBytes < 18446744073709551616
  maxBlockDelaySeconds : s.maxBlockDelaySeconds < 18446744073709551616

/-- Validated settings have small numbers. -/
theorem Settings.inRange_of_validate {K : Crates} {s : Settings} (h : s.validate K = .ok ()) :
    s.InRange := by
  simp only [Settings.validate, bind_eq_ok, ensure_eq_ok] at h
  obtain ⟨_, haccount, _, -, _, -, _, -, _, -, _, htest, _, htimeout, _, hbytes, _, hdelay, -⟩ := h
  have haccount := Credentials.Store.mapError_eq_ok.mp haccount
  simp only [Node.Settings.validate, bind_eq_ok, ensure_eq_ok] at haccount
  obtain ⟨_, ⟨hfid, -⟩, -⟩ := haccount
  have hmax : Node.maxTestFid = 9007199254740991 := rfl
  have hlimit : Console.maxResponseBytes = 1048576 := rfl
  have hdelays : maxBlockDelaySecs = 86400 := rfl
  refine ⟨fun fid hmem => ?_, fun fid hmem => ?_, by omega, by omega, by omega⟩
  · have := hfid fid hmem
    omega
  · have := htest fid hmem
    omega

theorem accountOfJson?_accountJson {a : Node.Settings}
    (h : ∀ fid ∈ a.allowedFid, fid < 18446744073709551616) :
    accountOfJson? (accountJson a) = some a := by
  rw [accountJson, accountOfJson?, fieldsOr_record accountFields_nodup rfl]
  simp only [asOption_fidJson h]
  rfl

theorem Settings.ofJson?_toJson {K : Crates} (hK : K.Lawful) {s : Settings} (h : s.InRange) :
    ofJson? K (s.toJson K) = some s := by
  rw [toJson, ofJson?, fieldsOr_record fields_nodup rfl]
  simp only [accountOfJson?_accountJson h.allowedFid, asOption_fidJson h.testFid,
    Json.asU64_integer h.requestTimeoutMs, Json.asU64_integer h.maxResponseBytes,
    Json.asU64_integer h.maxBlockDelaySeconds, Json.asStr, asList_asStr, Farcaster.unitVariant,
    Option.bind_some, Network.ofName?_name, hK.parseAddr_addrText]
  rfl

/-- A document of this format with settings in range reads back. -/
theorem ConfigDocument.ofJson?_toJson {K : Crates} (hK : K.Lawful) {d : ConfigDocument}
    (hschema : d.schemaVersion = Console.schemaVersion)
    (hrevision : d.revision < 18446744073709551616)
    (h : d.settings.InRange) : ofJson? K (d.toJson K) = some d := by
  have hversion : d.schemaVersion < 4294967296 := by
    rw [hschema]
    decide
  rw [toJson, ofJson?, fieldsOr_record fields_nodup rfl]
  simp only [Json.asU64_integer (hversion.trans (by decide)), Json.asU64_integer hrevision,
    Settings.ofJson?_toJson hK h, Option.filter_some, decide_eq_true hversion]
  rfl

/-! ## Plain texts -/

theorem plain_natCast {n m : Nat} (h : n < 18446744073709551616) : (Json.integer n).Plain m :=
  .integer _ (by omega) (by omega)

theorem plain_optionJson {fid : Option Nat} (h : ∀ n ∈ fid, n < 18446744073709551616) (m : Nat) :
    (optionJson fidJson fid).Plain m := by
  cases fid with
  | none => exact .null _
  | some n => exact plain_natCast (h n rfl)

theorem Settings.plain_toJson (K : Crates) {s : Settings} (h : s.InRange) (n : Nat) :
    (s.toJson K).Plain (n + 2) := by
  refine Json.plain_record fun v hv => ?_
  simp only [List.mem_cons, List.not_mem_nil, or_false] at hv
  rcases hv with rfl | rfl | rfl | rfl | rfl | rfl | rfl | rfl | rfl | rfl | rfl
  · refine Json.plain_record fun v hv => ?_
    simp only [List.mem_cons, List.not_mem_nil, or_false] at hv
    rcases hv with rfl | rfl | rfl | rfl
    · exact .bool _ _
    · exact .string _ _
    · exact plain_optionJson h.allowedFid _
    · exact .string _ _
  · exact .string _ _
  · refine .array fun v hv => ?_
    obtain ⟨s, -, rfl⟩ := List.mem_map.mp hv
    exact .string _ _
  · exact .string _ _
  · exact plain_optionJson h.testFid _
  · exact plain_natCast h.requestTimeoutMs
  · exact plain_natCast h.maxResponseBytes
  · exact plain_natCast h.maxBlockDelaySeconds
  · exact .bool _ _
  · exact .string _ _
  · exact .string _ _

theorem ConfigDocument.plain_toJson (K : Crates) {d : ConfigDocument}
    (hschema : d.schemaVersion = Console.schemaVersion)
    (hrevision : d.revision < 18446744073709551616)
    (h : d.settings.InRange) : (d.toJson K).Plain 127 := by
  refine Json.plain_record fun v hv => ?_
  simp only [List.mem_cons, List.not_mem_nil, or_false] at hv
  rcases hv with rfl | rfl | rfl
  · refine plain_natCast ?_
    rw [hschema]
    decide
  · exact plain_natCast hrevision
  · exact Settings.plain_toJson K h 124

end PurpleSky.Console
