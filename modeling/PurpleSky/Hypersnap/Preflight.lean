import PurpleSky.Console.Settings
import PurpleSky.Hypersnap.Custody
import PurpleSky.Lib.Tally

/-!
# Checking a set of nodes (`psky-hypersnap`)

`run` asks every configured node in turn and judges the answers together. What a server answers is
an event of the outside: the answers of a node are a function of the route and the query. The JSON
parser and the text of a URL are parameters, `Crates`.

* `request`, `inspectNode`: one request, and the four requests to a node.
* `summarize`: the judgement of all nodes together.
* **`isSome_run`**: a run does not panic where the parser makes texts of strings.
-/

namespace PurpleSky.Hypersnap

open Bytes Console

/-- What is used of other crates. -/
structure Crates where
  parseJson : Bytes → Option Json
  urlText : Url → Bytes

/-! ## Reports -/

/-- Source: `lib.rs`, `Compatibility` -/
inductive Compatibility where
  | compatible
  | incompatible
  | unknown
  deriving DecidableEq, Repr

/-- Source: `lib.rs`, `Failure` -/
inductive Failure where
  | timeout
  | transport
  | redirect
  | unavailable
  | httpStatus
  | oversized
  | malformed
  deriving DecidableEq, Repr

/-- Source: `lib.rs`, `RequestEvidence` -/
structure RequestEvidence where
  route : Bytes
  status : Option Nat
  responseBytes : Nat
  failure : Option Failure
  deriving DecidableEq, Repr

/-- Source: `lib.rs`, `StoreLimit` -/
structure StoreLimit where
  name : Bytes
  limit : Nat
  used : Nat
  deriving DecidableEq, Repr

/-- Source: `lib.rs`, `StorageAllocation` -/
structure StorageAllocation where
  units : Nat
  limits : List StoreLimit
  deriving DecidableEq, Repr

/-- Source: `lib.rs`, `NodeReport` -/
structure NodeReport where
  endpoint : Bytes
  info : Option NodeInfo
  reachable : Bool
  protocol : Compatibility
  network : Compatibility
  freshness : Freshness
  peerUnique : Option Bool
  healthy : Bool
  observedNetwork : Option Network
  storage : Option StorageAllocation
  authority : Option AuthorityObservation
  requests : List RequestEvidence
  deriving DecidableEq, Repr

/-- Source: `lib.rs`, `PreflightReport` -/
structure PreflightReport where
  expectedNetwork : Network
  testFid : Option Nat
  compatible : Bool
  healthy : Bool
  maxBlockDelaySeconds : Nat
  distinctPeerCount : Nat
  readyForReconstruction : Bool
  nodes : List NodeReport
  limitations : List String
  deriving DecidableEq, Repr

/-! ## Requests -/

/-- What comes back of a request: nothing, or an answer in chunks, perhaps cut off. Where something
fails, it says whether time ran out. -/
inductive Response where
  | failed (timeout : Bool)
  | reply (status : Nat) (contentLength : Option Nat) (chunks : List Bytes) (cut : Option Bool)
  deriving DecidableEq, Repr

/-- The answers of a node, by route and query. -/
abbrev Net := Bytes → List (Bytes × Bytes) → Response

/-- Source: `lib.rs`, `SUPPORTED_VERSION` -/
def supportedVersion : Bytes := str "0.13.5"

/-- Source: `lib.rs`, `classify_transport` -/
def classifyTransport (timeout : Bool) : Failure := if timeout then .timeout else .transport

/-- Source: `lib.rs`, `PreflightClient::request` (its loop): the bytes read, and the body or what
failed. -/
def readBody (maxResponseBytes : Nat) (cut : Option Bool) :
    Nat → Bytes → List Bytes → Nat × Except Failure Bytes
  | responseBytes, body, [] =>
      match cut with
      | none => (responseBytes, .ok body)
      | some timeout => (responseBytes, .error (classifyTransport timeout))
  | responseBytes, body, chunk :: chunks =>
      let responseBytes := min (responseBytes + chunk.length) 18446744073709551615
      if maxResponseBytes < responseBytes then (responseBytes, .error .oversized)
      else readBody maxResponseBytes cut responseBytes (body ++ chunk) chunks

variable (K : Crates) (config : PreflightConfig)

/-- Source: `lib.rs`, `PreflightClient::request` -/
def request (net : Net) (route : Bytes) (query : List (Bytes × Bytes)) :
    Option Json × RequestEvidence :=
  match net route query with
  | .failed timeout => (none, ⟨route, none, 0, some (classifyTransport timeout)⟩)
  | .reply status contentLength chunks cut =>
      if ¬(200 ≤ status ∧ status < 300) then
        (none, ⟨route, some status, 0, some <|
          if 300 ≤ status ∧ status < 400 then .redirect
          else if status = 404 ∨ status = 501 then .unavailable
          else .httpStatus⟩)
      else if contentLength.any fun size => config.maxResponseBytes < size then
        (none, ⟨route, some status, 0, some .oversized⟩)
      else
        match readBody config.maxResponseBytes cut 0 [] chunks with
        | (responseBytes, .error failure) =>
            (none, ⟨route, some status, responseBytes, some failure⟩)
        | (responseBytes, .ok body) =>
            match K.parseJson body with
            | some value => (some value, ⟨route, some status, responseBytes, none⟩)
            | none => (none, ⟨route, some status, responseBytes, some .malformed⟩)

/-! ## Answers -/

/-- Source: `lib.rs`, `Network::from_message` -/
def networkFromMessage (value : Json) : Option Network :=
  if value.asU64 = some 1 ∨ value.asStr = some (str "FARCASTER_NETWORK_MAINNET") then some .mainnet
  else if value.asU64 = some 2 ∨ value.asStr = some (str "FARCASTER_NETWORK_TESTNET") then
    some .testnet
  else if value.asU64 = some 3 ∨
    value.asStr = some (str "FARCASTER_NETWORK_DEVNET") then some .devnet
  else none

/-- Source: `lib.rs`, `parse_network` -/
def parseNetwork (value : Json) (fid : Nat) : Except Unit (Option Network) := do
  let messages ← okOr ((value.last (str "messages")).bind Json.asArray) ()
  match messages with
  | [] => pure none
  | [message] => do
      let data ← okOr (message.last (str "data")) ()
      let reportedFid ← okOr ((data.last (str "fid")).bind Json.asU64) ()
      ensure (reportedFid = fid) ()
      pure ((data.last (str "network")).bind networkFromMessage)
  | _ => .error ()

/-- The stores a limit may be for. -/
def storeNames : List Bytes :=
  [str "CASTS", str "LINKS", str "REACTIONS", str "USER_DATA", str "VERIFICATIONS",
    str "USERNAME_PROOFS", str "STORAGE_LENDS"]

/-- Source: `lib.rs`, `parse_storage` (its loop) -/
def parseLimits : List StoreLimit → List Json → Option (List StoreLimit)
  | limits, [] => some limits
  | limits, entry :: entries => do
      let name ← (← entry.last (str "name")).asStr
      guard (name ∈ storeNames)
      guard (¬limits.any fun limit => limit.name = name)
      let limit ← (← entry.last (str "limit")).asU64
      let used ← (← entry.last (str "used")).asU64
      parseLimits (limits ++ [⟨name, limit, used⟩]) entries

/-- Source: `lib.rs`, `parse_storage` -/
def parseStorage (value : Json) : Option StorageAllocation := do
  let units ← (← value.last (str "units")).asU64
  let entries ← (← value.last (str "limits")).asArray
  guard (entries.length ≤ 32)
  let limits ← parseLimits [] entries
  pure ⟨units, limits⟩

/-! ## A node -/

/-- Compare a value with the one that is expected. -/
def Compatibility.of (same : Bool) : Compatibility := if same then .compatible else .incompatible

/-- Add the evidence of a request, malformed where its answer was not understood. -/
def NodeReport.push (report : NodeReport) (evidence : RequestEvidence) (understood : Bool) :
    NodeReport :=
  { report with requests := report.requests ++
      [if understood then evidence else { evidence with failure := some .malformed }] }

/-- Source: `lib.rs`, `PreflightClient::inspect_node` (`/v1/info`) -/
def inspectInfo (endpoint : Url) (net : Net) : NodeReport :=
  let (value, evidence) := request K config net (str "/v1/info") []
  let report : NodeReport := ⟨K.urlText endpoint, none, evidence.status.isSome, .unknown, .unknown,
    .unknown, none, false, none, none, none, []⟩
  match value with
  | none => report.push evidence true
  | some value =>
      match parseInfo value with
      | none => report.push evidence false
      | some info =>
          { report with
            protocol := .of (info.version = supportedVersion)
            freshness := .fromInfo info config.maxBlockDelaySecs
            info := some info }.push evidence true

/-- Source: `lib.rs`, `PreflightClient::inspect_node` (`/v1/castsByFid`) -/
def inspectNetwork (fid : Nat) (net : Net) (report : NodeReport) : NodeReport :=
  let (value, evidence) := request K config net (str "/v1/castsByFid")
    [(str "fid", decimal fid), (str "pageSize", str "1")]
  match value with
  | none => report.push evidence true
  | some value =>
      match parseNetwork value fid with
      | .ok (some network) =>
          { report with
            observedNetwork := some network
            network := .of (network = config.expectedNetwork) }.push evidence true
      | .ok none => report.push evidence true
      | .error () => report.push evidence false

/-- Source: `lib.rs`, `PreflightClient::inspect_node` (`/v1/storageLimitsByFid`) -/
def inspectStorage (fid : Nat) (net : Net) (report : NodeReport) : NodeReport :=
  let (value, evidence) := request K config net (str "/v1/storageLimitsByFid")
    [(str "fid", decimal fid)]
  match value with
  | none => report.push evidence true
  | some value =>
      let storage := parseStorage value
      { report with storage := storage }.push evidence storage.isSome

/-- Source: `lib.rs`, `PreflightClient::inspect_node` (`/v1/onChainEventsByFid`). There is no report
where the reader panics. -/
def inspectAuthority (fid : Nat) (net : Net) (report : NodeReport) : Option NodeReport :=
  let (value, evidence) := request K config net (str "/v1/onChainEventsByFid")
    [(str "fid", decimal fid), (str "event_type", str "EVENT_TYPE_ID_REGISTER")]
  match value with
  | none => some (report.push evidence true)
  | some value =>
      match parseAuthority value fid with
      | .ok authority => some ({ report with authority := some authority }.push evidence true)
      | .error .nothing => some (report.push evidence false)
      | .error .panic => none

/-- Source: `lib.rs`, `PreflightClient::inspect_node` -/
def inspectNode (endpoint : Url) (net : Net) : Option NodeReport :=
  let report := inspectInfo K config endpoint net
  match config.testFid with
  | none => some report
  | some fid =>
      if report.info.isSome then
        inspectAuthority K config fid net
          (inspectStorage K config fid net (inspectNetwork K config fid net report))
      else some report

/-- The reports of the nodes, each with the answers of its own. -/
def inspectNodes (nets : Nat → Net) : Nat → List Url → Option (List NodeReport)
  | _, [] => some []
  | i, endpoint :: endpoints => do
      let node ← inspectNode K config endpoint (nets i)
      let nodes ← inspectNodes nets (i + 1) endpoints
      some (node :: nodes)

/-! ## All nodes together -/

/-- The peer identifier of a node, where it reported one. -/
def NodeReport.peerId (node : NodeReport) : Option Bytes := node.info.bind NodeInfo.peerId

/-- Source: `lib.rs`, `PreflightClient::run` (whether an identifier is unique) -/
def peerUnique (peers : BTreeMap Bytes Nat) (allPeersKnown : Bool) (node : NodeReport) :
    Option Bool :=
  node.peerId.bind fun peerId =>
    if peers[peerId]?.any fun count => 1 < count then some false
    else if allPeersKnown then some true else none

/-- Source: `lib.rs`, `PreflightClient::run` (its second loop) -/
def judge (peers : BTreeMap Bytes Nat) (allPeersKnown : Bool) (node : NodeReport) : NodeReport :=
  { node with
    peerUnique := peerUnique peers allPeersKnown node
    healthy := node.protocol = .compatible && node.network = .compatible && node.freshness = .fresh &&
      peerUnique peers allPeersKnown node = some true }

/-- Source: `lib.rs`, `PreflightClient::run` (`limitations`) -/
def limitations : List String :=
  ["Node responses and message signatures are not independently verified.",
    "Freshness uses reported timestamps; peer IDs do not prove independent operators.",
    "Farcaster account authority is not verified; allocation is only node-reported.",
    "Common chain history, ordering, finality, and complete replay remain unproved.",
    "Arbitrary ATProto record storage and large-file byte storage remain unproved."]

/-- Source: `lib.rs`, `PreflightClient::run` (after the requests) -/
def summarize (nodes : List NodeReport) : PreflightReport :=
  let compatible := nodes.all fun node => node.protocol = .compatible && node.network = .compatible
  let peers := tally (nodes.filterMap NodeReport.peerId)
  let allPeersKnown : Bool := BTreeMap.total id peers = nodes.length
  let nodes := nodes.map (judge peers allPeersKnown)
  { expectedNetwork := config.expectedNetwork
    testFid := config.testFid
    compatible := compatible
    healthy := nodes.all NodeReport.healthy
    maxBlockDelaySeconds := config.maxBlockDelaySecs
    distinctPeerCount := peers.size
    readyForReconstruction := false
    nodes := nodes
    limitations := limitations }

/-- Source: `lib.rs`, `PreflightClient::run` -/
def run (nets : Nat → Net) : Option PreflightReport :=
  (inspectNodes K config nets 0 config.endpoints).map (summarize config)

/-! ## No panic -/

variable {K config}

/-- What a request returns was read by the parser. -/
theorem exists_of_request {net : Net} {route : Bytes} {query : List (Bytes × Bytes)} {v : Json}
    (h : (request K config net route query).1 = some v) : ∃ body, K.parseJson body = some v := by
  unfold request at h
  split at h
  · cases h
  · split_ifs at h
    split at h
    · cases h
    · rename_i body _
      split at h
      · rename_i w hw
        obtain rfl := Option.some.inj h
        exact ⟨body, hw⟩
      · cases h

/-- The parser of JSON makes texts of strings. -/
def Crates.MakesTexts (K : Crates) : Prop := ∀ body v, K.parseJson body = some v → Texts v

theorem isSome_inspectAuthority (hK : K.MakesTexts) (fid : Nat) (net : Net) (report : NodeReport) :
    (inspectAuthority K config fid net report).isSome = true := by
  unfold inspectAuthority
  split
  rename_i value evidence hrequest
  cases value with
  | none => rfl
  | some v =>
      obtain ⟨body, hbody⟩ := exists_of_request (congrArg Prod.fst hrequest)
      have hthrows : Throws (· = .nothing) (parseAuthority v fid) :=
        throws_parseAuthority (hK body v hbody)
      simp only
      split
      · rfl
      · rfl
      · rename_i hpanic
        cases hthrows _ hpanic

theorem isSome_inspectNode (hK : K.MakesTexts) (endpoint : Url) (net : Net) :
    (inspectNode K config endpoint net).isSome = true := by
  unfold inspectNode
  cases config.testFid with
  | none => rfl
  | some fid =>
      simp only
      split_ifs
      · exact isSome_inspectAuthority hK fid net _
      · rfl

theorem isSome_inspectNodes (hK : K.MakesTexts) (nets : Nat → Net) (i : Nat)
    (endpoints : List Url) :
    (inspectNodes K config nets i endpoints).isSome = true := by
  induction endpoints generalizing i with
  | nil => rfl
  | cons endpoint endpoints ih =>
      have hsome : (inspectNode K config endpoint (nets i)).isSome = true :=
        isSome_inspectNode hK endpoint (nets i)
      obtain ⟨node, hnode⟩ := Option.isSome_iff_exists.mp hsome
      obtain ⟨nodes, hnodes⟩ := Option.isSome_iff_exists.mp (ih (i + 1))
      simp only [inspectNodes, hnode, hnodes, Option.bind_eq_bind, Option.bind_some]
      rfl

/-- A run does not panic. -/
theorem isSome_run (hK : K.MakesTexts) (nets : Nat → Net) : (run K config nets).isSome = true := by
  rw [run, Option.isSome_map]
  exact isSome_inspectNodes hK nets 0 config.endpoints

end PurpleSky.Hypersnap
