import PurpleSky.Lib.Machine
import PurpleSky.Node.Core

/-!
# The actions of a node

What each action of the service does, and the life of a node: it is opened on a database, acts, is
configured, and ends at any time.
-/

namespace PurpleSky.Node

open Bytes Credentials Farcaster Procedure

/-! ## Answers -/

/-- Source: `lib.rs`, `PasswordInfo` -/
def passwordJson (p : PasswordInfo) : Json :=
  .object [(str "created_at", .integer p.createdAt), (str "name", .string p.name)]

/-- Source: `lib.rs`, `SessionInfo` -/
def sessionInfoJson (s : SessionInfo) : Json :=
  .object [(str "active", .bool s.active), (str "did", .string s.did), (str "didDoc", s.didDoc),
    (str "emailAuthFactor", .bool s.emailAuthFactor),
    (str "emailConfirmed", .bool s.emailConfirmed), (str "handle", .string s.handle)]

/-- Source: `lib.rs`, `Session` -/
def sessionJson (s : Session) : Json :=
  .object [(str "accessJwt", .string s.accessJwt), (str "active", .bool s.info.active),
    (str "did", .string s.info.did), (str "didDoc", s.info.didDoc),
    (str "emailAuthFactor", .bool s.info.emailAuthFactor),
    (str "emailConfirmed", .bool s.info.emailConfirmed), (str "handle", .string s.info.handle),
    (str "refreshJwt", .string s.refreshJwt)]

/-- An issued password, with the account it is for. -/
def issuedJson (p : IssuedPassword) (account : Account) : Json :=
  .object [(str "created_at", .integer p.info.createdAt),
    (str "handle", .string account.identity.handle), (str "name", .string p.info.name),
    (str "password", .string p.password),
    (str "service_url", .string account.identity.serviceUrl)]

variable (K : Crates) (env : Env)

/-! ## Signing in -/

/-- Source: `account.rs`, `Core::execute` (`Action::Start`) -/
def start (now : Nat) : Act Json := do
  let core ← read
  let (room, times) := limit core.startTimes now 60 5
  change fun core => { core with startTimes := times }
  check (room = true) .busy
  check (core.pending.length < maxPending) .busy
  let challenge : Challenge := ⟨randomToken (env.random .nonce), now, now + challengeTtl⟩
  let client ← attempt (Core.client K core.settings)
  let channel ← await (env.net .start) fun net => Farcaster.start K.toCrates client net challenge
  let channel ← attempt (channel.mapError .auth)
  let id := randomToken (env.random .request)
  let pollToken := randomToken (env.random .poll)
  let qr ← attempt (okOr (K.qrDataUrl channel.authUrl) .internal)
  let pending : Login := ⟨hash pollToken, challenge, channel.channelToken, none, 0, none⟩
  change fun core => { core with pending := insertKey core.pending id pending }
  pure (.object [(str "auth_url", .string channel.authUrl),
    (str "expires_at", .integer challenge.expiresAt), (str "poll_token", .string pollToken),
    (str "qr_data_url", .string qr), (str "request_id", .string id)])

/-- Change a sign-in. -/
def setLogin (id : Bytes) (f : Login → Login) : Act Unit :=
  change fun core => { core with pending := modifyKey core.pending id f }

/-- Forget a sign-in. -/
def removeLogin (id : Bytes) : Act Unit :=
  change fun core => { core with pending := removeKey core.pending id }

/-- The proof of a sign-in, asked for where it is not known yet.
Source: `account.rs`, `Core::execute` (`Action::Poll`, up to `verify`) -/
def pollProof (client : AuthClient) (id : Bytes) (pending : Login) : Act (Option SignedProof) :=
  match pending.proof with
  | some proof => pure (some proof)
  | none => do
      let status ← await (env.net .status) fun net =>
        Farcaster.status K.toCrates client net pending.channel
      match ← attempt (status.mapError .auth) with
      | .pending => pure none
      | .completed proof => do
          setLogin id fun pending => { pending with proof := some proof }
          pure (some proof)

/-- Evidence is not replaced by older evidence.
Source: `account.rs`, `Core::execute` (`Action::Poll`, after `verify`) -/
def checkBlock (verified : VerifiedIdentity) : Act Unit := do
  match ← query (env.io .evidence) fun io _ db => Store.evidence io db with
  | none => pure ()
  | some raw => do
      let previous ← attempt (okOr ((K.json.parse raw).bind Evidence.ofJson?) .unverified)
      check (¬(verified.checkedBlock < previous.identity.checkedBlock ∨
        (verified.checkedBlock = previous.identity.checkedBlock ∧
          verified.blockHash ≠ previous.identity.blockHash))) (.auth .invalidChainEvidence)

/-- Invalidate another authority than the verified one. -/
def replaceAuthority (authority : Bytes) : Act Unit := do
  match ← query (env.io .account) fun io _ db => Store.account K.credentials io db with
  | some account => if account.authority ≠ authority then invalidate K env else pure ()
  | none => pure ()

/-- Bind the verified authority, with its evidence.
Source: `account.rs`, `Core::execute` (`Action::Poll`, from `fingerprint` on) -/
def bind (settings : Settings) (verified : VerifiedIdentity) (proof : SignedProof) :
    Act Account := do
  let authority := fingerprint verified
  replaceAuthority K env authority
  let identity ← attempt ((settings.identity K).mapError fun _ => .disabled)
  let account ← call (env.io .bindVerified) fun io _ db => Store.bindVerified K.credentials io db
    verified.fid authority identity (env.now (.access .bindVerified)) (env.random .repoKey)
  storeEvidence K env ⟨verified, proof⟩
  recordCheck verified (env.now .checked)
  pure account

/-- Complete a sign-in with its proof.
Source: `account.rs`, `Core::execute` (`Action::Poll`, from `verify` on) -/
def complete (settings : Settings) (client : AuthClient) (id : Bytes) (pending : Login)
    (proof : SignedProof) (now : Nat) : Act Json := do
  let verified ← await (env.net .verify) fun net =>
    verify K.toCrates client net proof pending.challenge (env.now .verify)
  let verified ← attempt (verified.mapError .auth)
  if pending.challenge.expiresAt ≤ (env.now .expiry : Nat) then do
    removeLogin id
    fail .unverified
  else if settings.allowedFid ≠ some verified.fid then do
    removeLogin id
    fail ⟨403, "AccountNotAllowed", "This FID is not permitted on this node"⟩
  else do
    checkBlock K env verified
    let account ← bind K env settings verified proof
    let accountToken := randomToken (env.random .account)
    change fun core => { core with
      grants := insertKey core.grants (hash accountToken) (now + grantTtl) }
    let response := Json.object [(str "account_token", .string accountToken),
      (str "expires_at", .integer (now + grantTtl : Nat)), (str "fid", .integer account.fid),
      (str "handle", .string account.identity.handle),
      (str "service_url", .string account.identity.serviceUrl),
      (str "status", .string (str "complete"))]
    setLogin id fun pending => { pending with
      proof := none, channel := [], completion := some response }
    pure response

/-- Source: `account.rs`, `Core::execute` (`Action::Poll`) -/
def poll (id token : Bytes) (now : Nat) : Act Json := do
  let core ← read
  let client ← attempt (Core.client K core.settings)
  let pending ← attempt (okOr (core.pending.lookup id) .unverified)
  check (hash token = pending.pollHash) .unverified
  match pending.completion with
  | some completion => pure completion
  | none => do
      check (2 ≤ now - pending.lastPoll) .busy
      setLogin id fun pending => { pending with lastPoll := now }
      match ← pollProof K env client id pending with
      | none => pure (.object [(str "status", .string (str "pending"))])
      | some proof => complete K env core.settings client id pending proof now

/-! ## Passwords and sessions -/

/-- A granted account, checked again.
Source: `account.rs`, `Core::execute` (`Action::Passwords` and `Action::Issue`) -/
def granted (token : Bytes) : Act Unit := do
  grant token (env.now .grant)
  authority K env
  grant token (env.now .regrant)

/-- Source: `account.rs`, `Core::execute` (`Action::Passwords`) -/
def passwords (token : Bytes) : Act Json := do
  granted K env token
  let passwords ← query (env.io .listPasswords) fun io _ db => Store.listPasswords io db
  pure (.object [(str "passwords", .array (passwords.map passwordJson))])

/-- Source: `account.rs`, `Core::execute` (`Action::Issue`) -/
def issue (token name : Bytes) : Act Json := do
  granted K env token
  let issued ← call (env.io .issuePassword) fun io _ db => Store.issuePassword K.credentials io db
    name (env.now (.access .issuePassword)) (env.random .password) (env.random .salt)
  let account ← query (env.io .reload) fun io _ db => Store.account K.credentials io db
  let account ← attempt (okOr account (.ofError .notBound))
  pure (issuedJson issued account)

/-- Source: `account.rs`, `Core::execute` (`Action::Revoke`) -/
def revoke (token name : Bytes) : Act Json := do
  grant token (env.now .grant)
  update (env.io .revokePassword) fun io _ db => Store.revokePassword io db name
  pure (.object [])

/-- Source: `account.rs`, `Core::execute` (`Action::Login`) -/
def login (identifier password : Bytes) (now : Nat) : Act Json := do
  let core ← read
  let (room, times) := limit core.passwordTimes now 60 20
  change fun core => { core with passwordTimes := times }
  check (room = true) .busy
  query (env.io .validatePassword) fun io _ db =>
    Store.validatePassword K.credentials io db identifier password
  authority K env
  let session ← call (env.io .authenticate) fun io key db => Store.authenticate K.credentials io key
    db identifier password (env.now (.access .authenticate)) (randomToken (env.random .sid))
    (randomToken (env.random .jti)) (randomToken (env.random .accessJti))
  pure (sessionJson session)

/-- Read a session.
Source: `account.rs`, `Core::execute` (`Store::get_session`) -/
def readSession (token : Bytes) : Act SessionInfo :=
  query (env.io .getSession) fun io key db => Store.getSession K.credentials io key db token
    (env.now (.access .getSession)) (env.now .session)

/-- Source: `account.rs`, `Core::execute` (`Action::Session`) -/
def session (token : Bytes) : Act Json := do
  let session ← readSession K env token
  authority K env
  pure (sessionInfoJson session)

/-- Source: `account.rs`, `Core::execute` (`Action::Refresh`) -/
def refresh (token : Bytes) : Act Json := do
  let _ ← query (env.io .validateRefresh) fun io key db =>
    Store.validateRefresh K.credentials io key
    db token (env.now (.access .validateRefresh))
  authority K env
  let session ← call (env.io .refreshSession) fun io key db => Store.refreshSession K.credentials io
    key db token (env.now (.access .refreshSession)) (randomToken (env.random .jti))
    (randomToken (env.random .accessJti))
  pure (sessionJson session)

/-- Source: `account.rs`, `Core::execute` (`Action::Logout`) -/
def logout (token : Bytes) : Act Json := do
  update (env.io .deleteSession) fun io key db => Store.deleteSession K.credentials io key db token
    (env.now (.access .deleteSession))
  pure (.object [])

/-- Source: `account.rs`, `Core::execute` (`Action::Preferences`) -/
def preferences (token : Bytes) : Act Json := do
  let _ ← readSession K env token
  authority K env
  pure (.object [(str "preferences", .array [])])

/-! ## Descriptions -/

/-- Source: `account.rs`, `Core::execute` (`Action::Describe`) -/
def describe : Act Json := do
  let core ← read
  let identity ← attempt ((core.settings.identity K).mapError fun _ => .disabled)
  pure (.object [(str "availableUserDomains", .array []), (str "did", .string identity.serviceDid),
    (str "inviteCodeRequired", .bool true)])

/-- Source: `account.rs`, `Core::execute` (`Action::Did`) -/
def did : Act Json :=
  query (env.io .didDocument) fun io _ db => Store.storeDidDocument K.credentials io db

/-! ## Executing -/

/-- Source: `account.rs`, `Action` -/
inductive Action where
  | start
  | poll (id token : Bytes)
  | passwords (token : Bytes)
  | issue (token name : Bytes)
  | revoke (token name : Bytes)
  | login (identifier password : Bytes)
  | session (token : Bytes)
  | refresh (token : Bytes)
  | logout (token : Bytes)
  | describe
  | did
  | preferences (token : Bytes)
  deriving DecidableEq, Repr

/-- What an action does, at the time it began.
Source: `account.rs`, `Core::execute` (its match) -/
def Action.run (now : Nat) : Action → Act Json
  | .start => Node.start K env now
  | .poll id token => Node.poll K env id token now
  | .passwords token => Node.passwords K env token
  | .issue token name => Node.issue K env token name
  | .revoke token name => Node.revoke env token name
  | .login identifier password => Node.login K env identifier password now
  | .session token => Node.session K env token
  | .refresh token => Node.refresh K env token
  | .logout token => Node.logout K env token
  | .describe => Node.describe K
  | .did => Node.did K env
  | .preferences token => Node.preferences K env token

/-- Forget what has expired. -/
def expire (now : Nat) : Act Unit :=
  change fun core => { core with
    pending := core.pending.filter fun entry => now < entry.2.challenge.expiresAt
    grants := core.grants.filter fun entry => now < entry.2 }

/-- Source: `account.rs`, `Core::execute` -/
def execute (action : Action) : Act Json := do
  let core ← read
  check (core.settings.enabled = true) .disabled
  expire (env.now .entry)
  action.run K env (env.now .entry)

/-! ## Configuration -/

/-- Whether a bound account has these settings' identifier and identity. -/
def Settings.fits (settings : Settings) (account : Account) : Bool :=
  settings.allowedFid = some account.fid &&
    match settings.identity K with
    | .ok identity => identity = account.identity
    | .error _ => false

/-- Source: `account.rs`, `ConfigurationGuard::check` -/
def Core.checkSettings (core : Core) (settings : Settings) (io : Faults) : Bool :=
  match settings.validate K, Store.account K.credentials io core.db with
  | .ok _, .ok none => true
  | .ok _, .ok (some account) => settings.fits K account
  | _, _ => false

/-- Source: `account.rs`, `ConfigurationGuard::apply` -/
def Core.apply (core : Core) (settings : Settings) : Core :=
  if core.settings = settings then core
  else { core with settings := settings, pending := [], grants := [], checkedAt := none }

/-! ## The life of a node -/

/-- A node: its database while no process has it open, or the core of its process. -/
inductive Process where
  | stopped (db : Db) (history : List Deed)
  | running (core : Core)

/-- A node on a database that nobody has opened. -/
def Process.init : Process := .stopped .empty []

/-- What happens to a node. New settings take effect when they were saved. -/
inductive Event where
  | opening (settings : Settings) (random : Random) (io reload : Faults)
  | action (action : Action) (env : Env)
  | configure (settings : Settings) (io : Faults) (saved : Bool)
  | stop

/-- What a node answers. `idle` is for events that cannot happen. -/
inductive Reply where
  | idle
  | opened
  | refused
  | configured
  | ok (value : Json)
  | failed (failure : Failure)
  | stopped

/-- Source: `account.rs`, `AccountNode::open` -/
def openNode (db : Db) (history : List Deed) (settings : Settings) (random : Random)
    (io reload : Faults) : Process × Reply :=
  match settings.validate K with
  | .error _ => (.stopped db history, .refused)
  | .ok _ =>
      match Store.openKey io db random with
      | .error _ => (.stopped db history, .refused)
      | .ok (key, db) =>
          match Store.openCheck K.credentials io db, Store.account K.credentials reload db with
          | .ok _, .ok account =>
              if account.all (settings.fits K) then
                (.running ⟨settings, key, db, [], [], [], [], none, history⟩, .opened)
              else (.stopped db history, .refused)
          | _, _ => (.stopped db history, .refused)

/-- An action that has the lock of the core. One that finds it taken by another is answered as busy,
with nothing changed: that branch of `try_lock` is in `Console.Front.execute`, where requests overlap.
Source: `account.rs`, `AccountNode::execute` -/
def executeNode (core : Core) (action : Action) (env : Env) : Process × Reply :=
  match execute K env action core with
  | (.ok value, core) => (.running core, .ok value)
  | (.error (.failed failure), core) => (.running core, .failed failure)
  | (.error .timedOut, core) => (.running core, .failed (.auth .unavailable))
  | (.error .stopped, core) => (.stopped core.db core.history, .stopped)

/-- The node after an event, and its answer. -/
def Process.step (node : Process) (event : Event) : Process × Reply :=
  match node, event with
  | .stopped db history, .opening settings random io reload =>
      openNode K db history settings random io reload
  | .running core, .action action env => executeNode K core action env
  | .running core, .configure settings io saved =>
      if core.checkSettings K settings io then
        (.running (if saved then core.apply settings else core), .configured)
      else (.running core, .refused)
  | .running core, .stop => (.stopped core.db core.history, .stopped)
  | node, _ => (node, .idle)

/-- Nodes as a machine. -/
def nodes : Machine Process Event Reply := ⟨Process.step K⟩

end PurpleSky.Node
