import PurpleSky.Lib.Procedure
import PurpleSky.Node.Settings

/-!
# The account service (`account.rs`)

The actions of the service on its core: the settings, the opened store, and what is only in memory.
An action is a procedure, which may fail, be given up while it waits for the network, or end with
the process before any call of the store; what it did until then is done. The clock, the network,
random values and failing statements are an argument, `Env`.

The core has a history, which no action reads: what was verified, stored as evidence and
invalidated.
-/

namespace PurpleSky.Node

open Bytes Credentials Farcaster Procedure

/-! ## Constants and failures -/

/-- Source: `account.rs`, `CHALLENGE_TTL` -/
def challengeTtl : Nat := 300

/-- Source: `account.rs`, `GRANT_TTL` -/
def grantTtl : Nat := 600

/-- Source: `account.rs`, `AUTHORITY_CACHE` -/
def authorityCache : Nat := 30

/-- Source: `account.rs`, `MAX_PENDING` -/
def maxPending : Nat := 8

/-- A status, a code and a message. Source: `account.rs`, `Failure` -/
structure Failure where
  status : Nat
  code : String
  message : String
  deriving DecidableEq, Repr

namespace Failure

def busy : Failure := ⟨429, "RateLimitExceeded", "Account service is busy; retry in a few seconds"⟩

def internal : Failure := ⟨500, "AccountStoreError", "Account state could not be safely accessed"⟩

def disabled : Failure :=
  ⟨503, "AccountLoginDisabled", "Configure and enable Farcaster login in the local management console"⟩

def unverified : Failure :=
  ⟨401, "InvalidToken", "Farcaster sign-in is missing or expired; sign in again"⟩

/-- Source: `account.rs`, `Failure::auth` -/
def auth (error : AuthError) : Failure :=
  let unavailable := error = .unavailable ∨ error = .invalidChainEvidence ∨
    error = .invalidRelayResponse
  ⟨if unavailable then 503 else 401, "FarcasterAuthFailed", error.message⟩

/-- Source: `account.rs`, `From<CredentialError> for Failure` -/
def ofError : Error → Failure
  | .persistence => internal
  | .invalidCredentials => ⟨401, "AuthenticationRequired", Error.invalidCredentials.message⟩
  | .invalidToken => ⟨401, "InvalidToken", Error.invalidToken.message⟩
  | .expiredToken => ⟨401, "ExpiredToken", Error.expiredToken.message⟩
  | .disabled => ⟨403, "AccountTakedown", Error.disabled.message⟩
  | .notBound => ⟨401, "AccountNotFound", Error.notBound.message⟩
  | .limit => ⟨429, "LimitExceeded", Error.limit.message⟩
  | .bindingConflict => ⟨409, "BindingConflict", Error.bindingConflict.message⟩
  | .invalidInput => ⟨400, "InvalidRequest", Error.invalidInput.message⟩

end Failure

/-- Why an action stops: it failed, it was given up while waiting, or the process ended. -/
inductive Halt where
  | failed (failure : Failure)
  | timedOut
  | stopped
  deriving DecidableEq, Repr

/-! ## Data -/

/-- A time of the system's clock, which counts seconds in sixty-four signed bits. -/
abbrev Time := Fin 9223372036854775808

instance Time.neZero : NeZero (9223372036854775808 : Nat) := ⟨by decide⟩

/-- Thirty-two random bytes. -/
abbrev Random := { b : Bytes // b.length = 32 }

/-- Source: `account.rs`, `random_token` -/
def randomToken (random : Random) : Bytes := hexEncode random

/-- Source: `account.rs`, `hash` -/
def hash (value : Bytes) : Bytes := hexEncode (Sha2.sha256 value)

/-- Source: `account.rs`, `fingerprint` -/
def fingerprint (identity : VerifiedIdentity) : Bytes :=
  hash (decimal identity.fid ++ str ":" ++ identity.address ++ str ":" ++ identity.custodyAddress)

/-- A sign-in that was started. Source: `account.rs`, `Pending` -/
structure Login where
  pollHash : Bytes
  challenge : Challenge
  channel : Bytes
  proof : Option SignedProof
  lastPoll : Nat
  completion : Option Json

/-- The evidence of an authority. Source: `account.rs`, `Evidence` -/
structure Evidence where
  identity : VerifiedIdentity
  proof : SignedProof
  deriving DecidableEq, Repr

/-- The field names of evidence. -/
def Evidence.names : List Bytes := [str "identity", str "proof"]

/-- The derived serialization of evidence. -/
def Evidence.toJson (e : Evidence) : Json := .record names [e.identity.toJson, e.proof.toJson]

/-- The derived reading of evidence. -/
def Evidence.ofJson? (v : Json) : Option Evidence :=
  match Json.fieldsOf false names v with
  | some [identity, proof] => do
      pure ⟨← VerifiedIdentity.ofJson? identity, ← SignedProof.ofJson? proof⟩
  | _ => none

/-- What the history of a core says. -/
inductive Deed where
  /-- An identity was verified, and the time is recorded. -/
  | verified (identity : VerifiedIdentity) (time : Nat)
  /-- Evidence was stored. -/
  | stored (identity : VerifiedIdentity)
  /-- An invalidation was called. -/
  | invalidating
  /-- An invalidation was done. -/
  | invalidated
  deriving DecidableEq, Repr

/-- Source: `account.rs`, `Core` -/
structure Core where
  settings : Settings
  jwtKey : Bytes
  db : Db
  pending : List (Bytes × Login)
  grants : List (Bytes × Nat)
  startTimes : List Nat
  passwordTimes : List Nat
  checkedAt : Option Nat
  history : List Deed

/-- Put a value under a key of a map. -/
def insertKey {α : Type} (map : List (Bytes × α)) (key : Bytes) (value : α) : List (Bytes × α) :=
  (key, value) :: map.filter fun entry => entry.1 ≠ key

/-- Change the value of a key of a map. -/
def modifyKey {α : Type} (map : List (Bytes × α)) (key : Bytes) (f : α → α) : List (Bytes × α) :=
  map.map fun entry => if entry.1 = key then (key, f entry.2) else entry

/-- Take a key out of a map. -/
def removeKey {α : Type} (map : List (Bytes × α)) (key : Bytes) : List (Bytes × α) :=
  map.filter fun entry => entry.1 ≠ key

/-! ## The environment of an action -/

/-- The calls of the store. `reload` reads the account again. -/
inductive Access where
  | account
  | evidence
  | setEvidence
  | bindVerified
  | invalidateAuthority
  | listPasswords
  | issuePassword
  | reload
  | revokePassword
  | validatePassword
  | authenticate
  | getSession
  | validateRefresh
  | refreshSession
  | deleteSession
  | didDocument
  deriving DecidableEq, Repr

/-- The readings of the clock. -/
inductive Reading where
  | entry
  | grant
  | regrant
  | authority
  | verify
  | expiry
  | checked
  | access (a : Access)
  | session
  deriving DecidableEq, Repr

/-- The operations on the network. -/
inductive Visit where
  | start
  | status
  | verify
  | recheck
  deriving DecidableEq, Repr

/-- The random values. -/
inductive Draw where
  | nonce
  | request
  | poll
  | account
  | repoKey
  | password
  | salt
  | sid
  | jti
  | accessJti
  deriving DecidableEq, Repr

/-- What an action meets. An operation on the network may be given up, and the process may end
before a call of the store. -/
structure Env where
  now : Reading → Time
  random : Draw → Random
  net : Visit → Option Net
  io : Access → Option Faults

/-! ## Steps of an action -/

/-- A procedure on a core. -/
abbrev Act := Procedure Core Halt

/-- Fail. -/
def fail {α : Type} (failure : Failure) : Act α := stop (.failed failure)

/-- Go on when a condition holds. -/
def check (c : Prop) [Decidable c] (failure : Failure) : Act Unit := require c (.failed failure)

/-- Go on with a result. -/
def attempt {α : Type} (x : Except Failure α) : Act α := lift (x.mapError .failed)

/-- Call the store. -/
def call {α : Type} (io : Option Faults)
    (f : Faults → Bytes → Db → Except Error (α × Db)) : Act α :=
  fun core =>
    match io with
    | none => (.error .stopped, core)
    | some io =>
        match f io core.jwtKey core.db with
        | .error e => (.error (.failed (.ofError e)), core)
        | .ok (a, db) => (.ok a, { core with db := db })

/-- Read the store. -/
def query {α : Type} (io : Option Faults) (f : Faults → Bytes → Db → Except Error α) : Act α :=
  call io fun io key db => do
    let a ← f io key db
    pure (a, db)

/-- Write the store. -/
def update (io : Option Faults) (f : Faults → Bytes → Db → Except Error Db) : Act Unit :=
  call io fun io key db => do
    let db ← f io key db
    pure ((), db)

/-- Wait for an operation on the network. -/
def await {α : Type} (net : Option Net) (f : Net → Except AuthError α) :
    Act (Except AuthError α) := fun core =>
  match net with
  | none => (.error .timedOut, core)
  | some net => (.ok (f net), core)

/-- Note something in the history. -/
def note (deed : Deed) : Act Unit := change fun core =>
    { core with history := deed :: core.history }

section

variable {α : Type} {Q : α → Core → Prop} {E : Halt → Core → Prop} {s : Core}

theorem wp_fail {failure : Failure} :
    wp (fail failure : Act α) Q E s ↔ E (.failed failure) s := Iff.rfl

theorem wp_check {Q : Unit → Core → Prop} {c : Prop} [Decidable c] {failure : Failure} :
    wp (check c failure) Q E s ↔ (c → Q () s) ∧ (¬c → E (.failed failure) s) := wp_require

theorem wp_attempt {x : Except Failure α} :
    wp (attempt x) Q E s ↔
      (∀ a, x = .ok a → Q a s) ∧ ∀ failure, x = .error failure → E (.failed failure) s := by
  cases x with
  | ok a => simp [wp, attempt, lift, Except.mapError]
  | error failure => simp [wp, attempt, lift, Except.mapError]

theorem wp_call {io : Option Faults} {f : Faults → Bytes → Db → Except Error (α × Db)} :
    wp (call io f) Q E s ↔ (io = none → E .stopped s) ∧ ∀ faults, io = some faults →
      (∀ a db, f faults s.jwtKey s.db = .ok (a, db) → Q a { s with db := db }) ∧
      ∀ e, f faults s.jwtKey s.db = .error e → E (.failed (.ofError e)) s := by
  cases io with
  | none => simp [wp, call]
  | some faults =>
      unfold wp call
      cases h : f faults s.jwtKey s.db with
      | ok result => simp [h, Prod.ext_iff]
      | error e => simp [h]

theorem wp_query {io : Option Faults} {f : Faults → Bytes → Db → Except Error α} :
    wp (query io f) Q E s ↔ (io = none → E .stopped s) ∧ ∀ faults, io = some faults →
      (∀ a, f faults s.jwtKey s.db = .ok a → Q a s) ∧
      ∀ e, f faults s.jwtKey s.db = .error e → E (.failed (.ofError e)) s := by
  simp only [query, wp_call, bind_eq_ok, bind_eq_error, pure_eq_ok, Prod.mk.injEq]
  refine and_congr_right fun _ => forall_congr' fun faults => forall_congr' fun _ => and_congr ?_ ?_
  · constructor
    · intro h a ha
      exact h a s.db ⟨a, ha, rfl, rfl⟩
    · rintro h _ _ ⟨a, ha, rfl, rfl⟩
      exact h a ha
  · constructor
    · intro h e he
      exact h e (.inl he)
    · rintro h e (he | ⟨a, -, he⟩)
      · exact h e he
      · cases he

theorem wp_update {Q : Unit → Core → Prop} {io : Option Faults}
    {f : Faults → Bytes → Db → Except Error Db} :
    wp (update io f) Q E s ↔ (io = none → E .stopped s) ∧ ∀ faults, io = some faults →
      (∀ db, f faults s.jwtKey s.db = .ok db → Q () { s with db := db }) ∧
      ∀ e, f faults s.jwtKey s.db = .error e → E (.failed (.ofError e)) s := by
  simp only [update, wp_call, bind_eq_ok, bind_eq_error, pure_eq_ok, Prod.mk.injEq]
  refine and_congr_right fun _ => forall_congr' fun faults => forall_congr' fun _ => and_congr ?_ ?_
  · constructor
    · intro h db hdb
      exact h () db ⟨db, hdb, trivial, rfl⟩
    · rintro h _ _ ⟨db, hdb, -, rfl⟩
      exact h db hdb
  · constructor
    · intro h e he
      exact h e (.inl he)
    · rintro h e (he | ⟨db, -, he⟩)
      · exact h e he
      · cases he

theorem wp_await {Q : Except AuthError α → Core → Prop} {net : Option Net}
    {f : Net → Except AuthError α} :
    wp (await net f) Q E s ↔
      (net = none → E .timedOut s) ∧ ∀ answers, net = some answers → Q (f answers) s := by
  cases net with
  | none => simp [wp, await]
  | some answers => simp [wp, await]

theorem wp_note {Q : Unit → Core → Prop} {deed : Deed} :
    wp (note deed) Q E s ↔ Q () { s with history := deed :: s.history } := Iff.rfl

end

variable (K : Crates) (env : Env)

/-! ## Parts of the actions -/

/-- Source: `account.rs`, `Core::client` -/
def Core.client (settings : Settings) : Except Failure AuthClient := do
  ensure (settings.enabled = true) .disabled
  let origin ← okOr (K.parseUrl settings.serviceUrl) .disabled
  (AuthClient.new K.toCrates ⟨origin.hostPort, origin.originText ++ str "/account",
    str "https://relay.farcaster.xyz", settings.optimismRpcUrl⟩).mapError .auth

/-- The text of evidence. -/
def encodeEvidence (evidence : Evidence) : Bytes := K.json.render evidence.toJson

/-- Store evidence. -/
def storeEvidence (evidence : Evidence) : Act Unit := do
  update (env.io .setEvidence) fun io _ db =>
    Store.setEvidence K.credentials io db (encodeEvidence K evidence)
  note (.stored evidence.identity)

/-- Invalidate the authority, and with it what was granted. -/
def invalidate : Act Unit := do
  note .invalidating
  update (env.io .invalidateAuthority) fun io _ db => Store.invalidateAuthority K.credentials io db
  note .invalidated
  change fun core => { core with grants := [] }

/-- Record the time of a verification. -/
def recordCheck (identity : VerifiedIdentity) (time : Nat) : Act Unit := do
  note (.verified identity time)
  change fun core => { core with checkedAt := some time }

/-- A verification is recorded that is recent. -/
def Core.isFresh (core : Core) (now : Nat) : Bool :=
  core.checkedAt.any fun time => time ≤ now && now - time < authorityCache

/-- The result of checking an authority again.
Source: `account.rs`, `Core::authority` (after `recheck_identity`) -/
def recheck (proof : SignedProof) (now : Nat) : Except AuthError VerifiedIdentity → Act Unit
  | .ok identity => do
      storeEvidence K env ⟨identity, proof⟩
      recordCheck identity now
  | .error error => do
      change fun core => { core with checkedAt := none }
      if error = .unauthorized ∨ error = .invalidSignature then invalidate K env else pure ()
      fail (.auth error)

/-- Source: `account.rs`, `Core::authority` -/
def authority : Act Unit := do
  let core ← read
  check (core.settings.enabled = true) .disabled
  let now : Nat := env.now .authority
  if core.isFresh now then pure ()
  else do
    let account ← query (env.io .account) fun io _ db => Store.account K.credentials io db
    let account ← attempt (okOr account (.ofError .notBound))
    check (account.enabled = true) (.ofError .disabled)
    let raw ← query (env.io .evidence) fun io _ db => Store.evidence io db
    let raw ← attempt (okOr raw .unverified)
    let evidence ← attempt (okOr ((K.json.parse raw).bind Evidence.ofJson?) .unverified)
    check (evidence.identity.fid = account.fid ∧ fingerprint evidence.identity = account.authority)
      .unverified
    let client ← attempt (Core.client K core.settings)
    let result ← await (env.net .recheck) fun net =>
      recheckIdentity K.toCrates client net evidence.identity evidence.proof now
    recheck K env evidence.proof now result

/-- Source: `account.rs`, `Core::grant` -/
def grant (token : Bytes) (now : Nat) : Act Unit := do
  let core ← read
  check ((core.grants.lookup (hash token)).any fun expires => now < expires)
    ⟨401, "InvalidToken", "Sign in with Farcaster again"⟩

/-- The calls left of a window, and whether there is room for another.
Source: `account.rs`, `limit` -/
def limit (times : List Nat) (now window capacity : Nat) : Bool × List Nat :=
  let times := times.filter fun time => now - time < window
  if capacity ≤ times.length then (false, times) else (true, times ++ [now])

end PurpleSky.Node
