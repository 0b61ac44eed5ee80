import PurpleSky.Console.Guard
import PurpleSky.Console.Serving

/-!
# Both listeners of a server

A public request passes the guard of the portal and waits until its action is executed; anything may
come in between, other requests and new settings among them. A request to the console passes its
guard and is handled under the lock of the console. What no request does is as before: the server is
started and stopped, and the supervisors of its diagnostics go on.

* `Front.step`: what comes of a request.
-/

namespace PurpleSky.Console

open Bytes Node Http Machine

/-! ## Requests under way -/

/-- A public request that was admitted, with what it waits for. -/
structure Waiting where
  request : Request
  task : Task

/-- A server with the requests that are under way. -/
structure Front where
  server : Server
  waiting : List Waiting
  log : AccountLog

/-- What a request to the console meets. -/
structure AdminEnv where
  locked : Bool
  read : Credentials.Faults
  fs : Fs
  io : Credentials.Faults
  logged : Nat
  killed : Bool
  builds : PreflightConfig → Bool
  startedAt : Nat

/-- What happens to the listeners of a server. `locked` says that another request has the lock of
the account service. -/
inductive Arrival where
  | inner (event : ServerEvent)
  | arrival (request : Request) (locked : Bool)
  | execute (place : Nat) (locked : Bool) (env : Env) (read : Credentials.Faults) (now : Nat)
  | admin (request : Request) (env : AdminEnv)

/-- What is sent. `lost` is for a process that ends before it answers, `elsewhere` for a path that is
not of the portal, and `idle` for events that cannot happen. -/
inductive Sent where
  | idle
  | inner (reply : ServerReply)
  | elsewhere
  | waits
  | answer (answer : Answer)
  | admin (answer : AdminAnswer)
  | lost

/-- An event that is not part of a request. -/
def ServerEvent.isInner : ServerEvent → Bool
  | boot _ _ _ _ _ _ _ _ => true
  | console (.finish _ _ _ _) => true
  | console .drain => true
  | console (.advance _ _) => true
  | stop => true
  | _ => false

variable (K : Crates) (token : Bytes)

/-- An event of the server. What waits is lost when its process ends. -/
def Front.advance (front : Front) (event : ServerEvent) : Front × ServerReply :=
  match front.server.step K event with
  | (.running listeners console core, reply) => ({ front with
      server := .running listeners console core }, reply)
  | (.stopped disk db history, reply) => (⟨.stopped disk db history, [], ⟨[], 1⟩⟩, reply)

/-- A field of the state of the account service that is true. -/
def isSet (account : Json) (name : String) : Bool :=
  (account.get (str name)).bind Json.asBool = some true

/-- Source: `server.rs`, `status` (`account_binding`) -/
def bindingText (account : Json) : String :=
  if isSet account "busy" then "Account check in progress"
  else if isSet account "bound" then "Farcaster-bound account"
  else if isSet account "enabled" then "Awaiting Farcaster sign-in"
  else "Login disabled"

/-- Source: `server.rs`, `status` -/
def adminStatus (listeners : Listeners) (console : ConsoleState) (core : Core) (env : AdminEnv) :
    StatusResponse :=
  let control := console.control
  let document := control.store.document
  let account := nodeStatus K env.read core env.locked
  ⟨document.settings.nodeName, document.revision, listeners.restartRequired document.settings,
    control.shuttingDown, bindingText account, account, control.active, control.lastCheckAt,
    control.preflightRevision, control.labRevision, control.preflight, control.lab⟩

/-- A response of the console as it is sent. -/
def sendAdmin (request : Request) (answer : AdminAnswer) : Sent :=
  .admin ((if request.method = .head then { answer with body := .empty } else answer).withHeaders
    consoleHeaders)

/-- Source: `server.rs`, `logs` (with its query) -/
def logsAnswer (journal : Journal) (query : Option (Nat × Nat)) : AdminAnswer :=
  match query with
  | none => failure ⟨400, "InvalidCursor", "Use integer after and limit parameters"⟩
  | some (after, limit) =>
      match logs journal after limit with
      | .ok page => ⟨200, jsonType, .logs page⟩
      | .error refusal => failure refusal

/-- The response to a request that the console carried out. A process that ended does not respond. -/
def adminReply : ServerReply → Option AdminAnswer
  | .updated (.ok config) => some ⟨200, jsonType, .config config⟩
  | .updated (.error refusal) => some (failure refusal)
  | .console (.accepted operation) => some ⟨202, jsonType, .accepted operation⟩
  | .console (.refused refusal) => some (failure refusal)
  | _ => none

/-- A request that the console carries out. -/
def Front.carryOut (front : Front) (request : Request) (event : ServerEvent) : Front × Sent :=
  match front.advance K event with
  | (front, reply) =>
      match adminReply reply with
      | some answer => (front, sendAdmin request answer)
      | none => (front, .lost)

/-- The handler of an admitted request. Source: `server.rs`, `admin_router` -/
def Front.handle (front : Front) (listeners : Listeners) (console : ConsoleState) (core : Core)
    (request : Request) (env : AdminEnv) : AdminTask → Front × Sent
  | .answer answer => (front, sendAdmin request answer)
  | .status =>
      (front, sendAdmin request ⟨200, jsonType, .status (adminStatus K listeners console core env)⟩)
  | .config =>
      (front, sendAdmin request ⟨200, jsonType, .config (listeners.configResponse console.control)⟩)
  | .logs query => (front, sendAdmin request (logsAnswer console.control.journal query))
  | .events =>
      (front, sendAdmin request ⟨200, jsonType, .events env.locked
        (if env.locked then [] else front.log.events)⟩)
  | .operations =>
      (front, sendAdmin request
        ⟨200, jsonType, .operations console.control.active console.control.recent⟩)
  | .update input => front.carryOut K request (.update input env.fs env.io env.logged env.killed)
  | .start kind =>
      front.carryOut K request (.console (.start kind env.builds env.startedAt env.logged))

/-- Source: `server.rs`, `protect` (its failures) -/
def refusals : Verdict → Option Refusal
  | .forbidden => some ⟨403, "Forbidden", "Use the local console origin"⟩
  | .unauthorized => some ⟨401, "AuthenticationRequired", "Provide the local admin bearer token"⟩
  | .admitted => none

/-- A task that waits is done. -/
def Front.execute (front : Front) (waiting : Waiting) (core : Core) (locked : Bool) (env : Env)
    (read : Credentials.Faults) (now : Nat) : Front × Sent :=
  match waiting.task.action with
  | none => (front, .answer (finish waiting.request
      (jsonAnswer 200 (nodeStatus K read core locked))))
  | some action =>
      if locked then (front, .answer (finish waiting.request (intoResponse .busy)))
      else
        match front.advance K (.action action env) with
        | (front, .acted reply) =>
            match waiting.task.respond reply with
            | some answer =>
                ({ front with log := front.log.push action reply now },
                  .answer (finish waiting.request answer))
            | none => (front, .lost)
        | (front, _) => (front, .idle)

/-- What comes of an event at the listeners. -/
def Front.step (front : Front) (event : Arrival) : Front × Sent :=
  match event with
  | .inner event =>
      if event.isInner then
        match front.advance K event with
        | (front, reply) => (front, .inner reply)
      else (front, .idle)
  | .arrival request locked =>
      match front.server, Route.ofPath request.path with
      | .running listeners _ core, some route =>
          match arrive K listeners.publicAddr core.settings locked request route with
          | .answered answer => (front, .answer answer)
          | .waits task => ({ front with waiting := front.waiting ++ [⟨request, task⟩] }, .waits)
      | .running _ _ _, none => (front, .elsewhere)
      | .stopped _ _ _, _ => (front, .idle)
  | .execute place locked env read now =>
      match front.server, front.waiting[place]? with
      | .running _ _ core, some waiting =>
          { front with waiting := front.waiting.eraseIdx place }.execute K waiting core locked env read
            now
      | _, _ => (front, .idle)
  | .admin request env =>
      match front.server with
      | .running listeners console core =>
          match refusals (protect K listeners.adminAddr token request) with
          | some refusal => (front, sendAdmin request (failure refusal))
          | none => front.handle K listeners console core request env (adminTask K request)
      | .stopped _ _ _ => (front, .idle)

/-- The listeners of a server as a machine. -/
def fronts : Machine Front Arrival Sent := ⟨Front.step K token⟩

/-- A server that nobody has started, on its data directory. -/
def Front.init (disk : Disk) : Front := ⟨.stopped disk .empty [], [], ⟨[], 1⟩⟩

/-- A step of the listeners. -/
abbrev FrontEntry := Machine.Entry Front Arrival Sent

end PurpleSky.Console
