import PurpleSky.Lib.Http
import PurpleSky.Node.Maps
import PurpleSky.Console.Control

/-!
# The account portal (`account.rs`)

The routes of the account service on the public listener: what a request may ask for, and the guard
in front of all of them. The guard reads the settings, under the lock of the service; the action of
a request is executed later, under the lock again.

* **`allowed_iff`**: which hosts and origins the guard lets through.
* **`asks_of_plan`**: what an admitted request that waits asks for.
* **`sealed_harden`**: what the guard writes into a response.
-/

namespace PurpleSky.Console

open Bytes Node Http

/-! ## Responses -/

/-- The body of a response. A text of the framework is not modelled. -/
inductive Body where
  | empty
  | asset (file : String)
  | text (s : Bytes)
  | json (v : Json)
  | framework

/-- A response of the portal. -/
abbrev Answer := Response Body

/-- A JSON response. -/
def jsonAnswer (status : Nat) (v : Json) : Answer :=
  ⟨status, [(str "content-type", str "application/json")], .json v⟩

/-- Source: `account.rs`, `IntoResponse for Failure` -/
def intoResponse (failure : Failure) : Answer :=
  jsonAnswer failure.status (.object [(str "error", .string (str failure.code)),
    (str "message", .string (str failure.message))])

/-- A file of the portal. -/
def assetAnswer (contentType file : String) : Answer :=
  ⟨200, [(str "content-type", str contentType)], .asset file⟩

/-! ## Inputs -/

/-- Source: `account.rs`, `bearer` -/
def bearer (headers : Headers) : Except Failure Bytes :=
  match (headers.text (str "authorization")).bind (stripPrefix (str "Bearer ")) with
  | some token => if token ≠ [] ∧ token.length ≤ 8192 then .ok token else .error .unverified
  | none => .error .unverified

/-- Source: `account.rs`, `json_input` (its failure) -/
def badInput : Failure := ⟨400, "InvalidRequest", "Expected a bounded JSON request"⟩

/-- Source: `account.rs`, `json_input` -/
def jsonInput {α : Type} (read : Json → Option α) (request : Request) : Except Failure α :=
  okOr (request.json.bind read) badInput

/-- Any object. -/
def anyObject : Json → Option Unit
  | .object _ => some ()
  | _ => none

/-- The name of a password. Source: `account.rs`, `PasswordName` -/
def passwordName (v : Json) : Option Bytes :=
  match Json.fieldsOf true [str "name"] v with
  | some [name] => name.asStr
  | _ => none

/-- Source: `account.rs`, `Login` -/
structure LoginInput where
  identifier : Bytes
  password : Bytes
  allowTakendown : Bool
  authFactorToken : Option Bytes

/-- The fields of a login, and the default of what may be left out. -/
def LoginInput.fields : List (Bytes × Option Json) :=
  [(str "identifier", none), (str "password", none), (str "allowTakendown", some (.bool false)),
    (str "authFactorToken", some .null)]

/-- An array with the defaults of the fields that it leaves out at its end. -/
def padded (fields : List (Bytes × Option Json)) : Json → Json
  | .array values => .array (values ++ (fields.drop values.length).filterMap Prod.snd)
  | v => v

/-- The derived reading of a login. -/
def LoginInput.ofJson? (v : Json) : Option LoginInput :=
  match fieldsOr fields (padded fields v) with
  | some [identifier, password, takendown, factor] => do
      pure ⟨← identifier.asStr, ← password.asStr, ← takendown.asBool,
        ← asOption Json.asStr factor⟩
  | _ => none

/-! ## Routes -/

/-- The routes of the portal. -/
inductive Route where
  | page
  | script
  | style
  | status
  | login
  | poll (id : Bytes)
  | passwords
  | describeServer
  | createSession
  | getSession
  | refreshSession
  | deleteSession
  | getPreferences
  | didJson
  | atprotoDid
  deriving DecidableEq, Repr

/-- The part of a path that stands for a parameter: one segment. -/
def segment (front path : Bytes) : Option Bytes :=
  match stripPrefix front path with
  | some rest => if rest ≠ [] ∧ !rest.contains 47 then some rest else none
  | none => none

/-- The routes without a parameter. Source: `account.rs`, `router` -/
def Route.fixed : List (Bytes × Route) :=
  [(str "/account", page), (str "/account.js", script), (str "/account.css", style),
    (str "/account/status", status), (str "/account/login", login),
    (str "/account/passwords", passwords),
    (str "/xrpc/com.atproto.server.describeServer", describeServer),
    (str "/xrpc/com.atproto.server.createSession", createSession),
    (str "/xrpc/com.atproto.server.getSession", getSession),
    (str "/xrpc/com.atproto.server.refreshSession", refreshSession),
    (str "/xrpc/com.atproto.server.deleteSession", deleteSession),
    (str "/xrpc/app.bsky.actor.getPreferences", getPreferences),
    (str "/.well-known/did.json", didJson), (str "/.well-known/atproto-did", atprotoDid)]

/-- The route of a path. Source: `account.rs`, `router` -/
def Route.ofPath (path : Bytes) : Option Route :=
  match fixed.lookup path with
  | some route => some route
  | none => (segment (str "/account/login/") path).map poll

/-- What an admitted request waits for. -/
inductive Task where
  | act (action : Action)
  | atprotoDid
  | status

/-- What the handler of a request does: answer, or wait for the account service. -/
inductive Plan where
  | answer (answer : Answer)
  | task (task : Task)

/-- A handler whose input may be missing. Source: `account.rs`, `respond` -/
def Plan.act (action : Except Failure Action) : Plan :=
  match action with
  | .ok action => .task (.act action)
  | .error failure => .answer (intoResponse failure)

/-- The name of the method is not among those of the route. -/
def notAllowed (methods : String) : Plan :=
  .answer ⟨405, [(str "allow", str methods)], .empty⟩

/-- A handler of `GET` requests, which takes `HEAD` requests as well. -/
def onGet (request : Request) (plan : Plan) : Plan :=
  match request.method with
  | .get => plan
  | .head => plan
  | _ => notAllowed "GET,HEAD"

/-- A handler of `POST` requests. -/
def onPost (request : Request) (plan : Plan) : Plan :=
  match request.method with
  | .post => plan
  | _ => notAllowed "POST"

/-- Source: `account.rs`, `router` (`/account/login/{id}`) -/
def pollPlan (id : Bytes) (request : Request) : Plan :=
  let id := percentDecode id
  if isUtf8 id then .act do
    let token ← bearer request.headers
    pure (.poll id token)
  else .answer ⟨400, [], .framework⟩

/-- Source: `account.rs`, `router` (`/account/passwords`) -/
def passwordsPlan (request : Request) : Plan :=
  match request.method with
  | .get => .act ((bearer request.headers).map .passwords)
  | .head => .act ((bearer request.headers).map .passwords)
  | .post => .act do
      let name ← jsonInput passwordName request
      let token ← bearer request.headers
      pure (.issue token name)
  | .delete => .act do
      let name ← jsonInput passwordName request
      let token ← bearer request.headers
      pure (.revoke token name)
  | _ => notAllowed "GET,HEAD,POST,DELETE"

/-- Source: `account.rs`, `router` (`com.atproto.server.createSession`) -/
def createSessionPlan (request : Request) : Plan :=
  .act do
    let login ← jsonInput LoginInput.ofJson? request
    ensure (login.authFactorToken.all fun token => token.isEmpty)
      ⟨400, "InvalidRequest", "Email authentication factors are not supported"⟩
    pure (.login login.identifier login.password)

/-- What the handler of a route does. Source: `account.rs`, `router` -/
def Route.plan (request : Request) : Route → Plan
  | page => onGet request (.answer (assetAnswer "text/html; charset=utf-8" "account.html"))
  | script => onGet request (.answer (assetAnswer "text/javascript; charset=utf-8" "account.js"))
  | style => onGet request (.answer (assetAnswer "text/css; charset=utf-8" "account.css"))
  | status => onGet request (.task .status)
  | login => onPost request (.act ((jsonInput anyObject request).map fun _ => .start))
  | poll id => onGet request (pollPlan id request)
  | passwords => passwordsPlan request
  | describeServer => onGet request (.task (.act .describe))
  | createSession => onPost request (createSessionPlan request)
  | getSession => onGet request (.act ((bearer request.headers).map .session))
  | refreshSession => onPost request (.act ((bearer request.headers).map .refresh))
  | deleteSession => onPost request (.act ((bearer request.headers).map .logout))
  | getPreferences => onGet request (.act ((bearer request.headers).map .preferences))
  | didJson => onGet request (.task (.act .did))
  | atprotoDid => onGet request (.task .atprotoDid)

/-- The body of a response to a `HEAD` request is left out. -/
def strip (request : Request) (answer : Answer) : Answer :=
  if request.method = .head then { answer with body := .empty } else answer

/-! ## The log -/

/-- An event of the account service. Source: `account.rs`, `AccountNode::execute` (`event`) -/
structure AccountEvent where
  sequence : Nat
  time : Nat
  event : String
  result : String
  deriving DecidableEq, Repr

/-- The events of the account service, of which the last hundred are kept, and the number of the
next one. Source: `account.rs`, `Core` (`events`, `next_event`) -/
structure AccountLog where
  events : List AccountEvent
  next : Nat

/-- Source: `account.rs`, `Action::label` -/
def actionLabel : Action → String
  | .start => "farcaster_login_start"
  | .poll _ _ => "farcaster_login_poll"
  | .passwords _ => "password_list"
  | .issue _ _ => "password_issue"
  | .revoke _ _ => "password_revoke"
  | .login _ _ => "session_login"
  | .session _ => "session_check"
  | .refresh _ => "session_refresh"
  | .logout _ => "session_logout"
  | .describe => "server_description"
  | .did => "identity_read"
  | .preferences _ => "preferences_read"

/-- What an event tells of a reply. -/
def replyLabel : Node.Reply → String
  | .failed failure => failure.code
  | _ => "ok"

/-- Source: `account.rs`, `AccountNode::execute` (after the action) -/
def AccountLog.push (log : AccountLog) (action : Action) (reply : Node.Reply) (now : Nat) :
    AccountLog where
  events := (if log.events.length = 100 then log.events.tail else log.events) ++
    [⟨log.next, now, actionLabel action, replyLabel reply⟩]
  next := min (log.next + 1) 18446744073709551615

/-! ## The guard -/

/-- Source: `account.rs`, `security` (`xrpc`) -/
def isXrpc (path : Bytes) : Bool :=
  (stripPrefix (str "/xrpc/") path).isSome || (stripPrefix (str "/.well-known/") path).isSome

/-- The texts of a listener of this machine. -/
def isLocalHost (K : Crates) (listener : SocketAddr) (host : Bytes) : Bool :=
  host = K.addrText listener || host = str "localhost:" ++ decimal listener.port.toNat

/-- Source: `account.rs`, `security` (`allowed`) -/
def allowed (K : Crates) (listener : SocketAddr) (settings : Node.Settings) (request : Request) :
    Bool :=
  let canonical := K.parseUrl settings.serviceUrl
  let host := (request.headers.text (str "host")).getD []
  let localHost := isLocalHost K listener host
  let sameOrigin := match request.headers.text (str "origin") with
    | none => true
    | some value => canonical.any (fun url => value = url.originText) ||
        (localHost && value = str "http://" ++ host)
  (localHost || canonical.any fun url => url.hostPort = host) && (isXrpc request.path || sameOrigin)

/-- Source: `account.rs`, `security` (its failure) -/
def forbidden : Failure := ⟨403, "Forbidden", "Use the configured account origin"⟩

/-- Source: `account.rs`, `harden` (the policy of the content) -/
def contentPolicy : String :=
  "default-src 'none'; script-src 'self'; style-src 'self'; connect-src 'self'; " ++
  "img-src 'self' data:; base-uri 'none'; frame-ancestors 'none'; form-action 'none'"

/-- The headers that are written into every response. -/
def safeHeaders : List (Bytes × Bytes) :=
  [(str "cache-control", str "no-store"), (str "x-content-type-options", str "nosniff"),
    (str "referrer-policy", str "no-referrer"), (str "content-security-policy", str contentPolicy)]

/-- The headers that let any site read a response. -/
def sharedHeaders : List (Bytes × Bytes) :=
  [(str "access-control-allow-origin", str "*"),
    (str "access-control-allow-methods", str "GET, POST, OPTIONS"),
    (str "access-control-allow-headers",
      str "Authorization, Content-Type, atproto-proxy, atproto-accept-labelers")]

/-- Source: `account.rs`, `harden` -/
def harden (xrpc : Bool) (answer : Answer) : Answer :=
  answer.withHeaders (safeHeaders ++ if xrpc then sharedHeaders else [])

/-- A response as it is sent. -/
def finish (request : Request) (answer : Answer) : Answer :=
  harden (isXrpc request.path) (strip request answer)

@[simp] theorem status_finish (request : Request) (answer : Answer) :
    (finish request answer).status = answer.status := by
  unfold finish harden strip
  rw [Response.status_withHeaders]
  split_ifs
  · rfl
  · rfl

/-- What comes of a request: a response, or a task that waits. -/
inductive Arrived where
  | answered (answer : Answer)
  | waits (task : Task)

/-- The guard and the handler behind it, up to the call of the account service. `locked` says that
another request has the lock of the service. Source: `account.rs`, `security` -/
def arrive (K : Crates) (listener : SocketAddr) (settings : Node.Settings) (locked : Bool)
    (request : Request) (route : Route) : Arrived :=
  let xrpc := isXrpc request.path
  if locked then .answered (harden xrpc (intoResponse .busy))
  else if !allowed K listener settings request then .answered (harden xrpc (intoResponse forbidden))
  else if xrpc && request.method = .options then .answered (harden xrpc ⟨204, [], .empty⟩)
  else match route.plan request with
    | .answer answer => .answered (finish request answer)
    | .task task => .waits task

/-! ## Tasks -/

/-- Source: `account.rs`, `Core::status` -/
def coreStatus (K : Crates) (io : Credentials.Faults) (core : Core) : Json :=
  let account := match Credentials.Store.account K.toNode.credentials io core.db with
    | .ok account => account
    | .error _ => none
  let handle := match core.settings.identity K.toNode with
    | .ok identity => some identity.handle
    | .error _ => none
  .object [(str "account_enabled", .bool (account.any fun a => a.enabled)),
    (str "authority_checked_at", optionJson (fun time => .integer (time : Nat)) core.checkedAt),
    (str "bound", .bool account.isSome), (str "enabled", .bool core.settings.enabled),
    (str "fid", optionJson (fun a => .integer (a.fid : Nat)) account),
    (str "handle", optionJson .string handle),
    (str "service_url", .string core.settings.serviceUrl), (str "signer_ready", .bool false),
    (str "storage_ready", .bool false)]

/-- Source: `account.rs`, `AccountNode::status` -/
def nodeStatus (K : Crates) (io : Credentials.Faults) (core : Core) (locked : Bool) : Json :=
  if locked then .object [(str "busy", .bool true), (str "signer_ready", .bool false),
    (str "storage_ready", .bool false)]
  else coreStatus K io core

/-- The action of a task. -/
def Task.action : Task → Option Action
  | act action => some action
  | atprotoDid => some .did
  | status => none

/-- The response to a task that was done. -/
def Task.render (v : Json) : Task → Answer
  | atprotoDid =>
      match (v.get (str "id")).bind Json.asStr with
      | some id => ⟨200, [(str "content-type", str "text/plain; charset=utf-8")], .text id⟩
      | none => intoResponse .internal
  | _ => jsonAnswer 200 v

/-- The response to what the account service replied. A process that ended does not respond. -/
def Task.respond (task : Task) : Node.Reply → Option Answer
  | .ok v => some (task.render v)
  | .failed failure => some (intoResponse failure)
  | _ => none

/-! ## What a request asks for -/

/-- The token that an action presents. -/
def Action.token : Action → Option Bytes
  | .poll _ token => some token
  | .passwords token => some token
  | .issue token _ => some token
  | .revoke token _ => some token
  | .session token => some token
  | .refresh token => some token
  | .logout token => some token
  | .preferences token => some token
  | _ => none

/-- The methods of the requests that ask for an action. -/
def Action.methods : Action → List Method
  | .start => [.post]
  | .issue _ _ => [.post]
  | .revoke _ _ => [.delete]
  | .login _ _ => [.post]
  | .refresh _ => [.post]
  | .logout _ => [.post]
  | _ => [.get, .head]

/-- The paths of the requests that ask for an action. -/
def Action.isAt (path : Bytes) : Action → Bool
  | .start => path = str "/account/login"
  | .poll id _ => (segment (str "/account/login/") path).any fun s => percentDecode s = id
  | .passwords _ => path = str "/account/passwords"
  | .issue _ _ => path = str "/account/passwords"
  | .revoke _ _ => path = str "/account/passwords"
  | .login _ _ => path = str "/xrpc/com.atproto.server.createSession"
  | .session _ => path = str "/xrpc/com.atproto.server.getSession"
  | .refresh _ => path = str "/xrpc/com.atproto.server.refreshSession"
  | .logout _ => path = str "/xrpc/com.atproto.server.deleteSession"
  | .describe => path = str "/xrpc/com.atproto.server.describeServer"
  | .did => path = str "/.well-known/did.json" || path = str "/.well-known/atproto-did"
  | .preferences _ => path = str "/xrpc/app.bsky.actor.getPreferences"

/-- The actions whose answers any site may read. -/
def Action.shared : Action → Bool
  | .start => false
  | .poll _ _ => false
  | .passwords _ => false
  | .issue _ _ => false
  | .revoke _ _ => false
  | _ => true

/-- The body of a request says what its action is about. -/
def Action.Input (body : Option Json) : Action → Prop
  | .issue _ name => body.bind passwordName = some name
  | .revoke _ name => body.bind passwordName = some name
  | .login identifier password => ∃ login, body.bind LoginInput.ofJson? = some login ∧
      login.identifier = identifier ∧ login.password = password
  | _ => True

/-- A request asks for an action: by its method and its path, with the token of the action, and with
what the action is about. -/
structure Asks (request : Request) (action : Action) : Prop where
  method : request.method ∈ Action.methods action
  path : Action.isAt request.path action
  bearer : ∀ token ∈ Action.token action,
    request.headers.get (str "authorization") = some (str "Bearer " ++ token)
  input : Action.Input request.json action

/-- A token that is read stands in the header. -/
theorem get_of_bearer {headers : Headers} {token : Bytes} (h : bearer headers = .ok token) :
    headers.get (str "authorization") = some (str "Bearer " ++ token) := by
  unfold bearer at h
  split at h
  · rename_i token' htoken
    split_ifs at h
    obtain rfl := Except.ok.inj h
    obtain ⟨value, hvalue, hstrip⟩ := Option.bind_eq_some_iff.mp htoken
    rw [Headers.get_of_text hvalue, stripPrefix_eq_some.mp hstrip]
  · cases h

theorem act_eq_task {x : Except Failure Action} {task : Task} (h : Plan.act x = .task task) :
    ∃ action, x = .ok action ∧ task = .act action := by
  unfold Plan.act at h
  split at h
  · exact ⟨_, rfl, (Plan.task.inj h).symm⟩
  · cases h

theorem onGet_eq_task {request : Request} {plan : Plan} {task : Task}
    (h : onGet request plan = .task task) :
    request.method ∈ ([.get, .head] : List Method) ∧ plan = .task task := by
  unfold onGet at h
  split at h
  · rename_i hmethod
    exact ⟨by simp [hmethod], h⟩
  · rename_i hmethod
    exact ⟨by simp [hmethod], h⟩
  · cases h

theorem onPost_eq_task {request : Request} {plan : Plan} {task : Task}
    (h : onPost request plan = .task task) :
    request.method ∈ ([.post] : List Method) ∧ plan = .task task := by
  unfold onPost at h
  split at h
  · rename_i hmethod
    exact ⟨by simp [hmethod], h⟩
  · cases h

/-- A path of a route is the text of the route, or ends in the parameter of a poll. -/
theorem path_of_ofPath {path : Bytes} {route : Route} (h : Route.ofPath path = some route) :
    (path, route) ∈ Route.fixed ∨
      ∃ id, route = .poll id ∧ segment (str "/account/login/") path = some id := by
  unfold Route.ofPath at h
  split at h
  · rename_i route' hlookup
    obtain rfl := Option.some.inj h
    exact .inl (mem_of_lookup hlookup)
  · obtain ⟨id, hid, rfl⟩ := Option.map_eq_some_iff.mp h
    exact .inr ⟨id, rfl, hid⟩

/-- The paths of a route without a parameter. -/
theorem path_mem_of_ofPath {path : Bytes} {route : Route} (h : Route.ofPath path = some route)
    (hpoll : ∀ id, route ≠ .poll id) :
    path ∈ (Route.fixed.filter fun p => p.2 = route).map Prod.fst := by
  rcases path_of_ofPath h with hmem | ⟨id, rfl, -⟩
  · exact List.mem_map.mpr ⟨_, List.mem_filter.mpr ⟨hmem, decide_eq_true rfl⟩, rfl⟩
  · exact absurd rfl (hpoll id)

/-- The parameter of a poll. -/
theorem segment_of_ofPath {path id : Bytes} (h : Route.ofPath path = some (.poll id)) :
    segment (str "/account/login/") path = some id := by
  rcases path_of_ofPath h with hmem | ⟨id', heq, hid⟩
  · exact absurd hmem (by simp [Route.fixed])
  · rw [Route.poll.inj heq]
    exact hid

theorem map_eq_ok {ε α β : Type} {x : Except ε α} {f : α → β} {b : β} :
    x.map f = .ok b ↔ ∃ a, x = .ok a ∧ f a = b := by
  cases x <;> simp [Except.map]

/-- An action without a token or a body. -/
theorem asks_of_plain {request : Request} {action : Action} (haction : Action.token action = none)
    (hinput : ∀ body, Action.Input body action) (hmethod : request.method ∈ Action.methods action)
    (hpath : Action.isAt request.path action) : Asks request action := by
  refine ⟨hmethod, hpath, fun token htoken => ?_, hinput _⟩
  rw [haction] at htoken
  cases htoken

/-- An action that presents the token of its request. -/
theorem asks_of_bearer {request : Request} {token : Bytes} {action : Action}
    (htoken : bearer request.headers = .ok token) (haction : Action.token action = some token)
    (hinput : Action.Input request.json action) (hmethod : request.method ∈ Action.methods action)
    (hpath : Action.isAt request.path action) : Asks request action := by
  refine ⟨hmethod, hpath, fun token' htoken' => ?_, hinput⟩
  obtain rfl := Option.some.inj (haction.symm.trans htoken')
  exact get_of_bearer htoken

/-- A handler that only takes the token of its request. -/
theorem token_of_plan {request : Request} {f : Bytes → Action} {task : Task} {action : Action}
    (h : Plan.act ((bearer request.headers).map f) = .task task)
    (haction : task.action = some action) :
    ∃ token, bearer request.headers = .ok token ∧ f token = action := by
  obtain ⟨_, hinput, rfl⟩ := act_eq_task h
  obtain ⟨token, htoken, rfl⟩ := map_eq_ok.mp hinput
  exact ⟨token, htoken, Option.some.inj haction⟩

/-- What the requests for passwords ask for. -/
theorem asks_of_passwords {request : Request} {task : Task} {action : Action}
    (hpath : request.path = str "/account/passwords") (h : passwordsPlan request = .task task)
    (haction : task.action = some action) : Asks request action := by
  unfold passwordsPlan at h
  split at h
  · rename_i hmethod
    obtain ⟨token, htoken, rfl⟩ := token_of_plan h haction
    exact asks_of_bearer htoken rfl trivial (by simp [hmethod, Action.methods])
      (decide_eq_true hpath)
  · rename_i hmethod
    obtain ⟨token, htoken, rfl⟩ := token_of_plan h haction
    exact asks_of_bearer htoken rfl trivial (by simp [hmethod, Action.methods])
      (decide_eq_true hpath)
  · rename_i hmethod
    obtain ⟨_, hinput, rfl⟩ := act_eq_task h
    obtain ⟨name, hname, hinput⟩ := bind_eq_ok.mp hinput
    obtain ⟨token, htoken, hinput⟩ := bind_eq_ok.mp hinput
    obtain rfl := pure_eq_ok.mp hinput
    obtain rfl := Option.some.inj haction
    exact asks_of_bearer htoken rfl (okOr_eq_ok.mp hname) (by simp [hmethod, Action.methods])
      (decide_eq_true hpath)
  · rename_i hmethod
    obtain ⟨_, hinput, rfl⟩ := act_eq_task h
    obtain ⟨name, hname, hinput⟩ := bind_eq_ok.mp hinput
    obtain ⟨token, htoken, hinput⟩ := bind_eq_ok.mp hinput
    obtain rfl := pure_eq_ok.mp hinput
    obtain rfl := Option.some.inj haction
    exact asks_of_bearer htoken rfl (okOr_eq_ok.mp hname) (by simp [hmethod, Action.methods])
      (decide_eq_true hpath)
  · cases h

/-- What a poll asks for. -/
theorem asks_of_poll {request : Request} {id : Bytes} {task : Task} {action : Action}
    (hpath : segment (str "/account/login/") request.path = some id)
    (hmethod : request.method ∈ ([.get, .head] : List Method))
    (h : pollPlan id request = .task task) (haction : task.action = some action) :
    Asks request action := by
  unfold pollPlan at h
  simp only at h
  split_ifs at h
  obtain ⟨_, hinput, rfl⟩ := act_eq_task h
  obtain ⟨token, htoken, hinput⟩ := bind_eq_ok.mp hinput
  obtain rfl := pure_eq_ok.mp hinput
  obtain rfl := Option.some.inj haction
  refine asks_of_bearer htoken rfl trivial hmethod ?_
  simp [Action.isAt, hpath]

/-- What a login asks for. -/
theorem asks_of_createSession {request : Request} {task : Task} {action : Action}
    (hpath : request.path = str "/xrpc/com.atproto.server.createSession")
    (hmethod : request.method ∈ ([.post] : List Method))
    (h : createSessionPlan request = .task task) (haction : task.action = some action) :
    Asks request action := by
  obtain ⟨_, hinput, rfl⟩ := act_eq_task h
  obtain ⟨login, hlogin, hinput⟩ := bind_eq_ok.mp hinput
  obtain ⟨_, -, hinput⟩ := bind_eq_ok.mp hinput
  obtain rfl := pure_eq_ok.mp hinput
  obtain rfl := Option.some.inj haction
  refine ⟨hmethod, decide_eq_true hpath, fun token htoken => ?_, ?_⟩
  · cases htoken
  · exact ⟨login, okOr_eq_ok.mp hlogin, rfl, rfl⟩

/-- What waits was asked for. -/
theorem asks_of_plan {request : Request} {route : Route} {task : Task} {action : Action}
    (hroute : Route.ofPath request.path = some route) (hplan : route.plan request = .task task)
    (haction : task.action = some action) : Asks request action := by
  have hfixed := path_mem_of_ofPath hroute
  cases route with
  | page => cases (onGet_eq_task hplan).2
  | script => cases (onGet_eq_task hplan).2
  | style => cases (onGet_eq_task hplan).2
  | status =>
      obtain rfl := Plan.task.inj (onGet_eq_task hplan).2
      cases haction
  | login =>
      obtain ⟨hmethod, hplan⟩ := onPost_eq_task hplan
      obtain ⟨_, hinput, rfl⟩ := act_eq_task hplan
      obtain ⟨_, -, rfl⟩ := map_eq_ok.mp hinput
      obtain rfl := Option.some.inj haction
      exact asks_of_plain rfl (fun _ => trivial) hmethod
        (decide_eq_true (List.mem_singleton.mp (hfixed fun _ => Route.noConfusion)))
  | poll id =>
      obtain ⟨hmethod, hplan⟩ := onGet_eq_task hplan
      exact asks_of_poll (segment_of_ofPath hroute) hmethod hplan haction
  | passwords =>
      exact asks_of_passwords (List.mem_singleton.mp (hfixed fun _ => Route.noConfusion)) hplan
        haction
  | describeServer =>
      obtain ⟨hmethod, hplan⟩ := onGet_eq_task hplan
      obtain rfl := Plan.task.inj hplan
      obtain rfl := Option.some.inj haction
      exact asks_of_plain rfl (fun _ => trivial) hmethod
        (decide_eq_true (List.mem_singleton.mp (hfixed fun _ => Route.noConfusion)))
  | createSession =>
      obtain ⟨hmethod, hplan⟩ := onPost_eq_task hplan
      exact asks_of_createSession (List.mem_singleton.mp (hfixed fun _ => Route.noConfusion)) hmethod
        hplan haction
  | getSession =>
      obtain ⟨hmethod, hplan⟩ := onGet_eq_task hplan
      obtain ⟨token, htoken, rfl⟩ := token_of_plan hplan haction
      exact asks_of_bearer htoken rfl trivial hmethod
        (decide_eq_true (List.mem_singleton.mp (hfixed fun _ => Route.noConfusion)))
  | refreshSession =>
      obtain ⟨hmethod, hplan⟩ := onPost_eq_task hplan
      obtain ⟨token, htoken, rfl⟩ := token_of_plan hplan haction
      exact asks_of_bearer htoken rfl trivial hmethod
        (decide_eq_true (List.mem_singleton.mp (hfixed fun _ => Route.noConfusion)))
  | deleteSession =>
      obtain ⟨hmethod, hplan⟩ := onPost_eq_task hplan
      obtain ⟨token, htoken, rfl⟩ := token_of_plan hplan haction
      exact asks_of_bearer htoken rfl trivial hmethod
        (decide_eq_true (List.mem_singleton.mp (hfixed fun _ => Route.noConfusion)))
  | getPreferences =>
      obtain ⟨hmethod, hplan⟩ := onGet_eq_task hplan
      obtain ⟨token, htoken, rfl⟩ := token_of_plan hplan haction
      exact asks_of_bearer htoken rfl trivial hmethod
        (decide_eq_true (List.mem_singleton.mp (hfixed fun _ => Route.noConfusion)))
  | didJson =>
      obtain ⟨hmethod, hplan⟩ := onGet_eq_task hplan
      obtain rfl := Plan.task.inj hplan
      obtain rfl := Option.some.inj haction
      have hpath := List.mem_singleton.mp (hfixed fun _ => Route.noConfusion)
      exact asks_of_plain rfl (fun _ => trivial) hmethod (by simp [Action.isAt, hpath])
  | atprotoDid =>
      obtain ⟨hmethod, hplan⟩ := onGet_eq_task hplan
      obtain rfl := Plan.task.inj hplan
      obtain rfl := Option.some.inj haction
      have hpath := List.mem_singleton.mp (hfixed fun _ => Route.noConfusion)
      exact asks_of_plain rfl (fun _ => trivial) hmethod (by simp [Action.isAt, hpath])

/-! ## What the guard lets through -/

/-- The host of a request, or nothing where it has none. -/
def hostText (request : Request) : Bytes := (request.headers.text (str "host")).getD []

/-- The host of a request, and off the paths of the protocol its origin, are those that the account
service is known by. A request for a path of the protocol may come from any site. -/
structure FromHere (K : Crates) (listener : SocketAddr) (settings : Node.Settings)
    (request : Request) : Prop where
  host : isLocalHost K listener (hostText request) ∨
    ∃ url, K.parseUrl settings.serviceUrl = some url ∧ url.hostPort = hostText request
  origin : isXrpc request.path = false → ∀ origin,
    request.headers.text (str "origin") = some origin →
      (∃ url, K.parseUrl settings.serviceUrl = some url ∧ origin = url.originText) ∨
        isLocalHost K listener (hostText request) ∧ origin = str "http://" ++ hostText request

theorem allowed_iff {K : Crates} {listener : SocketAddr} {settings : Node.Settings}
    {request : Request} :
    allowed K listener settings request = true ↔ FromHere K listener settings request := by
  have hhost : (request.headers.text (str "host")).getD [] = hostText request := rfl
  unfold allowed
  rw [hhost]
  simp only [Bool.and_eq_true, Bool.or_eq_true, Option.any_eq_true, decide_eq_true_eq]
  constructor
  · rintro ⟨hfrom, horigin⟩
    refine ⟨hfrom, fun hxrpc origin htext => ?_⟩
    rcases horigin with hxrpc' | hsame
    · rw [hxrpc] at hxrpc'
      cases hxrpc'
    · simpa [htext, Option.any_eq_true] using hsame
  · rintro ⟨hfrom, horigin⟩
    refine ⟨hfrom, ?_⟩
    cases hxrpc : isXrpc request.path with
    | true => exact .inl rfl
    | false =>
        refine .inr ?_
        cases htext : request.headers.text (str "origin") with
        | none => rfl
        | some origin => simpa [Option.any_eq_true] using horigin hxrpc origin htext

/-- What waits passed the guard. -/
theorem arrive_eq_waits {K : Crates} {listener : SocketAddr} {settings : Node.Settings}
    {locked : Bool} {request : Request} {route : Route} {task : Task}
    (h : arrive K listener settings locked request route = .waits task) :
    locked = false ∧ FromHere K listener settings request ∧ route.plan request = .task task := by
  unfold arrive at h
  simp only at h
  split_ifs at h with hlocked hallowed hoptions
  split at h
  · cases h
  · rename_i task' hplan
    obtain rfl := Arrived.waits.inj h
    refine ⟨by simpa using hlocked, allowed_iff.mp ?_, hplan⟩
    simpa using hallowed

/-! ## What is sent -/

/-- A response has the safe headers, and lets any site read it exactly where it is shared. -/
structure Sealed (shared : Bool) (answer : Answer) : Prop where
  safe : ∀ header ∈ safeHeaders, answer.headers.get header.1 = some header.2
  origin : answer.headers.get (str "access-control-allow-origin") =
    if shared then some (str "*") else none

/-- There are at most the type of a response and the methods of its path. -/
def Bare (headers : Headers) : Prop :=
  ∀ header ∈ headers, header.1 = str "content-type" ∨ header.1 = str "allow"

theorem bare_nil : Bare [] := by
  intro header hheader
  cases hheader

theorem bare_type (contentType : Bytes) : Bare [(str "content-type", contentType)] := by
  intro header hheader
  rw [List.mem_singleton.mp hheader]
  exact .inl rfl

theorem bare_allow (methods : Bytes) : Bare [(str "allow", methods)] := by
  intro header hheader
  rw [List.mem_singleton.mp hheader]
  exact .inr rfl

/-- No site is named. -/
theorem Bare.origin {headers : Headers} (h : Bare headers) :
    headers.get (str "access-control-allow-origin") = none := by
  refine List.lookup_eq_none_iff.mpr fun header hheader => ?_
  rcases h header hheader with hname | hname
  · rw [hname]
    decide
  · rw [hname]
    decide

theorem bare_intoResponse (failure : Failure) : Bare (intoResponse failure).headers := bare_type _

theorem bare_render (v : Json) (task : Task) : Bare (task.render v).headers := by
  unfold Task.render
  split
  · split
    · exact bare_type _
    · exact bare_intoResponse _
  · exact bare_type _

theorem bare_respond {task : Task} {reply : Node.Reply} {answer : Answer}
    (h : task.respond reply = some answer) : Bare answer.headers := by
  unfold Task.respond at h
  split at h
  · obtain rfl := Option.some.inj h
    exact bare_render _ _
  · obtain rfl := Option.some.inj h
    exact bare_intoResponse _
  · cases h

/-- What a handler answers by itself. -/
def Plan.Bare (plan : Plan) : Prop :=
  ∀ answer, plan = .answer answer → Console.Bare answer.headers

theorem bare_answer {answer : Answer} (h : Bare answer.headers) : (Plan.answer answer).Bare := by
  intro answer' heq
  obtain rfl := Plan.answer.inj heq
  exact h

theorem bare_task (task : Task) : (Plan.task task).Bare := by
  intro answer heq
  cases heq

theorem bare_act (action : Except Failure Action) : (Plan.act action).Bare := by
  unfold Plan.act
  split
  · exact bare_task _
  · exact bare_answer (bare_intoResponse _)

theorem bare_notAllowed (methods : String) : (notAllowed methods).Bare :=
  bare_answer (bare_allow _)

theorem bare_onGet {request : Request} {plan : Plan} (h : plan.Bare) :
    (onGet request plan).Bare := by
  unfold onGet
  split
  · exact h
  · exact h
  · exact bare_notAllowed _

theorem bare_onPost {request : Request} {plan : Plan} (h : plan.Bare) :
    (onPost request plan).Bare := by
  unfold onPost
  split
  · exact h
  · exact bare_notAllowed _

theorem bare_pollPlan (id : Bytes) (request : Request) : (pollPlan id request).Bare := by
  unfold pollPlan
  simp only
  split_ifs
  · exact bare_act _
  · exact bare_answer bare_nil

theorem bare_passwordsPlan (request : Request) : (passwordsPlan request).Bare := by
  unfold passwordsPlan
  split
  · exact bare_act _
  · exact bare_act _
  · exact bare_act _
  · exact bare_act _
  · exact bare_notAllowed _

theorem bare_plan (request : Request) (route : Route) : (route.plan request).Bare := by
  cases route with
  | page => exact bare_onGet (bare_answer (bare_type _))
  | script => exact bare_onGet (bare_answer (bare_type _))
  | style => exact bare_onGet (bare_answer (bare_type _))
  | status => exact bare_onGet (bare_task _)
  | login => exact bare_onPost (bare_act _)
  | poll id => exact bare_onGet (bare_pollPlan id request)
  | passwords => exact bare_passwordsPlan request
  | describeServer => exact bare_onGet (bare_task _)
  | createSession => exact bare_onPost (bare_act _)
  | getSession => exact bare_onGet (bare_act _)
  | refreshSession => exact bare_onPost (bare_act _)
  | deleteSession => exact bare_onPost (bare_act _)
  | getPreferences => exact bare_onGet (bare_act _)
  | didJson => exact bare_onGet (bare_task _)
  | atprotoDid => exact bare_onGet (bare_task _)

/-- What the guard writes into a response. -/
theorem sealed_harden {shared : Bool} {answer : Answer} (h : Bare answer.headers) :
    Sealed shared (harden shared answer) := by
  have hnodup : ∀ shared : Bool, ((safeHeaders ++ if shared then sharedHeaders else []).map
      Prod.fst).Nodup := by
    decide
  refine ⟨fun header hheader => ?_, ?_⟩
  · rw [harden, Response.get_withHeaders (hnodup shared)]
    rw [Headers.get_of_mem (hnodup shared) (List.mem_append_left _ hheader)]
    rfl
  · rw [harden, Response.get_withHeaders (hnodup shared), h.origin]
    cases shared with
    | true => rfl
    | false => rfl

/-- A response to a request that has been through its handler. -/
theorem sealed_finish {request : Request} {answer : Answer} (h : Bare answer.headers) :
    Sealed (isXrpc request.path) (finish request answer) := by
  refine sealed_harden ?_
  unfold strip
  split_ifs
  · exact h
  · exact h

/-- The paths of an action say whether any site may read its answers. -/
theorem isXrpc_of_isAt {path : Bytes} {action : Action} (h : Action.isAt path action) :
    isXrpc path = Action.shared action := by
  cases action with
  | poll id token =>
      obtain ⟨s, hsegment, -⟩ := (Option.any_eq_true _ _).mp h
      unfold segment at hsegment
      split at hsegment
      · rename_i rest hrest
        rw [stripPrefix_eq_some.mp hrest]
        rfl
      · cases hsegment
  | did =>
      rcases Bool.or_eq_true_iff.mp h with hpath | hpath
      · rw [of_decide_eq_true hpath]
        rfl
      · rw [of_decide_eq_true hpath]
        rfl
  | _ =>
      rw [of_decide_eq_true h]
      rfl

/-- What is answered at once. -/
theorem sealed_of_arrive {K : Crates} {listener : SocketAddr} {settings : Node.Settings}
    {locked : Bool} {request : Request} {route : Route} {answer : Answer}
    (h : arrive K listener settings locked request route = .answered answer) :
    Sealed (isXrpc request.path) answer := by
  unfold arrive at h
  simp only at h
  split_ifs at h with hlocked hallowed hoptions
  · obtain rfl := Arrived.answered.inj h
    exact sealed_harden (bare_intoResponse _)
  · obtain rfl := Arrived.answered.inj h
    exact sealed_harden (bare_intoResponse _)
  · obtain rfl := Arrived.answered.inj h
    exact sealed_harden bare_nil
  · split at h
    · rename_i answer' hplan
      obtain rfl := Arrived.answered.inj h
      exact sealed_finish (bare_plan request route _ hplan)
    · cases h

end PurpleSky.Console
