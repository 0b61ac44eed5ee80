import PurpleSky.Console.Portal

/-!
# The operator's listener (`server.rs`)

The routes of the console, and the guard in front of all of them: the request must be to this
machine, must not come from another site, and must have the operator's token, unless it reads one of
the files that the page of the console is made of.

* **`of_protect`**: what the guard lets through.
* `adminTask_of_isShell`: a request without the token gets a file, or is refused.
-/

namespace PurpleSky.Console

open Bytes Node Http

/-! ## Responses -/

/-- The public state of a console. Source: `server.rs`, `status` (its fields) -/
structure StatusResponse where
  nodeName : Bytes
  configRevision : Nat
  restartRequired : Bool
  shuttingDown : Bool
  accountBinding : String
  account : Json
  activeOperation : Option Operation
  lastCheckAt : Option Nat
  preflightConfigRevision : Option Nat
  labConfigRevision : Option Nat
  preflight : Option Json
  lab : Option Json

/-- The body of a response of the console. -/
inductive AdminBody where
  | empty
  | asset (file : String)
  | refusal (refusal : Refusal)
  | status (status : StatusResponse)
  | config (config : ConfigResponse)
  | logs (page : LogPage)
  | operations (active : Option Operation) (recent : List Operation)
  | accepted (operation : Operation)
  | events (busy : Bool) (events : List AccountEvent)

/-- A response of the console. -/
abbrev AdminAnswer := Response AdminBody

/-- The content type of JSON. -/
def jsonType : Headers := [(str "content-type", str "application/json")]

/-- Source: `server.rs`, `failure` -/
def failure (refusal : Refusal) : AdminAnswer := ⟨refusal.status, jsonType, .refusal refusal⟩

/-! ## The guard -/

/-- Source: `server.rs`, `host_allowed` -/
def hostAllowed (K : Crates) (headers : Headers) (addr : SocketAddr) : Bool :=
  (headers.text (str "host")).any (isLocalHost K addr)

/-- Source: `server.rs`, `origin_allowed` -/
def originAllowed (K : Crates) (headers : Headers) (addr : SocketAddr) : Bool :=
  if headers.text (str "sec-fetch-site") = some (str "cross-site") then false
  else match headers.get (str "origin") with
    | none => true
    | some origin => (text origin).any fun o =>
        o = str "http://" ++ K.addrText addr ||
          o = str "http://localhost:" ++ decimal addr.port.toNat

/-- The files that the page of the console is made of, with their types.
Source: `server.rs`, `admin_router` -/
def shellFiles : List (Bytes × String × String) :=
  [(str "/", "text/html; charset=utf-8", "console.html"),
    (str "/admin.js", "text/javascript; charset=utf-8", "console.js"),
    (str "/admin.css", "text/css; charset=utf-8", "console.css"),
    (str "/llms.txt", "text/plain; charset=utf-8", "llms.txt")]

/-- Source: `server.rs`, `protect` (`shell`) -/
def isShell (request : Request) : Bool :=
  (request.method = .get || request.method = .head) &&
    (shellFiles.map Prod.fst).contains request.path

/-- Source: `server.rs`, `protect` (`authorized`) -/
def isAuthorized (token : Bytes) (request : Request) : Bool :=
  (request.headers.text (str "authorization")).bind (stripPrefix (str "Bearer ")) = some token

/-- What the guard says. -/
inductive Verdict where
  | forbidden
  | unauthorized
  | admitted
  deriving DecidableEq, Repr

/-- Source: `server.rs`, `protect` -/
def protect (K : Crates) (addr : SocketAddr) (token : Bytes) (request : Request) : Verdict :=
  if !hostAllowed K request.headers addr || !originAllowed K request.headers addr then .forbidden
  else if isShell request || isAuthorized token request then .admitted
  else .unauthorized

/-- The headers that are written into every response of the console. Source: `server.rs`, `protect` -/
def consoleHeaders : List (Bytes × Bytes) :=
  [(str "cache-control", str "no-store"), (str "x-content-type-options", str "nosniff"),
    (str "referrer-policy", str "no-referrer"),
    (str "content-security-policy", str ("default-src 'none'; script-src 'self'; " ++
      "style-src 'self'; connect-src 'self'; base-uri 'none'; frame-ancestors 'none'; " ++
      "form-action 'none'"))]

/-! ## Routes -/

/-- What an admitted request asks of the console. -/
inductive AdminTask where
  | answer (answer : AdminAnswer)
  | status
  | config
  | update (input : Option ConfigUpdate)
  | logs (query : Option (Nat × Nat))
  | operations
  | events
  | start (kind : OperationKind)

/-- A number of sixty-four bits, as it is parsed from a text. -/
def parseU64 (s : Bytes) : Option Nat :=
  let digits := (stripPrefix [43] s).getD s
  if digits ≠ [] ∧ digits.all isDigit ∧ ofDecimal digits < 18446744073709551616 then
    some (ofDecimal digits)
  else none

/-- A parameter that may be left out, but not given twice. -/
def parameter (query : List (Bytes × Bytes)) (name : Bytes) (default : Nat) : Option Nat :=
  match query.filter fun p => p.1 = name with
  | [] => some default
  | [(_, value)] => parseU64 value
  | _ => none

/-- Source: `server.rs`, `LogQuery` -/
def logQuery (query : List (Bytes × Bytes)) : Option (Nat × Nat) := do
  if query.all fun p => [str "after", str "limit"].contains p.1 then
    pure (← parameter query (str "after") 0, ← parameter query (str "limit") 100)
  else none

/-- The derived reading of an update. Source: `server.rs`, `ConfigUpdate` -/
def configUpdate (K : Crates) (v : Json) : Option ConfigUpdate :=
  match Json.fieldsOf true [str "expected_revision", str "settings"] v with
  | some [revision, settings] => do
      pure ⟨← revision.asU64, ← Settings.ofJson? K settings⟩
  | _ => none

/-- The name of the method is not among those of the route. -/
def adminNotAllowed (methods : String) : AdminTask :=
  .answer ⟨405, [(str "allow", str methods)], .empty⟩

/-- A handler of `GET` requests, which takes `HEAD` requests as well. -/
def adminGet (request : Request) (task : AdminTask) : AdminTask :=
  match request.method with
  | .get => task
  | .head => task
  | _ => adminNotAllowed "GET,HEAD"

/-- A handler of `POST` requests. -/
def adminPost (request : Request) (task : AdminTask) : AdminTask :=
  match request.method with
  | .post => task
  | _ => adminNotAllowed "POST"

/-- Source: `server.rs`, `admin_router` (`/admin/config`) -/
def configTask (K : Crates) (request : Request) : AdminTask :=
  match request.method with
  | .get => .config
  | .head => .config
  | .put => .update (request.json.bind (configUpdate K))
  | _ => adminNotAllowed "GET,HEAD,PUT"

/-- The routes of the console. Source: `server.rs`, `admin_router` -/
def adminTask (K : Crates) (request : Request) : AdminTask :=
  match shellFiles.lookup request.path with
  | some (contentType, file) =>
      adminGet request (.answer ⟨200, [(str "content-type", str contentType)], .asset file⟩)
  | none =>
      if request.path = str "/admin/status" then adminGet request .status
      else if request.path = str "/admin/config" then configTask K request
      else if request.path = str "/admin/logs" then adminGet request (.logs (logQuery request.query))
      else if request.path = str "/admin/account/logs" then adminGet request .events
      else if request.path = str "/admin/operations" then adminGet request .operations
      else if request.path = str "/admin/preflight" then adminPost request (.start .preflight)
      else if request.path = str "/admin/reconstruct" then adminPost request (.start .reconstruct)
      else .answer ⟨404, [], .empty⟩

/-! ## What the guard lets through -/

/-- A request is to this machine, and does not come from another site. -/
structure FromConsole (K : Crates) (addr : SocketAddr) (headers : Headers) : Prop where
  host : ∃ host, headers.get (str "host") = some host ∧ isLocalHost K addr host
  site : headers.get (str "sec-fetch-site") ≠ some (str "cross-site")
  origin : ∀ origin, headers.get (str "origin") = some origin →
    origin = str "http://" ++ K.addrText addr ∨
      origin = str "http://localhost:" ++ decimal addr.port.toNat

/-- A request has the operator's token. -/
def HasToken (token : Bytes) (headers : Headers) : Prop :=
  headers.get (str "authorization") = some (str "Bearer " ++ token)

theorem hasToken_of_isAuthorized {token : Bytes} {request : Request}
    (h : isAuthorized token request) : HasToken token request.headers := by
  obtain ⟨value, hvalue, hstrip⟩ := Option.bind_eq_some_iff.mp (of_decide_eq_true h)
  rw [HasToken, Headers.get_of_text hvalue, stripPrefix_eq_some.mp hstrip]

theorem fromConsole_of_allowed {K : Crates} {addr : SocketAddr} {headers : Headers}
    (hhost : hostAllowed K headers addr) (horigin : originAllowed K headers addr) :
    FromConsole K addr headers := by
  obtain ⟨host, htext, hlocal⟩ := (Option.any_eq_true _ _).mp hhost
  unfold originAllowed at horigin
  split_ifs at horigin with hsite
  refine ⟨⟨host, Headers.get_of_text htext, hlocal⟩, fun hcross => hsite ?_, fun origin hget => ?_⟩
  · rw [Headers.text, hcross]
    rfl
  · rw [hget] at horigin
    obtain ⟨o, ho, heither⟩ := (Option.any_eq_true _ _).mp horigin
    rw [← text_eq_some ho] at heither
    simpa using heither

/-- What is let through is to this machine and from its own pages, and has the token of the operator
unless it reads a file of the page. -/
theorem of_protect {K : Crates} {addr : SocketAddr} {token : Bytes} {request : Request}
    (h : protect K addr token request = .admitted) :
    FromConsole K addr request.headers ∧ (isShell request ∨ HasToken token request.headers) := by
  unfold protect at h
  split_ifs at h with hrefused hadmitted
  simp only [Bool.or_eq_true, Bool.not_eq_true', not_or, Bool.not_eq_false] at hrefused
  refine ⟨fromConsole_of_allowed hrefused.1 hrefused.2, ?_⟩
  rcases Bool.or_eq_true_iff.mp hadmitted with hshell | htoken
  · exact .inl hshell
  · exact .inr (hasToken_of_isAuthorized htoken)

/-- The page of the console is made of files that are read. -/
theorem adminTask_of_isShell {K : Crates} {request : Request} (h : isShell request) :
    ∃ contentType file, shellFiles.lookup request.path = some (contentType, file) ∧
      adminTask K request = .answer ⟨200, [(str "content-type", str contentType)], .asset file⟩ := by
  obtain ⟨hmethod, hpath⟩ := Bool.and_eq_true_iff.mp h
  have hget : ∀ task, adminGet request task = task := by
    intro task
    unfold adminGet
    rcases Bool.or_eq_true_iff.mp hmethod with hget | hhead
    · rw [of_decide_eq_true hget]
    · rw [of_decide_eq_true hhead]
  have hsome : shellFiles.lookup request.path ≠ none := by
    intro hnone
    obtain ⟨entry, hentry, hfst⟩ := List.mem_map.mp (List.contains_iff_mem.mp hpath)
    exact bne_iff_ne.mp (List.lookup_eq_none_iff.mp hnone entry hentry) hfst.symm
  obtain ⟨⟨contentType, file⟩, hfile⟩ := Option.ne_none_iff_exists'.mp hsome
  refine ⟨contentType, file, hfile, ?_⟩
  unfold adminTask
  rw [hfile]
  exact hget _

/-! ## What is sent -/

/-- A response of the console has the headers of the console, and lets no other site read it. -/
structure AdminSealed (answer : AdminAnswer) : Prop where
  safe : ∀ header ∈ consoleHeaders, answer.headers.get header.1 = some header.2
  origin : answer.headers.get (str "access-control-allow-origin") = none

theorem adminSealed_of_bare {answer : AdminAnswer} (h : Bare answer.headers) :
    AdminSealed (answer.withHeaders consoleHeaders) := by
  have hnodup : (consoleHeaders.map Prod.fst).Nodup := by
    decide
  refine ⟨fun header hheader => ?_, ?_⟩
  · rw [Response.get_withHeaders hnodup, Headers.get_of_mem hnodup hheader]
    rfl
  · rw [Response.get_withHeaders hnodup, h.origin]
    rfl

theorem bare_failure (refusal : Refusal) : Bare (failure refusal).headers := bare_type _

/-- The path of an operator's action. -/
def OperationKind.path : OperationKind → Bytes
  | preflight => str "/admin/preflight"
  | reconstruct => str "/admin/reconstruct"

/-- What a route asks for: an answer of its own is bare, and an order has its method and its path. -/
def AdminTask.Fits (K : Crates) (request : Request) : AdminTask → Prop
  | .answer response => Bare response.headers
  | .update input => request.method = .put ∧ request.path = str "/admin/config" ∧
      input = request.json.bind (configUpdate K)
  | .start kind => request.method = .post ∧ request.path = kind.path
  | _ => True

section

variable {K : Crates} {request : Request}

theorem fits_adminGet {task : AdminTask} (h : task.Fits K request) :
    (adminGet request task).Fits K request := by
  unfold adminGet
  split
  · exact h
  · exact h
  · exact bare_allow _

theorem fits_start {kind : OperationKind} (h : request.path = kind.path) :
    (adminPost request (.start kind)).Fits K request := by
  unfold adminPost
  split
  · exact ⟨by assumption, h⟩
  · exact bare_allow _

theorem fits_configTask (h : request.path = str "/admin/config") :
    (configTask K request).Fits K request := by
  unfold configTask
  split
  · trivial
  · trivial
  · exact ⟨by assumption, h, rfl⟩
  · exact bare_allow _

theorem fits_adminTask : (adminTask K request).Fits K request := by
  unfold adminTask
  split
  · exact fits_adminGet (bare_type _)
  · split_ifs with hstatus hconfig hlogs hevents hoperations hpreflight hreconstruct
    · exact fits_adminGet trivial
    · exact fits_configTask hconfig
    · exact fits_adminGet trivial
    · exact fits_adminGet trivial
    · exact fits_adminGet trivial
    · exact fits_start hpreflight
    · exact fits_start hreconstruct
    · exact bare_nil

end

end PurpleSky.Console
