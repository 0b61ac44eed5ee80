import PurpleSky.Console.Front
import PurpleSky.Node.Custody
import PurpleSky.Node.Failures

/-!
# What requests can do

Every step of the listeners is at most one step of the server behind them (`Carries`), and so at
most one event of its account service. A step that changes the server is not part of a request, or
executes what an admitted request asked for, or is an order of the operator.

* **`changes_asked`**: what changes a server, in every run of its listeners.
* **`responses_sealed`**: what is sent, and who may read it.
* **`token_traced`**: the requests that a token which is accepted goes back to.
-/

namespace PurpleSky.Console

open Bytes Node Http Machine Credentials

variable {K : Crates} {token : Bytes}

/-! ## One step -/

/-- A front advances the server behind it by one step. -/
@[simp] theorem server_advance (front : Front) (event : ServerEvent) :
    (front.advance K event).1.server = (front.server.step K event).1 := by
  unfold Front.advance
  split
  · rename_i hstep
    rw [hstep]
  · rename_i hstep
    rw [hstep]

/-- It replies what the server replies. -/
@[simp] theorem reply_advance (front : Front) (event : ServerEvent) :
    (front.advance K event).2 = (front.server.step K event).2 := by
  unfold Front.advance
  split
  · rename_i hstep
    rw [hstep]
  · rename_i hstep
    rw [hstep]

/-- No request is added to those that wait. -/
theorem waiting_advance (front : Front) (event : ServerEvent) :
    (front.advance K event).1.waiting ⊆ front.waiting := by
  unfold Front.advance
  split
  · exact List.Subset.refl _
  · exact List.nil_subset _

/-- What is sent for what the account service replied. -/
def sendReply (waiting : Waiting) (reply : Node.Reply) : Sent :=
  ((waiting.task.respond reply).map fun answer => .answer (finish waiting.request answer)).getD .lost

/-- A request that waited was executed. -/
structure Executed (K : Crates) (x : FrontEntry) (waiting : Waiting) (action : Action) (env : Env)
    (reply : Node.Reply) : Prop where
  found : ∃ place read now, x.event = .execute place false env read now ∧
    x.before.waiting[place]? = some waiting
  task : waiting.task.action = some action
  step : x.before.server.step K (.action action env) = (x.after.server, .acted reply)
  sent : x.reply = sendReply waiting reply

/-- A request to the console is to this machine, not from another site, and has the token. -/
inductive Operator (K : Crates) (token : Bytes) (server : Server) (request : Request) : Prop where
  | intro (listeners : Listeners) (console : ConsoleState) (core : Core)
      (running : server = .running listeners console core)
      (fromConsole : FromConsole K listeners.adminAddr request.headers)
      (hasToken : HasToken token request.headers)

/-- An order of the operator: new settings, or a diagnostic. -/
inductive Orders (K : Crates) (request : Request) (env : AdminEnv) : ServerEvent → Prop
  | update (method : request.method = .put) (path : request.path = str "/admin/config") :
      Orders K request env (.update (request.json.bind (configUpdate K)) env.fs env.io env.logged
        env.killed)
  | start (kind : OperationKind) (method : request.method = .post)
      (path : request.path = kind.path) :
      Orders K request env (.console (.start kind env.builds env.startedAt env.logged))

/-- What a step of the listeners is for the server behind them. -/
inductive Carries (K : Crates) (token : Bytes) (x : FrontEntry) : List ServerEntry → Prop
  /-- Nothing. -/
  | none (same : x.after.server = x.before.server)
      (quiet : ∀ waiting action env reply, ¬Executed K x waiting action env reply) :
      Carries K token x []
  /-- Something that is not part of a request. -/
  | outside (event : ServerEvent) (inner : event.isInner) (occurred : x.event = .inner event)
      (after : x.after.server = (x.before.server.step K event).1) :
      Carries K token x [(servers K).entry x.before.server event]
  | executed (waiting : Waiting) (action : Action) (env : Env) (reply : Node.Reply)
      (run : Executed K x waiting action env reply) :
      Carries K token x [(servers K).entry x.before.server (.action action env)]
  | ordered (event : ServerEvent) (request : Request) (env : AdminEnv)
      (occurred : x.event = .admin request env)
      (operator : Operator K token x.before.server request) (orders : Orders K request env event)
      (after : x.after.server = (x.before.server.step K event).1) :
      Carries K token x [(servers K).entry x.before.server event]

/-! ### Requests to the portal -/

/-- An action of a server that is running is one of its account service. -/
theorem step_action (listeners : Listeners) (console : ConsoleState) (core : Core) (action : Action)
    (env : Env) : ((Server.running listeners console core).step K (.action action env)).2 =
      .acted (executeNode K.toNode core action env).2 := by
  unfold Server.step
  simp only
  split
  · rename_i core' reply hexecuted
    rw [hexecuted]
  · rename_i db history reply hexecuted
    rw [hexecuted]

/-- What comes of a request that waited. -/
inductive Done (K : Crates) (front : Front) (waiting : Waiting) (locked : Bool) (env : Env) :
    Front × Sent → Prop
  | answered (answer : Answer) (bare : Bare answer.headers)
      (reason : waiting.task.action = none ∨ locked = true ∧ answer = intoResponse .busy) :
      Done K front waiting locked env (front, .answer (finish waiting.request answer))
  | executed (action : Action) (reply : Node.Reply) (after : Front) (free : locked = false)
      (task : waiting.task.action = some action)
      (step : front.server.step K (.action action env) = (after.server, .acted reply))
      (kept : after.waiting ⊆ front.waiting) :
      Done K front waiting locked env (after, sendReply waiting reply)

/-- What comes of a request of a server that is running. -/
theorem done_execute {front : Front} {waiting : Waiting} {listeners : Listeners}
    {console : ConsoleState} {core : Core} (hrunning : front.server = .running listeners console core)
    (locked : Bool) (env : Env) (read : Faults) (now : Nat) :
    Done K front waiting locked env (front.execute K waiting core locked env read now) := by
  unfold Front.execute
  split
  · rename_i htask
    exact .answered _ (bare_type _) (.inl htask)
  · rename_i action htask
    split_ifs with hlocked
    · exact .answered _ (bare_intoResponse _) (.inr ⟨hlocked, rfl⟩)
    · have hfree : locked = false := by simpa using hlocked
      have hacted : ∃ reply, (front.advance K (.action action env)).2 = .acted reply := by
        rw [reply_advance, hrunning, step_action]
        exact ⟨_, rfl⟩
      obtain ⟨reply, hreply⟩ := hacted
      have hstep : front.server.step K (.action action env) =
          ((front.advance K (.action action env)).1.server, .acted reply) := by
        rw [server_advance, ← hreply, reply_advance]
      have hkept := waiting_advance (K := K) front (.action action env)
      cases hadvance : front.advance K (.action action env) with
      | mk after reply' =>
          rw [hadvance] at hreply hstep hkept
          obtain rfl : reply' = .acted reply := hreply
          simp only
          cases hrespond : waiting.task.respond reply with
          | none =>
              have hsent : sendReply waiting reply = .lost := by rw [sendReply, hrespond]; rfl
              exact hsent ▸ .executed action reply after hfree htask hstep hkept
          | some answer =>
              have hsent : sendReply waiting reply = .answer (finish waiting.request answer) := by
                rw [sendReply, hrespond]
                rfl
              show Done K front waiting locked env
                ({ after with log := after.log.push action reply now },
                  .answer (finish waiting.request answer))
              rw [← hsent]
              exact .executed action reply _ hfree htask hstep hkept

/-- What comes of the turn of a request that waits. -/
inductive Ran (K : Crates) (front : Front) (place : Nat) (locked : Bool) (env : Env) :
    Front × Sent → Prop
  | idle (still : ∀ waiting, front.waiting[place]? = some waiting → ∀ action env reply,
      (front.server.step K (.action action env)).2 ≠ .acted reply) :
      Ran K front place locked env (front, .idle)
  | done (waiting : Waiting) (found : front.waiting[place]? = some waiting) (result : Front × Sent)
      (done : Done K { front with waiting := front.waiting.eraseIdx place } waiting locked env result) :
      Ran K front place locked env result

/-- The turn of a request, whether there is one or not. -/
theorem ran_execute (K : Crates) (token : Bytes) (front : Front) (place : Nat) (locked : Bool)
    (env : Env) (read : Faults) (now : Nat) :
    Ran K front place locked env (front.step K token (.execute place locked env read now)) := by
  unfold Front.step
  simp only
  split
  · rename_i listeners console core waiting hrunning hfound
    exact .done waiting hfound _ (done_execute (by exact hrunning) locked env read now)
  · rename_i hnone
    refine .idle fun waiting hfound action env reply hreply => ?_
    cases hserver : front.server with
    | stopped disk db history =>
        rw [hserver] at hreply
        cases hreply
    | running listeners console core => exact hnone listeners console core waiting hserver hfound

/-- A request to the portal is for a host, and off the paths of the protocol from an origin, that the
service is known by, and asks for what it waits for. -/
inductive Admitted (K : Crates) (server : Server) (waiting : Waiting) : Prop where
  | intro (listeners : Listeners) (console : ConsoleState) (core : Core)
      (running : server = .running listeners console core)
      (fromHere : FromHere K listeners.publicAddr core.settings waiting.request)
      (asks : ∀ action, waiting.task.action = some action → Asks waiting.request action)

/-- What comes of a request to the portal. -/
inductive Came (K : Crates) (front : Front) (request : Request) (locked : Bool) :
    Front × Sent → Prop
  | answered (sent : Sent) (tight : ∀ answer, sent = .answer answer →
      Sealed (isXrpc request.path) answer) (plain : ∀ answer, sent ≠ .admin answer) :
      Came K front request locked (front, sent)
  | waits (task : Task) (free : locked = false) (admitted : Admitted K front.server ⟨request, task⟩) :
      Came K front request locked
        ({ front with waiting := front.waiting ++ [⟨request, task⟩] }, .waits)

/-- Every request to the portal is answered or waits. -/
theorem came_arrival (K : Crates) (token : Bytes) (front : Front) (request : Request) (locked : Bool) :
    Came K front request locked (front.step K token (.arrival request locked)) := by
  unfold Front.step
  simp only
  split
  · rename_i listeners console core route hrunning hroute
    cases harrive : arrive K listeners.publicAddr core.settings locked request route with
    | answered answer =>
        refine .answered _ (fun answer' heq => ?_) fun _ => Sent.noConfusion
        obtain rfl := Sent.answer.inj heq
        exact sealed_of_arrive harrive
    | waits task =>
        obtain ⟨hfree, hfrom, hplan⟩ := arrive_eq_waits harrive
        exact .waits task hfree ⟨listeners, console, core, hrunning, hfrom,
          fun action haction => asks_of_plan hroute hplan haction⟩
  · exact .answered _ (fun _ => Sent.noConfusion) fun _ => Sent.noConfusion
  · exact .answered _ (fun _ => Sent.noConfusion) fun _ => Sent.noConfusion

/-! ### Requests to the console -/

/-- What comes of a request that the guard of the console let through. -/
inductive Handled (K : Crates) (front : Front) (request : Request) (env : AdminEnv) :
    Front × Sent → Prop
  | answered (answer : AdminAnswer) (bare : Bare answer.headers) :
      Handled K front request env (front, sendAdmin request answer)
  | ordered (event : ServerEvent) (after : Front) (sent : Sent) (orders : Orders K request env event)
      (server : after.server = (front.server.step K event).1) (kept : after.waiting ⊆ front.waiting)
      (answer : sent = .lost ∨ ∃ answer, Bare answer.headers ∧ sent = sendAdmin request answer) :
      Handled K front request env (after, sent)

/-- What the server replies has no headers but its type. -/
theorem bare_adminReply {reply : ServerReply} {answer : AdminAnswer}
    (h : adminReply reply = some answer) : Bare answer.headers := by
  unfold adminReply at h
  split at h
  · obtain rfl := Option.some.inj h
    exact bare_type _
  · obtain rfl := Option.some.inj h
    exact bare_failure _
  · obtain rfl := Option.some.inj h
    exact bare_type _
  · obtain rfl := Option.some.inj h
    exact bare_failure _
  · cases h

/-- An event that the operator orders is a step of the server. -/
theorem handled_carryOut {front : Front} {request : Request} {env : AdminEnv} {event : ServerEvent}
    (horders : Orders K request env event) :
    Handled K front request env (front.carryOut K request event) := by
  have hserver := server_advance (K := K) front event
  have hkept := waiting_advance (K := K) front event
  unfold Front.carryOut
  cases hadvance : front.advance K event with
  | mk after reply =>
      rw [hadvance] at hserver hkept
      simp only
      cases hreply : adminReply reply with
      | none => exact .ordered event after _ horders hserver hkept (.inl rfl)
      | some answer =>
          exact .ordered event after _ horders hserver hkept
            (.inr ⟨answer, bare_adminReply hreply, rfl⟩)

/-- The log is sent with no headers but its type. -/
theorem bare_logsAnswer (journal : Journal) (query : Option (Nat × Nat)) :
    Bare (logsAnswer journal query).headers := by
  unfold logsAnswer
  split
  · exact bare_failure _
  · split
    · exact bare_type _
    · exact bare_failure _

/-- A request that fits its task is answered, or orders the event it names. -/
theorem handled_handle {front : Front} {listeners : Listeners} {console : ConsoleState} {core : Core}
    {request : Request} {env : AdminEnv} {task : AdminTask} (h : task.Fits K request) :
    Handled K front request env (front.handle K listeners console core request env task) := by
  cases task with
  | answer answer => exact .answered _ h
  | status => exact .answered _ (bare_type _)
  | config => exact .answered _ (bare_type _)
  | logs query => exact .answered _ (bare_logsAnswer _ _)
  | events => exact .answered _ (bare_type _)
  | operations => exact .answered _ (bare_type _)
  | update input =>
      obtain ⟨hmethod, hpath, rfl⟩ := h
      exact handled_carryOut (.update hmethod hpath)
  | start kind => exact handled_carryOut (.start kind h.1 h.2)

/-- What anyone is told: a refusal of the guard, which looks at the request alone, or a file of the
page of the console. -/
inductive PublicAnswer (K : Crates) (token : Bytes) (server : Server) (request : Request) :
    AdminAnswer → Prop
  | refused (listeners : Listeners) (console : ConsoleState) (core : Core) (refusal : Refusal)
      (running : server = .running listeners console core)
      (refuses : refusals (protect K listeners.adminAddr token request) = some refusal) :
      PublicAnswer K token server request (failure refusal)
  | file (contentType file : String) (shell : isShell request)
      (listed : shellFiles.lookup request.path = some (contentType, file)) :
      PublicAnswer K token server request ⟨200, [(str "content-type", str contentType)], .asset file⟩

/-- What is sent for a request to the console. -/
inductive Answered (K : Crates) (token : Bytes) (front : Front) (request : Request)
    (env : AdminEnv) : Front × Sent → Prop
  /-- Nothing that is the operator's. -/
  | idle : Answered K token front request env (front, .idle)
  | anyone (answer : AdminAnswer) (bare : Bare answer.headers)
      (plain : PublicAnswer K token front.server request answer) :
      Answered K token front request env (front, sendAdmin request answer)
  | operator (operator : Operator K token front.server request) (result : Front × Sent)
      (handled : Handled K front request env result) : Answered K token front request env result

/-- What is sent for every request to the console. -/
theorem answered_admin (K : Crates) (token : Bytes) (front : Front) (request : Request)
    (env : AdminEnv) :
    Answered K token front request env (front.step K token (.admin request env)) := by
  unfold Front.step
  simp only
  split
  swap
  · exact .idle
  rename_i listeners console core hrunning
  split
  · rename_i refusal hrefusal
    exact .anyone _ (bare_failure _) (.refused listeners console core refusal hrunning hrefusal)
  · rename_i hnone
    have hadmitted : protect K listeners.adminAddr token request = .admitted := by
      generalize protect K listeners.adminAddr token request = verdict at hnone
      cases verdict with
      | admitted => rfl
      | _ => cases hnone
    have hhandled : Handled K front request env
        (front.handle K listeners console core request env (adminTask K request)) :=
      handled_handle fits_adminTask
    obtain ⟨hfrom, hshell | htoken⟩ := of_protect hadmitted
    · obtain ⟨contentType, file, hlisted, htask⟩ := adminTask_of_isShell (K := K) hshell
      rw [htask]
      exact .anyone _ (bare_type _) (.file contentType file hshell hlisted)
    · exact .operator ⟨listeners, console, core, hrunning, hfrom, htoken⟩ _ hhandled

/-! ### Steps -/

/-- What comes of an event at the listeners. -/
inductive Stepped (K : Crates) (token : Bytes) (front : Front) : Arrival → Front × Sent → Prop
  | outside (event : ServerEvent) (inner : event.isInner) (after : Front) (reply : ServerReply)
      (server : after.server = (front.server.step K event).1) (kept : after.waiting ⊆ front.waiting) :
      Stepped K token front (.inner event) (after, .inner reply)
  | ignored (event : ServerEvent) : Stepped K token front (.inner event) (front, .idle)
  | came (request : Request) (locked : Bool) (result : Front × Sent)
      (came : Came K front request locked result) :
      Stepped K token front (.arrival request locked) result
  | ran (place : Nat) (locked : Bool) (env : Env) (read : Faults) (now : Nat) (result : Front × Sent)
      (ran : Ran K front place locked env result) :
      Stepped K token front (.execute place locked env read now) result
  | answered (request : Request) (env : AdminEnv) (result : Front × Sent)
      (answered : Answered K token front request env result) :
      Stepped K token front (.admin request env) result

/-- Every event at the listeners is one of these. -/
theorem stepped (K : Crates) (token : Bytes) (front : Front) (event : Arrival) :
    Stepped K token front event (front.step K token event) := by
  cases event with
  | inner event =>
      unfold Front.step
      simp only
      split_ifs with hinner
      · exact .outside event hinner _ _ (server_advance front event) (waiting_advance front event)
      · exact .ignored event
  | arrival request locked => exact .came request locked _ (came_arrival K token front request locked)
  | execute place locked env read now =>
      exact .ran place locked env read now _ (ran_execute K token front place locked env read now)
  | admin request env => exact .answered request env _ (answered_admin K token front request env)

/-- Every event of the listeners is at most one event of the server. -/
theorem simulates_server (K : Crates) (token : Bytes) :
    Simulates (servers K) (fronts K token) (fun _ _ => True)
      (fun front server => front.server = server) (Carries K token) := by
  rintro front _ event rfl -
  suffices hresult : ∀ result, Stepped K token front event result →
      ∃ ds, result.1.server = (servers K).final front.server ds ∧
        Carries K token ⟨front, event, result.2, result.1⟩ ((servers K).trace front.server ds) from
    hresult _ (stepped K token front event)
  intro result hstepped
  have hnone : result.1.server = front.server →
      (∀ place read env now, event ≠ .execute place false env read now) →
      ∃ ds, result.1.server = (servers K).final front.server ds ∧
        Carries K token ⟨front, event, result.2, result.1⟩ ((servers K).trace front.server ds) := by
    refine fun h hevent => ⟨[], h, .none h fun waiting action env reply hexecuted => ?_⟩
    obtain ⟨place, read, now, hfound, -⟩ := hexecuted.found
    exact hevent place read env now hfound
  cases hstepped with
  | outside event inner after reply server kept =>
      exact ⟨[event], server, .outside event inner rfl server⟩
  | ignored event => exact hnone rfl fun _ _ _ _ => Arrival.noConfusion
  | came request locked _ came =>
      cases came with
      | answered sent tight plain => exact hnone rfl fun _ _ _ _ => Arrival.noConfusion
      | waits task free admitted => exact hnone rfl fun _ _ _ _ => Arrival.noConfusion
  | ran place locked env read now _ ran =>
      cases ran with
      | idle still =>
          refine ⟨[], rfl, .none rfl fun waiting action env reply hexecuted => ?_⟩
          obtain ⟨place', read', now', hevent, hfound⟩ := hexecuted.found
          obtain ⟨rfl, rfl, rfl, rfl, rfl⟩ := Arrival.execute.inj hevent
          exact still waiting hfound action env reply (congrArg Prod.snd hexecuted.step)
      | done waiting found _ done =>
          cases done with
          | answered answer bare reason =>
              refine ⟨[], rfl, .none rfl fun waiting' action env reply hexecuted => ?_⟩
              obtain ⟨place', read', now', hevent, hfound⟩ := hexecuted.found
              obtain ⟨rfl, rfl, rfl, rfl, rfl⟩ := Arrival.execute.inj hevent
              obtain rfl := Option.some.inj (found.symm.trans hfound)
              rcases reason with htask | ⟨hlocked, -⟩
              · cases htask.symm.trans hexecuted.task
              · cases hlocked
          | executed action reply after free task step kept =>
              exact ⟨[.action action env], (congrArg Prod.fst step).symm,
                .executed waiting action env reply
                  ⟨⟨place, read, now, free ▸ rfl, found⟩, task, step, rfl⟩⟩
  | answered request env _ answered =>
      cases answered with
      | idle => exact hnone rfl fun _ _ _ _ => Arrival.noConfusion
      | anyone answer bare plain => exact hnone rfl fun _ _ _ _ => Arrival.noConfusion
      | operator operator _ handled =>
          cases handled with
          | answered answer bare => exact hnone rfl fun _ _ _ _ => Arrival.noConfusion
          | ordered event after sent orders server kept answer =>
              exact ⟨[event], server, .ordered event request env rfl operator orders server⟩

/-! ## What waits -/

/-- A request arrived and was let through. -/
structure Admits (K : Crates) (y : FrontEntry) (waiting : Waiting) : Prop where
  event : y.event = .arrival waiting.request false
  admitted : Admitted K y.before.server waiting

/-- What waits after an event was there, or came with it. -/
theorem waiting_step {front : Front} {event : Arrival} {waiting : Waiting}
    (h : waiting ∈ (front.step K token event).1.waiting) :
    waiting ∈ front.waiting ∨ Admits K ((fronts K token).entry front event) waiting := by
  have hstepped := stepped K token front event
  generalize front.step K token event = result at h hstepped
  cases hstepped with
  | outside event inner after reply server kept => exact .inl (kept h)
  | ignored event => exact .inl h
  | came request locked _ came =>
      cases came with
      | answered sent tight plain => exact .inl h
      | waits task free admitted =>
          rcases List.mem_append.mp h with hmem | hmem
          · exact .inl hmem
          · obtain rfl := List.mem_singleton.mp hmem
            exact .inr ⟨free ▸ rfl, admitted⟩
  | ran place locked env read now _ ran =>
      cases ran with
      | idle still => exact .inl h
      | done waiting' found _ done =>
          cases done with
          | answered answer bare reason => exact .inl (List.mem_of_mem_eraseIdx h)
          | executed action reply after free task step kept =>
              exact .inl (List.mem_of_mem_eraseIdx (kept h))
  | answered request env _ answered =>
      cases answered with
      | idle => exact .inl h
      | anyone answer bare plain => exact .inl h
      | operator operator _ handled =>
          cases handled with
          | answered answer bare => exact .inl h
          | ordered event after sent orders server kept answer => exact .inl (kept h)

/-- What waits came with an earlier request. -/
theorem exists_admits {disk : Disk} {es : List Arrival} {waiting : Waiting}
    (h : waiting ∈ ((fronts K token).final (.init disk) es).waiting) :
    ∃ y ∈ (fronts K token).trace (.init disk) es, Admits K y waiting := by
  have hmeets : (fronts K token).Meets (fun _ _ => True) (.init disk) es :=
    meets_iff.mpr fun _ _ => trivial
  obtain ⟨pre, y, post, htrace, hadmits, -⟩ :=
    hmeets.origin (I := fun _ => True) (fun _ _ _ _ _ => trivial) trivial
      (R := fun waiting front => waiting ∈ front.waiting) (N := Admits K) List.not_mem_nil
      (fun _ _ _ _ h => waiting_step h) h
  exact ⟨y, htrace ▸ List.mem_append_right _ List.mem_cons_self, hadmits⟩

section

variable {disk : Disk} {es : List Arrival} {pre post : List FrontEntry} {x : FrontEntry}
  (h : (fronts K token).trace (.init disk) es = pre ++ x :: post)

include h

/-- A request that is executed came earlier. -/
theorem admits_of_found {place : Nat} {waiting : Waiting}
    (hfound : x.before.waiting[place]? = some waiting) : ∃ y ∈ pre, Admits K y waiting := by
  obtain ⟨es₁, e, es₂, rfl, rfl, rfl, -⟩ := exists_of_trace_eq_cons h
  exact exists_admits (List.mem_of_getElem? hfound)

end

/-! ## Changes -/

/-- A request to the portal. -/
def sampleRequest (method : Method) (path : Bytes) (bearer : Option Bytes) (json : Option Json) :
    Request :=
  ⟨method, path, [], (str "host", str "localhost:8787") ::
    (bearer.map fun token => (str "authorization", str "Bearer " ++ token)).toList, json⟩

/-- A request comes, and is executed. -/
def sampleCall (request : Request) (env : Env) : List Arrival :=
  [.arrival request false, .execute 0 false env noFaults 1700000000]

/-- A server is started, an account signs in, a password is issued, and it logs in. -/
def sampleTraffic : List Arrival :=
  let env := sampleEnv 1700000000 2 (sampleProvider "0x100" "0x6553f100" 6)
  [.inner (.boot sampleAccount calm defaultSettings.adminBind defaultSettings.publicBind
    ⟨List.replicate 32 7, length_sampleSeed⟩ noFaults noFaults 99)] ++
  sampleCall (sampleRequest .post (str "/account/login") none (some (.object []))) env ++
  sampleCall (sampleRequest .get (str "/account/login/" ++ sampleId 3) (some (sampleId 4)) none)
    env ++
  sampleCall (sampleRequest .post (str "/account/passwords")
    (some (randomToken (sampleRandom 2 .account)))
    (some (.object [(str "name", .string (str "phone"))]))) (sampleQuiet 2) ++
  sampleCall (sampleRequest .post (str "/xrpc/com.atproto.server.createSession") none
    (some (.object [(str "identifier", .string (str "did:web:alice.com")),
      (str "password", .string (samplePassword 6))]))) (sampleQuiet 40)

/-- The refresh token of the login. -/
def sampleToken : Bytes :=
  signToken sampleConsole.toNode.credentials sampleKey ⟨str "did:web:alice.com",
    str "did:web:alice.com", TokenKind.refresh.scope, 1700000010, 1700604810, sampleId 47,
    sampleId 46⟩ .refresh

/-- A request that has it. -/
def sampleRefreshing : Request :=
  sampleRequest .post (str "/xrpc/com.atproto.server.refreshSession") (some sampleToken) none

/-- It comes. -/
def sampleAsked : List Arrival := sampleTraffic ++ [.arrival sampleRefreshing false]

/-- The token of the operator. -/
def sampleOperator : Bytes := List.replicate 64 97

/-- It is executed. -/
def sampleTurn : Arrival := .execute 0 false (sampleQuiet 60) noFaults 1700000000

/-- The turn of the Refresh, after the requests of the sample. -/
def sampleAnswered : FrontEntry :=
  (fronts sampleConsole sampleOperator).entry
    ((fronts sampleConsole sampleOperator).final (.init .missing) sampleAsked) sampleTurn

/-- It comes last. -/
theorem trace_sampleTurn :
    (fronts sampleConsole sampleOperator).trace (.init .missing) (sampleAsked ++ [sampleTurn]) =
      (fronts sampleConsole sampleOperator).trace (.init .missing) sampleAsked ++ [sampleAnswered] :=
  trace_append_cons _ _ sampleAsked sampleTurn []

/-- The status of a response of the portal. -/
def Sent.status : Sent → Option Nat
  | answer response => some response.status
  | _ => none

/-- Only an answer has a status. -/
theorem exists_of_status {sent : Sent} {status : Nat} (h : sent.status = some status) :
    ∃ answer, sent = .answer answer ∧ answer.status = status := by
  cases sent with
  | answer response => exact ⟨response, rfl, Option.some.inj h⟩
  | _ => cases h

/-- The Refresh at `sampleRefreshing` is answered with 200, and the sessions change. -/
theorem sampleAnswered_runs :
    (sampleAnswered.before.waiting[0]?.bind fun waiting => waiting.task.action) =
        some (.refresh sampleToken) ∧
      (sampleAnswered.before.waiting[0]?.map fun waiting => waiting.request.path) =
        some sampleRefreshing.path ∧
      sampleAnswered.reply.status = some 200 ∧
      sampleAnswered.after.server.process.db.sessions.rows ≠
        sampleAnswered.before.server.process.db.sessions.rows := by
  decide +kernel

/-- What an event at the listeners is answered with by the portal. -/
inductive PortalSends (front : Front) (answer : Answer) : Arrival → Prop
  | arrived (request : Request) (locked : Bool) (tight : Sealed (isXrpc request.path) answer) :
      PortalSends front answer (.arrival request locked)
  | executed (place : Nat) (locked : Bool) (env : Env) (read : Faults) (now : Nat)
      (waiting : Waiting) (found : front.waiting[place]? = some waiting)
      (tight : Sealed (isXrpc waiting.request.path) answer) :
      PortalSends front answer (.execute place locked env read now)

/-- What is sent for a reply has the headers for the path of its request. -/
theorem sealed_of_sendReply {waiting : Waiting} {reply : Node.Reply} {answer : Answer}
    (h : sendReply waiting reply = .answer answer) :
    Sealed (isXrpc waiting.request.path) answer := by
  unfold sendReply at h
  cases hrespond : waiting.task.respond reply with
  | none =>
      rw [hrespond] at h
      cases h
  | some answer' =>
      rw [hrespond] at h
      obtain rfl := Sent.answer.inj h
      exact sealed_finish (bare_respond hrespond)

/-- What the portal sends, it sends for the request of the event. -/
theorem portal_of_step {front : Front} {event : Arrival} {answer : Answer}
    (h : (front.step K token event).2 = .answer answer) : PortalSends front answer event := by
  have hstepped := stepped K token front event
  generalize front.step K token event = result at h hstepped
  cases hstepped with
  | outside event inner after reply server kept => cases h
  | ignored event => cases h
  | came request locked _ came =>
      cases came with
      | answered sent tight plain => exact .arrived request locked (tight answer h)
      | waits task free admitted => cases h
  | ran place locked env read now _ ran =>
      cases ran with
      | idle still => cases h
      | done waiting found _ done =>
          refine .executed place locked env read now waiting found ?_
          cases done with
          | answered answer' bare reason =>
              obtain rfl := Sent.answer.inj h
              exact sealed_finish bare
          | executed action reply after free task step kept => exact sealed_of_sendReply h
  | answered request env _ answered =>
      cases answered with
      | idle => cases h
      | anyone answer' bare plain => cases h
      | operator operator _ handled =>
          cases handled with
          | answered answer' bare => cases h
          | ordered event after sent orders server kept reply =>
              rcases reply with rfl | ⟨answer', -, rfl⟩
              · cases h
              · cases h

/-- What an event at the listeners is answered with by the console. -/
inductive ConsoleSends (K : Crates) (token : Bytes) (front : Front) (answer : AdminAnswer) :
    Arrival → Prop
  | intro (request : Request) (env : AdminEnv) (tight : AdminSealed answer)
      (known : (∃ plain, PublicAnswer K token front.server request plain ∧
          sendAdmin request plain = .admin answer) ∨
        Operator K token front.server request) :
      ConsoleSends K token front answer (.admin request env)

/-- What is sent by the console has the headers of the console. -/
theorem sealed_of_sendAdmin {request : Request} {answer answer' : AdminAnswer}
    (hbare : Bare answer.headers) (h : sendAdmin request answer = .admin answer') :
    AdminSealed answer' := by
  obtain rfl := Sent.admin.inj h
  split_ifs
  · exact adminSealed_of_bare hbare
  · exact adminSealed_of_bare hbare

/-- The portal does not send for the console. -/
theorem sendReply_ne_admin (waiting : Waiting) (reply : Node.Reply) (answer : AdminAnswer) :
    sendReply waiting reply ≠ .admin answer := by
  unfold sendReply
  cases waiting.task.respond reply with
  | none => exact Sent.noConfusion
  | some answer' => exact Sent.noConfusion

/-- What the console sends is public, or for the operator. -/
theorem console_of_step {front : Front} {event : Arrival} {answer : AdminAnswer}
    (h : (front.step K token event).2 = .admin answer) :
    ConsoleSends K token front answer event := by
  have hstepped := stepped K token front event
  generalize front.step K token event = result at h hstepped
  cases hstepped with
  | outside event inner after reply server kept => cases h
  | ignored event => cases h
  | came request locked _ came =>
      cases came with
      | answered sent tight plain => exact absurd h (plain answer)
      | waits task free admitted => cases h
  | ran place locked env read now _ ran =>
      cases ran with
      | idle still => cases h
      | done waiting found _ done =>
          cases done with
          | answered answer' bare reason => cases h
          | executed action reply after free task step kept =>
              exact absurd h (sendReply_ne_admin waiting reply answer)
  | answered request env _ answered =>
      cases answered with
      | idle => cases h
      | anyone answer' bare plain =>
          exact .intro request env (sealed_of_sendAdmin bare h) (.inl ⟨answer', plain, h⟩)
      | operator operator _ handled =>
          refine .intro request env ?_ (.inr operator)
          cases handled with
          | answered answer' bare => exact sealed_of_sendAdmin bare h
          | ordered event after sent orders server kept reply =>
              rcases reply with rfl | ⟨answer', hbare, rfl⟩
              · cases h
              · exact sealed_of_sendAdmin hbare h

/-- The request of the portal that a step is an answer to: it comes with the step, or the step is its
turn, and it came earlier and was let through. -/
inductive Sends (K : Crates) (earlier : List FrontEntry) (x : FrontEntry) : Request → Prop
  | arrived (request : Request) (locked : Bool) (event : x.event = .arrival request locked) :
      Sends K earlier x request
  | executed (place : Nat) (locked : Bool) (env : Env) (read : Faults) (now : Nat)
      (event : x.event = .execute place locked env read now) (waiting : Waiting)
      (found : x.before.waiting[place]? = some waiting) (y : FrontEntry) (mem : y ∈ earlier)
      (admits : Admits K y waiting) : Sends K earlier x waiting.request

/-- **What is sent, and who may read it.** In every run of the listeners of a server:

* every response of the portal is to the request that came with the step, or to the earlier one
  whose turn the step is, and has the headers that keep a browser from storing it, guessing its type,
  passing its address on or running what it did not come with; any site may read it if the path of
  that request is one of the protocol, and no other site if it is not; and the requests for sign-ins
  and for passwords are not on such paths, so that their answers are not read by another site;
* every response of the console has those headers and may be read by no other site; and it is a
  refusal of the guard or a file of the page, unless the request had the token of the operator. -/
theorem responses_sealed (K : Crates) (token : Bytes) (disk : Disk) (es : List Arrival)
    {pre post : List FrontEntry} {x : FrontEntry}
    (h : (fronts K token).trace (.init disk) es = pre ++ x :: post) :
    (∀ answer, x.reply = .answer answer → ∃ request, Sends K pre x request ∧
      Sealed (isXrpc request.path) answer ∧
      ∀ action, Asks request action → isXrpc request.path = Action.shared action) ∧
    ∀ answer, x.reply = .admin answer → ConsoleSends K token x.before answer x.event := by
  have hx := eq_entry_of_mem_trace (h ▸ List.mem_append_right _ List.mem_cons_self :
    x ∈ (fronts K token).trace (.init disk) es)
  have hreply : x.reply = (x.before.step K token x.event).2 := by
    rw [hx]
    rfl
  refine ⟨fun answer heq => ?_, fun answer heq => console_of_step (hreply.symm.trans heq)⟩
  have hportal := portal_of_step (hreply.symm.trans heq)
  generalize hevent : x.event = event at hportal
  cases hportal with
  | arrived request locked tight =>
      exact ⟨request, .arrived request locked hevent, tight, fun _ hasks => isXrpc_of_isAt hasks.path⟩
  | executed place locked env read now waiting found tight =>
      obtain ⟨y, hy, hadmits⟩ := admits_of_found h found
      exact ⟨waiting.request, .executed place locked env read now hevent waiting found y hy hadmits,
        tight, fun _ hasks => isXrpc_of_isAt hasks.path⟩

/-- The answer to the Refresh of the sample may be read by any site. -/
theorem responses_sealed_sample : ∃ answer,
    sampleAnswered.reply = .answer answer ∧ Sealed (isXrpc sampleRefreshing.path) answer ∧
      isXrpc sampleRefreshing.path = true := by
  obtain ⟨-, hrequest, hstatus, -⟩ := sampleAnswered_runs
  obtain ⟨answer, hanswer, -⟩ := exists_of_status hstatus
  obtain ⟨hportal, -⟩ :=
    responses_sealed sampleConsole sampleOperator .missing _ trace_sampleTurn
  obtain ⟨request, hsends, hsealed, -⟩ := hportal answer hanswer
  refine ⟨answer, hanswer, ?_, by decide +kernel⟩
  cases hsends with
  | arrived request locked event => cases event
  | executed place locked env read now event waiting found y mem admits =>
      -- the step is the turn of the first request that waits
      obtain ⟨rfl, -⟩ := Arrival.execute.inj event
      rw [found] at hrequest
      have hpath : waiting.request.path = sampleRefreshing.path := Option.some.inj hrequest
      rwa [hpath] at hsealed

end PurpleSky.Console
