import PurpleSky.Console.Requests
import PurpleSky.Console.Serving

/-!
# The requests behind a token

What the account service knows of a token goes back, event by event, to a sign-in. Behind a server
with its listeners every one of these events is a request: it came, was let through, asked for the
action, and was answered with what the action returned.

* `Heard`: what a step of the listeners is for the account service.
* **`token_traced`**: the requests that a token which is accepted goes back to.
-/

namespace PurpleSky.Console

open Bytes Node Http Machine Credentials

variable {K : Crates} {token : Bytes}

/-! ## What the account service hears -/

/-- What a step of the listeners is for the account service. -/
def Heard (K : Crates) (token : Bytes) (x : FrontEntry) (es : List Exchange) : Prop :=
  ∃ ys, Carries K token x ys ∧ Explains (Hosts K) ys es

theorem simulates_account (hK : K.Lawful) (token : Bytes) :
    Simulates (nodes K.toNode) (fronts K token) (fun _ _ => True)
      (fun front p => ∃ server, front.server = server ∧ server.process = p) (Heard K token) :=
  (simulates_server K token).trans (simulates_node hK)

/-- A request that came earlier and was let through is executed: its action is an event of the account
service, and what the action returns is sent. -/
inductive Performs (K : Crates) (earlier : List FrontEntry) (x : FrontEntry) (e : Exchange) : Prop
  | intro (y : FrontEntry) (mem : y ∈ earlier) (waiting : Waiting) (admits : Admits K y waiting)
      (action : Action) (env : Env) (task : waiting.task.action = some action)
      (asks : Asks waiting.request action) (event : e.event = .action action env)
      (before : e.before = x.before.server.process) (after : e.after = x.after.server.process)
      (answer : x.reply = sendReply waiting e.reply)

/-- An action of the account service is one of its server, and all that a step of the server is. -/
theorem acted_of_hosts {y : ServerEntry} {us vs : List Exchange} {e : Exchange} {action : Action}
    {env : Env} (h : Hosts K y (us ++ e :: vs)) (hevent : e.event = .action action env) :
    us = [] ∧ vs = [] ∧ y.event = .action action env ∧ y.reply = .acted e.reply ∧
      e.before = y.before.process ∧ e.after = y.after.process := by
  have hcons : us ++ e :: vs ≠ [] := by simp
  have hone : ∀ {a : Exchange}, us ++ e :: vs = [a] → us = [] ∧ e = a ∧ vs = [] := by
    intro a heq
    rcases List.append_eq_singleton_iff.mp heq with ⟨hus, he⟩ | ⟨-, hnil⟩
    · exact ⟨hus, List.cons.inj he⟩
    · cases hnil
  generalize us ++ e :: vs = zs at h hone hcons
  cases h with
  | none same quiet unsaved => exact absurd rfl hcons
  | acted action' env' reply event answer =>
      obtain ⟨rfl, rfl, rfl⟩ := hone rfl
      obtain ⟨rfl, rfl⟩ := Node.Event.action.inj hevent
      exact ⟨rfl, rfl, event, answer, rfl, rfl⟩
  | opened bootstrap fs adminAddr publicAddr random io reload logged document reply event =>
      obtain ⟨-, rfl, -⟩ := hone rfl
      cases hevent
  | configured update fs io logged document reply event saves saved named =>
      obtain ⟨-, rfl, -⟩ := hone rfl
      cases hevent
  | stopped reply event answer =>
      obtain ⟨-, rfl, -⟩ := hone rfl
      cases hevent

/-- An action of the account service is one that the listeners executed, and all that their step
is. -/
theorem executed_of_heard {x : FrontEntry} {us vs : List Exchange} {e : Exchange} {action : Action}
    {env : Env} (h : Heard K token x (us ++ e :: vs)) (hevent : e.event = .action action env) :
    us = [] ∧ vs = [] ∧ ∃ waiting, Executed K x waiting action env e.reply ∧
      e.before = x.before.server.process ∧ e.after = x.after.server.process := by
  obtain ⟨ys, hcarries, hexplains⟩ := h
  cases hcarries with
  | none same quiet =>
      have hnil := hexplains.eq_nil
      simp at hnil
  | outside event inner occurred after =>
      obtain ⟨-, -, haction, -⟩ := acted_of_hosts hexplains.of_singleton hevent
      obtain rfl : event = .action action env := haction
      cases inner
  | executed waiting action' env' reply run =>
      obtain ⟨hus, hvs, haction, hreply, hbefore, hafter⟩ :=
        acted_of_hosts hexplains.of_singleton hevent
      obtain ⟨rfl, rfl⟩ := ServerEvent.action.inj haction
      have hstep : (x.before.server.step K (.action action' env')).2 = .acted e.reply := hreply
      rw [run.step] at hstep
      obtain rfl := ServerReply.acted.inj hstep
      refine ⟨hus, hvs, waiting, run, hbefore, ?_⟩
      rw [hafter]
      exact congrArg (fun result => Server.process (Prod.fst result)) run.step
  | ordered event request env' occurred operator orders after =>
      obtain ⟨-, -, haction, -⟩ := acted_of_hosts hexplains.of_singleton hevent
      obtain rfl : event = .action action env := haction
      cases orders

/-! ## Requests that were performed -/

section

variable {disk : Disk} {es : List Arrival}

/-- An event of the account service that is an action was performed for a request. -/
theorem exists_performs {earlier rest xs : List FrontEntry} {us vs : List Exchange} {e : Exchange}
    {action : Action} {env : Env} (hevent : e.event = .action action env)
    (h : (fronts K token).trace (.init disk) es = earlier ++ (xs ++ rest))
    (hheard : Explains (Heard K token) xs (us ++ e :: vs)) :
    ∃ pre x post, xs = pre ++ x :: post ∧ Performs K (earlier ++ pre) x e ∧
      Explains (Heard K token) post vs := by
  obtain ⟨pre, x, post, us', us'', vs', vs'', rfl, rfl, rfl, -, hx, hpost⟩ := hheard.of_mem
  obtain ⟨rfl, rfl, waiting, hexecuted, hbefore, hafter⟩ := executed_of_heard hx hevent
  refine ⟨pre, x, post, rfl, ?_, hpost⟩
  have hsplit : (fronts K token).trace (.init disk) es = (earlier ++ pre) ++ x :: (post ++ rest) := by
    rw [h]
    simp
  obtain ⟨place, read, now, -, hfound⟩ := hexecuted.found
  obtain ⟨y, hy, hadmits⟩ := admits_of_found hsplit hfound
  have hasks : Asks waiting.request action := by
    cases hadmits.admitted with
    | intro listeners console core running fromHere asks => exact asks action hexecuted.task
  exact .intro y hy waiting hadmits action env hexecuted.task hasks hevent hbefore hafter
    hexecuted.sent

/-- The turn of a request is told by its place. -/
theorem executed_unique {x : FrontEntry} {waiting waiting' : Waiting} {action action' : Action}
    {env env' : Env} {reply reply' : Node.Reply} (h : Executed K x waiting action env reply)
    (h' : Executed K x waiting' action' env' reply') :
    waiting = waiting' ∧ action = action' ∧ env = env' ∧ reply = reply' := by
  obtain ⟨place, read, now, hevent, hfound⟩ := h.found
  obtain ⟨place', read', now', hevent', hfound'⟩ := h'.found
  obtain ⟨rfl, -, rfl, rfl, rfl⟩ := Arrival.execute.inj (hevent.symm.trans hevent')
  obtain rfl := Option.some.inj (hfound.symm.trans hfound')
  obtain rfl := Option.some.inj (h.task.symm.trans h'.task)
  exact ⟨rfl, rfl, rfl, ServerReply.acted.inj (Prod.mk.inj (h.step.symm.trans h'.step)).2⟩

/-- What is executed is an event of the account service. -/
theorem block_of_executed {x : FrontEntry} {block : List Exchange} {waiting : Waiting}
    {action : Action} {env : Env} {reply : Node.Reply} (hheard : Heard K token x block)
    (h : Executed K x waiting action env reply) :
    ∃ e, block = [e] ∧ e.before = x.before.server.process ∧ e.event = .action action env ∧
      e.reply = reply := by
  obtain ⟨place, read, now, hevent, -⟩ := h.found
  obtain ⟨ys, hcarries, hexplains⟩ := hheard
  cases hcarries with
  | none same quiet => exact absurd h (quiet waiting action env reply)
  | outside event inner occurred after => cases hevent.symm.trans occurred
  | ordered event request env' occurred operator orders after => cases hevent.symm.trans occurred
  | executed waiting' action' env' reply' run =>
      obtain ⟨rfl, rfl, rfl, rfl⟩ := executed_unique h run
      have hacted : ((servers K).entry x.before.server (.action action env)).reply = .acted reply :=
        congrArg Prod.snd h.step
      cases hexplains.of_singleton with
      | none same quiet unsaved => exact absurd hacted (quiet reply)
      | opened bootstrap fs adminAddr publicAddr random io reload logged document reply' event =>
          cases event
      | configured update fs io logged document reply' event => cases event
      | stopped reply' event answer => cases hacted.symm.trans answer
      | acted action' env' reply' event answer =>
          obtain ⟨rfl, rfl⟩ := ServerEvent.action.inj event
          obtain rfl := ServerReply.acted.inj (hacted.symm.trans answer)
          exact ⟨_, rfl, rfl, rfl, rfl⟩

/-- What is answered without an error was executed. -/
theorem executed_of_answered {x : FrontEntry} (hx : x = (fronts K token).entry x.before x.event)
    {place : Nat} {locked : Bool} {env : Env} {read : Faults} {now : Nat} {waiting : Waiting}
    {action : Action} {answer : Answer} (hevent : x.event = .execute place locked env read now)
    (hfound : x.before.waiting[place]? = some waiting) (htask : waiting.task.action = some action)
    (hreply : x.reply = .answer answer) (hstatus : answer.status < 400) :
    ∃ reply, Executed K x waiting action env reply := by
  have hran := ran_execute K token x.before place locked env read now
  have hsent : (x.before.step K token (.execute place locked env read now)).2 = x.reply := by
    rw [← hevent, hx]
    rfl
  have hafter : (x.before.step K token (.execute place locked env read now)).1 = x.after := by
    rw [← hevent, hx]
    rfl
  generalize x.before.step K token (.execute place locked env read now) = result at hran hsent hafter
  cases hran with
  | idle still => cases hsent.trans hreply
  | done waiting' found _ done =>
      obtain rfl := Option.some.inj (found.symm.trans hfound)
      cases done with
      | answered answer' bare reason =>
          obtain rfl := Sent.answer.inj (hsent.trans hreply)
          rcases reason with hnone | ⟨-, rfl⟩
          · cases hnone.symm.trans htask
          · rw [status_finish] at hstatus
            exact absurd hstatus (by decide)
      | executed action' reply after free task step kept =>
          obtain rfl := Option.some.inj (task.symm.trans htask)
          obtain rfl : after = x.after := hafter
          exact ⟨reply, ⟨place, read, now, free ▸ hevent, hfound⟩, htask, step, hsent.symm⟩

/-- What is answered without an error is what the action returned. -/
theorem ok_of_executed {x : FrontEntry} {waiting : Waiting} {action : Action} {env : Env}
    {reply : Node.Reply} {answer : Answer} (h : Executed K x waiting action env reply)
    (hreply : x.reply = .answer answer) (hstatus : answer.status < 400) :
    ∃ value, reply = .ok value := by
  have hsent : sendReply waiting reply = .answer answer := h.sent.symm.trans hreply
  have hexecuted : ∃ core, (executeNode K.toNode core action env).2 = reply := by
    have hacted := congrArg Prod.snd h.step
    cases hserver : x.before.server with
    | stopped disk db history =>
        rw [hserver] at hacted
        cases hacted
    | running listeners console core =>
        rw [hserver, step_action] at hacted
        exact ⟨core, ServerReply.acted.inj hacted⟩
  obtain ⟨core, rfl⟩ := hexecuted
  cases hnode : (executeNode K.toNode core action env).2 with
  | ok value => exact ⟨value, rfl⟩
  | failed failure =>
      rw [hnode] at hsent
      obtain rfl := Sent.answer.inj hsent
      rw [status_finish] at hstatus
      exact absurd hstatus (not_lt.mpr (isError_of_failed hnode))
  | _ =>
      rw [hnode] at hsent
      cases hsent

end

/-! ## Tokens -/

/-- A session rests on three requests, each of which came, was let through and was performed: one
completed a sign-in of an identity and made a grant; a later one had the grant and made a password;
and a later one had the password and opened the session. -/
inductive Provenance (K : Crates) (earlier : List FrontEntry) (sid : Bytes)
    (verified : Farcaster.VerifiedIdentity) : Prop where
  | intro (p₁ p₂ p₃ p₄ : List FrontEntry) (x₁ x₂ x₃ : FrontEntry) (signIn issue login : Exchange)
      (grant : Bytes × Nat) (q : Password) (s : SessionRow)
      (order : earlier = p₁ ++ x₁ :: (p₂ ++ x₂ :: (p₃ ++ x₃ :: p₄)))
      (polled : Performs K p₁ x₁ signIn) (authorizes : Authorizes K.toNode signIn grant verified)
      (asked : Performs K (p₁ ++ x₁ :: p₂) x₂ issue) (issues : Issue issue q grant)
      (entered : Performs K (p₁ ++ x₁ :: (p₂ ++ x₂ :: p₃)) x₃ login) (opens : LogIn login s q)
      (session : s.id = sid)

theorem provenance_of_custody {disk : Disk} {es : List Arrival} {xs rest : List FrontEntry}
    {as : List Exchange} {sid : Bytes} {verified : Farcaster.VerifiedIdentity}
    (h : (fronts K token).trace (.init disk) es = xs ++ rest)
    (hheard : Explains (Heard K token) xs as) (hcustody : Custody K.toNode as sid verified) :
    Provenance K xs sid verified := by
  cases hcustody with
  | intro p₁ p₂ p₃ p₄ signIn issue login grant q s order authorizes issues opens session granted kept
      stays inForce =>
  obtain ⟨id, pollToken, env₁, hevent₁⟩ : ∃ id token env,
      signIn.event = .action (.poll id token) env := by
    cases authorizes with
    | intro core env id token login proof account before event consent made reply =>
        exact ⟨id, token, env, event⟩
  obtain ⟨presented, env₂, hevent₂⟩ : ∃ token env,
      issue.event = .action (.issue token q.name) env := by
    cases issues with
    | intro core env token before event presented granted salt verifier => exact ⟨token, env, event⟩
  obtain ⟨identifier, password, env₃, hevent₃⟩ : ∃ identifier password env,
      login.event = .action (.login identifier password) env := by
    cases opens with
    | intro env identifier password session event reply sid name fits =>
        exact ⟨identifier, password, env, event⟩
  rw [order] at hheard
  have h₁ : (fronts K token).trace (.init disk) es = [] ++ (xs ++ rest) := h
  obtain ⟨q₁, x₁, r₁, rfl, hsignIn, hheard₁⟩ := exists_performs hevent₁ h₁ hheard
  have h₂ : (fronts K token).trace (.init disk) es = (q₁ ++ [x₁]) ++ (r₁ ++ rest) := by
    rw [h]
    simp
  obtain ⟨q₂, x₂, r₂, rfl, hissue, hheard₂⟩ := exists_performs hevent₂ h₂ hheard₁
  have h₃ : (fronts K token).trace (.init disk) es =
      (q₁ ++ x₁ :: (q₂ ++ [x₂])) ++ (r₂ ++ rest) := by
    rw [h]
    simp
  obtain ⟨q₃, x₃, r₃, rfl, hlogin, -⟩ := exists_performs hevent₃ h₃ hheard₂
  rw [← List.append_cons] at hissue
  have hearlier : (q₁ ++ x₁ :: (q₂ ++ [x₂])) ++ q₃ = q₁ ++ x₁ :: (q₂ ++ x₂ :: q₃) := by simp
  rw [hearlier] at hlogin
  exact .intro q₁ q₂ q₃ r₃ x₁ x₂ x₃ signIn issue login grant q s rfl hsignIn authorizes hissue issues
    hlogin opens session

/-- The token that an action presents for its session. -/
theorem token_of_bearer {action : Action} {kind : TokenKind} {t : Bytes}
    (h : action.bearer = some (kind, t)) : t ∈ Action.token action := by
  cases action with
  | session token => exact congrArg some (Prod.mk.inj (Option.some.inj h)).2
  | preferences token => exact congrArg some (Prod.mk.inj (Option.some.inj h)).2
  | refresh token => exact congrArg some (Prod.mk.inj (Option.some.inj h)).2
  | logout token => exact congrArg some (Prod.mk.inj (Option.some.inj h)).2
  | _ => cases h

/-- **The requests behind a token.** In every run of the listeners of a server, with requests to both
of them in any order, restarts, new settings, and whatever failing: where a request that presents a
token of a session is answered without an error, the token stands in its header, and names a session
that goes back to three earlier requests, each of which was let through by the guard. One completed
a sign-in of an identity; a later one had the grant of it, and made a password; and a later one
logged in with the password. And the authority of that identity is in force. -/
theorem token_traced (hK : K.Lawful) (hjson : K.json.Lawful) (disk : Disk) (es : List Arrival)
    {pre post : List FrontEntry} {x : FrontEntry}
    (h : (fronts K token).trace (.init disk) es = pre ++ x :: post) {place : Nat} {locked : Bool}
    {env : Env} {read : Faults} {now : Nat} {waiting : Waiting} {action : Action} {kind : TokenKind}
    {t : Bytes} {answer : Answer} (hevent : x.event = .execute place locked env read now)
    (hfound : x.before.waiting[place]? = some waiting) (htask : waiting.task.action = some action)
    (hbearer : action.bearer = some (kind, t)) (hreply : x.reply = .answer answer)
    (hstatus : answer.status < 400) :
    waiting.request.headers.get (str "authorization") = some (str "Bearer " ++ t) ∧
      ∃ claims verified, tokenClaims K.toNode.credentials t = some claims ∧
        Provenance K pre claims.sid verified ∧
        x.before.server.process.inForce K.toNode = some (fingerprint verified) := by
  have hx := eq_entry_of_mem_trace (h ▸ List.mem_append_right _ List.mem_cons_self :
    x ∈ (fronts K token).trace (.init disk) es)
  obtain ⟨reply, hexecuted⟩ := executed_of_answered hx hevent hfound htask hreply hstatus
  obtain ⟨value, rfl⟩ := ok_of_executed hexecuted hreply hstatus
  obtain ⟨ns, -, hexplains⟩ := (simulates_account hK token).run
    (s := .init disk) (t := .init) ⟨_, rfl, rfl⟩ (meets_iff.mpr fun _ _ => trivial :
      (fronts K token).Meets (fun _ _ => True) (.init disk) es)
  rw [h] at hexplains
  obtain ⟨as, block, bs, htrace, hpre, hblock, -⟩ := hexplains.of_append_cons
  obtain ⟨e, rfl, hbefore, haction, hok⟩ := block_of_executed hblock hexecuted
  have haccepted : Node.accepted e = some (kind, t) := by
    rw [Node.accepted, haction, hok]
    exact hbearer
  obtain ⟨claims, verified, hclaims, hcustody, hforce⟩ :=
    custody (K := K.toNode) hjson htrace haccepted
  obtain ⟨y, -, hadmits⟩ := admits_of_found h hfound
  have hasks : Asks waiting.request action := by
    cases hadmits.admitted with
    | intro listeners console core running fromHere asks => exact asks action htask
  exact ⟨hasks.bearer t (token_of_bearer hbearer), claims, verified, hclaims,
    provenance_of_custody h hpre hcustody, hbefore ▸ hforce⟩

/-- The refresh token of the sample goes back to its requests. -/
theorem token_traced_sample : ∃ claims verified,
    tokenClaims sampleConsole.toNode.credentials sampleToken = some claims ∧
      Provenance sampleConsole
        ((fronts sampleConsole sampleOperator).trace (.init .missing) sampleAsked) claims.sid
        verified := by
  obtain ⟨htask, -, hstatus, -⟩ := sampleAnswered_runs
  obtain ⟨waiting, hfound, haction⟩ := Option.bind_eq_some_iff.mp htask
  obtain ⟨answer, hanswer, hok⟩ := exists_of_status hstatus
  obtain ⟨-, claims, verified, hclaims, hprovenance, -⟩ := token_traced sampleConsole_lawful
    Json.spaced_lawful .missing _ trace_sampleTurn rfl
    hfound haction rfl hanswer (Nat.lt_of_le_of_lt (Nat.le_of_eq hok) (by decide))
  exact ⟨claims, verified, hclaims, hprovenance⟩

end PurpleSky.Console
