import PurpleSky.Node.Sessions
import PurpleSky.Console.Policy

/-!
# The account service of a server

A server is started, saves settings and ends as a whole; what its account service sees of that are
events of a node. So a run of a server is a run of a node, and what holds over the runs of a node
holds in every server.

* `Hosts`: what one step of a server is for its account service.
* **`server_hosts_node`**: every run of a server is one of its account service.
-/

namespace PurpleSky.Console

open Bytes Node Credentials Machine

variable {K : Crates}

/-- The account service of a server. -/
def Server.process : Server → Process
  | .stopped _ db history => .stopped db history
  | .running _ _ core => .running core

/-- The settings that are saved, with their revision. -/
def Server.saved (K : Crates) : Server → Option ConfigDocument
  | .stopped disk _ _ => onDisk K disk.files
  | .running _ console _ => onDisk K console.files

/-- A reply says that new settings were saved, if only perhaps for good. -/
def ServerReply.Saves (reply : ServerReply) : Prop :=
  (∃ config, reply = .updated (.ok config)) ∨
    ∃ refusal, reply = .updated (.error refusal) ∧ refusal.error = "ConfigDurabilityUnknown"

/-- What a step of a server is for its account service. -/
inductive Hosts (K : Crates) (x : ServerEntry) : List Exchange → Prop
  /-- Nothing. -/
  | none (same : x.after.process = x.before.process) (quiet : ∀ reply, x.reply ≠ .acted reply)
      (unsaved : ¬x.reply.Saves) : Hosts K x []
  | acted (action : Action) (env : Env) (reply : Node.Reply) (event : x.event = .action action env)
      (answer : x.reply = .acted reply) :
      Hosts K x [⟨x.before.process, .action action env, reply, x.after.process⟩]
  /-- It was opened with the settings that are saved. They were saved before, or they are the first
  ones. -/
  | opened (bootstrap : Settings) (fs : Fs) (adminAddr publicAddr : SocketAddr) (random : Random)
      (io reload : Faults) (logged : Nat) (document : ConfigDocument) (reply : Node.Reply)
      (event : x.event = .boot bootstrap fs adminAddr publicAddr random io reload logged)
      (saved : x.after.saved K = some document)
      (read : x.before.saved K = some document ∨
        x.before.saved K = Option.none ∧ document = ⟨schemaVersion, 1, bootstrap⟩)
      (answer : x.reply = .booted ∨ x.reply = .refused) :
      Hosts K x [⟨x.before.process, .opening document.settings.account random io reload, reply,
        x.after.process⟩]
  /-- It was configured with new settings, which are saved now. -/
  | configured (update : ConfigUpdate) (fs : Fs) (io : Faults) (logged : Nat)
      (document : ConfigDocument) (reply : Node.Reply)
      (event : x.event = .update (some update) fs io logged false) (saves : x.reply.Saves)
      (saved : x.after.saved K = some document) (named : document.settings = update.settings) :
      Hosts K x [⟨x.before.process, .configure update.settings.account io true, reply,
        x.after.process⟩]
  /-- Its process was stopped, or ended after settings were replaced or were not. -/
  | stopped (reply : Node.Reply)
      (event : x.event = .stop ∨ ∃ input fs io logged, x.event = .update input fs io logged true)
      (answer : x.reply = .stopped) :
      Hosts K x [⟨x.before.process, .stop, reply, x.after.process⟩]

/-- A step that leaves the account service alone. -/
theorem hosts_none {server server' : Server} {event : ServerEvent} {reply : ServerReply}
    (h : server'.process = server.process) (hacted : ∀ r, reply ≠ .acted r)
    (hupdated : ∀ answer, reply ≠ .updated answer) :
    ∃ ns, server'.process = (nodes K.toNode).final server.process ns ∧
      Hosts K ⟨server, event, reply, server'⟩ ((nodes K.toNode).trace server.process ns) := by
  refine ⟨[], h, .none h hacted ?_⟩
  rintro (⟨config, hreply⟩ | ⟨refusal, hreply, -⟩)
  · exact hupdated _ hreply
  · exact hupdated _ hreply

/-- A step that is one event of the account service. -/
theorem hosts_one {server server' : Server} {event : ServerEvent} {reply : ServerReply}
    {e : Node.Event} (h : server'.process = (server.process.step K.toNode e).1)
    (hosts : Hosts K ⟨server, event, reply, server'⟩ [⟨server.process, e,
      (server.process.step K.toNode e).2, server'.process⟩]) :
    ∃ ns, server'.process = (nodes K.toNode).final server.process ns ∧
      Hosts K ⟨server, event, reply, server'⟩ ((nodes K.toNode).trace server.process ns) := by
  refine ⟨[e], h, ?_⟩
  rw [h] at hosts
  exact hosts

/-- The settings of a store that is opened were saved before, or are the first ones. -/
theorem first_of_openStore (hK : K.Lawful) {fs : Fs} {bootstrap : Settings} {disk disk' : Disk}
    {store : ConfigStore} (h : openStore K fs bootstrap disk = (.ok store, disk')) :
    onDisk K disk.files = some store.document ∨
      onDisk K disk.files = none ∧ store.document = ⟨schemaVersion, 1, bootstrap⟩ := by
  rcases @openStore_cases K fs bootstrap hK disk with
    ⟨d, disk₁, heq, -, hsaved⟩ | ⟨disk₁, hnone, -, heq | heq⟩ | ⟨e, disk₁, heq, -, -⟩
  · rw [h] at heq
    obtain rfl := Except.ok.inj (Prod.mk.inj heq).1
    exact .inl hsaved
  · rw [h] at heq
    obtain rfl := Except.ok.inj (Prod.mk.inj heq).1
    refine .inr ⟨Option.eq_none_iff_forall_ne_some.mpr fun d hd => ?_, rfl⟩
    obtain ⟨file, hfile, -⟩ := onDisk_eq_some.mp hd
    cases hnone.symm.trans hfile
  · rw [h] at heq
    cases (Prod.mk.inj heq).1
  · rw [h] at heq
    cases (Prod.mk.inj heq).1

/-- A process that is started has its account service opened, or leaves it alone. -/
theorem hosts_boot (hK : K.Lawful) (bootstrap : Settings) (fs : Fs) (adminAddr publicAddr : SocketAddr)
    (random : Random) (io reload : Faults) (logged : Nat) (disk : Disk) (db : Db)
    (history : List Deed) :
    let server := Server.stopped disk db history
    let event := ServerEvent.boot bootstrap fs adminAddr publicAddr random io reload logged
    ∃ ns, (server.step K event).1.process = (nodes K.toNode).final server.process ns ∧
      Hosts K ((servers K).entry server event) ((nodes K.toNode).trace server.process ns) := by
  intro server event
  have hentry : (servers K).entry server event = ⟨server, event,
      (boot K bootstrap fs adminAddr publicAddr random io reload logged disk db history).2,
      (boot K bootstrap fs adminAddr publicAddr random io reload logged disk db history).1⟩ := rfl
  show ∃ ns, (boot K bootstrap fs adminAddr publicAddr random io reload logged disk db
    history).1.process = _ ∧ Hosts K _ _
  rw [hentry]
  unfold boot
  split
  · exact hosts_none rfl (fun _ => ServerReply.noConfusion) fun _ => ServerReply.noConfusion
  · rename_i store disk' hread
    have hsaved := onDisk_of_openStore hK hread
    have hfirst := first_of_openStore hK hread
    simp only
    split
    · have hopening : server.process.step K.toNode
          (.opening store.document.settings.account random io reload) =
          openNode K.toNode db history store.document.settings.account random io reload := rfl
      split
      · rename_i core reply hopen
        refine hosts_one (e := .opening store.document.settings.account random io reload) ?_
          (.opened bootstrap fs adminAddr publicAddr random io reload logged store.document _ rfl hsaved
            hfirst (.inl rfl))
        rw [hopening, hopen]
        rfl
      · rename_i db' history' reply hopen
        refine hosts_one (e := .opening store.document.settings.account random io reload) ?_
          (.opened bootstrap fs adminAddr publicAddr random io reload logged store.document _ rfl hsaved
            hfirst (.inr rfl))
        rw [hopening, hopen]
        rfl
    · exact hosts_none rfl (fun _ => ServerReply.noConfusion) fun _ => ServerReply.noConfusion

/-- New settings that are saved configure the account service. -/
theorem hosts_update (hK : K.Lawful) (listeners : Listeners) (console : ConsoleState) (core : Core)
    (input : Option ConfigUpdate) (fs : Fs) (io : Faults) (logged : Nat) (killed : Bool) :
    let server := Server.running listeners console core
    let event := ServerEvent.update input fs io logged killed
    ∃ ns, (server.step K event).1.process = (nodes K.toNode).final server.process ns ∧
      Hosts K ((servers K).entry server event) ((nodes K.toNode).trace server.process ns) := by
  intro server event
  let outcome := updateConfig K listeners (core.guard K.toNode io) input fs logged console.control
    console.files
  have hstep : server.step K event = if killed then
      (.stopped (.directory outcome.files) core.db core.history, .stopped)
    else (.running listeners { console with control := outcome.control, files := outcome.files }
      (applyUpdate core outcome.applied), .updated outcome.answer) := rfl
  have hentry : (servers K).entry server event =
      ⟨server, event, (server.step K event).2, (server.step K event).1⟩ := rfl
  rw [hentry, hstep]
  split_ifs with hkilled
  · have hevent : event = .update input fs io logged true := by rw [← hkilled]
    exact hosts_one (e := .stop) rfl (.stopped _ (.inr ⟨input, fs, io, logged, hevent⟩) rfl)
  · rcases @updateConfig_cases K listeners console.control (core.guard K.toNode io) input fs logged
      console.files hK with hunsaved | ⟨update, hinput, hsaved⟩
    · have happlied : outcome.applied = none := hunsaved.applied
      rw [happlied]
      refine ⟨[], rfl, .none rfl (fun _ => ServerReply.noConfusion) ?_⟩
      obtain ⟨refusal, hanswer, hne⟩ := hunsaved.answer
      rintro (⟨config, hreply⟩ | ⟨refusal', hreply, herror⟩)
      · cases hanswer.symm.trans (ServerReply.updated.inj hreply)
      · obtain rfl := Except.error.inj (hanswer.symm.trans (ServerReply.updated.inj hreply))
        exact hne herror
    · have happlied : outcome.applied = some update.settings.account := hsaved.applied
      rw [happlied]
      have hsaves : (ServerReply.updated outcome.answer).Saves := by
        rcases hsaved.answer with ⟨response, hanswer⟩ | ⟨refusal, hanswer, herror⟩
        · exact .inl ⟨response, congrArg ServerReply.updated hanswer⟩
        · exact .inr ⟨refusal, congrArg ServerReply.updated hanswer, herror⟩
      have hevent : event = .update (some update) fs io logged false := by
        rw [← hinput, ← Bool.eq_false_iff.mpr hkilled]
      refine hosts_one (e := .configure update.settings.account io true) ?_
        (.configured update fs io logged _ _ hevent hsaves hsaved.published.written
          (by rw [hsaved.published.next]))
      have hcheck := guard_eq_ok.mp hsaved.guarded
      show Process.running (core.apply update.settings.account) =
        (if core.checkSettings K.toNode update.settings.account io then
          ((.running (core.apply update.settings.account), .configured) : Process × Node.Reply)
        else (.running core, .refused)).1
      rw [if_pos hcheck]

/-- An action of a server is that action of its account service. -/
theorem hosts_action (listeners : Listeners) (console : ConsoleState) (core : Core)
    (action : Action) (env : Env) :
    let server := Server.running listeners console core
    let event := ServerEvent.action action env
    ∃ ns, (server.step K event).1.process = (nodes K.toNode).final server.process ns ∧
      Hosts K ((servers K).entry server event) ((nodes K.toNode).trace server.process ns) := by
  intro server event
  have hprocess : (server.step K event).1.process = (executeNode K.toNode core action env).1 := by
    show (Server.step K (.running listeners console core) (.action action env)).1.process = _
    unfold Server.step
    simp only
    split
    · rename_i core' reply hexecuted
      rw [hexecuted]
      rfl
    · rename_i db history reply hexecuted
      rw [hexecuted]
      rfl
  have hreply : (server.step K event).2 = .acted (executeNode K.toNode core action env).2 := by
    show (Server.step K (.running listeners console core) (.action action env)).2 = _
    unfold Server.step
    simp only
    split
    · rename_i core' reply hexecuted
      rw [hexecuted]
    · rename_i db history reply hexecuted
      rw [hexecuted]
  refine ⟨[.action action env], hprocess, ?_⟩
  have hhosts := @Hosts.acted K ((servers K).entry server event) action env
    (executeNode K.toNode core action env).2 rfl hreply
  have hafter : ((servers K).entry server event).after.process =
      (executeNode K.toNode core action env).1 := hprocess
  rw [hafter] at hhosts
  exact hhosts

/-- An event that cannot happen. -/
theorem hosts_idle {server : Server} {event : ServerEvent}
    (h : server.step K event = (server, .idle)) :
    ∃ ns, (server.step K event).1.process = (nodes K.toNode).final server.process ns ∧
      Hosts K ((servers K).entry server event) ((nodes K.toNode).trace server.process ns) := by
  have hentry : (servers K).entry server event =
      ⟨server, event, (server.step K event).2, (server.step K event).1⟩ := rfl
  rw [hentry, h]
  exact hosts_none rfl (fun _ => ServerReply.noConfusion) fun _ => ServerReply.noConfusion

/-- Every event of a server is at most one event of its account service. -/
theorem simulates_node (hK : K.Lawful) :
    Simulates (nodes K.toNode) (servers K) (fun _ _ => True)
      (fun server p => server.process = p) (Hosts K) := by
  rintro server _ event rfl -
  cases server with
  | stopped disk db history =>
      cases event with
      | boot bootstrap fs adminAddr publicAddr random io reload logged =>
          exact hosts_boot hK bootstrap fs adminAddr publicAddr random io reload logged disk db history
      | console event => exact hosts_idle rfl
      | update input fs io logged killed => exact hosts_idle rfl
      | action action env => exact hosts_idle rfl
      | stop => exact hosts_idle rfl
  | running listeners console core =>
      cases event with
      | boot bootstrap fs adminAddr publicAddr random io reload logged => exact hosts_idle rfl
      | console event =>
          cases event with
          | update guard input fs logged => exact hosts_idle rfl
          | _ => exact hosts_none rfl (fun _ => ServerReply.noConfusion) fun _ => ServerReply.noConfusion
      | update input fs io logged killed =>
          exact hosts_update hK listeners console core input fs io logged killed
      | action action env => exact hosts_action listeners console core action env
      | stop => exact hosts_one (e := .stop) rfl (.stopped _ (.inl rfl) rfl)

end PurpleSky.Console
