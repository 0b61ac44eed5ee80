import PurpleSky.Lib.Machine
import PurpleSky.Console.ConfigStore
import PurpleSky.Console.Journal

/-!
# The operator's actions (`server.rs`)

What the console has under its lock: the settings store, the last reports, and the action that is
running with the finished ones. Requests start an action or save settings, a supervisor finishes the
action that it was started for, and any number of calls waits for the end of the last one.

* `start_cases`, `finish_*`, `updateConfig_cases`: what each of them may do to the control state.
-/

namespace PurpleSky.Console

open Bytes Node

/-! ## Actions -/

/-- Source: `journal.rs`, `OperationKind` -/
inductive OperationKind where
  | preflight
  | reconstruct
  deriving DecidableEq, Repr

/-- Source: `journal.rs`, `Operation` -/
structure Operation where
  id : Nat
  kind : OperationKind
  status : String
  startedAt : Nat
  finishedAt : Option Nat
  error : Option String
  configRevision : Nat
  deriving DecidableEq, Repr

/-- Source: `server.rs`, `Control` -/
structure Control where
  store : ConfigStore
  preflight : Option Json
  preflightRevision : Option Nat
  lastCheckAt : Option Nat
  lab : Option Json
  labRevision : Option Nat
  journal : Journal
  active : Option Operation
  recent : List Operation
  nextOperation : Nat
  shuttingDown : Bool

/-- What is fixed while a console runs: the addresses it listens on, and the settings it was started
with. Source: `server.rs`, `ConsoleState` -/
structure Listeners where
  adminAddr : SocketAddr
  publicAddr : SocketAddr
  startup : Settings

/-- Source: `server.rs`, `config_response` (its fields) -/
structure ConfigResponse where
  revision : Nat
  settings : Settings
  adminBind : SocketAddr
  publicBind : SocketAddr
  restartRequired : Bool
  deriving DecidableEq, Repr

/-- Source: `server.rs`, `ConfigUpdate` -/
structure ConfigUpdate where
  expectedRevision : Nat
  settings : Settings

/-- Source: `server.rs`, `ConsoleState::restart_required` -/
def Listeners.restartRequired (listeners : Listeners) (settings : Settings) : Bool :=
  settings.adminBind ≠ listeners.startup.adminBind || settings.publicBind ≠ listeners.startup.publicBind

/-- Source: `server.rs`, `config_response` -/
def Listeners.configResponse (listeners : Listeners) (control : Control) : ConfigResponse :=
  let document := control.store.document
  ⟨document.revision, document.settings, listeners.adminAddr, listeners.publicAddr,
    listeners.restartRequired document.settings⟩

namespace Control

/-- An event of the journal. -/
def log (control : Control) (logged : Nat) (level event message : String) : Control :=
  { control with journal := control.journal.push logged level event message }

/-- Source: `server.rs`, `ConsoleState::new` (`Control`) -/
def new (store : ConfigStore) (logged : Nat) : Control where
  store := store
  preflight := none
  preflightRevision := none
  lastCheckAt := none
  lab := none
  labRevision := none
  journal := Journal.empty.push logged "info" "node_started"
    "Management console started; production PDS is unavailable"
  active := none
  recent := []
  nextOperation := 1
  shuttingDown := false

/-- The last peer check is not shown any more. -/
def forgetCheck (control : Control) : Control :=
  { control with preflight := none, preflightRevision := none, lastCheckAt := none }

/-- Source: `server.rs`, `unavailable` -/
def unavailable (control : Control) : Option Refusal :=
  if control.shuttingDown then some ⟨503, "ShuttingDown", "Node is shutting down"⟩
  else if control.active.isSome then some ⟨409, "Busy", "An operator action is running"⟩
  else none

end Control

/-! ## Starting -/

/-- What the journal tells of an action that starts. Source: `server.rs`, `start` -/
def OperationKind.startMessage : OperationKind → String
  | preflight => "Reading configured peers; no network writes will be sent"
  | reconstruct => "Starting a synthetic reconstruction in a new local directory"

/-- What a supervisor tells of an action that gave no report. Source: `server.rs`, `start` -/
def OperationKind.failureMessage : OperationKind → String
  | preflight => "Preflight task failed"
  | reconstruct => "Offline reconstruction failed; check data directory access and free space"

/-- The peers that an action reads. `builds` tells for which peers a client can be built.
Source: `server.rs`, `start` (`client`) -/
def checkPeers (K : Crates) (builds : PreflightConfig → Bool) (settings : Settings) :
    OperationKind → Except Refusal Unit
  | .reconstruct => .ok ()
  | .preflight =>
      match settings.preflight K with
      | .ok (some config) =>
          if builds config then .ok ()
          else .error ⟨500, "PreflightError", "Could not construct preflight client"⟩
      | .ok none => .error ⟨400, "NoEndpoints", "Add endpoints in Settings before checking peers"⟩
      | .error _ => .error ⟨400, "InvalidConfig", "Peer settings are invalid"⟩

/-- Source: `server.rs`, `start` (up to its supervisor) -/
def Control.start (K : Crates) (builds : PreflightConfig → Bool) (kind : OperationKind)
    (startedAt logged : Nat) (control : Control) : Except Refusal Operation × Control :=
  match control.unavailable with
  | some refusal => (.error refusal, control)
  | none =>
      match checkPeers K builds control.store.document.settings kind with
      | .error refusal => (.error refusal, control)
      | .ok _ =>
          let operation : Operation :=
            ⟨control.nextOperation, kind, "running", startedAt, none, none,
            control.store.document.revision⟩
          (.ok operation,
            { control with nextOperation := control.nextOperation + 1, active := some operation }.log
              logged "info" "operation_started" kind.startMessage)

/-- What a supervisor makes of what its task gave, which is nothing where the task failed or
panicked. Source: `server.rs`, `start` (its supervisor) -/
def supervise (kind : OperationKind) (outcome : Option Json) : Except String Json :=
  okOr outcome kind.failureMessage

/-! ## Finishing -/

/-- Whether a report says that all peers are healthy. -/
def healthy (report : Json) : Bool := ((report.get (str "healthy")).bind Json.asBool).getD false

/-- What is shown after an action gave a report.
Source: `server.rs`, `ConsoleState::finish` (`Ok`) -/
def Control.succeed (operation : Operation) (report : Json) (logged : Nat)
    (control : Control) : Control :=
  match operation.kind with
  | .preflight =>
      let control := { control with
        preflight := some report
        preflightRevision := some operation.configRevision
        lastCheckAt := operation.finishedAt }
      if healthy report then
        control.log logged "info" "preflight_finished"
          "Peer checks passed; storage reconstruction is still unproven"
      else control.log logged "warning" "preflight_finished"
        "Peer checks finished with unhealthy or unknown observations"
  | .reconstruct =>
      { control with lab := some report, labRevision := some operation.configRevision }.log logged "info"
        "reconstruction_finished" "Offline fixture reconstruction passed; this is not network proof"

/-- What stands for the report of a reconstruction that failed. -/
def labFailed : Json :=
  .object [(str "error", .string (str "LabFailed")), (str "network_proof", .bool false)]

/-- What is shown after an action failed. Source: `server.rs`, `ConsoleState::finish` (`Err`) -/
def Control.fail (operation : Operation) (error : String) (logged : Nat)
    (control : Control) : Control :=
  let control := match operation.kind with
    | .preflight => control.forgetCheck
    | .reconstruct =>
        { control with lab := some labFailed, labRevision := some operation.configRevision }
  control.log logged "error" "operation_failed" error

/-- The action is not running any more, and is the most recent one. -/
def Control.retire (operation : Operation) (control : Control) : Control :=
  let recent := if control.recent.length = operationCapacity then control.recent.dropLast
    else control.recent
  { control with active := none, recent := operation :: recent }

/-- The action as it finished. Source: `server.rs`, `ConsoleState::finish` (on `operation`) -/
def Operation.finish (operation : Operation) (finishedAt : Nat) : Except String Json → Operation
  | .ok _ => { operation with finishedAt := some finishedAt, status := "succeeded" }
  | .error error =>
      { operation with finishedAt := some finishedAt, status := "failed", error := some error }

/-- Source: `server.rs`, `ConsoleState::finish` -/
def Control.finish (operation : Operation) (result : Except String Json) (finishedAt logged : Nat)
    (control : Control) : Control :=
  let operation := operation.finish finishedAt result
  match result with
  | .ok report => (control.succeed operation report logged).retire operation
  | .error error => (control.fail operation error logged).retire operation

/-! ## Saving settings -/

/-- What a request for new settings leaves: its answer, the account settings that take effect, the
control state and the files. -/
structure UpdateOutcome where
  answer : Except Refusal ConfigResponse
  applied : Option Node.Settings
  control : Control
  files : Files

/-- `guard` is the answer of the account service to new account settings.
Source: `server.rs`, `update_config` -/
def updateConfig (K : Crates) (listeners : Listeners) (guard : Node.Settings → Except String Unit)
    (input : Option ConfigUpdate) (fs : Fs) (logged : Nat) (control : Control) (files : Files) :
    UpdateOutcome :=
  match input with
  | none =>
      ⟨.error ⟨400, "InvalidConfig", "Expected a bounded JSON settings document and revision"⟩,
      none, control, files⟩
  | some input =>
    match control.unavailable with
    | some refusal => ⟨.error refusal, none, control, files⟩
    | none =>
      match guard input.settings.account with
      | .error message => ⟨.error ⟨400, "InvalidConfig", message⟩, none, control, files⟩
      | .ok _ =>
        match control.store.replace K fs input.expectedRevision input.settings files with
        | (.ok _, store, files) =>
            let control := { control with store := store }.forgetCheck.log logged "info" "config_updated"
              "Settings saved; rerun peer checks for this revision"
            ⟨.ok (listeners.configResponse control), some store.document.settings.account,
              control, files⟩
        | (.error .conflict, store, files) =>
            ⟨.error ⟨409, "ConfigConflict",
              "Settings changed; fetch the latest revision and reapply your edits"⟩,
              none, { control with store := store }, files⟩
        | (.error (.invalid message), store, files) =>
            ⟨.error ⟨400, "InvalidConfig", message⟩, none, { control with store := store }, files⟩
        | (.error (.persistence _), store, files) =>
            let control := { control with store := store }
            if store.document.revision ≠ input.expectedRevision then
              ⟨.error ⟨500, "ConfigDurabilityUnknown",
                "Settings published but durability is uncertain; " ++
                "reread configuration and check disk health before retrying"⟩,
                some store.document.settings.account,
                control.forgetCheck.log logged "error" "config_durability_unknown"
                  ("Settings published but directory sync failed; " ++
                    "reread configuration before retrying"), files⟩
            else
              ⟨.error ⟨500, "ConfigSaveFailed",
                "Settings could not be saved; active settings are unchanged"⟩, none,
                control.log logged "error" "config_save_failed"
                  "Settings could not be saved; check data directory access and free space", files⟩

/-! ## Waiting for the end -/

/-- A call that waits for the last action. While it has not waited yet it may be notified already.
Source: `server.rs`, `ConsoleState::drain` -/
inductive Drain where
  | entering (notified : Bool)
  | waiting
  | returned
  deriving DecidableEq, Repr

/-- Every call that has a notification to come gets it. One that waits begins again.
Source: `server.rs`, `ConsoleState::finish` (`notify_waiters`) -/
def Drain.notify : Drain → Drain
  | entering _ => entering true
  | waiting => entering false
  | returned => returned

/-- Nothing is accepted from now on. -/
def Control.shutDown (logged : Nat) (control : Control) : Control :=
  if control.shuttingDown then control
  else { control with shuttingDown := true }.log logged "info" "shutdown_started"
    "Finishing accepted diagnostics before shutdown"

/-- One round of a call, under the lock. A call that waits is not scheduled.
Source: `server.rs`, `ConsoleState::drain` (the body of its loop) -/
def Drain.advance (logged : Nat) (control : Control) : Drain → Drain × Control
  | entering notified =>
      let control := control.shutDown logged
      (if control.active.isNone then returned else if notified then entering false else waiting, control)
  | waiting => (waiting, control)
  | returned => (returned, control)

/-! ## The console -/

/-- A console: its files, what is under its lock, the actions whose supervisors run, and the calls
that wait for the end. Source: `server.rs`, `ConsoleState` -/
structure ConsoleState where
  files : Files
  control : Control
  tasks : List Operation
  drains : List Drain

/-- Source: `server.rs`, `ConsoleState::new` -/
def ConsoleState.new (store : ConfigStore) (files : Files) (logged : Nat) : ConsoleState :=
  ⟨files, .new store logged, [], []⟩

/-- What happens to a console; each event has the lock. `finish` comes from the supervisor of a
task, `drain` begins a call and `advance` is a round of one. -/
inductive ConsoleEvent where
  | start (kind : OperationKind) (builds : PreflightConfig → Bool) (startedAt logged : Nat)
  | finish (task : Nat) (outcome : Option Json) (finishedAt logged : Nat)
  | update (guard : Node.Settings → Except String Unit) (input : Option ConfigUpdate) (fs : Fs)
      (logged : Nat)
  | drain
  | advance (call : Nat) (logged : Nat)

/-- What a console answers. `idle` is for events that cannot happen. -/
inductive ConsoleReply where
  | idle
  | accepted (operation : Operation)
  | finished (operation : Operation)
  | updated (answer : Except Refusal ConfigResponse) (applied : Option Node.Settings)
  | refused (refusal : Refusal)
  | draining (call : Drain)

variable (K : Crates) (listeners : Listeners)

/-- The console after an event, and its answer. -/
def ConsoleState.step (s : ConsoleState) : ConsoleEvent → ConsoleState × ConsoleReply
  | .start kind builds startedAt logged =>
      match s.control.start K builds kind startedAt logged with
      | (.error refusal, control) => ({ s with control := control }, .refused refusal)
      | (.ok operation, control) =>
          ({ s with control := control, tasks := s.tasks ++ [operation] }, .accepted operation)
  | .finish task outcome finishedAt logged =>
      match s.tasks[task]? with
      | none => (s, .idle)
      | some operation =>
          let result := supervise operation.kind outcome
          ({ s with
              control := s.control.finish operation result finishedAt logged
              tasks := s.tasks.eraseIdx task
              drains := s.drains.map Drain.notify }, .finished (operation.finish finishedAt result))
  | .update guard input fs logged =>
      let outcome := updateConfig K listeners guard input fs logged s.control s.files
      ({ s with control := outcome.control, files := outcome.files },
        .updated outcome.answer outcome.applied)
  | .drain => ({ s with drains := s.drains ++ [.entering false] }, .draining (.entering false))
  | .advance call logged =>
      match s.drains[call]? with
      | none => (s, .idle)
      | some drain =>
          let (drain, control) := drain.advance logged s.control
          ({ s with control := control, drains := s.drains.set call drain }, .draining drain)

/-- Consoles as a machine. -/
def consoles : Machine ConsoleState ConsoleEvent ConsoleReply := ⟨ConsoleState.step K listeners⟩

/-- A step of a console. -/
abbrev ConsoleEntry := Machine.Entry ConsoleState ConsoleEvent ConsoleReply

/-! ## What each of them may do -/

variable {K listeners} {control : Control}

/-- Nothing is unavailable when nothing runs and the end has not begun. -/
theorem Control.unavailable_eq_none :
    control.unavailable = none ↔ control.shuttingDown = false ∧ control.active = none := by
  unfold Control.unavailable
  split_ifs with hdown hactive
  · simp [hdown]
  · simp only [Option.isSome_iff_ne_none, ne_eq] at hactive
    simp [hactive]
  · have hdown : control.shuttingDown = false := by simpa using hdown
    have hactive : control.active = none := by simpa using hactive
    exact iff_of_true rfl ⟨hdown, hactive⟩

/-- What is unavailable is not in doubt. -/
theorem Control.unavailable_error {refusal : Refusal} (h : control.unavailable = some refusal) :
    refusal.error ≠ "ConfigDurabilityUnknown" := by
  unfold Control.unavailable at h
  split_ifs at h
  · obtain rfl := Option.some.inj h
    decide
  · obtain rfl := Option.some.inj h
    decide

/-- An action is refused, or it is the next one and nothing else runs. -/
theorem Control.start_cases {builds : PreflightConfig → Bool} {kind : OperationKind}
    {startedAt logged : Nat} :
    (∃ refusal, control.start K builds kind startedAt logged = (.error refusal, control)) ∨
    ∃ operation : Operation, control.shuttingDown = false ∧ control.active = none ∧
      operation = ⟨control.nextOperation, kind, "running", startedAt, none, none,
        control.store.document.revision⟩ ∧
      control.start K builds kind startedAt logged = (.ok operation,
        { control with nextOperation := control.nextOperation + 1, active := some operation }.log
          logged "info" "operation_started" kind.startMessage) := by
  unfold Control.start
  cases hfree : control.unavailable with
  | some refusal => exact .inl ⟨refusal, rfl⟩
  | none =>
      obtain ⟨hdown, hactive⟩ := Control.unavailable_eq_none.mp hfree
      simp only
      cases checkPeers K builds control.store.document.settings kind with
      | error refusal => exact .inl ⟨refusal, rfl⟩
      | ok _ => exact .inr ⟨_, hdown, hactive, rfl, rfl⟩

/-- An action is accepted exactly where none is active, the end has not begun, and the peers that it
reads can be read. -/
theorem Control.start_ok_iff {builds : PreflightConfig → Bool} {kind : OperationKind}
    {startedAt logged : Nat} :
    (∃ operation, (control.start K builds kind startedAt logged).1 = .ok operation) ↔
      control.shuttingDown = false ∧ control.active = none ∧
        checkPeers K builds control.store.document.settings kind = .ok () := by
  rw [← and_assoc, ← Control.unavailable_eq_none]
  unfold Control.start
  cases hfree : control.unavailable with
  | some refusal => simp
  | none =>
      cases hpeers : checkPeers K builds control.store.document.settings kind with
      | error refusal => simp
      | ok _ => simp

/-- What a console shows of the peers. -/
def Control.shownCheck (control : Control) : Option Json × Option Nat × Option Nat :=
  (control.preflight, control.preflightRevision, control.lastCheckAt)

/-- Nothing but the settings, the reports and the journal is changed, and no end is logged. -/
structure Control.Quiet (control control' : Control) : Prop where
  active : control'.active = control.active
  recent : control'.recent = control.recent
  nextOperation : control'.nextOperation = control.nextOperation
  shuttingDown : control'.shuttingDown = control.shuttingDown
  journal : control'.journal = control.journal ∨ ∃ logged level event message,
    event ≠ "shutdown_started" ∧ control'.journal = control.journal.push logged level event message

/-- A report leaves the actions and the settings alone. -/
theorem Control.succeed_quiet (operation : Operation) (report : Json) (logged : Nat) :
    control.Quiet (control.succeed operation report logged) ∧
    (control.succeed operation report logged).store = control.store := by
  unfold Control.succeed
  split
  · simp only
    split_ifs
    · exact ⟨⟨rfl, rfl, rfl, rfl, .inr ⟨_, _, _, _, by decide, rfl⟩⟩, rfl⟩
    · exact ⟨⟨rfl, rfl, rfl, rfl, .inr ⟨_, _, _, _, by decide, rfl⟩⟩, rfl⟩
  · exact ⟨⟨rfl, rfl, rfl, rfl, .inr ⟨_, _, _, _, by decide, rfl⟩⟩, rfl⟩

/-- So does a failure. -/
theorem Control.fail_quiet (operation : Operation) (error : String) (logged : Nat) :
    control.Quiet (control.fail operation error logged) ∧
    (control.fail operation error logged).store = control.store := by
  unfold Control.fail
  split
  · exact ⟨⟨rfl, rfl, rfl, rfl, .inr ⟨_, _, _, _, by decide, rfl⟩⟩, rfl⟩
  · exact ⟨⟨rfl, rfl, rfl, rfl, .inr ⟨_, _, _, _, by decide, rfl⟩⟩, rfl⟩

/-- An action that finishes is shown, and then it is the most recent one. -/
theorem Control.finish_cases (control : Control) (operation : Operation)
    (result : Except String Json)
    (finishedAt logged : Nat) :
    ∃ control', control.Quiet control' ∧ control'.store = control.store ∧
      control.finish operation result finishedAt logged =
        control'.retire (operation.finish finishedAt result) := by
  cases result with
  | ok report =>
      obtain ⟨hquiet, hstore⟩ :=
        @Control.succeed_quiet control (operation.finish finishedAt (.ok report))
        report logged
      exact ⟨_, hquiet, hstore, rfl⟩
  | error error =>
      obtain ⟨hquiet, hstore⟩ :=
        @Control.fail_quiet control (operation.finish finishedAt (.error error))
        error logged
      exact ⟨_, hquiet, hstore, rfl⟩

section Saving

variable {guard : Node.Settings → Except String Unit} {input : Option ConfigUpdate} {fs : Fs}
  {logged : Nat} {files : Files}

/-- Nothing is saved while an action runs or the end has begun. -/
theorem updateConfig_unavailable {refusal : Refusal} (h : control.unavailable = some refusal) :
    ∃ refusal, updateConfig K listeners guard input fs logged control files =
      ⟨.error refusal, none, control, files⟩ := by
  cases input with
  | none => exact ⟨_, rfl⟩
  | some input =>
      refine ⟨refusal, ?_⟩
      unfold updateConfig
      rw [h]

/-- Saving settings leaves the actions alone. -/
theorem updateConfig_quiet :
    control.Quiet (updateConfig K listeners guard input fs logged control files).control := by
  unfold updateConfig
  split
  · exact ⟨rfl, rfl, rfl, rfl, .inl rfl⟩
  split
  · exact ⟨rfl, rfl, rfl, rfl, .inl rfl⟩
  split
  · exact ⟨rfl, rfl, rfl, rfl, .inl rfl⟩
  split
  · exact ⟨rfl, rfl, rfl, rfl, .inr ⟨_, _, _, _, by decide, rfl⟩⟩
  · exact ⟨rfl, rfl, rfl, rfl, .inl rfl⟩
  · exact ⟨rfl, rfl, rfl, rfl, .inl rfl⟩
  · simp only
    split_ifs
    · exact ⟨rfl, rfl, rfl, rfl, .inr ⟨_, _, _, _, by decide, rfl⟩⟩
    · exact ⟨rfl, rfl, rfl, rfl, .inr ⟨_, _, _, _, by decide, rfl⟩⟩

/-- An update that is not published changes neither the settings nor the reports. -/
structure Unsaved (control : Control) (files : Files) (outcome : UpdateOutcome) : Prop where
  applied : outcome.applied = none
  files : outcome.files.lookup settingsName = files.lookup settingsName
  store : outcome.control.store = control.store
  shown : outcome.control.shownCheck = control.shownCheck
  answer : ∃ refusal, outcome.answer = .error refusal ∧ refusal.error ≠ "ConfigDurabilityUnknown"

/-- An update that is published: nothing else runs, the account service agrees, and the reports on
the settings before are not shown any more. -/
structure Saved (K : Crates) (guard : Node.Settings → Except String Unit) (control : Control)
    (files : Files) (update : ConfigUpdate) (outcome : UpdateOutcome) : Prop where
  free : control.unavailable = none
  guarded : guard update.settings.account = .ok ()
  published : Published K control.store update.expectedRevision update.settings files outcome.files
    outcome.control.store.document
  applied : outcome.applied = some update.settings.account
  shown : outcome.control.shownCheck = (none, none, none)
  answer : (∃ response, outcome.answer = .ok response) ∨
    ∃ refusal, outcome.answer = .error refusal ∧ refusal.error = "ConfigDurabilityUnknown"

/-- Settings are saved, or nothing changes. -/
theorem updateConfig_cases (hK : K.Lawful) :
    let outcome := updateConfig K listeners guard input fs logged control files
    Unsaved control files outcome ∨
    ∃ update, input = some update ∧ Saved K guard control files update outcome := by
  intro outcome
  have hrefused : ∀ refusal : Refusal, outcome = ⟨.error refusal, none, control, files⟩ →
      refusal.error ≠ "ConfigDurabilityUnknown" → Unsaved control files outcome := by
    intro refusal heq hne
    rw [heq]
    exact ⟨rfl, rfl, rfl, rfl, refusal, rfl, hne⟩
  have hinvalid : "InvalidConfig" ≠ "ConfigDurabilityUnknown" := by decide
  rcases input with _ | update
  · exact .inl (hrefused _ rfl (by decide))
  · match hfree : control.unavailable with
    | some refusal =>
        refine .inl (hrefused refusal ?_ (Control.unavailable_error hfree))
        simp only [outcome, updateConfig, hfree]
    | none =>
        match hguard : guard update.settings.account with
        | .error message =>
            refine .inl (hrefused ⟨400, "InvalidConfig", message⟩ ?_ hinvalid)
            simp only [outcome, updateConfig, hfree, hguard]
        | .ok _ =>
            obtain ⟨⟨result, store, files'⟩, hreplace⟩ :
                ∃ r, control.store.replace K fs update.expectedRevision update.settings files = r :=
              ⟨_, rfl⟩
            have houtcome :
                outcome = updateConfig K listeners guard (some update) fs logged control files :=
              rfl
            rcases ConfigStore.replace_cases hK hreplace with
              ⟨hpublished, rfl | rfl⟩ | ⟨e, rfl, -, rfl, hsame⟩
            · simp only [updateConfig, hfree, hguard, hreplace] at houtcome
              refine .inr ⟨update, rfl, ?_⟩
              rw [houtcome]
              refine ⟨hfree, hguard, hpublished, ?_, rfl, .inl ⟨_, rfl⟩⟩
              rw [hpublished.next]
            · have hne : store.document.revision ≠ update.expectedRevision := by
                rw [hpublished.next, hpublished.named]
                exact Nat.succ_ne_self _
              simp only [updateConfig, hfree, hguard, hreplace, synchronizationFailed,
                if_pos hne] at houtcome
              refine .inr ⟨update, rfl, ?_⟩
              rw [houtcome]
              refine ⟨hfree, hguard, hpublished, ?_, rfl, .inr ⟨_, rfl, rfl⟩⟩
              rw [hpublished.next]
            · refine .inl ?_
              cases e with
              | conflict =>
                  simp only [updateConfig, hfree, hguard, hreplace] at houtcome
                  rw [houtcome]
                  exact ⟨rfl, hsame, rfl, rfl, _, rfl, by decide⟩
              | invalid message =>
                  simp only [updateConfig, hfree, hguard, hreplace] at houtcome
                  rw [houtcome]
                  exact ⟨rfl, hsame, rfl, rfl, _, rfl, hinvalid⟩
              | persistence message =>
                  have hnamed : ¬control.store.document.revision ≠ update.expectedRevision := by
                    intro hne
                    rw [ConfigStore.replace_of_ne hne.symm] at hreplace
                    cases hreplace
                  simp only [updateConfig, hfree, hguard, hreplace, if_neg hnamed] at houtcome
                  rw [houtcome]
                  exact ⟨rfl, hsame, rfl, rfl, _, rfl, by decide⟩

end Saving

/-! ## The steps of a console -/

variable {s : ConsoleState}

/-- A request for an action is refused and changes nothing, or starts the next action. -/
theorem step_start (kind : OperationKind) (builds : PreflightConfig → Bool)
    (startedAt logged : Nat) :
    (∃ refusal, (consoles K listeners).step s (.start kind builds startedAt logged) =
      (s, .refused refusal)) ∨
    ∃ operation : Operation, s.control.shuttingDown = false ∧ s.control.active = none ∧
      operation = ⟨s.control.nextOperation, kind, "running", startedAt, none, none,
        s.control.store.document.revision⟩ ∧
      (consoles K listeners).step s (.start kind builds startedAt logged) =
        ({ s with
          control := { s.control with
            nextOperation := s.control.nextOperation + 1
            active := some operation }.log logged "info" "operation_started" kind.startMessage
          tasks := s.tasks ++ [operation] }, .accepted operation) := by
  rcases @Control.start_cases K s.control builds kind startedAt logged with
    ⟨refusal, heq⟩ | ⟨operation, hdown, hactive, hoperation, heq⟩
  · refine .inl ⟨refusal, ?_⟩
    simp only [consoles, ConsoleState.step, heq]
  · refine .inr ⟨operation, hdown, hactive, hoperation, ?_⟩
    simp only [consoles, ConsoleState.step, heq]

/-- A request for an action is accepted exactly where the action can start. -/
theorem step_start_accepted_iff {kind : OperationKind} {builds : PreflightConfig → Bool}
    {startedAt logged : Nat} :
    (∃ operation, ((consoles K listeners).step s (.start kind builds startedAt logged)).2 =
        .accepted operation) ↔
      s.control.shuttingDown = false ∧ s.control.active = none ∧
        checkPeers K builds s.control.store.document.settings kind = .ok () := by
  rw [← @Control.start_ok_iff K s.control builds kind startedAt logged]
  simp only [consoles, ConsoleState.step]
  rcases s.control.start K builds kind startedAt logged with ⟨refusal | operation, control⟩
  · simp
  · simp

/-- A supervisor finishes the action of its task; there may be no such task. -/
theorem step_finish (task : Nat) (outcome : Option Json) (finishedAt logged : Nat) :
    (consoles K listeners).step s (.finish task outcome finishedAt logged) = (s, .idle) ∨
    ∃ operation, s.tasks[task]? = some operation ∧
      (consoles K listeners).step s (.finish task outcome finishedAt logged) =
        ({ s with
          control := s.control.finish operation (supervise operation.kind outcome) finishedAt logged
          tasks := s.tasks.eraseIdx task
          drains := s.drains.map Drain.notify },
          .finished (operation.finish finishedAt (supervise operation.kind outcome))) := by
  match htask : s.tasks[task]? with
  | none =>
      refine .inl ?_
      simp only [consoles, ConsoleState.step, htask]
  | some operation =>
      refine .inr ⟨operation, rfl, ?_⟩
      simp only [consoles, ConsoleState.step, htask]

/-- A call that has not waited has a round; another one stays as it is. -/
theorem step_advance (call logged : Nat) :
    (consoles K listeners).step s (.advance call logged) = (s, .idle) ∨
    (∃ drain, s.drains[call]? = some drain ∧ (drain = .waiting ∨ drain = .returned) ∧
      (consoles K listeners).step s (.advance call logged) =
        ({ s with drains := s.drains.set call drain }, .draining drain)) ∨
    ∃ notified, s.drains[call]? = some (.entering notified) ∧
      (consoles K listeners).step s (.advance call logged) =
        let control := s.control.shutDown logged
        let drain := if control.active.isNone then .returned else if notified then .entering false
          else .waiting
        ({ s with control := control, drains := s.drains.set call drain }, .draining drain) := by
  match hcall : s.drains[call]? with
  | none =>
      refine .inl ?_
      simp only [consoles, ConsoleState.step, hcall]
  | some (.entering notified) =>
      refine .inr (.inr ⟨notified, rfl, ?_⟩)
      simp only [consoles, ConsoleState.step, hcall, Drain.advance]
  | some .waiting =>
      refine .inr (.inl ⟨_, rfl, .inl rfl, ?_⟩)
      simp only [consoles, ConsoleState.step, hcall, Drain.advance]
  | some .returned =>
      refine .inr (.inl ⟨_, rfl, .inr rfl, ?_⟩)
      simp only [consoles, ConsoleState.step, hcall, Drain.advance]

/-- Shutting down changes nothing but the journal, and logs the end when it begins. -/
theorem Control.shutDown_cases (control : Control) (logged : Nat) :
    (control.shuttingDown = true ∧ control.shutDown logged = control) ∨
    (control.shuttingDown = false ∧ control.shutDown logged =
      { control with shuttingDown := true }.log logged "info" "shutdown_started"
        "Finishing accepted diagnostics before shutdown") := by
  unfold Control.shutDown
  by_cases h : control.shuttingDown = true
  · exact .inl ⟨h, if_pos h⟩
  · exact .inr ⟨Bool.not_eq_true _ ▸ h, if_neg h⟩

@[simp] theorem Control.shuttingDown_shutDown (control : Control) (logged : Nat) :
    (control.shutDown logged).shuttingDown = true := by
  rcases control.shutDown_cases logged with ⟨hdown, heq⟩ | ⟨-, heq⟩
  · rw [heq, hdown]
  · rw [heq]
    rfl

@[simp] theorem Control.active_shutDown (control : Control) (logged : Nat) :
    (control.shutDown logged).active = control.active := by
  rcases control.shutDown_cases logged with ⟨-, heq⟩ | ⟨-, heq⟩
  · rw [heq]
  · rw [heq]
    rfl

@[simp] theorem Control.store_shutDown (control : Control) (logged : Nat) :
    (control.shutDown logged).store = control.store := by
  rcases control.shutDown_cases logged with ⟨-, heq⟩ | ⟨-, heq⟩
  · rw [heq]
  · rw [heq]
    rfl

/-- Nothing is saved while an action runs or after the end began. -/
theorem step_update_refused (guard : Node.Settings → Except String Unit)
    (input : Option ConfigUpdate)
    (fs : Fs) (logged : Nat) (h : s.control.shuttingDown = true ∨ s.control.active ≠ none) :
    ∃ refusal, (consoles K listeners).step s (.update guard input fs logged) =
      (s, .updated (.error refusal) none) := by
  cases hfree : s.control.unavailable with
  | none =>
      obtain ⟨hdown, hactive⟩ := Control.unavailable_eq_none.mp hfree
      rcases h with h | h
      · rw [hdown] at h
        cases h
      · exact absurd hactive h
  | some refusal =>
      obtain ⟨refusal, heq⟩ := @updateConfig_unavailable K listeners s.control guard input fs logged
        s.files refusal hfree
      refine ⟨refusal, ?_⟩
      simp only [consoles, ConsoleState.step, heq]

end PurpleSky.Console
