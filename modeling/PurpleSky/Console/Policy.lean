import PurpleSky.Console.Checks
import PurpleSky.Node.Binding

/-!
# Live settings, saved settings and the bound account

A server has a console and an account service, on one data directory. It is started, its process may
end at any time, and whatever fails in saving settings, the settings that are in force are the saved
ones, and they fit the bound account. A restart is of the process: the file system keeps what was
done.

* `agrees_step`: every event keeps this.
* `challenged_step`, `granted_step`: what waits was made under the settings that are in force.
* **`policy_agrees`**: live settings, saved settings and the account agree in every run.
-/

namespace PurpleSky.Console

open Bytes Node Credentials PurpleSky.Procedure

/-! ## Servers -/

/-- A server: its data directory and database while no process has them open, or the console and the
account service of its process. -/
inductive Server where
  | stopped (disk : Disk) (db : Db) (history : List Deed)
  | running (listeners : Listeners) (console : ConsoleState) (core : Core)

/-- What happens to a server. An action has the lock of the account service until it ends, and an
update has both locks; `killed` says that the process ended after the settings were replaced, or
were not. -/
inductive ServerEvent where
  | boot (bootstrap : Settings) (fs : Fs) (adminAddr publicAddr : SocketAddr) (random : Random)
      (io reload : Faults) (logged : Nat)
  | console (event : ConsoleEvent)
  | update (input : Option ConfigUpdate) (fs : Fs) (io : Faults) (logged : Nat) (killed : Bool)
  | action (action : Action) (env : Env)
  | stop

/-- What a server answers. `idle` is for events that cannot happen. -/
inductive ServerReply where
  | idle
  | booted
  | refused
  | console (reply : ConsoleReply)
  | updated (answer : Except Refusal ConfigResponse)
  | acted (reply : Node.Reply)
  | stopped

variable (K : Crates)

/-- The settings in force after an update. -/
def applyUpdate (core : Core) : Option Node.Settings → Core
  | some settings => core.apply settings
  | none => core

/-- Source: `main.rs` (`Command::Serve`) and `server.rs`, `ConsoleState::new` -/
def boot (bootstrap : Settings) (fs : Fs) (adminAddr publicAddr : SocketAddr) (random : Random)
    (io reload : Faults) (logged : Nat) (disk : Disk) (db : Db) (history : List Deed) :
    Server × ServerReply :=
  match openStore K fs bootstrap disk with
  | (.error _, disk) => (.stopped disk db history, .refused)
  | (.ok store, disk) =>
      let startup := store.document.settings
      match adminAddr.isLoopback, startup.validate K with
      | true, .ok _ =>
          match openNode K.toNode db history startup.account random io reload with
          | (.running core, _) =>
              (.running ⟨adminAddr, publicAddr, startup⟩ (.new store disk.files logged) core, .booted)
          | (.stopped db history, _) => (.stopped disk db history, .refused)
      | _, _ => (.stopped disk db history, .refused)

/-- The server after an event, and its answer. -/
def Server.step (server : Server) (event : ServerEvent) : Server × ServerReply :=
  match server, event with
  | .stopped disk db history, .boot bootstrap fs adminAddr publicAddr random io reload logged =>
      boot K bootstrap fs adminAddr publicAddr random io reload logged disk db history
  -- settings are saved by `update`, with the guard of the account service
  | .running listeners console core, .console (.update _ _ _ _) =>
      (.running listeners console core, .idle)
  | .running listeners console core, .console event =>
      match console.step K listeners event with
      | (console, reply) => (.running listeners console core, .console reply)
  | .running listeners console core, .update input fs io logged killed =>
      let outcome := updateConfig K listeners (core.guard K.toNode io) input fs logged console.control
        console.files
      if killed then (.stopped (.directory outcome.files) core.db core.history, .stopped)
      else (.running listeners { console with control := outcome.control, files := outcome.files }
        (applyUpdate core outcome.applied), .updated outcome.answer)
  | .running listeners console core, .action action env =>
      match executeNode K.toNode core action env with
      | (.running core, reply) => (.running listeners console core, .acted reply)
      | (.stopped db history, reply) =>
          (.stopped (.directory console.files) db history, .acted reply)
  | .running _ console core, .stop =>
      (.stopped (.directory console.files) core.db core.history, .stopped)
  | server, _ => (server, .idle)

/-- Servers as a machine. -/
def servers : Machine Server ServerEvent ServerReply := ⟨Server.step K⟩

/-! ## What agrees -/

variable {K}

/-- At rest: the evidence is of the account, and the saved settings fit it. -/
structure Rested (K : Crates) (disk : Disk) (db : Db) : Prop where
  sound : Sound K.toNode db
  fits : ∀ a key, Bound K.toNode.credentials db a key →
    ∃ d, onDisk K disk.files = some d ∧ d.settings.account.fits K.toNode a = true

/-- In force: the settings of the service are the saved ones, valid, and fit the account. -/
structure InForce (K : Crates) (console : ConsoleState) (core : Core) : Prop where
  saved : onDisk K console.files = some console.control.store.document
  live : core.settings = console.control.store.document.settings.account
  valid : core.settings.validate K.toNode = .ok ()
  sound : Sound K.toNode core.db
  fits : Fitted K.toNode core.settings core.db

/-- What holds of a server while no request has a lock. -/
def Server.Agrees (K : Crates) : Server → Prop
  | .stopped disk db _ => Rested K disk db
  | .running _ console core => InForce K console core

theorem InForce.rested {console : ConsoleState} {core core' : Core} (h : InForce K console core)
    (hsound : Sound K.toNode core'.db) (hfits : Fitted K.toNode core.settings core'.db) :
    Rested K (.directory console.files) core'.db := by
  refine ⟨hsound, fun a key hb => ⟨_, h.saved, ?_⟩⟩
  rw [← h.live]
  exact hfits a key hb

/-! ## Starting -/

variable {disk disk' : Disk} {db db' : Db} {fs : Fs} {bootstrap : Settings}

theorem Rested.of_account_eq (h : Rested K disk db) (hsound : Sound K.toNode db')
    (heq : db'.account = db.account) : Rested K disk db' :=
  ⟨hsound, fun a key hb => h.fits a key ⟨heq.symm.trans hb.row, hb.genuine⟩⟩

/-- Opening the settings keeps what is saved. First settings are saved where none were, so that no
account was bound. -/
theorem Rested.openStore (hK : K.Lawful) (h : Rested K disk db)
    {result : Except SettingsError ConfigStore}
    (hopen : openStore K fs bootstrap disk = (result, disk')) :
    Rested K disk' db := by
  refine ⟨h.sound, fun a key hb => ?_⟩
  obtain ⟨d, hd, hfits⟩ := h.fits a key hb
  have hkept : ∀ {disk₁ : Disk}, disk₁.files.lookup settingsName = disk.files.lookup settingsName →
      disk₁ = disk' → ∃ d, onDisk K disk'.files = some d ∧
        d.settings.account.fits K.toNode a = true := by
    rintro disk₁ hsame rfl
    exact ⟨d, (onDisk_congr hsame).trans hd, hfits⟩
  rcases @openStore_cases K fs bootstrap hK disk with
    ⟨d', disk₁, heq, hsame, -⟩ | ⟨disk₁, hnone, -, -⟩ | ⟨e, disk₁, heq, -, hsame⟩
  · rw [hopen] at heq
    exact hkept (by rw [hsame]) (Prod.mk.inj heq).2.symm
  · obtain ⟨file, hfile, -⟩ := onDisk_eq_some.mp hd
    rw [hnone] at hfile
    cases hfile
  · rw [hopen] at heq
    exact hkept hsame (Prod.mk.inj heq).2.symm

/-- A server that is started agrees, or is at rest as before. -/
theorem agrees_boot (hK : K.Lawful) (hjson : K.json.Lawful) (h : Rested K disk db)
    (adminAddr publicAddr : SocketAddr) (random : Random) (io reload : Faults) (logged : Nat)
    (history : List Deed) :
    (boot K bootstrap fs adminAddr publicAddr random io reload logged disk db history).1.Agrees K := by
  unfold boot
  match hopen : Console.openStore K fs bootstrap disk with
  | (.error _, disk') => exact h.openStore hK hopen
  | (.ok store, disk') =>
      have hrested : Rested K disk' db := h.openStore hK hopen
      simp only
      split
      · have hcases :=
          @openNode_cases K.toNode db history store.document.settings.account random io reload
        generalize openNode K.toNode db history store.document.settings.account random io reload = node
          at hcases
        obtain ⟨p, reply⟩ := node
        rcases hcases with rfl | ⟨key, db', hkey, rfl | ⟨account, hvalid, hread, hfits, rfl⟩⟩
        · exact hrested
        · exact hrested.of_account_eq (h.sound.openKey hkey) (Store.openKey_eq_ok hkey).2.2.1
        · exact ⟨onDisk_of_openStore hK hopen, rfl, hvalid, h.sound.openKey hkey,
            fitted_of_account hjson hread hfits⟩
      · exact hrested

/-! ## Serving -/

variable {listeners : Listeners} {console : ConsoleState} {core : Core}

/-- All that a console does but saving leaves the settings and the files. -/
theorem store_of_step (s : ConsoleState) {event : ConsoleEvent}
    (h : ∀ guard input fs logged, event ≠ .update guard input fs logged) :
    ((consoles K listeners).step s event).1.control.store = s.control.store ∧
      ((consoles K listeners).step s event).1.files = s.files := by
  cases event with
  | start kind builds startedAt logged =>
      rcases @step_start K listeners s kind builds startedAt logged with ⟨_, hstep⟩ | ⟨_, -, -, -, hstep⟩
      · rw [hstep]
        exact ⟨rfl, rfl⟩
      · rw [hstep]
        exact ⟨rfl, rfl⟩
  | finish task outcome finishedAt logged =>
      rcases @step_finish K listeners s task outcome finishedAt logged with hstep | ⟨operation, -, hstep⟩
      · rw [hstep]
        exact ⟨rfl, rfl⟩
      · obtain ⟨control, -, hstore, hfinish⟩ := s.control.finish_cases operation
          (supervise operation.kind outcome) finishedAt logged
        rw [hstep, hfinish]
        exact ⟨hstore, rfl⟩
  | update guard input fs logged => exact absurd rfl (h guard input fs logged)
  | drain => exact ⟨rfl, rfl⟩
  | advance call logged =>
      rcases @step_advance K listeners s call logged with hstep | ⟨_, -, -, hstep⟩ | ⟨_, -, hstep⟩
      · rw [hstep]
        exact ⟨rfl, rfl⟩
      · rw [hstep]
        exact ⟨rfl, rfl⟩
      · rw [hstep]
        exact ⟨Control.store_shutDown _ _, rfl⟩

/-- A server does what its console does, but saving. -/
theorem step_console (event : ConsoleEvent) :
    ((Server.running listeners console core).step K (.console event)).1 =
        .running listeners console core ∨
    (∀ guard input fs logged, event ≠ .update guard input fs logged) ∧
      ((Server.running listeners console core).step K (.console event)).1 =
        .running listeners ((consoles K listeners).step console event).1 core := by
  cases event with
  | update guard input fs logged => exact .inl rfl
  | start => exact .inr ⟨fun _ _ _ _ => ConsoleEvent.noConfusion, rfl⟩
  | finish => exact .inr ⟨fun _ _ _ _ => ConsoleEvent.noConfusion, rfl⟩
  | drain => exact .inr ⟨fun _ _ _ _ => ConsoleEvent.noConfusion, rfl⟩
  | advance => exact .inr ⟨fun _ _ _ _ => ConsoleEvent.noConfusion, rfl⟩

theorem InForce.congr {console' : ConsoleState} (h : InForce K console core)
    (hstore : console'.control.store = console.control.store)
    (hfiles : console'.files = console.files) :
    InForce K console' core := by
  refine ⟨?_, ?_, h.valid, h.sound, h.fits⟩
  · rw [hstore, hfiles]
    exact h.saved
  · rw [hstore]
    exact h.live

/-- What an update leaves, for a process that goes on and for one that ended. -/
theorem agrees_update (hK : K.Lawful) (hjson : K.json.Lawful) (h : InForce K console core)
    (input : Option ConfigUpdate) (fs : Fs) (io : Faults) (logged : Nat) :
    let outcome := updateConfig K listeners (core.guard K.toNode io) input fs logged console.control
      console.files
    InForce K { console with control := outcome.control, files := outcome.files }
      (applyUpdate core outcome.applied) ∧
    Rested K (.directory outcome.files) core.db := by
  intro outcome
  rcases @updateConfig_cases K listeners console.control (core.guard K.toNode io) input fs logged
    console.files hK with hunsaved | ⟨update, -, hsaved⟩
  · have hforce :
        InForce K { console with control := outcome.control, files := outcome.files } core := by
      refine ⟨?_, ?_, h.valid, h.sound, h.fits⟩
      · show onDisk K outcome.files = some outcome.control.store.document
        rw [onDisk_congr hunsaved.files, hunsaved.store]
        exact h.saved
      · show core.settings = outcome.control.store.document.settings.account
        rw [hunsaved.store]
        exact h.live
    have happlied : outcome.applied = none := hunsaved.applied
    rw [happlied]
    exact ⟨hforce, hforce.rested h.sound h.fits⟩
  · obtain ⟨hvalid, account, hread, hfits⟩ := checkSettings_iff.mp (guard_eq_ok.mp hsaved.guarded)
    have hfitted : Fitted K.toNode update.settings.account core.db :=
      fitted_of_account hjson hread hfits
    have hsettings : outcome.control.store.document.settings.account = update.settings.account := by
      rw [hsaved.published.next]
    have happlied : outcome.applied = some update.settings.account := hsaved.applied
    have hlive : (core.apply update.settings.account).settings = update.settings.account := by
      unfold Core.apply
      split_ifs with hsame
      · exact hsame
      · rfl
    have hforce : InForce K { console with control := outcome.control, files := outcome.files }
        (core.apply update.settings.account) := by
      refine ⟨hsaved.published.written, hlive.trans hsettings.symm, ?_, ?_, ?_⟩
      · rw [hlive]
        exact hvalid
      · rw [apply_db]
        exact h.sound
      · rw [hlive, apply_db]
        exact hfitted
    rw [happlied]
    refine ⟨hforce, ?_⟩
    have hrested := hforce.rested hforce.sound hforce.fits
    rwa [apply_db] at hrested

/-- An action leaves the settings, and what it binds fits them. -/
theorem agrees_action (hjson : K.json.Lawful) (h : InForce K console core) (action : Action)
    (env : Env) :
    ((Server.running listeners console core).step K (.action action env)).1.Agrees K := by
  unfold Server.step
  simp only
  obtain ⟨core', hmoves, hcases⟩ := @moves_executeNode K.toNode core action env
  have hsound := sound_moves hjson hmoves h.sound
  have hfits := fitted_moves hjson hmoves h.sound h.fits
  have hsettings := settings_of_moves hmoves
  generalize executeNode K.toNode core action env = node at hcases
  obtain ⟨p, reply⟩ := node
  rcases hcases with rfl | rfl
  · exact ⟨h.saved, hsettings.trans h.live, hsettings ▸ h.valid, hsound, hfits⟩
  · exact h.rested hsound (hsettings ▸ hfits)

/-- Every event keeps what agrees. -/
theorem agrees_step (hK : K.Lawful) (hjson : K.json.Lawful) {server : Server} (h : server.Agrees K)
    (event : ServerEvent) : (server.step K event).1.Agrees K := by
  cases server with
  | stopped disk db history =>
      cases event with
      | boot bootstrap fs adminAddr publicAddr random io reload logged =>
          exact agrees_boot hK hjson h adminAddr publicAddr random io reload logged history
      | console event => exact h
      | update input fs io logged killed => exact h
      | action action env => exact h
      | stop => exact h
  | running listeners console core =>
      have h : InForce K console core := h
      cases event with
      | boot bootstrap fs adminAddr publicAddr random io reload logged => exact h
      | console event =>
          rcases @step_console K listeners console core event with hstep | ⟨hevent, hstep⟩
          · rw [hstep]
            exact h
          · rw [hstep]
            obtain ⟨hstore, hfiles⟩ := @store_of_step K listeners console event hevent
            exact h.congr hstore hfiles
      | update input fs io logged killed =>
          obtain ⟨hforce, hrested⟩ :=
            @agrees_update K listeners console core hK hjson h input fs io logged
          unfold Server.step
          simp only
          split_ifs
          · exact hrested
          · exact hforce
      | action action env => exact agrees_action hjson h action env
      | stop => exact h.rested h.sound h.fits

/-! ## What waits -/

/-- The settings in force. -/
def Server.settings? : Server → Option Node.Settings
  | .stopped _ _ _ => none
  | .running _ _ core => some core.settings

/-- A request waits with its challenge, and these settings are in force. -/
def Server.Challenged (settings : Node.Settings) (id : Bytes) (challenge : Farcaster.Challenge) :
    Server → Prop
  | .stopped _ _ _ => False
  | .running _ _ core => core.settings = settings ∧
      ∃ login, (id, login) ∈ core.pending ∧ login.challenge = challenge

/-- A grant is there, and these settings are in force. -/
def Server.Granted (settings : Node.Settings) (grant : Bytes × Nat) : Server → Prop
  | .stopped _ _ _ => False
  | .running _ _ core => core.settings = settings ∧ grant ∈ core.grants

/-- What can happen to the core of a server that runs afterwards. -/
inductive CoreChange (K : Crates) (server : Server) (event : ServerEvent)
    (core' : Core) : Prop where
  /-- It begins, or has other settings than before. -/
  | cleared (pending : core'.pending = []) (grants : core'.grants = [])
  | same (listeners : Listeners) (console : ConsoleState)
      (before : server = .running listeners console core')
  | acted (listeners : Listeners) (console : ConsoleState) (core : Core) (action : Action) (env : Env)
      (reply : Node.Reply) (before : server = .running listeners console core)
      (event : event = .action action env)
      (executed : executeNode K.toNode core action env = (.running core', reply))

theorem core_of_boot (bootstrap : Settings) (fs : Fs) (adminAddr publicAddr : SocketAddr)
    (random : Random)
    (io reload : Faults) (logged : Nat) (disk : Disk) (db : Db) (history : List Deed)
    (h : (boot K bootstrap fs adminAddr publicAddr random io reload logged disk db history).1 =
      .running listeners console core) : core.pending = [] ∧ core.grants = [] := by
  unfold boot at h
  split at h
  · cases h
  · rename_i store disk' hopen
    simp only at h
    split at h
    · have hempty := @openNode_empty K.toNode db history store.document.settings.account random io reload
      generalize openNode K.toNode db history store.document.settings.account random io reload = node
        at h hempty
      obtain ⟨p, reply⟩ := node
      cases p with
      | stopped db' history' => cases h
      | running core' =>
          obtain ⟨-, -, rfl⟩ := Server.running.inj h
          exact ⟨hempty.1, hempty.2.1⟩
    · cases h

theorem coreChange_step {server : Server} {event : ServerEvent}
    (h : (server.step K event).1 = .running listeners console core) :
    CoreChange K server event core := by
  cases server with
  | stopped disk db history =>
      cases event with
      | boot bootstrap fs adminAddr publicAddr random io reload logged =>
          obtain ⟨hpending, hgrants⟩ :=
            core_of_boot bootstrap fs adminAddr publicAddr random io reload
            logged disk db history h
          exact .cleared hpending hgrants
      | console event => cases h
      | update input fs io logged killed => cases h
      | action action env => cases h
      | stop => cases h
  | running listeners₀ console₀ core₀ =>
      cases event with
      | boot bootstrap fs adminAddr publicAddr random io reload logged =>
          obtain ⟨rfl, rfl, rfl⟩ := Server.running.inj h
          exact .same _ _ rfl
      | console event =>
          rcases @step_console K listeners₀ console₀ core₀ event with hstep | ⟨-, hstep⟩
          · rw [hstep] at h
            obtain ⟨rfl, rfl, rfl⟩ := Server.running.inj h
            exact .same _ _ rfl
          · rw [hstep] at h
            obtain ⟨rfl, -, rfl⟩ := Server.running.inj h
            exact .same _ _ rfl
      | update input fs io logged killed =>
          unfold Server.step at h
          simp only at h
          split_ifs at h
          obtain ⟨rfl, -, rfl⟩ := Server.running.inj h
          cases (updateConfig K listeners₀ (core₀.guard K.toNode io) input fs logged console₀.control
            console₀.files).applied with
          | none => exact .same _ _ rfl
          | some settings =>
              rw [applyUpdate, Core.apply]
              split_ifs with hsame
              · exact .same _ _ rfl
              · exact .cleared rfl rfl
      | action action env =>
          unfold Server.step at h
          simp only at h
          split at h
          · rename_i core' reply hexecuted
            obtain ⟨rfl, rfl, rfl⟩ := Server.running.inj h
            exact .acted _ _ core₀ action env reply rfl rfl hexecuted
          · cases h
      | stop => cases h

/-- The settings of a core that runs after an action are those before. -/
theorem settings_of_executeNode {core' : Core} {action : Action} {env : Env} {reply : Node.Reply}
    (h : executeNode K.toNode core action env = (.running core', reply)) :
    core'.settings = core.settings := by
  obtain ⟨core'', hmoves, hcases⟩ := @moves_executeNode K.toNode core action env
  rw [h] at hcases
  rcases hcases with hcase | hcase
  · obtain rfl := Process.running.inj hcase
    exact settings_of_moves hmoves
  · cases hcase

/-- A request that waits afterwards waited before under the same settings, or a Start made it under
them. -/
theorem challenged_step {settings : Node.Settings} {id : Bytes} {challenge : Farcaster.Challenge}
    {server : Server} {event : ServerEvent}
    (h : (server.step K event).1.Challenged settings id challenge) :
    server.Challenged settings id challenge ∨
      server.settings? = some settings ∧ ∃ env, event = .action .start env := by
  match hstep : (server.step K event).1 with
  | .stopped _ _ _ =>
      rw [hstep] at h
      cases h
  | .running _ _ core' =>
      rw [hstep] at h
      obtain ⟨rfl, login', hmem, rfl⟩ := h
      cases coreChange_step hstep with
      | cleared pending grants =>
          rw [pending] at hmem
          cases hmem
      | same listeners console before =>
          rw [before]
          exact .inl ⟨rfl, login', hmem, rfl⟩
      | acted listeners console core action env reply before event executed =>
          have hsettings := settings_of_executeNode executed
          rw [before]
          rcases pending_executeNode executed hmem with ⟨login, hold, hsame⟩ | rfl
          · exact .inl ⟨hsettings.symm, login, hold, hsame.symm⟩
          · exact .inr ⟨congrArg some hsettings.symm, env, event⟩

/-- A grant that is there afterwards was there before under the same settings, or a Poll made it
under them. -/
theorem granted_step {settings : Node.Settings} {grant : Bytes × Nat} {server : Server}
    {event : ServerEvent} (h : (server.step K event).1.Granted settings grant) :
    server.Granted settings grant ∨
      server.settings? = some settings ∧ ∃ id token env, event = .action (.poll id token) env := by
  match hstep : (server.step K event).1 with
  | .stopped _ _ _ =>
      rw [hstep] at h
      cases h
  | .running _ _ core' =>
      rw [hstep] at h
      obtain ⟨rfl, hmem⟩ := h
      cases coreChange_step hstep with
      | cleared pending grants =>
          rw [grants] at hmem
          cases hmem
      | same listeners console before =>
          rw [before]
          exact .inl ⟨rfl, hmem⟩
      | acted listeners console core action env reply before event executed =>
          have hsettings := settings_of_executeNode executed
          rw [before]
          rcases grants_executeNode executed hmem with hold | ⟨id, token, rfl⟩
          · exact .inl ⟨hsettings.symm, hold⟩
          · exact .inr ⟨congrArg some hsettings.symm, id, token, env, event⟩

/-! ## Every run -/

/-- A step of a server. -/
abbrev ServerEntry := Machine.Entry Server ServerEvent ServerReply

/-- An event of a run made what is there, under these settings, and it was there since. -/
def MadeUnder (run : List ServerEntry) (settings : Node.Settings) (There : Server → Prop)
    (Made : ServerEvent → Prop) : Prop :=
  ∃ pre x post, run = pre ++ x :: post ∧ Made x.event ∧ x.before.settings? = some settings ∧
    ¬There x.before ∧ There x.after ∧ ∀ y ∈ post, There y.before ∧ There y.after

theorem agrees_final (hK : K.Lawful) (hjson : K.json.Lawful) (disk : Disk) (es : List ServerEvent) :
    ((servers K).final (.stopped disk .empty []) es).Agrees K := by
  have hkeeps : (servers K).Keeps (fun _ _ => True) (Server.Agrees K) (Server.Agrees K) :=
    fun server event h _ _ => agrees_step hK hjson h event
  have hmeets : (servers K).Meets (fun _ _ => True) (.stopped disk .empty []) es :=
    Machine.meets_iff.mpr fun _ _ => trivial
  refine hmeets.invariant hkeeps ⟨.of_none (.inl rfl) rfl, fun a key hb => ?_⟩
  cases hb.row

/-- What is there at the end, where each event leaves it or makes it, was made by some event. -/
theorem madeUnder_final {disk : Disk} {es : List ServerEvent} {settings : Node.Settings}
    {There : Server → Prop} {Made : ServerEvent → Prop}
    (hstep : ∀ (server : Server) (event : ServerEvent), There (server.step K event).1 →
      There server ∨ server.settings? = some settings ∧ Made event)
    (hnone : ¬There (.stopped disk .empty []))
    (h : There ((servers K).final (.stopped disk .empty []) es)) :
    MadeUnder ((servers K).trace (.stopped disk .empty []) es) settings There Made := by
  have hmeets : (servers K).Meets (fun _ _ => True) (.stopped disk .empty []) es :=
    Machine.meets_iff.mpr fun _ _ => trivial
  have hkeeps : (servers K).Keeps (fun _ _ => True) (fun _ => True) fun _ => True :=
    fun _ _ _ _ _ => trivial
  obtain ⟨pre, x, post, htrace, ⟨hnew, hsettings, hmade⟩, hafter, hpost⟩ :=
    hmeets.origin hkeeps trivial (R := fun _ : Unit => There)
      (N := fun x _ => ¬There x.before ∧ x.before.settings? = some settings ∧ Made x.event)
      (t := ()) hnone (fun server event _ _ hthere => by
        by_cases hold : There server
        · exact .inl hold
        · rcases hstep server event hthere with h | h
          · exact absurd h hold
          · exact .inr ⟨hold, h⟩) h
  exact ⟨pre, x, post, htrace, hmade, hsettings, hnew, hafter, hpost⟩

/-- The saved account settings are valid. -/
theorem account_validate {files : Files} {d : ConfigDocument} (h : onDisk K files = some d) :
    d.settings.account.validate K.toNode = .ok () := by
  obtain ⟨file, -, hholds⟩ := onDisk_eq_some.mp h
  have hvalid := hholds.settings
  unfold Settings.validate at hvalid
  obtain ⟨_, haccount, -⟩ := bind_eq_ok.mp hvalid
  exact Store.mapError_eq_ok.mp haccount

/-- What agrees in a server that runs, after a run. -/
structure PolicyAgrees (K : Crates) (run : List ServerEntry) (console : ConsoleState)
    (core : Core) :
    Prop where
  /-- The settings in force are the saved ones. -/
  saved : ∃ d, onDisk K console.files = some d ∧ core.settings = d.settings.account
  /-- A bound account has the permitted identifier and the identity of the settings. -/
  bound : ∀ row a, core.db.account = some row → row.account? K.toNode.credentials = some a →
    core.settings.allowedFid = some a.fid ∧ core.settings.identity K.toNode = .ok a.identity
  /-- Requests were made under the settings in force. -/
  pending : ∀ id login, (id, login) ∈ core.pending →
    MadeUnder run core.settings (Server.Challenged core.settings id login.challenge) fun event =>
      ∃ env, event = .action .start env
  /-- So were grants. -/
  grants : ∀ grant ∈ core.grants,
    MadeUnder run core.settings (Server.Granted core.settings grant) fun event =>
      ∃ id token env, event = .action (.poll id token) env
  /-- The call of a Poll that binds neither conflicts nor is invalid. -/
  binds : ∀ env id token approved core', approach K.toNode env id token core =
      (.ok (.inr approved), core') → ∀ (io : Faults) (now : Time) (random : Random),
    let result := Store.bindVerified K.toNode.credentials io core'.db approved.verified.fid
      (fingerprint approved.verified) approved.identity now random
    result ≠ .error .bindingConflict ∧ result ≠ .error .invalidInput

/-- **Live settings, saved settings and the account agree.** A server is started any number of times
on one data directory and its database; settings are saved with whatever fails, actions are executed
and the process ends in any order. While the server runs the settings in force are the saved ones,
and a bound account has their identifier and identity; every request and every grant was made under
the settings in force, which did not change since; where a Poll comes to the call that binds, this
neither conflicts nor is invalid (`execute_poll` says that this call is that of the Poll). While it
is stopped, opening the service with the saved settings succeeds where the storage does. -/
theorem policy_agrees {K : Crates} (hK : K.Lawful) (hjson : K.json.Lawful)
    (hport : ∀ text url port, K.parseUrl text = some url → url.port = some port → port < 65536)
    (disk : Disk) (es : List ServerEvent) :
    let machine := servers K
    let start := Server.stopped disk .empty []
    (∀ listeners console core, machine.final start es = .running listeners console core →
      PolicyAgrees K (machine.trace start es) console core) ∧
    ∀ disk₁ db history, machine.final start es = .stopped disk₁ db history →
      ∀ fs bootstrap store disk₂, openStore K fs bootstrap disk₁ = (.ok store, disk₂) →
      ∀ (random : Random) io reload key db' account, Store.openKey io db random = .ok (key, db') →
        Store.openCheck K.toNode.credentials io db' = .ok () →
        Store.account K.toNode.credentials reload db' = .ok account →
        openNode K.toNode db history store.document.settings.account random io reload =
          (.running ⟨store.document.settings.account, key, db', [], [], [], [], none, history⟩,
            .opened) := by
  intro machine start
  have hagrees := agrees_final hK hjson disk es
  refine ⟨fun listeners console core hfinal => ?_, fun disk₁ db history hfinal => ?_⟩
  · have hfinal :
        (servers K).final (.stopped disk .empty []) es = .running listeners console core := hfinal
    rw [hfinal] at hagrees
    have hforce : InForce K console core := hagrees
    refine ⟨⟨_, hforce.saved, hforce.live⟩, fun row a hrow hread => ?_, fun id login hmem => ?_,
      fun grant hmem => ?_, fun env id token approved core' happroach io now random => ?_⟩
    · rcases hforce.sound.stored with hnone | ⟨b, key, hb⟩
      · rw [hnone] at hrow
        cases hrow
      · obtain rfl := Option.some.inj (hrow.symm.trans hb.row)
        obtain rfl := Option.some.inj (hread.symm.trans (hb.genuine.account? hjson))
        exact Settings.fits_iff.mp (hforce.fits a key hb)
    · refine madeUnder_final (fun _ _ => challenged_step) not_false ?_
      rw [hfinal]
      exact ⟨rfl, login, hmem, rfl⟩
    · refine madeUnder_final (fun _ _ => granted_step) not_false ?_
      rw [hfinal]
      exact ⟨rfl, hmem⟩
    · have hthrows := @throws_approach K.toNode io env hjson hport core core' hforce.valid hforce.sound
        hforce.fits id token approved happroach now random
      constructor
      · intro h
        have hstorage : Error.bindingConflict = .persistence := hthrows _ h
        cases hstorage
      · intro h
        have hstorage : Error.invalidInput = .persistence := hthrows _ h
        cases hstorage
  · have hfinal : (servers K).final (.stopped disk .empty []) es = .stopped disk₁ db history :=
      hfinal
    rw [hfinal] at hagrees
    intro fs bootstrap store disk₂ hopen random io reload key db' account hkey hcheck hread
    have hrested : Rested K disk₂ db := Rested.openStore hK hagrees hopen
    have hsaved := onDisk_of_openStore hK hopen
    have hfits : account.all (store.document.settings.account.fits K.toNode) = true := by
      refine Fitted.all hjson (fun a key hb => ?_) (hrested.sound.openKey hkey).stored hread
      have haccount := (Store.openKey_eq_ok hkey).2.2.1
      obtain ⟨d, hd, hfits⟩ := hrested.fits a key ⟨haccount.symm.trans hb.row, hb.genuine⟩
      obtain rfl := Option.some.inj (hd.symm.trans hsaved)
      exact hfits
    unfold openNode
    simp only [account_validate hsaved, hkey, hcheck, hread, hfits, if_true]

/-- No sample URL has a port. -/
theorem sampleConsole_port (text : Bytes) (url : Url) (port : Nat)
    (hurl : sampleConsole.parseUrl text = some url) (hport : url.port = some port) :
    port < 65536 := by
  have hread : sampleConsole.parseUrl text = if text = str "https://mainnet.optimism.io" then
      some ⟨str "https", [], none, some (str "mainnet.optimism.io"), none, str "/", none, none⟩
    else sampleUrl text := rfl
  have hlookup : ∀ {urls : List (Bytes × Url)}, (∀ entry ∈ urls, entry.2.port = none) →
      ∀ {url : Url}, urls.lookup text = some url → url.port = none :=
    fun hall _ h => hall _ (mem_of_lookup h)
  have hnone : url.port = none := by
    rw [hread] at hurl
    split_ifs at hurl
    · obtain rfl := Option.some.inj hurl
      rfl
    · exact hlookup (by simp) hurl
  rw [hnone] at hport
  cases hport

/-- Settings with the sample account. -/
def sampleAccount : Settings := { defaultSettings with account := sampleSettings }

/-- A server is started, and an account signs in. -/
def sampleServing : List ServerEvent :=
  let env := sampleEnv 1700000000 2 (sampleProvider "0x100" "0x6553f100" 6)
  [.boot sampleAccount calm defaultSettings.adminBind defaultSettings.publicBind
      ⟨List.replicate 32 7, length_sampleSeed⟩ noFaults noFaults 99,
    .action .start env, .action (.poll (sampleId 3) (sampleId 4)) env]

theorem sampleServing_runs :
    (match (servers sampleConsole).final (.stopped .missing .empty []) sampleServing with
    | .running _ _ core => core.grants.length == 1 && core.db.account.isSome
    | .stopped _ _ _ => false) = true := by
  decide +kernel

/-- After the sample sign-in the saved settings are in force, an account is bound, and the grant was
made under these settings. -/
theorem policy_agrees_sample : ∃ listeners console core,
    (servers sampleConsole).final (.stopped .missing .empty []) sampleServing =
      .running listeners console core ∧
    (∃ d, onDisk sampleConsole console.files = some d ∧ core.settings = d.settings.account) ∧
    core.db.account ≠ none ∧
    ∃ grant ∈ core.grants, MadeUnder
      ((servers sampleConsole).trace (.stopped .missing .empty []) sampleServing) core.settings
      (Server.Granted core.settings grant) fun event =>
        ∃ id token env, event = .action (.poll id token) env := by
  have hruns := sampleServing_runs
  obtain ⟨hrunning, -⟩ := policy_agrees sampleConsole_lawful Json.spaced_lawful sampleConsole_port
    .missing sampleServing
  match hfinal : (servers sampleConsole).final (.stopped .missing .empty []) sampleServing with
  | .stopped _ _ _ =>
      rw [hfinal] at hruns
      cases hruns
  | .running listeners console core =>
      rw [hfinal] at hruns
      simp only [Bool.and_eq_true, beq_iff_eq] at hruns
      obtain ⟨hgrants, haccount⟩ := hruns
      obtain ⟨grant, hmem⟩ :=
        List.exists_mem_of_length_pos (Nat.lt_of_lt_of_eq Nat.one_pos hgrants.symm)
      obtain ⟨hsaved, -, -, hmade, -⟩ := hrunning listeners console core hfinal
      exact ⟨listeners, console, core, rfl, hsaved, Option.isSome_iff_ne_none.mp haccount,
        grant, hmem, hmade grant hmem⟩

end PurpleSky.Console
