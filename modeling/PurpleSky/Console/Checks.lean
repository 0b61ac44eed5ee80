import PurpleSky.Console.Lifecycle

/-!
# The last peer check

What a console shows of its peers is of the settings that are saved: a check ends with the settings
it began with, and saving other settings takes it away.

* `shown_step`: every event keeps this.
* **`checks_current`**: the shown check is of the saved settings, and is cleared when, and only
  when, other settings are saved.
-/

namespace PurpleSky.Console

open Bytes Node

variable {K : Crates} {listeners : Listeners}

/-- What is shown of the peers is all there or all missing, and is of a revision. -/
def Control.ShowsOf (control : Control) (revision : Nat) : Prop :=
  control.shownCheck = (none, none, none) ∨
    ∃ report time, control.shownCheck = (some report, some revision, some time)

theorem Control.ShowsOf.congr {control control' : Control} {revision revision' : Nat}
    (h : control.ShowsOf revision) (hcheck : control'.shownCheck = control.shownCheck)
    (hrevision : revision' = revision) : control'.ShowsOf revision' := by
  unfold Control.ShowsOf
  rw [hcheck, hrevision]
  exact h

/-- An action that finishes shows a check of its revision, or takes the check away, or leaves it. -/
theorem Control.showsOf_finish {control : Control} {operation : Operation}
    (h : control.ShowsOf operation.configRevision) (result : Except String Json)
    (finishedAt logged : Nat) :
    (control.finish operation result finishedAt logged).ShowsOf operation.configRevision := by
  obtain ⟨id, kind, status, startedAt, finishedAt', error, revision⟩ := operation
  cases result with
  | ok report =>
      cases kind with
      | preflight =>
          refine .inr ⟨report, finishedAt, ?_⟩
          simp only [Control.finish, Operation.finish, Control.succeed]
          split_ifs
          · rfl
          · rfl
      | reconstruct => exact h
  | error error =>
      cases kind with
      | preflight => exact .inl rfl
      | reconstruct => exact h

/-- The check is of the saved settings, which are those of the store. -/
structure Shown (K : Crates) (s : ConsoleState) : Prop where
  saved : onDisk K s.files = some s.control.store.document
  check : s.control.ShowsOf s.control.store.document.revision

/-- What an update does to the check. -/
inductive Updated (K : Crates) (x : ConsoleEntry) (input : Option ConfigUpdate) : Prop where
  /-- Nothing is published, and the check stays. -/
  | unsaved (refusal : Refusal) (reply : x.reply = .updated (.error refusal) none)
      (known : refusal.error ≠ "ConfigDurabilityUnknown")
      (store : x.after.control.store = x.before.control.store)
      (file : x.after.files.lookup settingsName = x.before.files.lookup settingsName)
      (check : x.after.control.shownCheck = x.before.control.shownCheck)
  /-- The next revision is published, and the check goes. -/
  | saved (update : ConfigUpdate) (given : input = some update) (answer : Except Refusal ConfigResponse)
      (reply : x.reply = .updated answer (some update.settings.account))
      (known : (∃ response, answer = .ok response) ∨
        ∃ refusal, answer = .error refusal ∧ refusal.error = "ConfigDurabilityUnknown")
      (next : x.after.control.store.document =
        ⟨schemaVersion, x.before.control.store.document.revision + 1, update.settings⟩)
      (file : onDisk K x.after.files = some x.after.control.store.document)
      (check : x.after.control.shownCheck = (none, none, none))

/-- An update publishes the next revision and clears the check, or does neither. -/
theorem updated_step (hK : K.Lawful) (s : ConsoleState) (guard : Node.Settings → Except String Unit)
    (input : Option ConfigUpdate) (fs : Fs) (logged : Nat) :
    Updated K ((consoles K listeners).entry s (.update guard input fs logged)) input := by
  obtain ⟨outcome, houtcome⟩ : ∃ outcome,
      outcome = updateConfig K listeners guard input fs logged s.control s.files := ⟨_, rfl⟩
  have hentry : (consoles K listeners).entry s (.update guard input fs logged) =
      ⟨s, .update guard input fs logged, .updated outcome.answer outcome.applied,
        { s with control := outcome.control, files := outcome.files }⟩ := by
    rw [houtcome]
    rfl
  rw [hentry]
  rcases @updateConfig_cases K listeners s.control guard input fs logged s.files hK with
    h | ⟨update, rfl, h⟩
  · rw [← houtcome] at h
    obtain ⟨refusal, hanswer, hknown⟩ := h.answer
    refine .unsaved refusal ?_ hknown h.store h.files h.shown
    rw [hanswer, h.applied]
  · rw [← houtcome] at h
    refine .saved update rfl outcome.answer ?_ h.answer h.published.next h.published.written h.shown
    rw [h.applied]

/-- Every event keeps the check that of the saved settings. -/
theorem shown_step (hK : K.Lawful) {run : List ConsoleEntry} {s : ConsoleState} (h : Orderly run s)
    (hs : Shown K s) (e : ConsoleEvent) : Shown K ((consoles K listeners).step s e).1 := by
  cases e with
  | start kind builds startedAt logged =>
      rcases @step_start K listeners s kind builds startedAt logged with
        ⟨refusal, hstep⟩ | ⟨operation, -, -, -, hstep⟩
      · rw [hstep]
        exact hs
      · rw [hstep]
        exact ⟨hs.saved, hs.check⟩
  | finish task outcome finishedAt logged =>
      rcases @step_finish K listeners s task outcome finishedAt logged with
        hstep | ⟨operation, htask, hstep⟩
      · rw [hstep]
        exact hs
      · obtain ⟨control, -, hstore, hfinish⟩ := s.control.finish_cases operation
          (supervise operation.kind outcome) finishedAt logged
        have hactive : operation ∈ s.control.active := by
          have hmem := List.mem_of_getElem? htask
          rw [h.tasks] at hmem
          exact Option.mem_toList.mp hmem
        have hrevision := h.current operation hactive
        have hcheck := hs.check
        rw [← hrevision] at hcheck
        have hshows := Control.showsOf_finish hcheck (supervise operation.kind outcome) finishedAt logged
        have hsame : (s.control.finish operation (supervise operation.kind outcome) finishedAt
            logged).store = s.control.store := by
          rw [hfinish]
          exact hstore
        rw [hstep]
        refine ⟨?_, ?_⟩
        · rw [hsame]
          exact hs.saved
        · rw [hsame, ← hrevision]
          exact hshows
  | update guard input fs logged =>
      rcases @updated_step K listeners hK s guard input fs logged with
        ⟨refusal, -, -, hstore, hfile, hcheck⟩ | ⟨update, -, answer, -, -, -, hfile, hcheck⟩
      · have hdocument := congrArg ConfigStore.document hstore
        refine ⟨?_, hs.check.congr hcheck (congrArg ConfigDocument.revision hdocument)⟩
        have hsame := @onDisk_congr K _ _ hfile
        exact hsame.trans (hs.saved.trans (congrArg some hdocument.symm))
      · exact ⟨hfile, .inl hcheck⟩
  | drain => exact ⟨hs.saved, hs.check⟩
  | advance call logged =>
      rcases @step_advance K listeners s call logged with hstep | ⟨_, -, -, hstep⟩ | ⟨_, -, hstep⟩
      · rw [hstep]
        exact hs
      · rw [hstep]
        exact ⟨hs.saved, hs.check⟩
      · rw [hstep]
        rcases s.control.shutDown_cases logged with ⟨-, heq⟩ | ⟨-, heq⟩
        · simp only [heq]
          exact ⟨hs.saved, hs.check⟩
        · simp only [heq]
          exact ⟨hs.saved, hs.check⟩

/-- The check is that of the saved settings at the end of a run. -/
theorem shown_run (hK : K.Lawful) {store : ConfigStore} {files : Files}
    (hsaved : onDisk K files = some store.document) (logged : Nat) (es : List ConsoleEvent) :
    Shown K ((consoles K listeners).final (.new store files logged) es) := by
  induction es using List.reverseRecOn with
  | nil => exact ⟨hsaved, .inl rfl⟩
  | append_singleton es e ih =>
      rw [Machine.final_append]
      exact shown_step hK (orderly_run store files logged es) ih e

/-- An opened store has the saved document. -/
theorem onDisk_of_openStore (hK : K.Lawful) {fs : Fs} {bootstrap : Settings} {disk disk' : Disk}
    {store : ConfigStore} (h : openStore K fs bootstrap disk = (.ok store, disk')) :
    onDisk K disk'.files = some store.document := by
  rcases @openStore_cases K fs bootstrap hK disk with
    ⟨d, disk₁, heq, hsame, hsaved⟩ | ⟨disk₁, -, hwritten, heq | heq⟩ | ⟨e, disk₁, heq, -, -⟩
  · rw [h] at heq
    obtain ⟨hstore, rfl⟩ := Prod.mk.inj heq
    obtain rfl := Except.ok.inj hstore
    rw [hsame, hsaved]
  · rw [h] at heq
    obtain ⟨hstore, rfl⟩ := Prod.mk.inj heq
    obtain rfl := Except.ok.inj hstore
    exact hwritten
  · rw [h] at heq
    cases (Prod.mk.inj heq).1
  · rw [h] at heq
    cases (Prod.mk.inj heq).1

/-- **The shown check is of the saved settings.** A console is started on a store that was opened,
and requests, supervisors and failing files come in any order. The report, its revision and its time
are all there or all missing; the revision is that of the document that is saved. An update that
does not publish leaves them, and one that does clears them, also where the directory was not
synchronized. -/
theorem checks_current {K : Crates} (hK : K.Lawful) (listeners : Listeners) {fs : Fs}
    {bootstrap : Settings} {disk disk' : Disk} {store : ConfigStore}
    (hopen : openStore K fs bootstrap disk = (.ok store, disk')) (logged : Nat)
    (es : List ConsoleEvent) :
    let machine := consoles K listeners
    let s := machine.final (.new store disk'.files logged) es
    (∃ d, onDisk K s.files = some d ∧ d = s.control.store.document ∧
      ((s.control.preflight = none ∧ s.control.preflightRevision = none ∧ s.control.lastCheckAt = none) ∨
        ∃ report time, s.control.preflight = some report ∧
          s.control.preflightRevision = some d.revision ∧
          s.control.lastCheckAt = some time)) ∧
    ∀ x ∈ machine.trace (.new store disk'.files logged) es, ∀ guard input fs logged,
      x.event = .update guard input fs logged → Updated K x input := by
  intro machine s
  have hsaved := onDisk_of_openStore hK hopen
  obtain ⟨hdisk, hcheck⟩ := @shown_run K listeners hK store disk'.files hsaved logged es
  refine ⟨⟨_, hdisk, rfl, ?_⟩, fun x hx guard input fs logged hevent => ?_⟩
  · rcases hcheck with hnone | ⟨report, time, hsome⟩
    · refine .inl ?_
      simpa only [Control.shownCheck, Prod.mk.injEq] using hnone
    · refine .inr ⟨report, time, ?_⟩
      simpa only [Control.shownCheck, Prod.mk.injEq] using hsome
  · have hentry := Machine.eq_entry_of_mem_trace hx
    rw [hevent] at hentry
    rw [hentry]
    exact updated_step hK x.before guard input fs logged

/-- Settings with a peer. -/
def peerSettings : Settings :=
  { defaultSettings with endpoints := [str "https://mainnet.optimism.io"] }

def sampleListeners : Listeners := ⟨.v4 2130706433 8788, .v4 2130706433 8787, peerSettings⟩

/-- The peer is checked, and a reconstruction fails. -/
def sampleActions : List ConsoleEvent :=
  [.start .preflight (fun _ => true) 100 100,
    .finish 0 (some (.object [(str "healthy", .bool true)])) 107 107,
    .start .reconstruct (fun _ => true) 110 110, .finish 0 none 111 111]

theorem sampleActions_runs :
    (openStore sampleConsole calm peerSettings .missing).1 = .ok ⟨⟨schemaVersion, 1, peerSettings⟩⟩ ∧
    ((consoles sampleConsole sampleListeners).final (.new ⟨⟨schemaVersion, 1, peerSettings⟩⟩
      (openStore sampleConsole calm peerSettings .missing).2.files 99) sampleActions).control.preflight.isSome =
        true := by
  decide +kernel

/-- The shown check is of the first revision, which is saved. -/
theorem checks_current_sample :
    let s := (consoles sampleConsole sampleListeners).final
      (.new ⟨⟨schemaVersion, 1, peerSettings⟩⟩
        (openStore sampleConsole calm peerSettings .missing).2.files 99)
      sampleActions
    ∃ d, onDisk sampleConsole s.files = some d ∧ s.control.preflightRevision = some d.revision := by
  intro s
  obtain ⟨hresult, hcheck⟩ := sampleActions_runs
  have hopen : openStore sampleConsole calm peerSettings .missing =
      (.ok ⟨⟨schemaVersion, 1, peerSettings⟩⟩,
        (openStore sampleConsole calm peerSettings .missing).2) := by
    rw [← hresult]
  obtain ⟨⟨d, hd, -, hnone | ⟨_, _, -, hrevision, -⟩⟩, -⟩ :=
    checks_current sampleConsole_lawful sampleListeners hopen 99 sampleActions
  · rw [hnone.1] at hcheck
    cases hcheck
  · exact ⟨d, hd, hrevision⟩

end PurpleSky.Console
