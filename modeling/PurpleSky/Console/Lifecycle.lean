import PurpleSky.Console.Control

/-!
# The life of an operator's action

A run of a console keeps account of its actions: what was accepted is what finished and what is
running (`Orderly`). Once a call waits for the end nothing is accepted any more, so the last action
to finish is the last one.

* `orderly_step`, `orderly_run`: the account is right after every event.
* **`actions_drain`**: one action at a time, each finished once, and none after the end.
-/

namespace PurpleSky.Console

open Bytes Node

variable {K : Crates} {listeners : Listeners}

/-! ## What a run did -/

/-- The action that a reply accepts. -/
def ConsoleReply.accepted? : ConsoleReply → Option Operation
  | accepted operation => some operation
  | _ => none

/-- The action that a reply finishes. -/
def ConsoleReply.finished? : ConsoleReply → Option Operation
  | finished operation => some operation
  | _ => none

/-- The call that a reply is about. -/
def ConsoleReply.drain? : ConsoleReply → Option Drain
  | draining call => some call
  | _ => none

theorem ConsoleReply.drain?_eq_some {reply : ConsoleReply} {call : Drain}
    (h : reply.drain? = some call) : reply = .draining call := by
  cases reply with
  | draining drain => exact congrArg _ (Option.some.inj h)
  | _ => cases h

/-- The accepted actions, in their order. -/
def accepted (run : List ConsoleEntry) : List Operation := run.filterMap fun x => x.reply.accepted?

/-- The finished actions, in the order in which they finished. -/
def finished (run : List ConsoleEntry) : List Operation := run.filterMap fun x => x.reply.finished?

/-- What a step wrote into the journal. -/
def written (x : ConsoleEntry) : List LogEvent :=
  x.after.control.journal.entries.filter fun e => x.before.control.journal.sequence < e.sequence

/-- How often a run logged its end. -/
def shutdowns (run : List ConsoleEntry) : Nat :=
  (run.flatMap written).countP fun e => e.event = "shutdown_started"

/-- What an action is from its start to its end. -/
def Operation.key (operation : Operation) : Nat × OperationKind × Nat × Nat :=
  (operation.id, operation.kind, operation.startedAt, operation.configRevision)

@[simp] theorem Operation.key_finish (operation : Operation) (finishedAt : Nat)
    (result : Except String Json) : (operation.finish finishedAt result).key = operation.key := by
  cases result <;> rfl

theorem accepted_append (run : List ConsoleEntry) (x : ConsoleEntry) :
    accepted (run ++ [x]) = accepted run ++ x.reply.accepted?.toList := by
  unfold accepted
  rw [List.filterMap_append]
  cases h : x.reply.accepted? <;> simp [h]

theorem finished_append (run : List ConsoleEntry) (x : ConsoleEntry) :
    finished (run ++ [x]) = finished run ++ x.reply.finished?.toList := by
  unfold finished
  rw [List.filterMap_append]
  cases h : x.reply.finished? <;> simp [h]

theorem shutdowns_append (run : List ConsoleEntry) (x : ConsoleEntry) :
    shutdowns (run ++ [x]) =
      shutdowns run + (written x).countP fun e => e.event = "shutdown_started" := by
  simp only [shutdowns, List.flatMap_append, List.countP_append, List.flatMap_singleton]

/-! ## The journal -/

/-- No event has a number that is still to come. -/
def Journal.Numbered (journal : Journal) : Prop :=
  ∀ e ∈ journal.entries, e.sequence ≤ journal.sequence

theorem Journal.Numbered.push {journal : Journal} (h : journal.Numbered) (timestamp : Nat)
    (level event message : String) : (journal.push timestamp level event message).Numbered := by
  intro e he
  rcases List.mem_append.mp he with he | he
  · have hold : e ∈ journal.entries := by
      split_ifs at he
      · exact List.mem_of_mem_tail he
      · exact he
    exact Nat.le_succ_of_le (h e hold)
  · obtain rfl := List.mem_singleton.mp he
    exact le_refl _

/-- Nothing is written where the journal is the same. -/
theorem written_of_eq {x : ConsoleEntry} (hn : x.before.control.journal.Numbered)
    (h : x.after.control.journal = x.before.control.journal) : written x = [] := by
  unfold written
  rw [h]
  apply List.filter_eq_nil_iff.mpr
  intro e he
  simpa using hn e he

/-- What is pushed is what is written. -/
theorem written_of_push {x : ConsoleEntry} (hn : x.before.control.journal.Numbered)
    {timestamp : Nat} {level event message : String}
    (h : x.after.control.journal = x.before.control.journal.push timestamp level event message) :
    written x = [⟨x.before.control.journal.sequence + 1, timestamp, level, event, message⟩] := by
  have hold : ∀ l : List LogEvent, l ⊆ x.before.control.journal.entries →
      l.filter (fun e => x.before.control.journal.sequence < e.sequence) = [] := by
    intro l hl
    apply List.filter_eq_nil_iff.mpr
    intro e he
    simpa using hn e (hl he)
  unfold written
  rw [h, Journal.push, List.filter_append, hold _ ?_, List.nil_append]
  · simp
  · split_ifs
    · exact List.tail_subset _
    · exact List.Subset.refl _

/-- A journal that is the same, or has one more event, has no number to come. -/
theorem Control.Quiet.numbered {control control' : Control} (h : control.Quiet control')
    (hn : control.journal.Numbered) : control'.journal.Numbered := by
  rcases h.journal with hsame | ⟨_, _, _, _, -, hpush⟩
  · rwa [hsame]
  · rw [hpush]
    exact hn.push _ _ _ _

/-- No end is logged where another event is, or none. -/
theorem countP_written {x : ConsoleEntry} (hn : x.before.control.journal.Numbered)
    (h : x.after.control.journal = x.before.control.journal ∨ ∃ logged level event message,
      event ≠ "shutdown_started" ∧
        x.after.control.journal = x.before.control.journal.push logged level event message) :
    (written x).countP (fun e => e.event = "shutdown_started") = 0 := by
  rcases h with hsame | ⟨_, _, _, _, hne, hpush⟩
  · rw [written_of_eq hn hsame, List.countP_nil]
  · rw [written_of_push hn hpush]
    simpa using hne

/-! ## The account of a run -/

/-- The account of the actions of a run that ended in a state. -/
structure Orderly (run : List ConsoleEntry) (s : ConsoleState) : Prop where
  tasks : s.tasks = s.control.active.toList
  next : s.control.nextOperation = (accepted run).length + 1
  ids : (accepted run).map Operation.id = List.range' 1 (accepted run).length
  keys : (accepted run).map Operation.key =
    (finished run ++ s.control.active.toList).map Operation.key
  current : ∀ operation ∈ s.control.active,
    operation.configRevision = s.control.store.document.revision
  recent : s.control.recent = (finished run).reverse.take operationCapacity
  waiting : .waiting ∈ s.drains → s.control.shuttingDown = true ∧ s.control.active ≠ none
  returned : .returned ∈ s.drains → s.control.shuttingDown = true ∧ s.control.active = none
  numbered : s.control.journal.Numbered
  shutdowns : shutdowns run = if s.control.shuttingDown then 1 else 0

theorem orderly_new (store : ConfigStore) (files : Files) (logged : Nat) :
    Orderly [] (.new store files logged) where
  tasks := rfl
  next := rfl
  ids := rfl
  keys := rfl
  current := by
    intro operation h
    cases h
  recent := rfl
  waiting := by
    intro h
    cases h
  returned := by
    intro h
    cases h
  numbered := by
    have hempty : Journal.empty.Numbered := by
      intro e he
      cases he
    exact hempty.push _ _ _ _
  shutdowns := rfl

/-- Where nothing is accepted or finished the account stays, if the settings stay while an action
runs. -/
theorem Orderly.quiet {run : List ConsoleEntry} {s s' : ConsoleState} {e : ConsoleEvent}
    {reply : ConsoleReply} (h : Orderly run s) (hquiet : s.control.Quiet s'.control)
    (htasks : s'.tasks = s.tasks)
    (hstore : s.control.active ≠ none → s'.control.store = s.control.store)
    (hdrains : ∀ d ∈ s'.drains, d ∈ s.drains ∨ ∃ notified, d = .entering notified)
    (haccepted : reply.accepted? = none) (hfinished : reply.finished? = none) :
    Orderly (run ++ [⟨s, e, reply, s'⟩]) s' := by
  have hrun : accepted (run ++ [⟨s, e, reply, s'⟩]) = accepted run := by
    rw [accepted_append, haccepted, Option.toList_none, List.append_nil]
  have hdone : finished (run ++ [⟨s, e, reply, s'⟩]) = finished run := by
    rw [finished_append, hfinished, Option.toList_none, List.append_nil]
  have hold : ∀ d : Drain, (∀ notified, d ≠ .entering notified) → d ∈ s'.drains → d ∈ s.drains := by
    intro d hd hmem
    rcases hdrains d hmem with hmem | ⟨notified, rfl⟩
    · exact hmem
    · exact absurd rfl (hd notified)
  refine ⟨?_, ?_, ?_, ?_, ?_, ?_, ?_, ?_, hquiet.numbered h.numbered, ?_⟩
  · rw [htasks, hquiet.active, h.tasks]
  · rw [hquiet.nextOperation, hrun, h.next]
  · rw [hrun, h.ids]
  · rw [hrun, hdone, hquiet.active, h.keys]
  · intro operation hactive
    rw [hquiet.active] at hactive
    have hne : s.control.active ≠ none := by
      rw [Option.mem_def.mp hactive]
      exact Option.some_ne_none _
    rw [hstore hne]
    exact h.current operation hactive
  · rw [hquiet.recent, hdone, h.recent]
  · intro hmem
    rw [hquiet.shuttingDown, hquiet.active]
    exact h.waiting (hold _ (fun _ => Drain.noConfusion) hmem)
  · intro hmem
    rw [hquiet.shuttingDown, hquiet.active]
    exact h.returned (hold _ (fun _ => Drain.noConfusion) hmem)
  · rw [shutdowns_append, countP_written h.numbered hquiet.journal, h.shutdowns,
      hquiet.shuttingDown]
    rfl

/-- A call that begins is not waiting, and has not returned. -/
theorem mem_drains_append {s : ConsoleState} {d : Drain} (h : d ∈ s.drains ++ [.entering false]) :
    d ∈ s.drains ∨ ∃ notified, d = .entering notified := by
  rcases List.mem_append.mp h with h | h
  · exact .inl h
  · exact .inr ⟨false, List.mem_singleton.mp h⟩

/-- The next action is accepted. -/
theorem Orderly.start {run : List ConsoleEntry} {s : ConsoleState} (h : Orderly run s)
    (kind : OperationKind) (builds : PreflightConfig → Bool) (startedAt logged : Nat) :
    Orderly (run ++ [(consoles K listeners).entry s (.start kind builds startedAt logged)])
      ((consoles K listeners).step s (.start kind builds startedAt logged)).1 := by
  rcases @step_start K listeners s kind builds startedAt logged with
    ⟨refusal, hstep⟩ | ⟨operation, hdown, hactive, hoperation, hstep⟩
  · rw [Machine.entry, hstep]
    exact h.quiet ⟨rfl, rfl, rfl, rfl, .inl rfl⟩ rfl (fun _ => rfl) (fun d hd => .inl hd) rfl rfl
  · have hid : operation.id = (accepted run).length + 1 := by
      rw [hoperation, h.next]
    have htasks : s.tasks = [] := by
      rw [h.tasks, hactive, Option.toList_none]
    have hkeys : (accepted run).map Operation.key = (finished run).map Operation.key := by
      rw [h.keys, hactive, Option.toList_none, List.append_nil]
    rw [Machine.entry, hstep]
    refine ⟨?_, ?_, ?_, ?_, ?_, ?_, ?_, ?_, h.numbered.push _ _ _ _, ?_⟩
    · show s.tasks ++ [operation] = [operation]
      rw [htasks, List.nil_append]
    · rw [accepted_append]
      show s.control.nextOperation + 1 = (accepted run ++ [operation]).length + 1
      rw [h.next, List.length_append, List.length_singleton]
    · rw [accepted_append]
      show (accepted run ++ [operation]).map Operation.id =
        List.range' 1 (accepted run ++ [operation]).length
      rw [List.map_append, h.ids, List.length_append, List.length_singleton,
        List.map_singleton, hid, List.range'_append_1.symm, Nat.add_comm 1]
      rfl
    · rw [accepted_append, finished_append]
      show (accepted run ++ [operation]).map Operation.key =
        (finished run ++ [] ++ [operation]).map Operation.key
      rw [List.append_nil, List.map_append, List.map_append, hkeys]
    · intro op hop
      obtain rfl := Option.some.inj hop
      rw [hoperation]
      rfl
    · rw [finished_append]
      show s.control.recent = (finished run ++ []).reverse.take operationCapacity
      rw [List.append_nil, h.recent]
    · intro hmem
      exact absurd (h.waiting hmem).1 (by simp [hdown])
    · intro hmem
      exact absurd (h.returned hmem).1 (by simp [hdown])
    · rw [shutdowns_append, h.shutdowns, written_of_push h.numbered rfl]
      show _ = if s.control.shuttingDown then 1 else 0
      rw [hdown]
      rfl

/-- The list of the last ones, with one more. -/
theorem take_cons_dropLast (operation : Operation) (l : List Operation) :
    (operation :: if (l.take operationCapacity).length = operationCapacity then
        (l.take operationCapacity).dropLast else l.take operationCapacity) =
      (operation :: l).take operationCapacity := by
  have hcapacity : operationCapacity = 31 + 1 := rfl
  rw [List.length_take, hcapacity, List.take_succ_cons]
  split_ifs with hfull
  · have hlength : (l.take (31 + 1)).length = 31 + 1 := by
      rw [List.length_take]
      exact hfull
    rw [List.dropLast_eq_take, hlength, List.take_take]
    rfl
  · have hlength : l.length ≤ 31 := by omega
    rw [List.take_of_length_le (Nat.le_succ_of_le hlength), List.take_of_length_le hlength]

/-- The action that was started is finished. -/
theorem Orderly.finish {run : List ConsoleEntry} {s : ConsoleState} (h : Orderly run s)
    (task : Nat) (outcome : Option Json) (finishedAt logged : Nat) :
    Orderly (run ++ [(consoles K listeners).entry s (.finish task outcome finishedAt logged)])
      ((consoles K listeners).step s (.finish task outcome finishedAt logged)).1 := by
  rcases @step_finish K listeners s task outcome finishedAt logged with
    hstep | ⟨operation, htask, hstep⟩
  · rw [Machine.entry, hstep]
    exact h.quiet ⟨rfl, rfl, rfl, rfl, .inl rfl⟩ rfl (fun _ => rfl) (fun d hd => .inl hd) rfl rfl
  · obtain ⟨result, hresult⟩ : ∃ result, result = supervise operation.kind outcome := ⟨_, rfl⟩
    obtain ⟨control, hquiet, hstore, hfinish⟩ :=
      s.control.finish_cases operation result finishedAt logged
    rw [← hresult, hfinish] at hstep
    obtain ⟨rfl, hactive⟩ : task = 0 ∧ s.control.active = some operation := by
      rw [h.tasks] at htask
      cases hactive : s.control.active with
      | none =>
          rw [hactive, Option.toList_none, List.getElem?_nil] at htask
          cases htask
      | some op =>
          rw [hactive, Option.toList_some] at htask
          obtain ⟨hlt, hget⟩ := List.getElem?_eq_some_iff.mp htask
          obtain rfl : task = 0 := Nat.lt_one_iff.mp hlt
          exact ⟨rfl, congrArg some hget⟩
    have htasks : s.tasks = [operation] := by
      rw [h.tasks, hactive, Option.toList_some]
    rw [Machine.entry, hstep]
    refine ⟨?_, ?_, ?_, ?_, ?_, ?_, ?_, ?_, hquiet.numbered h.numbered, ?_⟩
    · show s.tasks.eraseIdx 0 = []
      rw [htasks]
      rfl
    · rw [accepted_append]
      show control.nextOperation = (accepted run ++ []).length + 1
      rw [hquiet.nextOperation, List.append_nil, h.next]
    · rw [accepted_append]
      show (accepted run ++ []).map Operation.id = List.range' 1 (accepted run ++ []).length
      rw [List.append_nil, h.ids]
    · rw [accepted_append, finished_append]
      show (accepted run ++ []).map Operation.key =
        (finished run ++ [operation.finish finishedAt result] ++ []).map Operation.key
      rw [List.append_nil, List.append_nil, h.keys, hactive, Option.toList_some, List.map_append,
        List.map_append, List.map_singleton, List.map_singleton, Operation.key_finish]
    · intro op hop
      cases hop
    · rw [finished_append]
      show (operation.finish finishedAt result :: if control.recent.length = operationCapacity then
        control.recent.dropLast else control.recent) = _
      rw [hquiet.recent, h.recent, take_cons_dropLast, ConsoleReply.finished?, Option.toList_some,
        List.reverse_append]
      rfl
    · intro hmem
      obtain ⟨d, -, hd⟩ := List.mem_map.mp hmem
      cases d <;> cases hd
    · intro hmem
      obtain ⟨d, hd, hnotify⟩ := List.mem_map.mp hmem
      have hreturned : d = .returned := by
        cases d with
        | entering notified => cases hnotify
        | waiting => cases hnotify
        | returned => rfl
      rw [hreturned] at hd
      rw [(h.returned hd).2] at hactive
      cases hactive
    · rw [shutdowns_append, countP_written h.numbered hquiet.journal, h.shutdowns]
      show _ = if control.shuttingDown then 1 else 0
      rw [hquiet.shuttingDown, Nat.add_zero]

/-- A round of a call that has not waited. It goes on, waits for an action that runs, or returns
where none does. -/
theorem Orderly.enter {run : List ConsoleEntry} {s : ConsoleState} (h : Orderly run s) {call : Nat}
    (e : ConsoleEvent) (reply : Drain) (logged : Nat) {drain : Drain}
    (hdrain : (∃ notified, drain = .entering notified) ∨
      drain = .waiting ∧ s.control.active ≠ none ∨
      drain = .returned ∧ s.control.active = none) :
    Orderly (run ++ [⟨s, e, .draining reply,
        { s with control := s.control.shutDown logged, drains := s.drains.set call drain }⟩])
      { s with control := s.control.shutDown logged, drains := s.drains.set call drain } := by
  obtain ⟨control, hcontrol⟩ : ∃ control, control = s.control.shutDown logged := ⟨_, rfl⟩
  have hdown : control.shuttingDown = true := by
    rw [hcontrol, Control.shuttingDown_shutDown]
  have hsame : control.active = s.control.active ∧ control.nextOperation = s.control.nextOperation ∧
      control.store = s.control.store ∧ control.recent = s.control.recent ∧
        control.journal.Numbered := by
    rcases s.control.shutDown_cases logged with ⟨-, heq⟩ | ⟨-, heq⟩
    · rw [hcontrol, heq]
      exact ⟨rfl, rfl, rfl, rfl, h.numbered⟩
    · rw [hcontrol, heq]
      exact ⟨rfl, rfl, rfl, rfl, h.numbered.push _ _ _ _⟩
  obtain ⟨hactive, hnext, hstore, hrecent, hnumbered⟩ := hsame
  have hmem : ∀ d ∈ s.drains.set call drain, d ∈ s.drains ∨ d = drain :=
    fun d => List.mem_or_eq_of_mem_set
  rw [← hcontrol]
  refine ⟨?_, ?_, ?_, ?_, ?_, ?_, ?_, ?_, hnumbered, ?_⟩
  · show s.tasks = control.active.toList
    rw [hactive, h.tasks]
  · rw [accepted_append]
    show control.nextOperation = (accepted run ++ []).length + 1
    rw [hnext, List.append_nil, h.next]
  · rw [accepted_append]
    show (accepted run ++ []).map Operation.id = List.range' 1 (accepted run ++ []).length
    rw [List.append_nil, h.ids]
  · rw [accepted_append, finished_append]
    show (accepted run ++ []).map Operation.key =
      (finished run ++ [] ++ control.active.toList).map Operation.key
    rw [List.append_nil, List.append_nil, hactive, h.keys]
  · intro op hop
    show op.configRevision = control.store.document.revision
    rw [hstore]
    refine h.current op ?_
    rw [← hactive]
    exact hop
  · rw [finished_append]
    show control.recent = (finished run ++ []).reverse.take operationCapacity
    rw [List.append_nil, hrecent, h.recent]
  · intro hwaiting
    refine ⟨hdown, ?_⟩
    show control.active ≠ none
    rw [hactive]
    rcases hmem _ hwaiting with hold | rfl
    · exact (h.waiting hold).2
    · rcases hdrain with ⟨_, hd⟩ | ⟨-, hd⟩ | ⟨hd, -⟩
      · cases hd
      · exact hd
      · cases hd
  · intro hreturned
    refine ⟨hdown, ?_⟩
    show control.active = none
    rw [hactive]
    rcases hmem _ hreturned with hold | rfl
    · exact (h.returned hold).2
    · rcases hdrain with ⟨_, hd⟩ | ⟨hd, -⟩ | ⟨-, hd⟩
      · cases hd
      · cases hd
      · exact hd
  · rw [shutdowns_append, h.shutdowns]
    show _ = if control.shuttingDown then 1 else 0
    rw [hdown]
    rcases s.control.shutDown_cases logged with ⟨hbefore, heq⟩ | ⟨hbefore, heq⟩
    · have hjournal : control.journal = s.control.journal := by
        rw [hcontrol, heq]
      rw [written_of_eq h.numbered hjournal, hbefore]
      rfl
    · have hjournal : control.journal = s.control.journal.push logged "info" "shutdown_started"
          "Finishing accepted diagnostics before shutdown" := by
        rw [hcontrol, heq]
        rfl
      rw [written_of_push h.numbered hjournal, hbefore]
      rfl

/-- A call has a round. -/
theorem Orderly.advance {run : List ConsoleEntry} {s : ConsoleState} (h : Orderly run s)
    (call logged : Nat) :
    Orderly (run ++ [(consoles K listeners).entry s (.advance call logged)])
      ((consoles K listeners).step s (.advance call logged)).1 := by
  rcases @step_advance K listeners s call logged with
    hstep | ⟨drain, hdrain, -, hstep⟩ | ⟨notified, hdrain, hstep⟩
  · rw [Machine.entry, hstep]
    exact h.quiet ⟨rfl, rfl, rfl, rfl, .inl rfl⟩ rfl (fun _ => rfl) (fun d hd => .inl hd) rfl rfl
  · rw [Machine.entry, hstep]
    refine h.quiet ⟨rfl, rfl, rfl, rfl, .inl rfl⟩ rfl (fun _ => rfl) (fun d hd => .inl ?_) rfl rfl
    rcases List.mem_or_eq_of_mem_set hd with hd | rfl
    · exact hd
    · exact List.mem_of_getElem? hdrain
  · rw [Machine.entry, hstep]
    apply h.enter
    rw [Control.active_shutDown]
    split_ifs with hnone hnotified
    · exact .inr (.inr ⟨rfl, Option.isNone_iff_eq_none.mp hnone⟩)
    · exact .inl ⟨_, rfl⟩
    · exact .inr (.inl ⟨rfl, fun h => hnone (Option.isNone_iff_eq_none.mpr h)⟩)

/-- The account is right after every event. -/
theorem orderly_step {run : List ConsoleEntry} {s : ConsoleState} (h : Orderly run s)
    (e : ConsoleEvent) :
    Orderly (run ++ [(consoles K listeners).entry s e]) ((consoles K listeners).step s e).1 := by
  cases e with
  | start kind builds startedAt logged => exact h.start kind builds startedAt logged
  | finish task outcome finishedAt logged => exact h.finish task outcome finishedAt logged
  | update guard input fs logged =>
      refine h.quiet updateConfig_quiet rfl (fun hactive => ?_) (fun d hd => .inl hd) rfl rfl
      obtain ⟨refusal, hstep⟩ :=
        @step_update_refused K listeners s guard input fs logged (.inr hactive)
      rw [hstep]
  | drain =>
      exact h.quiet ⟨rfl, rfl, rfl, rfl, .inl rfl⟩ rfl (fun _ => rfl) (fun d hd => mem_drains_append hd)
        rfl rfl
  | advance call logged => exact h.advance call logged

/-- The account of a run is right. -/
theorem orderly_run (store : ConfigStore) (files : Files) (logged : Nat) (es : List ConsoleEvent) :
    Orderly ((consoles K listeners).trace (.new store files logged) es)
      ((consoles K listeners).final (.new store files logged) es) := by
  induction es using List.reverseRecOn with
  | nil => exact orderly_new store files logged
  | append_singleton es e ih =>
      rw [Machine.trace_append, Machine.final_append]
      exact orderly_step ih e

/-- An entry of a run comes to a state with a right account. -/
theorem orderly_before {store : ConfigStore} {files : Files} {logged : Nat} {es : List ConsoleEvent}
    {x : ConsoleEntry} (hx : x ∈ (consoles K listeners).trace (.new store files logged) es) :
    x = (consoles K listeners).entry x.before x.event ∧ ∃ run, Orderly run x.before := by
  obtain ⟨pre, post, hsplit⟩ := List.append_of_mem hx
  obtain ⟨es₁, e, es₂, -, rfl, rfl, -⟩ := Machine.exists_of_trace_eq_cons hsplit
  exact ⟨rfl, _, orderly_run store files logged es₁⟩

/-- The settings that an action began with are there when it begins and when it ends. -/
theorem Orderly.revision {run : List ConsoleEntry} {s : ConsoleState} (h : Orderly run s)
    {e : ConsoleEvent} {operation : Operation}
    (hreply : ((consoles K listeners).step s e).2 = .accepted operation ∨
      ((consoles K listeners).step s e).2 = .finished operation) :
    operation.configRevision = s.control.store.document.revision ∧
    ((consoles K listeners).step s e).1.control.store = s.control.store := by
  cases e with
  | start kind builds startedAt logged =>
      rcases @step_start K listeners s kind builds startedAt logged with
        ⟨refusal, hstep⟩ | ⟨op, -, -, hop, hstep⟩
      · rw [hstep] at hreply
        rcases hreply with hreply | hreply <;> cases hreply
      · rw [hstep] at hreply ⊢
        rcases hreply with hreply | hreply
        · obtain rfl := ConsoleReply.accepted.inj hreply
          rw [hop]
          exact ⟨rfl, rfl⟩
        · cases hreply
  | finish task outcome finishedAt logged =>
      rcases @step_finish K listeners s task outcome finishedAt logged with hstep | ⟨op, htask, hstep⟩
      · rw [hstep] at hreply
        rcases hreply with hreply | hreply <;> cases hreply
      · obtain ⟨control, hquiet, hstore, hfinish⟩ :=
          s.control.finish_cases op (supervise op.kind outcome) finishedAt logged
        rw [hfinish] at hstep
        rw [hstep] at hreply ⊢
        have hactive : op ∈ s.control.active := by
          have hmem := List.mem_of_getElem? htask
          rw [h.tasks] at hmem
          exact Option.mem_toList.mp hmem
        rcases hreply with hreply | hreply
        · cases hreply
        · obtain rfl := ConsoleReply.finished.inj hreply
          have hkey := congrArg (fun key => key.2.2.2)
            (op.key_finish finishedAt (supervise op.kind outcome))
          exact ⟨hkey.trans (h.current op hactive), hstore⟩
  | update guard input fs logged => rcases hreply with hreply | hreply <;> cases hreply
  | drain => rcases hreply with hreply | hreply <;> cases hreply
  | advance call logged =>
      rcases @step_advance K listeners s call logged with hstep | ⟨_, -, -, hstep⟩ | ⟨_, -, hstep⟩
      · rw [hstep] at hreply
        rcases hreply with hreply | hreply <;> cases hreply
      · rw [hstep] at hreply
        rcases hreply with hreply | hreply <;> cases hreply
      · rw [hstep] at hreply
        rcases hreply with hreply | hreply <;> cases hreply

/-! ## The end -/

/-- A step after the end began: nothing is accepted, and the settings stay. -/
structure Closed (x : ConsoleEntry) : Prop where
  shuttingDown : x.after.control.shuttingDown = true
  action : ∀ operation, x.reply ≠ .accepted operation
  update : ∀ answer applied, x.reply = .updated answer applied →
    (∃ refusal, answer = .error refusal) ∧ applied = none
  store : x.after.control.store = x.before.control.store
  files : x.after.files = x.before.files
  idle : x.before.control.active = none → x.after.control.active = none

/-- After the end began every step is closed. -/
theorem closed_step {s : ConsoleState} (h : s.control.shuttingDown = true) (e : ConsoleEvent) :
    Closed ((consoles K listeners).entry s e) := by
  have hno : ∀ {P : Prop} {answer : Except Refusal ConfigResponse} {applied : Option Node.Settings}
      {reply : ConsoleReply}, (∀ a b, reply ≠ .updated a b) → reply = .updated answer applied → P :=
    fun hne heq => absurd heq (hne _ _)
  cases e with
  | start kind builds startedAt logged =>
      rcases @step_start K listeners s kind builds startedAt logged with
        ⟨refusal, hstep⟩ | ⟨op, hdown, -⟩
      · rw [Machine.entry, hstep]
        exact ⟨h, fun _ => ConsoleReply.noConfusion, fun _ _ => hno fun _ _ => ConsoleReply.noConfusion,
          rfl, rfl, id⟩
      · rw [h] at hdown
        cases hdown
  | finish task outcome finishedAt logged =>
      rcases @step_finish K listeners s task outcome finishedAt logged with hstep | ⟨op, -, hstep⟩
      · rw [Machine.entry, hstep]
        exact ⟨h, fun _ => ConsoleReply.noConfusion, fun _ _ => hno fun _ _ => ConsoleReply.noConfusion,
          rfl, rfl, id⟩
      · obtain ⟨control, hquiet, hstore, hfinish⟩ :=
          s.control.finish_cases op (supervise op.kind outcome) finishedAt logged
        rw [hfinish] at hstep
        rw [Machine.entry, hstep]
        exact ⟨hquiet.shuttingDown.trans h, fun _ => ConsoleReply.noConfusion,
          fun _ _ => hno fun _ _ => ConsoleReply.noConfusion, hstore, rfl, fun _ => rfl⟩
  | update guard input fs logged =>
      obtain ⟨refusal, hstep⟩ := @step_update_refused K listeners s guard input fs logged (.inl h)
      rw [Machine.entry, hstep]
      refine ⟨h, fun _ => ConsoleReply.noConfusion, fun answer applied hreply => ?_, rfl, rfl, id⟩
      obtain ⟨rfl, rfl⟩ := ConsoleReply.updated.inj hreply
      exact ⟨⟨refusal, rfl⟩, rfl⟩
  | drain =>
      exact ⟨h, fun _ => ConsoleReply.noConfusion, fun _ _ => hno fun _ _ => ConsoleReply.noConfusion,
        rfl, rfl, id⟩
  | advance call logged =>
      rcases @step_advance K listeners s call logged with
        hstep | ⟨drain, -, -, hstep⟩ | ⟨notified, -, hstep⟩
      · rw [Machine.entry, hstep]
        exact ⟨h, fun _ => ConsoleReply.noConfusion, fun _ _ => hno fun _ _ => ConsoleReply.noConfusion,
          rfl, rfl, id⟩
      · rw [Machine.entry, hstep]
        exact ⟨h, fun _ => ConsoleReply.noConfusion, fun _ _ => hno fun _ _ => ConsoleReply.noConfusion,
          rfl, rfl, id⟩
      · rw [Machine.entry, hstep]
        refine ⟨Control.shuttingDown_shutDown _ _, fun _ => ConsoleReply.noConfusion,
          fun _ _ => hno fun _ _ => ConsoleReply.noConfusion, Control.store_shutDown _ _, rfl,
            fun hactive => ?_⟩
        exact (Control.active_shutDown _ _).trans hactive

/-- After the end began every later step is closed, and nothing runs again. -/
theorem closed_run {s : ConsoleState} (h : s.control.shuttingDown = true) (es : List ConsoleEvent) :
    ∀ y ∈ (consoles K listeners).trace s es,
      Closed y ∧ (s.control.active = none → y.after.control.active = none) := by
  induction es generalizing s with
  | nil =>
      intro y hy
      cases hy
  | cons e es ih =>
      have hclosed := @closed_step K listeners s h e
      intro y hy
      rcases List.mem_cons.mp hy with rfl | hy
      · exact ⟨hclosed, hclosed.idle⟩
      · obtain ⟨hlater, hidle⟩ := ih hclosed.shuttingDown y hy
        exact ⟨hlater, fun hactive => hidle (hclosed.idle hactive)⟩

/-- A round of a call leaves the end begun, and a call returns when nothing runs. -/
theorem Orderly.round {run : List ConsoleEntry} {s : ConsoleState} (h : Orderly run s)
    (call logged : Nat) {drain : Drain}
    (hreply : ((consoles K listeners).step s (.advance call logged)).2 = .draining drain) :
    let s' := ((consoles K listeners).step s (.advance call logged)).1
    s'.control.shuttingDown = true ∧ (drain = .returned → s'.control.active = none) := by
  rcases @step_advance K listeners s call logged with
    hstep | ⟨d, hd, hcases, hstep⟩ | ⟨notified, hd, hstep⟩
  · rw [hstep] at hreply
    cases hreply
  · rw [hstep] at hreply ⊢
    obtain rfl := ConsoleReply.draining.inj hreply
    have hmem := List.mem_of_getElem? hd
    rcases hcases with rfl | rfl
    · exact ⟨(h.waiting hmem).1, fun hne => nomatch hne⟩
    · exact ⟨(h.returned hmem).1, fun _ => (h.returned hmem).2⟩
  · rw [hstep] at hreply ⊢
    have hdrain := ConsoleReply.draining.inj hreply
    refine ⟨Control.shuttingDown_shutDown _ _, fun hreturned => ?_⟩
    rw [hreturned] at hdrain
    split_ifs at hdrain with hnone
    exact Option.isNone_iff_eq_none.mp hnone

/-- The supervisor of the active action finishes it. -/
theorem Orderly.finishes {run : List ConsoleEntry} {s : ConsoleState} (h : Orderly run s)
    (outcome : Option Json) (finishedAt logged : Nat) {operation : Operation}
    (hactive : operation ∈ s.control.active) :
    let x := (consoles K listeners).entry s (.finish 0 outcome finishedAt logged)
    x.reply = .finished (operation.finish finishedAt (supervise operation.kind outcome)) ∧
      x.after.control.active = none := by
  have htask : s.tasks[0]? = some operation := by
    rw [h.tasks, Option.mem_def.mp hactive]
    rfl
  rcases @step_finish K listeners s 0 outcome finishedAt logged with hstep | ⟨op, hop, hstep⟩
  · -- the supervisor of an active action runs
    simp only [consoles, ConsoleState.step, htask] at hstep
    cases congrArg Prod.snd hstep
  · obtain rfl := Option.some.inj (hop.symm.trans htask)
    rw [Machine.entry, hstep]
    obtain ⟨control, -, -, hfinish⟩ :=
      s.control.finish_cases op (supervise op.kind outcome) finishedAt logged
    exact ⟨rfl, congrArg Control.active hfinish⟩

/-! ## The life of an action -/

/-- What holds of the actions of a run that ended in a state. -/
structure Lifecycle (K : Crates) (run : List ConsoleEntry) (s : ConsoleState) : Prop where
  /-- An action is accepted exactly where none is active, the end has not begun, and the peers that
  it reads can be read. -/
  accepts : ∀ x ∈ run, ∀ kind builds startedAt logged,
    x.event = .start kind builds startedAt logged →
      ((∃ operation, x.reply = .accepted operation) ↔
        x.before.control.shuttingDown = false ∧ x.before.control.active = none ∧
          checkPeers K builds x.before.control.store.document.settings kind = .ok ())
  /-- The supervisor of an active action finishes it. -/
  finishes : ∀ x ∈ run, ∀ outcome finishedAt logged, x.event = .finish 0 outcome finishedAt logged →
    ∀ operation ∈ x.before.control.active,
      x.reply = .finished (operation.finish finishedAt (supervise operation.kind outcome)) ∧
        x.after.control.active = none
  /-- The supervisors that run are that of the one active action. -/
  single : s.tasks = s.control.active.toList
  /-- The accepted actions are numbered from one. -/
  numbered : (accepted run).map Operation.id = List.range' 1 (accepted run).length
  /-- What was accepted has finished once, with its number, kind and revision, or is active. -/
  once : (accepted run).map Operation.key =
    (finished run ++ s.control.active.toList).map Operation.key
  /-- The revision of an action is current at its start and at its end. -/
  revision : ∀ x ∈ run, ∀ operation, x.reply = .accepted operation ∨ x.reply = .finished operation →
    operation.configRevision = x.before.control.store.document.revision ∧
      x.after.control.store = x.before.control.store
  /-- The last finished actions are there, newest first. -/
  recent : s.control.recent = (finished run).reverse.take operationCapacity
  consecutive : s.control.recent.map Operation.id =
    (List.range' ((finished run).length - s.control.recent.length + 1) s.control.recent.length).reverse
  bounded : s.control.recent.length ≤ operationCapacity
  /-- The end begins with a round of a call that waits for it. -/
  entered : ∀ x ∈ run, ∀ call logged, x.event = .advance call logged → x.reply ≠ .idle →
    x.after.control.shuttingDown = true
  /-- Then nothing is accepted any more. -/
  closed : ∀ pre x post, run = pre ++ x :: post → x.after.control.shuttingDown = true →
    ∀ y ∈ post, Closed y
  /-- A call returns when no action is active, and none is active later. -/
  drained : ∀ pre x post, run = pre ++ x :: post → x.reply = .draining .returned →
    x.after.control.shuttingDown = true ∧ x.after.control.active = none ∧
      ∀ y ∈ post, y.after.control.active = none
  /-- A call that waits has an action to wait for. -/
  woken : .waiting ∈ s.drains → s.control.active ≠ none
  /-- The end is logged once. -/
  logged : shutdowns run = if s.control.shuttingDown then 1 else 0

/-- The numbers of the last finished actions. -/
theorem Orderly.consecutive {run : List ConsoleEntry} {s : ConsoleState} (h : Orderly run s) :
    s.control.recent.map Operation.id =
      (List.range' ((finished run).length - s.control.recent.length + 1)
        s.control.recent.length).reverse := by
  have hids : (finished run).map Operation.id = List.range' 1 (finished run).length := by
    have hkeys := congrArg (List.map Prod.fst) h.keys
    have hfst : Prod.fst ∘ Operation.key = Operation.id := rfl
    rw [List.map_map, List.map_map, hfst, h.ids, List.map_append] at hkeys
    have hlength := congrArg List.length hkeys
    rw [List.length_range', List.length_append, List.length_map, List.length_map] at hlength
    have hearlier : (finished run).map Operation.id =
        (List.range' 1 (accepted run).length).take (finished run).length := by
      rw [hkeys, List.take_append_of_le_length (List.length_map _).ge, List.take_of_length_le
        (List.length_map _).le]
    rw [hearlier, List.take_range'_of_length_ge (by omega)]
  have hlength : s.control.recent.length = min operationCapacity (finished run).length := by
    rw [h.recent, List.length_take, List.length_reverse]
  rw [h.recent, List.map_take, List.map_reverse, hids, List.take_reverse, List.length_range',
    List.drop_range', ← h.recent, hlength, Nat.mul_one]
  have hcount : (finished run).length - ((finished run).length - operationCapacity) =
      min operationCapacity (finished run).length := by omega
  have hfirst : 1 + ((finished run).length - operationCapacity) =
      (finished run).length - min operationCapacity (finished run).length + 1 := by omega
  rw [hcount, hfirst]

/-- **One action at a time, and none after the end.** Requests for actions and settings, supervisors
that finish and calls that wait for the end come in any order. An action is accepted exactly where
none is active before the end, and its supervisor finishes it. At most one action is active;
accepted actions are numbered one after the other, and each is finished once, with its own number
and kind and with the revision that was current when it began and still is; the recent ones are the
last that finished. After a round of a call that waits for the end no action is accepted and no
settings are saved; when the call returns no action is active, and none becomes active. The end is
logged once. -/
theorem actions_drain {K : Crates} (listeners : Listeners) (store : ConfigStore) (files : Files)
    (logged : Nat) (es : List ConsoleEvent) :
    Lifecycle K ((consoles K listeners).trace (.new store files logged) es)
      ((consoles K listeners).final (.new store files logged) es) := by
  have h := @orderly_run K listeners store files logged es
  refine ⟨?_, ?_, h.tasks, h.ids, h.keys, ?_, h.recent, h.consecutive, ?_, ?_, ?_, ?_,
    fun hwaiting => (h.waiting hwaiting).2, h.shutdowns⟩
  · intro x hx kind builds startedAt logged hevent
    obtain ⟨hentry, -⟩ := orderly_before hx
    rw [hevent] at hentry
    have hreply : x.reply =
        ((consoles K listeners).step x.before (.start kind builds startedAt logged)).2 :=
      congrArg Machine.Entry.reply hentry
    rw [hreply]
    exact step_start_accepted_iff
  · intro x hx outcome finishedAt logged hevent operation hactive
    obtain ⟨hentry, run, hbefore⟩ := orderly_before hx
    rw [hevent] at hentry
    rw [hentry]
    exact hbefore.finishes outcome finishedAt logged hactive
  · intro x hx operation hreply
    obtain ⟨hentry, run, hbefore⟩ := orderly_before hx
    rw [hentry] at hreply ⊢
    exact hbefore.revision hreply
  · rw [h.recent, List.length_take]
    exact Nat.min_le_left _ _
  · intro x hx call logged hevent hreply
    obtain ⟨hentry, run, hbefore⟩ := orderly_before hx
    rw [hevent] at hentry
    rw [hentry] at hreply ⊢
    have hround := fun drain => @Orderly.round K listeners run x.before hbefore call logged drain
    rcases @step_advance K listeners x.before call logged with
      hstep | ⟨d, -, -, hstep⟩ | ⟨notified, -, hstep⟩
    · exact absurd (congrArg Prod.snd hstep) hreply
    · exact (hround d (congrArg Prod.snd hstep)).1
    · exact (hround _ (congrArg Prod.snd hstep)).1
  · intro pre x post hsplit hdown
    obtain ⟨es₁, e, es₂, -, -, -, rfl⟩ := Machine.exists_of_trace_eq_cons hsplit
    exact fun y hy => (closed_run hdown es₂ y hy).1
  · intro pre x post hsplit hreply
    obtain ⟨hentry, run, hbefore⟩ :=
      orderly_before (hsplit ▸ List.mem_append_right pre List.mem_cons_self)
    obtain ⟨es₁, e, es₂, -, -, -, rfl⟩ := Machine.exists_of_trace_eq_cons hsplit
    cases hevent : x.event with
    | advance call logged =>
        rw [hevent] at hentry
        have hround := @Orderly.round K listeners run x.before hbefore call logged .returned
        have hreturned := hreply
        rw [hentry] at hreturned
        obtain ⟨hdown, hactive⟩ := hround hreturned
        have hafter : x.after = ((consoles K listeners).step x.before (.advance call logged)).1 :=
          congrArg Machine.Entry.after hentry
        rw [← hafter] at hdown hactive
        exact ⟨hdown, hactive rfl, fun y hy => (closed_run hdown es₂ y hy).2 (hactive rfl)⟩
    | start kind builds startedAt logged =>
        rw [hentry, hevent] at hreply
        rcases @step_start K listeners x.before kind builds startedAt logged with
          ⟨refusal, hstep⟩ | ⟨op, -, -, -, hstep⟩
        · exact absurd ((congrArg Prod.snd hstep).symm.trans hreply) ConsoleReply.noConfusion
        · exact absurd ((congrArg Prod.snd hstep).symm.trans hreply) ConsoleReply.noConfusion
    | finish task outcome finishedAt logged =>
        rw [hentry, hevent] at hreply
        rcases @step_finish K listeners x.before task outcome finishedAt logged with
          hstep | ⟨op, -, hstep⟩
        · exact absurd ((congrArg Prod.snd hstep).symm.trans hreply) ConsoleReply.noConfusion
        · exact absurd ((congrArg Prod.snd hstep).symm.trans hreply) ConsoleReply.noConfusion
    | update guard input fs logged =>
        rw [hentry, hevent] at hreply
        cases hreply
    | drain =>
        rw [hentry, hevent] at hreply
        cases hreply

/-- A second action is asked for while the first one runs, and a call waits for the first one. -/
def sampleShift : List ConsoleEvent :=
  [.start .reconstruct (fun _ => true) 100 100, .start .reconstruct (fun _ => true) 101 101, .drain,
    .advance 0 102, .finish 0 none 103 103]

def sampleShiftListeners : Listeners := ⟨.v4 2130706433 8788, .v4 2130706433 8787, defaultSettings⟩

/-- The console at its start. -/
def sampleShiftStart : ConsoleState :=
  .new ⟨⟨schemaVersion, 1, defaultSettings⟩⟩ sampleFiles 99

/-- The round in which the call returns. -/
def sampleRound : ConsoleEntry :=
  (consoles sampleConsole sampleShiftListeners).entry
    ((consoles sampleConsole sampleShiftListeners).final sampleShiftStart sampleShift) (.advance 0 104)

theorem sampleShift_runs :
    let run := (consoles sampleConsole sampleShiftListeners).trace sampleShiftStart
      (sampleShift ++ [.advance 0 104])
    (accepted run).map Operation.id = [1] ∧ sampleRound.reply.drain? = some .returned := by
  decide +kernel

/-- The first action is the only one and is finished; the call returns, and what is asked for later is
refused. -/
theorem actions_drain_sample :
    let machine := consoles sampleConsole sampleShiftListeners
    let run := machine.trace sampleShiftStart (sampleShift ++ [.advance 0 104])
    let later := machine.trace sampleRound.after [.start .reconstruct (fun _ => true) 105 105]
    (accepted run).map Operation.id = [1] ∧
      (finished run).map Operation.key = (accepted run).map Operation.key ∧
      sampleRound ∈ run ∧ sampleRound.reply = .draining .returned ∧
      later ≠ [] ∧ ∀ y ∈ later, Closed y ∧ y.after.control.active = none := by
  intro machine run later
  obtain ⟨haccepted, hdrain⟩ := sampleShift_runs
  have hreply : sampleRound.reply = .draining .returned := ConsoleReply.drain?_eq_some hdrain
  have hlife (es : List ConsoleEvent) : Lifecycle sampleConsole (machine.trace sampleShiftStart es)
      (machine.final sampleShiftStart es) := actions_drain _ _ _ _ es
  have hrun : run = machine.trace sampleShiftStart sampleShift ++ [sampleRound] :=
    Machine.trace_append _ _ _
  have hsplit : machine.trace sampleShiftStart
      (sampleShift ++ .advance 0 104 :: [.start .reconstruct (fun _ => true) 105 105]) =
      machine.trace sampleShiftStart sampleShift ++ sampleRound :: later :=
    Machine.trace_append _ _ _
  obtain ⟨hdown, hactive, hidle⟩ := (hlife _).drained _ sampleRound later hsplit hreply
  have hkeys := (hlife (sampleShift ++ [.advance 0 104])).once
  have hdone : (machine.final sampleShiftStart (sampleShift ++ [.advance 0 104])).control.active =
      none := by
    rw [Machine.final_append]
    exact hactive
  rw [hdone, Option.toList_none, List.append_nil] at hkeys
  refine ⟨haccepted, hkeys.symm, ?_, hreply, List.cons_ne_nil _ _, fun y hy =>
    ⟨(hlife _).closed _ sampleRound later hsplit hdown y hy, hidle y hy⟩⟩
  rw [hrun]
  exact List.mem_append_right _ List.mem_cons_self

end PurpleSky.Console
