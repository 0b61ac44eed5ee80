import PurpleSky.Lib.Machine
import PurpleSky.Console.ConfigStore

/-!
# Many stores on one directory

Any number of stores is opened on a data directory, at any time, and each of them replaces the saved
document from the snapshot it has. A replacement is taken as one step.

* **`updates_not_lost`**: what is published follows the document that was saved, and the caller and
  the store had that document.
-/

namespace PurpleSky.Console

open Node

variable {K : Crates}

/-- A data directory, and the stores that were opened on it. -/
structure Handles where
  disk : Disk
  stores : List ConfigStore

/-- What happens to a data directory. -/
inductive HandleEvent where
  | opening (bootstrap : Settings) (fs : Fs)
  | replace (handle expected : Nat) (settings : Settings) (fs : Fs)

inductive HandleReply where
  | idle
  | opened (result : Except SettingsError ConfigStore)
  | replaced (result : Except SettingsError ConfigDocument)

/-- The directory after an event. A call on a store that does not exist does nothing. -/
def Handles.step (K : Crates) (s : Handles) : HandleEvent → Handles × HandleReply
  | .opening bootstrap fs =>
      let (result, disk) := openStore K fs bootstrap s.disk
      (⟨disk, s.stores ++ result.toOption.toList⟩, .opened result)
  | .replace handle expected settings fs =>
      match s.stores[handle]? with
      | none => (s, .idle)
      | some store =>
          let (result, store, files) := store.replace K fs expected settings s.disk.files
          (⟨.directory files, s.stores.set handle store⟩, .replaced result)

/-- Data directories as a machine. -/
def directories (K : Crates) : Machine Handles HandleEvent HandleReply := ⟨Handles.step K⟩

/-- A step on a data directory. -/
abbrev HandleEntry := Machine.Entry Handles HandleEvent HandleReply

/-- The settings file is the same after a step. -/
def Untouched (x : HandleEntry) : Prop :=
  x.after.disk.files.lookup settingsName = x.before.disk.files.lookup settingsName

instance (x : HandleEntry) : Decidable (Untouched x) := inferInstanceAs (Decidable (_ = _))

/-- The document that a step published. -/
def publication (K : Crates) (x : HandleEntry) : Option ConfigDocument :=
  if Untouched x then none else onDisk K x.after.disk.files

/-- The revision of the saved document; zero where none is saved. -/
def revision (K : Crates) (files : Files) : Nat :=
  match onDisk K files with
  | some d => d.revision
  | none => 0

/-- A replacement is published, or nothing changes. -/
theorem replace_step (hK : K.Lawful) {s : Handles} {handle expected : Nat} {settings : Settings}
    {fs : Fs} {store : ConfigStore} (h : s.stores[handle]? = some store) :
    let x := (directories K).entry s (.replace handle expected settings fs)
    (∃ d, Published K store expected settings x.before.disk.files x.after.disk.files d ∧
      (x.reply = .replaced (.ok d) ∨ x.reply = .replaced (.error synchronizationFailed))) ∨
    ∃ e, x.reply = .replaced (.error e) ∧ e ≠ synchronizationFailed ∧ Untouched x := by
  obtain ⟨⟨result, store', files'⟩, hreplace⟩ :
      ∃ outcome, store.replace K fs expected settings s.disk.files = outcome := ⟨_, rfl⟩
  have hentry : (directories K).entry s (.replace handle expected settings fs) =
      ⟨s, .replace handle expected settings fs, .replaced result,
        ⟨.directory files', s.stores.set handle store'⟩⟩ := by
    simp only [Machine.entry, directories, Handles.step, h, hreplace]
  rw [hentry]
  rcases ConfigStore.replace_cases hK hreplace with ⟨hpublished, rfl | rfl⟩ | ⟨e, rfl, he, -, hsame⟩
  · exact .inl ⟨_, hpublished, .inl rfl⟩
  · exact .inl ⟨_, hpublished, .inr rfl⟩
  · exact .inr ⟨e, rfl, he, hsame⟩

/-- Opening publishes a first document where there is no file, or changes nothing. -/
theorem opening_step (hK : K.Lawful) (s : Handles) (bootstrap : Settings) (fs : Fs) :
    let x := (directories K).entry s (.opening bootstrap fs)
    Untouched x ∨ (x.before.disk.files.lookup settingsName = none ∧
      onDisk K x.after.disk.files = some ⟨schemaVersion, 1, bootstrap⟩) := by
  have hafter : ((directories K).entry s (.opening bootstrap fs)).after.disk =
      (openStore K fs bootstrap s.disk).2 := rfl
  rcases @openStore_cases K fs bootstrap hK s.disk with
    ⟨d, disk', heq, hsame, -⟩ | ⟨disk', hnone, hwritten, heq⟩ | ⟨e, disk', heq, -, hsame⟩
  · refine .inl ?_
    unfold Untouched
    rw [hafter, heq, hsame]
    rfl
  · refine .inr ⟨hnone, ?_⟩
    rw [hafter]
    rcases heq with heq | heq
    · rw [heq]
      exact hwritten
    · rw [heq]
      exact hwritten
  · refine .inl ?_
    unfold Untouched
    rw [hafter, heq]
    exact hsame

/-- Nothing is read of a file that is not there. -/
theorem onDisk_of_none {files : Files} (h : files.lookup settingsName = none) :
    onDisk K files = none := by
  apply Option.eq_none_iff_forall_not_mem.mpr
  intro d hd
  obtain ⟨file, hfile, -⟩ := onDisk_eq_some.mp hd
  rw [h] at hfile
  cases hfile

/-- A step changes nothing, or publishes the document of the next revision. -/
theorem revision_step (hK : K.Lawful) (s : Handles) (e : HandleEvent) :
    let x := (directories K).entry s e
    (Untouched x ∧ publication K x = none ∧
      revision K x.after.disk.files = revision K s.disk.files) ∨
    ∃ d, ¬Untouched x ∧ publication K x = some d ∧ d.revision = revision K s.disk.files + 1 ∧
      revision K x.after.disk.files = d.revision := by
  intro x
  have hsame : Untouched x → Untouched x ∧ publication K x = none ∧
      revision K x.after.disk.files = revision K s.disk.files := by
    intro h
    refine ⟨h, if_pos h, ?_⟩
    unfold revision
    rw [onDisk_congr h]
    rfl
  have hnext : ∀ d, onDisk K x.after.disk.files = some d →
    d.revision = revision K s.disk.files + 1 →
      ¬Untouched x ∧ publication K x = some d ∧ d.revision = revision K s.disk.files + 1 ∧
        revision K x.after.disk.files = d.revision := by
    intro d hd hrevision
    have hafter : revision K x.after.disk.files = d.revision := by
      rw [revision, hd]
    have htouched : ¬Untouched x := by
      intro h
      have := (hsame h).2.2
      omega
    refine ⟨htouched, ?_, hrevision, hafter⟩
    rw [publication, if_neg htouched, hd]
  cases e with
  | opening bootstrap fs =>
      rcases opening_step hK s bootstrap fs with h | ⟨hnone, hwritten⟩
      · exact .inl (hsame h)
      · refine .inr ⟨_, hnext _ hwritten ?_⟩
        have hzero : onDisk K s.disk.files = none := onDisk_of_none hnone
        rw [revision, hzero]
  | replace handle expected settings fs =>
      cases hstore : s.stores[handle]? with
      | none =>
          have hentry : x = ⟨s, .replace handle expected settings fs, .idle, s⟩ := by
            simp only [x, Machine.entry, directories, Handles.step, hstore]
          refine .inl (hsame ?_)
          rw [hentry]
          rfl
      | some store =>
          rcases @replace_step K hK s handle expected settings fs store hstore with
            ⟨d, hpublished, -⟩ | ⟨e, -, -, h⟩
          · refine .inr ⟨d, hnext d hpublished.written ?_⟩
            have hsaved : onDisk K s.disk.files = some store.document := hpublished.saved
            rw [hpublished.next, revision, hsaved]
          · exact .inl (hsame h)

/-- The published documents of a run have the revisions that follow the saved one. -/
theorem revision_run (hK : K.Lawful) (s : Handles) (es : List HandleEvent) :
    let published := ((directories K).trace s es).filterMap (publication K)
    published.map ConfigDocument.revision = List.range' (revision K s.disk.files + 1) published.length ∧
    revision K ((directories K).final s es).disk.files = revision K s.disk.files + published.length := by
  induction es generalizing s with
  | nil => exact ⟨rfl, rfl⟩
  | cons e es ih =>
      obtain ⟨hrest, hfinal⟩ := ih ((directories K).step s e).1
      have htrace : (directories K).trace s (e :: es) = (directories K).entry s e ::
          (directories K).trace ((directories K).step s e).1 es := rfl
      have hafter : ((directories K).entry s e).after = ((directories K).step s e).1 := rfl
      rcases revision_step hK s e with ⟨-, hnone, hsame⟩ | ⟨d, -, hsome, hd, hnext⟩
      · rw [hafter] at hsame
        rw [hsame] at hrest hfinal
        simp only [htrace, List.filterMap_cons, hnone]
        exact ⟨hrest, hfinal⟩
      · rw [hafter, hd] at hnext
        rw [hnext] at hrest hfinal
        simp only [htrace, List.filterMap_cons, hsome, List.map_cons, List.length_cons,
          List.range'_succ, hd, hrest, true_and]
        show revision K ((directories K).final _ es).disk.files = _
        rw [hfinal]
        omega

/-- **No update is lost.** Stores are opened on a data directory and replace its document, in any
order, from any snapshots. A replacement is published only when the store's snapshot is what is
saved and the caller named its revision, as the next revision of that document; every other one
fails and leaves the file alone. Opening publishes the first document, and only where there is no
file. So the published documents have consecutive revisions, and no two have the same. -/
theorem updates_not_lost {K : Crates} (hK : K.Lawful) (disk : Disk) (es : List HandleEvent) :
    let trace := (directories K).trace ⟨disk, []⟩ es
    let published := trace.filterMap (publication K)
    (∀ x ∈ trace, ∀ handle expected settings fs store, x.event = .replace handle expected settings fs →
      x.before.stores[handle]? = some store →
      (∃ d, Published K store expected settings x.before.disk.files x.after.disk.files d ∧
        (x.reply = .replaced (.ok d) ∨ x.reply = .replaced (.error synchronizationFailed))) ∨
      ∃ e, x.reply = .replaced (.error e) ∧ e ≠ synchronizationFailed ∧ Untouched x) ∧
    (∀ x ∈ trace, ∀ bootstrap fs, x.event = .opening bootstrap fs →
      Untouched x ∨ (x.before.disk.files.lookup settingsName = none ∧
        onDisk K x.after.disk.files = some ⟨schemaVersion, 1, bootstrap⟩)) ∧
    (∀ x ∈ trace, revision K x.after.disk.files = revision K x.before.disk.files ∧ Untouched x ∨
      revision K x.after.disk.files = revision K x.before.disk.files + 1 ∧ ¬Untouched x) ∧
    published.map ConfigDocument.revision = List.range' (revision K disk.files + 1) published.length ∧
    (published.map ConfigDocument.revision).Nodup := by
  intro trace published
  have hrun := (revision_run hK ⟨disk, []⟩ es).1
  have hstep : ∀ x ∈ trace, x = (directories K).entry x.before x.event :=
    fun x hx => Machine.eq_entry_of_mem_trace hx
  refine ⟨?_, ?_, ?_, hrun, ?_⟩
  · intro x hx handle expected settings fs store hevent hstore
    have hentry := hstep x hx
    rw [hevent] at hentry
    rw [hentry]
    exact replace_step hK hstore
  · intro x hx bootstrap fs hevent
    have hentry := hstep x hx
    rw [hevent] at hentry
    rw [hentry]
    exact opening_step hK x.before bootstrap fs
  · intro x hx
    have h := revision_step hK x.before x.event
    rw [← hstep x hx] at h
    rcases h with ⟨hsame, -, hrevision⟩ | ⟨d, hchanged, -, hd, hrevision⟩
    · exact .inl ⟨hrevision, hsame⟩
    · exact .inr ⟨hrevision.trans hd, hchanged⟩
  · rw [hrun]
    exact List.nodup_range'

/-- Two stores are opened, and both replace the first document. -/
def sampleUpdates : List HandleEvent :=
  [.opening defaultSettings calm, .opening defaultSettings calm, .replace 0 1 defaultSettings calm,
    .replace 1 1 defaultSettings calm]

theorem sampleUpdates_runs :
    let trace := (directories sampleConsole).trace ⟨.missing, []⟩ sampleUpdates
    (trace.filterMap (publication sampleConsole)).length = 2 ∧
    (trace.all fun x => match x.event, x.reply with
      | .replace 1 _ _ _, .replaced result => result = .error .conflict
      | .replace _ _ _ _, .replaced result => result.isOk
      | _, _ => true) = true := by
  decide +kernel

/-- The second store, which has the first document, does not replace the second one. -/
theorem updates_not_lost_sample :
    let trace := (directories sampleConsole).trace ⟨.missing, []⟩ sampleUpdates
    (trace.filterMap (publication sampleConsole)).map ConfigDocument.revision = [1, 2] ∧
    (trace.all fun x => match x.event, x.reply with
      | .replace 1 _ _ _, .replaced result => result = .error .conflict
      | .replace _ _ _ _, .replaced result => result.isOk
      | _, _ => true) = true := by
  obtain ⟨hlength, hreplies⟩ := sampleUpdates_runs
  obtain ⟨-, -, -, hrevisions, -⟩ := updates_not_lost sampleConsole_lawful .missing sampleUpdates
  refine ⟨?_, hreplies⟩
  rw [hrevisions, hlength]
  have hzero : revision sampleConsole Disk.missing.files = 0 := by decide +kernel
  rw [hzero]
  rfl

end PurpleSky.Console
