import PurpleSky.Console.Settings
import PurpleSky.Node.Evidence
import PurpleSky.Node.Maps

/-!
# The settings file (`settings.rs`, `ConfigStore`)

A store has the document of `settings.json` in memory and replaces both. Every step on the file
system may fail, which is an argument, `Fs`; a rename or a link happens or does not.

* `publish_cases`: publishing writes the whole document, or leaves the saved one.
* **`replace_atomic`**: whatever fails, a store and its file agree after a replacement.
-/

namespace PurpleSky.Console

open Bytes Node

/-! ## Files -/

/-- A file of the data directory. -/
structure File where
  regular : Bool
  mode : Nat
  content : Bytes
  deriving DecidableEq, Repr

/-- The files of the data directory. -/
abbrev Files := List (Bytes × File)

/-- What stands at the path of the data directory. -/
inductive Disk where
  | missing
  | other
  | directory (files : Files)

/-- The files at the path of the data directory. -/
def Disk.files : Disk → Files
  | directory files => files
  | _ => []

/-- The steps on the file system that may fail. -/
inductive FsStep where
  | inspectDirectory
  | createDirectory
  | inspectCreated
  | checkCreated
  | inspect
  | openFile
  | inspectOpened
  | sameFile
  | read
  | encode
  | create
  | write
  | syncFile
  | publish
  | remove
  | syncDirectory
  deriving DecidableEq, Repr

/-- What a call meets on the file system: the steps that fail, the random part of a name, and how
much of a failing write arrives. -/
structure Fs where
  fails : FsStep → Bool
  random : Bytes
  written : Nat

/-- Nothing fails. -/
def calm : Fs := ⟨fun _ => false, [], 0⟩

/-- The name of the settings file. -/
def settingsName : Bytes := str "settings.json"

/-- The name of a temporary file. -/
def temporaryName (random : Bytes) : Bytes := str ".settings-" ++ hexEncode random ++ str ".tmp"

/-- A file that others cannot read. -/
def privateFile (content : Bytes) : File := ⟨true, 384, content⟩

/-- Source: `settings.rs`, `synchronization_failed` -/
def synchronizationFailed : SettingsError :=
  .persistence ("configuration published but directory synchronization failed; " ++
    "reread settings before retrying")

variable (K : Crates) (fs : Fs)

/-- A step that may fail. -/
def step (s : FsStep) (message : String) : Except SettingsError Unit :=
  ensure (fs.fails s = false) (.persistence message)

/-- Source: `settings.rs`, `read_document` -/
def readDocument (files : Files) : Except SettingsError (Option ConfigDocument) := do
  step fs .inspect "cannot inspect saved configuration"
  match files.lookup settingsName with
  | none => pure none
  | some file => do
      ensure (file.regular = true)
        (.persistence "saved configuration must be a regular file, not a symlink")
      ensure (file.mode % 64 = 0)
        (.persistence "saved configuration permissions must exclude group and other access")
      ensure (file.content.length ≤ maxSettingsBytes)
        (.persistence "saved configuration exceeds size limit")
      step fs .openFile "cannot read saved configuration"
      step fs .inspectOpened "cannot inspect opened configuration"
      step fs .sameFile "saved configuration changed while opening"
      step fs .read "cannot read saved configuration"
      let document ← okOr ((K.json.parse file.content).bind (ConfigDocument.ofJson? K))
        (.persistence "saved configuration is malformed")
      ensure (document.schemaVersion = schemaVersion)
        (.persistence "saved configuration schema is unsupported")
      ensure (document.revision ≠ 0) (.persistence "saved configuration revision must be positive")
      (document.settings.validate K).mapError fun _ =>
        .persistence "saved configuration contains invalid settings"
      pure (some document)

/-- A temporary file goes when it is not used any more.
Source: `settings.rs`, `TemporaryFile` (`Drop`) -/
def dropTemporary (files : Files) : Files :=
  if fs.fails .remove then files else removeKey files (temporaryName fs.random)

/-- Source: `settings.rs`, `publish` -/
def publish (document : ConfigDocument) (first : Bool) (files : Files) :
    Except SettingsError Unit × Files :=
  let bytes := K.pretty (document.toJson K)
  let temporary := temporaryName fs.random
  let written := insertKey files temporary (privateFile bytes)
  if fs.fails .encode then (.error (.persistence "cannot encode configuration"), files)
  else if maxSettingsBytes < bytes.length then
    (.error (.invalid "configuration exceeds size limit"), files)
  else if fs.fails .create || (files.lookup temporary).isSome then
    (.error (.persistence "cannot create temporary configuration"), files)
  else if fs.fails .write || fs.fails .syncFile then
    (.error (.persistence "cannot synchronize configuration"),
      dropTemporary fs (insertKey files temporary (privateFile (bytes.take fs.written))))
  else if first then
    if fs.fails .publish then
      (.error (.persistence "cannot publish initial configuration"), dropTemporary fs written)
    else if (files.lookup settingsName).isSome then (.error .conflict, dropTemporary fs written)
    else (.ok (), dropTemporary fs (insertKey written settingsName (privateFile bytes)))
  else if fs.fails .publish then
    (.error (.persistence "cannot replace configuration"), dropTemporary fs written)
  else (.ok (), dropTemporary fs
    (insertKey (removeKey written temporary) settingsName (privateFile bytes)))

/-! ## Stores -/

/-- A store of the settings in a directory. Source: `settings.rs`, `ConfigStore` -/
structure ConfigStore where
  document : ConfigDocument
  deriving DecidableEq, Repr

/-- Read the saved document, or save the first one.
Source: `settings.rs`, `ConfigStore::open` (from `read_document` on) -/
def openFiles (bootstrap : Settings) (files : Files) : Except SettingsError ConfigStore × Files :=
  match readDocument K fs files with
  | .error e => (.error e, files)
  | .ok (some document) => (.ok ⟨document⟩, files)
  | .ok none =>
      match bootstrap.validate K with
      | .error e => (.error e, files)
      | .ok _ =>
          match publish K fs ⟨schemaVersion, 1, bootstrap⟩ true files with
          | (.error e, files) => (.error e, files)
          | (.ok _, files) =>
              if fs.fails .syncDirectory then (.error synchronizationFailed, files)
              else (.ok ⟨⟨schemaVersion, 1, bootstrap⟩⟩, files)

/-- Make sure of the data directory.
Source: `settings.rs`, `ConfigStore::open` (before `read_document`) -/
def openDirectory (bootstrap : Settings) : Disk → Except SettingsError Files
  | .other => do
      step fs .inspectDirectory "cannot inspect configuration directory"
      .error (.persistence "configuration directory must be a regular directory")
  | .missing => do
      step fs .inspectDirectory "cannot inspect configuration directory"
      bootstrap.validate K
      step fs .createDirectory "cannot create configuration directory"
      pure []
  | .directory files => do
      step fs .inspectDirectory "cannot inspect configuration directory"
      step fs .createDirectory "cannot create configuration directory"
      pure files

/-- Source: `settings.rs`, `ConfigStore::open` -/
def openStore (bootstrap : Settings) (disk : Disk) : Except SettingsError ConfigStore × Disk :=
  match openDirectory K fs bootstrap disk with
  | .error e => (.error e, disk)
  | .ok files =>
      if fs.fails .inspectCreated then
        (.error (.persistence "cannot inspect configuration directory"), .directory files)
      else if fs.fails .checkCreated then
        (.error (.persistence "configuration directory must be a regular directory"),
          .directory files)
      else
        match openFiles K fs bootstrap files with
        | (result, files) => (result, .directory files)

/-- The document that replaces the saved one.
Source: `settings.rs`, `ConfigStore::replace_with_sync` (before `publish`) -/
def ConfigStore.next (store : ConfigStore) (expected : Nat) (settings : Settings) (files : Files) :
    Except SettingsError ConfigDocument := do
  ensure (expected = store.document.revision) .conflict
  settings.validate K
  let saved ← readDocument K fs files
  ensure (saved = some store.document) .conflict
  ensure (store.document.revision + 1 < 18446744073709551616)
    (.persistence "configuration revision is exhausted")
  pure ⟨schemaVersion, store.document.revision + 1, settings⟩

/-- Source: `settings.rs`, `ConfigStore::replace` -/
def ConfigStore.replace (store : ConfigStore) (expected : Nat) (settings : Settings)
    (files : Files) :
    Except SettingsError ConfigDocument × ConfigStore × Files :=
  match store.next K fs expected settings files with
  | .error e => (.error e, store, files)
  | .ok document =>
      match publish K fs document false files with
      | (.error e, files) => (.error e, store, files)
      | (.ok _, files) =>
          if fs.fails .syncDirectory then (.error synchronizationFailed, ⟨document⟩, files)
          else (.ok document, ⟨document⟩, files)

/-! ## Reading -/

variable {K : Crates} {fs : Fs} {files files' : Files}

@[simp] theorem step_eq_ok {s : FsStep} {message : String} {u : Unit} :
    step fs s message = .ok u ↔ fs.fails s = false := by
  rw [step, ensure_eq_ok]

/-- What makes a file the file of a document. -/
structure Holds (K : Crates) (file : File) (d : ConfigDocument) : Prop where
  regular : file.regular = true
  mode : file.mode % 64 = 0
  short : file.content.length ≤ maxSettingsBytes
  content : (K.json.parse file.content).bind (ConfigDocument.ofJson? K) = some d
  schema : d.schemaVersion = schemaVersion
  revision : d.revision ≠ 0
  settings : d.settings.validate K = .ok ()

/-- A document is read where nothing fails and the file holds it. -/
theorem readDocument_eq_ok_some {d : ConfigDocument} :
    readDocument K fs files = .ok (some d) ↔
      (∀ s ∈ [FsStep.inspect, .openFile, .inspectOpened, .sameFile, .read], fs.fails s = false) ∧
      ∃ file, files.lookup settingsName = some file ∧ Holds K file d := by
  unfold readDocument
  cases hfile : files.lookup settingsName with
  | none =>
      constructor
      · intro h
        obtain ⟨_, -, h⟩ := bind_eq_ok.mp h
        cases h
      · rintro ⟨-, _, ⟨⟩, -⟩
  | some file =>
      simp only [bind_eq_ok, step_eq_ok, ensure_eq_ok, okOr_eq_ok, Credentials.Store.mapError_eq_ok,
        pure_eq_ok, Option.some.injEq, List.forall_mem_cons]
      constructor
      · rintro ⟨_, hinspect, _, hregular, _, hmode, _, hshort, _, hopen, _, hopened, _,
          hsame, _, hread, d', hcontent, _, hschema, _, hrevision, _, hvalid, rfl⟩
        refine ⟨⟨hinspect, hopen, hopened, hsame, hread, ?_⟩, file, rfl, ?_⟩
        · simp
        · exact ⟨hregular, hmode, hshort, hcontent, hschema, hrevision, hvalid⟩
      · rintro ⟨⟨hinspect, hopen, hopened, hsame, hread, -⟩, _, rfl, h⟩
        exact ⟨(), hinspect, (), h.regular, (), h.mode, (), h.short, (), hopen, (), hopened,
          (), hsame, (), hread, d, h.content, (), h.schema, (), h.revision, (), h.settings, rfl⟩

/-- Nothing is read where there is no file. -/
theorem readDocument_eq_ok_none :
    readDocument K fs files = .ok none ↔
      fs.fails .inspect = false ∧ files.lookup settingsName = none := by
  unfold readDocument
  cases hfile : files.lookup settingsName with
  | none => simp only [bind_eq_ok, step_eq_ok, pure_eq_ok, exists_const, and_true]
  | some file =>
      simp only [bind_eq_ok, pure_eq_ok, reduceCtorEq, and_false, exists_false]

/-- The saved document. -/
def onDisk (K : Crates) (files : Files) : Option ConfigDocument :=
  match readDocument K calm files with
  | .ok document => document
  | .error _ => none

theorem onDisk_eq_some {d : ConfigDocument} :
    onDisk K files = some d ↔ ∃ file, files.lookup settingsName = some file ∧ Holds K file d := by
  have hcalm : ∀ s ∈ [FsStep.inspect, .openFile, .inspectOpened, .sameFile, .read],
      calm.fails s = false := fun _ _ => rfl
  refine Iff.trans ?_ (readDocument_eq_ok_some.trans (and_iff_right hcalm))
  unfold onDisk
  cases readDocument K calm files with
  | ok document => simp
  | error e => simp

/-- The saved document is that of its file. -/
theorem onDisk_congr (h : files'.lookup settingsName = files.lookup settingsName) :
    onDisk K files' = onDisk K files := by
  apply Option.ext
  intro d
  rw [onDisk_eq_some, onDisk_eq_some, h]

/-- What is read is what is saved. -/
theorem onDisk_of_readDocument {d : ConfigDocument} (h : readDocument K fs files = .ok (some d)) :
    onDisk K files = some d := onDisk_eq_some.mpr (readDocument_eq_ok_some.mp h).2

/-! ## Publishing -/

theorem temporaryName_ne (random : Bytes) : settingsName ≠ temporaryName random := by
  intro h
  have hhead : settingsName.head? = (temporaryName random).head? := congrArg List.head? h
  have hname : (temporaryName random).head? = some 46 := rfl
  rw [hname] at hhead
  revert hhead
  decide

theorem lookup_dropTemporary :
    (dropTemporary fs files).lookup settingsName = files.lookup settingsName := by
  unfold dropTemporary
  split_ifs
  · rfl
  · exact lookup_removeKey_of_ne (temporaryName_ne _)

/-- A temporary file is not the settings file. -/
theorem lookup_temporary {file : File} :
    (dropTemporary fs (insertKey files (temporaryName fs.random) file)).lookup settingsName =
      files.lookup settingsName := by
  rw [lookup_dropTemporary, lookup_insertKey_of_ne (temporaryName_ne _)]

/-- Publishing writes the whole document, or leaves the saved one. -/
theorem publish_cases (document : ConfigDocument) (first : Bool) :
    (∃ e files', publish K fs document first files = (.error e, files') ∧
      e ≠ synchronizationFailed ∧
      files'.lookup settingsName = files.lookup settingsName) ∨
    ∃ files', publish K fs document first files = (.ok (), files') ∧
      (K.pretty (document.toJson K)).length ≤ maxSettingsBytes ∧
      files'.lookup settingsName = some (privateFile (K.pretty (document.toJson K))) ∧
      (first = true → files.lookup settingsName = none) := by
  have hsync : ∀ {e : SettingsError}, e ≠ synchronizationFailed → ∀ {files'' : Files},
      files''.lookup settingsName = files.lookup settingsName →
      ∃ e' files', (Except.error e, files'') = ((.error e' : Except SettingsError Unit), files') ∧
        e' ≠ synchronizationFailed ∧ files'.lookup settingsName = files.lookup settingsName :=
    fun he _ hsame => ⟨_, _, rfl, he, hsame⟩
  unfold publish
  simp only
  split_ifs with hencode hlength hcreate hwrite hfirst hpublish hexists hrename
  · exact .inl (hsync (by decide) rfl)
  · exact .inl (hsync (by decide) rfl)
  · exact .inl (hsync (by decide) rfl)
  · exact .inl (hsync (by decide) lookup_temporary)
  · exact .inl (hsync (by decide) lookup_temporary)
  · exact .inl (hsync (by decide) lookup_temporary)
  · refine .inr ⟨_, rfl, Nat.le_of_not_lt hlength, ?_, fun _ => ?_⟩
    · rw [lookup_dropTemporary, lookup_insertKey_self]
    · exact Option.not_isSome_iff_eq_none.mp hexists
  · exact .inl (hsync (by decide) lookup_temporary)
  · refine .inr ⟨_, rfl, Nat.le_of_not_lt hlength, ?_, fun h => absurd h hfirst⟩
    rw [lookup_dropTemporary, lookup_insertKey_self]

/-- A document of validated settings is read from the file that is written for it. -/
theorem holds_privateFile (hK : K.Lawful) {d : ConfigDocument}
    (hschema : d.schemaVersion = schemaVersion)
    (hpositive : d.revision ≠ 0) (hrevision : d.revision < 18446744073709551616)
    (hvalid : d.settings.validate K = .ok ())
    (hlength : (K.pretty (d.toJson K)).length ≤ maxSettingsBytes) :
    Holds K (privateFile (K.pretty (d.toJson K))) d := by
  have hrange := Settings.inRange_of_validate hvalid
  have hmode : 384 % 64 = 0 := rfl
  refine ⟨rfl, hmode, hlength, ?_, hschema, hpositive, hvalid⟩
  show (K.json.parse (K.pretty (d.toJson K))).bind (ConfigDocument.ofJson? K) = some d
  rw [hK.parse_pretty _ (ConfigDocument.plain_toJson K hschema hrevision hrange), Option.bind_some,
    ConfigDocument.ofJson?_toJson hK hschema hrevision hrange]

/-! ## Errors -/

theorem throws_step {E : SettingsError → Prop} {s : FsStep} {message : String}
    (h : E (.persistence message)) : Throws E (step fs s message) := throws_ensure fun _ => h

/-- Validation finds settings invalid, and nothing else. -/
theorem Settings.throws_validate (K : Crates) (s : Settings) :
    Throws (fun e => ∃ message, e = .invalid message) (s.validate K) := by
  have invalid : ∀ {c : Prop} [Decidable c] {message : String},
      Throws (fun e => ∃ message, e = .invalid message) (ensure c (SettingsError.invalid message)) :=
    throws_ensure fun _ => ⟨_, rfl⟩
  unfold Settings.validate
  refine Throws.bind (throws_mapError fun e => ⟨_, rfl⟩) fun _ _ =>
    Throws.bind invalid fun _ _ => ?_
  refine Throws.bind invalid fun _ _ => Throws.bind invalid fun _ _ =>
    Throws.bind invalid fun _ _ => ?_
  refine Throws.bind invalid fun _ _ => Throws.bind invalid fun _ _ =>
    Throws.bind invalid fun _ _ => ?_
  refine Throws.bind invalid fun _ _ => Throws.bind invalid fun _ _ => throws_ite (throws_pure _) ?_
  exact Throws.bind (throws_mapError fun _ => ⟨_, rfl⟩) fun _ _ => throws_pure _

/-- An error that does not come from the directory after publication. -/
abbrev Unpublished (e : SettingsError) : Prop := e ≠ synchronizationFailed

theorem Settings.throws_unpublished (s : Settings) : Throws Unpublished (s.validate K) := by
  refine (s.throws_validate K).mono ?_
  rintro e ⟨message, rfl⟩ h
  cases h

theorem throws_readDocument : Throws Unpublished (readDocument K fs files) := by
  have saved : ∀ {c : Prop} [Decidable c] {message : String},
      Unpublished (.persistence message) → Throws Unpublished (ensure c (.persistence message)) :=
    fun h => throws_ensure fun _ => h
  unfold readDocument
  refine Throws.bind (throws_step (by decide)) fun _ _ => ?_
  cases files.lookup settingsName with
  | none => exact throws_pure _
  | some file =>
      refine Throws.bind (saved (by decide)) fun _ _ =>
        Throws.bind (saved (by decide)) fun _ _ => ?_
      refine Throws.bind (saved (by decide)) fun _ _ =>
        Throws.bind (throws_step (by decide)) fun _ _ => ?_
      refine Throws.bind (throws_step (by decide)) fun _ _ => ?_
      refine Throws.bind (throws_step (by decide)) fun _ _ => ?_
      refine Throws.bind (throws_step (by decide)) fun _ _ => ?_
      refine Throws.bind (throws_okOr fun _ => by decide) fun document _ => ?_
      refine Throws.bind (saved (by decide)) fun _ _ =>
        Throws.bind (saved (by decide)) fun _ _ => ?_
      exact Throws.bind (throws_mapError fun _ => by decide) fun _ _ => throws_pure _

/-! ## Replacing -/

variable {store : ConfigStore} {expected : Nat} {settings : Settings}

/-- The next document is of the saved one, which is the store's, and the caller named its revision.
-/
theorem ConfigStore.next_eq_ok {d : ConfigDocument}
    (h : store.next K fs expected settings files = .ok d) :
    expected = store.document.revision ∧ settings.validate K = .ok () ∧
    onDisk K files = some store.document ∧ store.document.revision + 1 < 18446744073709551616 ∧
    d = ⟨schemaVersion, store.document.revision + 1, settings⟩ := by
  simp only [ConfigStore.next, bind_eq_ok, ensure_eq_ok, pure_eq_ok] at h
  obtain ⟨_, hexpected, _, hvalid, saved, hread, _, rfl, _, hbound, rfl⟩ := h
  exact ⟨hexpected, hvalid, onDisk_of_readDocument hread, hbound, rfl⟩

theorem ConfigStore.throws_next :
    Throws Unpublished (store.next K fs expected settings files) := by
  unfold ConfigStore.next
  refine Throws.bind (throws_ensure fun _ => by decide) fun _ _ => ?_
  refine Throws.bind settings.throws_unpublished fun _ _ => ?_
  refine Throws.bind throws_readDocument fun _ _ => ?_
  refine Throws.bind (throws_ensure fun _ => by decide) fun _ _ => ?_
  exact Throws.bind (throws_ensure fun _ => by decide) fun _ _ => throws_pure _

/-- A replacement was published: of the saved document, which was the store's, with its revision
named by the caller. -/
structure Published (K : Crates) (store : ConfigStore) (expected : Nat) (settings : Settings)
    (files files' : Files) (d : ConfigDocument) : Prop where
  named : expected = store.document.revision
  saved : onDisk K files = some store.document
  next : d = ⟨schemaVersion, store.document.revision + 1, settings⟩
  valid : settings.validate K = .ok ()
  bounded : d.revision < 18446744073709551616
  written : onDisk K files' = some d

/-- A replacement is published, and the directory may not be synchronized; or it fails, and nothing
changes. -/
theorem ConfigStore.replace_cases (hK : K.Lawful) {result : Except SettingsError ConfigDocument}
    {store' : ConfigStore}
    (h : store.replace K fs expected settings files = (result, store', files')) :
    (Published K store expected settings files files' store'.document ∧
      (result = .ok store'.document ∨ result = .error synchronizationFailed)) ∨
    ∃ e, result = .error e ∧ e ≠ synchronizationFailed ∧ store' = store ∧
      files'.lookup settingsName = files.lookup settingsName := by
  unfold ConfigStore.replace at h
  cases hnext : store.next K fs expected settings files with
  | error e =>
      simp only [hnext, Prod.mk.injEq] at h
      obtain ⟨rfl, rfl, rfl⟩ := h
      exact .inr ⟨e, rfl, ConfigStore.throws_next e hnext, rfl, rfl⟩
  | ok d =>
      obtain ⟨hexpected, hvalid, hsaved, hbound, rfl⟩ := ConfigStore.next_eq_ok hnext
      rcases @publish_cases K fs files ⟨schemaVersion, store.document.revision + 1, settings⟩ false with
        ⟨e, files₁, hpublish, he, hsame⟩ | ⟨files₁, hpublish, hlength, hfile, -⟩
      · simp only [hnext, hpublish, Prod.mk.injEq] at h
        obtain ⟨rfl, rfl, rfl⟩ := h
        exact .inr ⟨e, rfl, he, rfl, hsame⟩
      · have hwritten : onDisk K files₁ = some ⟨schemaVersion, store.document.revision + 1,
          settings⟩ :=
          onDisk_eq_some.mpr
            ⟨_, hfile, holds_privateFile hK rfl (Nat.succ_ne_zero _) hbound hvalid hlength⟩
        simp only [hnext, hpublish] at h
        split_ifs at h with hsync
        · simp only [Prod.mk.injEq] at h
          obtain ⟨rfl, rfl, rfl⟩ := h
          exact .inl ⟨⟨hexpected, hsaved, rfl, hvalid, hbound, hwritten⟩, .inr rfl⟩
        · simp only [Prod.mk.injEq] at h
          obtain ⟨rfl, rfl, rfl⟩ := h
          exact .inl ⟨⟨hexpected, hsaved, rfl, hvalid, hbound, hwritten⟩, .inl rfl⟩

/-- A replacement that names another revision is a conflict. -/
theorem ConfigStore.replace_of_ne (h : expected ≠ store.document.revision) :
    store.replace K fs expected settings files = (.error .conflict, store, files) := by
  have hnext : store.next K fs expected settings files = .error .conflict := by
    rw [ConfigStore.next, ensure, if_neg h]
    rfl
  unfold ConfigStore.replace
  rw [hnext]

/-! ## Opening -/

variable {bootstrap : Settings}

/-- A store is opened on the saved document, or saves the first one, or nothing changes. -/
theorem openFiles_cases (hK : K.Lawful) :
    (∃ d, openFiles K fs bootstrap files = (.ok ⟨d⟩, files) ∧ onDisk K files = some d) ∨
    (∃ files', files.lookup settingsName = none ∧
      onDisk K files' = some ⟨schemaVersion, 1, bootstrap⟩ ∧
      (openFiles K fs bootstrap files = (.ok ⟨⟨schemaVersion, 1, bootstrap⟩⟩, files') ∨
        openFiles K fs bootstrap files = (.error synchronizationFailed, files'))) ∨
    ∃ e files', openFiles K fs bootstrap files = (.error e, files') ∧ e ≠ synchronizationFailed ∧
      files'.lookup settingsName = files.lookup settingsName := by
  unfold openFiles
  match hread : readDocument K fs files with
  | .error e => exact .inr (.inr ⟨e, files, rfl, throws_readDocument e hread, rfl⟩)
  | .ok (some d) => exact .inl ⟨d, rfl, onDisk_of_readDocument hread⟩
  | .ok none =>
      simp only
      obtain ⟨-, hnone⟩ := readDocument_eq_ok_none.mp hread
      cases hvalid : bootstrap.validate K with
      | error e => exact .inr (.inr ⟨e, files, rfl, bootstrap.throws_unpublished e hvalid, rfl⟩)
      | ok _ =>
          simp only
          rcases @publish_cases K fs files ⟨schemaVersion, 1, bootstrap⟩ true with
            ⟨e, files', hpublish, he, hsame⟩ | ⟨files', hpublish, hlength, hfile, -⟩
          · simp only [hpublish]
            exact .inr (.inr ⟨e, files', rfl, he, hsame⟩)
          · simp only [hpublish]
            have hfirst : 1 < 18446744073709551616 := by decide
            refine .inr (.inl ⟨files', hnone, ?_, ?_⟩)
            · exact onDisk_eq_some.mpr
                ⟨_, hfile, holds_privateFile hK rfl one_ne_zero hfirst hvalid hlength⟩
            · by_cases hsync : fs.fails .syncDirectory = true
              · rw [if_pos hsync]
                exact .inr rfl
              · rw [if_neg hsync]
                exact .inl rfl

/-- The files of a data directory that was made sure of. -/
theorem openDirectory_eq_ok {disk : Disk} (h : openDirectory K fs bootstrap disk = .ok files) :
    files = disk.files := by
  cases disk with
  | missing =>
      simp only [openDirectory, bind_eq_ok, pure_eq_ok] at h
      obtain ⟨_, -, _, -, _, -, rfl⟩ := h
      rfl
  | other =>
      simp only [openDirectory, bind_eq_ok, reduceCtorEq, and_false, exists_false] at h
  | directory files' =>
      simp only [openDirectory, bind_eq_ok, pure_eq_ok] at h
      obtain ⟨_, -, _, -, rfl⟩ := h
      rfl

theorem throws_openDirectory (disk : Disk) :
    Throws Unpublished (openDirectory K fs bootstrap disk) := by
  cases disk with
  | missing =>
      refine Throws.bind (throws_step (by decide)) fun _ _ => ?_
      refine Throws.bind bootstrap.throws_unpublished fun _ _ => ?_
      exact Throws.bind (throws_step (by decide)) fun _ _ => throws_pure _
  | other =>
      refine Throws.bind (throws_step (by decide)) fun _ _ => ?_
      intro e he
      obtain rfl := Except.error.inj he
      decide
  | directory files =>
      refine Throws.bind (throws_step (by decide)) fun _ _ => ?_
      exact Throws.bind (throws_step (by decide)) fun _ _ => throws_pure _

theorem openStore_cases (hK : K.Lawful) (disk : Disk) :
    (∃ d disk', openStore K fs bootstrap disk = (.ok ⟨d⟩, disk') ∧ disk'.files = disk.files ∧
      onDisk K disk.files = some d) ∨
    (∃ disk', disk.files.lookup settingsName = none ∧
      onDisk K disk'.files = some ⟨schemaVersion, 1, bootstrap⟩ ∧
      (openStore K fs bootstrap disk = (.ok ⟨⟨schemaVersion, 1, bootstrap⟩⟩, disk') ∨
        openStore K fs bootstrap disk = (.error synchronizationFailed, disk'))) ∨
    ∃ e disk', openStore K fs bootstrap disk = (.error e, disk') ∧ e ≠ synchronizationFailed ∧
      disk'.files.lookup settingsName = disk.files.lookup settingsName := by
  unfold openStore
  cases hdirectory : openDirectory K fs bootstrap disk with
  | error e => exact .inr (.inr ⟨e, disk, rfl, throws_openDirectory disk e hdirectory, rfl⟩)
  | ok files =>
      obtain rfl := openDirectory_eq_ok hdirectory
      simp only
      split_ifs with hinspect hcheck
      · exact .inr (.inr ⟨_, _, rfl, by decide, rfl⟩)
      · exact .inr (.inr ⟨_, _, rfl, by decide, rfl⟩)
      · rcases @openFiles_cases K fs disk.files bootstrap hK with
          ⟨d, heq, hsaved⟩ | ⟨files', hnone, hwritten, heq⟩ | ⟨e, files', heq, he, hsame⟩
        · rw [heq]
          exact .inl ⟨d, _, rfl, rfl, hsaved⟩
        · refine .inr (.inl ⟨.directory files', hnone, hwritten, ?_⟩)
          rcases heq with heq | heq
          · rw [heq]
            exact .inl rfl
          · rw [heq]
            exact .inr rfl
        · rw [heq]
          exact .inr (.inr ⟨e, _, rfl, he, hsame⟩)

/-- A saved document is opened, whatever settings a first document would have. -/
theorem openStore_of_onDisk {d : ConfigDocument} (h : onDisk K files = some d)
    (bootstrap : Settings) :
    openStore K calm bootstrap (.directory files) = (.ok ⟨d⟩, .directory files) := by
  have hread : readDocument K calm files = .ok (some d) :=
    readDocument_eq_ok_some.mpr ⟨fun _ _ => rfl, onDisk_eq_some.mp h⟩
  have hfiles : openFiles K calm bootstrap files = (.ok ⟨d⟩, files) := by
    unfold openFiles
    rw [hread]
  have hdirectory : openDirectory K calm bootstrap (.directory files) = .ok files := rfl
  unfold openStore
  rw [hdirectory]
  show (match openFiles K calm bootstrap files with
    | (result, files) => (result, Disk.directory files)) = _
  rw [hfiles]

/-! ## Failures are atomic -/

/-- **Settings are replaced atomically.** For a store that agrees with its file, whatever fails in a
replacement: the two agree afterwards; after success, or where only the directory could not be
synchronized, both are the new settings under the next revision, and opening the directory gives
them; after every other error neither changed. The last revision is never passed. A first document
that is published reads back too. -/
theorem replace_atomic {K : Crates} (hK : K.Lawful) :
    (∀ (store : ConfigStore) (files : Files), onDisk K files = some store.document →
      ∀ (fs : Fs) (expected : Nat) (settings : Settings)
      (result : Except SettingsError ConfigDocument)
        (store' : ConfigStore) (files' : Files),
        store.replace K fs expected settings files = (result, store', files') →
        onDisk K files' = some store'.document ∧
        ((∃ d, result = .ok d) ∨ result = .error synchronizationFailed →
          store'.document = ⟨schemaVersion, store.document.revision + 1, settings⟩ ∧
          (∀ d, result = .ok d → d = store'.document) ∧
          ∀ bootstrap, openStore K calm bootstrap (.directory files') =
            (.ok store', .directory files')) ∧
        (∀ e, result = .error e → e ≠ synchronizationFailed →
          store' = store ∧ files'.lookup settingsName = files.lookup settingsName) ∧
        (store.document.revision = 18446744073709551615 →
          (∃ e, result = .error e) ∧ store' = store ∧
            files'.lookup settingsName = files.lookup settingsName)) ∧
    ∀ (fs : Fs) (bootstrap : Settings) (disk disk' : Disk)
    (result : Except SettingsError ConfigStore), openStore K fs bootstrap disk = (result, disk') →
      disk'.files.lookup settingsName ≠ disk.files.lookup settingsName →
      onDisk K disk'.files = some ⟨schemaVersion, 1, bootstrap⟩ := by
  refine ⟨fun store files hagrees fs expected settings result store' files' hreplace => ?_,
    fun fs bootstrap disk disk' result hopen hchanged => ?_⟩
  · rcases ConfigStore.replace_cases hK hreplace with ⟨hpublished, hresult⟩ | ⟨e, rfl, he, rfl, hsame⟩
    · have hnext := hpublished.next
      refine ⟨hpublished.written, fun _ => ⟨hnext, ?_, ?_⟩, ?_, ?_⟩
      · rintro d rfl
        rcases hresult with h | h
        · exact Except.ok.inj h
        · cases h
      · exact fun bootstrap => openStore_of_onDisk hpublished.written bootstrap
      · rintro e rfl he
        rcases hresult with h | h
        · cases h
        · exact absurd (Except.error.inj h) he
      · intro hlast
        have hbounded := hpublished.bounded
        rw [hnext] at hbounded
        simp only at hbounded
        omega
    · refine ⟨(onDisk_congr hsame).trans hagrees, ?_, fun _ _ _ => ⟨rfl, hsame⟩,
        fun _ => ⟨⟨e, rfl⟩, rfl, hsame⟩⟩
      rintro (⟨d, h⟩ | h)
      · cases h
      · exact absurd (Except.error.inj h) he
  · rcases @openStore_cases K fs bootstrap hK disk with
      ⟨d, disk₁, heq, hsame, -⟩ | ⟨disk₁, -, hwritten, heq⟩ | ⟨e, disk₁, heq, -, hsame⟩
    · rw [hopen] at heq
      obtain rfl := (Prod.mk.inj heq).2
      rw [hsame] at hchanged
      exact absurd rfl hchanged
    · rw [hopen] at heq
      rcases heq with heq | heq
      · obtain rfl := (Prod.mk.inj heq).2
        exact hwritten
      · obtain rfl := (Prod.mk.inj heq).2
        exact hwritten
    · rw [hopen] at heq
      obtain rfl := (Prod.mk.inj heq).2
      exact absurd hsame hchanged

/-! ### A first document, and one that replaces it -/

/-- Numbers of addresses, each before a byte that is not a digit. -/
theorem splitOnce_decimal {c : UInt8} (hc : isDigit c = false) (n : Nat) (rest : Bytes) :
    splitOnce c (decimal n ++ c :: rest) = some (decimal n, rest) := by
  refine splitOnce_eq_some_iff.mpr ⟨rfl, fun hmem => ?_⟩
  rw [isDigit_of_mem_decimal hmem] at hc
  cases hc

/-- The text of an address. An IPv6 address is one number here. -/
def sampleAddrText : SocketAddr → Bytes
  | .v4 ip port =>
      decimal (ip.toNat / 16777216) ++ 46 :: (decimal (ip.toNat / 65536 % 256) ++
        46 :: (decimal (ip.toNat / 256 % 256) ++ 46 :: (decimal (ip.toNat % 256) ++
          58 :: decimal port.toNat)))
  | .v6 ip port scope =>
      91 :: (decimal ip.toNat ++ 37 :: (decimal scope.toNat ++ 93 :: 58 :: decimal port.toNat))

def sampleParseAddr (s : Bytes) : Option SocketAddr :=
  if s.head? = some 91 then do
    let (ip, s) ← splitOnce 37 s.tail
    let (scope, s) ← splitOnce 93 s
    pure (.v6 (.ofNat 128 (ofDecimal ip)) (.ofNat (ofDecimal s.tail)) (.ofNat (ofDecimal scope)))
  else do
    let (a, s) ← splitOnce 46 s
    let (b, s) ← splitOnce 46 s
    let (c, s) ← splitOnce 46 s
    let (d, port) ← splitOnce 58 s
    pure (.v4 (.ofNat 32 (ofDecimal a * 16777216 + ofDecimal b * 65536 + ofDecimal c * 256 + ofDecimal d))
      (.ofNat (ofDecimal port)))

theorem sampleParseAddr_sampleAddrText (a : SocketAddr) :
    sampleParseAddr (sampleAddrText a) = some a := by
  cases a with
  | v4 ip port =>
      have hhead : (sampleAddrText (.v4 ip port)).head? ≠ some 91 := by
        obtain ⟨b, s, hb, hd⟩ := Json.head?_decimal (ip.toNat / 16777216)
        rw [sampleAddrText, hb, List.cons_append, List.head?_cons]
        intro h
        obtain rfl := Option.some.inj h
        cases hd
      have hip : ip.toNat / 16777216 * 16777216 + ip.toNat / 65536 % 256 * 65536 +
          ip.toNat / 256 % 256 * 256 + ip.toNat % 256 = ip.toNat := by omega
      have hdot : isDigit 46 = false := rfl
      have hcolon : isDigit 58 = false := rfl
      rw [sampleParseAddr, if_neg hhead, sampleAddrText]
      simp only [splitOnce_decimal hdot, splitOnce_decimal hcolon, Option.bind_eq_bind,
        Option.bind_some, ofDecimal_decimal, hip, BitVec.ofNat_toNat, BitVec.setWidth_eq,
        UInt16.ofNat_toNat, Option.pure_def]
  | v6 ip port scope =>
      have hpercent : isDigit 37 = false := rfl
      have hbracket : isDigit 93 = false := rfl
      have hhead : (sampleAddrText (.v6 ip port scope)).head? = some 91 := rfl
      rw [sampleParseAddr, if_pos hhead, sampleAddrText, List.tail_cons]
      simp only [splitOnce_decimal hpercent, splitOnce_decimal hbracket, Option.bind_eq_bind,
        Option.bind_some, List.tail_cons, ofDecimal_decimal, BitVec.ofNat_toNat, BitVec.setWidth_eq,
        UInt16.ofNat_toNat, UInt32.ofNat_toNat, Option.pure_def]

/-- The sample node with a reader of pretty texts, and the default provider. -/
def sampleConsole : Crates where
  toNode := { sampleNode with
    json := Json.spaced
    parseUrl := fun s =>
      if s = str "https://mainnet.optimism.io" then
        some ⟨str "https", [], none, some (str "mainnet.optimism.io"), none, str "/", none, none⟩
      else sampleNode.parseUrl s }
  addrText := sampleAddrText
  parseAddr := sampleParseAddr

theorem sampleConsole_lawful : sampleConsole.Lawful :=
  ⟨fun _ hv => Json.spaced_pretty hv, sampleParseAddr_sampleAddrText⟩

/-- Source: `settings.rs`, `Settings::default` -/
def defaultSettings : Settings :=
  ⟨defaultAccount, str "PurpleSky", [], .mainnet, none, 5000, 256 * 1024, 30, false,
    .v4 2130706433 8788, .v4 2130706433 8787⟩

/-- The directory is not synchronized. -/
def unsynchronized : Fs := ⟨fun s => s = .syncDirectory, List.replicate 16 2, 0⟩

def sampleFiles : Files := (openStore sampleConsole calm defaultSettings .missing).2.files

theorem sampleFiles_saved : sampleFiles.lookup settingsName ≠ none := by decide +kernel

theorem sampleReplace_runs :
    ((⟨⟨1, 1, defaultSettings⟩⟩ : ConfigStore).replace sampleConsole unsynchronized 1 defaultSettings
      sampleFiles).1 = .error synchronizationFailed := by decide +kernel

/-- A first document is saved, and replaced where the directory is not synchronized: the store has
the second revision, which is on disk. -/
theorem replace_atomic_sample :
    onDisk sampleConsole sampleFiles = some ⟨1, 1, defaultSettings⟩ ∧
    ∃ store' files',
      (⟨⟨1, 1, defaultSettings⟩⟩ : ConfigStore).replace sampleConsole unsynchronized 1 defaultSettings
        sampleFiles = (.error synchronizationFailed, store', files') ∧
      store'.document.revision = 2 ∧ onDisk sampleConsole files' = some store'.document := by
  obtain ⟨hreplace, hopen⟩ := replace_atomic sampleConsole_lawful
  have hsaved : onDisk sampleConsole sampleFiles = some ⟨1, 1, defaultSettings⟩ :=
    hopen calm defaultSettings .missing (openStore sampleConsole calm defaultSettings .missing).2 _
      Prod.mk.eta.symm sampleFiles_saved
  refine ⟨hsaved, ?_⟩
  have hruns := sampleReplace_runs
  generalize h : (⟨⟨1, 1, defaultSettings⟩⟩ : ConfigStore).replace sampleConsole unsynchronized 1
    defaultSettings sampleFiles = outcome at hruns ⊢
  obtain ⟨result, store', files'⟩ := outcome
  obtain rfl : result = .error synchronizationFailed := hruns
  obtain ⟨hagrees, hpublished, -⟩ :=
    hreplace _ sampleFiles hsaved unsynchronized 1 defaultSettings _ _ _ h
  have hnext := (hpublished (.inr rfl)).1
  refine ⟨store', files', rfl, ?_, hagrees⟩
  rw [hnext]

end PurpleSky.Console
