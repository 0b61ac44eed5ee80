import PurpleSky.Node.Actions
import PurpleSky.Lib.Except

/-!
# What actions fail with

An action stops where one of its steps does: a step fails, waits for the network for too long, or
finds that the process has ended. What the parts of the actions stop with is stated once, for all
predicates that allow what every step may stop with (`Ordinary`); a part that waits needs the time
out, too. Two predicates are used: that a failure is of a kind (`Failing`), and that nothing was given
up (`Prompt`).

* `halts_check`, `halts_call`, `halts_await`: a rule for each step.
* `halts_authority`: the check of an authority, which does not say that the service is busy.
* **`halts_execute`**: every failure of an action has the status of an error.
-/

namespace PurpleSky.Node

open Bytes Credentials Farcaster Procedure

variable {K : Crates} {env : Env}

/-! ## Failures -/

/-- A failure is not that the service is busy, and its status is that of an error. -/
def Failure.Plain (failure : Failure) : Prop := failure ≠ .busy ∧ 400 ≤ failure.status

/-- It is decided by looking at the failure. -/
instance (failure : Failure) : Decidable failure.Plain :=
  inferInstanceAs (Decidable (_ ∧ _))

/-- The status of an error. -/
def Failure.IsError (failure : Failure) : Prop := 400 ≤ failure.status

/-- So is its status. -/
instance (failure : Failure) : Decidable failure.IsError := inferInstanceAs (Decidable (_ ≤ _))

/-- The store never says that the service is busy. -/
theorem plain_ofError (error : Error) : (Failure.ofError error).Plain := by
  cases error <;> decide

/-- Neither does the network. -/
theorem plain_auth (error : AuthError) : (Failure.auth error).Plain := by
  cases error <;> decide

/-- An error that is passed on. -/
theorem of_mapError {ε α : Type} {P : Failure → Prop} {x : Except ε α} {f : ε → Failure}
    {failure : Failure} (hf : ∀ e, P (f e)) (h : x.mapError f = .error failure) : P failure :=
  throws_mapError hf failure h

/-- Settings without a client are those of a disabled service, or the provider is refused. -/
theorem plain_of_client {settings : Settings} {failure : Failure}
    (h : Core.client K settings = .error failure) : failure.Plain := by
  unfold Core.client at h
  rcases bind_eq_error.mp h with h | ⟨_, -, h⟩
  · exact (ensure_eq_error.mp h).2 ▸ by decide
  rcases bind_eq_error.mp h with h | ⟨_, -, h⟩
  · exact (okOr_eq_error.mp h).2 ▸ by decide
  · exact of_mapError plain_auth h

/-! ## What a step stops with -/

/-- What every step may stop with is allowed: the end of the process, and plain failures. -/
class Ordinary (P : Halt → Prop) : Prop where
  stopped : P .stopped
  failed {failure : Failure} (h : failure.Plain) : P (.failed failure)

/-- If an action failed, its failure is of a kind. -/
def Halt.Failing (P : Failure → Prop) (halt : Halt) : Prop :=
  ∀ failure, halt = .failed failure → P failure

/-- An action was not given up. -/
def Halt.Prompt (halt : Halt) : Prop := halt ≠ .timedOut

/-- A failure of a kind is allowed where failures of the kind are. -/
theorem Halt.failing_failed {P : Failure → Prop} {failure : Failure} (h : P failure) :
    (Halt.failed failure).Failing P := by
  intro _ heq
  rwa [← Halt.failed.inj heq]

/-- Being given up is no failure. -/
theorem Halt.failing_timedOut {P : Failure → Prop} : Halt.timedOut.Failing P :=
  fun _ => Halt.noConfusion

/-- Plain failures are all that a step has. -/
instance : Ordinary (Halt.Failing Failure.Plain) where
  stopped _ := Halt.noConfusion
  failed := Halt.failing_failed

/-- A plain failure has the status of an error. -/
instance : Ordinary (Halt.Failing Failure.IsError) where
  stopped _ := Halt.noConfusion
  failed h := Halt.failing_failed h.2

/-- Neither the end of the process nor a failure is a time out. -/
instance : Ordinary Halt.Prompt where
  stopped := Halt.noConfusion
  failed _ := Halt.noConfusion

section

variable {P : Halt → Prop} {α : Type}

/-- A guard stops with its own failure. -/
theorem halts_check {c : Prop} [Decidable c] {failure : Failure} (h : P (.failed failure)) :
    Halts P (check c failure) := halts_require h

/-- So does failing. -/
theorem halts_fail {failure : Failure} (h : P (.failed failure)) :
    Halts P (fail failure : Act α) := halts_stop h

/-- A result stops with its error. -/
theorem halts_attempt {x : Except Failure α} (h : Throws (fun failure => P (.failed failure)) x) :
    Halts P (attempt x) :=
  fun _ => wp_attempt.mpr ⟨fun _ _ => trivial, h⟩

/-- A missing value stops with the failure that is given for it. -/
theorem halts_okOr {x : Option α} {failure : Failure} (h : P (.failed failure)) :
    Halts P (attempt (okOr x failure)) := halts_attempt (throws_okOr fun _ => h)

/-- An error that is translated stops with a translation. -/
theorem halts_mapError {ε : Type} {x : Except ε α} {f : ε → Failure}
    (h : ∀ e, P (.failed (f e))) : Halts P (attempt (x.mapError f)) :=
  halts_attempt (throws_mapError h)

/-- What waits may be given up. -/
theorem halts_await {net : Option Net} {f : Net → Except AuthError α} (h : P .timedOut) :
    Halts P (await net f) :=
  fun _ => wp_await.mpr ⟨fun _ => h, fun _ _ => trivial⟩

/-- The history can always be written. -/
theorem halts_note {deed : Deed} : Halts P (note deed) := halts_change

/-- Recording a check is in memory only, and does not stop. -/
theorem halts_recordCheck {identity : VerifiedIdentity} {time : Nat} :
    Halts P (recordCheck identity time) :=
  Halts.bind halts_note fun _ => halts_change

variable [Ordinary P]

/-- The store stops where the process does, or with one of its errors. -/
theorem halts_call {io : Option Faults} {f : Faults → Bytes → Db → Except Error (α × Db)} :
    Halts P (call io f) :=
  fun _ => wp_call.mpr ⟨fun _ => Ordinary.stopped,
    fun _ _ => ⟨fun _ _ _ => trivial, fun e _ => Ordinary.failed (plain_ofError e)⟩⟩

/-- Reading the store stops as any call of it. -/
theorem halts_query {io : Option Faults} {f : Faults → Bytes → Db → Except Error α} :
    Halts P (query io f) := halts_call

/-- So does writing it. -/
theorem halts_update {io : Option Faults} {f : Faults → Bytes → Db → Except Error Db} :
    Halts P (update io f) := halts_call

/-- What the network answered. -/
theorem halts_auth {x : Except AuthError α} : Halts P (attempt (x.mapError .auth)) :=
  halts_mapError fun e => Ordinary.failed (plain_auth e)

end

/-! ## Parts that do not wait -/

section

variable {P : Halt → Prop} [Ordinary P]

/-- Making a client stops with a plain failure. -/
theorem halts_client {settings : Settings} : Halts P (attempt (Core.client K settings)) :=
  halts_attempt fun _ h => Ordinary.failed (plain_of_client h)

/-- So does reading the identity in the settings, which says that the service is disabled. -/
theorem halts_identity {settings : Settings} :
    Halts P (attempt ((settings.identity K).mapError fun _ => .disabled)) :=
  halts_mapError fun _ => Ordinary.failed (by decide)

/-- An invalidation stops only in the store. -/
theorem halts_invalidate : Halts P (invalidate K env) := by
  refine halts_note.bind fun _ => halts_update.bind fun _ => ?_
  exact halts_note.bind fun _ => halts_change

/-- So does storing evidence. -/
theorem halts_storeEvidence {evidence : Evidence} : Halts P (storeEvidence K env evidence) :=
  halts_update.bind fun _ => halts_note

/-- What the provider answered is stored, or the authority is invalidated. -/
theorem halts_recheck {proof : SignedProof} {now : Nat}
    {result : Except AuthError VerifiedIdentity} :
    Halts P (recheck K env proof now result) := by
  cases result with
  | ok identity => exact halts_storeEvidence.bind fun _ => halts_recordCheck
  | error error =>
      have hfail : Halts P (fail (.auth error) : Act Unit) :=
        halts_fail (Ordinary.failed (plain_auth error))
      exact halts_change.bind fun _ => halts_ite (halts_invalidate.bind fun _ => hfail) hfail

/-- Reading a session is one call of the store. -/
theorem halts_readSession {token : Bytes} : Halts P (readSession K env token) := halts_query

/-- A token without a grant is not verified, which is a plain failure. -/
theorem halts_grant {token : Bytes} {now : Nat} : Halts P (grant token now) :=
  halts_read.bind fun _ => halts_check (Ordinary.failed (by decide))

/-- Older evidence is refused as evidence of the chain, and unreadable evidence as not verified. -/
theorem halts_checkBlock {verified : VerifiedIdentity} : Halts P (checkBlock K env verified) := by
  refine halts_query.bind fun raw => ?_
  cases raw with
  | none => exact halts_pure
  | some raw =>
      refine (halts_okOr (Ordinary.failed (by decide))).bind fun _ => ?_
      exact halts_check (Ordinary.failed (plain_auth _))

/-- Another authority is invalidated, and where there is none nothing is done. -/
theorem halts_replaceAuthority {authority : Bytes} :
    Halts P (replaceAuthority K env authority) := by
  refine halts_query.bind fun account => ?_
  cases account with
  | none => exact halts_pure
  | some account => exact halts_ite halts_invalidate halts_pure

/-- Binding is calls of the store, and the identity in the settings. -/
theorem halts_bind {settings : Settings} {verified : VerifiedIdentity} {proof : SignedProof} :
    Halts P (bind K env settings verified proof) := by
  refine halts_replaceAuthority.bind fun _ => halts_identity.bind fun identity => ?_
  refine halts_call.bind fun account => halts_storeEvidence.bind fun _ => ?_
  exact halts_recordCheck.bind fun _ => halts_pure

/-! ## Parts that wait -/

/-- The check of an authority waits for the provider, and is otherwise plain: it never says that the
service is busy. -/
theorem halts_authority (hwait : P .timedOut) : Halts P (authority K env) := by
  unfold authority
  refine halts_read.bind fun core => (halts_check (Ordinary.failed (by decide))).bind fun _ => ?_
  apply halts_ite halts_pure
  refine halts_query.bind fun account =>
    (halts_okOr (Ordinary.failed (by decide))).bind fun account => ?_
  refine (halts_check (Ordinary.failed (by decide))).bind fun _ => halts_query.bind fun raw => ?_
  refine (halts_okOr (Ordinary.failed (by decide))).bind fun raw => ?_
  refine (halts_okOr (Ordinary.failed (by decide))).bind fun evidence => ?_
  refine (halts_check (Ordinary.failed (by decide))).bind fun _ => halts_client.bind fun client => ?_
  exact (halts_await hwait).bind fun result => halts_recheck

/-- So is a check between two looks at the grant. -/
theorem halts_granted {token : Bytes} (hwait : P .timedOut) : Halts P (granted K env token) :=
  halts_grant.bind fun _ => (halts_authority hwait).bind fun _ => halts_grant

/-- Asking for a proof waits for the relay. -/
theorem halts_pollProof {client : AuthClient} {id : Bytes} {pending : Login}
    (hwait : P .timedOut) : Halts P (pollProof K env client id pending) := by
  unfold pollProof
  split
  · exact halts_pure
  · refine (halts_await hwait).bind fun status => halts_auth.bind fun status => ?_
    cases status with
    | pending => exact halts_pure
    | completed proof => exact halts_change.bind fun _ => halts_pure

/-- Completing a sign-in waits for the verification. -/
theorem halts_complete {settings : Settings} {client : AuthClient} {id : Bytes} {pending : Login}
    {proof : SignedProof} {now : Nat} (hwait : P .timedOut) :
    Halts P (complete K env settings client id pending proof now) := by
  unfold complete
  refine (halts_await hwait).bind fun verified => halts_auth.bind fun verified => ?_
  refine halts_ite (halts_change.bind fun _ => halts_fail (Ordinary.failed (by decide))) ?_
  refine halts_ite (halts_change.bind fun _ => halts_fail (Ordinary.failed (by decide))) ?_
  refine halts_checkBlock.bind fun _ => halts_bind.bind fun account => ?_
  exact halts_change.bind fun _ => halts_change.bind fun _ => halts_pure

/-- A Start may be turned away as busy, and waits for the relay. -/
theorem halts_start {now : Nat} (hbusy : P (.failed .busy)) (hwait : P .timedOut) :
    Halts P (start K env now) := by
  unfold start
  refine halts_read.bind fun core => halts_change.bind fun _ => (halts_check hbusy).bind fun _ => ?_
  refine (halts_check hbusy).bind fun _ => halts_client.bind fun client => ?_
  refine (halts_await hwait).bind fun channel => halts_auth.bind fun channel => ?_
  refine (halts_okOr (Ordinary.failed (by decide))).bind fun qr => ?_
  exact halts_change.bind fun _ => halts_pure

/-- A Poll may be turned away as busy, and waits for the relay and for the verification. -/
theorem halts_poll {id token : Bytes} {now : Nat} (hbusy : P (.failed .busy))
    (hwait : P .timedOut) : Halts P (poll K env id token now) := by
  unfold poll
  refine halts_read.bind fun core => halts_client.bind fun client => ?_
  refine (halts_okOr (Ordinary.failed (by decide))).bind fun pending => ?_
  refine (halts_check (Ordinary.failed (by decide))).bind fun _ => ?_
  cases pending.completion with
  | some completion => exact halts_pure
  | none =>
      refine (halts_check hbusy).bind fun _ => halts_change.bind fun _ => ?_
      refine (halts_pollProof hwait).bind fun proof => ?_
      cases proof with
      | none => exact halts_pure
      | some proof => exact halts_complete hwait

end

/-! ## Actions -/

/-- What an action stops with, where being busy and being given up are allowed. -/
theorem halts_execute {P : Halt → Prop} [Ordinary P] (hbusy : P (.failed .busy))
    (hwait : P .timedOut) (action : Action) : Halts P (execute K env action) := by
  unfold execute
  refine halts_read.bind fun core => (halts_check (Ordinary.failed (by decide))).bind fun _ => ?_
  refine halts_change.bind fun _ => ?_
  cases action with
  | start => exact halts_start hbusy hwait
  | poll id token => exact halts_poll hbusy hwait
  | passwords token =>
      exact (halts_granted hwait).bind fun _ => halts_query.bind fun _ => halts_pure
  | issue token name =>
      refine (halts_granted hwait).bind fun _ => halts_call.bind fun _ => halts_query.bind fun _ => ?_
      exact (halts_okOr (Ordinary.failed (plain_ofError _))).bind fun _ => halts_pure
  | revoke token name =>
      exact halts_grant.bind fun _ => halts_update.bind fun _ => halts_pure
  | login identifier password =>
      refine halts_read.bind fun _ => halts_change.bind fun _ => (halts_check hbusy).bind fun _ => ?_
      refine halts_query.bind fun _ => (halts_authority hwait).bind fun _ => ?_
      exact halts_call.bind fun _ => halts_pure
  | session token =>
      exact halts_readSession.bind fun _ => (halts_authority hwait).bind fun _ => halts_pure
  | refresh token =>
      refine halts_query.bind fun _ => (halts_authority hwait).bind fun _ => ?_
      exact halts_call.bind fun _ => halts_pure
  | logout token => exact halts_update.bind fun _ => halts_pure
  | describe => exact halts_read.bind fun _ => halts_identity.bind fun _ => halts_pure
  | did => exact halts_query (f := fun io _ db => Store.storeDidDocument K.credentials io db)
  | preferences token =>
      exact halts_readSession.bind fun _ => (halts_authority hwait).bind fun _ => halts_pure

/-- What a node answers an action with, where it fails. -/
theorem isError_of_failed {core : Core} {action : Action} {failure : Failure}
    (h : (executeNode K core action env).2 = .failed failure) : failure.IsError := by
  have hbusy : (Halt.failed .busy).Failing Failure.IsError := Halt.failing_failed (by decide)
  have hfails : wp (execute K env action) _ _ core :=
    halts_execute hbusy Halt.failing_timedOut action core
  unfold wp at hfails
  unfold executeNode at h
  split at h
  · cases h
  · rename_i failure' core' hexecute
    rw [hexecute] at hfails
    obtain rfl := Reply.failed.inj h
    exact hfails failure' rfl
  · obtain rfl := Reply.failed.inj h
    exact (plain_auth _).2
  · cases h

end PurpleSky.Node
