import PurpleSky.Node.Actions
import PurpleSky.Farcaster.Recheck
import PurpleSky.Credentials.Binding

/-!
# What an action can do to a core

`Move` says once what can happen to a core between two places where an action may stop; an action is
a sequence of moves, wherever it stops. What holds of cores in all runs is derived from the moves.

* **`execute_acts`**: every action is a sequence of moves.
* `authority_checked`: an authority that is checked is recent, and nothing else changes.
-/

namespace PurpleSky.Node

open Bytes Credentials Farcaster Procedure

variable {K : Crates}

/-! ## Stored evidence -/

/-- The evidence in a text. -/
def readEvidence (K : Crates) (raw : Bytes) : Option Evidence :=
  (K.json.parse raw).bind Evidence.ofJson?

/-- The fields of evidence have different names. -/
theorem Evidence.names_nodup : Evidence.names.Nodup := by decide +kernel

/-- A verified identity is written with numbers that fit, and its texts. -/
theorem plain_identity {i : VerifiedIdentity} (h : i.InRange) (n : Nat) :
    i.toJson.Plain (n + 1) := by
  obtain ⟨hfid, hblock, htime⟩ := h
  refine Json.plain_record fun v hv => ?_
  simp only [List.mem_cons, List.not_mem_nil, or_false] at hv
  rcases hv with rfl | rfl | rfl | rfl | rfl | rfl | rfl | rfl
  · exact .integer _ (by omega) (by omega)
  · exact .string _ _
  · exact .string _ _
  · exact .string _ _
  · exact .string _ _
  · exact .integer _ (by omega) (by omega)
  · exact .string _ _
  · exact .integer _ (by omega) (by omega)

/-- A proof is written with its texts. -/
theorem plain_proof (p : SignedProof) (n : Nat) : p.toJson.Plain (n + 1) := by
  refine Json.plain_record fun v hv => ?_
  simp only [List.mem_cons, List.not_mem_nil, or_false] at hv
  rcases hv with rfl | rfl
  · exact .string _ _
  · exact .string _ _

/-- Evidence with numbers of sixty-four bits reads back. -/
theorem readEvidence_encodeEvidence (hK : K.json.Lawful) {e : Evidence} (h : e.identity.InRange) :
    readEvidence K (encodeEvidence K e) = some e := by
  have hplain : e.toJson.Plain 127 := by
    refine Json.plain_record fun v hv => ?_
    simp only [List.mem_cons, List.not_mem_nil, or_false] at hv
    rcases hv with rfl | rfl
    · exact plain_identity h _
    · exact plain_proof _ _
  rw [readEvidence, encodeEvidence, hK.parse_render _ hplain, Option.bind_some, Evidence.toJson,
    Evidence.ofJson?, Json.fieldsOf_record false Evidence.names_nodup rfl]
  simp only [VerifiedIdentity.ofJson?_toJson h, SignedProof.ofJson?_toJson]
  rfl

/-- Stored evidence is not newer than a verified identity, and not of another block of its height.
-/
def Supersedes (K : Crates) (verified : VerifiedIdentity) (db : Db) : Prop :=
  ∀ raw ∈ db.evidence, ∃ e, readEvidence K raw = some e ∧
    ¬(verified.checkedBlock < e.identity.checkedBlock ∨
      (verified.checkedBlock = e.identity.checkedBlock ∧
        verified.blockHash ≠ e.identity.blockHash))

/-! ## Moves -/

/-- What can happen to a core between two places where an action may stop. -/
inductive Move (K : Crates) (s : Core) : Core → Prop where
  /-- Something in memory changes, and nothing is granted or checked. -/
  | memory (pending : List (Bytes × Login)) (grants : List (Bytes × Nat))
      (startTimes passwordTimes : List Nat) (checkedAt : Option Nat) (fewer : grants ⊆ s.grants)
      (checked : checkedAt = s.checkedAt ∨ checkedAt = none) :
      Move K s { s with
        pending := pending, grants := grants, startTimes := startTimes,
        passwordTimes := passwordTimes, checkedAt := checkedAt }
  /-- An invalidation is called. -/
  | invalidating : Move K s { s with history := .invalidating :: s.history }
  /-- The authority is invalidated. -/
  | invalidated (io : Faults) (db : Db)
      (call : Store.invalidateAuthority K.credentials io s.db = .ok db) :
      Move K s { s with db := db, history := .invalidated :: s.history, grants := [] }
  /-- A verified authority is bound, for the identifier and to the identity of the settings. -/
  | bound (io : Faults) (fid : Nat) (authority : Bytes) (identity : Identity) (now : Time)
      (random : Random) (a : Account) (db : Db)
      (call : Store.bindVerified K.credentials io s.db fid authority identity now random =
        .ok (a, db))
      (allowed : s.settings.allowedFid = some fid) (own : s.settings.identity K = .ok identity) :
      Move K s { s with db := db }
  /-- The stored evidence is checked again. -/
  | rechecked (io : Faults) (client : AuthClient) (net : Net) (e : Evidence) (raw : Bytes)
      (identity : VerifiedIdentity) (now : Time) (db : Db) (evidence : s.db.evidence = some raw)
      (read : readEvidence K raw = some e)
      (returned : recheckIdentity K.toCrates client net e.identity e.proof now = .ok identity)
      (call : Store.setEvidence K.credentials io s.db (encodeEvidence K ⟨identity, e.proof⟩) =
        .ok db) :
      Move K s { s with
        db := db, checkedAt := some now,
        history := .verified identity now :: .stored identity :: s.history }
  /-- A sign-in is completed on the bound account. -/
  | completed (io : Faults) (client : AuthClient) (net : Net) (challenge : Challenge)
      (verified : VerifiedIdentity) (proof : SignedProof) (now checked : Time) (a : Account)
      (repoKey : Bytes) (pending : List (Bytes × Login)) (grants : List (Bytes × Nat)) (db : Db)
      (returned : verify K.toCrates client net proof challenge now = .ok verified)
      (account : s.db.account = some ⟨encodeAccount K.credentials a, repoKey⟩)
      (createdAt : a.createdAt < 18446744073709551616) (enabled : a.enabled = true)
      (fid : a.fid = verified.fid)
      (authority : a.authority = fingerprint verified)
      (newer : Supersedes K verified s.db)
      (call : Store.setEvidence K.credentials io s.db (encodeEvidence K ⟨verified, proof⟩) = .ok db) :
      Move K s { s with
        db := db, checkedAt := some checked, pending := pending, grants := grants,
        history := .verified verified checked :: .stored verified :: s.history }
  /-- Passwords and sessions change. A password needs a grant. -/
  | credentials (db : Db) (account : db.account = s.db.account)
      (evidence : db.evidence = s.db.evidence)
      (passwords : db.passwords.rows ⊆ s.db.passwords.rows ∨ s.grants ≠ []) :
      Move K s { s with db := db }

/-- A sequence of moves. -/
abbrev Moves (K : Crates) : Core → Core → Prop := Relation.ReflTransGen (Move K)

/-- No move changes the settings. -/
theorem Move.settings {s s' : Core} (h : Move K s s') : s'.settings = s.settings := by
  cases h <;> rfl

/-- No sequence of moves changes the settings. -/
theorem settings_of_moves {s s' : Core} (h : Moves K s s') : s'.settings = s.settings := by
  induction h with
  | refl => rfl
  | tail _ hmove ih => exact hmove.settings.trans ih

/-- Wherever a procedure stops it has made a sequence of moves, and it returns with `Q`. -/
def Acts (K : Crates) {α : Type} (x : Act α) (Q : α → Core → Prop) (s : Core) : Prop :=
  wp x (fun a s' => Moves K s s' ∧ Q a s') (fun _ s' => Moves K s s') s

/-! ### Rules -/

section

variable {α β : Type} {Q : α → Core → Prop} {R : β → Core → Prop} {s : Core}

/-- Moves of one procedure are followed by those of the next, from what the first returned with. -/
theorem Acts.bind {x : Act α} {f : α → Act β} (hx : Acts K x Q s)
    (hf : ∀ a s', Q a s' → Acts K (f a) R s') : Acts K (x >>= f) R s := by
  refine wp.bind hx (fun a s' ha => ?_) fun _ _ h => h
  exact (hf a s' ha.2).mono (fun b s'' hb => ⟨ha.1.trans hb.1, hb.2⟩) fun _ s'' hb => ha.1.trans hb

/-- What a procedure returns with may be weakened. -/
theorem Acts.mono {Q' : α → Core → Prop} {x : Act α} (hx : Acts K x Q s)
    (h : ∀ a s', Q a s' → Q' a s') : Acts K x Q' s :=
  wp.mono hx (fun a s' ha => ⟨ha.1, h a s' ha.2⟩) fun _ _ he => he

/-- A procedure that returns leaves the settings. -/
theorem Acts.settings {x : Act α} (hx : Acts K x Q s) :
    Acts K x (fun a s' => Q a s' ∧ s'.settings = s.settings) s :=
  wp.mono hx (fun _ _ ha => ⟨ha.1, ha.2, settings_of_moves ha.1⟩) fun _ _ he => he

/-- Returning is no move. -/
theorem acts_pure {a : α} (h : Q a s) : Acts K (pure a) Q s := ⟨.refl, h⟩

/-- Sequences may be regrouped, so that the rules find their first step. -/
theorem acts_assoc {γ : Type} {P : γ → Core → Prop} {x : Act α} {f : α → Act β} {g : β → Act γ} :
    Acts K (x >>= f >>= g) P s ↔ Acts K (x >>= fun a => f a >>= g) P s := by
  simp only [Acts, wp_bind]

/-- Failing is no move. -/
theorem acts_fail {failure : Failure} : Acts K (fail failure) Q s := Relation.ReflTransGen.refl

/-- Reading is no move. -/
theorem acts_read {f : Core → Act β} (h : Acts K (f s) R s) : Acts K (read >>= f) R s := h

/-- A guard is no move. Behind it its condition is known. -/
theorem acts_check {c : Prop} [Decidable c] {failure : Failure} {f : Unit → Act β}
    (h : c → Acts K (f ()) R s) : Acts K (check c failure >>= f) R s := by
  refine (wp_bind _ _).mpr (wp_check.mpr ⟨h, fun _ => .refl⟩)

/-- A result is no move. Behind it the value is known. -/
theorem acts_attempt {x : Except Failure α} {f : α → Act β}
    (h : ∀ a, x = .ok a → Acts K (f a) R s) : Acts K (attempt x >>= f) R s :=
  (wp_bind _ _).mpr (wp_attempt.mpr ⟨h, fun _ _ => .refl⟩)

/-- Reading the store is no move. Behind it is known what was read. -/
theorem acts_query {io : Option Faults} {g : Faults → Bytes → Db → Except Error α} {f : α → Act β}
    (h : ∀ faults a, g faults s.jwtKey s.db = .ok a → Acts K (f a) R s) :
    Acts K (query io g >>= f) R s :=
  (wp_bind _ _).mpr (wp_query.mpr ⟨fun _ => .refl, fun faults _ =>
    ⟨fun a ha => h faults a ha, fun _ _ => .refl⟩⟩)

/-- Waiting is no move, and the provider may answer anything. -/
theorem acts_await {net : Option Net} {g : Net → Except AuthError α}
    {f : Except AuthError α → Act β} (h : ∀ answers, Acts K (f (g answers)) R s) :
    Acts K (await net g >>= f) R s :=
  (wp_bind _ _).mpr (wp_await.mpr ⟨fun _ => .refl, fun answers _ => h answers⟩)

/-- After a move that nothing interrupts. -/
theorem Acts.after {s' : Core} {x : Act α} (hmove : Move K s s') (h : Acts K x Q s') :
    wp x (fun a s'' => Moves K s s'' ∧ Q a s'') (fun _ s'' => Moves K s s'') s' :=
  wp.mono h (fun _ _ hb => ⟨.head hmove hb.1, hb.2⟩) fun _ _ hb => .head hmove hb

/-- A change of the core has to be a move. -/
theorem acts_change {g : Core → Core} {f : Unit → Act β} (hmove : Move K s (g s))
    (h : Acts K (f ()) R (g s)) : Acts K (change g >>= f) R s :=
  (wp_bind _ _).mpr (h.after hmove)

/-- So has a call of the store that succeeds. One that fails changed nothing. -/
theorem acts_call {io : Option Faults} {g : Faults → Bytes → Db → Except Error (α × Db)}
    {f : α → Act β}
    (h : ∀ faults a db, g faults s.jwtKey s.db = .ok (a, db) →
      Move K s { s with db := db } ∧ Acts K (f a) R { s with db := db }) :
    Acts K (call io g >>= f) R s := by
  refine (wp_bind _ _).mpr (wp_call.mpr ⟨fun _ => .refl, fun faults _ => ⟨fun a db hg => ?_, ?_⟩⟩)
  · obtain ⟨hmove, hrest⟩ := h faults a db hg
    exact hrest.after hmove
  · intro _ _
    exact .refl

/-- So has a write. -/
theorem acts_update {io : Option Faults} {g : Faults → Bytes → Db → Except Error Db}
    {f : Unit → Act β}
    (h : ∀ faults db, g faults s.jwtKey s.db = .ok db →
      Move K s { s with db := db } ∧ Acts K (f ()) R { s with db := db }) :
    Acts K (update io g >>= f) R s := by
  refine (wp_bind _ _).mpr (wp_update.mpr ⟨fun _ => .refl, fun faults _ => ⟨fun db hg => ?_, ?_⟩⟩)
  · obtain ⟨hmove, hrest⟩ := h faults db hg
    exact hrest.after hmove
  · intro _ _
    exact .refl

end

/-! ## Checking an authority -/

variable {env : Env} {s : Core}

/-- What is in memory changes, and nothing is granted or checked. -/
theorem Move.of_memory {s' : Core} (hsettings : s'.settings = s.settings)
    (hkey : s'.jwtKey = s.jwtKey)
    (hdb : s'.db = s.db) (hhistory : s'.history = s.history) (hgrants : s'.grants ⊆ s.grants)
    (hchecked : s'.checkedAt = s.checkedAt ∨ s'.checkedAt = none) : Move K s s' := by
  obtain ⟨settings, key, db, pending, grants, startTimes, passwordTimes, checkedAt, history⟩ := s'
  obtain rfl : settings = s.settings := hsettings
  obtain rfl : key = s.jwtKey := hkey
  obtain rfl : db = s.db := hdb
  obtain rfl : history = s.history := hhistory
  exact .memory pending grants startTimes passwordTimes checkedAt hgrants hchecked

/-- An invalidation leaves no grant, no evidence, no password and no session. -/
structure Invalidated (s s' : Core) : Prop where
  settings : s'.settings = s.settings
  checkedAt : s'.checkedAt = s.checkedAt
  pending : s'.pending = s.pending
  grants : s'.grants = []
  evidence : s'.db.evidence = none

/-- An invalidation is two moves, between which the process may end. -/
theorem acts_invalidate : Acts K (invalidate K env) (fun _ s' => Invalidated s s') s := by
  have hcall : Move K s { s with history := .invalidating :: s.history } := .invalidating
  unfold Acts invalidate
  simp only [wp_bind, wp_note, wp_update, wp_change]
  refine ⟨fun _ => .single hcall, fun faults _ => ⟨fun db hdb => ?_, fun _ _ => .single hcall⟩⟩
  obtain ⟨-, -, hevidence, -⟩ := Store.invalidateAuthority_eq_ok hdb
  have hmove : Move K { s with history := .invalidating :: s.history } _ :=
    .invalidated faults db hdb
  exact ⟨.tail (.single hcall) hmove, rfl, rfl, rfl, rfl, hevidence⟩

/-- What a check of the authority leaves: the settings, what was granted, passwords and sessions,
and a recent check. -/
structure Checked (env : Env) (s s' : Core) : Prop where
  enabled : s.settings.enabled = true
  settings : s'.settings = s.settings
  grants : s'.grants = s.grants
  passwords : s'.db.passwords = s.db.passwords
  sessions : s'.db.sessions = s.db.sessions
  fresh : s'.isFresh (env.now .authority) = true

/-- A check that was just made is recent. -/
theorem isFresh_now {now : Nat} (h : s.checkedAt = some now) : s.isFresh now = true := by
  rw [Core.isFresh, h, Option.any_some, Nat.sub_self]
  simp [authorityCache]

/-- Checking again stores what was found, or forgets the last check and may invalidate. -/
theorem acts_recheck {client : AuthClient} {answers : Net} {e : Evidence} {raw : Bytes}
    (henabled : s.settings.enabled = true) (hevidence : s.db.evidence = some raw)
    (hread : readEvidence K raw = some e) :
    Acts K (recheck K env e.proof (env.now .authority)
      (recheckIdentity K.toCrates client answers e.identity e.proof (env.now .authority)))
      (fun _ s' => Checked env s s') s := by
  cases hresult : recheckIdentity K.toCrates client answers e.identity e.proof (env.now .authority) with
  | ok identity =>
      unfold Acts recheck storeEvidence recordCheck
      simp only [wp_bind, wp_note, wp_update, wp_change]
      refine ⟨fun _ => .refl, fun faults _ => ⟨fun db hdb => ?_, fun _ _ => .refl⟩⟩
      obtain ⟨-, -, -, rfl⟩ := Store.setEvidence_eq_ok hdb
      refine ⟨.single (.rechecked faults client answers e raw identity (env.now .authority) _ hevidence
        hread hresult hdb), henabled, rfl, rfl, rfl, rfl, isFresh_now rfl⟩
  | error error =>
      refine acts_change (.of_memory rfl rfl rfl rfl (List.Subset.refl _) (.inr rfl)) ?_
      by_cases hrevokes : error = .unauthorized ∨ error = .invalidSignature
      · rw [if_pos hrevokes]
        exact acts_invalidate.bind fun _ _ _ => acts_fail
      · rw [if_neg hrevokes]
        exact acts_fail

/-- An authority that is checked is recent. -/
theorem authority_checked : Acts K (authority K env) (fun _ s' => Checked env s s') s := by
  unfold authority
  refine acts_read (acts_check fun henabled => ?_)
  by_cases hfresh : s.isFresh (env.now .authority) = true
  · rw [if_pos hfresh]
    exact acts_pure ⟨henabled, rfl, rfl, rfl, rfl, hfresh⟩
  · rw [if_neg hfresh]
    refine acts_query fun _ account _ => acts_attempt fun a _ => acts_check fun _ => ?_
    refine acts_query fun _ raw hraw => acts_attempt fun raw' hraw' => ?_
    refine acts_attempt fun e he => acts_check fun _ => acts_attempt fun client _ => ?_
    refine acts_await fun answers => ?_
    have hevidence : s.db.evidence = some raw' := by
      rw [← Store.evidence_eq_ok hraw]
      exact okOr_eq_ok.mp hraw'
    exact acts_recheck henabled hevidence (okOr_eq_ok.mp he)

/-! ## Signing in -/

variable {α β : Type} {Q : β → Core → Prop}

/-- Changing a request is in memory only. -/
theorem acts_setLogin {id : Bytes} {g : Login → Login} {f : Unit → Act β}
    (h : Acts K (f ()) Q { s with pending := modifyKey s.pending id g }) :
    Acts K (setLogin id g >>= f) Q s :=
  acts_change (.of_memory rfl rfl rfl rfl (List.Subset.refl _) (.inl rfl)) h

/-- A Start changes memory only. -/
theorem start_acts {now : Nat} : Acts K (start K env now) (fun _ _ => True) s := by
  unfold start
  refine acts_read ?_
  refine acts_change (.of_memory rfl rfl rfl rfl (List.Subset.refl _) (.inl rfl)) ?_
  refine acts_check fun _ => acts_check fun _ => acts_attempt fun _ _ => acts_await fun _ => ?_
  refine acts_attempt fun _ _ => acts_attempt fun _ _ => ?_
  refine acts_change (.of_memory rfl rfl rfl rfl (List.Subset.refl _) (.inl rfl)) ?_
  exact acts_pure trivial

/-- Asking for a proof changes its request only. -/
theorem pollProof_acts {client : AuthClient} {id : Bytes} {pending : Login} :
    Acts K (pollProof K env client id pending) (fun _ _ => True) s := by
  unfold pollProof
  split
  · exact acts_pure trivial
  · refine acts_await fun _ => acts_attempt fun status _ => ?_
    cases status with
    | pending => exact acts_pure trivial
    | completed proof => exact acts_setLogin (acts_pure trivial)

/-- Evidence that passes is not older. -/
theorem checkBlock_acts {verified : VerifiedIdentity} :
    Acts K (checkBlock K env verified) (fun _ s' => s' = s ∧ Supersedes K verified s.db) s := by
  unfold checkBlock
  refine acts_query fun _ raw hraw => ?_
  have hraw := Store.evidence_eq_ok hraw
  cases raw with
  | none =>
      refine acts_pure ⟨rfl, fun raw h => ?_⟩
      rw [← hraw] at h
      cases h
  | some raw =>
      refine acts_attempt fun e he => ?_
      refine wp_check.mpr ⟨fun hnewer => ⟨.refl, rfl, fun raw' h => ?_⟩, fun _ => .refl⟩
      rw [← hraw] at h
      obtain rfl := Option.some.inj h
      exact ⟨e, okOr_eq_ok.mp he, hnewer⟩

/-- Where another authority was bound it is invalidated, and with it the evidence. -/
theorem replaceAuthority_acts {authority : Bytes} :
    Acts K (replaceAuthority K env authority)
      (fun _ s' => s'.db.evidence = s.db.evidence ∨ s'.db.evidence = none) s := by
  unfold replaceAuthority
  refine acts_query fun _ account _ => ?_
  cases account with
  | none => exact acts_pure (.inl rfl)
  | some account =>
      by_cases hother : account.authority ≠ authority
      · simp only [if_pos hother]
        exact acts_invalidate.mono fun _ _ h => .inr h.evidence
      · simp only [if_neg hother]
        exact acts_pure (.inl rfl)

/-- What is not there any more does not count. -/
theorem Supersedes.of_evidence {verified : VerifiedIdentity} {db db' : Db}
    (h : Supersedes K verified db) (hdb : db'.evidence = db.evidence ∨ db'.evidence = none) :
    Supersedes K verified db' := by
  intro raw hraw
  rcases hdb with hdb | hdb
  · exact h raw (hdb ▸ hraw)
  · rw [hdb] at hraw
    cases hraw

/-- The time of an account fits in sixty-four bits. -/
theorem createdAt_lt_of_bindVerified {C : Credentials.Crates} {io : Faults}
    {db db' : Db} {fid : Nat}
    {now : Time} {authority random : Bytes} {identity : Identity} {a : Account}
    (h : Store.bindVerified C io db fid authority identity now random = .ok (a, db')) :
    a.createdAt < 18446744073709551616 := by
  unfold Store.bindVerified at h
  obtain ⟨_, -, h⟩ := bind_eq_ok.mp h
  obtain ⟨_, -, h⟩ := bind_eq_ok.mp h
  obtain ⟨_, -, h⟩ := bind_eq_ok.mp h
  obtain ⟨old, hold, h⟩ := bind_eq_ok.mp h
  cases old with
  | some old =>
      simp only [bind_eq_ok, pure_eq_ok, Prod.mk.injEq] at h
      obtain ⟨_, -, _, -, _, -, rfl, -⟩ := h
      obtain ⟨-, -, -, v, -, hread⟩ := Store.loadAccount_eq_ok hold
      have hlt : old.createdAt < 18446744073709551616 := Account.createdAt_lt_of_ofJson? hread
      exact hlt
  | none =>
      simp only [bind_eq_ok, pure_eq_ok, Prod.mk.injEq] at h
      obtain ⟨new, hnew, _, -, _, -, rfl, -⟩ := h
      obtain ⟨_, _, -, -, rfl⟩ := newAccount_eq_ok hnew
      exact lt_trans now.isLt (by decide)

/-- Completing a sign-in may invalidate another authority, binds the verified one, and stores its
evidence. -/
theorem complete_acts {settings : Settings} {client : AuthClient} {id : Bytes} {pending : Login}
    {proof : SignedProof} {now : Nat} (hsettings : s.settings = settings) :
    Acts K (complete K env settings client id pending proof now) (fun _ _ => True) s := by
  unfold complete
  refine acts_await fun answers => acts_attempt fun verified hverified => ?_
  have hforget : Move K s { s with pending := removeKey s.pending id } :=
    .of_memory rfl rfl rfl rfl (List.Subset.refl _) (.inl rfl)
  split_ifs with hexpired hfid
  · exact acts_change hforget acts_fail
  · exact acts_change hforget acts_fail
  · refine checkBlock_acts.bind fun _ s₁ hs₁ => ?_
    obtain ⟨rfl, hnewer⟩ := hs₁
    unfold Node.bind
    refine acts_assoc.mpr (replaceAuthority_acts.settings.bind fun _ s₂ hs₂ => acts_assoc.mpr ?_)
    obtain ⟨hs₂, hsame⟩ := hs₂
    rw [hsettings] at hsame
    refine acts_attempt fun identity hown => acts_assoc.mpr (acts_call fun faults a db hbound => ?_)
    have hallowed : settings.allowedFid = some verified.fid := not_ne_iff.mp hfid
    have hown := Store.mapError_eq_ok.mp hown
    rw [← hsame] at hallowed hown
    refine ⟨.bound faults _ _ _ _ _ a db hbound hallowed hown, ?_⟩
    obtain ⟨⟨key, rfl⟩, henabled, hfid, hauthority, -⟩ := Store.bindVerified_eq_ok hbound
    have hnewer : Supersedes K verified { s₂.db with
        account := some ⟨encodeAccount K.credentials a, key⟩ } := hnewer.of_evidence hs₂
    unfold Acts storeEvidence recordCheck setLogin
    simp only [wp_bind, wp_note, wp_update, wp_change, wp_pure]
    refine ⟨fun _ => .refl, fun faults _ => ⟨fun db hdb => ⟨?_, trivial⟩, fun _ _ => .refl⟩⟩
    obtain ⟨-, -, -, rfl⟩ := Store.setEvidence_eq_ok hdb
    have hverified := Store.mapError_eq_ok.mp hverified
    exact .single (.completed faults client answers pending.challenge verified proof _ _ a key _ _ _
      hverified rfl (createdAt_lt_of_bindVerified hbound) henabled hfid hauthority hnewer hdb)

/-- A Poll makes the moves of its sign-in, under the settings it found. -/
theorem poll_acts {id token : Bytes} {now : Nat} :
    Acts K (poll K env id token now) (fun _ _ => True) s := by
  unfold poll
  refine acts_read (acts_attempt fun client _ => acts_attempt fun pending _ => acts_check fun _ => ?_)
  cases pending.completion with
  | some completion => exact acts_pure trivial
  | none =>
      refine acts_check fun _ =>
        acts_setLogin (pollProof_acts.settings.bind fun proof _ hproof => ?_)
      cases proof with
      | none => exact acts_pure trivial
      | some proof => exact complete_acts hproof.2

/-! ## Passwords and sessions -/

/-- What an action that needs an authority leaves when it returns: login is enabled, a check is
recent, and there was a grant or a password to use. -/
structure Gate (env : Env) (s : Core) : Prop where
  enabled : s.settings.enabled = true
  fresh : s.isFresh (env.now .authority) = true
  used : s.grants ≠ [] ∨ s.db.passwords.rows ≠ []

/-- After a check what was used is still there. -/
theorem Checked.gate {s s' : Core} (h : Checked env s s')
    (hused : s.grants ≠ [] ∨ s.db.passwords.rows ≠ []) : Gate env s' := by
  refine ⟨h.settings.symm ▸ h.enabled, h.fresh, ?_⟩
  rwa [h.grants, h.passwords]

/-- A look at the grants that succeeds shows that there is one. -/
theorem grant_acts {token : Bytes} {now : Nat} :
    Acts K (grant token now) (fun _ s' => s' = s ∧ s.grants ≠ []) s := by
  unfold grant
  refine acts_read (wp_check.mpr ⟨fun h => ⟨.refl, rfl, fun hnone => ?_⟩, fun _ => .refl⟩)
  rw [hnone] at h
  cases h

/-- After a check between two looks the gate was passed with a grant. -/
theorem granted_acts {token : Bytes} :
    Acts K (granted K env token) (fun _ s' => Gate env s' ∧ s'.grants ≠ []) s := by
  unfold granted
  refine grant_acts.bind fun _ s₁ hs₁ => ?_
  obtain ⟨rfl, hgrants⟩ := hs₁
  refine authority_checked.bind fun _ s₂ hs₂ => grant_acts.mono fun _ s₃ hs₃ => ?_
  obtain ⟨rfl, hgrants'⟩ := hs₃
  exact ⟨hs₂.gate (.inl hgrants), hgrants'⟩

/-- Listing passwords passes the gate. -/
theorem passwords_acts {token : Bytes} :
    Acts K (passwords K env token) (fun _ s' => Gate env s') s := by
  unfold passwords
  refine granted_acts.bind fun _ s' hs' => acts_query fun _ _ _ => ?_
  exact acts_pure hs'.1

/-- An issued password leaves the account and the evidence alone. -/
theorem issuePassword_frame {C : Credentials.Crates} {io : Faults} {db db' : Db}
    {name random salt : Bytes} {now : Nat} {issued : IssuedPassword}
    (h : Store.issuePassword C io db name now random salt = .ok (issued, db')) :
    db'.account = db.account ∧ db'.evidence = db.evidence := by
  obtain ⟨-, -, -, -, haccount, hevidence⟩ :=
    Db.insertPassword_eq_some (Store.issuePassword_eq_ok h).2
  exact ⟨haccount, hevidence⟩

/-- Making a password passes the gate with a grant. -/
theorem issue_acts {token name : Bytes} :
    Acts K (issue K env token name) (fun _ s' => Gate env s') s := by
  unfold issue
  refine granted_acts.bind fun _ s' hs' => acts_call fun _ issued db hdb => ?_
  obtain ⟨⟨henabled, hfresh, -⟩, hgrants⟩ := hs'
  obtain ⟨haccount, hevidence⟩ := issuePassword_frame hdb
  refine ⟨.credentials db haccount hevidence (.inr hgrants), ?_⟩
  refine acts_query fun _ _ _ => acts_attempt fun _ _ => ?_
  exact acts_pure ⟨henabled, hfresh, .inl hgrants⟩

/-- Revoking needs a grant, and no check. -/
theorem revoke_acts {token name : Bytes} : Acts K (revoke env token name) (fun _ _ => True) s := by
  unfold revoke
  refine grant_acts.bind fun _ s' hs' => acts_update fun _ db hdb => ?_
  obtain rfl := Store.revokePassword_eq_ok hdb
  refine ⟨.credentials _ rfl rfl (.inl ?_), acts_pure trivial⟩
  intro p hp
  exact (Table.mem_delete.mp hp).1

/-- A session that is made leaves the account, the evidence and the passwords alone. -/
theorem authenticate_frame {C : Credentials.Crates} {io : Faults} {key : Bytes} {db db' : Db}
    {identifier password sid jti accessJti : Bytes} {now : Nat} {s : Session}
    (h : Store.authenticate C io key db identifier password now sid jti accessJti = .ok (s, db')) :
    db'.account = db.account ∧ db'.evidence = db.evidence ∧ db'.passwords = db.passwords ∧
      db.passwords.rows ≠ [] := by
  obtain ⟨a, name, db₁, hbegin, -, hcommit⟩ := Store.authenticate_eq_ok h
  obtain ⟨-, ⟨p, hp, -⟩, -, rfl⟩ := Store.beginAuthenticate_eq_ok hbegin
  obtain ⟨-, -, hpasswords, -, haccount, hevidence⟩ :=
    Db.insertSession_eq_some (Store.commitSession_eq_ok hcommit)
  exact ⟨haccount, hevidence, hpasswords, List.ne_nil_of_mem hp⟩

/-- A Login passes the gate with a password: the one that it validated before the check. -/
theorem login_acts {identifier password : Bytes} {now : Nat} :
    Acts K (login K env identifier password now) (fun _ s' => Gate env s') s := by
  unfold login
  refine acts_read ?_
  refine acts_change (.of_memory rfl rfl rfl rfl (List.Subset.refl _) (.inl rfl)) ?_
  refine acts_check fun _ => acts_query fun _ _ _ => ?_
  refine authority_checked.bind fun _ s' hs' => acts_call fun _ session db hdb => ?_
  obtain ⟨haccount, hevidence, hpasswords, hused⟩ := authenticate_frame hdb
  refine ⟨.credentials db haccount hevidence (.inl ?_), acts_pure ⟨?_, hs'.fresh, .inr ?_⟩⟩
  · rw [hpasswords]
    exact List.Subset.refl _
  · exact hs'.settings.symm ▸ hs'.enabled
  · show db.passwords.rows ≠ []
    rwa [hpasswords]

/-- A session belongs to a password. -/
theorem passwords_of_validateSession {io : Faults} {db : Db} {claims : Claims} {refresh : Bool}
    {now : Nat} (h : Store.validateSession io db claims refresh now = .ok ()) :
    db.passwords.rows ≠ [] := by
  obtain ⟨row, hrow, -⟩ := Store.validateSession_eq_ok h
  obtain ⟨p, hp, -⟩ := db.references row hrow
  exact List.ne_nil_of_mem hp

/-- A session that is read has its password. -/
theorem readSession_acts {token : Bytes} :
    Acts K (readSession K env token) (fun _ s' => s' = s ∧ s.db.passwords.rows ≠ []) s := by
  refine wp_query.mpr ⟨fun _ => .refl, fun faults _ => ⟨fun info h => ⟨.refl, rfl, ?_⟩,
    fun _ _ => .refl⟩⟩
  simp only [Store.getSession, bind_eq_ok] at h
  obtain ⟨⟨a, claims⟩, -, _, hsession, -⟩ := h
  exact passwords_of_validateSession hsession

/-- Reading a session passes the gate. -/
theorem session_acts {token : Bytes} :
    Acts K (session K env token) (fun _ s' => Gate env s') s := by
  unfold session
  refine readSession_acts.bind fun info s₁ hs₁ => ?_
  obtain ⟨rfl, hused⟩ := hs₁
  exact authority_checked.bind fun _ s' hs' => acts_pure (hs'.gate (.inr hused))

/-- So does reading preferences. -/
theorem preferences_acts {token : Bytes} :
    Acts K (preferences K env token) (fun _ s' => Gate env s') s := by
  unfold preferences
  refine readSession_acts.bind fun info s₁ hs₁ => ?_
  obtain ⟨rfl, hused⟩ := hs₁
  exact authority_checked.bind fun _ s' hs' => acts_pure (hs'.gate (.inr hused))

/-- Refreshing leaves the account, the evidence and the passwords alone. -/
theorem refreshSession_frame {C : Credentials.Crates} {io : Faults} {key : Bytes} {db db' : Db}
    {token jti accessJti : Bytes} {now : Nat} {s : Session}
    (h : Store.refreshSession C io key db token now jti accessJti = .ok (s, db')) :
    db'.account = db.account ∧ db'.evidence = db.evidence ∧ db'.passwords = db.passwords ∧
      db.passwords.rows ≠ [] := by
  obtain ⟨a, claims, hbegin, -, hcommit⟩ := Store.refreshSession_eq_ok h
  obtain ⟨-, rfl⟩ := Store.commitRefresh_eq_ok hcommit
  exact ⟨rfl, rfl, rfl, passwords_of_validateSession (Store.beginRefresh_eq_ok hbegin).2.2⟩

/-- So does a Refresh, with the password of the session. -/
theorem refresh_acts {token : Bytes} :
    Acts K (refresh K env token) (fun _ s' => Gate env s') s := by
  unfold refresh
  refine acts_query fun _ _ _ => ?_
  refine authority_checked.bind fun _ s' hs' => acts_call fun _ session db hdb => ?_
  obtain ⟨haccount, hevidence, hpasswords, hused⟩ := refreshSession_frame hdb
  refine ⟨.credentials db haccount hevidence (.inl ?_), acts_pure ⟨?_, hs'.fresh, .inr ?_⟩⟩
  · rw [hpasswords]
    exact List.Subset.refl _
  · exact hs'.settings.symm ▸ hs'.enabled
  · show db.passwords.rows ≠ []
    rwa [hpasswords]

/-- A Logout only takes a session away. -/
theorem logout_acts {token : Bytes} : Acts K (logout K env token) (fun _ _ => True) s := by
  unfold logout
  refine acts_update fun _ db hdb => ?_
  obtain ⟨a, claims, -, rfl⟩ := Store.deleteSession_eq_ok hdb
  exact ⟨.credentials _ rfl rfl (.inl (List.Subset.refl _)), acts_pure trivial⟩

/-- Describing the service makes no move. -/
theorem describe_acts : Acts K (describe K) (fun _ _ => True) s := by
  unfold describe
  exact acts_read (acts_attempt fun _ _ => acts_pure trivial)

/-- Neither does reading its document. -/
theorem did_acts : Acts K (did K env) (fun _ _ => True) s :=
  wp_query.mpr ⟨fun _ => .refl, fun _ _ => ⟨fun _ _ => ⟨.refl, trivial⟩, fun _ _ => .refl⟩⟩

/-! ## Executing -/

/-- The actions that need an authority. -/
def Action.gated : Action → Bool
  | .passwords _ | .issue _ _ | .login _ _ | .session _ | .refresh _ | .preferences _ => true
  | _ => false

/-- Every action makes moves, and passes the gate when it returns if it needs an authority. -/
theorem run_acts {now : Nat} (action : Action) :
    Acts K (action.run K env now) (fun _ s' => action.gated = true → Gate env s') s := by
  have quiet : ∀ {x : Act Json} {c : Prop}, Acts K x (fun _ _ => True) s → ¬c →
      Acts K x (fun _ s' => c → Gate env s') s :=
    fun h hc => h.mono fun _ _ _ hc' => absurd hc' hc
  have gated : ∀ {x : Act Json} {c : Prop}, Acts K x (fun _ s' => Gate env s') s →
      Acts K x (fun _ s' => c → Gate env s') s := fun h => h.mono fun _ _ hg _ => hg
  cases action with
  | start => exact quiet start_acts Bool.false_ne_true
  | poll id token => exact quiet poll_acts Bool.false_ne_true
  | passwords token => exact gated passwords_acts
  | issue token name => exact gated issue_acts
  | revoke token name => exact quiet revoke_acts Bool.false_ne_true
  | login identifier password => exact gated login_acts
  | session token => exact gated session_acts
  | refresh token => exact gated refresh_acts
  | logout token => exact quiet logout_acts Bool.false_ne_true
  | describe => exact quiet describe_acts Bool.false_ne_true
  | did => exact quiet did_acts Bool.false_ne_true
  | preferences token => exact gated preferences_acts

/-- Every action is a sequence of moves, wherever it stops. -/
theorem execute_acts (action : Action) :
    Acts K (execute K env action) (fun _ s' => action.gated = true → Gate env s') s := by
  unfold execute expire
  refine acts_read (acts_check fun _ => ?_)
  refine acts_change (.of_memory rfl rfl rfl rfl ?_ (.inl rfl)) (run_acts action)
  exact fun _ h => (List.mem_filter.mp h).1

end PurpleSky.Node
