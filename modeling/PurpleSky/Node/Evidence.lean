import PurpleSky.Node.Moves

/-!
# Stored evidence and the bound account

What holds of the database of a node through its whole life, where its process may end before any
call of the store: whatever evidence is stored is of the bound account (`Sound`).

* `Holds.final`: what opening, moves and configurations keep holds in every run.
* **`evidence_of_account`**: stored evidence matches the bound account, which is enabled; without
  evidence every check of the authority fails.
-/

namespace PurpleSky.Node

open Bytes Credentials Farcaster Procedure

variable {K : Crates}

/-! ## The life of a node -/

/-- The database of a node. -/
def Process.db : Process → Db
  | .stopped db _ => db
  | .running core => core.db

/-- What an event can do to a node. -/
inductive Life (K : Crates) : Process → Process → Prop where
  | same (p : Process) : Life K p p
  | refused {db db' : Db} {history : List Deed} {key random : Bytes} {io : Faults}
      (opened : Store.openKey io db random = .ok (key, db')) :
      Life K (.stopped db history) (.stopped db' history)
  | opened {db db' : Db} {history : List Deed} {settings : Settings} {key random : Bytes}
      {io reload : Faults} {account : Option Account} (valid : settings.validate K = .ok ())
      (opened : Store.openKey io db random = .ok (key, db'))
      (read : Store.account K.credentials reload db' = .ok account)
      (fits : account.all (settings.fits K) = true) :
      Life K (.stopped db history) (.running ⟨settings, key, db', [], [], [], [], none, history⟩)
  | acted {core core' : Core} (moves : Moves K core core') : Life K (.running core) (.running core')
  | ended {core core' : Core} (moves : Moves K core core') :
      Life K (.running core) (.stopped core'.db core'.history)
  | configured {core : Core} {settings : Settings} {io : Faults}
      (checked : core.checkSettings K settings io = true) :
      Life K (.running core) (.running (core.apply settings))

/-- A node is opened with settings that are valid and fit the account, or it stays as it is, but for
the key of its store. -/
theorem openNode_cases (db : Db) (history : List Deed) (settings : Settings) (random : Random)
    (io reload : Faults) :
    (openNode K db history settings random io reload).1 = .stopped db history ∨
    ∃ key db', Store.openKey io db random = .ok (key, db') ∧
      ((openNode K db history settings random io reload).1 = .stopped db' history ∨
        ∃ account, settings.validate K = .ok () ∧
          Store.account K.credentials reload db' = .ok account ∧
          account.all (settings.fits K) = true ∧
          (openNode K db history settings random io reload).1 =
            .running ⟨settings, key, db', [], [], [], [], none, history⟩) := by
  unfold openNode
  split
  · exact .inl rfl
  · rename_i hvalid
    split
    · exact .inl rfl
    · rename_i key db' hopen
      refine .inr ⟨key, db', hopen, ?_⟩
      split
      · rename_i account _ hread
        split_ifs with hfits
        · exact .inr ⟨account, hvalid, hread, hfits, rfl⟩
        · exact .inl rfl
      · exact .inl rfl

/-- Opening is a part of a life: the node stays as it was, is refused, or opens. -/
theorem life_openNode (db : Db) (history : List Deed) (settings : Settings) (random : Random)
    (io reload : Faults) :
    Life K (.stopped db history) (openNode K db history settings random io reload).1 := by
  rcases @openNode_cases K db history settings random io reload with
    h | ⟨key, db', hopen, h | ⟨account, hvalid, hread, hfits, h⟩⟩
  · rw [h]
    exact .same _
  · rw [h]
    exact .refused hopen
  · rw [h]
    exact .opened hvalid hopen hread hfits

/-- An action leaves a core that its moves lead to, whether its process ends or not. -/
theorem moves_executeNode (core : Core) (action : Action) (env : Env) :
    ∃ core', Moves K core core' ∧
    ((executeNode K core action env).1 = .running core' ∨
      (executeNode K core action env).1 = .stopped core'.db core'.history) := by
  have hmoves : Moves K core (execute K env action core).2 :=
    wp.last (I := Moves K core) (wp.mono (execute_acts action) (fun _ _ h => h.1) fun _ _ h => h)
  refine ⟨_, hmoves, ?_⟩
  unfold executeNode
  match execute K env action core with
  | (.ok value, core') => exact .inl rfl
  | (.error (.failed failure), core') => exact .inl rfl
  | (.error .timedOut, core') => exact .inl rfl
  | (.error .stopped, core') => exact .inr rfl

/-- An action is a part of a life: it leaves a core its moves lead to, or the process ends there. -/
theorem life_executeNode (core : Core) (action : Action) (env : Env) :
    Life K (.running core) (executeNode K core action env).1 := by
  obtain ⟨core', hmoves, h | h⟩ := @moves_executeNode K core action env
  · rw [h]
    exact .acted hmoves
  · rw [h]
    exact .ended hmoves

/-- Every event is a part of a life. -/
theorem life_step (p : Process) (event : Event) : Life K p (p.step K event).1 := by
  cases p with
  | stopped db history =>
      cases event with
      | opening settings random io reload =>
          exact life_openNode db history settings random io reload
      | action action env => exact .same _
      | configure settings io saved => exact .same _
      | stop => exact .same _
  | running core =>
      cases event with
      | opening settings random io reload => exact .same _
      | action action env => exact life_executeNode core action env
      | configure settings io saved =>
          show Life K _ (if core.checkSettings K settings io then
            (Process.running (if saved then core.apply settings else core), Reply.configured)
            else (Process.running core, Reply.refused)).1
          split_ifs with hcheck hsaved
          · exact .configured hcheck
          · exact .same _
          · exact .same _
      | stop => exact .ended .refl

/-- What holds of a node: `D` of its database and its history, and `I` of its core. -/
def Holds (D : Db → List Deed → Prop) (I : Core → Prop) : Process → Prop
  | .stopped db history => D db history
  | .running core => I core

/-- What the parts of a life keep. -/
structure Kept (K : Crates) (D : Db → List Deed → Prop) (I : Core → Prop) : Prop where
  init : D .empty []
  key : ∀ {db db' : Db} {history : List Deed} {key random : Bytes} {io : Faults},
    Store.openKey io db random = .ok (key, db') → D db history → D db' history
  opened : ∀ {db : Db} {history : List Deed} (settings : Settings) (key : Bytes), D db history →
    I ⟨settings, key, db, [], [], [], [], none, history⟩
  move : ∀ {core core' : Core}, Move K core core' → I core → I core'
  configured : ∀ {core : Core} (settings : Settings), I core → I (core.apply settings)
  stopped : ∀ {core : Core}, I core → D core.db core.history

variable {D : Db → List Deed → Prop} {I : Core → Prop}

/-- What each move keeps, moves keep. -/
theorem Kept.moves (h : Kept K D I) {core core' : Core} (hmoves : Moves K core core')
    (hI : I core) :
    I core' := by
  induction hmoves with
  | refl => exact hI
  | tail _ hmove ih => exact h.move hmove ih

/-- What is kept by the parts of a life holds after each of them. -/
theorem Kept.life (h : Kept K D I) {p p' : Process} (hlife : Life K p p') (hp : Holds D I p) :
    Holds D I p' := by
  cases hlife with
  | same => exact hp
  | refused opened => exact h.key opened hp
  | opened valid opened read fits => exact h.opened _ _ (h.key opened hp)
  | acted moves => exact h.moves moves hp
  | ended moves => exact h.stopped (h.moves moves hp)
  | configured checked => exact h.configured _ hp

/-- What is kept holds at the end of every run. -/
theorem Kept.final (h : Kept K D I) (es : List Event) : Holds D I ((nodes K).final .init es) := by
  have hkeeps : (nodes K).Keeps (fun _ _ => True) (Holds D I) (Holds D I) :=
    fun p e hp _ _ => h.life (life_step p e) hp
  have hmeets : (nodes K).Meets (fun _ _ => True) .init es :=
    Machine.meets_iff.mpr fun _ _ => trivial
  exact hmeets.invariant hkeeps h.init

/-! ## Evidence of the bound account -/

/-- Evidence is of an account: it was returned for its proof, and names the account's identifier and
authority. -/
structure Evident (K : Crates) (db : Db) (raw : Bytes) (e : Evidence) (a : Account)
    (repoKey : Bytes) : Prop where
  text : raw = encodeEvidence K e
  fits : raw.length ≤ 32 * 1024
  inRange : e.identity.InRange
  returned : Returned K.toCrates e.proof e.identity
  bound : Bound K.credentials db a repoKey
  short : (encodeAccount K.credentials a).length ≤ 8192
  enabled : a.enabled = true
  fid : e.identity.fid = a.fid
  authority : fingerprint e.identity = a.authority

/-- The account is genuine, and the evidence is of it. -/
structure Sound (K : Crates) (db : Db) : Prop where
  stored : Stored K.credentials db
  evident : ∀ raw ∈ db.evidence, ∃ e a repoKey, Evident K db raw e a repoKey

/-- Evidence of the account is read as it was written. -/
theorem Evident.read (hK : K.json.Lawful) {db : Db} {raw : Bytes} {e : Evidence} {a : Account}
    {repoKey : Bytes} (h : Evident K db raw e a repoKey) : readEvidence K raw = some e := by
  rw [h.text, readEvidence_encodeEvidence hK h.inRange]

/-- Evidence stays of the account while the account row does not change. -/
theorem Evident.of_account_eq {db db' : Db} {raw : Bytes} {e : Evidence} {a : Account}
    {repoKey : Bytes} (h : Evident K db raw e a repoKey) (heq : db'.account = db.account) :
    Evident K db' raw e a repoKey :=
  { h with bound := ⟨heq.trans h.bound.row, h.bound.genuine⟩ }

/-- A database is sound when its account and its evidence are those of a sound one. -/
theorem Sound.of_frame {db db' : Db} (h : Sound K db) (haccount : db'.account = db.account)
    (hevidence : db'.evidence = db.evidence) : Sound K db' := by
  refine ⟨h.stored.of_account_eq haccount, fun raw hraw => ?_⟩
  obtain ⟨e, a, repoKey, he⟩ := h.evident raw (hevidence ▸ hraw)
  exact ⟨e, a, repoKey, he.of_account_eq haccount⟩

/-- Making the key of the store leaves the database sound. -/
theorem Sound.openKey {io : Faults} {db db' : Db} {key random : Bytes} (h : Sound K db)
    (hopen : Store.openKey io db random = .ok (key, db')) : Sound K db' := by
  obtain ⟨-, -, haccount, -, -, hevidence⟩ := Store.openKey_eq_ok hopen
  exact h.of_frame haccount hevidence

/-- Without evidence it is enough that the account is genuine. -/
theorem Sound.of_none {db : Db} (h : Stored K.credentials db) (hnone : db.evidence = none) :
    Sound K db := by
  refine ⟨h, fun raw hraw => ?_⟩
  rw [hnone] at hraw
  cases hraw

/-- A verified identity has numbers of sixty-four bits. -/
theorem inRange_of_verifyAuthority {C : Farcaster.Crates} {client : AuthClient} {net : Net}
    {parsed : ParsedProof} {now : Time} {expected : Option VerifiedIdentity}
    {identity : VerifiedIdentity} (hfid : parsed.fid < 18446744073709551616)
    (h : verifyAuthority C client net parsed now expected = .ok identity) : identity.InRange := by
  obtain ⟨x, hserves, hauth, -⟩ := (verifyAuthority_eq_ok hfid).mp h
  obtain ⟨_, _, _, -, -, hnumber, -⟩ := hserves.block
  refine ⟨hauth.fid ▸ hfid, hauth.checkedBlock ▸ quantity_lt hnumber, ?_⟩
  rw [hauth.checkedAt]
  exact lt_trans now.isLt (by decide)

/-- Evidence that is stored for an enabled account of its identifier and authority is of it. -/
theorem evident_of_setEvidence (hK : K.json.Lawful) {io : Faults} {db db' : Db} {e : Evidence}
    {a : Account} (hstored : Stored K.credentials db)
    (h : Store.setEvidence K.credentials io db (encodeEvidence K e) = .ok db')
    (hrange : e.identity.InRange) (hreturned : Returned K.toCrates e.proof e.identity)
    (ha : ∀ b repoKey, Bound K.credentials db b repoKey → b = a)
    (hfid : e.identity.fid = a.fid) (hauthority : fingerprint e.identity = a.authority) :
    Sound K db' := by
  obtain ⟨-, hfits, ⟨b, hb⟩, rfl⟩ := Store.setEvidence_eq_ok h
  obtain ⟨hload, henabled⟩ := Store.enabledAccount_eq_ok hb
  obtain ⟨repoKey, hbound⟩ := hstored.bound hK hload
  obtain rfl := ha b repoKey hbound
  obtain ⟨row, hrow, hshort, -⟩ := Store.loadAccount_eq_ok hload
  obtain rfl := Option.some.inj (hrow.symm.trans hbound.row)
  refine ⟨hstored.of_account_eq rfl, fun raw hraw => ⟨e, b, repoKey, ?_⟩⟩
  obtain rfl := Option.some.inj hraw
  exact ⟨rfl, hfits, hrange, hreturned, ⟨hbound.row, hbound.genuine⟩, hshort, henabled, hfid,
    hauthority⟩

/-- An invalidation leaves a genuine account and no evidence. -/
theorem Sound.invalidated (hK : K.json.Lawful) {io : Faults} {db db' : Db} (h : Sound K db)
    (hcall : Store.invalidateAuthority K.credentials io db = .ok db') : Sound K db' := by
  obtain ⟨-, -, hevidence, -⟩ := Store.invalidateAuthority_eq_ok hcall
  have hrun : Call.run K.credentials io [] db .invalidateAuthority = .ok ⟨.done, db', none⟩ :=
    bind_eq_ok.mpr ⟨db', hcall, rfl⟩
  exact .of_none ((Call.account_change hK h.stored rfl hrun).stored h.stored) hevidence

/-- Binding keeps the evidence, of an account that does not change while it is enabled. -/
theorem Sound.bound (hK : K.json.Lawful) {io : Faults} {db db' : Db} {fid : Nat} {authority : Bytes}
    {identity : Identity} {now : Time} {random : Random} {a : Account} (h : Sound K db)
    (hcall : Store.bindVerified K.credentials io db fid authority identity now random = .ok (a, db')) :
    Sound K db' := by
  rcases h.stored with hnone | ⟨b, repoKey, hb⟩
  · obtain ⟨-, hbound, rfl⟩ :=
      bindVerified_of_none hcall hnone (lt_trans now.isLt (by decide)) random.2
    refine .of_none (.inr ⟨_, _, hbound⟩) (Option.eq_none_iff_forall_not_mem.mpr fun raw hraw => ?_)
    obtain ⟨e, b, repoKey, he⟩ := h.evident raw hraw
    have hrow := he.bound.row
    rw [hnone] at hrow
    cases hrow
  · obtain ⟨hbound, ha, hsame, rfl⟩ := bindVerified_of_bound hK hb hcall
    refine ⟨.inr ⟨_, _, hbound⟩, fun raw hraw => ?_⟩
    obtain ⟨e, b', repoKey', he⟩ := h.evident raw hraw
    obtain ⟨rfl, -⟩ := hb.unique hK he.bound
    have hab : a = b' := by
      rw [ha, hsame he.enabled, ← he.enabled]
    rw [hab] at hbound ⊢
    exact ⟨e, b', repoKey, { he with bound := hbound }⟩

/-- The fingerprint is of the identifier, the address and the custody. -/
theorem fingerprint_eq {i j : VerifiedIdentity} (hfid : i.fid = j.fid)
    (haddress : i.address = j.address)
    (hcustody : i.custodyAddress = j.custodyAddress) : fingerprint i = fingerprint j := by
  rw [fingerprint, fingerprint, hfid, haddress, hcustody]

/-- An identity that is checked again keeps its identifier, its address and its custody. -/
theorem same_of_recheckIdentity {C : Farcaster.Crates} {client : AuthClient} {net : Net}
    {previous identity : VerifiedIdentity} {proof : SignedProof} {now : Time}
    (h : recheckIdentity C client net previous proof now = .ok identity) :
    identity.fid = previous.fid ∧ fingerprint identity = fingerprint previous ∧
    identity.InRange := by
  obtain ⟨parsed, hparse, hfid, haddress, h⟩ := parseAuthority_of_recheckIdentity h
  have hlt := fid_lt_of_parseAuthority hparse
  obtain ⟨x, -, hauth, hexpected⟩ := (verifyAuthority_eq_ok hlt).mp h
  have hsame : identity.fid = previous.fid := hauth.fid.trans hfid
  exact ⟨hsame, fingerprint_eq hsame (hauth.address.trans haddress) (hexpected _ rfl).2.symm,
    inRange_of_verifyAuthority hlt h⟩

/-- An identity that `verify` returns has numbers of sixty-four bits. -/
theorem inRange_of_verify {C : Farcaster.Crates} {client : AuthClient} {net : Net}
    {challenge : Challenge} {identity : VerifiedIdentity} {proof : SignedProof} {now : Time}
    (h : verify C client net proof challenge now = .ok identity) : identity.InRange := by
  obtain ⟨parsed, hparse, h⟩ := bind_eq_ok.mp h
  exact inRange_of_verifyAuthority (fid_lt_of_parseAuthority (parseAuthority_of_parse hparse)) h

/-- Every move keeps evidence with its account. -/
theorem Sound.move (hK : K.json.Lawful) {core core' : Core} (hmove : Move K core core')
    (h : Sound K core.db) : Sound K core'.db := by
  cases hmove with
  | memory => exact h
  | invalidating => exact h
  | invalidated io db call => exact h.invalidated hK call
  | bound io fid authority identity now random a db call => exact h.bound hK call
  | rechecked io client net e raw identity now db evidence read returned call =>
      obtain ⟨e', a, repoKey, he⟩ := h.evident raw evidence
      obtain rfl : e' = e := Option.some.inj ((he.read hK).symm.trans read)
      obtain ⟨hfid, hfingerprint, hrange⟩ := same_of_recheckIdentity returned
      exact evident_of_setEvidence hK h.stored call hrange (.recheckIdentity returned)
        (fun b key hb => (he.bound.unique hK hb).1) (hfid.trans he.fid) (hfingerprint.trans he.authority)
  | completed io client net challenge verified proof now checked a repoKey pending grants db returned
      account createdAt enabled fid authority newer call =>
      have hrange := inRange_of_verify returned
      refine evident_of_setEvidence hK h.stored call hrange (.verify returned) (fun b key hb => ?_)
        fid.symm authority.symm
      -- both accounts are what the row reads back as
      have hread := hb.genuine.account? hK
      obtain hrow := Option.some.inj (hb.row.symm.trans account)
      have hread' := @account?_encodeAccount K.credentials a repoKey hK
        (fid ▸ hrange.fid) createdAt
      rw [hrow, hread'] at hread
      exact (Option.some.inj hread).symm
  | credentials db account evidence passwords => exact h.of_frame account evidence

/-- New settings leave the database. -/
theorem apply_db (core : Core) (settings : Settings) : (core.apply settings).db = core.db := by
  unfold Core.apply
  split_ifs <;> rfl

/-- A sound database is kept through a whole life. -/
theorem kept_sound (hK : K.json.Lawful) :
    Kept K (fun db _ => Sound K db) fun core => Sound K core.db where
  init := .of_none (.inl rfl) rfl
  key hopen h := h.openKey hopen
  opened _ _ h := h
  move hmove h := h.move hK hmove
  configured settings h := by
    rw [apply_db]
    exact h
  stopped h := h

/-- The database is sound after every run. -/
theorem sound_final (hK : K.json.Lawful) (es : List Event) :
    Sound K ((nodes K).final .init es).db := by
  have h := (kept_sound hK).final es
  revert h
  cases (nodes K).final .init es with
  | stopped db history => exact id
  | running core => exact id

/-! ## After a restart -/

/-- A node that was just opened on a database with this evidence asks the provider about it. -/
def Usable (K : Crates) (db : Db) (e : Evidence) : Prop :=
  ∀ (core : Core) (env : Env) (client : AuthClient), core.db = db → core.checkedAt = none →
    core.settings.enabled = true → Core.client K core.settings = .ok client →
    env.io .account = some noFaults → env.io .evidence = some noFaults →
    authority K env core = (await (env.net .recheck) (fun net =>
      recheckIdentity K.toCrates client net e.identity e.proof (env.now .authority)) >>=
      recheck K env e.proof (env.now .authority)) core

/-- On a node that was just opened every check of the authority fails. -/
def NeedsSignIn (K : Crates) (db : Db) : Prop :=
  ∀ (core : Core) (env : Env), core.db = db → core.checkedAt = none →
    ∃ halt, authority K env core = (.error halt, core)

/-- What is read without a failure is returned, and the core is as before. -/
theorem query_of_ok {α : Type} {faults : Faults} {f : Faults → Bytes → Db → Except Error α} {a : α}
    {s : Core} (h : f faults s.jwtKey s.db = .ok a) : query (some faults) f s = (.ok a, s) := by
  simp [query, call, h, Bind.bind, Except.bind, pure, Except.pure]

/-- A check of what holds does nothing. -/
theorem check_of {c : Prop} [Decidable c] {failure : Failure} {s : Core} (h : c) :
    check c failure s = (.ok (), s) := by
  rw [check, require, if_pos h]
  rfl

/-- Stored evidence of the account can be used. -/
theorem usable_of_evident (hK : K.json.Lawful) {db : Db} {raw : Bytes} {e : Evidence} {a : Account}
    {repoKey : Bytes} (h : Evident K db raw e a repoKey) (hraw : db.evidence = some raw) :
    Usable K db e := by
  rintro core env client rfl hchecked henabled hclient haccount hevidence
  have hload : Store.account K.credentials noFaults core.db = .ok (some a) :=
    h.bound.loadAccount hK rfl h.short
  have hread : Store.evidence noFaults core.db = .ok (some raw) := by
    simp only [Store.evidence, bind_eq_ok, ensure_eq_ok, pure_eq_ok]
    refine ⟨(), rfl, (), fun raw' h' => ?_, hraw⟩
    obtain rfl := Option.some.inj (hraw.symm.trans h')
    exact h.fits
  have hfresh : core.isFresh (env.now .authority) = false := by
    rw [Core.isFresh, hchecked]
    rfl
  have hdecode : attempt (okOr ((K.json.parse raw).bind Evidence.ofJson?) .unverified) core =
      (.ok e, core) := by
    have hdecode : (K.json.parse raw).bind Evidence.ofJson? = some e := h.read hK
    rw [hdecode]
    rfl
  unfold authority
  rw [haccount, hevidence]
  refine (bind_of_ok rfl).trans ((bind_of_ok (check_of henabled)).trans ?_)
  simp only [hfresh, Bool.false_eq_true, if_false]
  refine (bind_of_ok (query_of_ok hload)).trans ((bind_of_ok rfl).trans ?_)
  refine (bind_of_ok (check_of h.enabled)).trans ((bind_of_ok (query_of_ok hread)).trans ?_)
  refine (bind_of_ok rfl).trans ((bind_of_ok hdecode).trans ?_)
  refine (bind_of_ok (check_of ⟨h.fid, h.authority⟩)).trans (bind_of_ok ?_)
  rw [hclient]
  rfl

/-- Without evidence a sign-in is needed. -/
theorem needsSignIn_of_none {db : Db} (h : db.evidence = none) : NeedsSignIn K db := by
  rintro core env rfl hchecked
  have hfresh : core.isFresh (env.now .authority) = false := by
    rw [Core.isFresh, hchecked]
    rfl
  have hwp : wp (authority K env) (fun _ _ => False) (fun _ s' => s' = core) core := by
    unfold authority
    simp only [wp_bind, wp_read, wp_check, hfresh, Bool.false_eq_true, if_false,
      wp_query, wp_attempt]
    refine ⟨fun _ => ⟨fun _ => trivial, fun _ _ => ⟨fun account _ => ⟨fun a _ => ⟨fun _ => ?_,
      fun _ => trivial⟩, fun _ _ => trivial⟩, fun _ _ => trivial⟩⟩, fun _ => trivial⟩
    refine ⟨fun _ => trivial, fun faults _ => ⟨fun raw hraw => ⟨fun raw' hraw' => ?_, fun _ _ => trivial⟩,
      fun _ _ => trivial⟩⟩
    have hnone := Store.evidence_eq_ok hraw
    rw [okOr_eq_ok.mp hraw', h] at hnone
    cases hnone
  unfold wp at hwp
  match hx : authority K env core with
  | (.ok a, s') =>
      rw [hx] at hwp
      exact hwp.elim
  | (.error halt, s') =>
      rw [hx] at hwp
      exact ⟨halt, by rw [hwp]⟩

/-- **Stored evidence is of the bound account.** In every run of a node, whose process may end
before any call of the store and be started again: evidence that is stored is of a bound and enabled
account, with its identifier and its authority, so that no check of the authority finds them to
differ; and a node that is started again can use it, or needs a new sign-in. -/
theorem evidence_of_account {K : Crates} (hK : K.json.Lawful) (es : List Event) :
    let db := ((nodes K).final .init es).db
    (∀ raw ∈ db.evidence, ∃ e a, readEvidence K raw = some e ∧
      Store.account K.credentials noFaults db = .ok (some a) ∧ a.enabled = true ∧
      e.identity.fid = a.fid ∧ fingerprint e.identity = a.authority) ∧
    (∀ io reads a raw e, Store.account K.credentials io db = .ok (some a) →
      Store.evidence reads db = .ok (some raw) → readEvidence K raw = some e →
      e.identity.fid = a.fid ∧ fingerprint e.identity = a.authority) ∧
    ((∃ raw e, db.evidence = some raw ∧ readEvidence K raw = some e ∧ Usable K db e) ∨
      NeedsSignIn K db) := by
  intro db
  have hsound : Sound K db := sound_final hK es
  refine ⟨fun raw hraw => ?_, fun io reads a raw e ha hraw he => ?_, ?_⟩
  · obtain ⟨e, a, repoKey, he⟩ := hsound.evident raw hraw
    exact ⟨e, a, he.read hK, he.bound.loadAccount hK rfl he.short, he.enabled, he.fid, he.authority⟩
  · obtain ⟨e', b, repoKey, hb⟩ := hsound.evident raw (Store.evidence_eq_ok hraw).symm
    obtain rfl : a = b := hb.bound.eq_of_loadAccount hK ha
    obtain rfl : e' = e := Option.some.inj ((hb.read hK).symm.trans he)
    exact ⟨hb.fid, hb.authority⟩
  · cases hraw : db.evidence with
    | none => exact .inr (needsSignIn_of_none hraw)
    | some raw =>
        obtain ⟨e, a, repoKey, he⟩ := hsound.evident raw hraw
        exact .inl ⟨raw, e, rfl, he.read hK, usable_of_evident hK he hraw⟩

/-! ## A run -/

/-- The text of a sign-in of the address `0x0101..01` as identifier 1. -/
def sampleText (nonce : Bytes) : Bytes :=
  str "alice.com wants you to sign in with your Ethereum account:\n0x" ++
    hexEncode (List.replicate 20 1) ++
    str "\n\nFarcaster Auth\n\nURI: https://alice.com/account\nVersion: 1\nChain ID: 10\nNonce: " ++
    nonce ++ str "\nIssued At: 2023-11-14T22:13:20Z\nExpiration Time: 2023-11-14T22:18:20Z" ++
    str "\nNot Before: 2023-11-14T22:13:20Z\nResources:\n- farcaster://fid/1"

/-- The message signed for a nonce. -/
def sampleMessage (nonce : Bytes) : Message :=
  ⟨str "alice.com", List.replicate 20 1, some (str "Farcaster Auth"), str "https://alice.com/account",
    nonce, 10, 1700000000, some (1700000300, 0), some (1700000000, 0), none,
    [str "farcaster://fid/1"]⟩

/-- The URLs of the sample: a host, a path and a query. -/
def sampleUrl (s : Bytes) : Option Url :=
  let url (host path : Bytes) (query : Option Bytes) : Url :=
    ⟨str "https", [], none, some host, none, path, query, none⟩
  [(str "https://alice.com", url (str "alice.com") (str "/") none),
    (str "https://alice.com/account", url (str "alice.com") (str "/account") none),
    (str "https://relay.farcaster.xyz", url (str "relay.farcaster.xyz") (str "/") none),
    (str "https://rpc.com", url (str "rpc.com") (str "/") none),
    (str "https://farcaster.xyz/~/siwf?channelToken=ABCDEFGH",
      url (str "farcaster.xyz") (str "/~/siwf") (some (str "channelToken=ABCDEFGH")))].lookup s

/-- Two messages of one address, with the values of the hash function on them and on the functions
of the contracts. Its signatures are not those of a key. -/
def sampleNode : Crates where
  json := Json.compact
  parseUrl := sampleUrl
  queryPairs url := if url.query = none then [] else [(str "channelToken", str "ABCDEFGH")]
  parseMessage s :=
    [sampleId 2, sampleId 20].findSome? fun nonce =>
      if s = sampleText nonce then some (sampleMessage nonce) else none
  messageText m := sampleText m.nonce
  verifyEip191 _ _ := false
  keccak256 s :=
    Repo.hex <|
      if s = str "isValidSignature(bytes32,bytes)" then
        "1626ba7e356f5979dd355a3d2bfb43e80420a480c3b854edce286a82d7496869"
      else if s = str "custodyOf(uint256)" then
        "65269e4742ed8ca7b075eaf53b80a2cab92b0a5c83ef9e0d49295ba777267319"
      else if s = str "keyDataOf(uint256,bytes)" then
        "ac34cc5a485258d5ea904fa0b539c9234a5aa50c027616d51d1fbaf90a512b0e"
      else if s = str "idOf(address)" then
        "d94fe8325182fd09c2e00de99664e19cabd10bf0f893e6ca112927ea7e22b6c4"
      else if s = str "\x19Ethereum Signed Message:\n379" ++ sampleText (sampleId 2) then
        "b1f41c6f18e4c0bae80d01dd5d99f6b30a07f287346e416cd6ff71f85bd6392a"
      else "33cef38981e814eaeb59c30d19b5340490967d1a3fa869788b825ba09b200b85"
  rfc3339 s := if s = 1700000000 then some (str "2023-11-14T22:13:20Z") else
    some (str "2023-11-14T22:18:20Z")
  ecdsa := sampleCrates.ecdsa
  signingKey := sampleCrates.signingKey
  base58 := sampleCrates.base58
  qrDataUrl _ := some (str "data:image/svg+xml;base64,")

/-- A body in one piece. -/
def sampleReply (status : Nat) (v : Json) : Response :=
  .reply status none [Json.compact.render v] true

/-- An answer of the provider with a result. -/
def sampleAnswer (v : Json) : Response := sampleReply 200 <|
  .object [(str "id", .integer 1), (str "jsonrpc", .string (str "2.0")), (str "result", v)]

/-- The relay's answers to a request with a nonce. -/
def sampleRelay (nonce : Bytes) : Visit → Net
  | .start => fun _ _ => sampleReply 201 <|
      .object [(str "channelToken", .string (str "ABCDEFGH")), (str "nonce", .string nonce),
        (str "url", .string (str "https://farcaster.xyz/~/siwf?channelToken=ABCDEFGH"))]
  | _ => fun _ _ => sampleReply 200 <|
      .object [(str "message", .string (sampleText nonce)), (str "signature", .string (str "0x01")),
        (str "state", .string (str "completed"))]

/-- A provider at a block, where the address is a contract wallet with a registered key. -/
def sampleProvider (block : String) (timestamp : String) (custody : UInt8) : Net := fun i _ =>
  match i with
  | 0 => sampleAnswer (.string (str "0xa"))
  | 1 => sampleAnswer (.object [(str "hash", .string (hexText (List.replicate 32 9))),
      (str "number", .string (str block)), (str "timestamp", .string (str timestamp))])
  | 2 => sampleAnswer (.string (str "0x6000"))
  | 3 => sampleAnswer (.string (hexText magicWord))
  | 4 => sampleAnswer (.string
      (hexText (List.replicate 12 0 ++ List.replicate 20 custody)))
  | 5 => sampleAnswer (.string (hexText (word 1 ++ word 2)))
  | _ => .failed

/-- Random values of one byte. -/
def sampleRandom (b : UInt8) : Draw → Random := fun draw =>
  let bytes (b : UInt8) : Random := ⟨List.replicate 32 b, List.length_replicate⟩
  match draw with
  | .repoKey => bytes 1
  | .nonce => bytes b
  | .request => bytes (b + 1)
  | .poll => bytes (b + 2)
  | .account => bytes (b + 3)
  | .password => bytes (b + 4)
  | .salt => bytes (b + 5)
  | .sid => bytes (b + 6)
  | .jti => bytes (b + 7)
  | .accessJti => bytes (b + 8)

/-- An environment in which nothing fails, at one time. -/
def sampleEnv (now : Time) (b : UInt8) (provider : Net) : Env where
  now _ := now
  random := sampleRandom b
  net
    | .start => some (sampleRelay (sampleId b) .start)
    | .status => some (sampleRelay (sampleId b) .status)
    | _ => some provider
  io _ := some noFaults

/-- Settings for the sample account. -/
def sampleSettings : Settings := ⟨true, str "https://alice.com", some 1, str "https://rpc.com"⟩

theorem length_sampleSeed : (List.replicate 32 7 : Bytes).length = 32 := List.length_replicate

/-- The sample node is opened. -/
def sampleOpen : Event :=
  .opening sampleSettings ⟨List.replicate 32 7, length_sampleSeed⟩ noFaults noFaults

/-- It is opened, a sign-in is started and completed. -/
def sampleSignIn : List Event :=
  let env := sampleEnv 1700000000 2 (sampleProvider "0x100" "0x6553f100" 6)
  [sampleOpen, .action .start env, .action (.poll (sampleId 3) (sampleId 4)) env]

/-- The sign-in leaves evidence. -/
theorem sampleSignIn_runs :
    ((nodes sampleNode).final .init sampleSignIn).db.evidence.isSome = true := by
  decide +kernel

/-- After a sign-in the stored evidence is of the account that it bound. -/
theorem evidence_of_account_sample :
    let db := ((nodes sampleNode).final .init sampleSignIn).db
    ∃ raw e a, db.evidence = some raw ∧ readEvidence sampleNode raw = some e ∧
      Store.account sampleNode.credentials noFaults db = .ok (some a) ∧ a.enabled = true ∧
      e.identity.fid = a.fid ∧ fingerprint e.identity = a.authority := by
  obtain ⟨raw, hraw⟩ := Option.isSome_iff_exists.mp sampleSignIn_runs
  obtain ⟨hevidence, -⟩ := evidence_of_account (K := sampleNode) Json.compact_lawful sampleSignIn
  obtain ⟨e, a, h⟩ := hevidence raw hraw
  exact ⟨raw, e, a, hraw, h⟩

end PurpleSky.Node
