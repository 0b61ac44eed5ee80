import PurpleSky.Credentials.Moves

/-!
# The binding of an account

An account row holds the text of an account that `bind_verified` made (`Genuine`), and later calls
only change whether it is enabled and, while it is not, its authority.

* **`stored_init`**, **`keeps_stored`**: this holds in every run.
* **`account_change`**: what a step does to the account.
* **`binding_immutable`**: nothing else of the account changes, the key of the store does not, and
  the repository is always the one that was bound.
-/

namespace PurpleSky.Credentials

open Bytes Store

/-! ## Genuine accounts -/

/-- An account as `bind_verified` makes it: checked values, and an empty repository under the
repository key with the recorded root and public key. -/
structure Genuine (C : Crates) (a : Account) (key : Bytes) : Prop where
  identity : a.identity.validate C = .ok ()
  fid_ne : a.fid ≠ 0
  fid_lt : a.fid < 9223372036854775808
  authority : validAuthority a.authority = true
  createdAt_lt : a.createdAt < 18446744073709551616
  revision : a.repoRevision = Credentials.revision a.createdAt
  key_length : key.length = 32
  repo : ∃ signer repo, C.signingKey key = some signer ∧
    Repo.build sha2 C.ecdsa a.identity.did a.repoRevision Repo.RecordSet.new signer = .ok repo ∧
    repo.root.text = a.repoCid ∧
    a.publicKeyMultibase = 122 :: C.base58 (0xe7 :: 0x01 :: Repo.publicKeySec1 C.ecdsa signer)

/-- The account row holds a genuine account. -/
structure Bound (C : Crates) (db : Db) (a : Account) (key : Bytes) : Prop where
  row : db.account = some ⟨encodeAccount C a, key⟩
  genuine : Genuine C a key

/-- An account row, if there is one, holds a genuine account. -/
def Stored (C : Crates) (db : Db) : Prop := db.account = none ∨ ∃ a key, Bound C db a key

variable {C : Crates} {io : Faults} {db db' : Db} {a b : Account} {key : Bytes}

/-- The authority and the state of an account are no part of what makes it genuine, but for the form
of the authority. -/
theorem Genuine.again (h : Genuine C a key) {enabled : Bool} {authority : Bytes}
    (hauth : validAuthority authority = true) :
    Genuine C { a with enabled := enabled, authority := authority } key :=
  ⟨h.identity, h.fid_ne, h.fid_lt, hauth, h.createdAt_lt, h.revision, h.key_length, h.repo⟩

theorem Identity.plain_toJson (i : Identity) (n : Nat) : i.toJson.Plain (n + 1) := by
  refine .object fun f hf => ?_
  simp only [Identity.names, List.zip_cons_cons, List.zip_nil_right, List.mem_cons,
    List.not_mem_nil, or_false] at hf
  rcases hf with rfl | rfl | rfl | rfl <;> exact .string _ _

theorem Account.plain_toJson (a : Account) (hfid : a.fid < 18446744073709551616)
    (htime : a.createdAt < 18446744073709551616) : a.toJson.Plain 127 := by
  refine .object fun f hf => ?_
  simp only [Account.names, List.zip_cons_cons, List.zip_nil_right, List.mem_cons,
    List.not_mem_nil, or_false] at hf
  rcases hf with rfl | rfl | rfl | rfl | rfl | rfl | rfl | rfl
  · exact .integer _ (by omega) (by omega)
  · exact .string _ _
  · exact a.identity.plain_toJson _
  · exact .bool _ _
  · exact .integer _ (by omega) (by omega)
  · exact .string _ _
  · exact .string _ _
  · exact .string _ _

/-! ## Reading a stored account -/

/-- The account an account row holds. -/
def AccountRow.account? (C : Crates) (row : AccountRow) : Option Account :=
  (C.json.parse row.document).bind Account.ofJson?

/-- An account with numbers of sixty-four bits is read as it was written. -/
theorem account?_encodeAccount (hC : C.json.Lawful) (hfid : a.fid < 18446744073709551616)
    (htime : a.createdAt < 18446744073709551616) :
    AccountRow.account? C ⟨encodeAccount C a, key⟩ = some a := by
  rw [AccountRow.account?, encodeAccount, hC.parse_render _ (a.plain_toJson hfid htime),
    Option.bind_some, Account.ofJson?_toJson hfid htime]

theorem Genuine.account? (hC : C.json.Lawful) (h : Genuine C a key) :
    AccountRow.account? C ⟨encodeAccount C a, key⟩ = some a :=
  account?_encodeAccount hC (lt_trans h.fid_lt (by decide)) h.createdAt_lt

theorem loadAccount_eq_none (h : loadAccount C io db = .ok none) : db.account = none := by
  unfold loadAccount at h
  obtain ⟨_, -, h⟩ := bind_eq_ok.mp h
  cases hrow : db.account with
  | none => rfl
  | some row =>
      rw [hrow] at h
      simp only [bind_eq_ok, pure_eq_ok, reduceCtorEq, and_false, exists_false] at h

/-- An account that is read is the one the row holds. -/
theorem account?_of_loadAccount (h : loadAccount C io db = .ok (some a)) :
    ∃ row, db.account = some row ∧ row.account? C = some a := by
  obtain ⟨row, hrow, -, v, hv, ha⟩ := loadAccount_eq_ok h
  refine ⟨row, hrow, ?_⟩
  rw [AccountRow.account?, hv, Option.bind_some, ha]

/-- A genuine account is read as it is, if its text is not too long. -/
theorem Bound.loadAccount (hC : C.json.Lawful) (h : Bound C db a key)
    (hio : io (.select .account) = false) (hlen : (encodeAccount C a).length ≤ 8192) :
    loadAccount C io db = .ok (some a) := by
  have hread := h.genuine.account? hC
  rw [AccountRow.account?, Option.bind_eq_some_iff] at hread
  obtain ⟨v, hv, ha⟩ := hread
  unfold Store.loadAccount
  refine bind_eq_ok.mpr ⟨(), ensure_eq_ok.mpr hio, ?_⟩
  rw [h.row]
  simp only [bind_eq_ok, ensure_eq_ok, okOr_eq_ok, pure_eq_ok]
  exact ⟨(), hlen, v, hv, a, ha, rfl⟩

/-- What is read from a row with a genuine account is that account. -/
theorem Bound.eq_of_loadAccount (hC : C.json.Lawful) (h : Bound C db a key)
    (hload : Store.loadAccount C io db = .ok (some b)) : b = a := by
  obtain ⟨row, hrow, hread⟩ := account?_of_loadAccount hload
  obtain rfl := Option.some.inj (hrow.symm.trans h.row)
  exact Option.some.inj (hread.symm.trans (h.genuine.account? hC))

/-- A row has one account and one key. -/
theorem Bound.unique (hC : C.json.Lawful) {key' : Bytes} (h : Bound C db a key)
    (h' : Bound C db b key') : b = a ∧ key' = key := by
  have hrow := Option.some.inj (h'.row.symm.trans h.row)
  have hread := h'.genuine.account? hC
  rw [hrow] at hread
  refine ⟨Option.some.inj (hread.symm.trans ?_), congrArg AccountRow.repoKey hrow⟩
  obtain rfl : key' = key := congrArg AccountRow.repoKey hrow
  exact h.genuine.account? hC

/-- The account that is read from a stored row. -/
theorem Stored.bound (hC : C.json.Lawful) (h : Stored C db)
    (hload : loadAccount C io db = .ok (some a)) : ∃ key, Bound C db a key := by
  rcases h with h | ⟨b, key, hb⟩
  · obtain ⟨row, hrow, -⟩ := loadAccount_eq_ok hload
    rw [h] at hrow
    cases hrow
  · obtain rfl := hb.eq_of_loadAccount hC hload
    exact ⟨key, hb⟩

/-! ## What binding does -/

theorem newAccount_eq_ok {fid now : Nat} {authority random : Bytes} {identity : Identity}
    (h : newAccount C fid authority identity now random = .ok a) :
    ∃ signer repo, C.signingKey random = some signer ∧
      Repo.build sha2 C.ecdsa identity.did (revision now) Repo.RecordSet.new signer = .ok repo ∧
      a = ⟨fid, authority, identity, true, now,
        122 :: C.base58 (0xe7 :: 0x01 :: Repo.publicKeySec1 C.ecdsa signer), revision now,
        repo.root.text⟩ := by
  unfold newAccount at h
  obtain ⟨signer, hsigner, h⟩ := bind_eq_ok.mp h
  split at h
  · cases h
  · rename_i repo hrepo
    exact ⟨signer, repo, okOr_eq_ok.mp hsigner, hrepo, (pure_eq_ok.mp h).symm⟩

/-- The first binding makes a genuine account. -/
theorem bindVerified_of_none {fid now : Nat} {authority random : Bytes} {identity : Identity}
    (h : bindVerified C io db fid authority identity now random = .ok (a, db'))
    (hnone : db.account = none) (hnow : now < 18446744073709551616) (hrandom : random.length = 32) :
    newAccount C fid authority identity now random = .ok a ∧ Bound C db' a random ∧
      db' = { db with account := some ⟨encodeAccount C a, random⟩ } := by
  unfold bindVerified at h
  obtain ⟨_, hid, h⟩ := bind_eq_ok.mp h
  obtain ⟨_, hargs, h⟩ := bind_eq_ok.mp h
  obtain ⟨_, -, h⟩ := bind_eq_ok.mp h
  obtain ⟨old, hold, h⟩ := bind_eq_ok.mp h
  obtain ⟨hfid, hlt, hauth⟩ := ensure_eq_ok.mp hargs
  cases old with
  | some old =>
      obtain ⟨row, hrow, -⟩ := loadAccount_eq_ok hold
      rw [hnone] at hrow
      cases hrow
  | none =>
      simp only [bind_eq_ok, pure_eq_ok, Prod.mk.injEq] at h
      obtain ⟨new, hnew, _, -, _, -, rfl, rfl⟩ := h
      obtain ⟨signer, repo, hsigner, hrepo, rfl⟩ := newAccount_eq_ok hnew
      exact ⟨hnew, ⟨rfl, hid, hfid, hlt, hauth, hnow, rfl, hrandom, signer, repo, hsigner, hrepo, rfl,
        rfl⟩, rfl⟩

/-- Binding again keeps the account, enables it, and keeps its authority if it was enabled. -/
theorem bindVerified_of_bound (hC : C.json.Lawful) {fid now : Nat} {authority random : Bytes}
    {identity : Identity} (hb : Bound C db b key)
    (h : bindVerified C io db fid authority identity now random = .ok (a, db')) :
    Bound C db' a key ∧ a = { b with enabled := true, authority := authority } ∧
      (b.enabled = true → authority = b.authority) ∧
      db' = { db with account := some ⟨encodeAccount C a, key⟩ } := by
  unfold bindVerified at h
  obtain ⟨_, hid, h⟩ := bind_eq_ok.mp h
  obtain ⟨_, hargs, h⟩ := bind_eq_ok.mp h
  obtain ⟨_, -, h⟩ := bind_eq_ok.mp h
  obtain ⟨old, hold, h⟩ := bind_eq_ok.mp h
  cases old with
  | some old =>
      obtain rfl := hb.eq_of_loadAccount hC hold
      simp only [bind_eq_ok, ensure_eq_ok, pure_eq_ok, Prod.mk.injEq] at h
      obtain ⟨_, ⟨-, -, hsame⟩, _, -, _, -, rfl, rfl⟩ := h
      have hset : ∀ document,
        db.setDocument document = { db with account := some ⟨document, key⟩ } := by
        intro document
        rw [Db.setDocument, hb.row]
        rfl
      refine ⟨⟨by rw [hset], hb.genuine.again (ensure_eq_ok.mp hargs).2.2⟩, rfl, ?_, hset _⟩
      intro hen
      by_contra hne
      exact hsame ⟨hen, fun h => hne h.symm⟩
  | none =>
      have hrow := hb.row
      rw [loadAccount_eq_none hold] at hrow
      cases hrow

/-- The calls that write the account row. -/
def Call.rewrites : Call → Bool
  | bindVerified .. => true
  | invalidateAuthority => true
  | _ => false

/-- What a call does to the account. -/
inductive AccountChange (C : Crates) (c : Call) (reply : Reply) (db db' : Db) : Prop where
  | same (account : db'.account = db.account) (quiet : c.rewrites = false)
  | first (fid now : Nat) (authority random : Bytes) (identity : Identity) (a : Account)
      (call : c = .bindVerified fid authority identity now random) (reply : reply = .bound a)
      (none : db.account = none) (new : newAccount C fid authority identity now random = .ok a)
      (bound : Bound C db' a random) (db : db' = { db with account := some ⟨encodeAccount C a, random⟩ })
  | again (fid now : Nat) (authority random key : Bytes) (identity : Identity) (b a : Account)
      (call : c = .bindVerified fid authority identity now random) (reply : reply = .bound a)
      (old : Bound C db b key) (bound : Bound C db' a key)
      (account : a = { b with enabled := true, authority := authority })
      (authority : b.enabled = true → authority = b.authority)
      (db : db' = { db with account := some ⟨encodeAccount C a, key⟩ })
  | disabled (key : Bytes) (a : Account) (call : c = .invalidateAuthority)
      (old : Bound C db a key) (bound : Bound C db' { a with enabled := false } key)
      (passwords : db'.passwords.rows = []) (sessions : db'.sessions.rows = [])
      (evidence : db'.evidence = none)

theorem Call.account_change (hC : C.json.Lawful) (hdb : Stored C db) {c : Call} {o : Outcome}
    {jwtKey : Bytes} (hc : c.wellTyped = true) (h : c.run C io jwtKey db = .ok o) :
    AccountChange C c o.reply db o.db := by
  cases c with
  | setEvidence document =>
      simp only [run, bind_eq_ok, pure_eq_ok] at h
      obtain ⟨_, -, rfl⟩ := h
      exact .same rfl rfl
  | bindVerified fid authority identity now random =>
      simp only [run, bind_eq_ok, pure_eq_ok, Prod.exists] at h
      obtain ⟨a, db', hbind, rfl⟩ := h
      simp only [wellTyped, Bool.and_eq_true, isU64_iff, beq_iff_eq] at hc
      rcases hdb with hnone | ⟨b, key, hb⟩
      · obtain ⟨hnew, hbound, hdb'⟩ := bindVerified_of_none hbind hnone hc.1.2 hc.2
        exact .first fid now authority random identity a rfl rfl hnone hnew hbound hdb'
      · obtain ⟨hbound, ha, hauth, hdb'⟩ := bindVerified_of_bound hC hb hbind
        exact .again fid now authority random key identity b a rfl rfl hb hbound ha hauth hdb'
  | invalidateAuthority =>
      simp only [run, bind_eq_ok, pure_eq_ok] at h
      obtain ⟨db', hinv, rfl⟩ := h
      obtain ⟨hpasswords, hsessions, hevidence, -, a, key', hload, hrow⟩ :=
        invalidateAuthority_eq_ok hinv
      obtain ⟨key, hb⟩ := hdb.bound hC hload
      refine .disabled key a rfl hb ⟨?_, hb.genuine.again hb.genuine.authority⟩ hpasswords hsessions
        hevidence
      simp only [Store.invalidateAuthority, bind_eq_ok, okOr_eq_ok, pure_eq_ok] at hinv
      obtain ⟨_, -, _, ha', _, rfl, _, -, _, -, _, -, _, -, rfl⟩ := hinv
      obtain rfl := Option.some.inj (Except.ok.inj (ha'.symm.trans hload))
      show Option.map _ db.account = _
      rw [hb.row]
      rfl
  | issuePassword name now random salt =>
      simp only [run, bind_eq_ok, pure_eq_ok, Prod.exists] at h
      obtain ⟨p, db', hissue, rfl⟩ := h
      exact .same (Db.insertPassword_eq_some (issuePassword_eq_ok hissue).2).2.2.2.2.1 rfl
  | revokePassword name =>
      simp only [run, bind_eq_ok, pure_eq_ok] at h
      obtain ⟨db', hrevoke, rfl⟩ := h
      obtain rfl := revokePassword_eq_ok hrevoke
      exact .same rfl rfl
  | authenticate identifier password now sid jti accessJti =>
      simp only [run, bind_eq_ok, pure_eq_ok, Prod.exists] at h
      obtain ⟨s, db', hauth, rfl⟩ := h
      obtain ⟨a, name, db₁, hbegin, -, hcommit⟩ := authenticate_eq_ok hauth
      obtain ⟨-, -, -, rfl⟩ := beginAuthenticate_eq_ok hbegin
      exact .same (Db.insertSession_eq_some (commitSession_eq_ok hcommit)).2.2.2.2.1 rfl
  | getSession access now =>
      simp only [run, bind_eq_ok, pure_eq_ok, Prod.exists] at h
      obtain ⟨a, claims, -, rfl⟩ := h
      exact .same rfl rfl
  | validateRefresh refresh now =>
      simp only [run, bind_eq_ok, pure_eq_ok, Prod.exists] at h
      obtain ⟨a, claims, -, rfl⟩ := h
      exact .same rfl rfl
  | refreshSession refresh now jti accessJti =>
      simp only [run, bind_eq_ok, pure_eq_ok, Prod.exists] at h
      obtain ⟨s, db', hrefresh, rfl⟩ := h
      obtain ⟨a, claims, -, -, hcommit⟩ := refreshSession_eq_ok hrefresh
      obtain ⟨-, rfl⟩ := commitRefresh_eq_ok hcommit
      exact .same rfl rfl
  | deleteSession refresh now =>
      simp only [run, bind_eq_ok, pure_eq_ok] at h
      obtain ⟨db', hdelete, rfl⟩ := h
      obtain ⟨a, claims, -, rfl⟩ := deleteSession_eq_ok hdelete
      exact .same rfl rfl

/-! ## Runs -/

variable {w w' : World} {e : Event} {reply : Reply}

/-- What a step does to the account: nothing, or what the call that it ran does. -/
theorem step_account (hC : C.json.Lawful) (hw : Stored C w.db) (he : e.wellTyped = true)
    (h : w.step C e = (w', reply)) :
    w'.db.account = w.db.account ∨
      ∃ i io c, e = .call i io c ∧ AccountChange C c reply w.db w'.db := by
  rcases step_moves h with hdb | ⟨i, io, random, key, -, hopen⟩ |
    ⟨i, io, c, key, o, rfl, -, hrun, rfl, hdb⟩ | ⟨i, io, now, key, document, -, -, hdb⟩
  · exact .inl (by rw [hdb])
  · exact .inl (openKey_eq_ok hopen).2.2.1
  · rw [hdb]
    exact .inr ⟨i, io, c, rfl, c.account_change hC hw he hrun⟩
  · exact .inl (by rw [hdb])

theorem Stored.of_account_eq (h : Stored C db) (heq : db'.account = db.account) : Stored C db' := by
  rcases h with hnone | ⟨a, key, hb⟩
  · exact .inl (heq.trans hnone)
  · exact .inr ⟨a, key, heq.trans hb.row, hb.genuine⟩

theorem AccountChange.stored {c : Call} (h : AccountChange C c reply db db') (hdb : Stored C db) :
    Stored C db' := by
  cases h with
  | same account => exact hdb.of_account_eq account
  | first fid now authority random identity a call reply none new bound => exact .inr ⟨_, _, bound⟩
  | again fid now authority random key identity b a call reply old bound => exact .inr ⟨_, _, bound⟩
  | disabled key a call old bound => exact .inr ⟨_, _, bound⟩

/-- The handles go with the store, and the account row holds a genuine account. -/
structure Standing (C : Crates) (w : World) : Prop extends Held C w where
  stored : Stored C w.db

theorem standing_init (C : Crates) : Standing C World.init where
  keys := by simp [World.init]
  pending := by simp [World.init]
  stored := .inl rfl

theorem keeps_standing (hC : C.json.Lawful) :
    (stores C).Keeps Typed (Standing C) (Standing C) := by
  intro w e hw he _
  generalize hstep : w.step C e = p
  obtain ⟨w', reply⟩ := p
  have hafter : ((stores C).step w e).1 = w' := congrArg Prod.fst hstep
  rw [hafter]
  refine ⟨step_handles hstep hw.toHeld, ?_⟩
  rcases step_account hC hw.stored he hstep with hsame | ⟨_, _, _, -, hchange⟩
  · exact hw.stored.of_account_eq hsame
  · exact hchange.stored hw.stored

/-- What a binding fixes for good. -/
def Account.binding (a : Account) : Nat × Identity × Nat × Bytes × Bytes × Bytes :=
  (a.fid, a.identity, a.createdAt, a.publicKeyMultibase, a.repoRevision, a.repoCid)

/-- An account with this binding and this key is there. -/
def BoundTo (C : Crates) (a : Account) (key : Bytes) (w : World) : Prop :=
  ∃ b, Bound C w.db b key ∧ b.binding = a.binding

theorem keeps_boundTo (hC : C.json.Lawful) (a : Account) (key : Bytes) :
    (stores C).Keeps Typed (Standing C) (BoundTo C a key) := by
  intro w e hw he ⟨b, hb, hbinding⟩
  generalize hstep : w.step C e = p
  obtain ⟨w', reply⟩ := p
  have hafter : ((stores C).step w e).1 = w' := congrArg Prod.fst hstep
  rw [hafter]
  rcases step_account hC hw.stored he hstep with hsame | ⟨_, _, _, -, hchange⟩
  · exact ⟨b, ⟨hsame.trans hb.row, hb.genuine⟩, hbinding⟩
  · cases hchange with
    | same account => exact ⟨b, ⟨account.trans hb.row, hb.genuine⟩, hbinding⟩
    | first fid now authority random identity a' call reply none =>
        have hrow := hb.row
        rw [none] at hrow
        cases hrow
    | again fid now authority random key' identity b' a' call reply old bound account =>
        obtain ⟨rfl, rfl⟩ := hb.unique hC old
        exact ⟨a', bound, by rw [← hbinding, account]; rfl⟩
    | disabled key' a' call old bound =>
        obtain ⟨rfl, rfl⟩ := hb.unique hC old
        exact ⟨_, bound, hbinding⟩

theorem keeps_jwtKey (C : Crates) (key : Bytes) :
    (stores C).Keeps Typed (Standing C) fun w => w.db.jwtKey = some key := by
  intro w e hw he hkey
  generalize hstep : w.step C e = p
  obtain ⟨w', reply⟩ := p
  have hafter : ((stores C).step w e).1 = w' := congrArg Prod.fst hstep
  rw [hafter]
  rcases step_moves hstep with hdb | ⟨i, io, random, key', -, hopen⟩ |
    ⟨i, io, c, key', o, rfl, -, hrun, rfl, hdb⟩ | ⟨i, io, now, key', document, -, -, hdb⟩
  · rw [hdb, hkey]
  · obtain ⟨hnew, hold, -⟩ := openKey_eq_ok hopen
    rw [hnew, hold key hkey]
  · rw [hdb, (Call.run_sessions hrun).1, hkey]
  · rw [hdb]
    exact hkey

/-- The repository of a genuine account is the one that was bound. -/
theorem Bound.repository (hC : C.json.Lawful) (hE : C.ecdsa.Lawful) (h : Bound C db a key)
    {repo : Repo.Repository} (hrepo : Store.repository C io db = .ok repo) :
    repo.root.text = a.repoCid ∧ ∃ signer, C.signingKey key = some signer ∧
      a.publicKeyMultibase = 122 :: C.base58 (0xe7 :: 0x01 :: Repo.publicKeySec1 C.ecdsa signer) ∧
      (Cas.CollisionFree (Repo.cidFor sha2) (Repo.allBlocks sha2 C.ecdsa a.identity.did
        a.repoRevision Repo.RecordSet.new signer) →
        Repo.verify sha2 C.ecdsa repo (Repo.publicKeySec1 C.ecdsa signer) = .ok ()) := by
  simp only [Store.repository, bind_eq_ok, okOr_eq_ok, ensure_eq_ok] at hrepo
  obtain ⟨_, hload, b, rfl, row, hrow, _, -, signer, hsigner, hrepo⟩ := hrepo
  obtain rfl := h.eq_of_loadAccount hC hload
  obtain rfl := Option.some.inj (hrow.symm.trans h.row)
  obtain ⟨signer', repo', hsigner', hbuild, hroot, hkey⟩ := h.genuine.repo
  obtain rfl := Option.some.inj (hsigner.symm.trans hsigner')
  rw [hbuild] at hrepo
  obtain rfl := pure_eq_ok.mp hrepo
  have hvalid := @Repo.valid_new sha2 fun _ => none
  exact ⟨hroot, signer, hsigner', hkey, Repo.verify_of_build hE hvalid hbuild⟩

/-- A step that changes the authority of an account binds an account that it finds disabled. -/
theorem authority_of_step (hC : C.json.Lawful) (hw : Stored C w.db) (he : e.wellTyped = true)
    (h : w.step C e = (w', reply)) {row row' : AccountRow} (hrow : w.db.account = some row)
    (hrow' : w'.db.account = some row') (ha : row.account? C = some a)
    (hb : row'.account? C = some b) (hne : a.authority ≠ b.authority) :
    a.enabled = false ∧ reply = .bound b ∧ ∃ i io fid authority identity now random,
      e = .call i io (.bindVerified fid authority identity now random) := by
  have hread : ∀ {db : Db} {row : AccountRow} {a c : Account} {key : Bytes}, Bound C db c key →
      db.account = some row → row.account? C = some a → a = c := by
    intro db row a c key hbound hrow ha
    obtain rfl := Option.some.inj (hrow.symm.trans hbound.row)
    exact Option.some.inj (ha.symm.trans (hbound.genuine.account? hC))
  have hsame : w'.db.account = w.db.account → a = b := by
    intro h
    obtain rfl := Option.some.inj (hrow'.symm.trans (h.trans hrow))
    exact Option.some.inj (ha.symm.trans hb)
  rcases step_account hC hw he h with heq | ⟨i, io, c, hcall, hchange⟩
  · exact absurd (congrArg Account.authority (hsame heq)) hne
  · cases hchange with
    | same heq => exact absurd (congrArg Account.authority (hsame heq)) hne
    | first fid now authority random identity a' call reply none =>
        rw [none] at hrow
        cases hrow
    | again fid now authority random key identity b' a' call reply old bound account hauthority =>
        obtain rfl := hread old hrow ha
        obtain rfl := hread bound hrow' hb
        refine ⟨?_, reply, i, io, fid, authority, identity, now, random, hcall.trans (by rw [call])⟩
        rw [Bool.eq_false_iff]
        intro hen
        apply hne
        rw [account]
        exact (hauthority hen).symm
    | disabled key a' call old bound =>
        obtain rfl := hread old hrow ha
        obtain rfl := hread bound hrow' hb
        exact absurd rfl hne

/-- **The binding is immutable.** In every run, an account that is there keeps what its binding
fixed and its repository key, the store keeps its key and every handle has it, the repository is the
one that was bound, and the authority changes only when an account is bound that was found disabled.
-/
theorem binding_immutable {C : Crates} (hC : C.json.Lawful) (hE : C.ecdsa.Lawful)
    (es₁ es₂ : List Event) (hes : (stores C).Meets Typed World.init (es₁ ++ es₂)) :
    let w₁ := (stores C).final World.init es₁
    let w₂ := (stores C).final World.init (es₁ ++ es₂)
    (∀ row₁, w₁.db.account = some row₁ → ∃ row₂ a₁ a₂, w₂.db.account = some row₂ ∧
      row₁.account? C = some a₁ ∧ row₂.account? C = some a₂ ∧ a₂.binding = a₁.binding ∧
      row₂.repoKey = row₁.repoKey) ∧
    (∀ key, w₁.db.jwtKey = some key → w₂.db.jwtKey = some key ∧
      ∀ i o, w₂.handles i = some o → o.jwtKey = key) ∧
    (∀ io repo, Store.repository C io w₂.db = .ok repo → ∃ row a signer,
      w₂.db.account = some row ∧ row.account? C = some a ∧ C.signingKey row.repoKey = some signer ∧
      repo.root.text = a.repoCid ∧
      a.publicKeyMultibase = 122 :: C.base58 (0xe7 :: 0x01 :: Repo.publicKeySec1 C.ecdsa signer) ∧
      (Cas.CollisionFree (Repo.cidFor sha2) (Repo.allBlocks sha2 C.ecdsa a.identity.did
        a.repoRevision Repo.RecordSet.new signer) →
        Repo.verify sha2 C.ecdsa repo (Repo.publicKeySec1 C.ecdsa signer) = .ok ())) ∧
    ∀ x ∈ (stores C).trace World.init (es₁ ++ es₂), ∀ row row' a b,
      x.before.db.account = some row → x.after.db.account = some row' →
      row.account? C = some a → row'.account? C = some b → a.authority ≠ b.authority →
        a.enabled = false ∧ x.reply = .bound b ∧ ∃ i io fid authority identity now random,
          x.event = .call i io (.bindVerified fid authority identity now random) := by
  intro w₁ w₂
  obtain ⟨hes₁, hes₂⟩ := Machine.meets_append.mp hes
  have hw₁ : Standing C w₁ := hes₁.invariant (keeps_standing hC) (standing_init C)
  have hw₂ : Standing C w₂ := hes.invariant (keeps_standing hC) (standing_init C)
  have hfinal : w₂ = (stores C).final w₁ es₂ := Machine.final_append _ _ _
  have hlater : ∀ {D : World → Prop}, (stores C).Keeps Typed (Standing C) D → D w₁ → D w₂ := by
    intro D hD hd
    rw [hfinal]
    exact (hes₂.invariant (I := fun w => Standing C w ∧ D w)
      (fun w e h ha _ => ⟨keeps_standing hC w e h.1 ha h.1, hD w e h.1 ha h.2⟩) ⟨hw₁, hd⟩).2
  refine ⟨fun row₁ hrow₁ => ?_, fun key hkey => ?_, fun io repo hrepo => ?_, ?_⟩
  · rcases hw₁.stored with hnone | ⟨a₁, key, hb₁⟩
    · rw [hnone] at hrow₁
      cases hrow₁
    · obtain rfl := Option.some.inj (hrow₁.symm.trans hb₁.row)
      obtain ⟨a₂, hb₂, hbinding⟩ := hlater (keeps_boundTo hC a₁ key) ⟨a₁, hb₁, rfl⟩
      exact ⟨_, a₁, a₂, hb₂.row, hb₁.genuine.account? hC, hb₂.genuine.account? hC, hbinding, rfl⟩
  · have hkey₂ : w₂.db.jwtKey = some key := hlater (keeps_jwtKey C key) hkey
    refine ⟨hkey₂, fun i o ho => ?_⟩
    exact Option.some.inj ((hw₂.keys i o ho).symm.trans hkey₂)
  · rcases hw₂.stored with hnone | ⟨a, key, hb⟩
    · simp only [Store.repository, bind_eq_ok, okOr_eq_ok] at hrepo
      obtain ⟨_, -, _, -, row, hrow, -⟩ := hrepo
      rw [hnone] at hrow
      cases hrow
    · obtain ⟨hroot, signer, hsigner, hkey, hverify⟩ := hb.repository hC hE hrepo
      exact ⟨_, a, signer, hb.row, hb.genuine.account? hC, hsigner, hroot, hkey, hverify⟩
  · intro x hx row row' a b hrow hrow' ha hb hne
    obtain ⟨hstep, hw, he⟩ := hes.entries (keeps_standing hC) (standing_init C) x hx
    rw [hstep] at hrow' ⊢
    exact authority_of_step hC hw.stored he rfl hrow hrow' ha hb hne

/-- After a login, the authority is invalidated and the account bound to another one. -/
def sampleRebinding : List Event :=
  [.call 0 noFaults .invalidateAuthority,
    .call 1 noFaults (.bindVerified 1 (str "0xa2") sampleIdentity 1700000200 (List.replicate 32 1))]

theorem sampleRebinding_runs :
    (stores sampleCrates).Meets Typed World.init (sampleLogin ++ sampleRebinding) ∧
      (((stores sampleCrates).final World.init sampleLogin).db.account.bind fun row =>
        row.account? sampleCrates).map Account.authority = some (str "0xa1") ∧
      (((stores sampleCrates).final World.init (sampleLogin ++ sampleRebinding)).db.account.bind
        fun row => row.account? sampleCrates).map Account.authority = some (str "0xa2") := by
  decide +kernel

/-- A binding that was replaced kept all but its authority. -/
theorem binding_immutable_sample : ∃ row₁ row₂ a₁ a₂,
    ((stores sampleCrates).final World.init sampleLogin).db.account = some row₁ ∧
      ((stores sampleCrates).final World.init (sampleLogin ++ sampleRebinding)).db.account =
        some row₂ ∧
      row₁.account? sampleCrates = some a₁ ∧ row₂.account? sampleCrates = some a₂ ∧
      a₂.binding = a₁.binding ∧ a₁.authority = str "0xa1" ∧ a₂.authority = str "0xa2" := by
  obtain ⟨hruns, h₁, h₂⟩ := sampleRebinding_runs
  simp only [Option.map_eq_some_iff, Option.bind_eq_some_iff] at h₁ h₂
  obtain ⟨b₁, ⟨row₁, hrow₁, hb₁⟩, hauth₁⟩ := h₁
  obtain ⟨b₂, ⟨row₂', hrow₂', hb₂⟩, hauth₂⟩ := h₂
  obtain ⟨hkeep, -⟩ := binding_immutable Json.compact_lawful (Repo.tableEcdsa_lawful _ _ _ _)
    sampleLogin sampleRebinding hruns
  obtain ⟨row₂, a₁, a₂, hrow₂, ha₁, ha₂, hbinding, -⟩ := hkeep row₁ hrow₁
  obtain rfl := Option.some.inj (hb₁.symm.trans ha₁)
  obtain rfl := Option.some.inj (hrow₂'.symm.trans hrow₂)
  obtain rfl := Option.some.inj (hb₂.symm.trans ha₂)
  exact ⟨row₁, row₂', b₁, b₂, hrow₁, hrow₂, ha₁, ha₂, hbinding, hauth₁, hauth₂⟩

end PurpleSky.Credentials
