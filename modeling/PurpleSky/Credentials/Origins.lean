import PurpleSky.Credentials.Live

/-!
# Where credentials come from, in a part of a run

What `live_credentials` says of whole runs, for a part of one that starts anywhere: a password or a
session that is there at its end was there at its beginning, under the same authority, or was made
by one of its steps.

* `Admits`: the password row that a login was let in by.
* **`issues_in_part`**, **`creates_in_part`**: passwords and sessions.
* **`authority_in_part`**: an authority that is in force after steps that bind nothing was in force
  before them.
-/

namespace PurpleSky.Credentials

open Bytes Store Machine

variable {C : Crates} {io : Faults} {key : Bytes} {db db' : Db} {w : World} {es : List Event}

/-! ## Logging in -/

theorem fits_of_matchPassword {password : Bytes} {rows : List Password} {found name : Option Bytes}
    (h : matchPassword password rows found = .ok name) :
    name = found ∨ ∃ p ∈ rows, name = some p.name ∧ passwordHash p.salt password = p.verifier := by
  induction rows generalizing found with
  | nil =>
      obtain rfl := Except.ok.inj h
      exact .inl rfl
  | cons p rows ih =>
      unfold matchPassword at h
      obtain ⟨_, -, h⟩ := bind_eq_ok.mp h
      rcases ih h with hname | ⟨q, hq, hname⟩
      · split at hname
        · rename_i hfit
          exact .inr ⟨p, List.mem_cons_self, hname, hfit⟩
        · exact .inl hname
      · exact .inr ⟨q, List.mem_cons_of_mem _ hq, hname⟩

/-- A password row is there, has a name and fits a password. -/
structure Admits (db : Db) (p : Password) (name password : Bytes) : Prop where
  mem : p ∈ db.passwords.rows
  name : p.name = name
  fits : passwordHash p.salt password = p.verifier

theorem admits_of_verifyPassword {identifier password name : Bytes} {a : Account}
    (h : verifyPassword C io db identifier password = .ok (a, name)) :
    ∃ p, Admits db p name password := by
  simp only [verifyPassword, bind_eq_ok, ensure_eq_ok, okOr_eq_ok, pure_eq_ok, Prod.mk.injEq,
    mapError_eq_ok] at h
  obtain ⟨_, -, _, -, _, -, found, hfound, _, -, name', hname, rfl, rfl⟩ := h
  rcases fits_of_matchPassword hfound with h | ⟨p, hp, h, hfits⟩
  · rw [hname] at h
    cases h
  · rw [hname] at h
    exact ⟨p, List.mem_of_mem_take hp, (Option.some.inj h).symm, hfits⟩

/-- A login that makes a session was let in by a password row, whose name the session has. -/
theorem admits_of_authenticate {identifier password sid jti accessJti : Bytes} {now : Nat}
    {r : Session}
    (h : Store.authenticate C io key db identifier password now sid jti accessJti = .ok (r, db')) :
    ∃ p name, Admits db p name password ∧
      ∀ s ∈ db'.sessions.rows, s.id = sid → s.passwordName = name := by
  obtain ⟨a, name, db₁, hbegin, -, hcommit⟩ := authenticate_eq_ok h
  have hverify : ∃ a', verifyPassword C io db identifier password = .ok (a', name) := by
    simp only [beginAuthenticate, bind_eq_ok, ensure_eq_ok, pure_eq_ok, Prod.mk.injEq,
      Prod.exists] at hbegin
    obtain ⟨_, -, _, -, a', name', hverify, _, -, _, -, _, -, _, -, -, rfl, -⟩ := hbegin
    exact ⟨a', hverify⟩
  obtain ⟨a', hverify⟩ := hverify
  obtain ⟨p, hadmits⟩ := admits_of_verifyPassword hverify
  refine ⟨p, name, hadmits, fun s hs hid => ?_⟩
  obtain ⟨-, hrows, -⟩ := Db.insertSession_eq_some (commitSession_eq_ok hcommit)
  have hnew : ⟨sid, name, jti, now + refreshSeconds⟩ ∈ db'.sessions.rows := by
    rw [hrows]
    exact List.mem_append_right _ (List.mem_singleton.mpr rfl)
  have hsame := Table.eq_of_key_eq db'.sessions hs hnew hid
  rw [hsame]

/-- A step that creates a session is a call that was let in. -/
theorem admits_of_creates {e : Event} {s : SessionRow} (h : Creates ((stores C).entry w e) s)
    (hs : HasSession s (w.step C e).1.db) :
    ∃ i io identifier password now jti accessJti r p,
      e = .call i io (.authenticate identifier password now s.id jti accessJti) ∧
        (w.step C e).2 = .session r ∧ Admits w.db p s.passwordName password := by
  obtain ⟨i, io, identifier, password, now, jti, accessJti, r, hevent, hreply, -⟩ := h
  obtain rfl : e = _ := hevent
  generalize hstep : w.step C _ = q at hs hreply
  obtain ⟨w', reply⟩ := q
  obtain rfl : reply = .session r := (congrArg Prod.snd hstep).symm.trans hreply
  obtain ⟨key, o, -, hrun, ho, hdb, -, -⟩ := run_of_step hstep (by simp) (by simp)
  simp only [Call.run, bind_eq_ok, pure_eq_ok, Prod.exists] at hrun
  obtain ⟨r', db', hauth, rfl⟩ := hrun
  obtain rfl : w'.db = db' := hdb
  obtain ⟨p, name, hadmits, hname⟩ := admits_of_authenticate hauth
  obtain ⟨t, ht, hid, hpassword, -⟩ := hs
  have hsame : s.passwordName = name := hpassword.symm.trans (hname t ht hid)
  exact ⟨i, io, identifier, password, now, jti, accessJti, r, p, rfl, rfl, hsame ▸ hadmits⟩

/-! ## Parts of a run -/

section

variable (hC : C.json.Lawful) (hw : Live C w) (hes : (stores C).Meets Typed w es)

include hC hw hes

/-- A password that is there after some steps was there before them, or one of them issued it. -/
theorem issues_in_part {p : Password} {authority : Bytes}
    (hp : p ∈ ((stores C).final w es).db.passwords.rows)
    (hauth : liveAuthority C ((stores C).final w es).db = some authority) :
    (p ∈ w.db.passwords.rows ∧ liveAuthority C w.db = some authority) ∨
      ∃ y ∈ (stores C).trace w es, Issues y p := by
  by_cases hbefore : p ∈ w.db.passwords.rows ∧ liveAuthority C w.db = some authority
  · exact .inl hbefore
  · obtain ⟨pre, y, post, htrace, hissues, -⟩ := hes.origin (keeps_live hC) hw
      (R := fun p w => p ∈ w.db.passwords.rows ∧ liveAuthority C w.db = some authority)
      (N := fun y p => Issues y p) hbefore
      (fun w e hw he h => by
        obtain ⟨hsame, hold | hnew⟩ := issues_of_step hC hw he h.1 h.2
        · exact .inl ⟨hold, hsame⟩
        · exact .inr hnew)
      ⟨hp, hauth⟩
    exact .inr ⟨y, htrace ▸ List.mem_append_right _ List.mem_cons_self, hissues⟩

/-- A session that is there after some steps was there before them, or one of them created it. -/
theorem creates_in_part {s : SessionRow} {authority : Bytes}
    (hs : HasSession s ((stores C).final w es).db)
    (hauth : liveAuthority C ((stores C).final w es).db = some authority) :
    (HasSession s w.db ∧ liveAuthority C w.db = some authority) ∨
      ∃ pre y post, (stores C).trace w es = pre ++ y :: post ∧ Creates y s ∧
        HasSession s y.after.db ∧ liveAuthority C y.before.db = some authority := by
  by_cases hbefore : HasSession s w.db ∧ liveAuthority C w.db = some authority
  · exact .inl hbefore
  · obtain ⟨pre, y, post, htrace, ⟨hcreates, hauthority⟩, hafter, -⟩ :=
      hes.origin (keeps_live hC) hw
      (R := fun s w => HasSession s w.db ∧ liveAuthority C w.db = some authority)
      (N := fun y s => Creates y s ∧ liveAuthority C y.before.db = some authority) hbefore
      (fun w e hw he h => by
        obtain ⟨hsame, hold | hnew⟩ := creates_of_step hC hw he h.1 h.2
        · exact .inl ⟨hold, hsame⟩
        · exact .inr ⟨hnew, hsame⟩)
      ⟨hs, hauth⟩
    exact .inr ⟨pre, y, post, htrace, hcreates, hafter.1, hauthority⟩

/-- An authority that is in force after steps that bind nothing was in force before them. -/
theorem authority_in_part {authority : Bytes}
    (hnone : ∀ i io fid authority identity now random,
      .call i io (.bindVerified fid authority identity now random) ∉ es)
    (hauth : liveAuthority C ((stores C).final w es).db = some authority) :
    liveAuthority C w.db = some authority := by
  by_contra hbefore
  have hkeeps : (stores C).Keeps
      (fun w e => Typed w e ∧ ∀ i io fid authority identity now random,
        e ≠ .call i io (.bindVerified fid authority identity now random)) (Live C)
      fun w => liveAuthority C w.db ≠ some authority := by
    rintro w e hw ⟨he, hnot⟩ hbefore hafter
    generalize hstep : (stores C).step w e = q at hafter
    obtain ⟨w', reply⟩ := q
    rcases step_account hC hw.stored he hstep with hsame | ⟨i, io, c, rfl, hchange⟩
    · exact hbefore ((liveAuthority_of_account_eq hsame).symm.trans hafter)
    · cases hchange with
      | same account => exact hbefore ((liveAuthority_of_account_eq account).symm.trans hafter)
      | first fid now authority random identity a call => exact hnot _ _ _ _ _ _ _ (by rw [call])
      | again fid now authority random key identity b a call =>
          exact hnot _ _ _ _ _ _ _ (by rw [call])
      | disabled key a call old bound =>
          rw [bound.liveAuthority_eq hC] at hafter
          cases hafter
  have hmeets : (stores C).Meets (fun w e => Typed w e ∧ ∀ i io fid authority identity now random,
      e ≠ .call i io (.bindVerified fid authority identity now random)) w es := by
    refine meets_iff.mpr fun y hy => ⟨meets_iff.mp hes y hy, fun i io fid _ identity now random h => ?_⟩
    exact hnone _ _ _ _ _ _ _ (h ▸ event_mem_of_mem_trace hy)
  exact hmeets.kept ((keeps_live hC).mono (fun _ _ h => h.1) fun _ h => h) hkeeps hw hbefore hauth

end

end PurpleSky.Credentials
