import PurpleSky.Credentials.Run

/-!
# What a step does to the database

* **`step_moves`**: a step that changes the database opened it, made a call that succeeded, or wrote
  evidence.
* `Event.wellTyped`: the values of an event have the types of the source. Clocks are numbers of
  sixty-four bits, random values are 32 bytes, identifiers the digits of 32 bytes.
-/

namespace PurpleSky.Credentials

open Bytes Store

/-! ## Types of the arguments -/

/-- A number of sixty-four bits. -/
def isU64 (n : Nat) : Bool := n < 18446744073709551616

/-- The values of a call have the types of the source. -/
def Call.wellTyped : Call → Bool
  | setEvidence _ => true
  | bindVerified fid _ _ now random => isU64 fid && isU64 now && random.length == 32
  | invalidateAuthority => true
  | issuePassword _ now random salt => isU64 now && random.length == 32 && salt.length == 32
  | revokePassword _ => true
  | authenticate _ _ now sid jti accessJti => isU64 now && isId sid && isId jti && isId accessJti
  | getSession _ now => isU64 now
  | validateRefresh _ now => isU64 now
  | refreshSession _ now jti accessJti => isU64 now && isId jti && isId accessJti
  | deleteSession _ now => isU64 now

/-- The values of an event have the types of the source. -/
def Event.wellTyped : Event → Bool
  | openStore _ _ random => random.length == 32
  | close _ => true
  | call _ _ c => c.wellTyped
  | finish _ _ now => isU64 now

/-- The condition on an event in a state, for runs. -/
def Typed (_ : World) (e : Event) : Prop := e.wellTyped = true

instance (w : World) (e : Event) : Decidable (Typed w e) := inferInstanceAs (Decidable (_ = _))

theorem isU64_iff {n : Nat} : isU64 n = true ↔ n < 18446744073709551616 := decide_eq_true_iff

/-! ## Steps -/

/-- How a step came to the database it leaves. -/
inductive Moves (C : Crates) (w : World) (e : Event) (w' : World) (reply : Reply) : Prop where
  | stays (db : w'.db = w.db)
  | opens (i : Nat) (io : Faults) (random key : Bytes) (event : e = .openStore i io random)
      (run : openKey io w.db random = .ok (key, w'.db))
  | calls (i : Nat) (io : Faults) (c : Call) (key : Bytes) (o : Outcome) (event : e = .call i io c)
      (handle : w.handles i = some ⟨key, none⟩) (run : c.run C io key w.db = .ok o)
      (reply : reply = o.reply) (db : w'.db = o.db)
  | writes (i : Nat) (io : Faults) (now : Nat) (key document : Bytes)
      (event : e = .finish i io now) (handle : w.handles i = some ⟨key, some (.evidence document)⟩)
      (db : w'.db = { w.db with evidence := some document })

theorem step_moves {C : Crates} {w w' : World} {e : Event} {reply : Reply}
    (h : w.step C e = (w', reply)) : Moves C w e w' reply := by
  cases e with
  | openStore i io random =>
      simp only [World.step] at h
      split at h
      · obtain ⟨rfl, rfl⟩ := Prod.mk.inj h
        exact .stays rfl
      · split at h
        · obtain ⟨rfl, rfl⟩ := Prod.mk.inj h
          exact .stays rfl
        · rename_i hopen
          obtain ⟨rfl, rfl⟩ := Prod.mk.inj h
          exact .opens i io random _ rfl hopen
  | close i =>
      obtain ⟨rfl, rfl⟩ := Prod.mk.inj h
      exact .stays rfl
  | call i io c =>
      simp only [World.step] at h
      split at h
      · rename_i key hhandle
        split at h
        · obtain ⟨rfl, rfl⟩ := Prod.mk.inj h
          exact .stays rfl
        · rename_i o hrun
          obtain ⟨rfl, rfl⟩ := Prod.mk.inj h
          exact .calls i io c key o rfl hhandle hrun rfl rfl
      · obtain ⟨rfl, rfl⟩ := Prod.mk.inj h
        exact .stays rfl
  | finish i io now =>
      simp only [World.step] at h
      split at h
      · rename_i key p hhandle
        split at h
        · obtain ⟨rfl, rfl⟩ := Prod.mk.inj h
          exact .stays rfl
        · rename_i hfinish
          obtain ⟨rfl, rfl⟩ := Prod.mk.inj h
          cases p with
          | opening =>
              simp only [Pending.finish, bind_eq_ok, pure_eq_ok, Prod.mk.injEq] at hfinish
              obtain ⟨_, -, -, rfl⟩ := hfinish
              exact .stays rfl
          | evidence document =>
              simp only [Pending.finish, bind_eq_ok, pure_eq_ok, Prod.mk.injEq] at hfinish
              obtain ⟨_, hwrite, -, rfl⟩ := hfinish
              exact .writes i io now key document rfl hhandle (writeEvidence_eq_ok hwrite)
          | token kind t a c now₀ =>
              cases kind <;>
              · simp only [Pending.finish, bind_eq_ok, pure_eq_ok, Prod.mk.injEq] at hfinish
                obtain ⟨_, -, -, rfl⟩ := hfinish
                exact .stays rfl
      · obtain ⟨rfl, rfl⟩ := Prod.mk.inj h
        exact .stays rfl

/-- A handle of the next state was there, or has nothing pending but its opening, or goes on with
what a call left to do. -/
theorem handle_of_step {C : Crates} {w w' : World} {e : Event} {reply : Reply}
    (h : w.step C e = (w', reply)) {i : Nat} {o : Handle} (ho : w'.handles i = some o) :
    w.handles i = some o ∨ o.pending = none ∨
      (o.pending = some .opening ∧ ∃ io random, e = .openStore i io random) ∨
      ∃ io c key out, e = .call i io c ∧ w.handles i = some ⟨key, none⟩ ∧
        c.run C io key w.db = .ok out ∧ o = ⟨key, out.pending⟩ := by
  have set : ∀ {db : Db} {j : Nat} {x : Option Handle} {ms : List Mint} {ds : List Bytes},
      (World.setHandle ⟨db, w.handles, ms, ds⟩ j x).handles i = some o →
        w.handles i = some o ∨ (i = j ∧ x = some o) := by
    intro db j x ms ds ho
    simp only [World.setHandle] at ho
    split at ho
    · rename_i hij
      exact .inr ⟨hij, ho⟩
    · exact .inl ho
  cases e with
  | openStore j io random =>
      simp only [World.step] at h
      split at h
      · obtain ⟨rfl, -⟩ := Prod.mk.inj h
        exact .inl ho
      · split at h
        · obtain ⟨rfl, -⟩ := Prod.mk.inj h
          exact .inl ho
        · obtain ⟨rfl, -⟩ := Prod.mk.inj h
          rcases set ho with ho | ⟨rfl, hopened⟩
          · exact .inl ho
          · obtain rfl := Option.some.inj hopened
            exact .inr (.inr (.inl ⟨rfl, io, random, rfl⟩))
  | close j =>
      obtain ⟨rfl, -⟩ := Prod.mk.inj h
      rcases set ho with ho | ⟨-, ho⟩
      · exact .inl ho
      · cases ho
  | call j io c =>
      simp only [World.step] at h
      split at h
      · rename_i key hhandle
        split at h
        · obtain ⟨rfl, -⟩ := Prod.mk.inj h
          exact .inl ho
        · rename_i out hrun
          obtain ⟨rfl, -⟩ := Prod.mk.inj h
          rcases set ho with ho | ⟨rfl, hout⟩
          · exact .inl ho
          · obtain rfl := Option.some.inj hout
            exact .inr (.inr (.inr ⟨io, c, key, out, rfl, hhandle, hrun, rfl⟩))
      · obtain ⟨rfl, -⟩ := Prod.mk.inj h
        exact .inl ho
  | finish j io now =>
      have later : ∀ {key : Bytes} {p : Pending} {ok : Bool}, p.handle key ok = some o →
          o.pending = none := by
        intro key p ok hp
        cases p with
        | opening =>
            cases ok
            · cases hp
            · obtain rfl := Option.some.inj hp
              rfl
        | _ =>
            obtain rfl := Option.some.inj hp
            rfl
      simp only [World.step] at h
      split at h
      · split at h
        · obtain ⟨rfl, -⟩ := Prod.mk.inj h
          rcases set ho with ho | ⟨-, ho⟩
          · exact .inl ho
          · exact .inr (.inl (later ho))
        · obtain ⟨rfl, -⟩ := Prod.mk.inj h
          rcases set ho with ho | ⟨-, ho⟩
          · exact .inl ho
          · exact .inr (.inl (later ho))
      · obtain ⟨rfl, -⟩ := Prod.mk.inj h
        exact .inl ho

/-- No call writes evidence. The first step of `set_evidence` checks it. -/
theorem evidence_of_run {C : Crates} {io : Faults} {key : Bytes} {db : Db} {c : Call} {o : Outcome}
    (h : c.run C io key db = .ok o) :
    (∀ d ∈ o.db.evidence, d ∈ db.evidence) ∧
      ∀ d, o.pending = some (.evidence d) → checkEvidence C io db d = .ok () ∧ o.db = db := by
  cases c with
  | setEvidence document =>
      simp only [Call.run, bind_eq_ok, pure_eq_ok] at h
      obtain ⟨_, hcheck, rfl⟩ := h
      refine ⟨fun _ hd => hd, fun d hd => ?_⟩
      obtain rfl := Pending.evidence.inj (Option.some.inj hd)
      exact ⟨hcheck, rfl⟩
  | bindVerified fid authority identity now random =>
      simp only [Call.run, bind_eq_ok, pure_eq_ok, Prod.exists] at h
      obtain ⟨a, db', hbind, rfl⟩ := h
      obtain ⟨⟨_, rfl⟩, -⟩ := bindVerified_eq_ok hbind
      exact ⟨fun _ hd => hd, by simp⟩
  | invalidateAuthority =>
      simp only [Call.run, bind_eq_ok, pure_eq_ok] at h
      obtain ⟨db', hinv, rfl⟩ := h
      obtain ⟨-, -, hnone, -⟩ := invalidateAuthority_eq_ok hinv
      exact ⟨by simp [hnone], by simp⟩
  | issuePassword name now random salt =>
      simp only [Call.run, bind_eq_ok, pure_eq_ok, Prod.exists] at h
      obtain ⟨p, db', hissue, rfl⟩ := h
      obtain ⟨-, -, -, -, -, hsame⟩ := Db.insertPassword_eq_some (issuePassword_eq_ok hissue).2
      exact ⟨by simp [hsame], by simp⟩
  | revokePassword name =>
      simp only [Call.run, bind_eq_ok, pure_eq_ok] at h
      obtain ⟨db', hrevoke, rfl⟩ := h
      obtain rfl := revokePassword_eq_ok hrevoke
      exact ⟨fun _ hd => hd, by simp⟩
  | authenticate identifier password now sid jti accessJti =>
      simp only [Call.run, bind_eq_ok, pure_eq_ok, Prod.exists] at h
      obtain ⟨s, db', hauth, rfl⟩ := h
      obtain ⟨a, name, db₁, hbegin, -, hcommit⟩ := authenticate_eq_ok hauth
      obtain ⟨-, -, -, rfl⟩ := beginAuthenticate_eq_ok hbegin
      obtain ⟨-, -, -, -, -, hsame⟩ := Db.insertSession_eq_some (commitSession_eq_ok hcommit)
      refine ⟨fun d hd => ?_, by simp⟩
      rw [hsame] at hd
      exact hd
  | getSession access now =>
      simp only [Call.run, bind_eq_ok, pure_eq_ok, Prod.exists] at h
      obtain ⟨a, claims, -, rfl⟩ := h
      exact ⟨fun _ hd => hd, by simp⟩
  | validateRefresh refresh now =>
      simp only [Call.run, bind_eq_ok, pure_eq_ok, Prod.exists] at h
      obtain ⟨a, claims, -, rfl⟩ := h
      exact ⟨fun _ hd => hd, by simp⟩
  | refreshSession refresh now jti accessJti =>
      simp only [Call.run, bind_eq_ok, pure_eq_ok, Prod.exists] at h
      obtain ⟨s, db', hrefresh, rfl⟩ := h
      obtain ⟨a, claims, -, -, hcommit⟩ := refreshSession_eq_ok hrefresh
      obtain ⟨-, rfl⟩ := commitRefresh_eq_ok hcommit
      exact ⟨fun _ hd => hd, by simp⟩
  | deleteSession refresh now =>
      simp only [Call.run, bind_eq_ok, pure_eq_ok] at h
      obtain ⟨db', hdelete, rfl⟩ := h
      obtain ⟨a, claims, -, rfl⟩ := deleteSession_eq_ok hdelete
      exact ⟨fun _ hd => hd, by simp⟩

end PurpleSky.Credentials
