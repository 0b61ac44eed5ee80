import PurpleSky.Lib.Simulation
import PurpleSky.Credentials.Bearer
import PurpleSky.Credentials.Moves
import PurpleSky.Node.Evidence
import PurpleSky.Node.Routine

/-!
# What a node asks of its store

The store is a machine of its own, with any number of handles and its calls in any order. A node
works it: it opens one handle, makes the calls of its actions on it with its own arguments, clocks
and random values (`Event.Makes`), and answers with what the store answered or then holds
(`Action.Relays`).

* `drives_run`: what each action asks.
* **`service_refines`**: every run of a node is a run of its store, block by block.
-/

namespace PurpleSky.Node

open Bytes Credentials Farcaster Procedure Machine

variable {K : Crates}

/-! ## Calls -/

/-- The actions that check an authority. -/
def Action.checks (action : Action) : Prop :=
  action.gated = true ∨ ∃ id token, action = .poll id token

/-- A token was granted, and the grant is still kept. -/
def Granted (core : Core) (token : Bytes) : Prop := ∃ expires, (hash token, expires) ∈ core.grants

/-- The calls of an action, with their arguments. Evidence and bindings are of what was verified, and
passwords are issued and revoked for a grant. -/
inductive Action.Makes (K : Crates) (core : Core) (env : Env) : Action → Call → Prop
  | rechecked {action : Action} {raw : Bytes} {e : Evidence} {identity : VerifiedIdentity}
      (gated : action.gated = true) (stored : core.db.evidence = some raw)
      (read : readEvidence K raw = some e)
      (returned : ∃ client net, Core.client K core.settings = .ok client ∧
        env.net .recheck = some net ∧
        recheckIdentity K.toCrates client net e.identity e.proof (env.now .authority) =
          .ok identity) :
      Makes K core env action (.setEvidence (encodeEvidence K ⟨identity, e.proof⟩))
  | signedIn {id token : Bytes} {login : Login} {proof : SignedProof} {verified : VerifiedIdentity}
      (consent : Consented K env id token core login proof verified) :
      Makes K core env (.poll id token) (.setEvidence (encodeEvidence K ⟨verified, proof⟩))
  | invalidation {action : Action} (checks : action.checks) :
      Makes K core env action .invalidateAuthority
  | binding {id token : Bytes} {login : Login} {proof : SignedProof} {verified : VerifiedIdentity}
      {identity : Identity} (consent : Consented K env id token core login proof verified)
      (own : core.settings.identity K = .ok identity) :
      Makes K core env (.poll id token) (.bindVerified verified.fid (fingerprint verified) identity
        (env.now (.access .bindVerified)) (env.random .repoKey))
  | issue {token name : Bytes} (granted : Granted core token) :
      Makes K core env (.issue token name) (.issuePassword name
        (env.now (.access .issuePassword)) (env.random .password) (env.random .salt))
  | revoke {token name : Bytes} (granted : Granted core token) :
      Makes K core env (.revoke token name) (.revokePassword name)
  | login {identifier password : Bytes} :
      Makes K core env (.login identifier password) (.authenticate identifier password
        (env.now (.access .authenticate)) (randomToken (env.random .sid))
        (randomToken (env.random .jti)) (randomToken (env.random .accessJti)))
  | session {token : Bytes} :
      Makes K core env (.session token) (.getSession token (env.now (.access .getSession)))
  | preferences {token : Bytes} :
      Makes K core env (.preferences token) (.getSession token (env.now (.access .getSession)))
  | validate {token : Bytes} :
      Makes K core env (.refresh token)
        (.validateRefresh token (env.now (.access .validateRefresh)))
  | refresh {token : Bytes} :
      Makes K core env (.refresh token) (.refreshSession token
        (env.now (.access .refreshSession)) (randomToken (env.random .jti))
        (randomToken (env.random .accessJti)))
  | logout {token : Bytes} :
      Makes K core env (.logout token) (.deleteSession token (env.now (.access .deleteSession)))

/-- The clock of the second step of a call. Storing evidence reads none. -/
def Action.second (env : Env) : Action → Time
  | .session _ => env.now .session
  | .preferences _ => env.now .session
  | .refresh _ => env.now (.access .validateRefresh)
  | _ => env.now .entry

/-- The events of the store that an event of the node makes, all on one handle. -/
inductive Event.Makes (K : Crates) : Process → Event → Credentials.Event → Prop
  | opens {p : Process} {settings : Settings} {random : Random} {io reload : Faults} :
      Makes K p (.opening settings random io reload) (.openStore 0 io random)
  | checks {p : Process} {settings : Settings} {random : Random} {io reload : Faults} :
      Makes K p (.opening settings random io reload) (.finish 0 io 0)
  | refuses {p : Process} {settings : Settings} {random : Random} {io reload : Faults} :
      Makes K p (.opening settings random io reload) (.close 0)
  | calls {core : Core} {action : Action} {env : Env} {c : Call} (io : Faults)
      (makes : action.Makes K core env c) : Makes K (.running core) (.action action env) (.call 0 io c)
  | finishes {p : Process} {action : Action} {env : Env} (io : Faults) :
      Makes K p (.action action env) (.finish 0 io (action.second env))
  | ends {p : Process} {action : Action} {env : Env} : Makes K p (.action action env) (.close 0)
  | stops {p : Process} : Makes K p .stop (.close 0)

/-- The identifiers that an event may draw. -/
def Event.draws : Event → List Bytes
  | .action (.login _ _) env =>
      [randomToken (env.random .sid), randomToken (env.random .jti),
        randomToken (env.random .accessJti)]
  | .action (.refresh _) env =>
      [randomToken (env.random .jti), randomToken (env.random .accessJti)]
  | _ => []

/-- Thirty-two random bytes in hexadecimal digits are an identifier. -/
theorem isId_randomToken (random : Random) : isId (randomToken random) = true := by
  have hlength : (randomToken random).length = 64 := by
    rw [randomToken, length_hexEncode, random.2]
  simp only [isId, hlength, beq_self_eq_true, Bool.true_and, List.all_eq_true]
  exact fun d hd => isHexDigit_of_mem_hexEncode hd

/-- Random values have thirty-two bytes. -/
theorem length_random (random : Random) : (random : Bytes).length = 32 := random.2

/-- A reading of the clock fits in sixty-four bits. -/
theorem isU64_time (now : Time) : isU64 now = true :=
  isU64_iff.mpr (lt_trans now.isLt (by decide))

/-- What a node asks has the types of the source. -/
theorem Event.Makes.wellTyped {p : Process} {e : Event} {d : Credentials.Event}
    (h : e.Makes K p d) : d.wellTyped = true := by
  cases h with
  | opens => simp [Credentials.Event.wellTyped, length_random]
  | checks => rfl
  | refuses => rfl
  | calls io makes =>
      cases makes with
      | binding consent own =>
          obtain ⟨client, net, -, -, hverified⟩ := consent.accepted
          have hfid : isU64 _ = true := isU64_iff.mpr (inRange_of_verify hverified).1
          simp [Credentials.Event.wellTyped, Call.wellTyped, hfid, isU64_time, length_random]
      | _ =>
          simp [Credentials.Event.wellTyped, Call.wellTyped, isU64_time, isId_randomToken,
            length_random]
  | finishes io => exact isU64_time _
  | ends => rfl
  | stops => rfl

/-! ## What is answered -/

/-- A call was answered. -/
def Performed (ys : List Step) (c : Call) (reply : Credentials.Reply) : Prop :=
  ∃ y ∈ ys, ∃ io, y.event = .call 0 io c ∧ y.reply = reply

/-- A call of two steps was answered. -/
def Finished (ys : List Step) (reply : Credentials.Reply) : Prop :=
  ∃ y ∈ ys, ∃ io now, y.event = .finish 0 io now ∧ y.reply = reply

/-- A verified authority was bound, and the answer was the account. -/
def Binds (env : Env) (verified : VerifiedIdentity) (account : Account) (ys : List Step) : Prop :=
  ∃ identity, Performed ys (.bindVerified verified.fid (fingerprint verified) identity
    (env.now (.access .bindVerified)) (env.random .repoKey)) (.bound account)

/-- What an action that returns a value answers is what the store answered to its calls, or holds
when it returns. A Start and a Describe ask nothing, and a Poll that completes nothing answers that
it waits, or what it had answered. -/
def Action.Relays (K : Crates) (core : Core) (env : Env) (value : Json) (db : Db)
    (ys : List Step) : Action → Prop
  | .start => ys = []
  | .poll id token =>
      (ys = [] ∧ (value = waitingJson ∨
        ∃ login, Presented env id token core login ∧ login.completion = some value)) ∨
      ∃ verified account, Binds env verified account ys ∧
        value = completionJson (randomToken (env.random .account)) account
          (env.now .entry + grantTtl)
  | .passwords _ => ∃ io passwords, env.io .listPasswords = some io ∧
      Store.listPasswords io db = .ok passwords ∧
      value = .object [(str "passwords", .array (passwords.map passwordJson))]
  | .issue _ name => ∃ p account io, value = issuedJson p account ∧
      Performed ys (.issuePassword name (env.now (.access .issuePassword)) (env.random .password)
        (env.random .salt)) (.issued p) ∧
      env.io .reload = some io ∧ Store.account K.credentials io db = .ok (some account)
  | .revoke _ name => value = .object [] ∧ Performed ys (.revokePassword name) .done
  | .login identifier password => ∃ s, value = sessionJson s ∧
      Performed ys (.authenticate identifier password (env.now (.access .authenticate))
        (randomToken (env.random .sid)) (randomToken (env.random .jti))
        (randomToken (env.random .accessJti))) (.session s)
  | .session token => ∃ info, value = sessionInfoJson info ∧
      Finished ys (.info .access token info)
  | .preferences token => value = .object [(str "preferences", .array [])] ∧
      ∃ info, Finished ys (.info .access token info)
  | .refresh token => ∃ s, value = sessionJson s ∧
      (∃ info, Finished ys (.info .refresh token info)) ∧
      Performed ys (.refreshSession token (env.now (.access .refreshSession))
        (randomToken (env.random .jti)) (randomToken (env.random .accessJti))) (.session s)
  | .logout token => value = .object [] ∧
      Performed ys (.deleteSession token (env.now (.access .deleteSession))) .done
  | .describe => ys = []
  | .did => ys = [] ∧ ∃ io, env.io .didDocument = some io ∧
      Store.storeDidDocument K.credentials io db = .ok value

/-- Steps of the store that are of an event, and draw no more than some identifiers. A session takes
some. -/
structure Fits (K : Crates) (p : Process) (e : Event) (draws : List Bytes) (ys : List Step) : Prop where
  makes : ∀ y ∈ ys, e.Makes K p y.event
  draws : (ys.flatMap fun y => y.event.draws).Sublist draws
  session : ∀ y ∈ ys, ∀ s, y.reply = .session s → y.event.draws ≠ []

/-- No step of the store makes a session. -/
def Silent (ys : List Step) : Prop := ∀ y ∈ ys, ∀ s, y.reply ≠ .session s

/-- Steps of the store that are those of an event of the node. A session that the store makes is
answered. -/
structure Shows (K : Crates) (x : Machine.Entry Process Event Reply) (ys : List Step) : Prop where
  fits : Fits K x.before x.event x.event.draws ys
  relays : ∀ action env value, x.event = .action action env → x.reply = .ok value →
    ∃ core, x.before = .running core ∧ action.Relays K core env value x.after.db ys
  answers : ∀ y ∈ ys, ∀ s, y.reply = .session s → x.reply = .ok (sessionJson s)

/-- No step at all is of every event. -/
theorem fits_nil (p : Process) (e : Event) (draws : List Bytes) : Fits K p e draws [] :=
  ⟨by simp, List.nil_sublist _, by simp⟩

/-- Steps that draw these values may draw more. -/
theorem Fits.mono {p : Process} {e : Event} {draws draws' : List Bytes} {ys : List Step}
    (h : Fits K p e draws ys) (hdraws : draws.Sublist draws') : Fits K p e draws' ys :=
  ⟨h.makes, h.draws.trans hdraws, h.session⟩

/-- Where nothing is drawn, no session is made. -/
theorem Fits.silent {p : Process} {e : Event} {ys : List Step} (h : Fits K p e [] ys) :
    Silent ys := by
  intro y hy s hreply
  have hnone : ys.flatMap (fun y => y.event.draws) = [] := List.sublist_nil.mp h.draws
  exact h.session y hy s hreply (List.flatMap_eq_nil_iff.mp hnone y hy)

/-- Steps that draw nothing, and then steps of the same event. -/
theorem Fits.append {p : Process} {e : Event} {draws : List Bytes} {ys zs : List Step}
    (h : Fits K p e [] ys) (h' : Fits K p e draws zs) : Fits K p e draws (ys ++ zs) := by
  constructor
  · intro y hy
    rcases List.mem_append.mp hy with hy | hy
    · exact h.makes y hy
    · exact h'.makes y hy
  · rw [List.flatMap_append, List.sublist_nil.mp h.draws, List.nil_append]
    exact h'.draws
  · intro y hy
    rcases List.mem_append.mp hy with hy | hy
    · exact h.session y hy
    · exact h'.session y hy

/-- A step that makes a session draws its identifiers. -/
theorem draws_of_session {C : Credentials.Crates} {w : World} {d : Credentials.Event} {s : Session}
    (h : (w.step C d).2 = .session s) : d.draws ≠ [] := by
  obtain ⟨draws, new, heffect, hdraws⟩ := step_effect (Prod.mk.eta (p := w.step C d)).symm
  rcases heffect.sessions with hshrinks | ⟨m, hm, -⟩
  · exact absurd h (hshrinks.reply s)
  · have hjti : m.claims.jti ∈ draws := (heffect.origin m hm).jti
    rcases hdraws with rfl | rfl
    · cases hjti
    · exact List.ne_nil_of_mem hjti

/-- A single step that an event makes is of it. -/
theorem fits_singleton {C : Credentials.Crates} {p : Process} {e : Event} {d : Credentials.Event}
    (h : e.Makes K p d) (w : World) : Fits K p e d.draws [(stores C).entry w d] := by
  constructor
  · intro y hy
    obtain rfl := List.mem_singleton.mp hy
    exact h
  · simp [Machine.entry]
  · intro y hy s hreply
    obtain rfl := List.mem_singleton.mp hy
    exact draws_of_session hreply

/-- A call that is among some steps is among more. -/
theorem Performed.mono {ys zs : List Step} {c : Call} {reply : Credentials.Reply}
    (h : Performed ys c reply) (hsub : ys ⊆ zs) : Performed zs c reply := by
  obtain ⟨y, hy, hrest⟩ := h
  exact ⟨y, hsub hy, hrest⟩

/-- An answer that is among some steps is among more. -/
theorem Finished.mono {ys zs : List Step} {reply : Credentials.Reply}
    (h : Finished ys reply) (hsub : ys ⊆ zs) : Finished zs reply := by
  obtain ⟨y, hy, hrest⟩ := h
  exact ⟨y, hsub hy, hrest⟩

/-! ## Steps of the store -/

/-- The store has the database of a core, and one handle, which is at rest. -/
structure Linked (core : Core) (w : World) : Prop where
  db : w.db = core.db
  handles : w.handles = fun i => if i = 0 then some ⟨core.jwtKey, none⟩ else none

/-- The store of a node. While the node is stopped nobody has it open. -/
def Process.Linked : Process → World → Prop
  | .stopped db _, w => w.db = db ∧ w.handles = fun _ => none
  | .running core, w => Node.Linked core w

/-- The one handle has the key of the core and waits for nothing. -/
theorem Linked.handle {core : Core} {w : World} (h : Linked core w) :
    w.handles 0 = some ⟨core.jwtKey, none⟩ := by
  rw [h.handles]
  rfl

/-- A handle in the place of the only one. -/
theorem handles_setHandle {w : World} {x y : Option Handle}
    (h : w.handles = fun i => if i = 0 then x else none) :
    (w.setHandle 0 y).handles = fun i => if i = 0 then y else none := by
  funext i
  simp only [World.setHandle, h]
  split
  · rfl
  · rfl

/-- Nobody has the store open. -/
theorem handles_none {w : World} (h : w.handles = fun i => if i = 0 then none else none) :
    w.handles = fun _ => none := by
  simp only [h, ite_self]

/-- Closing the handle leaves the database to nobody. -/
theorem Linked.close {C : Credentials.Crates} {core : Core} {w : World} (h : Linked core w) :
    (w.step C (.close 0)).1.db = core.db ∧ (w.step C (.close 0)).1.handles = fun _ => none := by
  refine ⟨h.db, handles_none (handles_setHandle h.handles)⟩

section

variable {C : Credentials.Crates} {core : Core} {w : World} {io : Faults} {c : Call}

/-- A call that fails leaves the core and its store together. -/
theorem linked_of_error {e : Error} (hs : Linked core w)
    (h : c.run C io core.jwtKey core.db = .error e) :
    Linked core (w.step C (.call 0 io c)).1 ∧ (w.step C (.call 0 io c)).2 = .failed e := by
  rw [← hs.db] at h
  simp only [World.step, hs.handle, h]
  exact ⟨⟨hs.db, hs.handles⟩, trivial⟩

/-- A call of one step. -/
theorem linked_of_ok {reply : Credentials.Reply} {db : Db} (hs : Linked core w)
    (h : c.run C io core.jwtKey core.db = .ok ⟨reply, db, none⟩) :
    Linked { core with db := db } (w.step C (.call 0 io c)).1 ∧
      (w.step C (.call 0 io c)).2 = reply := by
  rw [← hs.db] at h
  simp only [World.step, hs.handle, h]
  exact ⟨⟨rfl, handles_setHandle hs.handles⟩, trivial⟩

/-- A call of two steps stays together with its core when the second fails. -/
theorem linked_of_finish_error {p : Pending} {e : Error} {now : Nat} (hs : Linked core w)
    (h : c.run C io core.jwtKey core.db = .ok ⟨.pending, core.db, some p⟩)
    (hfinish : p.finish C io core.db now = .error e)
    (hp : ∀ ok, p.handle core.jwtKey ok = some ⟨core.jwtKey, none⟩) :
    Linked core ((w.step C (.call 0 io c)).1.step C (.finish 0 io now)).1 := by
  rw [← hs.db] at h hfinish
  simp only [World.step, hs.handle, h, World.setHandle, if_true, hfinish]
  exact ⟨hs.db, hp false ▸ handles_setHandle (handles_setHandle hs.handles)⟩

/-- A call of two steps. -/
theorem linked_of_finish_ok {p : Pending} {reply : Credentials.Reply} {db : Db} {now : Nat}
    (hs : Linked core w)
    (h : c.run C io core.jwtKey core.db = .ok ⟨.pending, core.db, some p⟩)
    (hfinish : p.finish C io core.db now = .ok (reply, db))
    (hp : ∀ ok, p.handle core.jwtKey ok = some ⟨core.jwtKey, none⟩) :
    Linked { core with db := db } ((w.step C (.call 0 io c)).1.step C (.finish 0 io now)).1 ∧
      ((w.step C (.call 0 io c)).1.step C (.finish 0 io now)).2 = reply := by
  rw [← hs.db] at h hfinish
  simp only [World.step, hs.handle, h, World.setHandle, if_true, hfinish]
  exact ⟨⟨rfl, hp true ▸ handles_setHandle (handles_setHandle hs.handles)⟩, trivial⟩

end

/-! ## Asking -/

/-- The steps of an event that was given up. -/
structure Stops (K : Crates) (p : Process) (e : Event) (ys : List Step) : Prop where
  fits : Fits K p e e.draws ys
  silent : Silent ys

/-- Wherever a procedure ends, the store has come along by steps that are of an event. It returns
with `Q` of them, and no session was made where it stops. -/
abbrev Asks (K : Crates) {α : Type} (p : Process) (e : Event) (x : Act α)
    (Q : α → Core → List Step → Prop) (s : Core) (w : World) (ys : List Step) : Prop :=
  Drives (stores K.credentials) Linked (Stops K p e) x Q s w ys

section

variable {α β : Type} {p : Process} {e : Event} {s : Core} {w : World} {ys : List Step}
  {Q : α → Core → List Step → Prop} {P : β → Core → List Step → Prop}

/-- Steps that draw nothing draw no more than their event does. -/
theorem Fits.all (h : Fits K p e [] ys) : Fits K p e e.draws ys :=
  h.mono (List.nil_sublist _)

/-- Where nothing has been drawn an event may be given up. -/
theorem Fits.stops (h : Fits K p e [] ys) : Stops K p e ys := ⟨h.all, h.silent⟩

/-- A failure asks nothing. -/
theorem asks_fail {failure : Failure} (hs : Linked s w) (hf : Fits K p e [] ys) :
    Asks K p e (fail failure : Act α) Q s w ys := drives_stop hs hf.stops

/-- A check asks nothing, and afterwards it holds. -/
theorem asks_check {c : Prop} [Decidable c] {failure : Failure} {f : Unit → Act β}
    (hs : Linked s w) (hf : Fits K p e [] ys) (h : c → Asks K p e (f ()) P s w ys) :
    Asks K p e (check c failure >>= f) P s w ys := drives_require hs hf.stops h

/-- A check at the end. -/
theorem asks_checked {Q : Unit → Core → List Step → Prop} {c : Prop} [Decidable c]
    {failure : Failure} (hs : Linked s w) (hf : Fits K p e [] ys) (h : c → Q () s ys) :
    Asks K p e (check c failure) Q s w ys :=
  wp_check.mpr ⟨fun hc => still (Z := Q () s) hs (h hc), fun _ => still hs hf.stops⟩

/-- What may fail by itself asks nothing. -/
theorem asks_attempt {x : Except Failure α} {f : α → Act β} (hs : Linked s w) (hf : Fits K p e [] ys)
    (h : ∀ a, x = .ok a → Asks K p e (f a) P s w ys) : Asks K p e (attempt x >>= f) P s w ys :=
  drives_lift hs hf.stops fun a ha => h a (Store.mapError_eq_ok.mp ha)

/-- What only reads the database is no call. -/
theorem asks_query {io : Option Faults} {g : Faults → Bytes → Db → Except Error α} {f : α → Act β}
    (hs : Linked s w) (hf : Fits K p e [] ys)
    (h : ∀ faults a, io = some faults → g faults s.jwtKey s.db = .ok a →
      Asks K p e (f a) P s w ys) :
    Asks K p e (query io g >>= f) P s w ys :=
  (wp_bind _ _).mpr (wp_query.mpr ⟨fun _ => still hs hf.stops, fun faults hio =>
    ⟨fun a ha => h faults a hio ha, fun _ _ => still hs hf.stops⟩⟩)

/-- Waiting for the network asks nothing. -/
theorem asks_await {net : Option Net} {g : Net → Except AuthError α}
    {f : Except AuthError α → Act β} (hs : Linked s w) (hf : Fits K p e [] ys)
    (h : ∀ answers, net = some answers → Asks K p e (f (g answers)) P s w ys) :
    Asks K p e (await net g >>= f) P s w ys :=
  (wp_bind _ _).mpr (wp_await.mpr ⟨fun _ => still hs hf.stops, h⟩)

variable {io : Option Faults} {g : Faults → Bytes → Db → Except Error (α × Db)}

/-- A call of one step. It makes the only session there is. -/
theorem asks_call (c : Call) (answer : α → Credentials.Reply)
    (hrun : ∀ faults key db, c.run K.credentials faults key db = do
      let r ← g faults key db
      pure ⟨answer r.1, r.2, none⟩)
    (hmakes : ∀ faults, e.Makes K p (.call 0 faults c)) (hdraws : c.draws.Sublist e.draws)
    (hs : Linked s w) (hf : Fits K p e [] ys) :
    Asks K p e (call io g) (fun a _ ys' => Fits K p e c.draws ys' ∧ Performed ys' c (answer a) ∧
      ∀ y ∈ ys', ∀ session, y.reply = .session session → answer a = .session session) s w ys := by
  refine wp_call.mpr ⟨fun _ => still hs hf.stops, fun faults _ => ?_⟩
  have hfits : Fits K p e c.draws [(stores K.credentials).entry w (.call 0 faults c)] :=
    fits_singleton (hmakes faults) w
  have hcall := hrun faults s.jwtKey s.db
  -- what is a session is the answer to this call
  have hsession : ∀ y ∈ ys ++ [(stores K.credentials).entry w (.call 0 faults c)], ∀ session,
      y.reply = .session session →
        (w.step K.credentials (.call 0 faults c)).2 = .session session := by
    intro y hy session hreply
    rcases List.mem_append.mp hy with hy | hy
    · exact absurd hreply (hf.silent y hy session)
    · obtain rfl := List.mem_singleton.mp hy
      exact hreply
  refine ⟨fun a db hg => ?_, fun error hg => ?_⟩
  · rw [hg] at hcall
    obtain ⟨hlinked, hreply⟩ := linked_of_ok hs hcall
    refine ⟨[.call 0 faults c], hlinked, hf.append hfits, ⟨_,
      List.mem_append_right _ List.mem_cons_self, faults, rfl, hreply⟩, fun y hy session h => ?_⟩
    rw [← hreply]
    exact hsession y hy session h
  · rw [hg] at hcall
    obtain ⟨hlinked, hreply⟩ := linked_of_error hs hcall
    refine ⟨[.call 0 faults c], hlinked, (hf.append hfits).mono hdraws, fun y hy session h => ?_⟩
    rw [hsession y hy session h] at hreply
    cases hreply

/-- A call of two steps. -/
theorem asks_call₂ {γ : Type} (c : Call) (wrap : γ → Pending) (answer : α → Credentials.Reply)
    (now : Nat) (first : Faults → Bytes → Db → Except Error γ)
    (second : Faults → Db → γ → Except Error (α × Db))
    (hrun : ∀ faults key db, c.run K.credentials faults key db = do
      let p ← first faults key db
      pure ⟨.pending, db, some (wrap p)⟩)
    (hfinish : ∀ faults db p, (wrap p).finish K.credentials faults db now = do
      let r ← second faults db p
      pure (answer r.1, r.2))
    (hwrap : ∀ p key ok, (wrap p).handle key ok = some ⟨key, none⟩)
    (hg : ∀ faults key db, g faults key db = do
      let p ← first faults key db
      second faults db p)
    (hmakes : ∀ faults, e.Makes K p (.call 0 faults c) ∧ e.Makes K p (.finish 0 faults now))
    (hdraws : c.draws = []) (hs : Linked s w) (hf : Fits K p e [] ys) :
    Asks K p e (call io g) (fun a _ ys' => Fits K p e [] ys' ∧ Finished ys' (answer a)) s w ys := by
  refine wp_call.mpr ⟨fun _ => still hs hf.stops, fun faults _ => ?_⟩
  have hcall : Fits K p e [] [(stores K.credentials).entry w (.call 0 faults c)] := by
    have hfits : Fits K p e c.draws [(stores K.credentials).entry w (.call 0 faults c)] :=
      fits_singleton (hmakes faults).1 w
    rwa [hdraws] at hfits
  have hboth : ∀ w', Fits K p e [] ([(stores K.credentials).entry w (.call 0 faults c)] ++
      [(stores K.credentials).entry w' (.finish 0 faults now)]) :=
    fun w' => hcall.append (fits_singleton (hmakes faults).2 w')
  have hrun := hrun faults s.jwtKey s.db
  have hgo := hg faults s.jwtKey s.db
  cases hp : first faults s.jwtKey s.db with
  | error error =>
      rw [hp] at hrun hgo
      rw [hgo]
      refine ⟨fun _ _ h => ?_, fun _ _ => ?_⟩
      · cases h
      · exact ⟨[.call 0 faults c], (linked_of_error hs hrun).1, (hf.append hcall).stops⟩
  | ok p =>
      rw [hp] at hrun hgo
      have hfinish := hfinish faults s.db p
      have hgo : g faults s.jwtKey s.db = second faults s.db p := hgo
      rw [hgo]
      refine ⟨fun a db h => ?_, fun error h => ?_⟩
      · rw [h] at hfinish
        obtain ⟨hlinked, hreply⟩ := linked_of_finish_ok hs hrun hfinish (hwrap p _)
        refine ⟨[.call 0 faults c, .finish 0 faults now], hlinked, hf.append (hboth _), _,
          List.mem_append_right _ (List.mem_cons_of_mem _ List.mem_cons_self), faults, now, rfl, hreply⟩
      · rw [h] at hfinish
        exact ⟨[.call 0 faults c, .finish 0 faults now],
          linked_of_finish_error hs hrun hfinish (hwrap p _), (hf.append (hboth _)).stops⟩

end

/-! ## What each action asks -/

section

variable {core : Core} {env : Env} {action : Action} {s : Core} {w : World} {ys : List Step}

/-- What is only in memory changes. -/
theorem Linked.memory {s' : Core} (hs : Linked s w) (hdb : s'.db = s.db)
    (hkey : s'.jwtKey = s.jwtKey) : Linked s' w :=
  ⟨hs.db.trans hdb.symm, by rw [hkey, hs.handles]⟩

/-- The steps of an action that was not given up so far, and that made no session. -/
abbrev Goes (K : Crates) (core : Core) (env : Env) (action : Action) (ys : List Step) : Prop :=
  Fits K (.running core) (.action action env) [] ys

/-- Wherever a part of an action ends, its steps are of the action. -/
abbrev Does (K : Crates) {α : Type} (core : Core) (env : Env) (action : Action) (x : Act α)
    (Q : α → Core → List Step → Prop) (s : Core) (w : World) (ys : List Step) : Prop :=
  Asks K (.running core) (.action action env) x Q s w ys

/-- Storing evidence is the call that the action makes with it. -/
theorem asks_storeEvidence {evidence : Evidence}
    (hmakes : action.Makes K core env (.setEvidence (encodeEvidence K evidence))) (hs : Linked s w)
    (hf : Goes K core env action ys) :
    Does K core env action (storeEvidence K env evidence) (fun _ _ => Goes K core env action) s w
      ys := by
  unfold storeEvidence update
  refine Drives.bind (asks_call₂ (.setEvidence (encodeEvidence K evidence))
    (fun _ => .evidence (encodeEvidence K evidence)) (fun _ => .done) (action.second env)
    (fun faults _ db => Store.checkEvidence K.credentials faults db (encodeEvidence K evidence))
    (fun faults db _ => do
      let db ← Store.writeEvidence faults db (encodeEvidence K evidence)
      pure ((), db))
    (fun _ _ _ => rfl) ?_ (fun _ _ _ => rfl) ?_
    (fun faults => ⟨.calls faults hmakes, .finishes faults⟩) rfl hs hf) ?_
  · intro faults db _
    simp [Pending.finish]
  · intro faults key db
    simp [Store.setEvidence]
  · intro _ s' w' ys' hs' hf'
    exact still (hs'.memory rfl rfl) hf'.1

/-- An invalidation is a call of the actions that check the authority. -/
theorem asks_invalidate (hchecks : action.checks) (hs : Linked s w)
    (hf : Goes K core env action ys) :
    Does K core env action (invalidate K env) (fun _ _ => Goes K core env action) s w ys := by
  unfold invalidate update
  refine drives_change (Drives.bind (asks_call .invalidateAuthority (fun _ => .done) ?_
    (fun faults => .calls faults (.invalidation hchecks)) (List.nil_sublist _) (hs.memory rfl rfl) hf) ?_)
  · intro faults key db
    simp [Call.run]
  · intro _ s' w' ys' hs' hf'
    exact still (hs'.memory rfl rfl) hf'.1

/-- A second check of the evidence stores what it verified, or invalidates. -/
theorem asks_recheck {proof : SignedProof} {now : Time}
    {result : Except AuthError VerifiedIdentity} (hchecks : action.checks)
    (hmakes : ∀ identity, result = .ok identity →
      action.Makes K core env (.setEvidence (encodeEvidence K ⟨identity, proof⟩)))
    (hs : Linked s w) (hf : Goes K core env action ys) :
    Does K core env action (recheck K env proof now result) (fun _ _ => Goes K core env action) s w
      ys := by
  cases result with
  | ok identity =>
      refine Drives.bind (asks_storeEvidence (hmakes identity rfl) hs hf) fun _ s' w' ys' hs' hf' => ?_
      exact still (hs'.memory rfl rfl) hf'
  | error error =>
      refine drives_change ?_
      by_cases hrevokes : error = .unauthorized ∨ error = .invalidSignature
      · rw [if_pos hrevokes]
        refine Drives.bind (asks_invalidate hchecks (hs.memory rfl rfl) hf) ?_
        exact fun _ _ _ _ hs' hf' => asks_fail hs' hf'
      · rw [if_neg hrevokes]
        exact asks_fail (hs.memory rfl rfl) hf

/-- The authority is checked before an action has changed its settings or its database. -/
theorem asks_authority (hgated : action.gated = true) (hsettings : s.settings = core.settings)
    (hdb : s.db = core.db) (hs : Linked s w) (hf : Goes K core env action ys) :
    Does K core env action (authority K env) (fun _ _ => Goes K core env action) s w ys := by
  unfold authority
  refine drives_read (asks_check hs hf fun _ => ?_)
  by_cases hfresh : s.isFresh (env.now .authority) = true
  · rw [if_pos hfresh]
    exact drives_pure hs hf
  · rw [if_neg hfresh]
    refine asks_query hs hf fun _ account _ _ => asks_attempt hs hf fun a _ => ?_
    refine asks_check hs hf fun _ => asks_query hs hf fun _ stored _ hstored => ?_
    refine asks_attempt hs hf fun raw hraw => asks_attempt hs hf fun e he => ?_
    refine asks_check hs hf fun _ => asks_attempt hs hf fun client hclient => ?_
    refine asks_await hs hf fun net hnet => asks_recheck (.inl hgated) (fun identity h => ?_) hs hf
    obtain rfl := Store.evidence_eq_ok hstored
    rw [hdb] at hraw
    rw [hsettings] at hclient
    exact .rechecked hgated (okOr_eq_ok.mp hraw) (okOr_eq_ok.mp he) ⟨client, net, hclient, hnet, h⟩

/-- Looking for a grant asks nothing, and afterwards there is one. -/
theorem asks_grant {β : Type} {token : Bytes} {now : Nat} {f : Unit → Act β}
    {P : β → Core → List Step → Prop} (hgrants : s.grants ⊆ core.grants) (hs : Linked s w)
    (hf : Goes K core env action ys)
    (h : Granted core token → Does K core env action (f ()) P s w ys) :
    Does K core env action (grant token now >>= f) P s w ys := by
  unfold grant
  rw [bind_assoc]
  refine drives_read (asks_check hs hf fun hgranted => h ?_)
  obtain ⟨expires, hlookup, -⟩ := (Option.any_eq_true _ _).mp hgranted
  exact ⟨expires, hgrants (mem_of_lookup hlookup)⟩

/-- A gated action checks the authority, and has a grant from when it began. -/
theorem asks_granted {token : Bytes} (hgated : action.gated = true)
    (hgrants : s.grants ⊆ core.grants) (hsettings : s.settings = core.settings)
    (hdb : s.db = core.db) (hs : Linked s w) (hf : Goes K core env action ys) :
    Does K core env action (granted K env token)
      (fun _ _ ys' => Goes K core env action ys' ∧ Granted core token) s w ys := by
  unfold granted
  refine asks_grant hgrants hs hf fun hgranted => ?_
  refine Drives.bind (asks_authority hgated hsettings hdb hs hf) fun _ _ _ _ hs₁ hf₁ => ?_
  -- the second look at the grant adds nothing
  exact drives_read (asks_checked hs₁ hf₁ fun _ => ⟨hf₁, hgranted⟩)

/-- The steps are those of an action that returned a value. -/
structure Replies (K : Crates) (core : Core) (env : Env) (action : Action) (value : Json) (s : Core)
    (ys : List Step) : Prop where
  fits : Fits K (.running core) (.action action env) (Event.draws (.action action env)) ys
  relays : action.Relays K core env value s.db ys
  answers : ∀ y ∈ ys, ∀ session, y.reply = .session session → value = sessionJson session

/-- An action that makes no session. -/
theorem Fits.replies {value : Json} (h : Goes K core env action ys)
    (hrelays : action.Relays K core env value s.db ys) : Replies K core env action value s ys :=
  ⟨h.all, hrelays, fun y hy s hreply => absurd hreply (h.silent y hy s)⟩

/-- The calls of `Passwords`. -/
theorem asks_passwords {token : Bytes} (hgrants : s.grants ⊆ core.grants)
    (hsettings : s.settings = core.settings) (hdb : s.db = core.db) (hs : Linked s w) :
    Does K core env (.passwords token) (passwords K env token)
      (Replies K core env (.passwords token)) s w [] := by
  unfold passwords
  refine Drives.bind (asks_granted rfl hgrants hsettings hdb hs (fits_nil _ _ _))
    fun _ _ _ _ hs₁ hf₁ => ?_
  refine asks_query hs₁ hf₁.1 fun io passwords hio hpasswords => drives_pure hs₁ (hf₁.1.replies ?_)
  exact ⟨io, passwords, hio, hpasswords, rfl⟩

/-- The calls of `Issue`. -/
theorem asks_issue {token name : Bytes} (hgrants : s.grants ⊆ core.grants)
    (hsettings : s.settings = core.settings) (hdb : s.db = core.db) (hs : Linked s w) :
    Does K core env (.issue token name) (issue K env token name)
      (Replies K core env (.issue token name)) s w [] := by
  unfold issue
  refine Drives.bind (asks_granted rfl hgrants hsettings hdb hs (fits_nil _ _ _))
    fun _ _ _ _ hs₁ hf₁ => ?_
  refine Drives.bind (asks_call (.issuePassword name (env.now (.access .issuePassword))
    (env.random .password) (env.random .salt)) .issued ?_
    (fun faults => .calls faults (.issue hf₁.2)) (List.nil_sublist _) hs₁ hf₁.1) ?_
  · intro faults key db
    rfl
  · intro issued _ _ _ hs₂ hf₂
    refine asks_query hs₂ hf₂.1 fun io account hio haccount => asks_attempt hs₂ hf₂.1 fun a ha => ?_
    obtain rfl := okOr_eq_ok.mp ha
    exact drives_pure hs₂ (hf₂.1.replies ⟨issued, a, io, rfl, hf₂.2.1, hio, haccount⟩)

/-- The calls of `Revoke`. -/
theorem asks_revoke {token name : Bytes} (hgrants : s.grants ⊆ core.grants) (hs : Linked s w) :
    Does K core env (.revoke token name) (revoke env token name)
      (Replies K core env (.revoke token name)) s w [] := by
  unfold revoke update
  refine asks_grant hgrants hs (fits_nil _ _ _) fun hgranted => ?_
  refine Drives.bind (asks_call (.revokePassword name) (fun _ => .done) ?_
    (fun faults => .calls faults (.revoke hgranted)) (List.nil_sublist _) hs (fits_nil _ _ _)) ?_
  · intro faults key db
    simp [Call.run]
  · intro _ _ _ _ hs₁ hf₁
    exact drives_pure hs₁ (hf₁.1.replies ⟨rfl, hf₁.2.1⟩)

/-- The calls of `Login`: one in two steps, the second with its own clock. -/
theorem asks_login {identifier password : Bytes} {now : Nat} (hsettings : s.settings = core.settings)
    (hdb : s.db = core.db) (hs : Linked s w) :
    Does K core env (.login identifier password) (login K env identifier password now)
      (Replies K core env (.login identifier password)) s w [] := by
  unfold login
  refine drives_read (drives_change ?_)
  have hs₀ : Linked { s with passwordTimes := (limit s.passwordTimes now 60 20).2 } w :=
    hs.memory rfl rfl
  refine asks_check hs₀ (fits_nil _ _ _) fun _ => asks_query hs₀ (fits_nil _ _ _) fun _ _ _ _ => ?_
  refine Drives.bind (asks_authority rfl hsettings hdb hs₀ (fits_nil _ _ _))
    fun _ _ _ _ hs₁ hf₁ => ?_
  refine Drives.bind (asks_call (.authenticate identifier password
    (env.now (.access .authenticate)) (randomToken (env.random .sid))
    (randomToken (env.random .jti)) (randomToken (env.random .accessJti))) .session ?_
    (fun faults => .calls faults .login) (.refl _) hs₁ hf₁) ?_
  · intro faults key db
    rfl
  · intro session _ _ _ hs₂ hf₂
    refine drives_pure hs₂ ⟨hf₂.1, ⟨session, rfl, hf₂.2.1⟩, fun y hy s hreply => ?_⟩
    rw [Credentials.Reply.session.inj (hf₂.2.2 y hy s hreply)]

/-- A token is read in two steps, which change nothing. -/
theorem asks_token {kind : TokenKind} {token : Bytes} {c : Call} {now t : Nat}
    {io : Option Faults} {read : Faults → Bytes → Db → Except Error SessionInfo}
    {p : Process} {e : Event}
    (hrun : ∀ faults key db, c.run K.credentials faults key db = do
      let p ← Store.readToken K.credentials faults key db token kind now
      pure ⟨.pending, db, some (.token kind token p.1 p.2 now)⟩)
    (hfinish : ∀ faults db a claims,
      (Pending.token kind token a claims now).finish K.credentials faults db t = do
        Store.validateSession faults db claims (kind = .refresh) t
        pure (.info kind token (sessionInfo a), db))
    (hread : ∀ faults key db, read faults key db = do
      let p ← Store.readToken K.credentials faults key db token kind now
      Store.validateSession faults db p.2 (kind = .refresh) t
      pure (sessionInfo p.1))
    (hmakes : ∀ faults, e.Makes K p (.call 0 faults c) ∧ e.Makes K p (.finish 0 faults t))
    (hdraws : c.draws = []) (hs : Linked s w) (hf : Fits K p e [] ys) :
    Asks K p e (query io read) (fun info s' ys' => (Fits K p e [] ys' ∧
      Finished ys' (.info kind token info)) ∧ s' = s) s w ys := by
  refine Drives.and ?_ ?_
  · unfold query
    refine asks_call₂ c (fun p : Account × Claims => .token kind token p.1 p.2 now)
      (.info kind token) t
      (fun faults key db => Store.readToken K.credentials faults key db token kind now)
      (fun faults db p => do
        Store.validateSession faults db p.2 (kind = .refresh) t
        pure (sessionInfo p.1, db))
      hrun ?_ (fun _ _ _ => rfl) ?_ hmakes hdraws hs hf
    · intro faults db p
      rw [hfinish]
      simp
    · intro faults key db
      rw [hread]
      simp
  · refine wp_query.mpr ⟨fun _ => trivial, fun _ _ => ⟨fun _ _ => ?_, fun _ _ => trivial⟩⟩
    rfl

/-- The steps of an access token that was read. -/
theorem asks_readSession {token : Bytes}
    (haction : action = .session token ∨ action = .preferences token) (hs : Linked s w)
    (hf : Goes K core env action ys) :
    Does K core env action (readSession K env token)
      (fun info s' ys' => (Goes K core env action ys' ∧
        Finished ys' (.info .access token info)) ∧ s' = s) s w ys := by
  refine asks_token (c := .getSession token (env.now (.access .getSession)))
    (t := env.now .session) (fun _ _ _ => rfl) (fun _ _ _ _ => rfl) (fun _ _ _ => rfl)
    (fun faults => ?_) rfl hs hf
  rcases haction with rfl | rfl
  · exact ⟨.calls faults .session, .finishes faults⟩
  · exact ⟨.calls faults .preferences, .finishes faults⟩

/-- The calls of `Session`. -/
theorem asks_session {token : Bytes} (hsettings : s.settings = core.settings) (hdb : s.db = core.db)
    (hs : Linked s w) :
    Does K core env (.session token) (session K env token) (Replies K core env (.session token)) s w
      [] := by
  unfold session
  refine Drives.bind (asks_readSession (.inl rfl) hs (fits_nil _ _ _)) ?_
  rintro info s₁ _ _ hs₁ ⟨hf₁, rfl⟩
  refine Drives.bind (asks_authority rfl hsettings hdb hs₁ hf₁.1).remember fun _ _ _ _ hs₂ hf₂ => ?_
  exact drives_pure hs₂ (hf₂.1.replies ⟨info, rfl, hf₁.2.mono hf₂.2.subset⟩)

/-- The calls of `Preferences`. -/
theorem asks_preferences {token : Bytes} (hsettings : s.settings = core.settings)
    (hdb : s.db = core.db) (hs : Linked s w) :
    Does K core env (.preferences token) (preferences K env token)
      (Replies K core env (.preferences token)) s w [] := by
  unfold preferences
  refine Drives.bind (asks_readSession (.inr rfl) hs (fits_nil _ _ _)) ?_
  rintro info s₁ _ _ hs₁ ⟨hf₁, rfl⟩
  refine Drives.bind (asks_authority rfl hsettings hdb hs₁ hf₁.1).remember fun _ _ _ _ hs₂ hf₂ => ?_
  exact drives_pure hs₂ (hf₂.1.replies ⟨rfl, info, hf₁.2.mono hf₂.2.subset⟩)

/-- The calls of `Refresh`: one in two steps, the second with its own clock. -/
theorem asks_refresh {token : Bytes} (hsettings : s.settings = core.settings) (hdb : s.db = core.db)
    (hs : Linked s w) :
    Does K core env (.refresh token) (refresh K env token) (Replies K core env (.refresh token)) s w
      [] := by
  unfold refresh
  refine Drives.bind (asks_token (c := .validateRefresh token (env.now (.access .validateRefresh)))
    (fun _ _ _ => rfl) (fun _ _ _ _ => rfl) (fun _ _ _ => rfl)
    (fun faults => ⟨.calls faults .validate, .finishes faults⟩) rfl hs (fits_nil _ _ _)) ?_
  rintro info s₁ _ _ hs₁ ⟨hf₁, rfl⟩
  refine Drives.bind (asks_authority rfl hsettings hdb hs₁ hf₁.1).remember fun _ _ _ _ hs₂ hf₂ => ?_
  refine Drives.bind (asks_call (.refreshSession token (env.now (.access .refreshSession))
    (randomToken (env.random .jti)) (randomToken (env.random .accessJti))) .session ?_
    (fun faults => .calls faults .refresh) (.refl _) hs₂ hf₂.1).remember ?_
  · intro faults key db
    rfl
  · intro session _ _ _ hs₃ hf₃
    have hread : Finished _ (.info .refresh token info) :=
      (hf₁.2.mono hf₂.2.subset).mono hf₃.2.subset
    refine drives_pure hs₃ ⟨hf₃.1.1, ⟨session, rfl, ⟨info, hread⟩, hf₃.1.2.1⟩,
      fun y hy s hreply => ?_⟩
    rw [Credentials.Reply.session.inj (hf₃.1.2.2 y hy s hreply)]

/-- The calls of `Logout`. -/
theorem asks_logout {token : Bytes} (hs : Linked s w) :
    Does K core env (.logout token) (logout K env token) (Replies K core env (.logout token)) s w
      [] := by
  unfold logout update
  refine Drives.bind (asks_call (.deleteSession token (env.now (.access .deleteSession)))
    (fun _ => .done) ?_ (fun faults => .calls faults .logout) (List.nil_sublist _) hs
    (fits_nil _ _ _)) ?_
  · intro faults key db
    simp [Call.run]
  · intro _ _ _ _ hs₁ hf₁
    exact drives_pure hs₁ (hf₁.1.replies ⟨rfl, hf₁.2.1⟩)

/-! ### Signing in -/

/-- `Start` asks nothing. -/
theorem asks_start {now : Nat} (hs : Linked s w) :
    Does K core env .start (start K env now) (Replies K core env .start) s w [] := by
  unfold start
  refine drives_read (drives_change ?_)
  have hs₀ : Linked { s with startTimes := (limit s.startTimes now 60 5).2 } w :=
    hs.memory rfl rfl
  have hf : Goes K core env .start [] := fits_nil _ _ _
  refine asks_check hs₀ hf fun _ => asks_check hs₀ hf fun _ => asks_attempt hs₀ hf fun client _ => ?_
  refine asks_await hs₀ hf fun answers _ => asks_attempt hs₀ hf fun channel _ => ?_
  refine asks_attempt hs₀ hf fun qr _ => drives_change ?_
  exact drives_pure (hs.memory rfl rfl) (hf.replies rfl)

/-- Asking for a proof makes no call. -/
theorem asks_pollProof {client : AuthClient} {id : Bytes} {pending : Login} {p : Process} {e : Event}
    (hs : Linked s w) (hf : Fits K p e [] ys) :
    Asks K p e (pollProof K env client id pending) (fun _ _ ys' => ys' = ys) s w ys := by
  unfold pollProof
  cases pending.proof with
  | some proof => exact drives_pure hs rfl
  | none =>
      refine asks_await hs hf fun answers _ => asks_attempt hs hf fun status _ => ?_
      cases status with
      | pending => exact drives_pure hs rfl
      | completed proof => exact drives_change (drives_pure (hs.memory rfl rfl) rfl)

/-- Comparing blocks with the stored evidence asks nothing. -/
theorem asks_checkBlock {verified : VerifiedIdentity} {p : Process} {e : Event} (hs : Linked s w)
    (hf : Fits K p e [] ys) :
    Asks K p e (checkBlock K env verified) (fun _ _ ys' => Fits K p e [] ys') s w ys := by
  unfold checkBlock
  refine asks_query hs hf fun _ raw _ _ => ?_
  cases raw with
  | none => exact drives_pure hs hf
  | some raw =>
      refine asks_attempt hs hf fun previous _ => ?_
      exact asks_checked hs hf fun _ => hf

/-- Another authority is invalidated first. -/
theorem asks_replaceAuthority {authority : Bytes} (hchecks : action.checks) (hs : Linked s w)
    (hf : Goes K core env action ys) :
    Does K core env action (replaceAuthority K env authority) (fun _ _ => Goes K core env action) s w
      ys := by
  unfold replaceAuthority
  refine asks_query hs hf fun _ account _ _ => ?_
  cases account with
  | none => exact drives_pure hs hf
  | some account =>
      by_cases hother : account.authority ≠ authority
      · simp only [if_pos hother]
        exact asks_invalidate hchecks hs hf
      · simp only [if_neg hother]
        exact drives_pure hs hf

/-- The binding of a Poll is to the verified authority, and is answered with the account. -/
theorem asks_bind {id token : Bytes} {login : Login} {proof : SignedProof}
    {verified : VerifiedIdentity} (hconsent : Consented K env id token core login proof verified)
    (hs : Linked s w) (hf : Goes K core env (.poll id token) ys) :
    Does K core env (.poll id token) (Node.bind K env core.settings verified proof)
      (fun account _ ys' => Goes K core env (.poll id token) ys' ∧
        Binds env verified account ys') s w ys := by
  have hchecks : (Action.poll id token).checks := .inr ⟨id, token, rfl⟩
  unfold Node.bind
  refine Drives.bind (asks_replaceAuthority hchecks hs hf) fun _ _ _ _ hs₁ hf₁ => ?_
  refine asks_attempt hs₁ hf₁ fun identity hidentity => ?_
  have hown := Store.mapError_eq_ok.mp hidentity
  refine Drives.bind (asks_call (.bindVerified verified.fid (fingerprint verified) identity
    (env.now (.access .bindVerified)) (env.random .repoKey)) .bound ?_
    (fun faults => .calls faults (.binding hconsent hown)) (List.nil_sublist _) hs₁ hf₁) ?_
  · intro faults key db
    rfl
  · intro account _ _ _ hs₂ hf₂
    refine Drives.bind (asks_storeEvidence (.signedIn hconsent) hs₂ hf₂.1).remember ?_
    intro _ _ _ _ hs₃ hf₃
    have hbinds : Binds env verified account _ := ⟨identity, hf₂.2.1.mono hf₃.2.subset⟩
    exact still (Z := fun ys' => Goes K core env (.poll id token) ys' ∧ Binds env verified account ys')
      (hs₃.memory rfl rfl) ⟨hf₃.1, hbinds⟩

/-- The calls that complete a sign-in: an invalidation if need be, the binding, the evidence. -/
theorem asks_complete {client : AuthClient} {id token : Bytes} {login : Login} {proof : SignedProof}
    (hclient : Core.client K core.settings = .ok client)
    (hlogin : Presented env id token core login) (hnone : login.completion = none)
    (hs : Linked s w) (hf : Goes K core env (.poll id token) ys) :
    Does K core env (.poll id token)
      (complete K env core.settings client id login proof (env.now .entry))
      (Replies K core env (.poll id token)) s w ys := by
  unfold complete
  refine asks_await hs hf fun net hnet => asks_attempt hs hf fun verified hverified => ?_
  split_ifs with hexpired hfid
  · exact drives_change (asks_fail (hs.memory rfl rfl) hf)
  · exact drives_change (asks_fail (hs.memory rfl rfl) hf)
  · have hconsent : Consented K env id token core login proof verified :=
      { hlogin with
        waiting := hnone
        accepted := ⟨client, net, hclient, hnet, Store.mapError_eq_ok.mp hverified⟩
        unexpired := not_le.mp hexpired
        allowed := not_ne_iff.mp hfid }
    refine Drives.bind (asks_checkBlock hs hf) fun _ _ _ _ hs₁ hf₁ => ?_
    refine Drives.bind (asks_bind hconsent hs₁ hf₁) fun account _ _ _ hs₂ hf₂ => ?_
    refine drives_change (drives_change (drives_pure (hs₂.memory rfl rfl) (hf₂.1.replies ?_)))
    exact .inr ⟨verified, account, hf₂.2, rfl⟩

/-- The calls of `Poll`. -/
theorem asks_poll {id token : Bytes} (hsettings : s.settings = core.settings)
    (hfound : s.pending.lookup id = core.found env id) (hs : Linked s w) :
    Does K core env (.poll id token) (poll K env id token (env.now .entry))
      (Replies K core env (.poll id token)) s w [] := by
  have hf : Goes K core env (.poll id token) [] := fits_nil _ _ _
  unfold poll
  refine drives_read (asks_attempt hs hf fun client hclient => ?_)
  refine asks_attempt hs hf fun login hlogin => asks_check hs hf fun htoken => ?_
  rw [hsettings] at hclient ⊢
  have hpresented : Presented env id token core login :=
    ⟨hfound.symm.trans (okOr_eq_ok.mp hlogin), htoken⟩
  cases hcompletion : login.completion with
  | some completion =>
      exact drives_pure hs (hf.replies (.inl ⟨rfl, .inr ⟨login, hpresented, hcompletion⟩⟩))
  | none =>
      refine asks_check hs hf fun _ => drives_change ?_
      refine Drives.bind (asks_pollProof (hs.memory rfl rfl) hf) ?_
      rintro proof _ _ _ hs₁ rfl
      cases proof with
      | none => exact drives_pure hs₁ (hf.replies (.inl ⟨rfl, .inl rfl⟩))
      | some proof => exact asks_complete hclient hpresented hcompletion hs₁ hf

/-! ### Executing -/

/-- Every action asks what it makes and answers what was answered. -/
theorem drives_run (action : Action) (hgrants : s.grants ⊆ core.grants)
    (hsettings : s.settings = core.settings) (hdb : s.db = core.db)
    (hfound : ∀ id, s.pending.lookup id = core.found env id) (hs : Linked s w) :
    Does K core env action (action.run K env (env.now .entry)) (Replies K core env action) s w
      [] := by
  cases action with
  | start => exact asks_start hs
  | poll id token => exact asks_poll hsettings (hfound id) hs
  | passwords token => exact asks_passwords hgrants hsettings hdb hs
  | issue token name => exact asks_issue hgrants hsettings hdb hs
  | revoke token name => exact asks_revoke hgrants hs
  | login identifier password => exact asks_login hsettings hdb hs
  | session token => exact asks_session hsettings hdb hs
  | refresh token => exact asks_refresh hsettings hdb hs
  | logout token => exact asks_logout hs
  | describe =>
      have hf : Goes K core env .describe [] := fits_nil _ _ _
      exact drives_read (asks_attempt hs hf fun _ _ => drives_pure hs (hf.replies rfl))
  | did =>
      have hf : Goes K core env .did [] := fits_nil _ _ _
      refine (wp_query (f := fun io _ db => Store.storeDidDocument K.credentials io db)).mpr ?_
      refine ⟨fun _ => still hs hf.stops, fun io hio => ⟨fun value hvalue => ?_, fun _ _ =>
        still hs hf.stops⟩⟩
      have hreplies : Replies K core env .did value s [] := hf.replies ⟨rfl, io, hio, hvalue⟩
      exact still (Z := Replies K core env .did value s) hs hreplies
  | preferences token => exact asks_preferences hsettings hdb hs

/-- Also with the checks and the purge before it. -/
theorem drives_execute (action : Action) (hs : Linked core w) :
    Does K core env action (execute K env action) (Replies K core env action) core w [] := by
  unfold execute expire
  refine drives_read (asks_check hs (fits_nil _ _ _) fun _ => drives_change ?_)
  exact drives_run action (fun _ h => (List.mem_filter.mp h).1) rfl rfl (fun _ => rfl)
    (hs.memory rfl rfl)

end

/-! ## Runs -/

/-- A step of a node that returns no value. -/
theorem shows_of_stops {p p' : Process} {e : Event} {reply : Reply} {ys : List Step}
    (h : Stops K p e ys) (hother : ∀ value, reply ≠ .ok value) : Shows K ⟨p, e, reply, p'⟩ ys :=
  ⟨h.fits, fun _ _ _ _ hreply => absurd hreply (hother _),
    fun y hy s hreply => absurd hreply (h.silent y hy s)⟩

/-- An answer with a value shows what the store answered. -/
theorem shows_of_replies {core core' : Core} {action : Action} {env : Env} {value : Json}
    {ys : List Step} (h : Replies K core env action value core' ys) :
    Shows K ⟨.running core, .action action env, .ok value, .running core'⟩ ys := by
  refine ⟨h.fits, fun _ _ _ hevent hreply => ?_, fun y hy s hreply => ?_⟩
  · obtain ⟨rfl, rfl⟩ := Event.action.inj hevent
    obtain rfl := Reply.ok.inj hreply
    exact ⟨core, rfl, h.relays⟩
  · exact congrArg Reply.ok (h.answers y hy s hreply)

/-- At the end of a process its handle is closed. -/
theorem Stops.close {C : Credentials.Crates} {p : Process} {e : Event} {ys : List Step}
    (h : Stops K p e ys) (he : e.Makes K p (.close 0)) (w : World) :
    Stops K p e (ys ++ [(stores C).entry w (.close 0)]) := by
  refine ⟨⟨fun y hy => ?_, ?_, fun y hy s hreply => ?_⟩, fun y hy s hreply => ?_⟩
  · rcases List.mem_append.mp hy with hy | hy
    · exact h.fits.makes y hy
    · obtain rfl := List.mem_singleton.mp hy
      exact he
  · have hnone : ([(stores C).entry w (.close 0)].flatMap fun y => y.event.draws) = [] := rfl
    rw [List.flatMap_append, hnone, List.append_nil]
    exact h.fits.draws
  · rcases List.mem_append.mp hy with hy | hy
    · exact h.fits.session y hy s hreply
    · obtain rfl := List.mem_singleton.mp hy
      cases hreply
  · rcases List.mem_append.mp hy with hy | hy
    · exact h.silent y hy s hreply
    · obtain rfl := List.mem_singleton.mp hy
      cases hreply

/-- An action of a node is some steps of its store. -/
theorem shows_action {core : Core} {w : World} (hs : Linked core w) (action : Action) (env : Env) :
    ∃ ds, (executeNode K core action env).1.Linked ((stores K.credentials).final w ds) ∧
      Shows K ⟨.running core, .action action env, (executeNode K core action env).2,
        (executeNode K core action env).1⟩ ((stores K.credentials).trace w ds) := by
  have hdrives : Does K core env action (execute K env action) (Replies K core env action) core w
      [] :=
    drives_execute action hs
  unfold Does Asks Drives wp at hdrives
  unfold executeNode
  generalize execute K env action core = r at hdrives ⊢
  obtain ⟨result, core'⟩ := r
  cases result with
  | ok value =>
      obtain ⟨ds, hlinked, hreplies⟩ := hdrives
      exact ⟨ds, hlinked, shows_of_replies hreplies⟩
  | error halt =>
      obtain ⟨ds, hlinked, hstops⟩ := hdrives
      cases halt with
      | failed failure => exact ⟨ds, hlinked, shows_of_stops hstops fun _ => Reply.noConfusion⟩
      | timedOut => exact ⟨ds, hlinked, shows_of_stops hstops fun _ => Reply.noConfusion⟩
      | stopped =>
          refine ⟨ds ++ [.close 0], ?_, ?_⟩
          · rw [final_append]
            exact hlinked.close (C := K.credentials)
          · rw [trace_append]
            exact shows_of_stops (hstops.close .ends _) fun _ => Reply.noConfusion

section

variable {w : World} {db : Db} {key random : Bytes} {io : Faults}

/-- A store that is being opened. -/
theorem opening_of_openKey (hnone : w.handles = fun _ => none)
    (hkey : Store.openKey io w.db random = .ok (key, db)) :
    (w.step K.credentials (.openStore 0 io random)).1.db = db ∧
      (w.step K.credentials (.openStore 0 io random)).1.handles =
        fun i => if i = 0 then some ⟨key, some .opening⟩ else none := by
  simp only [World.step, congrFun hnone 0, hkey]
  refine ⟨rfl, handles_setHandle (x := none) ?_⟩
  funext i
  rw [ite_self]
  exact congrFun hnone i

variable (hw : w.db = db ∧ w.handles = fun i => if i = 0 then some ⟨key, some .opening⟩ else none)

include hw

/-- A store whose checks fail is not there. -/
theorem closed_of_openCheck {e : Error} (h : Store.openCheck K.credentials io db = .error e) :
    (w.step K.credentials (.finish 0 io 0)).1.db = db ∧
      (w.step K.credentials (.finish 0 io 0)).1.handles = fun _ => none := by
  obtain ⟨rfl, hhandles⟩ := hw
  have hfinish : Pending.opening.finish K.credentials io w.db 0 = .error e := by
    simp only [Pending.finish, h]
    rfl
  have hhandle : w.handles 0 = some ⟨key, some .opening⟩ := congrFun hhandles 0
  simp only [World.step, hhandle, hfinish]
  exact ⟨rfl, handles_none (handles_setHandle hhandles)⟩

/-- After the checks of opening the store has the database and the key of the core. -/
theorem linked_of_openCheck (h : Store.openCheck K.credentials io db = .ok ()) {core : Core}
    (hdb : core.db = db) (hcore : core.jwtKey = key) :
    Linked core (w.step K.credentials (.finish 0 io 0)).1 := by
  obtain ⟨rfl, hhandles⟩ := hw
  have hfinish : Pending.opening.finish K.credentials io w.db 0 = .ok (.opened, w.db) := by
    simp only [Pending.finish, h]
    rfl
  have hhandle : w.handles 0 = some ⟨key, some .opening⟩ := congrFun hhandles 0
  simp only [World.step, hhandle, hfinish]
  refine ⟨hdb.symm, ?_⟩
  rw [hcore]
  exact handles_setHandle hhandles

end

/-- Opening a node opens its store, and closes it again when the node refuses. -/
theorem shows_opening {db : Db} {history : List Deed} {w : World}
    (hs : (Process.stopped db history).Linked w) (settings : Settings) (random : Random)
    (io reload : Faults) :
    let opened := openNode K db history settings random io reload
    ∃ ds, opened.1.Linked ((stores K.credentials).final w ds) ∧
      Shows K ⟨.stopped db history, .opening settings random io reload, opened.2, opened.1⟩
        ((stores K.credentials).trace w ds) := by
  obtain ⟨rfl, hnone⟩ := hs
  have hrefused : ∀ {p p' : Process} {ys : List Step},
      Stops K p (.opening settings random io reload) ys →
      Shows K ⟨p, .opening settings random io reload, .refused, p'⟩ ys :=
    fun h => shows_of_stops h fun _ => Reply.noConfusion
  intro opened
  unfold opened openNode
  cases settings.validate K with
  | error _ => exact ⟨[], ⟨rfl, hnone⟩, hrefused (fits_nil _ _ _).stops⟩
  | ok _ =>
      cases hkey : Store.openKey io w.db random with
      | error _ => exact ⟨[], ⟨rfl, hnone⟩, hrefused (fits_nil _ _ _).stops⟩
      | ok result =>
          obtain ⟨key, db'⟩ := result
          have hopening := opening_of_openKey (K := K) hnone hkey
          have hstops : Stops K (.stopped w.db history) (.opening settings random io reload)
              ((stores K.credentials).trace w [.openStore 0 io random, .finish 0 io 0]) :=
            (Fits.append (fits_singleton .opens _) (fits_singleton .checks _)).stops
          cases hcheck : Store.openCheck K.credentials io db' with
          | error _ =>
              simp only [hcheck]
              exact ⟨[.openStore 0 io random, .finish 0 io 0],
                closed_of_openCheck hopening hcheck, hrefused hstops⟩
          | ok _ =>
              -- the store is open now, and closed again where the node refuses
              have hlinked : ∀ core : Core, core.db = db' → core.jwtKey = key → Linked core
                  ((stores K.credentials).final w [.openStore 0 io random, .finish 0 io 0]) :=
                fun core => linked_of_openCheck hopening hcheck
              have hclosed : ∃ ds, (Process.stopped db' history).Linked
                    ((stores K.credentials).final w ds) ∧
                  Shows K ⟨.stopped w.db history, .opening settings random io reload, .refused,
                    .stopped db' history⟩ ((stores K.credentials).trace w ds) := by
                refine ⟨[.openStore 0 io random, .finish 0 io 0] ++ [.close 0], ?_, ?_⟩
                · rw [final_append]
                  exact (hlinked ⟨settings, key, db', [], [], [], [], none, history⟩ rfl rfl).close
                    (C := K.credentials)
                · rw [trace_append]
                  exact hrefused (hstops.close .refuses _)
              simp only [hcheck]
              cases Store.account K.credentials reload db' with
              | error _ => exact hclosed
              | ok account =>
                  simp only
                  split_ifs
                  · exact ⟨[.openStore 0 io random, .finish 0 io 0], hlinked _ rfl rfl,
                      shows_of_stops hstops fun _ => Reply.noConfusion⟩
                  · exact hclosed

/-- New settings are a matter of the node alone. -/
theorem linked_configure {core : Core} {w : World} (hs : Linked core w) (settings : Settings)
    (io : Faults) (saved : Bool) :
    let next := Process.step K (.running core) (.configure settings io saved)
    next.1.Linked w ∧ ∀ value, next.2 ≠ .ok value := by
  have happly : Linked (core.apply settings) w := by
    unfold Core.apply
    split_ifs
    · exact hs
    · exact hs.memory rfl rfl
  intro next
  unfold next Process.step
  simp only
  split_ifs
  · exact ⟨happly, fun _ => Reply.noConfusion⟩
  · exact ⟨hs, fun _ => Reply.noConfusion⟩
  · exact ⟨hs, fun _ => Reply.noConfusion⟩

/-- Identifiers that are distinct are fresh at every step. -/
theorem meets_fresh {C : Credentials.Crates} {w : World} {ds : List Credentials.Event}
    (h : (w.drawn ++ ds.flatMap Credentials.Event.draws).Nodup) :
    (stores C).Meets Credentials.Fresh w ds := by
  induction ds generalizing w with
  | nil => trivial
  | cons d ds ih =>
      rw [List.flatMap_cons, ← List.append_assoc] at h
      refine ⟨h.of_append_left, ih ?_⟩
      obtain ⟨draws, new, heffect, hdraws⟩ := step_effect (Prod.mk.eta (p := w.step C d)).symm
      have hdrawn : ((stores C).step w d).1.drawn = w.drawn ++ draws := heffect.drawn
      rw [hdrawn]
      rcases hdraws with rfl | rfl
      · rw [List.append_nil]
        rw [List.append_assoc] at h
        exact h.sublist ((List.sublist_append_right _ _).append_left _)
      · exact h

/-- Every event of a node is some steps of its store. -/
theorem simulates_store (K : Crates) :
    Simulates (stores K.credentials) (nodes K) (fun _ _ => True) Process.Linked (Shows K) := by
  intro p w e hs _
  have hsame : ∀ {reply : Reply}, (∀ value, reply ≠ .ok value) →
      ∃ ds, p.Linked ((stores K.credentials).final w ds) ∧
        Shows K ⟨p, e, reply, p⟩ ((stores K.credentials).trace w ds) :=
    fun h => ⟨[], hs, shows_of_stops (fits_nil _ _ _).stops h⟩
  cases p with
  | stopped db history =>
      cases e with
      | opening settings random io reload => exact shows_opening hs settings random io reload
      | action action env => exact hsame fun _ => Reply.noConfusion
      | configure settings io saved => exact hsame fun _ => Reply.noConfusion
      | stop => exact hsame fun _ => Reply.noConfusion
  | running core =>
      cases e with
      | opening settings random io reload => exact hsame fun _ => Reply.noConfusion
      | action action env => exact shows_action hs action env
      | configure settings io saved =>
          obtain ⟨hlinked, hreply⟩ := linked_configure (K := K) hs settings io saved
          exact ⟨[], hlinked, shows_of_stops (fits_nil _ _ _).stops hreply⟩
      | stop =>
          refine ⟨[.close 0], Linked.close (C := K.credentials) hs, shows_of_stops ?_ ?_⟩
          · exact (fits_nil _ _ _).stops.close .stops w
          · exact fun _ => Reply.noConfusion

/-- A run of the store that makes a run of a node. -/
structure Serves (K : Crates) (es : List Event) (ds : List Credentials.Event) : Prop where
  linked : ((nodes K).final .init es).Linked ((stores K.credentials).final World.init ds)
  explains : Explains (Shows K) ((nodes K).trace .init es) ((stores K.credentials).trace World.init ds)

/-- A node and its store have one database. -/
theorem db_of_linked {p : Process} {w : World} (h : p.Linked w) : w.db = p.db := by
  cases p with
  | stopped db history => exact h.1
  | running core => exact Linked.db h

/-- Every run of a node is made by a run of its store. -/
theorem exists_serves (K : Crates) (es : List Event) : ∃ ds, Serves K es ds := by
  have hinit : Process.init.Linked World.init := ⟨rfl, rfl⟩
  obtain ⟨ds, hlinked, hexplains⟩ := (simulates_store K).run hinit (meets_iff.mpr fun _ _ => trivial)
  exact ⟨ds, hlinked, hexplains⟩

namespace Serves

variable {es es' : List Event} {ds : List Credentials.Event}

/-- A run of the store goes on with the run of its node. -/
theorem extend (h : Serves K es ds) (es' : List Event) :
    ∃ ds', Serves K (es ++ es') (ds ++ ds') ∧
      Explains (Shows K) ((nodes K).trace ((nodes K).final .init es) es')
        ((stores K.credentials).trace ((stores K.credentials).final World.init ds) ds') := by
  obtain ⟨ds', hlinked, hexplains⟩ := (simulates_store K).run h.linked
    (meets_iff.mpr fun _ _ => trivial : (nodes K).Meets _ _ es')
  refine ⟨ds', ⟨?_, ?_⟩, hexplains⟩
  · rwa [final_append, final_append]
  · rw [trace_append, trace_append]
    exact h.explains.append hexplains

/-- What a node asks has the types of the source. -/
theorem typed (h : Serves K es ds) : (stores K.credentials).Meets Typed World.init ds := by
  refine meets_iff.mpr fun y hy => ?_
  obtain ⟨x, -, block, hx, hblock⟩ := h.explains.exists_of_mem hy
  exact (hx.fits.makes y hblock).wellTyped

/-- The store draws what the events of the node draw. -/
theorem fresh (h : Serves K es ds) (hdraws : (es.flatMap Event.draws).Nodup) :
    (stores K.credentials).Meets Credentials.Fresh World.init ds := by
  apply meets_fresh
  have hsub := h.explains.flatMap_sublist (f := fun x => x.event.draws)
    (g := fun y => y.event.draws) fun x ys hx => hx.fits.draws
  have hes : ((nodes K).trace .init es).flatMap (fun x => x.event.draws) =
      es.flatMap Event.draws := by
    conv_rhs => rw [← map_event_trace (M := nodes K) .init es, List.flatMap_map]
  have hds : ((stores K.credentials).trace World.init ds).flatMap (fun y => y.event.draws) =
      ds.flatMap Credentials.Event.draws := by
    conv_rhs => rw [← map_event_trace (M := stores K.credentials) World.init ds, List.flatMap_map]
  rw [hes, hds] at hsub
  exact hdraws.sublist hsub

end Serves

/-- **A node works its store.** Every run of a node is made by a run of its store, on one handle and
one block for each event of the node: the events of a block are those that the node's event makes,
with its own arguments, clocks and random values, where evidence and bindings are of what the event
verified, and passwords are issued and revoked for a grant only; what an action answers is what the
store answered to it, or holds after it, and no session is made that is not answered; and both end
with the same database. The run of the store has the types of the source, and draws identifiers that
are fresh when those of the node's events are distinct. -/
theorem service_refines (K : Crates) (es : List Event) :
    ∃ ds, Serves K es ds ∧ (stores K.credentials).Meets Typed World.init ds ∧
      ((es.flatMap Event.draws).Nodup →
        (stores K.credentials).Meets Credentials.Fresh World.init ds) := by
  obtain ⟨ds, hserves⟩ := exists_serves K es
  exact ⟨ds, hserves, hserves.typed, hserves.fresh⟩

end PurpleSky.Node
