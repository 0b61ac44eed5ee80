import PurpleSky.Credentials.Passwords

/-!
# The lifetime of a session

A session ends `refreshSeconds` after its login, however often it is refreshed (`Given`), and until
then its tokens are good.

* **`length_signToken_le`**: the tokens of a valid identity are not too long to verify.
* **`session_lifetime`**: the times in the tokens of a session; a token is only accepted within its
  own; and it is accepted throughout them while the row of its session is there and, for a refresh
  token, has not been rotated.
-/

namespace PurpleSky.Credentials

open Bytes Store

variable {C : Crates} {io : Faults} {key : Bytes} {db : Db} {a : Account}

/-! ## The length of a token -/

/-- Host names are written without escapes. -/
theorem plain_of_validHostname {host : Bytes} (h : validHostname host = true) {b : UInt8}
    (hb : b ∈ host) : Json.escapeByte b = [b] := by
  have hplain : ∀ b : UInt8, (isLower b || isDigit b || b == 45) = true →
      Json.escapeByte b = [b] := by decide +kernel
  simp only [validHostname, Bool.and_eq_true] at h
  by_cases hdot : b = 46
  · rw [hdot]
    decide
  · obtain ⟨label, hlabel, hmem⟩ := exists_part_of_mem hb hdot
    have hvalid := List.all_eq_true.mp h.1.2 label hlabel
    simp only [Repo.Syntax.labelValid, Bool.and_eq_true] at hvalid
    exact hplain b (List.all_eq_true.mp hvalid.2 b hmem)

/-- The names of a valid identity are written without escapes. -/
theorem Identity.plain {identity : Identity} (h : identity.validate C = .ok ()) :
    (∀ b ∈ identity.did, Json.escapeByte b = [b]) ∧
      ∀ b ∈ identity.serviceDid, Json.escapeByte b = [b] := by
  have did : ∀ {did name : Bytes}, didHost did = some name → validHostname name = true →
      ∀ b ∈ did, Json.escapeByte b = [b] := by
    intro did name hdid hname b hb
    have hprefix : ∀ b ∈ str "did:web:", Json.escapeByte b = [b] := by decide +kernel
    rw [didHost, stripPrefix_eq_some] at hdid
    rw [hdid] at hb
    rcases List.mem_append.mp hb with hb | hb
    · exact hprefix b hb
    · exact plain_of_validHostname hname hb
  have hlocal : ∀ port, ∀ b ∈ localDid port, Json.escapeByte b = [b] := by
    intro port b hb
    have hprefix : ∀ b ∈ str "did:web:localhost", Json.escapeByte b = [b] := by decide +kernel
    have hcolon : ∀ b ∈ str "%3A", Json.escapeByte b = [b] := by decide +kernel
    have hdigit : ∀ b : UInt8, isDigit b = true → Json.escapeByte b = [b] := by decide +kernel
    rcases List.mem_append.mp hb with hb | hb
    · exact hprefix b hb
    · cases port with
      | none => cases hb
      | some port =>
          rcases List.mem_append.mp hb with hb | hb
          · exact hcolon b hb
          · exact hdigit b (isDigit_of_mem_decimal hb)
  unfold validate at h
  obtain ⟨url, -, h⟩ := bind_eq_ok.mp h
  obtain ⟨_, -, h⟩ := bind_eq_ok.mp h
  split at h
  · obtain ⟨hdid, hservice, -⟩ := ensure_eq_ok.mp h
    exact ⟨hdid ▸ hlocal url.port, hservice ▸ hlocal url.port⟩
  · simp only [bind_eq_ok, okOr_eq_ok, ensure_eq_ok] at h
    obtain ⟨name, hdid, service, hservice, _, ⟨hname, -, hservicename, -⟩, -⟩ := h
    exact ⟨did hdid hname, did hservice hservicename⟩

theorem length_segment (b : Bytes) : (segment b).length = b.length + (b.length + 2) / 3 :=
  Base64.length_encode _ _

theorem length_decimal_u64 {n : Nat} (h : n ≤ u64Max) : (decimal n).length ≤ 20 := by
  unfold u64Max at h
  exact length_decimal_le (by decide) (by omega)

/-- An identifier is written without escapes. -/
theorem length_quote_of_isId {id : Bytes} (h : isId id = true) : (Json.quote id).length = 66 := by
  have hplain : ∀ b : UInt8, isHexDigit b = true → Json.escapeByte b = [b] := by decide +kernel
  simp only [isId, Bool.and_eq_true, beq_iff_eq, List.all_eq_true] at h
  rw [Json.length_quote fun b hb => hplain b (h.2 b hb), h.1]

theorem length_render_claims_le {claims : Claims} {kind : TokenKind} (hrange : claims.InRange)
    (hscope : claims.scope = kind.scope) (hsid : isId claims.sid = true)
    (hjti : isId claims.jti = true) (hsub : (Json.quote claims.sub).length ≤ 263)
    (haud : (Json.quote claims.aud).length ≤ 263) : (C.json.render claims.toJson).length ≤ 800 := by
  have hint : ∀ n : Nat, Json.renderInt n = decimal n := fun n => by simp [Json.renderInt]
  have hquote : (Json.quote kind.scope).length ≤ 22 := by cases kind <;> decide
  have hnames : [str "aud", str "exp", str "iat", str "jti", str "scope", str "sid", str "sub"].map
      (fun s => (Json.quote s).length) = [5, 5, 5, 5, 7, 5, 5] := by
    decide +kernel
  simp only [List.map_cons, List.map_nil, List.cons.injEq, and_true] at hnames
  obtain ⟨h₁, h₂, h₃, h₄, h₅, h₆, h₇⟩ := hnames
  have hiat := length_decimal_u64 hrange.1
  have hexp := length_decimal_u64 hrange.2
  simp only [JsonText.render, Claims.toJson, Json.render, Json.renderFields,
    List.intercalate_cons_cons, List.intercalate_singleton, List.length_cons, List.length_append,
    List.length_nil, hint, hscope, length_quote_of_isId hsid, length_quote_of_isId hjti,
    h₁, h₂, h₃, h₄, h₅, h₆, h₇]
  omega

theorem length_render_header (C : Crates) (kind : TokenKind) :
    (C.json.render (Header.toJson ⟨str "HS256", kind.typ⟩)).length ≤ 40 := by
  have hquote : (Json.quote kind.typ).length ≤ 14 := by cases kind <;> decide
  have hnames : [str "alg", str "typ", str "HS256"].map (fun s => (Json.quote s).length) =
      [5, 5, 7] := by
    decide +kernel
  simp only [List.map_cons, List.map_nil, List.cons.injEq, and_true] at hnames
  obtain ⟨h₁, h₂, h₃⟩ := hnames
  simp only [JsonText.render, Header.toJson, Json.render, Json.renderFields,
    List.intercalate_cons_cons, List.intercalate_singleton, List.length_cons, List.length_append,
    List.length_nil, h₁, h₂, h₃]
  omega

/-- The tokens of a valid identity are not too long to verify. -/
theorem length_signToken_le
    (hport : ∀ s url port, C.parseUrl s = some url → url.port = some port → port < 65536)
    {identity : Identity} (hidentity : identity.validate C = .ok ()) (key : Bytes) {claims : Claims}
    {kind : TokenKind} (hrange : claims.InRange) (hscope : claims.scope = kind.scope)
    (hsid : isId claims.sid = true) (hjti : isId claims.jti = true)
    (hsub : claims.sub = identity.did) (haud : claims.aud = identity.serviceDid) :
    (signToken C key claims kind).length ≤ 4096 := by
  obtain ⟨-, hdid, hservice⟩ := Identity.length_le hport hidentity
  obtain ⟨hplain, hplain'⟩ := Identity.plain hidentity
  have hclaims := @length_render_claims_le C claims kind hrange hscope hsid hjti
    (by rw [hsub, Json.length_quote hplain]; omega) (by rw [haud, Json.length_quote hplain']; omega)
  have hheader := length_render_header C kind
  have hmac : (segment (Sha2.hmac key (signingInput C claims kind))).length = 43 := by
    rw [length_segment, Sha2.length_hmac]
  rw [signToken, List.length_append, List.length_cons, hmac, signingInput, List.length_append,
    List.length_cons, length_segment, length_segment]
  omega

/-! ## Tokens that verify -/

theorem tokenHeader_signToken (hC : C.json.Lawful) (key : Bytes) (claims : Claims)
    (kind : TokenKind) :
    tokenHeader C (signToken C key claims kind) = some ⟨str "HS256", kind.typ⟩ := by
  have hplain : (Header.toJson ⟨str "HS256", kind.typ⟩).Plain 127 := by
    refine .object ?_
    simp only [List.mem_cons, List.not_mem_nil, or_false, forall_eq_or_imp, forall_eq]
    exact ⟨.string _ _, .string _ _⟩
  rw [tokenHeader, parts_signToken]
  show (ofSegment (segment (C.json.render _))).bind _ = _
  rw [ofSegment_segment, Option.bind_some]
  show (C.json.parse (C.json.render _)).bind _ = _
  rw [hC.parse_render _ hplain, Option.bind_some, Header.ofJson?_toJson]

section

variable (hC : C.json.Lawful)
  (hport : ∀ s url port, C.parseUrl s = some url → url.port = some port → port < 65536)

include hC hport

/-- A token verifies from when it was signed until it expires, for an account with the names it was
signed for. -/
theorem verifyToken_signToken {b : Account} {kind : TokenKind} {sid jti : Bytes} {t exp now : Nat}
    (hvalid : b.identity.validate C = .ok ()) (hsame : b.identity = a.identity)
    (hsid : isId sid = true) (hjti : isId jti = true) (hmax : exp ≤ u64Max)
    (hlife : exp - t ≤ kind.lifetime) (hstart : t ≤ now) (hend : now < exp) :
    verifyToken C key (signToken C key (claimsFor a kind sid jti t exp) kind) b kind now =
      .ok (claimsFor a kind sid jti t exp) := by
  have hrange : (claimsFor a kind sid jti t exp).InRange := by
    refine ⟨?_, hmax⟩
    show t ≤ u64Max
    omega
  have hsub : (claimsFor a kind sid jti t exp).sub = b.identity.did := by rw [hsame]; rfl
  have haud : (claimsFor a kind sid jti t exp).aud = b.identity.serviceDid := by rw [hsame]; rfl
  have hlt : t < exp := by omega
  rw [verifyToken_eq_ok]
  exact ⟨length_signToken_le hport hvalid key hrange rfl hsid hjti hsub haud,
    validTag_signToken C key _ kind, tokenHeader_signToken hC key _ kind,
    tokenClaims_signToken hC key hrange kind,
    ⟨hsub, haud, rfl, hstart, hlt, hlife, hsid, hjti⟩, hend⟩

omit hC hport in
theorem readToken_eq {b : Account} {token : Bytes} {kind : TokenKind} {now : Nat} {claims : Claims}
    (henabled : enabledAccount C noFaults db = .ok b)
    (hverify : verifyToken C key token b kind now = .ok claims) :
    readToken C noFaults key db token kind now = .ok (b, claims) := by
  simp only [readToken, bind_eq_ok, pure_eq_ok, Prod.mk.injEq]
  exact ⟨b, tokenAccount_eq_ok.mpr henabled, claims, hverify, rfl, rfl⟩

omit hC hport in
theorem validateSession_eq {row : SessionRow} {claims : Claims} {refresh : Bool} {now : Nat}
    (hrow : row ∈ db.sessions.rows) (hid : row.id = claims.sid) (hnow : now < row.refreshExp)
    (hmatch : refresh = true → row.refreshJti = claims.jti ∧ row.refreshExp = claims.exp) :
    validateSession noFaults db claims refresh now = .ok () := by
  simp only [validateSession, bind_eq_ok, ensure_eq_ok, okOr_eq_ok]
  refine ⟨(), rfl, row, Table.find?_eq_some_iff.mpr ⟨hrow, hid⟩, hnow, ?_⟩
  rintro ⟨hrefresh, hne | hne⟩
  · exact hne (hmatch hrefresh).1
  · exact hne (hmatch hrefresh).2

variable {b : Account} {row : SessionRow} {sid jti accessJti : Bytes} {t exp : Nat}
  (henabled : enabledAccount C noFaults db = .ok b) (hvalid : b.identity.validate C = .ok ())
  (hsame : b.identity = a.identity) (hsid : isId sid = true) (hmax : exp ≤ u64Max)
  (hrow : row ∈ db.sessions.rows) (hid : row.id = sid) (hexp : row.refreshExp = exp)

include henabled hvalid hsame hsid hmax hrow hid hexp

/-- The access token of a session whose row is there is accepted throughout its times. -/
theorem getSession_isOk (hjti : isId accessJti = true) {now now' : Nat} (hstart : t ≤ now)
    (hend : now < accessExp t exp) (hend' : now' < exp) :
    (getSession C noFaults key db (createSession C key a sid jti accessJti t exp).accessJwt now
      now').isOk = true := by
  have hlife : accessExp t exp - t ≤ TokenKind.access.lifetime := by
    exact Nat.sub_le_of_le_add ((accessExp_le_add t exp).trans_eq (Nat.add_comm _ _))
  have hok : getSession C noFaults key db (createSession C key a sid jti accessJti t exp).accessJwt
      now now' = .ok (sessionInfo b) := by
    simp only [getSession, bind_eq_ok, pure_eq_ok, Prod.exists]
    exact ⟨b, _, readToken_eq henabled (verifyToken_signToken hC hport hvalid hsame hsid hjti
      ((accessExp_le t exp).trans hmax) hlife hstart hend), (),
      validateSession_eq hrow hid (hexp ▸ hend') (by simp), rfl⟩
  rw [hok]
  rfl

/-- The refresh token of a session that was not rotated is accepted throughout its times. -/
theorem refresh_isOk (hjti : isId jti = true) (hlife : exp - t ≤ refreshSeconds)
    (hlatest : row.refreshJti = jti) {now : Nat} (hstart : t ≤ now) (hend : now < exp) :
    let refresh := (createSession C key a sid jti accessJti t exp).refreshJwt
    (validateRefresh C noFaults key db refresh now).isOk = true ∧
      (∀ newJti newAccess,
        (refreshSession C noFaults key db refresh now newJti newAccess).isOk = true) ∧
      (deleteSession C noFaults key db refresh now).isOk = true := by
  intro refresh
  have hread : readToken C noFaults key db refresh .refresh now =
      .ok (b, claimsFor a .refresh sid jti t exp) := readToken_eq henabled
    (verifyToken_signToken hC hport hvalid hsame hsid hjti hmax hlife hstart hend)
  have hsession : validateSession noFaults db (claimsFor a .refresh sid jti t exp) true now =
      .ok () := validateSession_eq hrow hid (hexp ▸ hend) fun _ => ⟨hlatest, hexp⟩
  have hbegin : beginRefresh C noFaults key db refresh now =
      .ok (b, claimsFor a .refresh sid jti t exp) := by
    simp only [beginRefresh, bind_eq_ok, pure_eq_ok, Prod.exists]
    exact ⟨(), rfl, b, _, hread, (), hsession, rfl⟩
  have hone : ∀ newJti, (db.rotate newJti sid jti).1 = 1 := by
    intro newJti
    refine Table.countP_eq_one db.sessions hrow (by simp [hid, hlatest]) fun s hs => ?_
    simp only [Bool.and_eq_true, decide_eq_true_eq] at hs
    exact hs.1.trans hid.symm
  refine ⟨?_, ?_, ?_⟩
  · have hok : validateRefresh C noFaults key db refresh now = .ok (sessionInfo b) := by
      simp only [validateRefresh, bind_eq_ok, pure_eq_ok, Prod.exists]
      exact ⟨b, _, hread, (), hsession, rfl⟩
    rw [hok]
    rfl
  · intro newJti newAccess
    have hcommit : commitRefresh noFaults db (claimsFor a .refresh sid jti t exp) newJti =
        .ok (db.rotate newJti sid jti).2 := by
      simp only [commitRefresh, bind_eq_ok, ensure_eq_ok, pure_eq_ok]
      exact ⟨(), rfl, (), hone newJti, (), rfl, rfl⟩
    rw [refreshSession, hbegin]
    simp only [bind, Except.bind, hcommit]
    rfl
  · rw [deleteSession, hbegin]
    rfl

end

/-! ## Chains -/

/-- A session given at `t`, by a login at `t₀` or in a chain of refreshes from there. The store may
be in any state at each of them. -/
inductive Given (C : Crates) (t₀ : Nat) : Nat → Session → Prop where
  | login {io : Faults} {key : Bytes} {db db' : Db} {identifier password sid jti accessJti : Bytes}
      {s : Session}
      (run : Store.authenticate C io key db identifier password t₀ sid jti accessJti = .ok (s, db')) :
      Given C t₀ t₀ s
  | refresh {t : Nat} {s : Session} {io : Faults} {key : Bytes} {db db' : Db} {now : Nat}
      {jti accessJti : Bytes} {s' : Session} (given : Given C t₀ t s)
      (run : refreshSession C io key db s.refreshJwt now jti accessJti = .ok (s', db')) :
      Given C t₀ now s'

/-- A token is accepted when the clock shows `now`. -/
def AcceptedAt (C : Crates) (io : Faults) (key : Bytes) (db : Db) (token : Bytes) (now : Nat) :
    Prop :=
  (∃ now', (getSession C io key db token now now').isOk = true) ∨
    (validateRefresh C io key db token now).isOk = true ∨
    (∃ jti accessJti, (refreshSession C io key db token now jti accessJti).isOk = true) ∨
    (deleteSession C io key db token now).isOk = true

/-- A token that says these claims is accepted only within its times. -/
structure Within (C : Crates) (token : Bytes) (claims : Claims) : Prop where
  body : tokenClaims C token = some claims
  accepted : ∀ io key db now, AcceptedAt C io key db token now → claims.iat ≤ now ∧ now < claims.exp

theorem verifyToken_of_accepted {token : Bytes} {now : Nat}
    (h : AcceptedAt C io key db token now) :
    ∃ a kind claims, verifyToken C key token a kind now = .ok claims := by
  rcases h with ⟨now', h⟩ | h | ⟨jti, accessJti, h⟩ | h
  · obtain ⟨info, h⟩ := exists_of_isOk h
    simp only [getSession, bind_eq_ok, Prod.exists] at h
    obtain ⟨a, claims, hread, -⟩ := h
    exact ⟨a, _, claims, (readToken_eq_ok hread).2⟩
  · obtain ⟨info, h⟩ := exists_of_isOk h
    simp only [validateRefresh, bind_eq_ok, Prod.exists] at h
    obtain ⟨a, claims, hread, -⟩ := h
    exact ⟨a, _, claims, (readToken_eq_ok hread).2⟩
  · obtain ⟨⟨s, db'⟩, h⟩ := exists_of_isOk h
    obtain ⟨a, claims, hbegin, -⟩ := refreshSession_eq_ok h
    exact ⟨a, _, claims, (beginRefresh_eq_ok hbegin).2.1⟩
  · obtain ⟨db', h⟩ := exists_of_isOk h
    obtain ⟨a, claims, hbegin, -⟩ := deleteSession_eq_ok h
    exact ⟨a, _, claims, (beginRefresh_eq_ok hbegin).2.1⟩

/-- The second clock of `get_session` is checked against the row of the session. -/
theorem row_of_getSession {token : Bytes} {claims : Claims} {now now' : Nat}
    (hclaims : tokenClaims C token = some claims)
    (h : (getSession C io key db token now now').isOk = true) :
    ∃ row ∈ db.sessions.rows, row.id = claims.sid ∧ now' < row.refreshExp := by
  obtain ⟨info, h⟩ := exists_of_isOk h
  simp only [getSession, bind_eq_ok, Prod.exists] at h
  obtain ⟨a, claims', hread, _, hsession, -⟩ := h
  obtain ⟨-, -, -, hclaims', -⟩ := verifyToken_eq_ok.mp (readToken_eq_ok hread).2
  obtain rfl := Option.some.inj (hclaims.symm.trans hclaims')
  obtain ⟨row, hrow, hid, hlt, -⟩ := validateSession_eq_ok hsession
  exact ⟨row, hrow, hid, hlt⟩

theorem within_of_tokenClaims {token : Bytes} {claims : Claims}
    (h : tokenClaims C token = some claims) : Within C token claims := by
  refine ⟨h, fun io key db now haccepted => ?_⟩
  obtain ⟨a, kind, claims', hverify⟩ := verifyToken_of_accepted haccepted
  obtain ⟨-, -, -, hclaims, hchecks, hend⟩ := verifyToken_eq_ok.mp hverify
  obtain rfl := Option.some.inj (hclaims.symm.trans h)
  exact ⟨hchecks.2.2.2.1, hend⟩

/-- The tokens of a session that is made before its end. -/
theorem within_createSession (hC : C.json.Lawful) (key : Bytes) (a : Account)
    (sid jti accessJti : Bytes) {t exp : Nat} (hstart : t ≤ u64Max) (hend : exp ≤ u64Max) :
    Within C (createSession C key a sid jti accessJti t exp).accessJwt
        (claimsFor a .access sid accessJti t (accessExp t exp)) ∧
      Within C (createSession C key a sid jti accessJti t exp).refreshJwt
        (claimsFor a .refresh sid jti t exp) := by
  have hrange : (claimsFor a .access sid accessJti t (accessExp t exp)).InRange :=
    ⟨hstart, (accessExp_le t exp).trans hend⟩
  exact ⟨within_of_tokenClaims (tokenClaims_signToken hC key hrange .access),
    within_of_tokenClaims (tokenClaims_signToken hC key ⟨hstart, hend⟩ .refresh)⟩

/-- How a refresh goes on from the times of its token. -/
theorem times_of_beginRefresh {token : Bytes} {now : Nat} {claims : Claims}
    (h : beginRefresh C io key db token now = .ok (a, claims)) :
    tokenClaims C token = some claims ∧ now < claims.exp ∧ claims.exp ≤ u64Max ∧
      claims.exp - now ≤ refreshSeconds ∧ isId claims.sid = true := by
  obtain ⟨-, -, -, hclaims, hchecks, hend⟩ := verifyToken_eq_ok.mp (beginRefresh_eq_ok h).2.1
  obtain ⟨-, -, -, hiat, -, hlife, hsid, -⟩ := hchecks
  have hlife : claims.exp - claims.iat ≤ refreshSeconds := hlife
  exact ⟨hclaims, hend, (inRange_of_tokenClaims hclaims).2, by omega, hsid⟩

/-- The times of a login. -/
theorem times_of_beginAuthenticate {identifier password name : Bytes} {now : Nat} {db' : Db}
    (h : beginAuthenticate C io db identifier password now = .ok (a, name, db')) :
    now ≤ u64Max ∧ now + refreshSeconds ≤ u64Max := by
  obtain ⟨-, -, hnow, -⟩ := beginAuthenticate_eq_ok h
  have hseconds : refreshSeconds = 604800 := rfl
  unfold u64Max
  omega

/-- The times in the tokens of a chain. -/
theorem Given.times (hC : C.json.Lawful) {t₀ t : Nat} {s : Session} (h : Given C t₀ t s) :
    ∃ access refresh, Within C s.accessJwt access ∧ Within C s.refreshJwt refresh ∧
      access.iat = t ∧ refresh.iat = t ∧ refresh.exp = t₀ + refreshSeconds ∧
      access.exp ≤ t₀ + refreshSeconds ∧ access.exp ≤ access.iat + accessSeconds := by
  induction h with
  | login run =>
      obtain ⟨a, name, db₁, hbegin, rfl, -⟩ := authenticate_eq_ok run
      obtain ⟨hstart, hend⟩ := times_of_beginAuthenticate hbegin
      obtain ⟨haccess, hrefresh⟩ := within_createSession hC _ a _ _ _ hstart hend
      exact ⟨_, _, haccess, hrefresh, rfl, rfl, rfl, accessExp_le _ _, accessExp_le_add _ _⟩
  | refresh given run ih =>
      obtain ⟨-, refresh, -, hold, -, -, hexp, -⟩ := ih
      obtain ⟨a, claims, hbegin, rfl, -⟩ := refreshSession_eq_ok run
      obtain ⟨hclaims, hlt, hmax, -⟩ := times_of_beginRefresh hbegin
      obtain rfl := Option.some.inj (hclaims.symm.trans hold.body)
      obtain ⟨haccess, hrefresh⟩ := within_createSession hC _ a _ _ _ (hlt.le.trans hmax) hmax
      refine ⟨_, _, haccess, hrefresh, rfl, rfl, hexp, ?_, accessExp_le_add _ _⟩
      rw [← hexp]
      exact accessExp_le _ _

/-- A login binds its time as a signed integer of the database. -/
theorem Given.start_lt {t₀ t : Nat} {s : Session} (h : Given C t₀ t s) :
    t₀ < 9223372036854775808 := by
  induction h with
  | login run =>
      obtain ⟨a, name, db₁, hbegin, -⟩ := authenticate_eq_ok run
      exact (beginAuthenticate_eq_ok hbegin).2.2.1
  | refresh _ _ ih => exact ih

/-- No session is given at a time for which the sum in `accessExp` wraps. -/
theorem Given.sum_le (hC : C.json.Lawful) {t₀ t : Nat} {s : Session} (h : Given C t₀ t s) :
    t + accessSeconds ≤ u64Max := by
  have hstart := h.start_lt
  have hseconds : refreshSeconds = 604800 ∧ accessSeconds = 1800 := ⟨rfl, rfl⟩
  have hmax : u64Max = 18446744073709551615 := rfl
  cases h with
  | login run => omega
  | refresh given run =>
      obtain ⟨-, refresh, -, hold, -, -, hexp, -⟩ := given.times hC
      obtain ⟨a, claims, hbegin, -⟩ := refreshSession_eq_ok run
      obtain ⟨hclaims, hlt, -⟩ := times_of_beginRefresh hbegin
      obtain rfl := Option.some.inj (hclaims.symm.trans hold.body)
      omega

/-! ## Runs -/

/-- The session that a step gives, and when. -/
def sessionAt : Step → Option (Session × Nat)
  | ⟨_, .call _ _ (.authenticate _ _ now _ _ _), .session s, _⟩ => some (s, now)
  | ⟨_, .call _ _ (.refreshSession _ now _ _), .session s, _⟩ => some (s, now)
  | _ => none

/-- An identifier of a session was drawn, and a session that has it ends at `exp`. -/
def Ends (sid : Bytes) (exp : Nat) (w : World) : Prop :=
  sid ∈ w.drawn ∧ ∀ r ∈ w.db.sessions.rows, r.id = sid → r.refreshExp = exp

variable {w : World} {e : Event}

/-- The end of a session is not moved, and its identifier not drawn again. -/
theorem keeps_ends (C : Crates) (sid : Bytes) (exp : Nat) :
    (stores C).Keeps Fresh (Invariant C) (Ends sid exp) := by
  intro w e hw hfresh ⟨hdrawn, hrows⟩
  obtain ⟨draws, new, heff, -⟩ := effect_of_fresh hw hfresh
  refine ⟨heff.drawn ▸ List.mem_append_left _ hdrawn, ?_⟩
  generalize hstep : w.step C e = p
  obtain ⟨w', reply⟩ := p
  have hafter : ((stores C).step w e).1 = w' := congrArg Prod.fst hstep
  rw [hafter]
  intro r hr hid
  rcases step_rows hstep with ⟨-, hsessions⟩ | ⟨i, io, c, rfl, hchange⟩
  · exact hrows r (hsessions ▸ hr) hid
  · rcases hchange.session_cases hr with ⟨s, hs, hsid, -, hexp⟩ |
      ⟨identifier, password, accessJti, now, rfl, -⟩
    · exact hexp ▸ hrows s hs (hsid.trans hid)
    · have hnew : r.id ∈ (Call.authenticate identifier password now r.id r.refreshJti
          accessJti).draws := List.mem_cons_self
      exact absurd (hid ▸ hdrawn) (not_drawn hfresh hnew)

/-- The session that a step gives. -/
theorem of_sessionAt (hC : C.json.Lawful) (hw : Secured C w) (hinv : Invariant C w)
    (he : e.wellTyped = true) {s : Session} {t : Nat}
    (h : sessionAt ((stores C).entry w e) = some (s, t)) :
    ∃ key a repoKey sid jti accessJti exp, w.db.jwtKey = some key ∧ Bound C w.db a repoKey ∧
      s = createSession C key a sid jti accessJti t exp ∧ isId sid = true ∧ isId jti = true ∧
      isId accessJti = true ∧ t ≤ u64Max ∧ exp ≤ u64Max ∧ exp - t ≤ refreshSeconds ∧
      Ends sid exp (w.step C e).1 := by
  generalize hstep : w.step C e = p
  obtain ⟨w', reply⟩ := p
  unfold sessionAt at h
  split at h
  · rename_i heq
    simp only [Machine.entry, stores, hstep, Machine.Entry.mk.injEq] at heq
    obtain ⟨rfl, rfl, rfl, rfl⟩ := heq
    obtain ⟨rfl, rfl⟩ := Prod.mk.inj (Option.some.inj h)
    obtain ⟨key, o, hhandle, hrun, hreply, hdb, hdrawn, -⟩ := run_of_step hstep (by simp) (by simp)
    simp only [Call.run, bind_eq_ok, pure_eq_ok, Prod.exists] at hrun
    obtain ⟨s', db', hauth, rfl⟩ := hrun
    obtain rfl := Reply.session.inj hreply
    obtain ⟨a, name, db₁, hbegin, rfl, hcommit⟩ := authenticate_eq_ok hauth
    obtain ⟨hstart, hend⟩ := times_of_beginAuthenticate hbegin
    obtain ⟨hload, -⟩ := enabledAccount_eq_ok (beginAuthenticate_eq_ok hbegin).1
    obtain ⟨repoKey, hb⟩ := hw.stored.bound hC hload
    obtain ⟨hnew, hrows, -⟩ := Db.insertSession_eq_some (commitSession_eq_ok hcommit)
    simp only [Event.wellTyped, Call.wellTyped, Bool.and_eq_true] at he
    obtain ⟨⟨⟨-, hsid⟩, hjti⟩, hacc⟩ := he
    refine ⟨key, a, repoKey, _, _, _, _, hw.keys _ _ hhandle, hb, rfl, hsid, hjti, hacc,
      hstart, hend, by omega, ?_, fun r hr hid => ?_⟩
    · rw [hdrawn]
      exact List.mem_append_right _ List.mem_cons_self
    · rw [hdb, hrows] at hr
      rcases List.mem_append.mp hr with hr | hr
      · exact absurd hid (hnew r hr)
      · obtain rfl := List.mem_singleton.mp hr
        rfl
  · rename_i heq
    simp only [Machine.entry, stores, hstep, Machine.Entry.mk.injEq] at heq
    obtain ⟨rfl, rfl, rfl, rfl⟩ := heq
    obtain ⟨rfl, rfl⟩ := Prod.mk.inj (Option.some.inj h)
    obtain ⟨key, o, hhandle, hrun, hreply, hdb, hdrawn, -⟩ := run_of_step hstep (by simp) (by simp)
    simp only [Call.run, bind_eq_ok, pure_eq_ok, Prod.exists] at hrun
    obtain ⟨s', db', hrefresh, rfl⟩ := hrun
    obtain rfl := Reply.session.inj hreply
    obtain ⟨a, claims, hbegin, rfl, hcommit⟩ := refreshSession_eq_ok hrefresh
    obtain ⟨hclaims, hlt, hmax, hlife, hsid⟩ := times_of_beginRefresh hbegin
    obtain ⟨hload, -⟩ := enabledAccount_eq_ok (beginRefresh_eq_ok hbegin).1
    obtain ⟨repoKey, hb⟩ := hw.stored.bound hC hload
    obtain ⟨-, row, hrow, hid, -, hexp⟩ := row_of_beginRefresh hbegin
    simp only [Event.wellTyped, Call.wellTyped, Bool.and_eq_true] at he
    obtain ⟨⟨-, hjti⟩, hacc⟩ := he
    refine ⟨key, a, repoKey, _, _, _, _, hw.keys _ _ hhandle, hb, rfl, hsid, hjti, hacc,
      hlt.le.trans hmax, hmax, hlife, ?_, fun r hr hrid => ?_⟩
    · rw [hdrawn]
      exact List.mem_append_left _ (hid ▸ (hinv.rowDrawn row hrow).1)
    · rw [hdb, (commitRefresh_eq_ok hcommit).2] at hr
      rcases Db.mem_sessions_rotate.mp hr with ⟨hr, -⟩ | ⟨r', hr', hrid', -, rfl⟩
      · rw [Table.eq_of_key_eq _ hr hrow (hrid.trans hid.symm)]
        exact hexp
      · rw [Table.eq_of_key_eq _ hr' hrow (hrid'.trans hid.symm)]
        exact hexp
  · cases h

/-- **A session has an absolute lifetime.** However a session is refreshed, at whatever times and in
whatever states of the store, its refresh tokens end `refreshSeconds` after the login, and its
access tokens not later and not more than `accessSeconds` after they were signed; no operation
accepts a token outside its own times. In every run that draws fresh identifiers, the tokens that a
step gives at time `t` are accepted from `t` on until they end, as long as the row of the session is
there and, for the refresh token, has its identifier; the second time that `get_session` reads is
before the end of the session too. -/
theorem session_lifetime {C : Crates} (hC : C.json.Lawful)
    (hport : ∀ s url port, C.parseUrl s = some url → url.port = some port → port < 65536) :
    (∀ t₀ t s, Given C t₀ t s →
      ∃ access refresh, Within C s.accessJwt access ∧ Within C s.refreshJwt refresh ∧
        access.iat = t ∧ refresh.iat = t ∧ refresh.exp = t₀ + refreshSeconds ∧
        access.exp ≤ t₀ + refreshSeconds ∧ access.exp ≤ access.iat + accessSeconds) ∧
    ∀ es, (stores C).Meets (fun w e => Typed w e ∧ Fresh w e) World.init es →
      ∀ x ∈ (stores C).trace World.init es, ∀ s t, sessionAt x = some (s, t) →
      ∃ access refresh, Within C s.accessJwt access ∧ Within C s.refreshJwt refresh ∧
        access.iat = t ∧ refresh.iat = t ∧ access.sid = refresh.sid ∧ access.exp ≤ refresh.exp ∧
        let db := ((stores C).final World.init es).db
        (∀ io key now now', (getSession C io key db s.accessJwt now now').isOk = true →
          now' < refresh.exp) ∧
        ∀ key, db.jwtKey = some key → ∀ row ∈ db.sessions.rows, row.id = refresh.sid →
          (∀ now now', t ≤ now → now < access.exp → now' < refresh.exp →
            (getSession C noFaults key db s.accessJwt now now').isOk = true) ∧
          (row.refreshJti = refresh.jti → ∀ now, t ≤ now → now < refresh.exp →
            (validateRefresh C noFaults key db s.refreshJwt now).isOk = true ∧
            (∀ jti accessJti,
              (refreshSession C noFaults key db s.refreshJwt now jti accessJti).isOk = true) ∧
            (deleteSession C noFaults key db s.refreshJwt now).isOk = true) := by
  refine ⟨fun t₀ t s h => h.times hC, fun es hes x hx s t hsession => ?_⟩
  obtain ⟨pre, post, htrace⟩ := List.append_of_mem hx
  obtain ⟨es₁, e, es₂, rfl, -, rfl, -⟩ := Machine.exists_of_trace_eq_cons htrace
  obtain ⟨hes₁, ⟨htyped, hfresh⟩, hes₂⟩ := Machine.meets_append.mp hes
  have hkeeps : (stores C).Keeps (fun w e => Typed w e ∧ Fresh w e)
      (fun w => Secured C w ∧ Invariant C w) fun w => Secured C w ∧ Invariant C w :=
    (keeps_secured hC).and (keeps_invariant hC)
  obtain ⟨hw, hinv⟩ := hes₁.invariant hkeeps ⟨secured_init C, invariant_init C⟩
  obtain ⟨key, a, repoKey, sid, jti, accessJti, exp, hkey, hb, rfl, hsid, hjti, hacc, hstart, hend,
    hlife, hends⟩ := of_sessionAt hC hw hinv htyped hsession
  have hnext := hkeeps _ e ⟨hw, hinv⟩ ⟨htyped, hfresh⟩ ⟨hw, hinv⟩
  -- what the step fixed holds at the end of the run
  have hlater : ∀ {D : World → Prop}, (stores C).Keeps (fun w e => Typed w e ∧ Fresh w e)
      (fun w => Secured C w ∧ Invariant C w) D →
      D ((stores C).step ((stores C).final World.init es₁) e).1 →
      D ((stores C).final World.init (es₁ ++ e :: es₂)) := by
    intro D hD hd
    rw [Machine.final_append]
    exact hes₂.kept hkeeps hD hnext hd
  have hfinal := hlater hkeeps hnext
  have hends := hlater ((keeps_ends C sid exp).mono (fun _ _ h => h.2) fun _ h => h.2) hends
  have hkey := hlater ((keeps_jwtKey C key).mono (fun _ _ h => h.1) fun _ h => h.1.toStanding)
    (keeps_jwtKey C key _ e hw.toStanding htyped hkey)
  obtain ⟨b, hbound, hbinding⟩ := hlater
    ((keeps_boundTo hC a repoKey).mono (fun _ _ h => h.1) fun _ h => h.1.toStanding)
    (keeps_boundTo hC a repoKey _ e hw.toStanding htyped ⟨a, hb, rfl⟩)
  obtain ⟨haccess, hrefresh⟩ := within_createSession hC key a sid jti accessJti hstart hend
  refine ⟨_, _, haccess, hrefresh, rfl, rfl, rfl, accessExp_le t exp, fun io key' now now' hok => ?_,
    fun key' hkey' row hrow hid => ?_⟩
  · obtain ⟨row, hrow, hid, hlt⟩ := row_of_getSession haccess.body hok
    exact hends.2 row hrow hid ▸ hlt
  obtain rfl := Option.some.inj (hkey.symm.trans hkey')
  obtain ⟨p, hp, -⟩ := (World.db _).references row hrow
  obtain ⟨b', repoKey', hb', -, henabled⟩ := hfinal.1.account hC (List.ne_nil_of_mem hp)
  obtain ⟨rfl, rfl⟩ := hbound.unique hC hb'
  have hidentity : b'.identity = a.identity := congrArg (fun c => c.2.1) hbinding
  have hexp : row.refreshExp = exp := hends.2 row hrow hid
  refine ⟨fun now now' hnow hlt hlt' => ?_, fun hlatest now hnow hlt => ?_⟩
  · exact getSession_isOk hC hport henabled hbound.genuine.identity hidentity hsid hend hrow hid hexp
      hacc hnow hlt hlt'
  · exact refresh_isOk hC hport henabled hbound.genuine.identity hidentity hsid hend hrow hid hexp
      hjti hlife hlatest hnow hlt

theorem sampleLogin_runs :
    (stores sampleCrates).Meets (fun w e => Typed w e ∧ Fresh w e) World.init sampleLogin ∧
      (((stores sampleCrates).trace World.init sampleLogin).getLast?.bind sessionAt).map
        (fun p => (p.1.refreshJwt, p.2)) = some (sampleFirst, 1700000000) ∧
      ((stores sampleCrates).final World.init sampleLogin).db.jwtKey = some sampleKey ∧
      ((stores sampleCrates).final World.init sampleLogin).db.sessions.rows =
        [⟨sampleId 1, str "phone", sampleId 2, 1700604800⟩] := by
  decide +kernel

/-- The refresh token of the login is good until the last second of its week. -/
theorem session_lifetime_sample :
    (validateRefresh sampleCrates noFaults sampleKey
      ((stores sampleCrates).final World.init sampleLogin).db sampleFirst 1700604799).isOk = true := by
  obtain ⟨hfresh, hgiven, hkey, hrows⟩ := sampleLogin_runs
  obtain ⟨⟨s, t⟩, hsession, hgiven⟩ := Option.map_eq_some_iff.mp hgiven
  obtain ⟨x, hx, hsession⟩ := Option.bind_eq_some_iff.mp hsession
  obtain ⟨htoken, rfl⟩ := Prod.mk.inj hgiven
  obtain ⟨-, hlater⟩ := session_lifetime Json.compact_lawful sampleCrates_port
  obtain ⟨access, refresh, -, hrefresh, -, -, -, -, -, haccepted⟩ := hlater sampleLogin hfresh x
    (List.mem_of_getLast? hx) s 1700000000 hsession
  have hclaims : tokenClaims sampleCrates sampleFirst =
      some ⟨sampleIdentity.did, sampleIdentity.serviceDid, TokenKind.refresh.scope, 1700000000,
        1700604800, sampleId 2, sampleId 1⟩ :=
    tokenClaims_signToken Json.compact_lawful _ ⟨by decide, by decide⟩ _
  have hbody := hrefresh.body
  rw [htoken, hclaims] at hbody
  obtain rfl := Option.some.inj hbody
  have hrow := haccepted sampleKey hkey ⟨sampleId 1, str "phone", sampleId 2, 1700604800⟩
    (by rw [hrows]; exact List.mem_singleton.mpr rfl) rfl
  rw [htoken] at hrow
  exact (hrow.2 rfl 1700604799 (by decide) (by decide)).1

end PurpleSky.Credentials
