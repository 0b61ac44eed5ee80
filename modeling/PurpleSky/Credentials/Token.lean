import PurpleSky.Lib.Base64
import PurpleSky.Credentials.Basic

/-!
# Session tokens

A token is a header, its claims and an HMAC over both, in three segments of URL-safe Base64 between
dots. `signToken` writes one, `verifyToken` checks one against an account, a kind and a clock.

* **`tokenClaims_signToken`**: a signed token says the claims it was signed for.
* **`verifyToken_eq_ok`**: what a token must be to verify. The claims returned are those it says.
-/

namespace PurpleSky.Credentials

open Bytes

/-- Source: `lib.rs`, `TokenKind` -/
inductive TokenKind where
  | access
  | refresh
  deriving DecidableEq, Repr

namespace TokenKind

/-- Source: `lib.rs`, `TokenKind::typ` -/
def typ : TokenKind → Bytes
  | access => str "at+jwt"
  | refresh => str "refresh+jwt"

/-- Source: `lib.rs`, `TokenKind::scope` -/
def scope : TokenKind → Bytes
  | access => str "com.atproto.appPass"
  | refresh => str "com.atproto.refresh"

/-- Source: `lib.rs`, `TokenKind::lifetime` -/
def lifetime : TokenKind → Nat
  | access => accessSeconds
  | refresh => refreshSeconds

end TokenKind

/-- Source: `lib.rs`, `Claims` -/
structure Claims where
  sub : Bytes
  aud : Bytes
  scope : Bytes
  iat : Nat
  exp : Nat
  jti : Bytes
  sid : Bytes
  deriving DecidableEq, Repr

/-- Source: `lib.rs`, `Header` -/
structure Header where
  alg : Bytes
  typ : Bytes
  deriving DecidableEq, Repr

/-- The derived reading of a header, which takes no other fields. -/
def Header.ofJson? (v : Json) : Option Header :=
  match Json.fieldsOf true [str "alg", str "typ"] v with
  | some [alg, typ] => do pure ⟨← alg.asStr, ← typ.asStr⟩
  | _ => none

/-- A header as a JSON value, keys in order. -/
def Header.toJson (h : Header) : Json :=
  .object [(str "alg", .string h.alg), (str "typ", .string h.typ)]

/-- The claims by name, in the order of their declaration. -/
def Claims.fields (c : Claims) : List (Bytes × Json) :=
  [(str "sub", .string c.sub), (str "aud", .string c.aud), (str "scope", .string c.scope),
    (str "iat", .integer c.iat), (str "exp", .integer c.exp), (str "jti", .string c.jti),
    (str "sid", .string c.sid)]

/-- Claims as a JSON value, keys in order. -/
def Claims.toJson (c : Claims) : Json :=
  .object [(str "aud", .string c.aud), (str "exp", .integer c.exp), (str "iat", .integer c.iat),
    (str "jti", .string c.jti), (str "scope", .string c.scope), (str "sid", .string c.sid),
    (str "sub", .string c.sub)]

/-- The derived reading of claims, which takes no other fields. -/
def Claims.ofJson? (v : Json) : Option Claims :=
  match Json.fieldsOf true [str "sub", str "aud", str "scope", str "iat", str "exp", str "jti",
    str "sid"] v with
  | some [sub, aud, scope, iat, exp, jti, sid] => do
      pure ⟨← sub.asStr, ← aud.asStr, ← scope.asStr, ← iat.asU64, ← exp.asU64, ← jti.asStr,
        ← sid.asStr⟩
  | _ => none

/-- Claims whose times are numbers of sixty-four bits. -/
def Claims.InRange (c : Claims) : Prop := c.iat ≤ u64Max ∧ c.exp ≤ u64Max

/-- Claims in range read back. -/
theorem Claims.ofJson?_toJson {c : Claims} (h : c.InRange) : Claims.ofJson? c.toJson = some c := by
  have hread : Json.fieldsOf true (c.fields.map Prod.fst) c.toJson =
      some (c.fields.map Prod.snd) :=
    Json.fieldsOf_object true (by simp [fields]) (by simp [fields])
      (by simp only [List.map_cons, List.map_nil]; decide +kernel)
  have hi : c.iat < 18446744073709551616 := Nat.lt_succ_of_le h.1
  have he : c.exp < 18446744073709551616 := Nat.lt_succ_of_le h.2
  simp only [fields, List.map_cons, List.map_nil] at hread
  rw [ofJson?, hread]
  simp only [Json.asStr, Json.asU64_integer hi, Json.asU64_integer he]
  rfl

theorem Header.ofJson?_toJson (h : Header) : Header.ofJson? h.toJson = some h := by
  have hnd : [str "alg", str "typ"].Nodup := by decide +kernel
  have hread : Json.fieldsOf true [str "alg", str "typ"]
      (.record [str "alg", str "typ"] [.string h.alg, .string h.typ]) =
      some [.string h.alg, .string h.typ] := Json.fieldsOf_record true hnd rfl
  have hjson : h.toJson = .record [str "alg", str "typ"] [.string h.alg, .string h.typ] := rfl
  rw [hjson, ofJson?, hread]
  rfl

/-! ## Signing -/

/-- A segment of a token. -/
def segment (b : Bytes) : Bytes := Base64.encode Base64.urlSafe b

/-- The bytes of a segment. -/
def ofSegment (s : Bytes) : Option Bytes := Base64.decode Base64.urlSafe .requireNone s

/-- The three segments of a token. -/
def parts (token : Bytes) : Option (Bytes × Bytes × Bytes) :=
  match token.splitOn 46 with
  | [header, body, signature] => some (header, body, signature)
  | _ => none

/-- What a signature covers. -/
def signingInput (C : Crates) (claims : Claims) (kind : TokenKind) : Bytes :=
  segment (C.json.render (Header.toJson ⟨str "HS256", kind.typ⟩)) ++
    46 :: segment (C.json.render claims.toJson)

/-- Sign claims. Neither JSON texts nor the HMAC can fail here.
Source: `lib.rs`, `sign_token` -/
def signToken (C : Crates) (key : Bytes) (claims : Claims) (kind : TokenKind) : Bytes :=
  let input := signingInput C claims kind
  input ++ 46 :: segment (Sha2.hmac key input)

/-- A token carries a valid tag. -/
def validTag (key token : Bytes) : Bool :=
  match parts token with
  | some (header, body, signature) =>
      ofSegment signature == some (Sha2.hmac key (header ++ 46 :: body))
  | none => false

/-- The claims a token says, whoever signed it. -/
def tokenClaims (C : Crates) (token : Bytes) : Option Claims := do
  let (_, body, _) ← parts token
  let text ← ofSegment body
  let value ← C.json.parse text
  Claims.ofJson? value

/-- The header of a token. -/
def tokenHeader (C : Crates) (token : Bytes) : Option Header := do
  let (header, _, _) ← parts token
  let text ← ofSegment header
  let value ← C.json.parse text
  Header.ofJson? value

/-- An identifier as `random_id` makes them. -/
def isId (s : Bytes) : Bool := s.length == 64 && s.all isHexDigit

/-- Verify a token: its tag first, then its header, then its claims against the account, the kind
and the clock.
Source: `lib.rs`, `verify_token` -/
def verifyToken (C : Crates) (key token : Bytes) (account : Account) (kind : TokenKind)
    (now : Nat) : Except Error Claims := do
  ensure (token.length ≤ 4096) .invalidToken
  let (header, body, signature) ← okOr (parts token) .invalidToken
  let signature ← okOr (ofSegment signature) .invalidToken
  ensure (Sha2.hmac key (header ++ 46 :: body) = signature) .invalidToken
  let header ← okOr (ofSegment header) .invalidToken
  let header ← okOr (C.json.parse header) .invalidToken
  let header ← okOr (Header.ofJson? header) .invalidToken
  ensure (header.alg = str "HS256" ∧ header.typ = kind.typ) .invalidToken
  let body ← okOr (ofSegment body) .invalidToken
  let body ← okOr (C.json.parse body) .invalidToken
  let claims ← okOr (Claims.ofJson? body) .invalidToken
  ensure (claims.sub = account.identity.did ∧ claims.aud = account.identity.serviceDid ∧
    claims.scope = kind.scope ∧ claims.iat ≤ now ∧ claims.iat < claims.exp ∧
    claims.exp - claims.iat ≤ kind.lifetime ∧ isId claims.sid ∧ isId claims.jti) .invalidToken
  ensure (now < claims.exp) .expiredToken
  pure claims

/-! ## What signing and verifying mean -/

theorem dot_notMem_segment (b : Bytes) : (46 : UInt8) ∉ segment b := by
  intro h
  obtain ⟨n, -, hn⟩ := List.mem_map.mp h
  have hne : ∀ i, Base64.urlSafe.symbol i ≠ 46 := by decide
  exact hne _ hn

@[simp] theorem ofSegment_segment (b : Bytes) : ofSegment (segment b) = some b :=
  Base64.decode_encode Base64.urlSafe .requireNone b

theorem parts_signToken (C : Crates) (key : Bytes) (claims : Claims) (kind : TokenKind) :
    parts (signToken C key claims kind) =
      some (segment (C.json.render (Header.toJson ⟨str "HS256", kind.typ⟩)),
        segment (C.json.render claims.toJson),
        segment (Sha2.hmac key (signingInput C claims kind))) := by
  rw [parts, signToken, signingInput, List.append_assoc, List.cons_append,
    List.splitOn_append_cons_self_of_not_mem (dot_notMem_segment _),
    List.splitOn_append_cons_self_of_not_mem (dot_notMem_segment _),
    List.splitOn_eq_singleton (dot_notMem_segment _)]

/-- A signed token carries a valid tag. -/
theorem validTag_signToken (C : Crates) (key : Bytes) (claims : Claims) (kind : TokenKind) :
    validTag key (signToken C key claims kind) = true := by
  rw [validTag, parts_signToken]
  simp [signingInput]

theorem Claims.toJson_plain {c : Claims} (h : c.InRange) : c.toJson.Plain 127 := by
  obtain ⟨hi, he⟩ := h
  unfold u64Max at hi he
  refine .object ?_
  simp only [List.mem_cons, List.not_mem_nil, or_false, forall_eq_or_imp, forall_eq]
  exact ⟨.string _ _, .integer _ (by omega) (by omega), .integer _ (by omega) (by omega),
    .string _ _, .string _ _, .string _ _, .string _ _⟩

/-- A signed token says the claims it was signed for. -/
theorem tokenClaims_signToken {C : Crates} (hC : C.json.Lawful) (key : Bytes) {claims : Claims}
    (h : claims.InRange) (kind : TokenKind) :
    tokenClaims C (signToken C key claims kind) = some claims := by
  have hparse := hC.parse_render _ (Claims.toJson_plain h)
  rw [tokenClaims, parts_signToken]
  show (ofSegment (segment (C.json.render claims.toJson))).bind _ = _
  rw [ofSegment_segment, Option.bind_some]
  show (C.json.parse (C.json.render claims.toJson)).bind _ = _
  rw [hparse, Option.bind_some, Claims.ofJson?_toJson h]

theorem Claims.inRange_of_ofJson? {v : Json} {c : Claims} (h : Claims.ofJson? v = some c) :
    c.InRange := by
  have hu : ∀ {w : Json} {n : Nat}, w.asU64 = some n → n ≤ u64Max := by
    intro w n hw
    cases w with
    | integer i =>
        simp only [Json.asU64] at hw
        split at hw
        · rename_i hi
          obtain rfl := Option.some.inj hw
          unfold u64Max
          omega
        · cases hw
    | _ => cases hw
  unfold ofJson? at h
  split at h
  · simp only [Option.bind_eq_bind, Option.bind_eq_some_iff, Option.pure_def,
      Option.some.injEq] at h
    obtain ⟨_, -, _, -, _, -, iat, hiat, exp, hexp, _, -, _, -, rfl⟩ := h
    exact ⟨hu hiat, hu hexp⟩
  · cases h

/-- The times a token says are in range. -/
theorem inRange_of_tokenClaims {C : Crates} {token : Bytes} {c : Claims}
    (h : tokenClaims C token = some c) : c.InRange := by
  simp only [tokenClaims, Option.bind_eq_bind, Option.bind_eq_some_iff] at h
  obtain ⟨_, -, _, -, v, -, hc⟩ := h
  exact Claims.inRange_of_ofJson? hc

/-- When a token verifies: its tag is valid, and its header and its claims are as they should be. -/
theorem verifyToken_eq_ok {C : Crates} {key token : Bytes} {account : Account} {kind : TokenKind}
    {now : Nat} {claims : Claims} :
    verifyToken C key token account kind now = .ok claims ↔
      token.length ≤ 4096 ∧ validTag key token = true ∧
      tokenHeader C token = some ⟨str "HS256", kind.typ⟩ ∧ tokenClaims C token = some claims ∧
      (claims.sub = account.identity.did ∧ claims.aud = account.identity.serviceDid ∧
        claims.scope = kind.scope ∧ claims.iat ≤ now ∧ claims.iat < claims.exp ∧
        claims.exp - claims.iat ≤ kind.lifetime ∧ isId claims.sid = true ∧
        isId claims.jti = true) ∧
      now < claims.exp := by
  constructor
  · intro h
    simp only [verifyToken, bind_eq_ok, ensure_eq_ok, okOr_eq_ok, pure_eq_ok] at h
    obtain ⟨-, hlen, ⟨x, y, z⟩, hparts, tag, htag, -, hmac, ht, hht, hv, hhv, ⟨alg, typ⟩, hh, -,
      ⟨halg, htyp⟩, bt, hbt, bv, hbv, c, hc, -, hclaims, -, hexp, rfl⟩ := h
    simp only at halg htyp
    refine ⟨hlen, ?_, ?_, ?_, hclaims, hexp⟩
    · simp [validTag, hparts, htag, hmac]
    · simp only [tokenHeader, hparts, hht, hhv, hh, Option.bind_eq_bind, Option.bind_some, halg,
        htyp]
    · simp only [tokenClaims, hparts, hbt, hbv, hc, Option.bind_eq_bind, Option.bind_some]
  · rintro ⟨hlen, htag, hheader, hbody, hclaims, hexp⟩
    cases hparts : parts token with
    | none => simp [validTag, hparts] at htag
    | some p =>
        obtain ⟨x, y, z⟩ := p
        simp only [validTag, hparts, beq_iff_eq] at htag
        simp only [tokenHeader, hparts, Option.bind_eq_bind, Option.bind_some,
          Option.bind_eq_some_iff] at hheader
        simp only [tokenClaims, hparts, Option.bind_eq_bind, Option.bind_some,
          Option.bind_eq_some_iff] at hbody
        obtain ⟨ht, hht, hv, hhv, hh⟩ := hheader
        obtain ⟨bt, hbt, bv, hbv, hc⟩ := hbody
        simp only [verifyToken, bind_eq_ok, ensure_eq_ok, okOr_eq_ok, pure_eq_ok]
        exact ⟨(), hlen, ⟨x, y, z⟩, hparts, _, htag, (), rfl, ht, hht, hv, hhv, _, hh, (),
          ⟨rfl, rfl⟩, bt, hbt, bv, hbv, claims, hc, (), hclaims, (), hexp, rfl⟩

end PurpleSky.Credentials
