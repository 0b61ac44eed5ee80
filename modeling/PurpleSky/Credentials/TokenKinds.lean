import PurpleSky.Credentials.Lifetime

/-!
# The verdicts on a token

A signed token goes through all of `verifyToken` but the checks of its claims:
`verifyToken_signToken_eq` says what is left of them. For the tokens of a session the claims are
good, so that the clock decides, and the checks that come before the expiry decide between the two
errors.

* **`verifyToken_createSession`**: each token of a session verifies from its start to its end, has
  expired from then on, and is invalid before; as a token of the other kind, or for an account with
  another DID, it is invalid at any time.
-/

namespace PurpleSky.Credentials

open Bytes Store

variable {C : Crates} {key : Bytes}

namespace TokenKind

/-- The one of two values that is for tokens of a kind. -/
def pick {α : Type} (access refresh : α) : TokenKind → α
  | .access => access
  | .refresh => refresh

theorem typ_injective : Function.Injective typ := by
  intro k l h
  cases k <;> cases l
  · rfl
  · exact absurd h (by decide)
  · exact absurd h (by decide)
  · rfl

end TokenKind

/-- The token of a kind. -/
def Session.token (s : Session) (kind : TokenKind) : Bytes := kind.pick s.accessJwt s.refreshJwt

/-- What `verifyToken` asks of the claims before their expiry. -/
def Claims.Fit (claims : Claims) (account : Account) (kind : TokenKind) (now : Nat) : Prop :=
  claims.sub = account.identity.did ∧ claims.aud = account.identity.serviceDid ∧
    claims.scope = kind.scope ∧ claims.iat ≤ now ∧ claims.iat < claims.exp ∧
    claims.exp - claims.iat ≤ kind.lifetime ∧ isId claims.sid = true ∧ isId claims.jti = true

instance (claims : Claims) (account : Account) (kind : TokenKind) (now : Nat) :
    Decidable (claims.Fit account kind now) :=
  inferInstanceAs (Decidable (_ ∧ _ ∧ _ ∧ _ ∧ _ ∧ _ ∧ _ ∧ _))

/-- A signed token is not found wrong before its kind and its claims are looked at. -/
theorem verifyToken_signToken_eq (hC : C.json.Lawful) {claims : Claims} (hrange : claims.InRange)
    {kind : TokenKind} (hlength : (signToken C key claims kind).length ≤ 4096) (b : Account)
    (other : TokenKind) (n : Nat) :
    verifyToken C key (signToken C key claims kind) b other n = (do
      ensure (kind = other) .invalidToken
      ensure (claims.Fit b other n) .invalidToken
      ensure (n < claims.exp) .expiredToken
      pure claims) := by
  have hheader := tokenHeader_signToken hC key claims kind
  have hclaims := tokenClaims_signToken hC key hrange kind
  rw [tokenHeader, parts_signToken] at hheader
  rw [tokenClaims, parts_signToken] at hclaims
  simp only [Option.bind_eq_bind, Option.bind_some, ofSegment_segment,
    Option.bind_eq_some_iff] at hheader hclaims
  obtain ⟨header, hparse, hheader⟩ := hheader
  obtain ⟨body, hbody, hclaims⟩ := hclaims
  have hmac : Sha2.hmac key (segment (C.json.render (Header.toJson ⟨str "HS256", kind.typ⟩)) ++
      46 :: segment (C.json.render claims.toJson)) = Sha2.hmac key (signingInput C claims kind) := rfl
  have hkind : (True ∧ kind.typ = other.typ) ↔ kind = other := by
    rw [true_and, TokenKind.typ_injective.eq_iff]
  unfold verifyToken
  rw [ensure_of hlength, parts_signToken]
  simp only [ok_bind, okOr_some, ofSegment_segment, hparse, hheader, hbody, hclaims, ensure_of hmac]
  by_cases h : kind = other
  · rw [ensure_of (hkind.mpr h), ensure_of h]
    rfl
  · rw [ensure_of_not (mt hkind.mp h), ensure_of_not h]
    rfl

section

variable (hC : C.json.Lawful)
  (hport : ∀ s url port, C.parseUrl s = some url → url.port = some port → port < 65536)

include hC hport

/-- The verdicts on a token whose claims are good for an account from `iat` on. -/
theorem verdicts {a : Account} {claims : Claims} {kind : TokenKind}
    (hvalid : a.identity.validate C = .ok ()) (hrange : claims.InRange)
    (hfit : ∀ n, claims.Fit a kind n ↔ claims.iat ≤ n) (hlt : claims.iat < claims.exp) (n : Nat) :
    (verifyToken C key (signToken C key claims kind) a kind n = .ok claims ↔
      claims.iat ≤ n ∧ n < claims.exp) ∧
    (verifyToken C key (signToken C key claims kind) a kind n = .error .expiredToken ↔
      claims.exp ≤ n) ∧
    (verifyToken C key (signToken C key claims kind) a kind n = .error .invalidToken ↔
      n < claims.iat) := by
  obtain ⟨hsub, haud, hscope, -, -, -, hsid, hjti⟩ := (hfit claims.iat).mpr le_rfl
  have hlength := length_signToken_le hport hvalid key hrange hscope hsid hjti hsub haud
  have heq := verifyToken_signToken_eq hC hrange hlength a kind n
  rw [ensure_of (rfl : kind = kind), ok_bind] at heq
  rw [heq]
  by_cases hstart : claims.iat ≤ n
  · rw [ensure_of ((hfit n).mpr hstart), ok_bind]
    by_cases hend : n < claims.exp
    · rw [ensure_of hend, ok_bind]
      refine ⟨iff_of_true rfl ⟨hstart, hend⟩, iff_of_false nofun (not_le.mpr hend),
        iff_of_false nofun (not_lt.mpr hstart)⟩
    · rw [ensure_of_not hend]
      exact ⟨iff_of_false nofun fun h => hend h.2, iff_of_true rfl (not_lt.mp hend),
        iff_of_false nofun (not_lt.mpr hstart)⟩
  · rw [ensure_of_not (mt (hfit n).mp hstart)]
    exact ⟨iff_of_false nofun fun h => hstart h.1,
      iff_of_false nofun fun h => hstart (hlt.le.trans h), iff_of_true rfl (not_le.mp hstart)⟩

/-- **The tokens of a session.** For an account with a valid identity, a session made before its end
and no longer than it may be, and either kind: the token is not too long; with its own kind it gives
its claims from its start to its end, has expired from its end on, and is invalid before its start;
and it is invalid at any time as a token of the other kind, and for an account with another DID or
service DID. The identifiers are as `random_id` makes them, and the sum in `accessExp` does not wrap,
as it never does where the store calls `create_session` (`Given.sum_le`). -/
theorem verifyToken_createSession (key : Bytes) (account : Account)
    (hvalid : account.identity.validate C = .ok ()) (sid refreshJti accessJti : Bytes)
    (hsid : isId sid = true) (hrefresh : isId refreshJti = true) (haccess : isId accessJti = true)
    (now refreshExp : Nat) (hnow : now < refreshExp) (hlife : refreshExp ≤ now + refreshSeconds)
    (hmax : refreshExp ≤ u64Max) (hsum : now + accessSeconds ≤ u64Max) (kind : TokenKind) :
    let token := (createSession C key account sid refreshJti accessJti now refreshExp).token kind
    let claims := claimsFor account kind sid (kind.pick accessJti refreshJti) now
      (kind.pick (accessExp now refreshExp) refreshExp)
    token.length ≤ 4096 ∧
    (∀ n, (verifyToken C key token account kind n = .ok claims ↔ claims.iat ≤ n ∧ n < claims.exp) ∧
      (verifyToken C key token account kind n = .error .expiredToken ↔ claims.exp ≤ n) ∧
      (verifyToken C key token account kind n = .error .invalidToken ↔ n < claims.iat)) ∧
    (∀ other n, other ≠ kind → verifyToken C key token account other n = .error .invalidToken) ∧
    ∀ (b : Account) other n, (b.identity.did ≠ account.identity.did ∨
        b.identity.serviceDid ≠ account.identity.serviceDid) →
      verifyToken C key token b other n = .error .invalidToken := by
  intro token claims
  have htoken : token = signToken C key claims kind := by cases kind <;> rfl
  have hlong : now < claims.exp ∧ claims.exp ≤ u64Max ∧ claims.exp - now ≤ kind.lifetime := by
    have hshort := accessExp_le_add now refreshExp
    cases kind with
    | access =>
        refine ⟨lt_accessExp hsum hnow, (accessExp_le now refreshExp).trans hmax, ?_⟩
        exact Nat.sub_le_of_le_add (by rwa [Nat.add_comm] at hshort)
    | refresh => exact ⟨hnow, hmax, Nat.sub_le_of_le_add (by rwa [Nat.add_comm] at hlife)⟩
  obtain ⟨hlt, hle, hlifetime⟩ := hlong
  have hjti : isId claims.jti = true := by
    cases kind with
    | access => exact haccess
    | refresh => exact hrefresh
  have hrange : claims.InRange := ⟨hlt.le.trans hle, hle⟩
  have hlength : (signToken C key claims kind).length ≤ 4096 :=
    length_signToken_le hport hvalid key hrange rfl hsid hjti rfl rfl
  have hfit : ∀ n, claims.Fit account kind n ↔ claims.iat ≤ n := fun n =>
    ⟨fun h => h.2.2.2.1, fun h => ⟨rfl, rfl, rfl, h, hlt, hlifetime, hsid, hjti⟩⟩
  rw [htoken]
  refine ⟨hlength, verdicts hC hport hvalid hrange hfit hlt, fun other n hother => ?_,
    fun b other n hother => ?_⟩
  · rw [verifyToken_signToken_eq hC hrange hlength, ensure_of_not hother.symm]
    rfl
  · have hnot : ¬claims.Fit b other n := by
      rintro ⟨hsub, haud, -⟩
      rcases hother with hdid | hservice
      · exact hdid hsub.symm
      · exact hservice haud.symm
    rw [verifyToken_signToken_eq hC hrange hlength, ensure_of_not hnot]
    by_cases h : kind = other
    · rw [ensure_of h]
      rfl
    · rw [ensure_of_not h]
      rfl

end

/-- An account with the sample identity. -/
def sampleAccount : Account :=
  ⟨1, str "0xa1", sampleIdentity, true, 1700000000, [], [], []⟩

/-- An access token of the sample is a token of its own kind only. -/
theorem verifyToken_createSession_sample :
    let token := (createSession sampleCrates sampleKey sampleAccount (sampleId 1) (sampleId 2)
      (sampleId 3) 1700000000 1700604800).token .access
    (∃ claims, verifyToken sampleCrates sampleKey token sampleAccount .access 1700001799 = .ok claims) ∧
      verifyToken sampleCrates sampleKey token sampleAccount .access 1700001800 =
        .error .expiredToken ∧
      verifyToken sampleCrates sampleKey token sampleAccount .refresh 1700000000 =
        .error .invalidToken := by
  obtain ⟨-, hclock, hkind, -⟩ := verifyToken_createSession Json.compact_lawful sampleCrates_port
    sampleKey sampleAccount (by decide +kernel) (sampleId 1) (sampleId 2) (sampleId 3)
    (by decide +kernel) (by decide +kernel) (by decide +kernel) 1700000000 1700604800 (by decide)
    (by decide) (by decide) (by decide) .access
  exact ⟨⟨_, (hclock 1700001799).1.mpr ⟨by decide, by decide +kernel⟩⟩,
    (hclock 1700001800).2.1.mpr (by decide +kernel), hkind .refresh _ (by decide)⟩

end PurpleSky.Credentials
