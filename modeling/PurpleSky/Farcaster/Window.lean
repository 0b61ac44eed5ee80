import PurpleSky.Farcaster.Authority

/-!
# The window of a consent

`parse` is stated over numbers without bounds. `parseU64` is the same check with the arithmetic of
the source: differences that are checked or saturate, a sum that saturates, and casts to signed
numbers. They agree for all values (`parseU64_eq`), since the challenge was checked before.

* **`parseU64_window`**: a proof is taken for a challenge exactly when its message is within
  `Window`, a statement about integers; and for two challenges only when they share the nonce and
  the expiry.
-/

namespace PurpleSky.Farcaster

open Bytes

variable (K : Crates)

/-! ## The arithmetic of the source -/

/-- A sum of numbers of sixty-four bits, up to the largest. -/
def saturatingAdd (a b : Nat) : Nat := min (a + b) 18446744073709551615

/-- A difference of unsigned numbers, down to zero. -/
def saturatingSub (a b : Nat) : Nat := if b ≤ a then a - b else 0

/-- A difference of unsigned numbers, if there is one. -/
def checkedSub (a b : Nat) : Option Nat := if b ≤ a then some (a - b) else none

/-- The unsigned number of a signed one, if there is one. -/
def tryU64 (n : Int) : Option Nat := if 0 ≤ n then some n.toNat else none

/-- A number of sixty-four bits read as a signed one. -/
def asI64 (n : Nat) : Int := if n < 9223372036854775808 then n else n - 18446744073709551616

/-- Source: `message.rs`, `validate_challenge` -/
def validateChallengeU64 (challenge : Challenge) : Except AuthError Unit := do
  ensure (validNonce challenge.nonce ∧ (checkedSub challenge.expiresAt challenge.createdAt).any
    fun lifetime => 1 ≤ lifetime && lifetime ≤ maxChallengeSeconds) .invalidChallenge
  let _ ← timestamp K challenge.createdAt
  let _ ← timestamp K challenge.expiresAt
  pure ()

/-- Source: `message.rs`, `parse` -/
def parseU64 (proof : SignedProof) (challenge : Challenge) (domain uri : Bytes) (now : Nat) :
    Except AuthError ParsedProof := do
  validateChallengeU64 K challenge
  ensure (¬(now < challenge.createdAt ∨ challenge.expiresAt ≤ now)) .invalidChallenge
  let parsed ← parseAuthority K proof domain uri
  let message := parsed.message
  ensure (message.nonce = challenge.nonce) .invalidMessage
  let issued ← okOr (tryU64 message.issuedAt) .invalidMessage
  ensure (¬(issued < saturatingSub challenge.createdAt clockSkewSeconds ∨
    saturatingAdd now clockSkewSeconds < issued ∨ challenge.expiresAt ≤ issued)) .invalidMessage
  let expiry ← okOr message.expirationTime .invalidMessage
  ensure (¬(expiry.1 ≠ asI64 challenge.expiresAt ∨ expiry.2 ≠ 0)) .invalidMessage
  ensure (∀ notBefore ∈ message.notBefore,
    ¬(notBefore.1 ≠ asI64 challenge.createdAt ∨ notBefore.2 ≠ 0)) .invalidMessage
  pure parsed

variable {K}

theorem validateChallengeU64_eq (challenge : Challenge) :
    validateChallengeU64 K challenge = validateChallenge K challenge := by
  have hlifetime : (checkedSub challenge.expiresAt challenge.createdAt).any
        (fun n => 1 ≤ n && n ≤ maxChallengeSeconds) = true ↔
      challenge.createdAt < challenge.expiresAt ∧
        challenge.expiresAt - challenge.createdAt ≤ maxChallengeSeconds := by
    unfold checkedSub
    split_ifs with h
    · simp only [Option.any_some, Bool.and_eq_true, decide_eq_true_eq]
      omega
    · simp only [Option.any_none, Bool.false_eq_true, false_iff]
      omega
  unfold validateChallengeU64 validateChallenge
  rw [ensure_congr (and_congr_right fun _ => hlifetime)]

theorem timestamp_eq_ok {n : Nat} {text : Bytes} :
    timestamp K n = .ok text ↔ n < 9223372036854775808 ∧ K.rfc3339 n = some text := by
  simp [timestamp, bind_eq_ok]

/-- A challenge that is accepted. -/
theorem validateChallenge_eq_ok {challenge : Challenge} {u : Unit} :
    validateChallenge K challenge = .ok u ↔
      (validNonce challenge.nonce = true ∧ challenge.createdAt < challenge.expiresAt ∧
        challenge.expiresAt - challenge.createdAt ≤ maxChallengeSeconds) ∧
      (challenge.createdAt < 9223372036854775808 ∧ (K.rfc3339 challenge.createdAt).isSome = true) ∧
      challenge.expiresAt < 9223372036854775808 ∧
      (K.rfc3339 challenge.expiresAt).isSome = true := by
  simp only [validateChallenge, bind_eq_ok, ensure_eq_ok, timestamp_eq_ok, Option.isSome_iff_exists]
  constructor
  · rintro ⟨_, hform, _, ⟨h₁, h₂⟩, _, ⟨h₃, h₄⟩, -⟩
    exact ⟨hform, ⟨h₁, _, h₂⟩, h₃, _, h₄⟩
  · rintro ⟨hform, ⟨h₁, _, h₂⟩, h₃, _, h₄⟩
    exact ⟨(), hform, _, ⟨h₁, h₂⟩, _, ⟨h₃, h₄⟩, rfl⟩

theorem asI64_of_lt {n : Nat} (h : n < 9223372036854775808) : asI64 n = n := if_pos h

/-- A part of a time is wrong where the time is. -/
theorem not_ne_or_ne {x : Int × Nat} {n : Int} : ¬(x.1 ≠ n ∨ x.2 ≠ 0) ↔ x = (n, 0) := by
  rw [Prod.ext_iff]
  tauto

/-- **The arithmetic does not matter.** Where numbers of sixty-four bits go wrong, the challenge was
not accepted or the clock was not within it. -/
theorem parseU64_eq (proof : SignedProof) (challenge : Challenge) (domain uri : Bytes) (now : Nat) :
    parseU64 K proof challenge domain uri now = parse K proof challenge domain uri now := by
  unfold parseU64 parse
  rw [validateChallengeU64_eq]
  refine bind_congr_ok fun _ hchallenge => ?_
  obtain ⟨⟨-, hlt, -⟩, ⟨hcreated, -⟩, hexpires, -⟩ := validateChallenge_eq_ok.mp hchallenge
  rw [ensure_congr (show ¬(now < challenge.createdAt ∨ challenge.expiresAt ≤ now) ↔
    challenge.createdAt ≤ now ∧ now < challenge.expiresAt by omega)]
  refine bind_congr_ok fun _ hnow => ?_
  obtain ⟨-, hnow⟩ := ensure_eq_ok.mp hnow
  refine bind_congr_ok fun parsed _ => bind_congr_ok fun _ _ => ?_
  by_cases hsign : 0 ≤ parsed.message.issuedAt
  · have hissued : tryU64 parsed.message.issuedAt = some parsed.message.issuedAt.toNat :=
      if_pos hsign
    have hskew : ∀ issued : Nat, ¬(issued < saturatingSub challenge.createdAt clockSkewSeconds ∨
          saturatingAdd now clockSkewSeconds < issued ∨ challenge.expiresAt ≤ issued) ↔
        challenge.createdAt - clockSkewSeconds ≤ issued ∧ issued ≤ now + clockSkewSeconds ∧
          issued < challenge.expiresAt := by
      intro issued
      unfold saturatingSub saturatingAdd clockSkewSeconds
      split_ifs <;> omega
    rw [hissued, show ensure (0 ≤ parsed.message.issuedAt) AuthError.invalidMessage = .ok () from
      if_pos hsign]
    show (ensure _ _ >>= _) = (ensure _ _ >>= _)
    rw [ensure_congr (hskew _)]
    refine bind_congr_ok fun _ _ => bind_congr_ok fun expiry _ => ?_
    rw [asI64_of_lt hexpires, asI64_of_lt hcreated, ensure_congr not_ne_or_ne]
    refine bind_congr_ok fun _ _ => ?_
    rw [ensure_congr (forall₂_congr fun _ _ => not_ne_or_ne)]
  · have hissued : tryU64 parsed.message.issuedAt = none := if_neg hsign
    rw [hissued, show ensure (0 ≤ parsed.message.issuedAt) AuthError.invalidMessage =
      .error .invalidMessage from if_neg hsign]
    rfl

/-! ## The window -/

/-- What a message needs to be an answer to a challenge at a time, over the integers. -/
structure Window (K : Crates) (challenge : Challenge) (message : Message) (now : Nat) : Prop where
  nonce : 16 ≤ challenge.nonce.length ∧ challenge.nonce.length ≤ 128 ∧
    ∀ b ∈ challenge.nonce, isAlnum b = true
  nonce_eq : message.nonce = challenge.nonce
  lifetime : 1 ≤ (challenge.expiresAt : Int) - challenge.createdAt ∧
    (challenge.expiresAt : Int) - challenge.createdAt ≤ 600
  createdAt : challenge.createdAt < 2 ^ 63 ∧ (K.rfc3339 challenge.createdAt).isSome = true
  expiresAt : challenge.expiresAt < 2 ^ 63 ∧ (K.rfc3339 challenge.expiresAt).isSome = true
  clock : (challenge.createdAt : Int) ≤ now ∧ (now : Int) < challenge.expiresAt
  issuedAt : 0 ≤ message.issuedAt ∧ (challenge.createdAt : Int) - 60 ≤ message.issuedAt ∧
    message.issuedAt ≤ (now : Int) + 60 ∧ message.issuedAt < challenge.expiresAt
  expirationTime : message.expirationTime = some ((challenge.expiresAt : Int), 0)
  notBefore : message.notBefore = none ∨ message.notBefore = some ((challenge.createdAt : Int), 0)

/-- A challenge is answered by the messages in its window. -/
theorem parse_eq_ok {proof : SignedProof} {challenge : Challenge} {domain uri : Bytes} {now : Nat}
    {parsed : ParsedProof} :
    parse K proof challenge domain uri now = .ok parsed ↔
      parseAuthority K proof domain uri = .ok parsed ∧ Window K challenge parsed.message now := by
  simp only [parse, bind_eq_ok, ensure_eq_ok, okOr_eq_ok, pure_eq_ok, validateChallenge_eq_ok]
  constructor
  · rintro ⟨_, ⟨⟨hnonce, hlt, hlife⟩, hcreated, hexpires⟩, _, ⟨hstart, hend⟩, p, hp, _,
      hsame, _, hsign, _, ⟨hearly, hlate, hbefore⟩, expiry, hexpiry, _, rfl, _, hnot, rfl⟩
    simp only [validNonce, Bool.and_eq_true, decide_eq_true_eq, List.all_eq_true] at hnonce
    unfold maxChallengeSeconds at hlife
    unfold clockSkewSeconds at hearly hlate
    refine ⟨hp, ⟨hnonce.1.1, hnonce.1.2, hnonce.2⟩, hsame, by omega, hcreated, hexpires, by omega,
      by omega, hexpiry, ?_⟩
    rcases h : p.message.notBefore with _ | notBefore
    · exact .inl rfl
    · exact .inr (congrArg some (hnot notBefore h))
  · rintro ⟨hp, ⟨hmin, hmax, hchars⟩, hsame, hlife, hcreated, hexpires, hnow, hissued,
      hexpiry, hnot⟩
    have hnonce : validNonce challenge.nonce = true := by
      simp only [validNonce, Bool.and_eq_true, decide_eq_true_eq, List.all_eq_true]
      exact ⟨⟨hmin, hmax⟩, hchars⟩
    refine ⟨(), ⟨⟨hnonce, by omega, ?_⟩, hcreated, hexpires⟩, (), by omega, parsed, hp,
      (), hsame, (), hissued.1, (), ?_, _, hexpiry, (), rfl, (), ?_, rfl⟩
    · unfold maxChallengeSeconds
      omega
    · unfold clockSkewSeconds
      omega
    · intro notBefore hmem
      rcases hnot with hnone | hsome
      · rw [hnone] at hmem
        cases hmem
      · rw [hsome] at hmem
        exact (Option.some.inj hmem).symm

/-- The message of a proof is what its text parses to. -/
theorem parseMessage_of_parseAuthority {proof : SignedProof} {domain uri : Bytes}
    {parsed : ParsedProof} (h : parseAuthority K proof domain uri = .ok parsed) :
    K.parseMessage proof.message = some parsed.message := by
  simp only [parseAuthority, bind_eq_ok, okOr_eq_ok, pure_eq_ok] at h
  obtain ⟨_, -, message, hmessage, _, -, _, -, _, -, rfl⟩ := h
  exact hmessage

/-- **The window of a consent.** With the arithmetic of the source, a proof is taken for a challenge
at a time exactly when it is taken without one and its message is within the window of the challenge
over the integers; the verdict, with its error, is that of arithmetic without bounds; and a proof
that is taken for two challenges, wherever and whenever, has the nonce and the expiry of both. -/
theorem parseU64_window (K : Crates) (proof : SignedProof) (challenge : Challenge)
    (domain uri : Bytes) (now : Nat) :
    (∀ parsed, parseU64 K proof challenge domain uri now = .ok parsed ↔
      parseAuthority K proof domain uri = .ok parsed ∧ Window K challenge parsed.message now) ∧
    parseU64 K proof challenge domain uri now = parse K proof challenge domain uri now ∧
    ∀ challenge' domain' uri' now' parsed parsed',
      parseU64 K proof challenge domain uri now = .ok parsed →
      parseU64 K proof challenge' domain' uri' now' = .ok parsed' →
        challenge.nonce = challenge'.nonce ∧ challenge.expiresAt = challenge'.expiresAt := by
  refine ⟨fun parsed => by rw [parseU64_eq]; exact parse_eq_ok, parseU64_eq _ _ _ _ _, ?_⟩
  intro challenge' domain' uri' now' parsed parsed' h h'
  rw [parseU64_eq, parse_eq_ok] at h h'
  have hmessage : parsed.message = parsed'.message := by
    rw [← Option.some.injEq, ← parseMessage_of_parseAuthority h.1,
      ← parseMessage_of_parseAuthority h'.1]
  refine ⟨?_, ?_⟩
  · rw [← h.2.nonce_eq, ← h'.2.nonce_eq, hmessage]
  · have htime := h.2.expirationTime
    rw [hmessage, h'.2.expirationTime, Option.some.injEq, Prod.mk.injEq] at htime
    exact (Int.ofNat_inj.mp htime.1).symm

end PurpleSky.Farcaster
