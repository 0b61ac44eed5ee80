import PurpleSky.Farcaster.Authority
import PurpleSky.Farcaster.Texts

/-!
# What it takes to be revoked

An identity that was returned for a proof is checked again. `Against` is what a provider can say
against it at a block; every other failure is operational.

* **`refuted_of_recheckIdentity`**: an error that revokes means that the provider served a recent
  block that is not behind, and spoke against the identity at it.
-/

namespace PurpleSky.Farcaster

open Bytes

variable {K : Crates} {client : AuthClient} {net : Net} {parsed : ParsedProof} {block : Block}

/-- The errors that revoke an authority. -/
def AuthError.Revokes (e : AuthError) : Prop := e = .unauthorized ∨ e = .invalidSignature

/-- It is decided by looking at the error. -/
instance (e : AuthError) : Decidable e.Revokes := inferInstanceAs (Decidable (_ ∨ _))

/-- A failure that revokes nothing. -/
def AuthError.Operational (e : AuthError) : Prop := ¬e.Revokes

/-- So is whether it revokes nothing. -/
instance (e : AuthError) : Decidable e.Operational := inferInstanceAs (Decidable (¬_))

/-! ## Operational failures -/

/-- That the provider cannot be reached revokes nothing. -/
theorem unavailable_operational : AuthError.Operational .unavailable := by decide

/-- Neither does evidence that is malformed, old or of another chain. -/
theorem invalidChainEvidence_operational : AuthError.Operational .invalidChainEvidence := by decide

/-- A body that is cut off or too long is only unavailable, by induction on its chunks. -/
theorem throws_readChunks {bytes : Bytes} {chunks : List Bytes} {complete : Bool} :
    Throws AuthError.Operational (readChunks bytes chunks complete) := by
  induction chunks generalizing bytes with
  | nil =>
      apply Throws.bind
      · exact throws_ensure fun _ => unavailable_operational
      · intro _ _
        exact throws_pure _
  | cons chunk chunks ih =>
      apply Throws.bind
      · exact throws_ensure fun _ => unavailable_operational
      · intro _ _
        exact ih

/-- A request that fails, or has another status, is only unavailable. -/
theorem throws_send {response : Response} : Throws AuthError.Operational (send response) := by
  cases response with
  | failed =>
      rintro e h
      obtain rfl := Except.error.inj h
      exact unavailable_operational
  | reply status contentLength chunks complete =>
      apply Throws.bind
      · exact throws_ensure fun _ => unavailable_operational
      · intro _ _
        apply Throws.bind throws_readChunks
        intro _ _
        exact throws_pure _

/-- A call that fails revokes nothing. -/
theorem throws_rpc {i : Nat} {method : Bytes} {params : List Json} :
    Throws AuthError.Operational (rpc K client net i method params) := by
  apply Throws.bind throws_send
  intro _ _
  apply Throws.bind (throws_ensure fun _ => unavailable_operational)
  intro _ _
  apply Throws.bind (throws_okOr fun _ => invalidChainEvidence_operational)
  intro value _
  apply Throws.bind (throws_ensure fun _ => invalidChainEvidence_operational)
  intro _ _ e h
  split at h
  · obtain rfl := Except.error.inj h
    exact invalidChainEvidence_operational
  · obtain rfl := Except.error.inj h
    exact invalidChainEvidence_operational
  · cases h

/-- A value that is no text is malformed evidence. -/
theorem throws_text {v : Json} : Throws AuthError.Operational (text v) :=
  throws_okOr fun _ => invalidChainEvidence_operational

/-- So is an object without a field. -/
theorem throws_field {v : Json} {key : Bytes} : Throws AuthError.Operational (field v key) :=
  throws_okOr fun _ => invalidChainEvidence_operational

/-- So is a text that is not in hexadecimal digits. -/
theorem throws_decodeHex {t : Bytes} : Throws AuthError.Operational (decodeHex t) := by
  apply Throws.bind (throws_okOr fun _ => invalidChainEvidence_operational)
  intro _ _
  exact throws_okOr fun _ => invalidChainEvidence_operational

/-- So is a text that is no quantity. -/
theorem throws_quantity {t : Bytes} : Throws AuthError.Operational (quantity t) := by
  refine Throws.mono quantity_throws ?_
  rintro _ rfl
  exact invalidChainEvidence_operational

/-- So is a word that does not fit. -/
theorem throws_wordU64 {w : Bytes} : Throws AuthError.Operational (wordU64 w) := by
  apply Throws.bind (throws_ensure fun _ => invalidChainEvidence_operational)
  intro _ _
  exact throws_pure _

/-- A call of a contract fails as a request does, or its result is malformed. -/
theorem throws_ethCall {i : Nat} {target data : Bytes} {at_ : Json} :
    Throws AuthError.Operational (ethCall K client net i target data at_) := by
  apply Throws.bind throws_rpc
  intro _ _
  apply Throws.bind throws_text
  intro _ _
  exact throws_decodeHex

/-- A provider without a recent block that is not behind revokes nothing. -/
theorem throws_finalizedBlock {now : Nat} {expected : Option VerifiedIdentity} :
    Throws AuthError.Operational (finalizedBlock K client net now expected) := by
  have hensure : ∀ {c : Prop} [Decidable c],
      Throws AuthError.Operational (ensure c AuthError.invalidChainEvidence) :=
    throws_ensure fun _ => invalidChainEvidence_operational
  apply Throws.bind throws_rpc
  intro _ _
  apply Throws.bind throws_text
  intro _ _
  apply Throws.bind throws_quantity
  intro _ _
  apply Throws.bind hensure
  intro _ _
  apply Throws.bind throws_rpc
  intro _ _
  apply Throws.bind throws_field
  intro _ _
  apply Throws.bind throws_quantity
  intro _ _
  apply Throws.bind throws_field
  intro _ _
  apply Throws.bind throws_decodeHex
  intro _ _
  apply Throws.bind hensure
  intro _ _
  apply Throws.bind throws_field
  intro _ _
  apply Throws.bind throws_quantity
  intro _ _
  apply Throws.bind hensure
  intro _ _
  apply Throws.bind hensure
  intro _ _
  exact throws_pure _

/-! ## Verdicts -/

/-- What a provider says at a block speaks against an identity: the signature, the custody, or the
authority of the address. -/
inductive Against (K : Crates) (client : AuthClient) (net : Net) (parsed : ParsedProof)
    (blockHash custodyAddress : Bytes) : Prop where
  | eoa (code : ServesCode K client net (hexText parsed.message.address) blockHash [])
      (unsigned : ¬EoaSigned K parsed) : Against K client net parsed blockHash custodyAddress
  | erc1271 {code result : Bytes}
      (served : ServesCode K client net (hexText parsed.message.address) blockHash code)
      (deployed : code ≠ []) (own : ¬Delegated code)
      (call : Called K client net 3 (hexText parsed.message.address)
        (erc1271Calldata K parsed.digest parsed.signature) blockHash result)
      (unsigned : result ≠ magicWord) : Against K client net parsed blockHash custodyAddress
  | custody {custodyOf : Bytes}
      (call : Called K client net 4 idRegistry (custodyOfCalldata K parsed.fid) blockHash custodyOf)
      (address : custodyOf.length = 32 ∧ custodyOf.take 12 = List.replicate 12 0)
      (other : custodyOf.drop 12 = List.replicate 20 0 ∨
        hexText (custodyOf.drop 12) ≠ custodyAddress) :
      Against K client net parsed blockHash custodyAddress
  | authority {keyDataOf : Bytes} {keyState keyType fid : Nat}
      (keys : Called K client net 5 keyRegistry (authKeyCalldata K parsed.fid parsed.message.address)
        blockHash keyDataOf)
      (key : keyDataOf = word keyState ++ word keyType ∧ keyState ≤ 2 ∧ keyType ≤ 4294967295)
      (unregistered : ¬(keyState = 1 ∧ keyType = 2))
      (ids : Called K client net 6 idRegistry (idOfCalldata K parsed.message.address) blockHash
        (word fid))
      (other : ¬(fid = parsed.fid ∧ custodyAddress = hexText parsed.message.address)) :
      Against K client net parsed blockHash custodyAddress

variable {identity : VerifiedIdentity} {proof : SignedProof} {now : Nat}

/-- An error that revokes has a reason. -/
def Justified (R : Prop) (e : AuthError) : Prop := e.Revokes → R

/-- What revokes nothing needs no reason. -/
theorem justified {α : Type} {x : Except AuthError α} {R : Prop}
    (h : Throws AuthError.Operational x) : Throws (Justified R) x :=
  h.mono fun _ he hr => absurd hr he

/-- An account without code is refuted by a signature that is not its own. -/
theorem throws_verifyEoa (h : ServesCode K client net (hexText parsed.message.address) block.hash [])
    (custodyAddress : Bytes) :
    Throws (Justified (Against K client net parsed block.hash custodyAddress))
      (verifyEoa K parsed) := by
  intro e he _
  refine .eoa h fun hsigned => ?_
  rw [verifyEoa_eq_ok.mpr hsigned] at he
  cases he

/-- An error of the signature that revokes is what the code at the address says, or the signature
where there is none. -/
theorem throws_checkSignature (custodyAddress : Bytes) :
    Throws (Justified (Against K client net parsed block.hash custodyAddress))
      (checkSignature K client net parsed block) := by
  unfold checkSignature
  refine Throws.bind (justified throws_rpc) fun v hv => ?_
  refine Throws.bind (justified throws_text) fun t ht => ?_
  refine Throws.bind (justified throws_decodeHex) fun code hcode => ?_
  have hserves : ServesCode K client net (hexText parsed.message.address) block.hash code := by
    obtain rfl := text_eq_ok.mp ht
    exact ⟨t, rpc_eq_ok.mp hv, hcode⟩
  by_cases hempty : code = []
  · rw [if_pos hempty]
    subst hempty
    refine Throws.bind (throws_verifyEoa hserves custodyAddress) fun _ _ => ?_
    exact throws_pure _
  · rw [if_neg hempty]
    refine Throws.bind (throws_ensure fun _ hr => by rcases hr with h | h <;> cases h) fun _ hown => ?_
    refine Throws.bind (justified throws_ethCall) fun result hcall => ?_
    refine Throws.bind (throws_ensure fun hmagic _ => ?_) fun _ _ => throws_pure _
    have hown : ¬Delegated code := fun h => by
      rw [ensure_eq_ok, List.isPrefixOf_iff_prefix.mpr h] at hown
      cases hown
    rw [eq_magicWord_iff] at hmagic
    exact .erc1271 hserves hempty hown (ethCall_eq_ok.mp hcall) hmagic

/-- An error of the custody that revokes is that the registry names nobody, or somebody else. -/
theorem throws_checkCustody :
    Throws (Justified (Against K client net parsed block.hash identity.custodyAddress))
      (checkCustody K client net parsed block (some identity)) := by
  unfold checkCustody
  refine Throws.bind (justified throws_ethCall) fun custody hcall => ?_
  have hcall := ethCall_eq_ok.mp hcall
  refine Throws.bind (justified (throws_ensure fun _ => invalidChainEvidence_operational))
    fun _ hform => ?_
  obtain ⟨hlength, hhigh⟩ := ensure_eq_ok.mp hform
  have htake : custody.take 12 = List.replicate 12 0 := by
    refine List.eq_replicate_iff.mpr ⟨by rw [List.length_take, hlength]; rfl, fun b hb => ?_⟩
    exact of_decide_eq_true (List.all_eq_true.mp hhigh b hb)
  refine Throws.bind (throws_ensure fun hzero _ => ?zero) fun _ _ =>
    Throws.bind (throws_ensure fun hother _ => ?other) fun _ _ => throws_pure _
  case zero =>
    refine .custody hcall ⟨hlength, htake⟩ (.inl ?_)
    refine List.eq_replicate_iff.mpr ⟨by rw [List.length_drop, hlength], fun b hb => ?_⟩
    exact of_decide_eq_true (List.all_eq_true.mp (Bool.eq_true_of_not_eq_false hzero) b hb)
  case other =>
    refine .custody hcall ⟨hlength, htake⟩ (.inr fun h => hother ?_)
    intro previous hprevious
    obtain rfl := Option.some.inj hprevious
    exact h.symm

/-- An error of the authority that revokes is that the address is neither a registered key nor the
custody. -/
theorem throws_checkAuthority (custodyAddress : Bytes) :
    Throws (Justified (Against K client net parsed block.hash custodyAddress))
      (checkAuthority K client net parsed block custodyAddress) := by
  unfold checkAuthority
  have hensure : ∀ {c : Prop} [Decidable c],
      Throws (Justified (Against K client net parsed block.hash custodyAddress))
        (ensure c AuthError.invalidChainEvidence) :=
    justified (throws_ensure fun _ => invalidChainEvidence_operational)
  refine Throws.bind (justified throws_ethCall) fun auth hcall => ?_
  refine Throws.bind hensure fun _ hlength => ?_
  refine Throws.bind (justified throws_wordU64) fun keyState hstate => ?_
  refine Throws.bind (justified throws_wordU64) fun keyType htype => ?_
  refine Throws.bind hensure fun _ hsmall => ?_
  by_cases hkey : keyState = 1 ∧ keyType = 2
  · rw [if_pos hkey]
    exact throws_pure _
  · rw [if_neg hkey]
    refine Throws.bind (justified throws_ethCall) fun custody hid => ?_
    refine Throws.bind hensure fun _ _ => ?_
    refine Throws.bind (justified throws_wordU64) fun fid hfid => ?_
    refine Throws.bind (throws_ensure fun hother _ => ?_) fun _ _ => throws_pure _
    obtain ⟨rfl, -⟩ := wordU64_eq_ok.mp hfid
    obtain ⟨hstate', htype'⟩ := ensure_eq_ok.mp hsmall
    have hauth := (halves_iff (by omega) (by omega)).mp ⟨ensure_eq_ok.mp hlength, hstate, htype⟩
    exact .authority (ethCall_eq_ok.mp hcall) ⟨hauth, hstate', htype'⟩ hkey (ethCall_eq_ok.mp hid)
      hother

/-! ## Identities that were returned -/

/-- The text of an address reads back. -/
theorem decodeHex_hexText (b : Bytes) : decodeHex (hexText b) = .ok b := by
  simp only [decodeHex, hexText, bind_eq_ok, okOr_eq_ok, stripPrefix_eq_some]
  exact ⟨_, rfl, hexDecode_hexEncode b⟩

/-- An identity that was returned for a proof, by any client at any time. -/
inductive Returned (K : Crates) (proof : SignedProof) : VerifiedIdentity → Prop where
  | verify {client : AuthClient} {net : Net} {challenge : Challenge} {now : Nat}
      {identity : VerifiedIdentity}
      (returned : verify K client net proof challenge now = .ok identity) : Returned K proof identity
  | recheckIdentity {client : AuthClient} {net : Net} {previous identity : VerifiedIdentity}
      {now : Nat} (returned : recheckIdentity K client net previous proof now = .ok identity) :
      Returned K proof identity

/-- A check that succeeds parsed the proof, compared what it says with the identity before, and
verified the authority again. -/
theorem parseAuthority_of_recheckIdentity {previous : VerifiedIdentity}
    (h : recheckIdentity K client net previous proof now = .ok identity) : ∃ parsed,
      parseAuthority K proof client.config.domain client.config.uri = .ok parsed ∧
      parsed.fid = previous.fid ∧ hexText parsed.message.address = previous.address ∧
      verifyAuthority K client net parsed now (some previous) = .ok identity := by
  simp only [recheckIdentity, bind_eq_ok, ensure_eq_ok] at h
  obtain ⟨parsed, hparse, _, ⟨hfid, haddress⟩, _, -, _, -, _, -, _, -, _, -, h⟩ := h
  exact ⟨parsed, hparse, hfid, haddress, h⟩

/-- An identifier that was parsed fits in sixty-four bits. -/
theorem fid_lt_of_parseAuthority {domain uri : Bytes}
    (h : parseAuthority K proof domain uri = .ok parsed) : parsed.fid < 18446744073709551616 := by
  have hfid := (fid_le_of_parseAuthority h).2
  have hmax : maxFid = 9007199254740991 := rfl
  omega

/-- What is returned for a proof is what the proof says, authorised on some chain. -/
theorem Returned.authorised (h : Returned K proof identity) : ∃ parsed domain uri now x,
    parseAuthority K proof domain uri = .ok parsed ∧ Authorised K parsed now x identity := by
  cases h with
  | verify returned =>
      obtain ⟨parsed, hparse, h⟩ := bind_eq_ok.mp returned
      have hparse := parseAuthority_of_parse hparse
      obtain ⟨x, -, hauth, -⟩ := (verifyAuthority_eq_ok (fid_lt_of_parseAuthority hparse)).mp h
      exact ⟨parsed, _, _, _, x, hparse, hauth⟩
  | recheckIdentity returned =>
      obtain ⟨parsed, hparse, -, -, h⟩ := parseAuthority_of_recheckIdentity returned
      obtain ⟨x, -, hauth, -⟩ := (verifyAuthority_eq_ok (fid_lt_of_parseAuthority hparse)).mp h
      exact ⟨parsed, _, _, _, x, hparse, hauth⟩

/-- For another origin a proof says the same, or its message is invalid. -/
theorem parseAuthority_origin {domain uri : Bytes}
    (h : parseAuthority K proof domain uri = .ok parsed)
    (domain' uri' : Bytes) : parseAuthority K proof domain' uri' = .ok parsed ∨
      parseAuthority K proof domain' uri' = .error .invalidMessage := by
  simp only [parseAuthority, bind_eq_ok, ensure_eq_ok, okOr_eq_ok, pure_eq_ok] at h
  obtain ⟨_, hascii, message, hmessage, _, ⟨htext, -, -, hrest⟩, fid, hfid, signature,
    hsignature, rfl⟩ := h
  by_cases horigin : message.domain = domain' ∧ message.uri = uri'
  · left
    simp only [parseAuthority, bind_eq_ok, ensure_eq_ok, okOr_eq_ok, pure_eq_ok]
    exact ⟨(), hascii, message, hmessage, (), ⟨htext, horigin.1, horigin.2, hrest⟩, fid, hfid,
      signature, hsignature, rfl⟩
  · right
    refine bind_eq_error.mpr (.inr ⟨(), ensure_eq_ok.mpr hascii, ?_⟩)
    refine bind_eq_error.mpr (.inr ⟨message, okOr_eq_ok.mpr hmessage, ?_⟩)
    refine bind_eq_error.mpr (.inl (ensure_eq_error.mpr ⟨fun h => ?_, rfl⟩))
    exact horigin ⟨h.2.1, h.2.2.1⟩

/-- What a provider says against an identity, at a recent block that is not behind. -/
def Refuted (K : Crates) (client : AuthClient) (net : Net) (parsed : ParsedProof)
    (identity : VerifiedIdentity) (now : Nat) : Prop :=
  ∃ x : Head, ServesHead K client net x ∧ x.Final now ∧ x.NotBehind identity ∧
    Against K client net parsed x.hash identity.custodyAddress

/-- The block comes before every verdict. -/
theorem throws_verifyAuthority :
    Throws (Justified (Refuted K client net parsed identity now))
      (verifyAuthority K client net parsed now (some identity)) := by
  unfold verifyAuthority
  refine Throws.bind (justified throws_finalizedBlock) fun block hblock => ?_
  obtain ⟨x, hserves, hfinal, hbehind, rfl⟩ := finalizedBlock_eq_ok.mp hblock
  have hagainst : ∀ {α : Type} {y : Except AuthError α},
      Throws (Justified (Against K client net parsed x.hash identity.custodyAddress)) y →
        Throws (Justified (Refuted K client net parsed identity now)) y :=
    fun h => h.mono fun _ he hr => ⟨x, hserves, hfinal, hbehind _ rfl, he hr⟩
  refine Throws.bind (hagainst (throws_checkSignature _)) fun _ _ => ?_
  refine Throws.bind (hagainst throws_checkCustody) fun custodyAddress hcustody => ?_
  obtain ⟨_, -, -, hsame⟩ := checkCustody_eq_ok.mp hcustody
  obtain rfl := hsame identity rfl
  refine Throws.bind (hagainst (throws_checkAuthority _)) fun _ _ => ?_
  exact throws_pure _

/-- The checks before the provider is asked never revoke what was returned. -/
theorem refuted_of_recheckIdentity (h : Returned K proof identity) {e : AuthError}
    (he : recheckIdentity K client net identity proof now = .error e) (hrevokes : e.Revokes) :
    ∃ parsed, parseAuthority K proof client.config.domain client.config.uri = .ok parsed ∧
      identity.checkedAt ≤ now ∧ Refuted K client net parsed identity now := by
  obtain ⟨parsed, domain, uri, since, x, hparse, hauth⟩ := h.authorised
  rcases parseAuthority_origin hparse client.config.domain client.config.uri with hsame | hother
  · obtain ⟨custody, hlength, -, -, haddress⟩ := hauth.custody
    have hcustody : decodeHex identity.custodyAddress = .ok custody := by
      rw [haddress, decodeHex_hexText]
    -- what is left after the checks that cannot fail, or do not revoke
    have hchecks : Throws (Justified (identity.checkedAt ≤ now ∧
        Refuted K client net parsed identity now))
        (recheckIdentity K client net identity proof now) := by
      unfold recheckIdentity
      refine Throws.bind (by rw [hsame]; exact throws_pure _) fun p hp => ?_
      obtain rfl : parsed = p := Except.ok.inj (hsame.symm.trans hp)
      refine Throws.bind (throws_ensure fun hn => ?_) fun _ _ => ?_
      · exact absurd ⟨hauth.fid.symm, hauth.address.symm⟩ hn
      refine Throws.bind (by rw [hcustody]; exact throws_pure _) fun c hc => ?_
      obtain rfl : custody = c := Except.ok.inj (hcustody.symm.trans hc)
      refine Throws.bind (throws_ensure fun hn => absurd hlength hn) fun _ _ => ?_
      have hclock : Throws (Justified (identity.checkedAt ≤ now ∧
          Refuted K client net parsed identity now))
          (ensure (identity.checkedAt ≤ now ∧ identity.checkedBlock ≠ 0)
            AuthError.invalidChainEvidence) :=
        justified (throws_ensure fun _ => invalidChainEvidence_operational)
      refine Throws.bind hclock fun _ hnow => ?_
      refine Throws.bind (justified throws_decodeHex) fun _ _ => ?_
      refine Throws.bind (justified (throws_ensure fun _ => invalidChainEvidence_operational))
        fun _ _ => ?_
      exact throws_verifyAuthority.mono fun _ he hr => ⟨(ensure_eq_ok.mp hnow).1, he hr⟩
    exact ⟨parsed, hsame, hchecks e he hrevokes⟩
  · rw [recheckIdentity, hother] at he
    obtain rfl := Except.error.inj he
    exact absurd hrevokes (by decide)

end PurpleSky.Farcaster
