import PurpleSky.Farcaster.Client

/-!
# What it takes to be verified

`Chain` is what an RPC provider says of one finalized block, `Serves` that its answers say it, and
`Authorised` what an identity needs on it.

* **`verified_iff_authorised`**: `verify` returns exactly the identities that are authorised on what
  the provider serves, for messages that answer the challenge.
-/

namespace PurpleSky.Farcaster

open Bytes

variable {K : Crates} {client : AuthClient} {net : Net}

/-! ## Answers -/

/-- The provider answers a call with a value. -/
def Answered (K : Crates) (client : AuthClient) (net : Net) (i : Nat) (method : Bytes)
    (params : List Json) (v : Json) : Prop :=
  ∃ contentLength chunks value,
    net i (.post client.rpc (.object [(str "id", .integer 1), (str "jsonrpc", .string (str "2.0")),
      (str "method", .string method), (str "params", .array params)])) =
        .reply 200 contentLength chunks true ∧
    (∀ n ∈ contentLength, n ≤ maxResponseBytes) ∧ chunks.flatten.length ≤ maxResponseBytes ∧
    K.json.parse chunks.flatten = some value ∧
    (value.last (str "jsonrpc")).bind Json.asStr = some (str "2.0") ∧
    (value.last (str "id")).bind Json.asU64 = some 1 ∧ value.last (str "error") = none ∧
    value.last (str "result") = some v ∧ v ≠ .null

/-- Chunks are read to the end when all of them fit. -/
theorem readChunks_eq_ok {bytes b : Bytes} {chunks : List Bytes} {complete : Bool}
    (hbytes : bytes.length ≤ maxResponseBytes) :
    readChunks bytes chunks complete = .ok b ↔
      complete = true ∧ b = bytes ++ chunks.flatten ∧ b.length ≤ maxResponseBytes := by
  induction chunks generalizing bytes with
  | nil =>
      simp only [readChunks, bind_eq_ok, ensure_eq_ok, pure_eq_ok, List.flatten_nil,
        List.append_nil]
      constructor
      · rintro ⟨_, hcomplete, rfl⟩
        exact ⟨hcomplete, rfl, hbytes⟩
      · rintro ⟨hcomplete, rfl, -⟩
        exact ⟨(), hcomplete, rfl⟩
  | cons chunk chunks ih =>
      simp only [readChunks, bind_eq_ok, ensure_eq_ok, List.flatten_cons]
      constructor
      · rintro ⟨_, hfits, h⟩
        rw [ih (by rw [List.length_append]; exact hfits), List.append_assoc] at h
        exact h
      · rintro ⟨hcomplete, rfl, hlength⟩
        have hfits : bytes.length + chunk.length ≤ maxResponseBytes := by
          simp only [List.length_append] at hlength
          omega
        refine ⟨(), hfits, (ih (by rw [List.length_append]; exact hfits)).mpr ?_⟩
        exact ⟨hcomplete, (List.append_assoc _ _ _).symm, hlength⟩

theorem send_eq_ok {response : Response} {status : Nat} {bytes : Bytes} :
    send response = .ok (status, bytes) ↔ ∃ contentLength chunks,
      response = .reply status contentLength chunks true ∧
        (∀ n ∈ contentLength, n ≤ maxResponseBytes) ∧ bytes = chunks.flatten ∧
        bytes.length ≤ maxResponseBytes := by
  cases response with
  | failed => simp [send]
  | reply status' contentLength chunks complete =>
      have hempty : ([] : Bytes).length ≤ maxResponseBytes := Nat.zero_le _
      simp only [send, bind_eq_ok, ensure_eq_ok, pure_eq_ok, Prod.mk.injEq, readChunks_eq_ok hempty,
        List.nil_append, Response.reply.injEq]
      constructor
      · rintro ⟨_, hlength, b, ⟨rfl, rfl, hfits⟩, rfl, rfl⟩
        exact ⟨_, _, ⟨rfl, rfl, rfl, rfl⟩, hlength, rfl, hfits⟩
      · rintro ⟨_, _, ⟨rfl, rfl, rfl, rfl⟩, hlength, rfl, hfits⟩
        exact ⟨(), hlength, _, ⟨rfl, rfl, hfits⟩, rfl, rfl⟩

/-- A call gives the value that the provider answers. -/
theorem rpc_eq_ok {i : Nat} {method : Bytes} {params : List Json} {v : Json} :
    rpc K client net i method params = .ok v ↔ Answered K client net i method params v := by
  unfold rpc Answered
  simp only [bind_eq_ok, ensure_eq_ok, okOr_eq_ok, Prod.exists, send_eq_ok]
  constructor
  · rintro ⟨status, bytes, ⟨contentLength, chunks, hreply, hlength, rfl, hfits⟩, _, rfl,
      value, hparse, _, ⟨hversion, hid, herror⟩, hresult⟩
    refine ⟨contentLength, chunks, value, hreply, hlength, hfits, hparse, hversion, hid,
      Option.isNone_iff_eq_none.mp herror, ?_⟩
    split at hresult
    · cases hresult
    · cases hresult
    · rename_i w hnull hw
      obtain rfl := pure_eq_ok.mp hresult
      exact ⟨hw, hnull⟩
  · rintro ⟨contentLength, chunks, value, hreply, hlength, hfits, hparse, hversion, hid, herror, hv,
      hnull⟩
    refine ⟨200, _, ⟨contentLength, chunks, hreply, hlength, rfl, hfits⟩, (), rfl,
      value, hparse, (), ⟨hversion, hid, Option.isNone_iff_eq_none.mpr herror⟩, ?_⟩
    rw [hv]
    cases v with
    | null => exact absurd rfl hnull
    | _ => rfl

/-- The provider answers a call of a contract with bytes. -/
def Called (K : Crates) (client : AuthClient) (net : Net) (i : Nat) (target data blockHash : Bytes)
    (result : Bytes) : Prop :=
  ∃ t, Answered K client net i (str "eth_call")
    [.object [(str "data", .string (hexText data)), (str "to", .string target)],
      selector blockHash] (.string t) ∧ decodeHex t = .ok result

theorem text_eq_ok {v : Json} {t : Bytes} : text v = .ok t ↔ v = .string t := by
  rw [text, okOr_eq_ok, Json.asStr_eq_some]

theorem ethCall_eq_ok {i : Nat} {target data blockHash result : Bytes} :
    ethCall K client net i target data (selector blockHash) = .ok result ↔
      Called K client net i target data blockHash result := by
  simp only [ethCall, Called, bind_eq_ok, rpc_eq_ok, text_eq_ok]
  constructor
  · rintro ⟨v, hv, t, rfl, ht⟩
    exact ⟨t, hv, ht⟩
  · rintro ⟨t, hv, ht⟩
    exact ⟨_, hv, t, rfl, ht⟩

/-- A word is a number of sixty-four bits. -/
theorem wordU64_eq_ok {w : Bytes} {n : Nat} :
    wordU64 w = .ok n ↔ w = word n ∧ n < 18446744073709551616 := by
  simp only [wordU64, bind_eq_ok, ensure_eq_ok, pure_eq_ok]
  constructor
  · rintro ⟨_, ⟨hlength, hzero⟩, rfl⟩
    have hlow : (w.drop 24).length = 8 := by rw [List.length_drop, hlength]
    have hhigh : w.take 24 = List.replicate 24 0 := by
      refine List.eq_replicate_iff.mpr ⟨by rw [List.length_take, hlength]; rfl, fun b hb => ?_⟩
      exact of_decide_eq_true (List.all_eq_true.mp hzero b hb)
    have hback := bigEndian_ofBigEndian (w.drop 24)
    have hlt := ofBigEndian_lt (w.drop 24)
    rw [hlow] at hback hlt
    refine ⟨?_, hlt⟩
    rw [word, hback, ← hhigh, List.take_append_drop]
  · rintro ⟨rfl, hn⟩
    have hdrop : (word n).drop 24 = bigEndian 8 n := rfl
    have htake : (word n).take 24 = List.replicate 24 0 := rfl
    refine ⟨(), ⟨?_, ?_⟩, ?_⟩
    · rw [word, List.length_append, List.length_replicate, length_bigEndian]
    · rw [htake]
      decide
    · rw [hdrop]
      exact ofBigEndian_bigEndian hn

/-! ## What a provider serves -/

/-- What a provider says of its finalized block. -/
structure Head where
  chainId : Nat
  number : Nat
  hash : Bytes
  timestamp : Nat

/-- What it says of the contracts at that block, too. -/
structure Chain extends Head where
  code : Bytes
  isValidSignature : Bytes
  custodyOf : Bytes
  keyDataOf : Bytes
  idOf : Bytes

/-- The code of an account that runs the code of another one. -/
def Delegated (code : Bytes) : Prop := [0xef, 0x01, 0x00] <+: code

/-- A key that is registered, and authenticates. -/
def HasKey (keyDataOf : Bytes) : Prop := keyDataOf = word 1 ++ word 2

/-- The answers of a provider say what its finalized block is. -/
structure ServesHead (K : Crates) (client : AuthClient) (net : Net) (x : Head) : Prop where
  chainId : ∃ t, Answered K client net 0 (str "eth_chainId") [] (.string t) ∧
    quantity t = .ok x.chainId
  block : ∃ v number timestamp, Answered K client net 1 (str "eth_getBlockByNumber")
      [.string (str "finalized"), .bool false] v ∧
    v.last (str "number") = some (.string number) ∧ quantity number = .ok x.number ∧
    v.last (str "hash") = some (.string x.hash) ∧
    v.last (str "timestamp") = some (.string timestamp) ∧ quantity timestamp = .ok x.timestamp

/-- The answer to a read of the code of an address. -/
def ServesCode (K : Crates) (client : AuthClient) (net : Net)
    (address blockHash code : Bytes) : Prop :=
  ∃ t, Answered K client net 2 (str "eth_getCode") [.string address, selector blockHash] (.string t) ∧
    decodeHex t = .ok code

/-- The answers of a provider say what there is of a chain for a proof. Every read is at the block
whose hash it said. -/
structure Serves (K : Crates) (client : AuthClient) (net : Net) (parsed : ParsedProof) (x : Chain) :
    Prop extends ServesHead K client net x.toHead where
  code : ServesCode K client net (hexText parsed.message.address) x.hash x.code
  isValidSignature : x.code ≠ [] → ¬Delegated x.code → Called K client net 3
    (hexText parsed.message.address) (erc1271Calldata K parsed.digest parsed.signature) x.hash
    x.isValidSignature
  custodyOf : Called K client net 4 idRegistry (custodyOfCalldata K parsed.fid) x.hash x.custodyOf
  keyDataOf : Called K client net 5 keyRegistry (authKeyCalldata K parsed.fid parsed.message.address)
    x.hash x.keyDataOf
  idOf : ¬HasKey x.keyDataOf → Called K client net 6 idRegistry
    (idOfCalldata K parsed.message.address) x.hash x.idOf

/-! ## What it takes -/

/-- The block has a height and a hash, and is recent. -/
structure Head.Final (x : Head) (now : Nat) : Prop where
  chainId : x.chainId = 10
  number : x.number ≠ 0
  hash : ∃ bytes, decodeHex x.hash = .ok bytes ∧ bytes.length = 32
  timestamp : x.timestamp ≤ now + 60 ∧ now ≤ x.timestamp + 3600

/-- The block is not behind the one that an identity was checked at. -/
def Head.NotBehind (x : Head) (previous : VerifiedIdentity) : Prop :=
  previous.checkedBlock ≤ x.number ∧
    (x.number = previous.checkedBlock → eqIgnoreCase x.hash previous.blockHash = true)

/-- The signature is one of an account without code over the exact message. -/
def EoaSigned (K : Crates) (parsed : ParsedProof) : Prop :=
  parsed.signature.length = 65 ∧ parsed.signature.getD 64 0 ∈ ([0, 1, 27, 28] : Bytes) ∧
    K.verifyEip191 parsed.message parsed.signature = true

/-- The wallet signed: with its key where it has no code, and through its contract otherwise. -/
inductive Signed (K : Crates) (parsed : ParsedProof) (code isValidSignature : Bytes) :
    WalletKind → Prop where
  | eoa (undeployed : code = []) (signed : EoaSigned K parsed) :
      Signed K parsed code isValidSignature .eoa
  | erc1271 (deployed : code ≠ []) (own : ¬Delegated code) (signed : isValidSignature = magicWord) :
      Signed K parsed code isValidSignature .erc1271

/-- An address has the custody. -/
def Custodian (custodyOf custodyAddress : Bytes) : Prop :=
  ∃ address, address.length = 20 ∧ custodyOf = List.replicate 12 0 ++ address ∧
    address ≠ List.replicate 20 0 ∧ custodyAddress = hexText address

/-- The address may act for the identifier: with a registered key, or as the custodian. -/
inductive Permitted (parsed : ParsedProof) (keyDataOf idOf custodyAddress : Bytes) :
    ProofKind → Prop where
  | authAddress (key : HasKey keyDataOf) : Permitted parsed keyDataOf idOf custodyAddress .authAddress
  | custody (none : ¬HasKey keyDataOf)
      (key : ∃ state kind, state ≤ 2 ∧ kind ≤ 4294967295 ∧ keyDataOf = word state ++ word kind)
      (fid : idOf = word parsed.fid) (address : custodyAddress = hexText parsed.message.address) :
      Permitted parsed keyDataOf idOf custodyAddress .custody

/-- What an identity that was verified says is so on the chain. -/
structure Authorised (K : Crates) (parsed : ParsedProof) (now : Nat) (x : Chain)
    (identity : VerifiedIdentity) : Prop where
  final : x.Final now
  signed : Signed K parsed x.code x.isValidSignature identity.walletKind
  custody : Custodian x.custodyOf identity.custodyAddress
  permitted : Permitted parsed x.keyDataOf x.idOf identity.custodyAddress identity.proofKind
  fid : identity.fid = parsed.fid
  address : identity.address = hexText parsed.message.address
  checkedBlock : identity.checkedBlock = x.number
  blockHash : identity.blockHash = x.hash
  checkedAt : identity.checkedAt = now

/-! ## The parts of the argument -/

variable {parsed : ParsedProof} {now : Nat} {expected : Option VerifiedIdentity} {block : Block}

theorem field_eq_ok {v : Json} {key t : Bytes} :
    field v key = .ok t ↔ v.last key = some (.string t) := by
  rw [field, okOr_eq_ok, Option.bind_eq_some_iff]
  constructor
  · rintro ⟨w, hw, ht⟩
    rw [hw, Json.asStr_eq_some.mp ht]
  · intro h
    exact ⟨_, h, rfl⟩

theorem quantity_lt {t : Bytes} {n : Nat} (h : quantity t = .ok n) : n < 18446744073709551616 := by
  simp only [quantity, bind_eq_ok, okOr_eq_ok] at h
  obtain ⟨digits, -, _, -, h⟩ := h
  exact parseHexU64_lt h

theorem finalizedBlock_eq_ok :
    finalizedBlock K client net now expected = .ok block ↔
      ∃ x : Head, ServesHead K client net x ∧ x.Final now ∧
        (∀ previous ∈ expected, x.NotBehind previous) ∧ block = ⟨x.number, x.hash⟩ := by
  simp only [finalizedBlock, bind_eq_ok, ensure_eq_ok, pure_eq_ok, rpc_eq_ok, text_eq_ok,
    field_eq_ok]
  have hage : maxFinalizedAgeSeconds = 3600 := rfl
  constructor
  · rintro ⟨_, hchain, t, rfl, chainId, hid, _, rfl, v, hblock, t₁, h₁, number, hnumber,
      hash, hhash,
      bytes, hbytes, _, hlength, t₂, h₂, timestamp, htimestamp, _, ⟨hne, hlate, hearly⟩, _, hbehind,
      rfl⟩
    refine ⟨⟨10, number, hash, timestamp⟩, ⟨⟨t, hchain, hid⟩, v, t₁, t₂, hblock, h₁, hnumber, hhash, h₂,
      htimestamp⟩, ⟨rfl, hne, ⟨bytes, hbytes, hlength⟩, ?_⟩, fun previous hprevious => ?_, rfl⟩
    · constructor
      · show timestamp ≤ now + 60
        omega
      · show now ≤ timestamp + 3600
        omega
    · obtain ⟨hnumber, hhash⟩ := not_or.mp (hbehind previous hprevious)
      exact ⟨not_lt.mp hnumber, fun h => Bool.eq_true_of_not_eq_false fun h' => hhash ⟨h, h'⟩⟩
  · rintro ⟨⟨chainId, number, hash, timestamp⟩, ⟨⟨t, hchain, hid⟩, v, t₁, t₂, hblock, h₁, hnumber, hhash,
      h₂, htimestamp⟩, ⟨rfl, hne, ⟨bytes, hbytes, hlength⟩, hlate, hearly⟩, hbehind, rfl⟩
    have hlt := quantity_lt htimestamp
    refine ⟨_, hchain, t, rfl, _, hid, (), rfl, v, hblock, t₁, h₁, number, hnumber, hash,
      hhash, bytes,
      hbytes, (), hlength, t₂, h₂, timestamp, htimestamp, (), ⟨hne, ?_, ?_⟩, (), ?_, rfl⟩
    · simp only at hlate hlt
      omega
    · simp only at hearly
      omega
    · intro previous hprevious
      obtain ⟨hle, hsame⟩ := hbehind previous hprevious
      rintro (hlt | ⟨heq, hne⟩)
      · exact absurd hle (not_le.mpr hlt)
      · rw [hsame heq] at hne
        cases hne

theorem verifyEoa_eq_ok : verifyEoa K parsed = .ok () ↔ EoaSigned K parsed := by
  simp only [verifyEoa, EoaSigned, bind_eq_ok, ensure_eq_ok, List.contains_iff_mem]
  constructor
  · rintro ⟨_, hlength, _, hrecovery, hsigned⟩
    exact ⟨hlength, hrecovery, hsigned⟩
  · rintro ⟨hlength, hrecovery, hsigned⟩
    exact ⟨(), hlength, (), hrecovery, hsigned⟩

/-- The magic word, as it is compared. -/
theorem eq_magicWord_iff {result : Bytes} :
    (result.length = 32 ∧ result.take 4 = [0x16, 0x26, 0xba, 0x7e] ∧
      (result.drop 4).all (fun b => b = 0) = true) ↔ result = magicWord := by
  constructor
  · rintro ⟨hlength, htake, hdrop⟩
    have hzero : result.drop 4 = List.replicate 28 0 := by
      refine List.eq_replicate_iff.mpr ⟨by rw [List.length_drop, hlength], fun b hb => ?_⟩
      exact of_decide_eq_true (List.all_eq_true.mp hdrop b hb)
    rw [magicWord, ← htake, ← hzero, List.take_append_drop]
  · rintro rfl
    decide

theorem checkSignature_eq_ok {kind : WalletKind} :
    checkSignature K client net parsed block = .ok kind ↔ ∃ code isValidSignature,
      ServesCode K client net (hexText parsed.message.address) block.hash code ∧
      (code ≠ [] → ¬Delegated code → Called K client net 3 (hexText parsed.message.address)
        (erc1271Calldata K parsed.digest parsed.signature) block.hash isValidSignature) ∧
      Signed K parsed code isValidSignature kind := by
  simp only [checkSignature, bind_eq_ok, rpc_eq_ok, text_eq_ok]
  constructor
  · rintro ⟨v, hcode, t, rfl, code, hdecode, h⟩
    by_cases hempty : code = []
    · rw [if_pos hempty] at h
      obtain ⟨_, heoa, h⟩ := bind_eq_ok.mp h
      obtain rfl := pure_eq_ok.mp h
      exact ⟨code, [], ⟨t, hcode, hdecode⟩, fun h => absurd hempty h,
        .eoa hempty (verifyEoa_eq_ok.mp heoa)⟩
    · rw [if_neg hempty] at h
      simp only [bind_eq_ok, ensure_eq_ok, ethCall_eq_ok, pure_eq_ok, eq_magicWord_iff] at h
      obtain ⟨_, hown, result, hcall, _, hmagic, rfl⟩ := h
      have hown : ¬Delegated code := fun h => by
        rw [List.isPrefixOf_iff_prefix.mpr h] at hown
        cases hown
      exact ⟨code, result, ⟨t, hcode, hdecode⟩, fun _ _ => hcall, .erc1271 hempty hown hmagic⟩
  · rintro ⟨code, result, ⟨t, hcode, hdecode⟩, hcall, hsigned⟩
    refine ⟨_, hcode, t, rfl, code, hdecode, ?_⟩
    cases hsigned with
    | eoa undeployed signed =>
        rw [if_pos undeployed]
        exact bind_eq_ok.mpr ⟨(), verifyEoa_eq_ok.mpr signed, rfl⟩
    | erc1271 deployed own signed =>
        rw [if_neg deployed]
        simp only [bind_eq_ok, ensure_eq_ok, ethCall_eq_ok, pure_eq_ok, eq_magicWord_iff]
        refine ⟨(), ?_, result, hcall deployed own, (), signed, trivial⟩
        rw [Bool.eq_false_iff]
        exact fun h => own (List.isPrefixOf_iff_prefix.mp h)

theorem checkCustody_eq_ok {custodyAddress : Bytes} :
    checkCustody K client net parsed block expected = .ok custodyAddress ↔ ∃ custodyOf,
      Called K client net 4 idRegistry (custodyOfCalldata K parsed.fid) block.hash custodyOf ∧
      Custodian custodyOf custodyAddress ∧
      ∀ previous ∈ expected, previous.custodyAddress = custodyAddress := by
  simp only [checkCustody, bind_eq_ok, ensure_eq_ok, ethCall_eq_ok, pure_eq_ok]
  constructor
  · rintro ⟨custody, hcall, _, ⟨hlength, hhigh⟩, _, hne, _, hexpected, rfl⟩
    refine ⟨custody, hcall, ⟨custody.drop 12, ?_, ?_, ?_, rfl⟩, hexpected⟩
    · rw [List.length_drop, hlength]
    · have hzero : custody.take 12 = List.replicate 12 0 := by
        refine List.eq_replicate_iff.mpr ⟨by rw [List.length_take, hlength]; rfl, fun b hb => ?_⟩
        exact of_decide_eq_true (List.all_eq_true.mp hhigh b hb)
      rw [← hzero, List.take_append_drop]
    · intro h
      rw [h] at hne
      exact absurd hne (by decide)
  · rintro ⟨_, hcall, ⟨address, hlength, rfl, hne, rfl⟩, hexpected⟩
    have htake : (List.replicate 12 0 ++ address).take 12 = List.replicate 12 0 := rfl
    have hdrop : (List.replicate 12 0 ++ address).drop 12 = address := rfl
    refine ⟨_, hcall, (), ⟨?_, ?_⟩, (), ?_, (), hexpected, rfl⟩
    · rw [List.length_append, hlength]
      rfl
    · rw [htake]
      decide
    · rw [hdrop, Bool.eq_false_iff]
      intro h
      refine hne (List.eq_replicate_iff.mpr ⟨hlength, fun b hb => ?_⟩)
      exact of_decide_eq_true (List.all_eq_true.mp h b hb)

/-- Two words in the halves of an answer. -/
theorem halves_iff {auth : Bytes} {state kind : Nat} (hstate : state < 18446744073709551616)
    (hkind : kind < 18446744073709551616) :
    (auth.length = 64 ∧ wordU64 (auth.take 32) = .ok state ∧ wordU64 (auth.drop 32) = .ok kind) ↔
      auth = word state ++ word kind := by
  have hlength : ∀ n, (word n).length = 32 := fun n => by
    rw [word, List.length_append, List.length_replicate, length_bigEndian]
  simp only [wordU64_eq_ok, hstate, hkind, and_true]
  constructor
  · rintro ⟨-, htake, hdrop⟩
    rw [← htake, ← hdrop, List.take_append_drop]
  · rintro rfl
    refine ⟨by rw [List.length_append, hlength, hlength], ?_, ?_⟩
    · rw [List.take_left' (hlength state)]
    · rw [List.drop_left' (hlength state)]

theorem word_injective {m n : Nat} (hm : m < 18446744073709551616) (hn : n < 18446744073709551616)
    (h : word m = word n) : m = n := by
  have h₁ : wordU64 (word m) = .ok m := wordU64_eq_ok.mpr ⟨rfl, hm⟩
  have h₂ : wordU64 (word m) = .ok n := wordU64_eq_ok.mpr ⟨h, hn⟩
  exact Except.ok.inj (h₁.symm.trans h₂)

/-- The words of a registered key. -/
theorem hasKey_iff {state kind : Nat} (hstate : state < 18446744073709551616)
    (hkind : kind < 18446744073709551616) :
    HasKey (word state ++ word kind) ↔ state = 1 ∧ kind = 2 := by
  constructor
  · intro h
    obtain ⟨h₁, h₂⟩ := List.append_inj h rfl
    exact ⟨word_injective hstate (by decide) h₁, word_injective hkind (by decide) h₂⟩
  · rintro ⟨rfl, rfl⟩
    rfl

theorem checkAuthority_eq_ok (hfid : parsed.fid < 18446744073709551616) {custodyAddress : Bytes}
    {kind : ProofKind} :
    checkAuthority K client net parsed block custodyAddress = .ok kind ↔ ∃ keyDataOf idOf,
      Called K client net 5 keyRegistry (authKeyCalldata K parsed.fid parsed.message.address)
        block.hash keyDataOf ∧
      (¬HasKey keyDataOf → Called K client net 6 idRegistry
        (idOfCalldata K parsed.message.address) block.hash idOf) ∧
      Permitted parsed keyDataOf idOf custodyAddress kind := by
  simp only [checkAuthority, bind_eq_ok, ensure_eq_ok, ethCall_eq_ok]
  constructor
  · rintro ⟨auth, hcall, _, hlength, keyState, hstate, keyType, htype, _, ⟨hsmall, hsmall'⟩, h⟩
    have hstate' : keyState < 18446744073709551616 := by omega
    have htype' : keyType < 18446744073709551616 := by omega
    have hauth := (halves_iff hstate' htype').mp ⟨hlength, hstate, htype⟩
    by_cases hkey : keyState = 1 ∧ keyType = 2
    · rw [if_pos hkey] at h
      obtain rfl := pure_eq_ok.mp h
      have hhas : HasKey auth := by rw [hauth, hasKey_iff hstate' htype']; exact hkey
      exact ⟨auth, [], hcall, fun h => absurd hhas h, .authAddress hhas⟩
    · rw [if_neg hkey] at h
      simp only [bind_eq_ok, ensure_eq_ok, ethCall_eq_ok, pure_eq_ok, wordU64_eq_ok] at h
      obtain ⟨custody, hid, _, -, fid, ⟨hword, -⟩, _, ⟨rfl, haddress⟩, rfl⟩ := h
      have hnone : ¬HasKey auth := by rw [hauth, hasKey_iff hstate' htype']; exact hkey
      exact ⟨auth, custody, hcall, fun _ => hid,
        .custody hnone ⟨keyState, keyType, hsmall, hsmall', hauth⟩ hword haddress⟩
  · rintro ⟨auth, custody, hcall, hid, hpermitted⟩
    cases hpermitted with
    | authAddress key =>
        have hauth : auth = word 1 ++ word 2 := key
        obtain ⟨hlength, hstate, htype⟩ := (halves_iff (by decide) (by decide)).mpr hauth
        refine ⟨auth, hcall, (), hlength, 1, hstate, 2, htype, (), ⟨by decide, by decide⟩, ?_⟩
        rw [if_pos ⟨rfl, rfl⟩]
        rfl
    | custody hnone key fid address =>
        obtain ⟨keyState, keyType, hsmall, hsmall', hauth⟩ := key
        have hstate' : keyState < 18446744073709551616 := by omega
        have htype' : keyType < 18446744073709551616 := by omega
        obtain ⟨hlength, hstate, htype⟩ := (halves_iff hstate' htype').mpr hauth
        have hkey : ¬(keyState = 1 ∧ keyType = 2) := by
          rw [hauth, hasKey_iff hstate' htype'] at hnone
          exact hnone
        refine ⟨auth, hcall, (), hlength, keyState, hstate, keyType, htype, (),
          ⟨hsmall, hsmall'⟩, ?_⟩
        rw [if_neg hkey]
        simp only [bind_eq_ok, ensure_eq_ok, ethCall_eq_ok, pure_eq_ok, wordU64_eq_ok]
        refine ⟨custody, hid (by rw [hauth, hasKey_iff hstate' htype']; exact hkey), (),
          ?_, parsed.fid, ⟨fid, hfid⟩, (), ⟨rfl, address⟩, trivial⟩
        rw [fid, word, List.length_append, List.length_replicate, length_bigEndian]

/-- When an authority is verified, for the first time or again. -/
theorem verifyAuthority_eq_ok (hfid : parsed.fid < 18446744073709551616)
    {identity : VerifiedIdentity} :
    verifyAuthority K client net parsed now expected = .ok identity ↔ ∃ x : Chain,
      Serves K client net parsed x ∧ Authorised K parsed now x identity ∧
      ∀ previous ∈ expected, x.NotBehind previous ∧
        previous.custodyAddress = identity.custodyAddress := by
  simp only [verifyAuthority, bind_eq_ok, pure_eq_ok, finalizedBlock_eq_ok, checkSignature_eq_ok,
    checkCustody_eq_ok, checkAuthority_eq_ok hfid]
  constructor
  · rintro ⟨_, ⟨head, hhead, hfinal, hbehind, rfl⟩, kind, ⟨code, result, hcode, hsignature, hsigned⟩,
      custodyAddress, ⟨custodyOf, hcustody, hcustodian, hexpected⟩, proofKind,
      ⟨keyDataOf, idOf, hkey, hid, hpermitted⟩, rfl⟩
    exact ⟨⟨head, code, result, custodyOf, keyDataOf, idOf⟩,
      ⟨hhead, hcode, hsignature, hcustody, hkey, hid⟩,
      ⟨hfinal, hsigned, hcustodian, hpermitted, rfl, rfl, rfl, rfl, rfl⟩,
      fun previous hprevious => ⟨hbehind previous hprevious, hexpected previous hprevious⟩⟩
  · rintro ⟨x, hserves, hauth, hexpected⟩
    refine ⟨_, ⟨x.toHead, hserves.toServesHead, hauth.final,
      fun previous hprevious => (hexpected previous hprevious).1, rfl⟩, identity.walletKind,
      ⟨x.code, x.isValidSignature, hserves.code, hserves.isValidSignature, hauth.signed⟩,
      identity.custodyAddress, ⟨x.custodyOf, hserves.custodyOf, hauth.custody,
        fun previous hprevious => (hexpected previous hprevious).2⟩,
      identity.proofKind, ⟨x.keyDataOf, x.idOf, hserves.keyDataOf, hserves.idOf,
        hauth.permitted⟩, ?_⟩
    rw [← hauth.fid, ← hauth.address, ← hauth.checkedBlock, ← hauth.blockHash, ← hauth.checkedAt]

theorem fid_le_of_parseAuthority {proof : SignedProof} {domain uri : Bytes}
    (h : parseAuthority K proof domain uri = .ok parsed) :
    parsed.fid ≠ 0 ∧ parsed.fid ≤ maxFid := by
  simp only [parseAuthority, resourceFid, bind_eq_ok, ensure_eq_ok, pure_eq_ok] at h
  obtain ⟨_, -, _, -, _, -, fid, ⟨_, -, _, -, _, -, _, hfid, rfl⟩, _, -, rfl⟩ := h
  exact hfid

theorem parseAuthority_of_parse {proof : SignedProof} {challenge : Challenge} {domain uri : Bytes}
    (h : parse K proof challenge domain uri now = .ok parsed) :
    parseAuthority K proof domain uri = .ok parsed := by
  simp only [parse, bind_eq_ok, pure_eq_ok] at h
  obtain ⟨_, -, _, -, p, hp, _, -, _, -, _, -, _, -, _, -, _, -, rfl⟩ := h
  exact hp

/-- **What `verify` returns is what is so.** For every proof, challenge, time and provider, `verify`
returns an identity exactly when the message answers the challenge, the provider's answers are well
formed, and the identity is authorised on what they say: a recent finalized block of chain 10, a
signature of the address by its key or by its contract, a custodian, and a registered key or the
custody. -/
theorem verified_iff_authorised (K : Crates) (client : AuthClient) (net : Net) (proof : SignedProof)
    (challenge : Challenge) (now : Nat) (identity : VerifiedIdentity) :
    verify K client net proof challenge now = .ok identity ↔ ∃ parsed,
      parse K proof challenge client.config.domain client.config.uri now = .ok parsed ∧
      K.messageText parsed.message = proof.message ∧
      ∃ x : Chain, Serves K client net parsed x ∧ Authorised K parsed now x identity := by
  have htext : ∀ {parsed : ParsedProof},
      parse K proof challenge client.config.domain client.config.uri now = .ok parsed →
        K.messageText parsed.message = proof.message := by
    intro parsed h
    have h := parseAuthority_of_parse h
    simp only [parseAuthority, bind_eq_ok, ensure_eq_ok, pure_eq_ok] at h
    obtain ⟨_, -, _, -, _, ⟨htext, -⟩, _, -, _, -, rfl⟩ := h
    exact htext
  have hlt : ∀ {parsed : ParsedProof},
      parse K proof challenge client.config.domain client.config.uri now = .ok parsed →
        parsed.fid < 18446744073709551616 := by
    intro parsed h
    have hfid := (fid_le_of_parseAuthority (parseAuthority_of_parse h)).2
    have hmax : maxFid = 9007199254740991 := rfl
    omega
  unfold verify
  rw [bind_eq_ok]
  constructor
  · rintro ⟨parsed, hparse, h⟩
    obtain ⟨x, hserves, hauth, -⟩ := (verifyAuthority_eq_ok (hlt hparse)).mp h
    exact ⟨parsed, hparse, htext hparse, x, hserves, hauth⟩
  · rintro ⟨parsed, hparse, -, x, hserves, hauth⟩
    exact ⟨parsed, hparse, (verifyAuthority_eq_ok (hlt hparse)).mpr ⟨x, hserves, hauth, by simp⟩⟩

end PurpleSky.Farcaster
