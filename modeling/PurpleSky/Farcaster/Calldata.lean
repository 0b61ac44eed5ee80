import PurpleSky.Farcaster.Authority
import PurpleSky.Lib.Abi

/-!
# What a contract is called with

The client writes the arguments of a call by hand, word by word. Here they are the encoding of a
tuple, so that a contract reads what the client meant.

* **`custodyOfCalldata_eq`**, **`idOfCalldata_eq`**, **`authKeyCalldata_eq`**,
  **`erc1271Calldata_eq`**: every call is a selector and an encoded tuple.
* **`erc1271_faithful`**: the call of a wallet, for signatures of every length.
-/

namespace PurpleSky.Farcaster

open Bytes Abi

variable {K : Crates}

/-! ## Words -/

/-- Zeros in front of a number do not count. -/
theorem ofBigEndian_replicate_zero (k : Nat) (s : Bytes) :
    ofBigEndian (List.replicate k 0 ++ s) = ofBigEndian s := by
  induction k with
  | zero => rfl
  | succ k ih =>
      rw [List.replicate_succ, List.cons_append, ← ih]
      rfl

/-- A word is thirty-two bytes, whatever number it holds. -/
@[simp] theorem length_word (n : Nat) : (word n).length = 32 := by
  rw [word, List.length_append, List.length_replicate, length_bigEndian]

/-- A number of sixty-four bits is read back from its word. -/
theorem ofBigEndian_word {n : Nat} (h : n < 18446744073709551616) : ofBigEndian (word n) = n := by
  rw [word, ofBigEndian_replicate_zero]
  exact ofBigEndian_bigEndian h

/-- The words of the client are those of a contract. -/
theorem word_eq_uint {n : Nat} (h : n < 18446744073709551616) : word n = uint n := by
  have hback := bigEndian_ofBigEndian (word n)
  rw [length_word, ofBigEndian_word h] at hback
  exact hback.symm

/-- A word is read where its value has sixty-four bits. -/
theorem wordU64_eq {w : Bytes} (hw : w.length = 32) :
    wordU64 w = if ofBigEndian w < 18446744073709551616 then .ok (ofBigEndian w)
      else .error .invalidChainEvidence := by
  by_cases h : ofBigEndian w < 18446744073709551616
  · have hword : w = word (ofBigEndian w) := by
      rw [word_eq_uint h, uint, ← hw, bigEndian_ofBigEndian]
    rw [if_pos h]
    exact wordU64_eq_ok.mpr ⟨hword, h⟩
  · rw [if_neg h]
    cases hr : wordU64 w with
    | ok n =>
        obtain ⟨rfl, hn⟩ := wordU64_eq_ok.mp hr
        rw [ofBigEndian_word hn] at h
        exact absurd hn h
    | error e =>
        -- The only error there is.
        rcases bind_eq_error.mp hr with he | ⟨_, _, he⟩
        · rw [(ensure_eq_error.mp he).2]
        · cases he

/-! ## Calls -/

/-- A selector is four bytes, as a hash has thirty-two. -/
theorem length_functionSelector (hK : ∀ s, (K.keccak256 s).length = 32) (signature : Bytes) :
    (functionSelector K signature).length = 4 := by
  rw [functionSelector, List.length_take, hK]
  rfl

/-- The call of `custodyOf` is its selector and the identifier as an unsigned integer. -/
theorem custodyOfCalldata_eq {fid : Nat} (hfid : fid < 18446744073709551616) :
    custodyOfCalldata K fid =
      functionSelector K (str "custodyOf(uint256)") ++ encode [.word (uint fid)] := by
  simp only [custodyOfCalldata, appendWord, encode, heads, Value.head, Value.tail,
    List.flatMap_cons, List.flatMap_nil, List.append_nil, word_eq_uint hfid]

/-- The call of `idOf` is its selector and the address, padded to a word. -/
theorem idOfCalldata_eq {address : Bytes} :
    idOfCalldata K address = functionSelector K (str "idOf(address)") ++
      encode [.word (List.replicate 12 0 ++ address)] := by
  simp only [idOfCalldata, encode, heads, Value.head, Value.tail, List.flatMap_cons,
    List.flatMap_nil, List.append_nil, List.append_assoc]

/-- The words of a wallet's arguments, one after the other. -/
theorem erc1271Calldata_eq {digest signature : Bytes}
    (hsignature : signature.length < 18446744073709551616) :
    erc1271Calldata K digest signature =
      functionSelector K (str "isValidSignature(bytes32,bytes)") ++
        encode [.word digest, .bytes signature] := by
  have hoffset : word 64 = uint 64 := word_eq_uint (by norm_num)
  simp only [erc1271Calldata, appendWord, encode, heads, Value.head, Value.tail, padding,
    List.flatMap_cons, List.flatMap_nil, List.append_assoc, List.append_nil, List.nil_append,
    List.length_cons, List.length_nil, word_eq_uint hsignature, hoffset]

/-- The arguments of the registry of keys: an account, and an address as an encoded tuple. -/
theorem authKeyCalldata_eq {fid : Nat} {address : Bytes} (hfid : fid < 18446744073709551616)
    (haddress : address.length = 20) :
    authKeyCalldata K fid address =
      functionSelector K (str "keyDataOf(uint256,bytes)") ++
        encode [.word (uint fid), .bytes (encode [.word (List.replicate 12 0 ++ address)])] := by
  have hoffset : word 64 = uint 64 := word_eq_uint (by norm_num)
  have hlength : word 32 = uint 32 := word_eq_uint (by norm_num)
  simp only [authKeyCalldata, appendWord, encode, heads, Value.head, Value.tail, padding,
    List.flatMap_cons, List.flatMap_nil, List.append_assoc, List.append_nil, List.nil_append,
    List.length_cons, List.length_nil, List.length_append, List.length_replicate, haddress,
    word_eq_uint hfid, hoffset, hlength, Nat.reduceAdd, Nat.reduceMul, Nat.reduceMod, Nat.reduceSub,
    List.replicate_zero]

/-- The arguments of a signature check can be encoded: a word, and bytes of any length. -/
theorem fits_erc1271 {digest : Bytes} (hdigest : digest.length = 32) (signature : Bytes) :
    ∀ v ∈ [Value.word digest, Value.bytes signature], v.Fits := by
  simpa [Value.Fits] using hdigest

/-- Three words in front of the signature, which is padded to words. -/
theorem length_encode_erc1271 {digest : Bytes} (hdigest : digest.length = 32) (signature : Bytes) :
    (encode [.word digest, .bytes signature]).length = 96 + 32 * ((signature.length + 31) / 32) := by
  rw [length_encode (fits_erc1271 hdigest signature)]
  simp only [List.map_cons, List.map_nil, List.sum_cons, List.sum_nil, Value.length_tail_bytes,
    List.length_cons, List.length_nil]
  rw [show (Value.word digest).tail.length = 0 from rfl]
  omega

/-- What follows the selector is the encoded tuple. -/
theorem drop_erc1271Calldata (hK : ∀ s, (K.keccak256 s).length = 32) {digest signature : Bytes}
    (hsignature : signature.length < 18446744073709551616) :
    (erc1271Calldata K digest signature).drop 4 = encode [.word digest, .bytes signature] := by
  rw [erc1271Calldata_eq hsignature, List.drop_left' (length_functionSelector hK _)]

/-- So offsets into the arguments fit in a word. -/
theorem encode_erc1271_lt {digest signature : Bytes} (hdigest : digest.length = 32)
    (hsignature : signature.length < 18446744073709551616) :
    (encode [.word digest, .bytes signature]).length < 256 ^ 32 := by
  rw [length_encode_erc1271 hdigest]
  omega

/-- The call of a wallet is faithful: a contract reads the digest and the signature, whatever the
length of the signature, and a word is read back as the number that was written. -/
theorem erc1271_faithful (K : Crates) (hK : ∀ s, (K.keccak256 s).length = 32) :
    (∀ digest signature : Bytes, digest.length = 32 → signature.length < 18446744073709551616 →
      (erc1271Calldata K digest signature).length = 4 + 96 + 32 * ((signature.length + 31) / 32) ∧
      (erc1271Calldata K digest signature).take 4 =
        (K.keccak256 (str "isValidSignature(bytes32,bytes)")).take 4 ∧
      decode [.word, .bytes] ((erc1271Calldata K digest signature).drop 4) =
        some [.word digest, .bytes signature] ∧
      ∀ digest' signature' : Bytes, digest'.length = 32 →
        signature'.length < 18446744073709551616 →
        erc1271Calldata K digest' signature' = erc1271Calldata K digest signature →
        digest' = digest ∧ signature' = signature) ∧
    (∀ output : Bytes, ∀ n < 18446744073709551616,
      (appendWord output n).take output.length = output ∧
      wordU64 ((appendWord output n).drop output.length) = .ok n) ∧
    ∀ w : Bytes, w.length = 32 → 18446744073709551616 ≤ ofBigEndian w →
      wordU64 w = .error .invalidChainEvidence := by
  refine ⟨fun digest signature hdigest hsignature => ⟨?_, ?_, ?_, ?_⟩, fun output n hn => ⟨?_, ?_⟩,
    fun w hw hlarge => ?_⟩
  · rw [erc1271Calldata_eq hsignature, List.length_append, length_functionSelector hK,
      length_encode_erc1271 hdigest, Nat.add_assoc]
  · rw [erc1271Calldata_eq hsignature]
    exact List.take_left' (length_functionSelector hK _)
  · rw [drop_erc1271Calldata hK hsignature]
    exact decode_encode (fits_erc1271 hdigest signature) (encode_erc1271_lt hdigest hsignature)
  · intro digest' signature' hdigest' hsignature' h
    have hencode : encode [.word digest', .bytes signature'] =
        encode [.word digest, .bytes signature] := by
      rw [← drop_erc1271Calldata hK hsignature', h, drop_erc1271Calldata hK hsignature]
    have hvalues := encode_injective (fits_erc1271 hdigest' signature')
      (fits_erc1271 hdigest signature) rfl (encode_erc1271_lt hdigest' hsignature') hencode
    simpa using hvalues
  · exact List.take_left
  · rw [appendWord, List.drop_left]
    exact wordU64_eq_ok.mpr ⟨rfl, hn⟩
  · rw [wordU64_eq hw, if_neg (not_lt.mpr hlarge)]

/-- The hash of the function of a wallet; the rest of the crates is not used. -/
def sampleHashes : Crates where
  json := Json.compact
  parseUrl _ := none
  queryPairs _ := []
  parseMessage _ := none
  messageText _ := []
  verifyEip191 _ _ := false
  keccak256 s :=
    if s = str "isValidSignature(bytes32,bytes)" then
      [0x16, 0x26, 0xba, 0x7e, 0x35, 0x6f, 0x59, 0x79, 0xdd, 0x35, 0x5a, 0x3d, 0x2b, 0xfb, 0x43, 0xe8,
        0x04, 0x20, 0xa4, 0x80, 0xc3, 0xb8, 0x54, 0xed, 0xce, 0x28, 0x6a, 0x82, 0xd7, 0x49, 0x68, 0x69]
    else
      [0xc5, 0xd2, 0x46, 0x01, 0x86, 0xf7, 0x23, 0x3c, 0x92, 0x7e, 0x7d, 0xb2, 0xdc, 0xc7, 0x03, 0xc0,
        0xe5, 0x00, 0xb6, 0x53, 0xca, 0x82, 0x27, 0x3b, 0x7b, 0xfa, 0xd8, 0x04, 0x5d, 0x85, 0xa4, 0x70]
  rfc3339 _ := none

/-- The hashes of the sample have their length. -/
theorem length_sampleHashes (s : Bytes) : (sampleHashes.keccak256 s).length = 32 := by
  simp only [sampleHashes]
  split <;> rfl

/-- A signature of three bytes, padded to a word. -/
theorem erc1271_faithful_sample :
    (erc1271Calldata sampleHashes (List.replicate 32 7) [1, 2, 3]).length = 132 ∧
      (erc1271Calldata sampleHashes (List.replicate 32 7) [1, 2, 3]).take 4 =
        [0x16, 0x26, 0xba, 0x7e] ∧
      decode [.word, .bytes]
          ((erc1271Calldata sampleHashes (List.replicate 32 7) [1, 2, 3]).drop 4) =
        some [.word (List.replicate 32 7), .bytes [1, 2, 3]] := by
  have h := (erc1271_faithful sampleHashes length_sampleHashes).1 (List.replicate 32 7) [1, 2, 3]
    rfl (by decide)
  refine ⟨h.1, h.2.1.trans ?_, h.2.2.1⟩
  simp only [sampleHashes, if_true]
  rfl

end PurpleSky.Farcaster
