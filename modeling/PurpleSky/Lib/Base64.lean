import PurpleSky.Lib.Bytes

/-!
# Base64

Six bits a symbol over an `Alphabet`, in groups of four symbols for three bytes. The decoder is
strict in the bits a short last group leaves over, and takes `=` padding as its `Padding` mode
allows.

* `encode` never pads.
* `decode_eq_some_iff`: a text decodes to `b` exactly when it is `encode b` followed by the padding
  the mode allows. Decoding is therefore inverse to encoding, and injective up to padding.
-/

namespace PurpleSky.Base64

/-- The padding byte `=`. -/
def pad : UInt8 := 61

/-- Sixty-four symbols with their values; the padding byte is not one of them. -/
structure Alphabet where
  /-- The symbol of a value. -/
  symbol : Fin 64 → UInt8
  /-- The value of a symbol. -/
  value? : UInt8 → Option (Fin 64)
  value?_symbol : ∀ i, value? (symbol i) = some i
  symbol_of_value? : ∀ b i, value? b = some i → symbol i = b
  symbol_ne_pad : ∀ i, symbol i ≠ pad

/-- The symbols `A`–`Z`, `a`–`z`, `0`–`9`, then two of the alphabet's own. -/
def symbolOf (s₆₂ s₆₃ : UInt8) (i : Fin 64) : UInt8 :=
  if i < 26 then UInt8.ofNat (65 + i)
  else if i < 52 then UInt8.ofNat (71 + i)
  else if i < 62 then UInt8.ofNat (i - 4)
  else if i = 62 then s₆₂ else s₆₃

/-- The values of those symbols. -/
def valueOf? (s₆₂ s₆₃ b : UInt8) : Option (Fin 64) :=
  if Bytes.isUpper b then some (Fin.ofNat 64 (b.toNat - 65))
  else if Bytes.isLower b then some (Fin.ofNat 64 (b.toNat - 71))
  else if Bytes.isDigit b then some (Fin.ofNat 64 (b.toNat + 4))
  else if b = s₆₂ then some 62
  else if b = s₆₃ then some 63
  else none

/-- A value found belongs to the symbol it was found for. -/
theorem symbolOf_of_valueOf? {s₆₂ s₆₃ b : UInt8} {i : Fin 64} (h : valueOf? s₆₂ s₆₃ b = some i) :
    symbolOf s₆₂ s₆₃ i = b := by
  have byte : ∀ n, n = b.toNat → UInt8.ofNat n = b := by
    rintro n rfl
    exact UInt8.ofNat_toNat
  simp only [valueOf?, Bytes.isUpper, Bytes.isLower, Bytes.isDigit, Bool.and_eq_true,
    decide_eq_true_eq, UInt8.le_iff_toNat_le, UInt8.reduceToNat] at h
  split_ifs at h with hu hl hd h₂ h₃
  · obtain rfl := Option.some.inj h
    have hv : (Fin.ofNat 64 (b.toNat - 65)).val = b.toNat - 65 := Nat.mod_eq_of_lt (by omega)
    rw [symbolOf, if_pos (Fin.lt_def.mpr (by rw [hv]; show _ < 26; omega)), hv]
    exact byte _ (by omega)
  · obtain rfl := Option.some.inj h
    have hv : (Fin.ofNat 64 (b.toNat - 71)).val = b.toNat - 71 := Nat.mod_eq_of_lt (by omega)
    rw [symbolOf, if_neg (by rw [Fin.lt_def, hv]; show ¬ _ < 26; omega),
      if_pos (Fin.lt_def.mpr (by rw [hv]; show _ < 52; omega)), hv]
    exact byte _ (by omega)
  · obtain rfl := Option.some.inj h
    have hv : (Fin.ofNat 64 (b.toNat + 4)).val = b.toNat + 4 := Nat.mod_eq_of_lt (by omega)
    rw [symbolOf, if_neg (by rw [Fin.lt_def, hv]; show ¬ _ < 26; omega),
      if_neg (by rw [Fin.lt_def, hv]; show ¬ _ < 52; omega),
      if_pos (Fin.lt_def.mpr (by rw [hv]; show _ < 62; omega)), hv]
    exact byte _ (by omega)
  · obtain rfl := Option.some.inj h
    exact h₂.symm
  · obtain rfl := Option.some.inj h
    exact h₃.symm

/-- The standard alphabet, with `+` and `/`. -/
def standard : Alphabet where
  symbol := symbolOf 43 47
  value? := valueOf? 43 47
  value?_symbol := by decide
  symbol_of_value? _ _ := symbolOf_of_valueOf?
  symbol_ne_pad := by decide

/-- The alphabet for URLs and file names, with `-` and `_`. -/
def urlSafe : Alphabet where
  symbol := symbolOf 45 95
  value? := valueOf? 45 95
  value?_symbol := by decide
  symbol_of_value? _ _ := symbolOf_of_valueOf?
  symbol_ne_pad := by decide

/-- What a decoder takes after the last symbol: any part of the canonical padding, or nothing. -/
inductive Padding where
  | indifferent
  | requireNone
  deriving DecidableEq, Repr

variable (A : Alphabet)

/-- The symbol of a value below sixty-four. -/
def Alphabet.at (n : Nat) : UInt8 := A.symbol (Fin.ofNat 64 n)

/-- The six-bit values of a byte string: four for three bytes, two or three for what is left. -/
def digits : Bytes → List Nat
  | [] => []
  | [x] => [x.toNat / 4, x.toNat % 4 * 16]
  | [x, y] => [x.toNat / 4, x.toNat % 4 * 16 + y.toNat / 16, y.toNat % 16 * 4]
  | x :: y :: z :: rest => x.toNat / 4 :: (x.toNat % 4 * 16 + y.toNat / 16) ::
      (y.toNat % 16 * 4 + z.toNat / 64) :: z.toNat % 64 :: digits rest

/-- Encode without padding. -/
def encode (b : Bytes) : Bytes := (digits b).map A.at

/-- The bytes of one group of symbols: all of three, or a short group whose spare bits are zero. -/
def decodeGroup : List Nat → Option Bytes
  | [a, b] => if b % 16 = 0 then some [UInt8.ofNat (a * 4 + b / 16)] else none
  | [a, b, c] =>
      if c % 4 = 0 then some [UInt8.ofNat (a * 4 + b / 16), UInt8.ofNat (b % 16 * 16 + c / 4)]
      else none
  | [a, b, c, d] =>
      some [UInt8.ofNat (a * 4 + b / 16), UInt8.ofNat (b % 16 * 16 + c / 4),
        UInt8.ofNat (c % 4 * 64 + d)]
  | _ => none

/-- The values of a run of symbols. -/
def values? (s : Bytes) : Option (List Nat) := s.mapM fun b => (A.value? b).map Fin.val

/-- The last one to four bytes of a text: two to four symbols, then padding to the end. -/
def decodeSuffix (mode : Padding) (s : Bytes) : Option Bytes :=
  let symbols := s.takeWhile (· ≠ pad)
  let padding := s.drop symbols.length
  if padding.all (· = pad) ∧ (mode = .requireNone → padding = []) then
    (values? A symbols).bind decodeGroup
  else none

/-- Decode groups of four symbols, and the last group with its padding. -/
def decode (mode : Padding) : Bytes → Option Bytes
  | a :: b :: c :: d :: e :: rest => do
      let group ← (values? A [a, b, c, d]).bind decodeGroup
      let tail ← decode mode (e :: rest)
      pure (group ++ tail)
  | [] => some []
  | s => decodeSuffix A mode s

/-! ## Groups -/

theorem digits_lt (b : Bytes) : ∀ v ∈ digits b, v < 64 := by
  fun_induction digits b with
  | case1 => simp
  | case2 x =>
      have := x.toNat_lt
      simp only [List.mem_cons, List.not_mem_nil, or_false, forall_eq_or_imp, forall_eq]
      omega
  | case3 x y =>
      have := x.toNat_lt
      have := y.toNat_lt
      simp only [List.mem_cons, List.not_mem_nil, or_false, forall_eq_or_imp, forall_eq]
      omega
  | case4 x y z rest ih =>
      have := x.toNat_lt
      have := y.toNat_lt
      have := z.toNat_lt
      simp only [List.mem_cons, forall_eq_or_imp]
      exact ⟨by omega, by omega, by omega, by omega, ih⟩

/-- A group of one to three bytes is recovered from its values. -/
theorem decodeGroup_digits {g : Bytes} (hne : g ≠ []) (hlen : g.length ≤ 3) :
    decodeGroup (digits g) = some g := by
  have join : ∀ (x : UInt8) (n : Nat), n = x.toNat → UInt8.ofNat n = x := by
    rintro x n rfl
    exact UInt8.ofNat_toNat
  match g, hne, hlen with
  | [x], _, _ =>
      simp only [digits, decodeGroup]
      rw [if_pos (by omega), join x _ (by omega)]
  | [x, y], _, _ =>
      have := y.toNat_lt
      simp only [digits, decodeGroup]
      rw [if_pos (by omega), join x _ (by omega), join y _ (by omega)]
  | [x, y, z], _, _ =>
      have := y.toNat_lt
      have := z.toNat_lt
      simp only [digits, decodeGroup]
      rw [join x _ (by omega), join y _ (by omega), join z _ (by omega)]

/-- A decoded group has the values it was decoded from, and is one byte shorter. -/
theorem digits_of_decodeGroup {vs : List Nat} {g : Bytes} (hv : ∀ v ∈ vs, v < 64)
    (h : decodeGroup vs = some g) : digits g = vs ∧ vs.length = g.length + 1 ∧ g ≠ [] := by
  have byte : ∀ n < 256, (UInt8.ofNat n).toNat = n := by
    intro n hn
    rw [UInt8.toNat_ofNat']
    omega
  match vs, h with
  | [a, b], h =>
      have ha := hv a (by simp)
      have hb := hv b (by simp)
      simp only [decodeGroup, Option.ite_none_right_eq_some, Option.some.injEq] at h
      obtain ⟨h0, rfl⟩ := h
      refine ⟨?_, rfl, by simp⟩
      simp only [digits, byte _ (by omega : a * 4 + b / 16 < 256), List.cons.injEq, and_true]
      omega
  | [a, b, c], h =>
      have ha := hv a (by simp)
      have hb := hv b (by simp)
      have hc := hv c (by simp)
      simp only [decodeGroup, Option.ite_none_right_eq_some, Option.some.injEq] at h
      obtain ⟨h0, rfl⟩ := h
      refine ⟨?_, rfl, by simp⟩
      simp only [digits, byte _ (by omega : a * 4 + b / 16 < 256),
        byte _ (by omega : b % 16 * 16 + c / 4 < 256), List.cons.injEq, and_true]
      omega
  | [a, b, c, d], h =>
      have ha := hv a (by simp)
      have hb := hv b (by simp)
      have hc := hv c (by simp)
      have hd := hv d (by simp)
      simp only [decodeGroup, Option.some.injEq] at h
      subst h
      refine ⟨?_, rfl, by simp⟩
      simp only [digits, byte _ (by omega : a * 4 + b / 16 < 256),
        byte _ (by omega : b % 16 * 16 + c / 4 < 256), byte _ (by omega : c % 4 * 64 + d < 256),
        List.cons.injEq, and_true]
      omega

/-- Whole groups encode one after another. -/
theorem digits_append {g b : Bytes} (hg : g.length = 3) :
    digits (g ++ b) = digits g ++ digits b := by
  match g, hg with
  | [x, y, z], _ => simp [digits]

/-! ## Symbols -/

theorem at_of_value? {b : UInt8} {i : Fin 64} (h : A.value? b = some i) : A.at i = b := by
  rw [Alphabet.at, Fin.ofNat_val_eq_self]
  exact A.symbol_of_value? b i h

theorem at_ne_pad (n : Nat) : A.at n ≠ pad := A.symbol_ne_pad _

/-- The values of a text are those whose symbols spell it. -/
theorem values?_eq_some_iff {s : Bytes} {vs : List Nat} :
    values? A s = some vs ↔ (∀ v ∈ vs, v < 64) ∧ s = vs.map A.at := by
  induction s generalizing vs with
  | nil => cases vs <;> simp [values?]
  | cons b s ih =>
      have hcons : values? A (b :: s) =
          (A.value? b).bind fun i => (values? A s).map fun vs => i.val :: vs := by
        simp only [values?, List.mapM_cons]
        cases A.value? b with
        | none => rfl
        | some i => cases List.mapM (fun b => Option.map Fin.val (A.value? b)) s <;> rfl
      rw [hcons]
      cases vs with
      | nil => cases A.value? b <;> simp
      | cons v vs =>
          simp only [Option.bind_eq_some_iff, Option.map_eq_some_iff, List.cons.injEq,
            List.mem_cons, forall_eq_or_imp, List.map_cons]
          constructor
          · rintro ⟨i, hi, vs', hvs, rfl, rfl⟩
            obtain ⟨hlt, rfl⟩ := ih.mp hvs
            exact ⟨⟨i.isLt, hlt⟩, (at_of_value? A hi).symm, rfl⟩
          · rintro ⟨⟨hv, hlt⟩, rfl, rfl⟩
            refine ⟨⟨v, hv⟩, ?_, vs, ih.mpr ⟨hlt, rfl⟩, rfl, rfl⟩
            rw [Alphabet.at, A.value?_symbol]
            congr 1
            exact Fin.ext (Nat.mod_eq_of_lt hv)

/-- No symbol of an encoding is the padding byte. -/
theorem pad_notMem_map_at (vs : List Nat) : pad ∉ vs.map A.at := by
  simp only [List.mem_map, not_exists, not_and]
  exact fun v _ => at_ne_pad A v

/-! ## Texts -/

/-- The padding a mode allows after an encoding of `b`. -/
def Padding.Allows (mode : Padding) (b : Bytes) (k : Nat) : Prop :=
  k ≤ (3 - b.length % 3) % 3 ∧ (mode = .requireNone → k = 0)

theorem takeWhile_ne_pad (vs : List Nat) (k : Nat) :
    (vs.map A.at ++ List.replicate k pad).takeWhile (· ≠ pad) = vs.map A.at := by
  rw [List.takeWhile_append_of_pos]
  · cases k <;> simp [List.replicate_succ]
  · intro b hb
    simp only [ne_eq, decide_eq_true_eq]
    rintro rfl
    exact pad_notMem_map_at A vs hb

/-- Removing padding leaves the encoding. -/
theorem rdropWhile_encode_append (b : Bytes) (k : Nat) :
    (encode A b ++ List.replicate k pad).rdropWhile (· = pad) = encode A b := by
  induction k with
  | zero =>
      rw [List.replicate_zero, List.append_nil, List.rdropWhile_eq_self_iff]
      intro hne hlast
      apply pad_notMem_map_at A (digits b)
      rw [decide_eq_true_eq] at hlast
      rw [← hlast]
      exact List.getLast_mem hne
  | succ k ih =>
      rw [List.replicate_succ', ← List.append_assoc, List.rdropWhile_concat_pos _ _ _ (by simp), ih]

/-- The last group: a short or whole group of symbols, then padding. -/
theorem decodeSuffix_eq_some_iff {mode : Padding} {s b : Bytes} :
    decodeSuffix A mode s = some b ↔
      b ≠ [] ∧ b.length ≤ 3 ∧ ∃ k, s = encode A b ++ List.replicate k pad ∧
        (mode = .requireNone → k = 0) := by
  unfold decodeSuffix
  constructor
  · intro h
    simp only [Option.ite_none_right_eq_some, Option.bind_eq_some_iff] at h
    obtain ⟨⟨hpad, hmode⟩, vs, hvs, hg⟩ := h
    obtain ⟨hlt, hsym⟩ := (values?_eq_some_iff A).mp hvs
    obtain ⟨hd, hlen, hne⟩ := digits_of_decodeGroup hlt hg
    have hshort : b.length ≤ 3 := by
      match vs, hg with
      | [_, _], _ | [_, _, _], _ | [_, _, _, _], _ => simp at hlen; omega
    refine ⟨hne, hshort, (s.drop (s.takeWhile (· ≠ pad)).length).length, ?_, ?_⟩
    · have hrep : s.drop (s.takeWhile (· ≠ pad)).length =
          List.replicate (s.drop (s.takeWhile (· ≠ pad)).length).length pad := by
        rw [List.eq_replicate_iff]
        exact ⟨rfl, fun x hx => by simpa using List.all_eq_true.mp hpad x hx⟩
      rw [encode, hd, ← hsym, ← hrep]
      have htw := List.takeWhile_prefix (l := s) (fun x => decide (x ≠ pad))
      exact (List.prefix_iff_eq_append.mp htw).symm
    · intro hm
      rw [hmode hm]
      rfl
  · rintro ⟨hne, hlen, k, rfl, hk⟩
    have htw := takeWhile_ne_pad A (digits b) k
    simp only [encode, htw, List.drop_left]
    rw [if_pos]
    · rw [(values?_eq_some_iff A).mpr ⟨digits_lt b, rfl⟩]
      exact decodeGroup_digits hne hlen
    · refine ⟨by simp, fun hm => ?_⟩
      simp [hk hm]

theorem length_digits (b : Bytes) : (digits b).length = b.length + (b.length + 2) / 3 := by
  fun_induction digits b with
  | case1 | case2 | case3 => simp
  | case4 x y z rest ih =>
      simp only [List.length_cons, ih]
      omega

theorem length_encode (A : Alphabet) (b : Bytes) :
    (encode A b).length = b.length + (b.length + 2) / 3 := by
  rw [encode, List.length_map, length_digits]

/-- **A text decodes to `b` exactly when it is the encoding of `b` and padding the mode allows.** -/
theorem decode_eq_some_iff {mode : Padding} {s b : Bytes} :
    decode A mode s = some b ↔
      ∃ k, s = encode A b ++ List.replicate k pad ∧ mode.Allows b k := by
  fun_induction decode A mode s generalizing b with
  | case1 a₀ a₁ a₂ a₃ e rest ih =>
      simp only [Option.bind_eq_bind, Option.bind_eq_some_iff, Option.pure_def, Option.some.injEq]
      constructor
      · -- a whole group in front of a text the induction hypothesis reads
        rintro ⟨g, ⟨vs, hvs, hg⟩, tail, htail, rfl⟩
        obtain ⟨hlt, hsym⟩ := (values?_eq_some_iff A).mp hvs
        obtain ⟨hd, hlen, -⟩ := digits_of_decodeGroup hlt hg
        obtain ⟨k, hk, hall⟩ := ih.mp htail
        have hg3 : g.length = 3 := by
          have := congrArg List.length hsym
          simp at this
          omega
        refine ⟨k, ?_, ?_⟩
        · rw [encode, digits_append hg3, List.map_append, hd, ← hsym, List.append_assoc,
            ← encode, ← hk]
          rfl
        · have hmod : (g ++ tail).length % 3 = tail.length % 3 := by
            rw [List.length_append]
            omega
          exact ⟨by rw [hmod]; exact hall.1, hall.2⟩
      · rintro ⟨k, hs, hall⟩
        have hlen := congrArg List.length hs
        simp only [List.length_cons, encode, List.length_append, List.length_map,
          length_digits, List.length_replicate] at hlen
        have h3 : 3 ≤ b.length := by
          have := hall.1
          omega
        match b, h3 with
        | x :: y :: z :: tail, _ =>
            have hd : digits (x :: y :: z :: tail) = digits [x, y, z] ++ digits tail :=
              digits_append (g := [x, y, z]) rfl
            rw [encode, hd, List.map_append, List.append_assoc] at hs
            have hsplit : [a₀, a₁, a₂, a₃] ++ (e :: rest) =
                (digits [x, y, z]).map A.at ++ (encode A tail ++ List.replicate k pad) := hs
            obtain ⟨hfst, hsnd⟩ := List.append_inj hsplit rfl
            refine ⟨[x, y, z], ⟨digits [x, y, z], ?_, decodeGroup_digits (by simp) (by simp)⟩,
              tail, ih.mpr ⟨k, hsnd, ?_⟩, rfl⟩
            · exact (values?_eq_some_iff A).mpr ⟨digits_lt _, hfst⟩
            · have hmod : (x :: y :: z :: tail).length % 3 = tail.length % 3 := by
                simp only [List.length_cons]
                omega
              exact ⟨by rw [← hmod]; exact hall.1, hall.2⟩
  | case2 =>
      constructor
      · intro h
        obtain rfl : [] = b := Option.some.inj h
        exact ⟨0, rfl, by simp [Padding.Allows]⟩
      · rintro ⟨k, hs, -⟩
        have hlen := congrArg List.length hs
        simp only [List.length_nil, encode, List.length_append, List.length_map,
          length_digits] at hlen
        have : b.length = 0 := by omega
        rw [List.length_eq_zero_iff.mp this]
  | case3 s hlong hne =>
      have hs4 : s.length ≤ 4 := by
        match s, hlong with
        | [], _ | [_], _ | [_, _], _ | [_, _, _], _ | [_, _, _, _], _ => simp
        | a :: b :: c :: d :: e :: rest, h => exact absurd rfl (h a b c d e rest)
      rw [decodeSuffix_eq_some_iff]
      constructor
      · rintro ⟨hb, hb3, k, rfl, hmode⟩
        refine ⟨k, rfl, ?_, hmode⟩
        simp only [List.length_append, encode, List.length_map, length_digits,
          List.length_replicate] at hs4
        have : b.length ≠ 0 := by simpa using hb
        omega
      · rintro ⟨k, rfl, hall⟩
        have hb : b ≠ [] := by
          rintro rfl
          have : k = 0 := by simpa [Padding.Allows] using hall.1
          subst this
          exact hne rfl
        refine ⟨hb, ?_, k, rfl, hall.2⟩
        simp only [List.length_append, encode, List.length_map, length_digits,
          List.length_replicate] at hs4
        omega

/-- Decoding inverts encoding, in either mode. -/
theorem decode_encode (mode : Padding) (b : Bytes) : decode A mode (encode A b) = some b :=
  (decode_eq_some_iff A).mpr ⟨0, by simp, by simp [Padding.Allows]⟩

end PurpleSky.Base64
