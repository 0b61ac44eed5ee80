import Mathlib

/-!
# Byte strings

A text is the list of its UTF-8 bytes. Length, order, equality, prefix and split at an ASCII
byte are then operations on lists, and every statement below is about all byte lists, the valid
UTF-8 ones among them.

* `str` reads a literal; `splitOnce`, `rsplitOnce` split at the first and the last occurrence.
* `hexEncode`, `hexDecode`: two digits a byte, lowercase out, either case in.
* `decimal`, `ofDecimal`: decimal digits.
* `bigEndian`, `ofBigEndian`: numbers of a fixed width.
-/

namespace PurpleSky

/-- A byte string. -/
abbrev Bytes := List UInt8

/-- The UTF-8 bytes of a literal. -/
def str (s : String) : Bytes := s.toByteArray.data.toList

namespace Bytes

/-! ## ASCII classes -/

/-- `a`–`z`. -/
def isLower (b : UInt8) : Bool := 97 ≤ b && b ≤ 122

/-- `A`–`Z`. -/
def isUpper (b : UInt8) : Bool := 65 ≤ b && b ≤ 90

/-- `0`–`9`. -/
def isDigit (b : UInt8) : Bool := 48 ≤ b && b ≤ 57

/-- An ASCII letter. -/
def isAlpha (b : UInt8) : Bool := isLower b || isUpper b

/-- An ASCII letter or digit. -/
def isAlnum (b : UInt8) : Bool := isAlpha b || isDigit b

/-- An ASCII hexadecimal digit, in either case. -/
def isHexDigit (b : UInt8) : Bool := isDigit b || (97 ≤ b && b ≤ 102) || (65 ≤ b && b ≤ 70)

/-- The lowercase form of a letter; other bytes are their own. -/
def toLower (b : UInt8) : UInt8 := if isUpper b then b + 32 else b

/-- Equal but for the case of ASCII letters. -/
def eqIgnoreCase (s t : Bytes) : Bool := s.map toLower = t.map toLower

/-! ## Splitting -/

/-- The parts before and after the first occurrence of `c`. -/
def splitOnce (c : UInt8) : Bytes → Option (Bytes × Bytes)
  | [] => none
  | b :: rest =>
      if b = c then some ([], rest) else (splitOnce c rest).map fun (x, y) => (b :: x, y)

/-- The parts before and after the last occurrence of `c`. -/
def rsplitOnce (c : UInt8) (s : Bytes) : Option (Bytes × Bytes) :=
  (splitOnce c s.reverse).map fun (x, y) => (y.reverse, x.reverse)

/-- The first split point: the left part is free of the separator. -/
theorem splitOnce_eq_some_iff {c : UInt8} {s x y : Bytes} :
    splitOnce c s = some (x, y) ↔ s = x ++ c :: y ∧ c ∉ x := by
  induction s generalizing x with
  | nil => simp [splitOnce]
  | cons b rest ih =>
      unfold splitOnce
      by_cases hb : b = c
      · rw [if_pos hb]
        subst hb
        cases x with
        | nil => simp [eq_comm]
        | cons a x =>
            constructor
            · intro h
              simp at h
            · rintro ⟨h, hx⟩
              simp only [List.cons_append, List.cons.injEq] at h
              exact absurd (h.1 ▸ List.mem_cons_self) hx
      · rw [if_neg hb]
        cases x with
        | nil => simp [hb]
        | cons a x =>
            simp only [Option.map_eq_some_iff, Prod.exists, Prod.mk.injEq, List.cons.injEq,
              List.cons_append, List.mem_cons, not_or]
            constructor
            · rintro ⟨x', y', h, ⟨rfl, rfl⟩, rfl⟩
              obtain ⟨hs, hx⟩ := ih.mp h
              exact ⟨⟨rfl, hs⟩, fun h => hb h.symm, hx⟩
            · rintro ⟨⟨rfl, hs⟩, -, hx⟩
              exact ⟨x, y, ih.mpr ⟨hs, hx⟩, ⟨rfl, rfl⟩, rfl⟩

/-- The last split point: the right part is free of the separator. -/
theorem rsplitOnce_eq_some_iff {c : UInt8} {s x y : Bytes} :
    rsplitOnce c s = some (x, y) ↔ s = x ++ c :: y ∧ c ∉ y := by
  simp only [rsplitOnce, Option.map_eq_some_iff, Prod.exists, Prod.mk.injEq, splitOnce_eq_some_iff]
  constructor
  · rintro ⟨u, v, ⟨hs, hu⟩, rfl, rfl⟩
    refine ⟨?_, by rwa [List.mem_reverse]⟩
    rw [← List.reverse_reverse s, hs]
    simp
  · rintro ⟨rfl, hy⟩
    exact ⟨y.reverse, x.reverse, ⟨by simp, by rwa [List.mem_reverse]⟩, by simp, by simp⟩

/-- The text after a prefix. -/
def stripPrefix (p s : Bytes) : Option Bytes :=
  if p.isPrefixOf s then some (s.drop p.length) else none

/-- A byte that does not separate is in one of the parts. -/
theorem exists_part_of_mem {c b : UInt8} {s : Bytes} (hb : b ∈ s) (hne : b ≠ c) :
    ∃ part ∈ s.splitOn c, b ∈ part := by
  induction s with
  | nil => cases hb
  | cons x s ih =>
      rw [List.splitOn_cons_eq_if_modifyHead]
      obtain ⟨first, rest, hparts⟩ := List.exists_cons_of_ne_nil (List.splitOn_ne_nil c s)
      by_cases hx : x = c
      · rw [if_pos (beq_iff_eq.mpr hx)]
        have hb : b ∈ s := (List.mem_cons.mp hb).resolve_left fun h => hne (h.trans hx)
        obtain ⟨part, hpart, hmem⟩ := ih hb
        exact ⟨part, List.mem_cons_of_mem _ hpart, hmem⟩
      · rw [if_neg (by simpa using hx), hparts, List.modifyHead_cons]
        rcases List.mem_cons.mp hb with rfl | hb
        · exact ⟨_, List.mem_cons_self, List.mem_cons_self⟩
        · obtain ⟨part, hpart, hmem⟩ := ih hb
          rw [hparts] at hpart
          rcases List.mem_cons.mp hpart with rfl | hpart
          · exact ⟨_, List.mem_cons_self, List.mem_cons_of_mem _ hmem⟩
          · exact ⟨part, List.mem_cons_of_mem _ hpart, hmem⟩

/-- The rest after a prefix. -/
theorem stripPrefix_eq_some {p s t : Bytes} : stripPrefix p s = some t ↔ s = p ++ t := by
  unfold stripPrefix
  constructor
  · intro h
    split at h
    · rename_i hp
      obtain ⟨u, rfl⟩ := List.isPrefixOf_iff_prefix.mp hp
      rw [List.drop_left] at h
      rw [Option.some.inj h]
    · cases h
  · rintro rfl
    rw [if_pos (List.isPrefixOf_iff_prefix.mpr (List.prefix_append p t)), List.drop_left]

/-! ## Decimal -/

/-- Decimal digits, without a leading zero. -/
def decimal (n : Nat) : Bytes := (Nat.toDigits 10 n).map fun c => UInt8.ofNat c.toNat

/-- The number a string of digits denotes. -/
def ofDecimal (digits : Bytes) : Nat := digits.foldl (fun n b => n * 10 + (b.toNat - 48)) 0

/-- A number below `2 ^ 16`: decimal digits after at most one plus sign. -/
def parseU16 (s : Bytes) : Option Nat :=
  let digits := if s.head? = some 43 then s.tail else s
  if digits ≠ [] ∧ digits.all isDigit ∧ ofDecimal digits < 65536 then some (ofDecimal digits)
  else none

/-- A number less than a power of ten has no more digits. -/
theorem length_decimal_le {n k : Nat} (hk : 0 < k) (h : n < 10 ^ k) : (decimal n).length ≤ k := by
  rw [decimal, List.length_map]
  exact (Nat.length_toDigits_le_iff (by decide) hk).mpr h

/-- Every number has digits. -/
theorem decimal_ne_nil (n : Nat) : decimal n ≠ [] := by
  rw [decimal, Ne, List.map_eq_nil_iff]
  exact Nat.toDigits_ne_nil

/-- A decimal digit is one byte of its own value. -/
theorem toNat_of_isDigit {c : Char} (h : c.isDigit = true) :
    (UInt8.ofNat c.toNat).toNat = c.toNat ∧ 48 ≤ c.toNat ∧ c.toNat ≤ 57 := by
  simp only [Char.isDigit, Bool.and_eq_true, decide_eq_true_eq, ge_iff_le,
    UInt32.le_iff_toNat_le] at h
  have hc : c.val.toNat = c.toNat := rfl
  have h₁ : 48 ≤ c.toNat := h.1
  have h₂ : c.toNat ≤ 57 := h.2
  refine ⟨?_, h₁, h₂⟩
  rw [UInt8.toNat_ofNat']
  omega

/-- They are decimal digits. -/
theorem isDigit_of_mem_decimal {n : Nat} {b : UInt8} (h : b ∈ decimal n) : isDigit b = true := by
  obtain ⟨c, hc, rfl⟩ := List.mem_map.mp h
  obtain ⟨hb, h₁, h₂⟩ := toNat_of_isDigit (Nat.isDigit_of_mem_toDigits (by omega) (by omega) hc)
  simp only [isDigit, Bool.and_eq_true, decide_eq_true_eq, UInt8.le_iff_toNat_le, hb]
  exact ⟨h₁, h₂⟩

/-- A number is read as it was written. -/
@[simp] theorem ofDecimal_decimal (n : Nat) : ofDecimal (decimal n) = n := by
  have step : ∀ (l : List Char) (k : Nat), (∀ c ∈ l, c.isDigit = true) →
      (l.map fun c => UInt8.ofNat c.toNat).foldl (fun n b => n * 10 + (b.toNat - 48)) k =
        Nat.ofDigitChars 10 l k := by
    intro l
    induction l with
    | nil =>
        intro k _
        rfl
    | cons c l ih =>
        intro k h
        have hc := (toNat_of_isDigit (h c List.mem_cons_self)).1
        rw [List.map_cons, List.foldl_cons, Nat.ofDigitChars_cons, hc,
          ih _ fun c hc => h c (List.mem_cons_of_mem _ hc), Nat.mul_comm]
        rfl
  rw [ofDecimal, decimal, step _ _ fun c hc => Nat.isDigit_of_mem_toDigits (by omega) (by omega) hc]
  exact Nat.ofDigitChars_ten_toDigits

/-- A number of sixteen bits is read as it is written. -/
theorem parseU16_decimal {n : Nat} (h : n < 65536) : parseU16 (decimal n) = some n := by
  have hsign : (decimal n).head? ≠ some 43 := by
    intro hhead
    have hdigit := isDigit_of_mem_decimal (List.mem_of_mem_head? hhead)
    cases hdigit
  have hall : (decimal n).all isDigit = true :=
    List.all_eq_true.mpr fun b hb => isDigit_of_mem_decimal hb
  unfold parseU16
  simp only [if_neg hsign, ofDecimal_decimal]
  exact if_pos ⟨decimal_ne_nil n, hall, h⟩

/-! ## Hexadecimal -/

/-- The lowercase digit of a value below sixteen. -/
def hexDigit (n : Nat) : UInt8 := if n < 10 then UInt8.ofNat (48 + n) else UInt8.ofNat (87 + n)

/-- The value of a digit, in either case. -/
def hexValue? (b : UInt8) : Option Nat :=
  if isDigit b then some (b.toNat - 48)
  else if 97 ≤ b && b ≤ 102 then some (b.toNat - 87)
  else if 65 ≤ b && b ≤ 70 then some (b.toNat - 55)
  else none

/-- Two lowercase digits a byte. -/
def hexEncode (s : Bytes) : Bytes :=
  s.flatMap fun b => [hexDigit (b.toNat / 16), hexDigit (b.toNat % 16)]

/-- The bytes of a digit string of even length. -/
def hexDecode : Bytes → Option Bytes
  | [] => some []
  | [_] => none
  | a :: b :: rest => do
      let x ← hexValue? a
      let y ← hexValue? b
      let tail ← hexDecode rest
      pure (UInt8.ofNat (16 * x + y) :: tail)

/-- The number a string of hexadecimal digits denotes. -/
def ofHexadecimal (digits : Bytes) : Nat :=
  digits.foldl (fun n b => n * 16 + (hexValue? b).getD 0) 0

/-- A number below `2 ^ 64`: hexadecimal digits after at most one plus sign. -/
def parseHexU64 (s : Bytes) : Option Nat :=
  let digits := if s.head? = some 43 then s.tail else s
  if digits ≠ [] ∧ digits.all isHexDigit ∧ ofHexadecimal digits < 18446744073709551616 then
    some (ofHexadecimal digits)
  else none

/-- What is read fits in sixty-four bits. -/
theorem parseHexU64_lt {s : Bytes} {n : Nat} (h : parseHexU64 s = some n) :
    n < 18446744073709551616 := by
  simp only [parseHexU64, Option.ite_none_right_eq_some, Option.some.injEq] at h
  obtain ⟨⟨-, -, hlt⟩, rfl⟩ := h
  exact hlt

/-- The digit of a number has it as its value. -/
theorem hexValue?_hexDigit : ∀ n < 16, hexValue? (hexDigit n) = some n := by decide

/-- The digit of a number is a digit. -/
theorem isHexDigit_hexDigit : ∀ n < 16, isHexDigit (hexDigit n) = true := by decide

/-- Bytes are read as they were written. -/
theorem hexDecode_hexEncode (s : Bytes) : hexDecode (hexEncode s) = some s := by
  induction s with
  | nil => rfl
  | cons b s ih =>
      have hb : b.toNat < 256 := b.toNat_lt
      have hlow : UInt8.ofNat (16 * (b.toNat / 16) + b.toNat % 16) = b := by
        rw [Nat.div_add_mod, UInt8.ofNat_toNat]
      show hexDecode (hexDigit (b.toNat / 16) :: hexDigit (b.toNat % 16) :: hexEncode s) = _
      rw [hexDecode, hexValue?_hexDigit _ (by omega), hexValue?_hexDigit _ (by omega), ih]
      simp only [Option.bind_eq_bind, Option.bind_some, Option.pure_def, hlow]

/-- The letter case of a digit is of no matter. -/
theorem hexValue?_toLower (b : UInt8) : hexValue? (toLower b) = hexValue? b := by
  have hall : ∀ n < 256, hexValue? (toLower (UInt8.ofNat n)) = hexValue? (UInt8.ofNat n) := by
    decide +kernel
  have hb := hall b.toNat b.toNat_lt
  rwa [UInt8.ofNat_toNat] at hb

/-- Letters of either case are read as the same bytes. -/
theorem hexDecode_eq_of_eqIgnoreCase {s t : Bytes} (h : eqIgnoreCase s t = true) :
    hexDecode s = hexDecode t := by
  have hlower : ∀ s : Bytes, hexDecode (s.map toLower) = hexDecode s := by
    intro s
    induction s using hexDecode.induct with
    | case1 => rfl
    | case2 b => rfl
    | case3 a b rest ih =>
        simp only [List.map_cons, hexDecode, hexValue?_toLower, ih]
  rw [← hlower s, of_decide_eq_true h, hlower t]

/-- Two digits a byte. -/
@[simp] theorem length_hexEncode (s : Bytes) : (hexEncode s).length = 2 * s.length := by
  induction s with
  | nil => rfl
  | cons b s ih =>
      show (_ :: _ :: hexEncode s).length = _
      simp only [List.length_cons, ih]
      omega

/-- They are hexadecimal digits. -/
theorem isHexDigit_of_mem_hexEncode {s : Bytes} {d : UInt8} (h : d ∈ hexEncode s) :
    isHexDigit d = true := by
  simp only [hexEncode, List.mem_flatMap, List.mem_cons, List.not_mem_nil, or_false] at h
  obtain ⟨b, -, rfl | rfl⟩ := h
  · have := b.toNat_lt
    exact isHexDigit_hexDigit _ (by omega)
  · exact isHexDigit_hexDigit _ (by omega)

/-! ## Fixed-width numbers -/

/-- The low `k` bytes of `n`, most significant first. -/
def bigEndian : Nat → Nat → Bytes
  | 0, _ => []
  | k + 1, n => bigEndian k (n / 256) ++ [UInt8.ofNat (n % 256)]

/-- The number whose bytes these are, most significant first. -/
def ofBigEndian (s : Bytes) : Nat := s.foldl (fun n b => n * 256 + b.toNat) 0

/-- As many bytes as are asked for. -/
@[simp] theorem length_bigEndian (k n : Nat) : (bigEndian k n).length = k := by
  induction k generalizing n with
  | zero => rfl
  | succ k ih => simp [bigEndian, ih]

/-- Bytes are those of their number. -/
theorem bigEndian_ofBigEndian (s : Bytes) : bigEndian s.length (ofBigEndian s) = s := by
  induction s using List.reverseRecOn with
  | nil => rfl
  | append_singleton s b ih =>
      have hb : b.toNat < 256 := b.toNat_lt
      have hsum : ofBigEndian (s ++ [b]) = ofBigEndian s * 256 + b.toNat := by
        rw [ofBigEndian, List.foldl_append]
        rfl
      have hdiv : (ofBigEndian s * 256 + b.toNat) / 256 = ofBigEndian s := by omega
      have hmod : (ofBigEndian s * 256 + b.toNat) % 256 = b.toNat := by omega
      rw [List.length_append, List.length_singleton, bigEndian, hsum, hdiv, hmod, ih,
        UInt8.ofNat_toNat]

/-- Bytes are a number less than a power of 256. -/
theorem ofBigEndian_lt (s : Bytes) : ofBigEndian s < 256 ^ s.length := by
  induction s using List.reverseRecOn with
  | nil => simp [ofBigEndian]
  | append_singleton s b ih =>
      have hb : b.toNat < 256 := b.toNat_lt
      have hsum : ofBigEndian (s ++ [b]) = ofBigEndian s * 256 + b.toNat := by
        rw [ofBigEndian, List.foldl_append]
        rfl
      rw [hsum, List.length_append, List.length_singleton, Nat.pow_succ]
      omega

/-- A number that fits is read as it was written. -/
theorem ofBigEndian_bigEndian {k n : Nat} (h : n < 256 ^ k) :
    ofBigEndian (bigEndian k n) = n := by
  induction k generalizing n with
  | zero =>
      simp only [pow_zero, Nat.lt_one_iff] at h
      subst h
      rfl
  | succ k ih =>
      have hq : n / 256 < 256 ^ k := by
        rw [pow_succ] at h
        omega
      have hb : (UInt8.ofNat (n % 256)).toNat = n % 256 := by
        rw [UInt8.toNat_ofNat']
        omega
      have := ih hq
      simp only [ofBigEndian, bigEndian, List.foldl_append, List.foldl_cons, List.foldl_nil, hb]
        at this ⊢
      omega

end Bytes

end PurpleSky
