import PurpleSky.Lib.Bytes

/-!
# Hexadecimal texts

A text of hexadecimal digits is one text in lowercase for what it is read as, whether that is a
number or the bytes of a string.

* `hexadecimal n`: the digits of a number, lowercase and without a leading zero.
* **`map_toLower_eq_hexadecimal`**: a text of digits without a leading zero is, but for case, the
  text of its number.
* **`eqIgnoreCase_iff`**: two texts of bytes are equal but for case when the bytes are.
-/

namespace PurpleSky.Bytes

/-! ## Digits -/

/-- The value of a digit. -/
def hexValue (b : UInt8) : Nat := (hexValue? b).getD 0

/-- A digit has a value below sixteen, and is the symbol of it but for case. -/
theorem hexValue_spec {b : UInt8} (h : isHexDigit b = true) :
    hexValue? b = some (hexValue b) ∧ hexValue b < 16 ∧ hexDigit (hexValue b) = toLower b := by
  have hall : ∀ n < 256, isHexDigit (UInt8.ofNat n) = true →
      hexValue? (UInt8.ofNat n) = some (hexValue (UInt8.ofNat n)) ∧ hexValue (UInt8.ofNat n) < 16 ∧
        hexDigit (hexValue (UInt8.ofNat n)) = toLower (UInt8.ofNat n) := by
    decide +kernel
  have hb := hall b.toNat b.toNat_lt
  rw [UInt8.ofNat_toNat] at hb
  exact hb h

/-- A byte with a value is a digit, and has that value. -/
theorem isHexDigit_of_hexValue? {b : UInt8} {n : Nat} (h : hexValue? b = some n) :
    isHexDigit b = true ∧ hexValue b = n := by
  refine ⟨?_, by rw [hexValue, h, Option.getD_some]⟩
  unfold hexValue? at h
  unfold isHexDigit
  split at h
  · next hdigit => rw [hdigit, Bool.true_or, Bool.true_or]
  · split at h
    · next hlower => rw [hlower, Bool.or_true, Bool.true_or]
    · split at h
      · next hupper => rw [hupper, Bool.or_true]
      · cases h

/-- The digit of a number has it as its value. -/
@[simp] theorem hexValue_hexDigit {n : Nat} (h : n < 16) : hexValue (hexDigit n) = n := by
  rw [hexValue, hexValue?_hexDigit n h, Option.getD_some]

/-- Only one digit is worth nothing. -/
theorem eq_zero_digit {b : UInt8} (h : isHexDigit b = true) (hvalue : hexValue b = 0) : b = 48 := by
  have hall : ∀ n < 256, isHexDigit (UInt8.ofNat n) = true → hexValue (UInt8.ofNat n) = 0 →
      UInt8.ofNat n = 48 := by
    decide +kernel
  have hb := hall b.toNat b.toNat_lt
  rw [UInt8.ofNat_toNat] at hb
  exact hb h hvalue

/-! ## Numbers -/

/-- The digits of a number, lowercase and without a leading zero. -/
def hexadecimal (n : Nat) : Bytes :=
  if n = 0 then [48] else (Nat.digits 16 n).reverse.map hexDigit

/-- Horner's rule reads the digits from the highest. -/
theorem ofHexadecimal_eq (s : Bytes) :
    ofHexadecimal s = Nat.ofDigits 16 (s.map hexValue).reverse := by
  induction s using List.reverseRecOn with
  | nil => rfl
  | append_singleton s b ih =>
      have hstep : ofHexadecimal (s ++ [b]) = ofHexadecimal s * 16 + hexValue b := by
        rw [ofHexadecimal, List.foldl_append]
        rfl
      rw [hstep, ih, List.map_append, List.map_singleton, List.reverse_append,
        List.reverse_singleton, List.singleton_append, Nat.ofDigits_cons]
      ring

/-- The digits of a number that is not zero. -/
theorem hexadecimal_of_ne {n : Nat} (h : n ≠ 0) :
    hexadecimal n = (Nat.digits 16 n).reverse.map hexDigit := if_neg h

/-- Every number has digits. -/
theorem hexadecimal_ne_nil (n : Nat) : hexadecimal n ≠ [] := by
  by_cases h : n = 0
  · rw [h]
    exact List.cons_ne_nil 48 []
  · rw [hexadecimal_of_ne h, Ne, List.map_eq_nil_iff, List.reverse_eq_nil_iff]
    exact Nat.digits_ne_nil_iff_ne_zero.mpr h

/-- They are hexadecimal digits. -/
theorem isHexDigit_of_mem_hexadecimal {n : Nat} {b : UInt8} (h : b ∈ hexadecimal n) :
    isHexDigit b = true := by
  by_cases hn : n = 0
  · rw [hn] at h
    obtain rfl := List.mem_singleton.mp h
    rfl
  · rw [hexadecimal_of_ne hn] at h
    obtain ⟨d, hd, rfl⟩ := List.mem_map.mp h
    exact isHexDigit_hexDigit d (Nat.digits_lt_base (by omega) (List.mem_reverse.mp hd))

/-- A number is read as it was written. -/
@[simp] theorem ofHexadecimal_hexadecimal (n : Nat) : ofHexadecimal (hexadecimal n) = n := by
  by_cases h : n = 0
  · rw [h]
    rfl
  · have hvalues : ((Nat.digits 16 n).reverse.map hexDigit).map hexValue =
        (Nat.digits 16 n).reverse := by
      rw [List.map_map]
      refine (List.map_congr_left fun d hd => ?_).trans (List.map_id _)
      exact hexValue_hexDigit (Nat.digits_lt_base (by omega) (List.mem_reverse.mp hd))
    rw [hexadecimal_of_ne h, ofHexadecimal_eq, hvalues, List.reverse_reverse, Nat.ofDigits_digits]

/-- A text of digits without a leading zero is the text of its number, but for case. -/
theorem map_toLower_eq_hexadecimal {s : Bytes} (hne : s ≠ [])
    (hdigits : ∀ b ∈ s, isHexDigit b = true)
    (hzero : s.head? = some 48 → s = [48]) : s.map toLower = hexadecimal (ofHexadecimal s) := by
  obtain ⟨b, rest, rfl⟩ := List.exists_cons_of_ne_nil hne
  by_cases hb : b = 48
  · rw [hzero (by rw [hb]; rfl)]
    rfl
  -- the highest digit is not zero, so that the digits are those of their number
  have hvalues : Nat.digits 16 (ofHexadecimal (b :: rest)) = ((b :: rest).map hexValue).reverse := by
    rw [ofHexadecimal_eq]
    refine Nat.digits_ofDigits 16 (by omega) _ (fun d hd => ?_) fun h => ?_
    · obtain ⟨c, hc, rfl⟩ := List.mem_map.mp (List.mem_reverse.mp hd)
      exact (hexValue_spec (hdigits c hc)).2.1
    · rw [List.getLast_reverse, List.head_map, List.head_cons]
      exact fun hvalue => hb (eq_zero_digit (hdigits b List.mem_cons_self) hvalue)
  have hpositive : ofHexadecimal (b :: rest) ≠ 0 := by
    intro h
    rw [h, Nat.digits_zero] at hvalues
    exact List.cons_ne_nil _ _ (List.reverse_eq_nil_iff.mp hvalues.symm)
  rw [hexadecimal_of_ne hpositive, hvalues, List.reverse_reverse, List.map_map]
  exact List.map_congr_left fun c hc => (hexValue_spec (hdigits c hc)).2.2.symm

/-- A number has no leading zero. -/
theorem head?_hexadecimal {n : Nat} (h : (hexadecimal n).head? = some 48) :
    hexadecimal n = [48] := by
  by_cases hn : n = 0
  · rw [hn]
    rfl
  · rw [hexadecimal_of_ne hn, List.head?_map, List.head?_reverse,
      List.getLast?_eq_getLast_of_ne_nil (Nat.digits_ne_nil_iff_ne_zero.mpr hn), Option.map_some,
      Option.some.injEq] at h
    have hlt := Nat.digits_lt_base (by omega : 1 < 16)
      (List.getLast_mem (Nat.digits_ne_nil_iff_ne_zero.mpr hn))
    have hvalue := hexValue_hexDigit hlt
    rw [h] at hvalue
    exact absurd hvalue.symm (Nat.getLast_digit_ne_zero 16 hn)

/-! ## Bytes -/

/-- A text of bytes is, but for case, the text that these bytes are written as. -/
theorem map_toLower_eq_hexEncode {s bytes : Bytes} (h : hexDecode s = some bytes) :
    s.map toLower = hexEncode bytes := by
  induction s using hexDecode.induct generalizing bytes with
  | case1 =>
      obtain rfl := Option.some.inj h
      rfl
  | case2 b => cases h
  | case3 a b rest ih =>
      simp only [hexDecode, Option.bind_eq_bind, Option.bind_eq_some_iff, Option.pure_def,
        Option.some.injEq] at h
      obtain ⟨x, hx, y, hy, tail, htail, rfl⟩ := h
      obtain ⟨ha, rfl⟩ := isHexDigit_of_hexValue? hx
      obtain ⟨hb, rfl⟩ := isHexDigit_of_hexValue? hy
      obtain ⟨-, halt, hlower⟩ := hexValue_spec ha
      obtain ⟨-, hblt, hlower'⟩ := hexValue_spec hb
      have hbyte : (UInt8.ofNat (16 * hexValue a + hexValue b)).toNat =
          16 * hexValue a + hexValue b := by
        rw [UInt8.toNat_ofNat']
        omega
      have hhigh : (16 * hexValue a + hexValue b) / 16 = hexValue a := by omega
      have hlow : (16 * hexValue a + hexValue b) % 16 = hexValue b := by omega
      show toLower a :: toLower b :: rest.map toLower =
        hexDigit (_ / 16) :: hexDigit (_ % 16) :: hexEncode tail
      rw [hbyte, hhigh, hlow, hlower, hlower', ih htail]

/-- Two texts of bytes are equal but for case when they are the texts of the same bytes. -/
theorem eqIgnoreCase_iff {s t : Bytes} {x y : Bytes} (hs : hexDecode s = some x)
    (ht : hexDecode t = some y) : eqIgnoreCase s t = true ↔ x = y := by
  constructor
  · intro h
    have heq := hexDecode_eq_of_eqIgnoreCase h
    rw [hs, ht] at heq
    exact Option.some.inj heq
  · rintro rfl
    exact decide_eq_true ((map_toLower_eq_hexEncode hs).trans (map_toLower_eq_hexEncode ht).symm)

end PurpleSky.Bytes
