import PurpleSky.Farcaster.Client
import PurpleSky.Lib.Hexadecimal

/-!
# Quantities and hashes of a provider

A quantity is a number in hexadecimal after `0x`, without a leading zero. `quantity` leaves the
digits to the parser of the standard library, which also takes one plus sign before them; behind it,
zeros are not looked for. A hash is a text of bytes, in letters of either case.

* `quantity_eq_ok`: what is accepted is a quantity, or has the plus sign.
* **`quantity_exact_iff`**: on two texts the function does what a reader of quantities does exactly
  when neither of them has the sign.
* `eqIgnoreCase_iff_decodeHex`: hashes are equal but for case when they are of the same bytes.
-/

namespace PurpleSky.Farcaster

open Bytes

/-! ## The texts -/

/-- A text is the quantity of a number. -/
def Quantity (s : Bytes) (n : Nat) : Prop :=
  ∃ digits, s = str "0x" ++ digits ∧ digits ≠ [] ∧ (∀ b ∈ digits, isHexDigit b = true) ∧
    (digits.head? = some 48 → digits = [48]) ∧
    Nat.ofDigits 16 (digits.map hexValue).reverse = n ∧ n < 18446744073709551616

/-- A number behind a plus sign, perhaps with leading zeros. -/
def PlusSigned (s : Bytes) (n : Nat) : Prop :=
  ∃ digits, s = str "0x+" ++ digits ∧ digits ≠ [] ∧ (∀ b ∈ digits, isHexDigit b = true) ∧
    Nat.ofDigits 16 (digits.map hexValue).reverse = n ∧ n < 18446744073709551616

/-- The text that a number is written as. -/
def quantityOf (n : Nat) : Bytes := str "0x" ++ hexadecimal n

variable {s t : Bytes} {n m : Nat}

theorem quantity_quantityOf (h : n < 18446744073709551616) : Quantity (quantityOf n) n :=
  ⟨hexadecimal n, rfl, hexadecimal_ne_nil n, fun _ => isHexDigit_of_mem_hexadecimal,
    head?_hexadecimal, by rw [← ofHexadecimal_eq, ofHexadecimal_hexadecimal], h⟩

/-- But for case there is one quantity of a number. -/
theorem Quantity.map_toLower (h : Quantity s n) : s.map toLower = quantityOf n := by
  obtain ⟨digits, rfl, hne, hdigits, hzero, rfl, -⟩ := h
  have hmarker : (str "0x").map toLower = str "0x" := by decide +kernel
  rw [List.map_append, hmarker, map_toLower_eq_hexadecimal hne hdigits hzero, ofHexadecimal_eq]
  rfl

theorem Quantity.eqIgnoreCase (hs : Quantity s n) (ht : Quantity t n) : eqIgnoreCase s t = true :=
  decide_eq_true (hs.map_toLower.trans ht.map_toLower.symm)

/-- The sign is no digit. -/
theorem PlusSigned.not_quantity (h : PlusSigned s n) : ¬Quantity s m := by
  rintro ⟨digits', heq, -, hdigits, -⟩
  obtain ⟨digits, rfl, -⟩ := h
  have hmarker : str "0x+" = str "0x" ++ [43] := by decide +kernel
  rw [hmarker, List.append_assoc] at heq
  obtain rfl := List.append_cancel_left heq
  exact absurd (hdigits 43 List.mem_cons_self) (by decide)

/-! ## What is accepted -/

/-- Source: the parser of the standard library, `u64::from_str_radix` -/
theorem parseHexU64_eq_some {digits : Bytes} : parseHexU64 digits = some n ↔
    ∃ rest, (digits = rest ∨ digits = 43 :: rest) ∧ rest ≠ [] ∧ (∀ b ∈ rest, isHexDigit b = true) ∧
      Nat.ofDigits 16 (rest.map hexValue).reverse = n ∧ n < 18446744073709551616 := by
  have hsign : isHexDigit 43 = false := by decide
  simp only [parseHexU64, Option.ite_none_right_eq_some, Option.some.injEq, List.all_eq_true,
    ofHexadecimal_eq]
  constructor
  · rintro ⟨⟨hne, hdigits, hlt⟩, rfl⟩
    refine ⟨_, ?_, hne, hdigits, rfl, hlt⟩
    by_cases h : digits.head? = some 43
    · rw [if_pos h]
      exact .inr (List.cons_head?_tail h).symm
    · rw [if_neg h]
      exact .inl rfl
  · rintro ⟨rest, rfl | rfl, hne, hdigits, rfl, hlt⟩
    · have h : digits.head? ≠ some 43 := by
        intro h
        rw [hdigits 43 (List.mem_of_mem_head? h)] at hsign
        cases hsign
      rw [if_neg h]
      exact ⟨⟨hne, hdigits, hlt⟩, rfl⟩
    · rw [if_pos List.head?_cons, List.tail_cons]
      exact ⟨⟨hne, hdigits, hlt⟩, rfl⟩

theorem quantity_eq_ok : quantity s = .ok n ↔ Quantity s n ∨ PlusSigned s n := by
  simp only [quantity, bind_eq_ok, okOr_eq_ok, ensure_eq_ok, stripPrefix_eq_some,
    parseHexU64_eq_some]
  have hmarker : str "0x+" = str "0x" ++ [43] := by decide +kernel
  constructor
  · rintro ⟨digits, rfl, _, ⟨-, hzero⟩, rest, rfl | rfl, hne, hdigits, hvalue, hlt⟩
    · refine .inl ⟨digits, rfl, hne, hdigits, fun hhead => ?_, hvalue, hlt⟩
      obtain ⟨rest, rfl⟩ := List.head?_eq_some_iff.mp hhead
      have hshort : (48 :: rest).length ≤ 1 := not_lt.mp fun h => hzero ⟨h, hhead⟩
      rw [List.length_eq_zero_iff.mp (Nat.le_zero.mp (Nat.le_of_succ_le_succ hshort))]
    · exact .inr ⟨rest, by rw [hmarker, List.append_assoc]; rfl, hne, hdigits, hvalue, hlt⟩
  · rintro (⟨digits, rfl, hne, hdigits, hzero, hvalue, hlt⟩ | ⟨digits, rfl, hne, hdigits, hvalue, hlt⟩)
    · refine ⟨digits, rfl, (), ⟨hne, fun h => ?_⟩, digits, .inl rfl, hne, hdigits, hvalue, hlt⟩
      obtain ⟨hlong, hhead⟩ := h
      rw [hzero hhead] at hlong
      exact absurd hlong (by decide)
    · refine ⟨43 :: digits, by rw [hmarker, List.append_assoc]; rfl, (),
        ⟨List.cons_ne_nil _ _, fun h => ?_⟩, digits, .inr rfl, hne, hdigits, hvalue, hlt⟩
      exact absurd (Option.some.inj h.2) (by decide)

/-- Any other text is evidence of nothing. -/
theorem quantity_throws : Throws (fun e => e = .invalidChainEvidence) (quantity s) := by
  unfold quantity
  refine Throws.bind (throws_okOr fun _ => rfl) fun _ _ => ?_
  refine Throws.bind (throws_ensure fun _ => rfl) fun _ _ => ?_
  exact throws_okOr fun _ => rfl

/-! ## The reader of quantities -/

/-- On a text the function is the reader of quantities. -/
structure Exact (s : Bytes) : Prop where
  accepts : ∀ n, quantity s = .ok n ↔ Quantity s n
  refuses : (∀ n, ¬Quantity s n) → quantity s = .error .invalidChainEvidence

theorem exact_iff : Exact s ↔ ∀ n, ¬PlusSigned s n := by
  constructor
  · intro h n hsigned
    exact hsigned.not_quantity ((h.accepts n).mp (quantity_eq_ok.mpr (.inr hsigned)))
  · intro h
    have haccepts : ∀ n, quantity s = .ok n ↔ Quantity s n := fun n =>
      quantity_eq_ok.trans (or_iff_left (h n))
    refine ⟨haccepts, fun hnone => ?_⟩
    rcases hread : quantity s with e | n
    · rw [quantity_throws e hread]
    · exact absurd ((haccepts n).mp hread) (hnone n)

/-- **Quantities.** What a number is written as is read as that number. On two texts the function
accepts the quantities and no other text, and equal numbers only from texts that are equal but for
case, exactly when neither of them has a plus sign before its digits. -/
theorem quantity_exact_iff (s t : Bytes) :
    (∀ n < 18446744073709551616, quantity (quantityOf n) = .ok n) ∧
    ((Exact s ∧ Exact t ∧
        ∀ n, quantity s = .ok n → quantity t = .ok n → eqIgnoreCase s t = true) ↔
      (∀ n, ¬PlusSigned s n) ∧ ∀ n, ¬PlusSigned t n) := by
  refine ⟨fun n h => quantity_eq_ok.mpr (.inl (quantity_quantityOf h)), ?_⟩
  constructor
  · rintro ⟨hs, ht, -⟩
    exact ⟨exact_iff.mp hs, exact_iff.mp ht⟩
  · rintro ⟨hs, ht⟩
    refine ⟨exact_iff.mpr hs, exact_iff.mpr ht, fun n hn hm => ?_⟩
    exact Quantity.eqIgnoreCase (((exact_iff.mpr hs).accepts n).mp hn)
      (((exact_iff.mpr ht).accepts n).mp hm)

/-- A plus sign is accepted, and the zero behind it. -/
theorem quantity_plus : quantity (str "0x+0a") = .ok 10 ∧ ¬Exact (str "0x+0a") := by
  have hplus : PlusSigned (str "0x+0a") 10 := by
    refine ⟨str "0a", ?_, ?_, ?_, ?_, ?_⟩
    all_goals decide +kernel
  exact ⟨quantity_eq_ok.mpr (.inr hplus), fun h => exact_iff.mp h 10 hplus⟩

/-! ## Hashes -/

/-- Two hashes are equal but for the case of their digits when they are the same. -/
theorem eqIgnoreCase_iff_decodeHex {bytes bytes' : Bytes} (hs : decodeHex s = .ok bytes)
    (ht : decodeHex t = .ok bytes') : eqIgnoreCase s t = true ↔ bytes = bytes' := by
  simp only [decodeHex, bind_eq_ok, okOr_eq_ok, stripPrefix_eq_some] at hs ht
  obtain ⟨digits, rfl, hs⟩ := hs
  obtain ⟨digits', rfl, ht⟩ := ht
  rw [← eqIgnoreCase_iff hs ht, Bytes.eqIgnoreCase, Bytes.eqIgnoreCase, List.map_append,
    List.map_append, decide_eq_true_iff, decide_eq_true_iff]
  exact List.append_right_inj _

end PurpleSky.Farcaster
