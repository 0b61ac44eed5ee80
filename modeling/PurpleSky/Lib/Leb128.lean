import PurpleSky.Lib.Bytes

/-!
# Unsigned LEB128

A natural number as groups of seven bits, lowest first, every byte but the last with its high bit
set. `decode` reads one number off the front of a byte string and returns what follows it, so an
encoding is self-delimiting: `decode_encode_append`.
-/

namespace PurpleSky.Leb128

/-- The groups of `n`, lowest first. The recursion is on `fuel`, which `encode` sets to the
number itself: a number has fewer groups than units. -/
def encodeFuel : Nat → Nat → Bytes
  | 0, n => [UInt8.ofNat (n % 128)]
  | fuel + 1, n =>
      if n < 128 then [UInt8.ofNat n]
      else UInt8.ofNat (n % 128 + 128) :: encodeFuel fuel (n / 128)

/-- The encoding of a number. -/
def encode (n : Nat) : Bytes := encodeFuel n n

/-- The number at the front of a byte string, and the bytes after it. -/
def decode : Bytes → Option (Nat × Bytes)
  | [] => none
  | b :: rest =>
      if b.toNat < 128 then some (b.toNat, rest)
      else (decode rest).map fun (n, tail) => (b.toNat - 128 + 128 * n, tail)

theorem decode_encodeFuel_append {fuel n : Nat} (h : n ≤ fuel) (rest : Bytes) :
    decode (encodeFuel fuel n ++ rest) = some (n, rest) := by
  induction fuel generalizing n with
  | zero =>
      obtain rfl : n = 0 := by omega
      rfl
  | succ fuel ih =>
      unfold encodeFuel
      by_cases hn : n < 128
      · have hb : (UInt8.ofNat n).toNat = n := by rw [UInt8.toNat_ofNat']; omega
        simp [hn, decode, hb]
      · have hb : (UInt8.ofNat (n % 128 + 128)).toNat = n % 128 + 128 := by
          rw [UInt8.toNat_ofNat']; omega
        have hd := ih (n := n / 128) (by omega)
        rw [if_neg hn, List.cons_append, decode, if_neg (by omega), hd]
        simp only [Option.map_some, hb, Option.some.injEq, Prod.mk.injEq, and_true]
        omega

/-- Reading after writing returns the number and leaves what follows it. -/
theorem decode_encode_append (n : Nat) (rest : Bytes) :
    decode (encode n ++ rest) = some (n, rest) :=
  decode_encodeFuel_append le_rfl rest

theorem encode_ne_nil (n : Nat) : encode n ≠ [] := by
  intro h
  have := decode_encode_append n []
  rw [h] at this
  simp [decode] at this

/-- More fuel than the number needs changes nothing. -/
theorem encodeFuel_eq {fuel n : Nat} (h : n ≤ fuel) : encodeFuel fuel n = encode n := by
  induction fuel using Nat.strongRecOn generalizing n with
  | _ fuel ih =>
      cases fuel with
      | zero =>
          obtain rfl : n = 0 := by omega
          rfl
      | succ fuel =>
          unfold encode
          cases n with
          | zero => rfl
          | succ m =>
              simp only [encodeFuel]
              by_cases hn : m + 1 < 128
              · simp [hn]
              · rw [if_neg hn, if_neg hn, ih fuel (by omega) (by omega),
                  ih m (by omega) (by omega)]

/-- The recursion equation of `encode`. -/
theorem encode_eq (n : Nat) :
    encode n = if n < 128 then [UInt8.ofNat n] else
      UInt8.ofNat (n % 128 + 128) :: encode (n / 128) := by
  cases n with
  | zero => rfl
  | succ m =>
      rw [encode, encodeFuel]
      by_cases hn : m + 1 < 128
      · simp [hn]
      · rw [if_neg hn, if_neg hn, encodeFuel_eq (by omega)]

end PurpleSky.Leb128
