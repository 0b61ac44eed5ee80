import PurpleSky.Lib.Bytes

/-!
# Base32

Five bits a symbol over `a`–`z`, `2`–`7`, most significant bit first and without padding. The last
symbol is filled with zero bits; the decoder refuses other fillings.

* `ofBits_toBits`, `toBits_ofBits`: numbers of a fixed width and their bits.
* **`decode_encode`**: decoding inverts encoding.
-/

namespace PurpleSky.Base32

/-! ## Bits -/

/-- The low `k` bits of a number, most significant first. -/
def toBits : Nat → Nat → List Bool
  | 0, _ => []
  | k + 1, n => toBits k (n / 2) ++ [decide (n % 2 = 1)]

/-- The number with these bits. -/
def ofBits (l : List Bool) : Nat := l.foldl (fun n b => 2 * n + b.toNat) 0

/-- As many bits as were asked for. -/
@[simp] theorem length_toBits (k n : Nat) : (toBits k n).length = k := by
  induction k generalizing n with
  | zero => rfl
  | succ k ih => simp [toBits, ih]

/-- A bit at the end doubles the number before it. -/
theorem ofBits_concat (l : List Bool) (b : Bool) : ofBits (l ++ [b]) = 2 * ofBits l + b.toNat := by
  simp [ofBits]

/-- A number that fits is read back from its bits. -/
theorem ofBits_toBits {k n : Nat} (h : n < 2 ^ k) : ofBits (toBits k n) = n := by
  induction k generalizing n with
  | zero =>
      simp only [pow_zero, Nat.lt_one_iff] at h
      subst h
      rfl
  | succ k ih =>
      have hhalf : n / 2 < 2 ^ k := by
        rw [pow_succ] at h
        omega
      rw [toBits, ofBits_concat, ih hhalf]
      rcases Nat.mod_two_eq_zero_or_one n with h | h
      · simp only [h, Nat.zero_ne_one, decide_false, Bool.toNat_false]
        omega
      · simp only [h, decide_true, Bool.toNat_true]
        omega

/-- Bits are read back from their number, by induction from the last one. -/
theorem toBits_ofBits (l : List Bool) : toBits l.length (ofBits l) = l := by
  induction l using List.reverseRecOn with
  | nil => rfl
  | append_singleton l b ih =>
      have hdiv : (2 * ofBits l + b.toNat) / 2 = ofBits l := by
        have := Bool.toNat_lt b
        omega
      have hmod : decide ((2 * ofBits l + b.toNat) % 2 = 1) = b := by
        cases b <;> simp [Nat.add_mod]
      rw [List.length_append, List.length_singleton, toBits, ofBits_concat, hdiv, hmod, ih]

/-- The number of some bits fits in as many. -/
theorem ofBits_lt (l : List Bool) : ofBits l < 2 ^ l.length := by
  induction l using List.reverseRecOn with
  | nil => simp [ofBits]
  | append_singleton l b ih =>
      have := Bool.toNat_lt b
      rw [ofBits_concat, List.length_append, List.length_singleton, pow_succ]
      omega

/-! ## Symbols -/

/-- The symbol of a value below thirty-two. -/
def symbol (n : Nat) : UInt8 := if n < 26 then UInt8.ofNat (97 + n) else UInt8.ofNat (24 + n)

/-- The value of a symbol. -/
def value? (b : UInt8) : Option Nat :=
  if Bytes.isLower b then some (b.toNat - 97)
  else if 50 ≤ b && b ≤ 55 then some (b.toNat - 24)
  else none

/-- A symbol stands for its value. -/
theorem value?_symbol : ∀ n < 32, value? (symbol n) = some n := by decide

/-- Groups of five bits, the last one filled with zeros. -/
def groups : List Bool → List Nat
  | [] => []
  | a :: b :: c :: d :: e :: rest => ofBits [a, b, c, d, e] :: groups rest
  | short => [ofBits (short ++ List.replicate (5 - short.length) false)]

/-- Encode without padding. -/
def encode (s : Bytes) : Bytes := (groups (s.flatMap fun b => toBits 8 b.toNat)).map symbol

/-- The first `n` bytes of a string of bits. -/
def bytesOf : Nat → List Bool → Bytes
  | 0, _ => []
  | n + 1, l => UInt8.ofNat (ofBits (l.take 8)) :: bytesOf n (l.drop 8)

/-- Decode whole bytes; less than a symbol of zero bits may be left over. -/
def decode (s : Bytes) : Option Bytes := do
  let values ← s.mapM value?
  let bits := values.flatMap (toBits 5)
  let n := bits.length / 8
  let spare := bits.drop (8 * n)
  if spare.length < 5 ∧ spare.all (· = false) then some (bytesOf n bits) else none

/-- Every group of five bits is below thirty-two. -/
theorem groups_lt (l : List Bool) : ∀ v ∈ groups l, v < 32 := by
  fun_induction groups l with
  | case1 => simp
  | case2 a b c d e rest ih =>
      intro v hv
      rcases List.mem_cons.mp hv with rfl | hv
      · exact ofBits_lt _
      · exact ih v hv
  | case3 short hne hlong =>
      intro v hv
      obtain rfl := List.mem_singleton.mp hv
      have hlen : (short ++ List.replicate (5 - short.length) false).length ≤ 5 := by
        match short, hlong with
        | [], _ | [_], _ | [_, _], _ | [_, _, _], _ | [_, _, _, _], _ => simp
        | a :: b :: c :: d :: e :: rest, h => exact absurd rfl (h a b c d e rest)
      exact (ofBits_lt _).trans_le (Nat.pow_le_pow_right (by decide) hlen)

/-- The bits of the groups are the bits, and fewer than five zeros. -/
theorem groups_flatMap (l : List Bool) :
    (groups l).flatMap (toBits 5) = l ++ List.replicate ((5 - l.length % 5) % 5) false := by
  fun_induction groups l with
  | case1 => rfl
  | case2 a b c d e rest ih =>
      have hbits := toBits_ofBits [a, b, c, d, e]
      have hmod : (a :: b :: c :: d :: e :: rest).length % 5 = rest.length % 5 := by
        simp only [List.length_cons]
        omega
      simp only [List.length_cons, List.length_nil, Nat.zero_add, Nat.reduceAdd] at hbits
      rw [List.flatMap_cons, hbits, ih, hmod]
      rfl
  | case3 short hne hlong =>
      match short, hne, hlong with
      | [], h, _ => exact absurd rfl h
      | [a], _, _ => exact (List.append_nil _).trans (toBits_ofBits [a, false, false, false, false])
      | [a, b], _, _ => exact (List.append_nil _).trans (toBits_ofBits [a, b, false, false, false])
      | [a, b, c], _, _ => exact (List.append_nil _).trans (toBits_ofBits [a, b, c, false, false])
      | [a, b, c, d], _, _ => exact (List.append_nil _).trans (toBits_ofBits [a, b, c, d, false])
      | a :: b :: c :: d :: e :: rest, _, h => exact absurd rfl (h a b c d e rest)

/-- The last group may be short. -/
theorem length_groups (l : List Bool) : (groups l).length = (l.length + 4) / 5 := by
  fun_induction groups l with
  | case1 => rfl
  | case2 a b c d e rest ih =>
      simp only [List.length_cons, ih]
      omega
  | case3 short hne hlong =>
      match short, hne, hlong with
      | [], h, _ => exact absurd rfl h
      | [_], _, _ | [_, _], _, _ | [_, _, _], _, _ | [_, _, _, _], _, _ => simp
      | a :: b :: c :: d :: e :: rest, _, h => exact absurd rfl (h a b c d e rest)

/-- A byte has eight bits. -/
theorem length_flatMap_toBits (s : Bytes) :
    (s.flatMap fun b => toBits 8 b.toNat).length = 8 * s.length := by
  induction s with
  | nil => rfl
  | cons b s ih =>
      rw [List.flatMap_cons, List.length_append, length_toBits, ih, List.length_cons]
      omega

/-- The length of a text is that of its groups. -/
@[simp] theorem length_encode (s : Bytes) : (encode s).length = (8 * s.length + 4) / 5 := by
  rw [encode, List.length_map, length_groups, length_flatMap_toBits]

/-- Bytes are read back from their bits, and what follows is padding. -/
theorem bytesOf_flatMap (s : Bytes) (rest : List Bool) :
    bytesOf s.length ((s.flatMap fun b => toBits 8 b.toNat) ++ rest) = s := by
  induction s with
  | nil => rfl
  | cons b s ih =>
      have hlen : 8 = (toBits 8 b.toNat).length := (length_toBits 8 _).symm
      have htake : (toBits 8 b.toNat ++ ((s.flatMap fun b => toBits 8 b.toNat) ++ rest)).take 8 =
          toBits 8 b.toNat := by
        conv => lhs; arg 1; rw [hlen]
        exact List.take_left
      have hdrop : (toBits 8 b.toNat ++ ((s.flatMap fun b => toBits 8 b.toNat) ++ rest)).drop 8 =
          (s.flatMap fun b => toBits 8 b.toNat) ++ rest := by
        conv => lhs; arg 1; rw [hlen]
        exact List.drop_left
      rw [List.flatMap_cons, List.append_assoc, List.length_cons, bytesOf, htake, hdrop, ih,
        ofBits_toBits (by simpa using b.toNat_lt), UInt8.ofNat_toNat]

/-- Values are read back from their symbols. -/
theorem mapM_value?_map_symbol {vs : List Nat} (h : ∀ v ∈ vs, v < 32) :
    (vs.map symbol).mapM value? = some vs := by
  induction vs with
  | nil => rfl
  | cons v vs ih =>
      rw [List.map_cons, List.mapM_cons, value?_symbol v (h v List.mem_cons_self),
        ih fun w hw => h w (List.mem_cons_of_mem _ hw)]
      rfl

/-- **Decoding inverts encoding.** -/
theorem decode_encode (s : Bytes) : decode (encode s) = some s := by
  have hlen := length_flatMap_toBits s
  have hvalues := mapM_value?_map_symbol (groups_lt (s.flatMap fun b => toBits 8 b.toNat))
  have hbits := groups_flatMap (s.flatMap fun b => toBits 8 b.toNat)
  rw [hlen] at hbits
  have hpad : (5 - 8 * s.length % 5) % 5 < 5 := Nat.mod_lt _ (by decide)
  have hn : (8 * s.length + (5 - 8 * s.length % 5) % 5) / 8 = s.length := by omega
  have hspare : ((s.flatMap fun b => toBits 8 b.toNat) ++
      List.replicate ((5 - 8 * s.length % 5) % 5) false).drop (8 * s.length) =
        List.replicate ((5 - 8 * s.length % 5) % 5) false := by
    rw [← hlen]
    exact List.drop_left
  simp only [decode, encode, hvalues, Option.bind_eq_bind, Option.bind_some, hbits,
    List.length_append, hlen, List.length_replicate, hn, hspare]
  rw [if_pos ⟨hpad, by simp⟩, bytesOf_flatMap]

end PurpleSky.Base32
