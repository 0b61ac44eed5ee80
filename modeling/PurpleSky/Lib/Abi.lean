import PurpleSky.Lib.Bytes

/-!
# The arguments of a contract call

The arguments of a call are a tuple. Each has a head of one word: a word is its own head, and the
head of a byte string is where its tail begins. The tails follow the heads in order; the tail of a
byte string is its length, its bytes and zeros up to the next word boundary. A reader finds the
`i`-th argument from the `i`-th head alone.

* **`decode_encode`**: reading finds every argument of a tuple again.
* **`encode_injective`**: tuples of the same kinds have different encodings.
-/

namespace PurpleSky.Abi

open Bytes

/-- What an argument can be: `bytes32` (or a number), and `bytes`. -/
inductive Kind where
  | word
  | bytes
  deriving DecidableEq, Repr

/-- An argument. -/
inductive Value where
  | word (w : Bytes)
  | bytes (s : Bytes)
  deriving DecidableEq, Repr

/-- A number as a word. -/
def uint (n : Nat) : Bytes := bigEndian 32 n

/-- The zeros after a byte string of `n` bytes. -/
def padding (n : Nat) : Nat := (32 - n % 32) % 32

theorem add_padding (n : Nat) : n + padding n = 32 * ((n + 31) / 32) := by
  rw [padding]
  omega

namespace Value

def kind : Value → Kind
  | word _ => .word
  | bytes _ => .bytes

/-- The head of an argument whose tail, if it has one, begins at `offset`. -/
def head (offset : Nat) : Value → Bytes
  | word w => w
  | bytes _ => uint offset

def tail : Value → Bytes
  | word _ => []
  | bytes s => uint s.length ++ s ++ List.replicate (padding s.length) 0

/-- A word has thirty-two bytes. -/
def Fits : Value → Prop
  | word w => w.length = 32
  | bytes _ => True

end Value

/-- The heads of a tuple whose tails begin at `offset`. -/
def heads : Nat → List Value → Bytes
  | _, [] => []
  | offset, v :: vs => v.head offset ++ heads (offset + v.tail.length) vs

/-- The encoding of a tuple. -/
def encode (vs : List Value) : Bytes := heads (32 * vs.length) vs ++ vs.flatMap Value.tail

/-! ## Reading -/

/-- The word at a place. -/
def wordAt (s : Bytes) (i : Nat) : Option Bytes :=
  if i + 32 ≤ s.length then some ((s.drop i).take 32) else none

/-- The byte string whose length is at a place. Its zeros are checked. -/
def bytesAt (s : Bytes) (i : Nat) : Option Bytes := do
  let n := ofBigEndian (← wordAt s i)
  let body := s.drop (i + 32)
  guard (n + padding n ≤ body.length ∧
    (body.drop n).take (padding n) = List.replicate (padding n) 0)
  some (body.take n)

/-- The argument whose head is at a place. -/
def valueAt (s : Bytes) (i : Nat) : Kind → Option Value
  | .word => (wordAt s i).map .word
  | .bytes => do
      let offset ← wordAt s i
      (bytesAt s (ofBigEndian offset)).map .bytes

/-- The arguments whose heads begin at a place. -/
def valuesFrom (s : Bytes) : Nat → List Kind → Option (List Value)
  | _, [] => some []
  | i, kind :: kinds => do
      let v ← valueAt s i kind
      let vs ← valuesFrom s (i + 32) kinds
      some (v :: vs)

/-- Read a tuple of known kinds. -/
def decode (kinds : List Kind) (s : Bytes) : Option (List Value) := valuesFrom s 0 kinds

/-! ## Sizes -/

@[simp] theorem length_uint (n : Nat) : (uint n).length = 32 := length_bigEndian 32 n

theorem ofBigEndian_uint {n : Nat} (h : n < 256 ^ 32) : ofBigEndian (uint n) = n :=
  ofBigEndian_bigEndian h

theorem Value.length_head {v : Value} (hv : v.Fits) (offset : Nat) :
    (v.head offset).length = 32 := by
  cases v with
  | word w => exact hv
  | bytes s => exact length_uint offset

theorem Value.length_tail_bytes (s : Bytes) :
    (Value.bytes s).tail.length = 32 + 32 * ((s.length + 31) / 32) := by
  rw [← add_padding, tail, List.length_append, List.length_append, List.length_replicate,
    length_uint, Nat.add_assoc]

theorem length_heads {vs : List Value} (hvs : ∀ v ∈ vs, v.Fits) (offset : Nat) :
    (heads offset vs).length = 32 * vs.length := by
  induction vs generalizing offset with
  | nil => rfl
  | cons v vs ih =>
      obtain ⟨hv, hvs⟩ := List.forall_mem_cons.mp hvs
      rw [heads, List.length_append, v.length_head hv, ih hvs, List.length_cons]
      omega

theorem length_encode {vs : List Value} (hvs : ∀ v ∈ vs, v.Fits) :
    (encode vs).length = 32 * vs.length + (vs.map fun v => v.tail.length).sum := by
  rw [encode, List.length_append, length_heads hvs, List.length_flatMap]

/-! ## What is written is read -/

/-- What follows the first of two parts. -/
theorem isPrefix_drop {a b s : Bytes} (h : a ++ b <+: s) : b <+: s.drop a.length := by
  obtain ⟨t, rfl⟩ := h
  rw [List.append_assoc, List.drop_left]
  exact List.prefix_append b t

theorem wordAt_eq {s w : Bytes} {i : Nat} (hw : w.length = 32) (h : w <+: s.drop i) :
    wordAt s i = some w := by
  obtain ⟨t, ht⟩ := h
  have hlen : (w ++ t).length = s.length - i := by rw [ht, List.length_drop]
  rw [List.length_append, hw] at hlen
  rw [wordAt, if_pos (by omega), ← ht, ← hw, List.take_left]

/-- A byte string is read from its tail. -/
theorem bytesAt_eq {s b : Bytes} {i : Nat} (hb : b.length < 256 ^ 32)
    (h : (Value.bytes b).tail <+: s.drop i) : bytesAt s i = some b := by
  obtain ⟨t, ht⟩ := h
  rw [Value.tail, List.append_assoc, List.append_assoc] at ht
  have hword : wordAt s i = some (uint b.length) :=
    wordAt_eq (length_uint _) ⟨_, ht⟩
  have hbody : s.drop (i + 32) = b ++ (List.replicate (padding b.length) 0 ++ t) := by
    rw [← List.drop_drop, ← ht]
    exact List.drop_left' (length_uint _)
  have hpad : b.length + padding b.length ≤ (s.drop (i + 32)).length ∧
      ((s.drop (i + 32)).drop b.length).take (padding b.length) =
        List.replicate (padding b.length) 0 := by
    rw [hbody, List.drop_left]
    refine ⟨?_, List.take_left' List.length_replicate⟩
    rw [List.length_append, List.length_append, List.length_replicate]
    omega
  rw [hbody] at hpad
  simp only [bytesAt, hword, hbody, Option.bind_eq_bind, Option.bind_some, ofBigEndian_uint hb,
    guard, if_pos hpad, List.take_left]
  rfl

/-- An argument is read from its head. -/
theorem valueAt_eq {s : Bytes} {v : Value} {i offset : Nat} (hv : v.Fits)
    (hs : s.length < 256 ^ 32) (hhead : v.head offset <+: s.drop i)
    (htail : v.tail <+: s.drop offset) : valueAt s i v.kind = some v := by
  have hword : wordAt s i = some (v.head offset) := wordAt_eq (v.length_head hv offset) hhead
  cases v with
  | word w =>
      simp only [Value.kind, valueAt, hword, Option.map_some]
      rfl
  | bytes b =>
      have hlen : (Value.bytes b).tail.length ≤ s.length - offset := by
        rw [← List.length_drop]
        exact htail.length_le
      rw [Value.length_tail_bytes] at hlen
      have hoffset : ofBigEndian (uint offset) = offset := ofBigEndian_uint (by omega)
      have hbytes : bytesAt s offset = some b := bytesAt_eq (by omega) htail
      simp only [Value.kind, valueAt, hword, Value.head, hoffset, hbytes, Option.bind_eq_bind,
        Option.bind_some, Option.map_some]

/-- The arguments that are left are read from the heads that are left. -/
theorem valuesFrom_eq {s : Bytes} {vs : List Value} {i offset : Nat} (hvs : ∀ v ∈ vs, v.Fits)
    (hs : s.length < 256 ^ 32) (hheads : heads offset vs <+: s.drop i)
    (htails : vs.flatMap Value.tail <+: s.drop offset) :
    valuesFrom s i (vs.map Value.kind) = some vs := by
  induction vs generalizing i offset with
  | nil => rfl
  | cons v vs ih =>
      obtain ⟨hv, hvs⟩ := List.forall_mem_cons.mp hvs
      rw [heads] at hheads
      rw [List.flatMap_cons] at htails
      have hvalue : valueAt s i v.kind = some v :=
        valueAt_eq hv hs ((List.prefix_append _ _).trans hheads)
          ((List.prefix_append _ _).trans htails)
      have hheads' := isPrefix_drop hheads
      have htails' := isPrefix_drop htails
      rw [List.drop_drop, v.length_head hv] at hheads'
      rw [List.drop_drop] at htails'
      have hrest : valuesFrom s (i + 32) (vs.map Value.kind) = some vs := ih hvs hheads' htails'
      simp only [List.map_cons, valuesFrom, hvalue, hrest, Option.bind_eq_bind, Option.bind_some]

/-- Reading finds the arguments of a tuple again. -/
theorem decode_encode {vs : List Value} (hvs : ∀ v ∈ vs, v.Fits)
    (hs : (encode vs).length < 256 ^ 32) : decode (vs.map Value.kind) (encode vs) = some vs := by
  have htails : vs.flatMap Value.tail <+: (encode vs).drop (32 * vs.length) := by
    rw [encode, List.drop_left' (length_heads hvs _)]
  exact valuesFrom_eq hvs hs (List.prefix_append _ _) htails

/-- Tuples of the same kinds have different encodings. -/
theorem encode_injective {vs ws : List Value} (hvs : ∀ v ∈ vs, v.Fits) (hws : ∀ w ∈ ws, w.Fits)
    (hkinds : vs.map Value.kind = ws.map Value.kind) (hs : (encode vs).length < 256 ^ 32)
    (h : encode vs = encode ws) : vs = ws := by
  have hv : decode (vs.map Value.kind) (encode vs) = some vs := decode_encode hvs hs
  have hw : decode (ws.map Value.kind) (encode ws) = some ws := decode_encode hws (h ▸ hs)
  rw [h, hkinds, hw] at hv
  exact (Option.some.inj hv).symm

end PurpleSky.Abi
