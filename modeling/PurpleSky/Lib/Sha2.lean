import PurpleSky.Lib.Bytes

/-!
# SHA-256

The hash function as the standard computes it: padding to blocks of sixty-four bytes, a schedule of
sixty-four words a block, and sixty-four rounds on eight words. Words are naturals below `2 ^ 32`.
The digest has thirty-two bytes (`length_sha256`). `hmac` is the keyed hash over it.
-/

namespace PurpleSky.Sha2

/-- Addition of words. -/
def add (x y : Nat) : Nat := (x + y) % 4294967296

/-- Rotation of a word to the right. -/
def rotr (n x : Nat) : Nat := (x >>> n ||| x <<< (32 - n)) % 4294967296

/-- The round constants. -/
def constants : List Nat :=
  [0x428a2f98, 0x71374491, 0xb5c0fbcf, 0xe9b5dba5, 0x3956c25b, 0x59f111f1, 0x923f82a4, 0xab1c5ed5,
   0xd807aa98, 0x12835b01, 0x243185be, 0x550c7dc3, 0x72be5d74, 0x80deb1fe, 0x9bdc06a7, 0xc19bf174,
   0xe49b69c1, 0xefbe4786, 0x0fc19dc6, 0x240ca1cc, 0x2de92c6f, 0x4a7484aa, 0x5cb0a9dc, 0x76f988da,
   0x983e5152, 0xa831c66d, 0xb00327c8, 0xbf597fc7, 0xc6e00bf3, 0xd5a79147, 0x06ca6351, 0x14292967,
   0x27b70a85, 0x2e1b2138, 0x4d2c6dfc, 0x53380d13, 0x650a7354, 0x766a0abb, 0x81c2c92e, 0x92722c85,
   0xa2bfe8a1, 0xa81a664b, 0xc24b8b70, 0xc76c51a3, 0xd192e819, 0xd6990624, 0xf40e3585, 0x106aa070,
   0x19a4c116, 0x1e376c08, 0x2748774c, 0x34b0bcb5, 0x391c0cb3, 0x4ed8aa4a, 0x5b9cca4f, 0x682e6ff3,
   0x748f82ee, 0x78a5636f, 0x84c87814, 0x8cc70208, 0x90befffa, 0xa4506ceb, 0xbef9a3f7, 0xc67178f2]

/-- The chaining state: eight words. -/
structure State where
  a : Nat
  b : Nat
  c : Nat
  d : Nat
  e : Nat
  f : Nat
  g : Nat
  h : Nat

/-- The initial state. -/
def State.init : State :=
  ⟨0x6a09e667, 0xbb67ae85, 0x3c6ef372, 0xa54ff53a, 0x510e527f, 0x9b05688c, 0x1f83d9ab, 0x5be0cd19⟩

/-- One round with its constant and schedule word. -/
def round (s : State) (k w : Nat) : State :=
  let s₁ := rotr 6 s.e ^^^ rotr 11 s.e ^^^ rotr 25 s.e
  let ch := (s.e &&& s.f) ^^^ ((4294967295 - s.e) &&& s.g)
  let t₁ := (s.h + s₁ + ch + k + w) % 4294967296
  let s₀ := rotr 2 s.a ^^^ rotr 13 s.a ^^^ rotr 22 s.a
  let maj := (s.a &&& s.b) ^^^ (s.a &&& s.c) ^^^ (s.b &&& s.c)
  ⟨add t₁ (add s₀ maj), s.a, s.b, s.c, add s.d t₁, s.e, s.f, s.g⟩

/-- The next schedule word, from the sixteen before it, oldest first. -/
def nextWord : List Nat → Nat
  | [w₀, w₁, _, _, _, _, _, _, _, w₉, _, _, _, _, w₁₄, _] =>
      let s₀ := rotr 7 w₁ ^^^ rotr 18 w₁ ^^^ w₁ >>> 3
      let s₁ := rotr 17 w₁₄ ^^^ rotr 19 w₁₄ ^^^ w₁₄ >>> 10
      (w₀ + s₀ + w₉ + s₁) % 4294967296
  | _ => 0

/-- The rounds of a block, over the window of the next sixteen schedule words. -/
def rounds : List Nat → List Nat → State → State
  | [], _, s => s
  | _, [], s => s
  | k :: ks, w :: window, s =>
      rounds ks (window ++ [nextWord (w :: window)]) (round s k w)

/-- The four bytes of a word. -/
def wordBytes (w : Nat) : Bytes := Bytes.bigEndian 4 w

/-- The words of a block. -/
def blockWords : Bytes → List Nat
  | b₀ :: b₁ :: b₂ :: b₃ :: rest => Bytes.ofBigEndian [b₀, b₁, b₂, b₃] :: blockWords rest
  | _ => []

/-- The compression function. -/
def compress (s : State) (block : Bytes) : State :=
  let t := rounds constants (blockWords block) s
  ⟨add s.a t.a, add s.b t.b, add s.c t.c, add s.d t.d, add s.e t.e, add s.f t.f, add s.g t.g,
    add s.h t.h⟩

/-- A message with its padding: `0x80`, zeros, and the length in bits. -/
def padded (m : Bytes) : Bytes :=
  m ++ 0x80 :: List.replicate ((119 - m.length % 64) % 64) 0 ++ Bytes.bigEndian 8 (8 * m.length)

/-- Compress `n` blocks of a padded message. -/
def blocks : Nat → Bytes → State → State
  | 0, _, s => s
  | n + 1, m, s => blocks n (m.drop 64) (compress s (m.take 64))

/-- The digest of a message. -/
def sha256 (m : Bytes) : Bytes :=
  let s := blocks ((padded m).length / 64) (padded m) State.init
  wordBytes s.a ++ wordBytes s.b ++ wordBytes s.c ++ wordBytes s.d ++ wordBytes s.e ++
    wordBytes s.f ++ wordBytes s.g ++ wordBytes s.h

theorem length_sha256 (m : Bytes) : (sha256 m).length = 32 := by
  simp [sha256, wordBytes]

/-! ## HMAC -/

/-- A key filled up to a block and combined with a byte. -/
def keyPad (p : UInt8) (key : Bytes) : Bytes :=
  (key ++ List.replicate (64 - key.length) 0).map (· ^^^ p)

/-- HMAC-SHA-256. -/
def hmac (key m : Bytes) : Bytes :=
  let key := if key.length ≤ 64 then key else sha256 key
  sha256 (keyPad 0x5c key ++ sha256 (keyPad 0x36 key ++ m))

@[simp] theorem length_hmac (key m : Bytes) : (hmac key m).length = 32 := length_sha256 _

example : (hmac (str "Jefe") (str "what do ya want for nothing?")).take 4 =
    [0x5b, 0xdc, 0xc1, 0x46] := by decide +kernel

end PurpleSky.Sha2
