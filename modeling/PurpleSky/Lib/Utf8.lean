import PurpleSky.Lib.Bytes

/-!
# Places in a text

A text may be cut only between two characters: cutting it elsewhere panics. Whether a place lies
between two characters is decided by the byte that follows it.

* `isText_iff`: a text is the bytes of its characters, one after the other.
* `isText_iff_isValidUTF8`: bytes are a text exactly where they decode as one.
* **`isCharBoundary_append`**: after bytes that are characters themselves there is such a place.
-/

namespace PurpleSky.Bytes

/-- The bytes of a text. -/
def IsText (s : Bytes) : Prop := ∃ t : String, s = str t

/-- A place in a text that does not lie within a character: the byte there does not continue one. -/
def isCharBoundary (s : Bytes) (i : Nat) : Bool :=
  i = 0 || match s[i]? with
    | some b => b < 128 || 192 ≤ b
    | none => i = s.length

/-- The text from a place on, unless the place lies within a character. -/
def sliceFrom (s : Bytes) (i : Nat) : Option Bytes :=
  if isCharBoundary s i then some (s.drop i) else none

theorem str_eq_flatMap (t : String) : str t = t.toList.flatMap String.utf8EncodeChar := by
  rw [str, ← String.utf8Encode_toList, List.utf8Encode, List.data_toByteArray]

/-- A text is the bytes of its characters. -/
theorem isText_iff {s : Bytes} :
    IsText s ↔ ∃ chars : List Char, s = chars.flatMap String.utf8EncodeChar := by
  constructor
  · rintro ⟨t, rfl⟩
    exact ⟨t.toList, str_eq_flatMap t⟩
  · rintro ⟨chars, rfl⟩
    refine ⟨String.ofList chars, ?_⟩
    rw [str_eq_flatMap, String.toList_ofList]

/-- Bytes are a text exactly where they decode as one. -/
theorem isText_iff_isValidUTF8 {s : Bytes} : IsText s ↔ s.toByteArray.IsValidUTF8 := by
  constructor
  · rintro ⟨t, rfl⟩
    have hbytes : (str t).toByteArray = t.toByteArray :=
      ByteArray.ext (Array.ext' (by rw [List.data_toByteArray, str]))
    rw [hbytes]
    exact t.isValidUTF8
  · intro h
    refine ⟨String.ofByteArray s.toByteArray h, ?_⟩
    show s = s.toByteArray.data.toList
    rw [List.data_toByteArray]

instance (s : Bytes) : Decidable (IsText s) := decidable_of_iff _ isText_iff_isValidUTF8.symm

/-- A character is one byte, or it begins with a byte that says how many there are. -/
theorem utf8EncodeChar_cases (c : Char) :
    (∃ b, b < 128 ∧ String.utf8EncodeChar c = [b]) ∨
      ∃ b rest, 192 ≤ b ∧ String.utf8EncodeChar c = b :: rest := by
  have hsmall : ∀ n : Nat, n ≤ 127 → UInt8.ofNat n < 128 := by
    intro n hn
    rw [UInt8.lt_iff_toNat_lt, UInt8.toNat_ofNat']
    show n % 256 < 128
    omega
  have hlarge : ∀ n : Nat, 192 ≤ n → n < 256 → 192 ≤ UInt8.ofNat n := by
    intro n hn hlt
    rw [UInt8.le_iff_toNat_le, UInt8.toNat_ofNat']
    show 192 ≤ n % 256
    omega
  unfold String.utf8EncodeChar
  simp only
  split_ifs with h₁ h₂ h₃
  · exact .inl ⟨_, hsmall _ h₁, rfl⟩
  · exact .inr ⟨_, _, hlarge _ (by omega) (by omega), rfl⟩
  · exact .inr ⟨_, _, hlarge _ (by omega) (by omega), rfl⟩
  · exact .inr ⟨_, _, hlarge _ (by omega) (by omega), rfl⟩

/-- A text does not begin within a character. -/
theorem IsText.isCharBoundary_head {b : UInt8} {s : Bytes} (h : IsText (b :: s)) :
    b < 128 ∨ 192 ≤ b := by
  obtain ⟨chars, hchars⟩ := isText_iff.mp h
  cases chars with
  | nil => cases hchars
  | cons c chars =>
      rw [List.flatMap_cons] at hchars
      rcases utf8EncodeChar_cases c with ⟨b', hb', henc⟩ | ⟨b', rest, hb', henc⟩
      · rw [henc] at hchars
        obtain rfl := (List.cons.inj hchars).1
        exact .inl hb'
      · rw [henc] at hchars
        obtain rfl := (List.cons.inj hchars).1
        exact .inr hb'

/-- What follows a character of one byte is a text. -/
theorem IsText.tail {b : UInt8} {s : Bytes} (h : IsText (b :: s)) (hb : b < 128) : IsText s := by
  obtain ⟨chars, hchars⟩ := isText_iff.mp h
  cases chars with
  | nil => cases hchars
  | cons c chars =>
      rw [List.flatMap_cons] at hchars
      rcases utf8EncodeChar_cases c with ⟨b', -, henc⟩ | ⟨b', rest, hb', henc⟩
      · rw [henc] at hchars
        exact isText_iff.mpr ⟨chars, (List.cons.inj hchars).2⟩
      · rw [henc] at hchars
        obtain rfl := (List.cons.inj hchars).1
        have hle : (128 : UInt8) ≤ b := UInt8.le_trans (by decide) hb'
        exact absurd hb (UInt8.not_lt.mpr hle)

/-- After characters of one byte each there is a place between two characters. -/
theorem isCharBoundary_append {ascii s : Bytes} (hascii : ∀ b ∈ ascii, b < 128)
    (h : IsText (ascii ++ s)) : isCharBoundary (ascii ++ s) ascii.length = true := by
  have hrest : IsText s := by
    induction ascii with
    | nil => exact h
    | cons b ascii ih =>
        rw [List.forall_mem_cons] at hascii
        exact ih hascii.2 (h.tail hascii.1)
  cases s with
  | nil => simp [isCharBoundary]
  | cons b s =>
      have hb := hrest.isCharBoundary_head
      simp [isCharBoundary, hb]

theorem sliceFrom_append {ascii s : Bytes} (hascii : ∀ b ∈ ascii, b < 128)
    (h : IsText (ascii ++ s)) : sliceFrom (ascii ++ s) ascii.length = some s := by
  rw [sliceFrom, if_pos (isCharBoundary_append hascii h), List.drop_left]

end PurpleSky.Bytes
