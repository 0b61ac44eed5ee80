import PurpleSky.Lib.Json

/-!
# JSON texts

The compact text of a JSON value, and reading texts back. The writer is concrete up to the decimal
form of floats. A reader is a parameter, `JsonText`; what a program relies on is `JsonText.Lawful`:
a compact text reads back as its value, fields in the order they stand in.

* **`compact_lawful`**: the reader of compact texts is one.
-/

namespace PurpleSky

namespace Json

/-! ## Writing -/

/-- A byte of a string, with an escape where one is needed. -/
def escapeByte (b : UInt8) : Bytes :=
  if b = 34 then [92, 34]
  else if b = 92 then [92, 92]
  else if b = 8 then [92, 98]
  else if b = 9 then [92, 116]
  else if b = 10 then [92, 110]
  else if b = 12 then [92, 102]
  else if b = 13 then [92, 114]
  else if b < 32 then
    [92, 117, 48, 48, Bytes.hexDigit (b.toNat / 16), Bytes.hexDigit (b.toNat % 16)]
  else [b]

/-- A string in quotes. -/
def quote (s : Bytes) : Bytes := 34 :: (s.flatMap escapeByte ++ [34])

/-- A string without escapes. -/
theorem length_quote {s : Bytes} (h : ∀ b ∈ s, escapeByte b = [b]) :
    (quote s).length = s.length + 2 := by
  have hs : s.flatMap escapeByte = s := by
    rw [List.flatMap_congr h]
    simp
  rw [quote, hs]
  simp

/-- An integer. -/
def renderInt (n : Int) : Bytes :=
  if 0 ≤ n then Bytes.decimal n.toNat else 45 :: Bytes.decimal (-n).toNat

mutual

/-- The compact text of a value, with `float` for the decimal form of a float. -/
def render (float : UInt64 → Bytes) : Json → Bytes
  | .null => str "null"
  | .bool b => if b then str "true" else str "false"
  | .integer n => renderInt n
  | .float bits => float bits
  | .string s => quote s
  | .array values => 91 :: ([44].intercalate (renderValues float values) ++ [93])
  | .object fields => 123 :: ([44].intercalate (renderFields float fields) ++ [125])

/-- The texts of the values of an array. -/
def renderValues (float : UInt64 → Bytes) : List Json → List Bytes
  | [] => []
  | v :: values => render float v :: renderValues float values

/-- The texts of the fields of an object. -/
def renderFields (float : UInt64 → Bytes) : List (Bytes × Json) → List Bytes
  | [] => []
  | (k, v) :: fields => (quote k ++ 58 :: render float v) :: renderFields float fields

end

/-- The texts of the values are those of each. -/
theorem renderValues_eq_map (float : UInt64 → Bytes) (values : List Json) :
    renderValues float values = values.map (render float) := by
  induction values with
  | nil => rfl
  | cons v values ih => rw [renderValues, ih, List.map_cons]

/-- The text of a field. -/
def renderField (float : UInt64 → Bytes) (f : Bytes × Json) : Bytes :=
  quote f.1 ++ 58 :: render float f.2

/-- The texts of the fields are those of each. -/
theorem renderFields_eq_map (float : UInt64 → Bytes) (fields : List (Bytes × Json)) :
    renderFields float fields = fields.map (renderField float) := by
  induction fields with
  | nil => rfl
  | cons f fields ih =>
      rw [renderFields, ih, List.map_cons]
      rfl

/-- Values whose text says all of them to every reader: no floats, integers of sixty-four bits, and
at most `n` levels of nesting. -/
inductive Plain : Nat → Json → Prop where
  | null (n) : Plain n .null
  | bool (n b) : Plain n (.bool b)
  | integer (n) {i : Int} : -9223372036854775808 ≤ i → i < 18446744073709551616 →
      Plain n (.integer i)
  | string (n s) : Plain n (.string s)
  | array {n values} : (∀ v ∈ values, Plain n v) → Plain (n + 1) (.array values)
  | object {n fields} : (∀ f ∈ fields, Plain n f.2) → Plain (n + 1) (.object fields)

/-- A record is plain when its values are. -/
theorem plain_record {names : List Bytes} {values : List Json} {n : Nat}
    (h : ∀ v ∈ values, v.Plain n) : (record names values).Plain (n + 1) :=
  .object fun f hf => h f.2 (List.of_mem_zip (show (f.1, f.2) ∈ _ from hf)).2

end Json

/-- A JSON library: the decimal form it writes a float in, and its reader. An object is read as the
list of its fields in the order of the text. -/
structure JsonText where
  float : UInt64 → Bytes
  parse : Bytes → Option Json

namespace JsonText

/-- The compact text of a value. -/
def render (T : JsonText) (v : Json) : Bytes := v.render T.float

/-- Compact texts of at most 127 levels read back. The strings of a value stand for texts; bytes
that are none come from no text, and what a library makes of them is of no matter. `onTexts` fills
it in for a library that takes texts only. -/
structure Lawful (T : JsonText) : Prop where
  parse_render : ∀ v : Json, v.Plain 127 → T.parse (T.render v) = some v

end JsonText

namespace Json

/-! ## Reading compact texts -/

/-- A byte after a backslash. -/
def unescape (b : UInt8) : Option UInt8 :=
  [(34, 34), (92, 92), (98, 8), (116, 9), (110, 10), (102, 12), (114, 13)].lookup b

/-- The byte an escape stands for, after its backslash. -/
def readEscape : Bytes → Option (UInt8 × Bytes)
  | 117 :: 48 :: 48 :: x :: y :: s => do
      let x ← Bytes.hexValue? x
      let y ← Bytes.hexValue? y
      pure (UInt8.ofNat (16 * x + y), s)
  | e :: s => (unescape e).map fun b => (b, s)
  | [] => none

/-- The next byte of a string, or its closing quote. -/
def readChar : Bytes → Option (Option UInt8 × Bytes)
  | [] => none
  | b :: s =>
      if b = 34 then some (none, s)
      else if b = 92 then (readEscape s).map fun (b, s) => (some b, s)
      else some (some b, s)

/-- The bytes of a string up to its closing quote, fewer than `n`. -/
def readChars : Nat → Bytes → Option (Bytes × Bytes)
  | 0, _ => none
  | n + 1, s =>
      match readChar s with
      | none => none
      | some (none, s) => some ([], s)
      | some (some b, s) => (readChars n s).map fun (text, rest) => (b :: text, rest)

/-- The rest of a string after its opening quote. -/
def readString (s : Bytes) : Option (Bytes × Bytes) := readChars s.length s

/-- Items up to a closing byte, at most `k`, with commas between them. -/
def readItems {α : Type} (item : Bytes → Option (α × Bytes)) (close : UInt8) :
    Nat → Bytes → Option (List α × Bytes)
  | 0, _ => none
  | k + 1, s => do
      let (x, s) ← item s
      match s with
      | [] => none
      | b :: s =>
          if b = close then some ([x], s)
          else if b = 44 then
            (readItems item close k s).map fun (xs, rest) => (x :: xs, rest)
          else none

/-- Items up to a closing byte, or none of them. -/
def readList {α : Type} (item : Bytes → Option (α × Bytes)) (close : UInt8) (s : Bytes) :
    Option (List α × Bytes) :=
  if s.head? = some close then some ([], s.tail) else readItems item close s.length s

/-- A field of an object. -/
def readField (value : Bytes → Option (Json × Bytes)) (s : Bytes) :
    Option ((Bytes × Json) × Bytes) :=
  match s with
  | 34 :: s => do
      let (k, s) ← readString s
      match s with
      | 58 :: s => (value s).map fun (v, rest) => ((k, v), rest)
      | _ => none
  | _ => none

/-- The digits a text begins with, as a number. -/
def readNat (s : Bytes) : Option (Nat × Bytes) :=
  let digits := s.takeWhile Bytes.isDigit
  if digits = [] then none else some (Bytes.ofDecimal digits, s.dropWhile Bytes.isDigit)

/-- A value of fewer than `n` levels, and the rest of the text. -/
def readValue : Nat → Bytes → Option (Json × Bytes)
  | 0, _ => none
  | n + 1, s =>
      match s with
      | [] => none
      | b :: t =>
          if b = 34 then (readString t).map fun (x, rest) => (.string x, rest)
          else if b = 91 then (readList (readValue n) 93 t).map fun (x, rest) => (.array x, rest)
          else if b = 123 then
            (readList (readField (readValue n)) 125 t).map fun (x, rest) => (.object x, rest)
          else if b = 110 then (Bytes.stripPrefix (str "null") s).map fun rest => (.null, rest)
          else if b = 116 then (Bytes.stripPrefix (str "true") s).map fun rest => (.bool true, rest)
          else if b = 102 then
            (Bytes.stripPrefix (str "false") s).map fun rest => (.bool false, rest)
          else if b = 45 then (readNat t).map fun (x, rest) => (.integer (-x), rest)
          else (readNat s).map fun (x, rest) => (.integer x, rest)

/-- The value of a compact text. -/
def readCompact (s : Bytes) : Option Json :=
  match readValue 128 s with
  | some (v, []) => some v
  | _ => none

/-! ## Reading back what was written -/

/-- Texts that do not go on with a digit. -/
def NoDigit (s : Bytes) : Prop := ∀ b ∈ s.head?, Bytes.isDigit b = false

/-- A byte is read from its escape. -/
theorem readChar_escapeByte (b : UInt8) (s : Bytes) :
    readChar (escapeByte b ++ s) = some (some b, s) := by
  unfold escapeByte
  split_ifs with h₁ h₂ h₃ h₄ h₅ h₆ h₇ h₈
  · rw [h₁]; rfl
  · rw [h₂]; rfl
  · rw [h₃]; rfl
  · rw [h₄]; rfl
  · rw [h₅]; rfl
  · rw [h₆]; rfl
  · rw [h₇]; rfl
  · have hb : b.toNat < 256 := b.toNat_lt
    have hv : UInt8.ofNat (16 * (b.toNat / 16) + b.toNat % 16) = b := by
      rw [Nat.div_add_mod, UInt8.ofNat_toNat]
    simp only [List.cons_append, List.nil_append, readChar, readEscape,
      Bytes.hexValue?_hexDigit (b.toNat / 16) (by omega),
      Bytes.hexValue?_hexDigit (b.toNat % 16) (by omega), Option.bind_eq_bind, Option.bind_some,
      Option.pure_def, hv]
    rfl
  · simp [readChar, h₁, h₂]

/-- A string is read up to its quote. -/
theorem readChars_append {n : Nat} {s : Bytes} (h : s.length < n) (rest : Bytes) :
    readChars n (s.flatMap escapeByte ++ 34 :: rest) = some (s, rest) := by
  induction s generalizing n with
  | nil =>
      obtain ⟨n, rfl⟩ : ∃ m, n = m + 1 := ⟨n - 1, by simp at h; omega⟩
      rfl
  | cons b s ih =>
      obtain ⟨n, rfl⟩ : ∃ m, n = m + 1 := ⟨n - 1, by omega⟩
      have hs := ih (Nat.lt_of_succ_lt_succ h)
      rw [List.flatMap_cons, List.append_assoc, readChars, readChar_escapeByte]
      simp only [hs, Option.map_some]

/-- An escape is no shorter than its byte. -/
theorem length_le_flatMap_escapeByte (s : Bytes) : s.length ≤ (s.flatMap escapeByte).length := by
  induction s with
  | nil => exact Nat.le_refl _
  | cons b s ih =>
      have hb : 1 ≤ (escapeByte b).length := by
        unfold escapeByte
        split_ifs <;> simp
      rw [List.flatMap_cons, List.length_append, List.length_cons]
      omega

/-- A string reads back, and the rest is left. -/
theorem readString_append (s rest : Bytes) :
    readString (s.flatMap escapeByte ++ 34 :: rest) = some (s, rest) := by
  apply readChars_append
  have := length_le_flatMap_escapeByte s
  simp only [List.length_append, List.length_cons]
  omega

/-- A number reads back where no digit follows. -/
theorem readNat_append {n : Nat} {rest : Bytes} (h : NoDigit rest) :
    readNat (Bytes.decimal n ++ rest) = some (n, rest) := by
  have hd : ∀ b ∈ Bytes.decimal n, Bytes.isDigit b = true := fun _ => Bytes.isDigit_of_mem_decimal
  have ht : rest.takeWhile Bytes.isDigit = [] ∧ rest.dropWhile Bytes.isDigit = rest := by
    cases rest with
    | nil => exact ⟨rfl, rfl⟩
    | cons b rest =>
        have hb : Bytes.isDigit b = false := h b rfl
        simp [hb]
  unfold readNat
  rw [List.takeWhile_append_of_pos hd, List.dropWhile_append_of_pos hd, ht.1, ht.2,
    List.append_nil, if_neg (Bytes.decimal_ne_nil n), Bytes.ofDecimal_decimal]

section

variable {α : Type} {item : Bytes → Option (α × Bytes)} {text : α → Bytes} {close : UInt8}

/-- A comma is no digit. -/
theorem noDigit_comma (s : Bytes) : NoDigit (44 :: s) := by
  intro b hb
  obtain rfl := Option.some.inj hb
  decide

/-- Items with commas between them read back one after another. -/
theorem readItems_append {rest : Bytes} (hclose : NoDigit (close :: rest)) (hcomma : close ≠ 44)
    {xs : List α} (hne : xs ≠ [])
    (h : ∀ x ∈ xs, ∀ rest, NoDigit rest → item (text x ++ rest) = some (x, rest))
    {k : Nat} (hk : xs.length ≤ k) :
    readItems item close k ([44].intercalate (xs.map text) ++ close :: rest) = some (xs, rest) := by
  induction xs generalizing k with
  | nil => exact absurd rfl hne
  | cons x xs ih =>
      obtain ⟨k, rfl⟩ : ∃ j, k = j + 1 := ⟨k - 1, by simp only [List.length_cons] at hk; omega⟩
      simp only [List.length_cons, Nat.add_le_add_iff_right] at hk
      cases xs with
      | nil =>
          have hx := h x List.mem_cons_self (close :: rest) hclose
          simp [readItems, hx]
      | cons y xs =>
          have hx := h x List.mem_cons_self
            (44 :: ([44].intercalate ((y :: xs).map text) ++ close :: rest)) (noDigit_comma _)
          have hxs := ih (by simp) (fun z hz => h z (List.mem_cons_of_mem _ hz)) hk
          have hcat : [44].intercalate ((x :: y :: xs).map text) ++ close :: rest =
              text x ++ 44 :: ([44].intercalate ((y :: xs).map text) ++ close :: rest) := by
            simp [List.intercalate]
          rw [hcat, readItems, hx]
          simp only [Option.bind_eq_bind, Option.bind_some, if_neg hcomma.symm, if_true, hxs,
            Option.map_some]

/-- A bracketed list reads back. -/
theorem readList_append {rest : Bytes} (hclose : NoDigit (close :: rest)) (hcomma : close ≠ 44)
    {xs : List α} (hitem : ∀ x ∈ xs, text x ≠ [] ∧ (text x).head? ≠ some close)
    (h : ∀ x ∈ xs, ∀ rest, NoDigit rest → item (text x ++ rest) = some (x, rest)) :
    readList item close ([44].intercalate (xs.map text) ++ close :: rest) = some (xs, rest) := by
  unfold readList
  cases xs with
  | nil => simp
  | cons x xs =>
      obtain ⟨hne, hhead⟩ := hitem x List.mem_cons_self
      have hstart : ([44].intercalate ((x :: xs).map text) ++ close :: rest).head? =
          (text x).head? := by
        cases ht : text x with
        | nil => exact absurd ht hne
        | cons b t => cases xs <;> simp [List.intercalate, ht]
      rw [hstart, if_neg hhead]
      refine readItems_append hclose hcomma (by simp) h ?_
      have hlen : ∀ ys : List α, (∀ y ∈ ys, text y ≠ []) →
          ys.length ≤ ([44].intercalate (ys.map text)).length := by
        intro ys hys
        induction ys with
        | nil => simp
        | cons y ys ih =>
            have hy := List.length_pos_of_ne_nil (hys y List.mem_cons_self)
            have := ih fun z hz => hys z (List.mem_cons_of_mem _ hz)
            cases ys with
            | nil =>
                simp [List.intercalate]
                omega
            | cons z ys =>
                simp [List.intercalate] at this ⊢
                omega
      have := hlen (x :: xs) fun y hy => (hitem y hy).1
      rw [List.length_append]
      omega

end

/-- A text that does not begin with a digit. -/
theorem noDigit_of_ne {b : UInt8} (h : Bytes.isDigit b = false) (s : Bytes) : NoDigit (b :: s) := by
  intro c hc
  obtain rfl := Option.some.inj hc
  exact h

/-- A number begins with a digit, which no other value does. -/
theorem head?_decimal (n : Nat) : ∃ b s, Bytes.decimal n = b :: s ∧ Bytes.isDigit b = true := by
  cases h : Bytes.decimal n with
  | nil => exact absurd h (Bytes.decimal_ne_nil n)
  | cons b s => exact ⟨b, s, rfl, Bytes.isDigit_of_mem_decimal (h ▸ List.mem_cons_self)⟩

/-- A digit is none of the other bytes. -/
theorem ne_of_isDigit {b c : UInt8} (hb : Bytes.isDigit b = true) (hc : Bytes.isDigit c = false) :
    b ≠ c := by
  rintro rfl
  rw [hb] at hc
  cases hc

/-- The text of a value begins with a byte that closes no list. -/
theorem head?_render {float : UInt64 → Bytes} {n : Nat} {v : Json} (h : Plain n v) :
    ∃ b s, v.render float = b :: s ∧ b ≠ 93 ∧ b ≠ 125 := by
  cases h with
  | null => exact ⟨110, str "ull", rfl, by decide, by decide⟩
  | bool n b =>
      cases b with
      | false => exact ⟨102, str "alse", rfl, by decide, by decide⟩
      | true => exact ⟨116, str "rue", rfl, by decide, by decide⟩
  | @integer _ i =>
      simp only [render, renderInt]
      by_cases hi : 0 ≤ i
      · obtain ⟨b, s, hb, hd⟩ := head?_decimal i.toNat
        rw [if_pos hi, hb]
        exact ⟨b, s, rfl, ne_of_isDigit hd (by decide), ne_of_isDigit hd (by decide)⟩
      · rw [if_neg hi]
        exact ⟨45, _, rfl, by decide, by decide⟩
  | string n s => exact ⟨34, _, rfl, by decide, by decide⟩
  | array => exact ⟨91, _, rfl, by decide, by decide⟩
  | object => exact ⟨123, _, rfl, by decide, by decide⟩

/-- A word is read, and the rest is left. -/
theorem stripPrefix_append (p s : Bytes) : Bytes.stripPrefix p (p ++ s) = some s :=
  Bytes.stripPrefix_eq_some.mpr rfl

/-- A field reads back if its value does. -/
theorem readField_append {float : UInt64 → Bytes} {value : Bytes → Option (Json × Bytes)}
    {f : Bytes × Json} {rest : Bytes}
    (h : value (f.2.render float ++ rest) = some (f.2, rest)) :
    readField value (renderField float f ++ rest) = some (f, rest) := by
  have hcat : renderField float f ++ rest =
      34 :: (f.1.flatMap escapeByte ++ 34 :: 58 :: (f.2.render float ++ rest)) := by
    simp [renderField, quote]
  rw [hcat, readField]
  simp only [readString_append, Option.bind_eq_bind, Option.bind_some, h, Option.map_some]

/-- A number without a sign reads back. -/
theorem readValue_digits {n : Nat} (k : Nat) {rest : Bytes} (hrest : NoDigit rest) :
    readValue (n + 1) (Bytes.decimal k ++ rest) = some (.integer k, rest) := by
  obtain ⟨b, s, hb, hd⟩ := head?_decimal k
  have hne : ∀ c, Bytes.isDigit c = false → b ≠ c := fun c hc => ne_of_isDigit hd hc
  have hr := readNat_append (n := k) hrest
  rw [hb, List.cons_append] at hr ⊢
  rw [readValue, if_neg (hne 34 (by decide)), if_neg (hne 91 (by decide)),
    if_neg (hne 123 (by decide)), if_neg (hne 110 (by decide)), if_neg (hne 116 (by decide)),
    if_neg (hne 102 (by decide)), if_neg (hne 45 (by decide)), hr]
  rfl

/-- The text of a value reads back, and the rest is left. -/
theorem readValue_append {float : UInt64 → Bytes} {n : Nat} {v : Json} (h : Plain n v)
    {rest : Bytes} (hrest : NoDigit rest) :
    readValue (n + 1) (v.render float ++ rest) = some (v, rest) := by
  induction h generalizing rest with
  | null n =>
      show (Bytes.stripPrefix (str "null") (str "null" ++ rest)).map _ = _
      rw [stripPrefix_append]
      rfl
  | bool n b =>
      cases b with
      | false =>
          show (Bytes.stripPrefix (str "false") (str "false" ++ rest)).map _ = _
          rw [stripPrefix_append]
          rfl
      | true =>
          show (Bytes.stripPrefix (str "true") (str "true" ++ rest)).map _ = _
          rw [stripPrefix_append]
          rfl
  | @integer n i =>
      rw [render, renderInt]
      by_cases hi : 0 ≤ i
      · rw [if_pos hi, readValue_digits _ hrest, Int.toNat_of_nonneg hi]
      · rw [if_neg hi]
        show (readNat (Bytes.decimal (-i).toNat ++ rest)).map _ = _
        have hv : -((-i).toNat : Int) = i := by omega
        rw [readNat_append hrest, Option.map_some]
        show some (integer (-((-i).toNat : Int)), rest) = _
        rw [hv]
  | string n s =>
      have hcat : quote s ++ rest = 34 :: (s.flatMap escapeByte ++ 34 :: rest) := by simp [quote]
      rw [render, hcat, readValue, if_pos rfl, readString_append]
      rfl
  | @array n values hv ih =>
      have hitem : ∀ v ∈ values, render float v ≠ [] ∧ (render float v).head? ≠ some 93 := by
        intro v hm
        obtain ⟨b, s, hb, hne, -⟩ : ∃ b s, render float v = b :: s ∧ b ≠ 93 ∧ b ≠ 125 :=
          head?_render (hv v hm)
        rw [hb]
        exact ⟨by simp, fun h => hne (Option.some.inj h)⟩
      have hlist : readList (readValue (n + 1)) 93
          ([44].intercalate (values.map (render float)) ++ 93 :: rest) = some (values, rest) :=
        readList_append (noDigit_of_ne (by decide) rest) (by decide) hitem
          fun v hm rest hr => ih v hm hr
      have hcat : render float (.array values) ++ rest =
          91 :: ([44].intercalate (values.map (render float)) ++ 93 :: rest) := by
        simp [render, renderValues_eq_map]
      rw [hcat, readValue, if_neg (by decide), if_pos rfl, hlist]
      rfl
  | @object n fields hv ih =>
      have hlist : readList (readField (readValue (n + 1))) 125
          ([44].intercalate (fields.map (renderField float)) ++ 125 :: rest) =
            some (fields, rest) :=
        readList_append (noDigit_of_ne (by decide) rest) (by decide)
          (fun f _ => ⟨by simp [renderField, quote], by simp [renderField, quote]⟩)
          fun f hm rest hr => readField_append (ih f hm hr)
      have hcat : render float (.object fields) ++ rest =
          123 :: ([44].intercalate (fields.map (renderField float)) ++ 125 :: rest) := by
        simp [render, renderFields_eq_map]
      rw [hcat, readValue, if_neg (by decide), if_neg (by decide), if_pos rfl, hlist]
      rfl

/-- A compact text reads back. -/
theorem readCompact_render {float : UInt64 → Bytes} {v : Json} (hv : v.Plain 127) :
    readCompact (v.render float) = some v := by
  have h : readValue 128 (v.render float ++ []) = some (v, []) :=
    readValue_append hv fun _ hb => by cases hb
  rw [List.append_nil] at h
  rw [readCompact, h]

/-- Reading compact texts and nothing else. -/
def compact : JsonText := ⟨fun _ => [], readCompact⟩

/-- What is written compactly reads back. -/
theorem compact_lawful : compact.Lawful := ⟨fun _ hv => readCompact_render hv⟩

end Json

end PurpleSky
