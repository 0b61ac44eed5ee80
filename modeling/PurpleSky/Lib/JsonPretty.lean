import PurpleSky.Lib.JsonText
import PurpleSky.Lib.Utf8

/-!
# Pretty JSON texts

The text of a JSON value on lines, two spaces a level, and a reader that leaves white space between
the tokens out.

* **`squeeze_pretty`**: without its white space a pretty text is the compact one.
* `spaced_lawful`, `spaced_pretty`: the reader reads both.
* **`lawful_onTexts`**: a library that takes texts only, and reads those back, is lawful once the
  other bytes are filled in.
-/

namespace PurpleSky

namespace Json

/-! ## Writing -/

/-- The start of a line. -/
def pad (depth : Nat) : Bytes := 10 :: List.replicate (2 * depth) 32

mutual

/-- The pretty text of a value at a depth, with `float` for the decimal form of a float. -/
def pretty (float : UInt64 → Bytes) (depth : Nat) : Json → Bytes
  | .array [] => str "[]"
  | .array (v :: values) =>
      91 :: ([44].intercalate (prettyValues float (depth + 1) (v :: values)) ++ pad depth ++ [93])
  | .object [] => [123, 125]
  | .object (f :: fields) =>
      123 :: ([44].intercalate (prettyFields float (depth + 1) (f :: fields)) ++ pad depth ++ [125])
  | .null => render float .null
  | .bool b => render float (.bool b)
  | .integer n => render float (.integer n)
  | .float bits => render float (.float bits)
  | .string s => render float (.string s)

/-- The lines of the values of an array. -/
def prettyValues (float : UInt64 → Bytes) (depth : Nat) : List Json → List Bytes
  | [] => []
  | v :: values => (pad depth ++ pretty float depth v) :: prettyValues float depth values

/-- The lines of the fields of an object. -/
def prettyFields (float : UInt64 → Bytes) (depth : Nat) : List (Bytes × Json) → List Bytes
  | [] => []
  | (k, v) :: fields =>
      (pad depth ++ quote k ++ 58 :: 32 :: pretty float depth v) :: prettyFields float depth fields

end

/-! ## Leaving white space out -/

/-- White space between tokens. -/
def isSpace (b : UInt8) : Bool := b = 32 || b = 10 || b = 13 || b = 9

/-- Where a byte of a text stands. -/
inductive Place where
  | token
  | quoted
  | escaped

/-- A text without the white space between its tokens. -/
def squeeze : Place → Bytes → Bytes
  | _, [] => []
  | .token, b :: s =>
      if isSpace b then squeeze .token s
      else b :: squeeze (if b = 34 then .quoted else .token) s
  | .quoted, b :: s =>
      b :: squeeze (if b = 92 then .escaped else if b = 34 then .token else .quoted) s
  | .escaped, b :: s => b :: squeeze .quoted s

/-- Bytes that are neither space nor a quote stay. -/
theorem squeeze_append {s rest : Bytes} (h : ∀ b ∈ s, isSpace b = false ∧ b ≠ 34) :
    squeeze .token (s ++ rest) = s ++ squeeze .token rest := by
  induction s with
  | nil => rfl
  | cons b s ih =>
      obtain ⟨⟨hspace, hquote⟩, hs⟩ := List.forall_mem_cons.mp h
      rw [List.cons_append, squeeze, if_neg (by simp [hspace]), if_neg hquote, ih hs,
        List.cons_append]

/-- The start of a line goes. -/
theorem squeeze_pad (depth : Nat) (rest : Bytes) :
    squeeze .token (pad depth ++ rest) = squeeze .token rest := by
  have hspace : isSpace 32 = true := rfl
  have hline : isSpace 10 = true := rfl
  have hspaces : ∀ n, squeeze .token (List.replicate n 32 ++ rest) = squeeze .token rest := by
    intro n
    induction n with
    | zero => rfl
    | succ n ih =>
        rw [List.replicate_succ, List.cons_append, squeeze, if_pos hspace, ih]
  rw [pad, List.cons_append, squeeze, if_pos hline, hspaces]

/-- In a string bytes stay that neither escape nor end it. -/
theorem squeeze_quoted {s rest : Bytes} (h : ∀ b ∈ s, b ≠ 92 ∧ b ≠ 34) :
    squeeze .quoted (s ++ rest) = s ++ squeeze .quoted rest := by
  induction s with
  | nil => rfl
  | cons b s ih =>
      obtain ⟨⟨hescape, hquote⟩, hs⟩ := List.forall_mem_cons.mp h
      rw [List.cons_append, squeeze, if_neg hescape, if_neg hquote, ih hs, List.cons_append]

/-- A hexadecimal digit neither escapes nor ends a string. -/
theorem hexDigit_plain {n : Nat} (hn : n < 16) : Bytes.hexDigit n ≠ 92 ∧ Bytes.hexDigit n ≠ 34 := by
  have hall : ∀ n < 16, Bytes.hexDigit n ≠ 92 ∧ Bytes.hexDigit n ≠ 34 := by decide
  exact hall n hn

/-- An escaped byte stays. -/
theorem squeeze_escapeByte (b : UInt8) (rest : Bytes) :
    squeeze .quoted (escapeByte b ++ rest) = escapeByte b ++ squeeze .quoted rest := by
  unfold escapeByte
  split_ifs with hquote hescape h8 h9 h10 h12 h13 hlow
  · rfl
  · rfl
  · rfl
  · rfl
  · rfl
  · rfl
  · rfl
  · have hb : b.toNat / 16 < 16 := by
      have := b.toNat_lt
      omega
    have hplain : ∀ c ∈ ([48, 48, Bytes.hexDigit (b.toNat / 16), Bytes.hexDigit (b.toNat % 16)] : Bytes),
        c ≠ 92 ∧ c ≠ 34 := by
      simp only [List.forall_mem_cons]
      exact ⟨by decide, by decide, hexDigit_plain hb, hexDigit_plain (Nat.mod_lt _ (by decide)), by simp⟩
    have h := @squeeze_quoted _ rest hplain
    show 92 :: 117 :: squeeze .quoted ([48, 48, _, _] ++ rest) = _
    rw [h]
    rfl
  · exact @squeeze_quoted [b] rest fun c hc => by
      obtain rfl := List.mem_singleton.mp hc
      exact ⟨hescape, hquote⟩

/-- A string stays. -/
theorem squeeze_quote (s rest : Bytes) :
    squeeze .token (quote s ++ rest) = quote s ++ squeeze .token rest := by
  have hbody : ∀ s : Bytes, squeeze .quoted (s.flatMap escapeByte ++ 34 :: rest) =
      s.flatMap escapeByte ++ 34 :: squeeze .token rest := by
    intro s
    induction s with
    | nil => rfl
    | cons b s ih =>
        rw [List.flatMap_cons, List.append_assoc, squeeze_escapeByte, ih, List.append_assoc]
  have hcat : ∀ tail, quote s ++ tail = 34 :: (s.flatMap escapeByte ++ 34 :: tail) := by
    intro tail
    simp [quote]
  rw [hcat, hcat, squeeze, if_neg (by decide), if_pos rfl, hbody]

/-! ## Pretty and compact texts -/

/-- The lines of the values are those of each. -/
theorem prettyValues_eq_map (float : UInt64 → Bytes) (depth : Nat) (values : List Json) :
    prettyValues float depth values = values.map fun v => pad depth ++ pretty float depth v := by
  induction values with
  | nil => rfl
  | cons v values ih => rw [prettyValues, ih, List.map_cons]

/-- The lines of the fields are those of each. -/
theorem prettyFields_eq_map (float : UInt64 → Bytes) (depth : Nat) (fields : List (Bytes × Json)) :
    prettyFields float depth fields =
      fields.map fun f => pad depth ++ quote f.1 ++ 58 :: 32 :: pretty float depth f.2 := by
  induction fields with
  | nil => rfl
  | cons f fields ih =>
      rw [prettyFields, ih, List.map_cons]

/-- A list of texts without white space, when each of them is known without. -/
theorem squeeze_intercalate {α : Type} {l : List α} {f g : α → Bytes}
    (h : ∀ a ∈ l, ∀ rest, squeeze .token (f a ++ rest) = g a ++ squeeze .token rest)
    (rest : Bytes) :
    squeeze .token ([44].intercalate (l.map f) ++ rest) =
      [44].intercalate (l.map g) ++ squeeze .token rest := by
  induction l with
  | nil => rfl
  | cons a l ih =>
      obtain ⟨ha, hl⟩ := List.forall_mem_cons.mp h
      cases l with
      | nil =>
          simp only [List.map_cons, List.map_nil, List.intercalate_singleton]
          exact ha rest
      | cons b l =>
          have hcons : ∀ F : α → Bytes, [44].intercalate ((a :: b :: l).map F) =
              F a ++ 44 :: [44].intercalate ((b :: l).map F) := by
            intro F
            simp [List.map_cons, List.intercalate_cons_cons]
          have hcomma : isSpace 44 = false := rfl
          rw [hcons, hcons, List.append_assoc, ha, List.cons_append, squeeze,
            if_neg (by simp [hcomma]),
            if_neg (by decide), ih hl, List.append_assoc, List.cons_append]

/-- A number in digits stays. -/
theorem squeeze_renderInt (n : Int) (rest : Bytes) :
    squeeze .token (renderInt n ++ rest) = renderInt n ++ squeeze .token rest := by
  refine squeeze_append fun b hb => ?_
  have hdigit : ∀ {c : UInt8}, Bytes.isDigit c = true → isSpace c = false ∧ c ≠ 34 := by
    intro c hc
    unfold Bytes.isDigit at hc
    unfold isSpace
    simp only [Bool.and_eq_true, decide_eq_true_eq] at hc
    constructor
    · simp only [Bool.or_eq_false_iff, decide_eq_false_iff_not]
      refine ⟨⟨⟨?_, ?_⟩, ?_⟩, ?_⟩ <;> rintro rfl <;> exact absurd hc.1 (by decide)
    · rintro rfl
      exact absurd hc.1 (by decide)
  unfold renderInt at hb
  split_ifs at hb with hn
  · exact hdigit (Bytes.isDigit_of_mem_decimal hb)
  · rcases List.mem_cons.mp hb with rfl | hb
    · decide
    · exact hdigit (Bytes.isDigit_of_mem_decimal hb)

/-- Items between brackets, when the items are known without white space. -/
theorem squeeze_block {lines items gap : Bytes} {left right : UInt8}
    (h : ∀ rest, squeeze .token (lines ++ rest) = items ++ squeeze .token rest)
    (hgap : ∀ rest, squeeze .token (gap ++ rest) = squeeze .token rest)
    (hleft : isSpace left = false ∧ left ≠ 34) (hright : isSpace right = false ∧ right ≠ 34)
    (rest : Bytes) :
    squeeze .token (left :: (lines ++ gap ++ [right]) ++ rest) =
      left :: (items ++ [right]) ++ squeeze .token rest := by
  have hcat : left :: (lines ++ gap ++ [right]) ++ rest = left ::
    (lines ++ (gap ++ right :: rest)) := by
    simp
  rw [hcat, squeeze, if_neg (by simp [hleft.1]), if_neg hleft.2, h, hgap, squeeze,
    if_neg (by simp [hright.1]), if_neg hright.2]
  simp

/-- The words of a text stay. -/
theorem squeeze_word (w : Bytes)
    (hw : w ∈ [str "null", str "true", str "false", str "[]", [123, 125]])
    (rest : Bytes) : squeeze .token (w ++ rest) = w ++ squeeze .token rest := by
  have hplain : ∀ w ∈ [str "null", str "true", str "false", str "[]", [123, 125]], ∀ b ∈ w,
      isSpace b = false ∧ b ≠ 34 := by decide +kernel
  exact squeeze_append (hplain w hw)

/-- Without its white space a pretty text is the compact one. -/
theorem squeeze_pretty {float : UInt64 → Bytes} {n : Nat} {v : Json} (h : Plain n v) (depth : Nat)
    (rest : Bytes) :
    squeeze .token (v.pretty float depth ++ rest) = v.render float ++ squeeze .token rest := by
  induction h generalizing depth rest with
  | null n => exact squeeze_word (str "null") (by simp) rest
  | bool n b =>
      cases b with
      | false => exact squeeze_word (str "false") (by simp) rest
      | true => exact squeeze_word (str "true") (by simp) rest
  | integer n => exact squeeze_renderInt _ rest
  | string n s => exact squeeze_quote s rest
  | @array n values hv ih =>
      cases values with
      | nil => exact squeeze_word (str "[]") (by simp) rest
      | cons v values =>
          have hlines := @squeeze_intercalate _ (v :: values) (fun v => pad (depth + 1) ++
            pretty float (depth + 1) v) (render float) (fun v hm rest => by
              rw [List.append_assoc, squeeze_pad]
              exact ih v hm (depth + 1) rest)
          rw [pretty, prettyValues_eq_map, render, renderValues_eq_map]
          exact squeeze_block hlines (squeeze_pad depth) (by decide) (by decide) rest
  | @object n fields hv ih =>
      cases fields with
      | nil => exact squeeze_word [123, 125] (by simp) rest
      | cons f fields =>
          have hlines := @squeeze_intercalate _ (f :: fields) (fun f => pad (depth + 1) ++ quote f.1 ++
            58 :: 32 :: pretty float (depth + 1) f.2) (renderField float) (fun f hm rest => by
              have hcolon : isSpace 58 = false := rfl
              have hspace : isSpace 32 = true := rfl
              rw [List.append_assoc, List.append_assoc, squeeze_pad, squeeze_quote,
                List.cons_append,
                List.cons_append, squeeze, if_neg (by simp [hcolon]), if_neg (by decide), squeeze,
                if_pos hspace, ih f hm (depth + 1) rest, renderField, List.append_assoc,
                List.cons_append])
          rw [pretty, prettyFields_eq_map, render, renderFields_eq_map]
          exact squeeze_block hlines (squeeze_pad depth) (by decide) (by decide) rest

/-- A compact text has no white space to leave out. -/
theorem squeeze_render {float : UInt64 → Bytes} {n : Nat} {v : Json} (h : Plain n v)
    (rest : Bytes) :
    squeeze .token (v.render float ++ rest) = v.render float ++ squeeze .token rest := by
  induction h generalizing rest with
  | null n => exact squeeze_word (str "null") (by simp) rest
  | bool n b =>
      cases b with
      | false => exact squeeze_word (str "false") (by simp) rest
      | true => exact squeeze_word (str "true") (by simp) rest
  | integer n => exact squeeze_renderInt _ rest
  | string n s => exact squeeze_quote s rest
  | @array n values hv ih =>
      have hitems := @squeeze_intercalate _ values (render float) (render float) fun v hm rest =>
        ih v hm rest
      rw [render, renderValues_eq_map]
      have h := @squeeze_block _ _ [] 91 93 hitems (fun _ => rfl) (by decide) (by decide) rest
      rwa [List.append_nil] at h
  | @object n fields hv ih =>
      have hitems := @squeeze_intercalate _ fields (renderField float) (renderField float)
        (fun f hm rest => by
          have hcolon : isSpace 58 = false := rfl
          rw [renderField, List.append_assoc, squeeze_quote, List.cons_append, squeeze,
            if_neg (by simp [hcolon]), if_neg (by decide), ih f hm rest, List.append_assoc,
            List.cons_append])
      rw [render, renderFields_eq_map]
      have h := @squeeze_block _ _ [] 123 125 hitems (fun _ => rfl) (by decide) (by decide) rest
      rwa [List.append_nil] at h

/-! ## Reading both -/

/-- Reading compact texts with white space between their tokens. -/
def spaced : JsonText := ⟨fun _ => [], fun s => readCompact (squeeze .token s)⟩

/-- A compact text reads back. -/
theorem spaced_render {float : UInt64 → Bytes} {v : Json} (hv : v.Plain 127) :
    spaced.parse (v.render float) = some v := by
  have h := @squeeze_render float _ v hv []
  rw [List.append_nil, squeeze, List.append_nil] at h
  show readCompact (squeeze .token (v.render float)) = some v
  rw [h, readCompact_render hv]

/-- A pretty text reads back. -/
theorem spaced_pretty {float : UInt64 → Bytes} {v : Json} (hv : v.Plain 127) :
    spaced.parse (v.pretty float 0) = some v := by
  have h := @squeeze_pretty float _ v hv 0 []
  rw [List.append_nil, squeeze, List.append_nil] at h
  show readCompact (squeeze .token (v.pretty float 0)) = some v
  rw [h, readCompact_render hv]

/-- What is written compactly reads back here, too. -/
theorem spaced_lawful : spaced.Lawful := ⟨fun _ hv => spaced_render hv⟩

end Json

/-! ## Libraries that take texts only -/

namespace JsonText

/-- Compact and pretty texts of at most 127 levels read back, where they are texts. -/
structure ReadsTexts (T : JsonText) : Prop where
  parse_render : ∀ v : Json, v.Plain 127 → Bytes.IsText (T.render v) →
    T.parse (T.render v) = some v
  parse_pretty : ∀ v : Json, v.Plain 127 → Bytes.IsText (v.pretty T.float 0) →
    T.parse (v.pretty T.float 0) = some v

/-- The library on texts, and a reader of any bytes on the others. -/
def onTexts (T : JsonText) : JsonText where
  float := T.float
  parse s := if Bytes.IsText s then T.parse s else Json.spaced.parse s

/-- No text is read in another way. -/
theorem parse_onTexts {T : JsonText} {s : Bytes} (hs : Bytes.IsText s) :
    T.onTexts.parse s = T.parse s := if_pos hs

/-- A library that reads texts is lawful, with the other bytes filled in. -/
theorem lawful_onTexts {T : JsonText} (hT : T.ReadsTexts) : T.onTexts.Lawful := by
  refine ⟨fun v hv => ?_⟩
  by_cases htext : Bytes.IsText (T.render v)
  · exact (parse_onTexts htext).trans (hT.parse_render v hv htext)
  · exact (if_neg htext).trans (Json.spaced_render hv)

/-- Its pretty texts read back. -/
theorem pretty_onTexts {T : JsonText} (hT : T.ReadsTexts) {v : Json} (hv : v.Plain 127) :
    T.onTexts.parse (v.pretty T.float 0) = some v := by
  by_cases htext : Bytes.IsText (v.pretty T.float 0)
  · exact (parse_onTexts htext).trans (hT.parse_pretty v hv htext)
  · exact (if_neg htext).trans (Json.spaced_pretty hv)

/-- Reading texts with white space between their tokens, and refusing other bytes. -/
def strict : JsonText where
  float _ := []
  parse s := if Bytes.IsText s then Json.spaced.parse s else none

/-- A reader that refuses what is no text reads the texts. -/
theorem strict_readsTexts : strict.ReadsTexts where
  parse_render _ hv htext := (if_pos htext).trans (Json.spaced_render hv)
  parse_pretty _ hv htext := (if_pos htext).trans (Json.spaced_pretty hv)

end JsonText

end PurpleSky
