import PurpleSky.Repo.RecordSet

/-!
# The budget of a record

What `jsonToIpld` accepts, said without its counter: `WellFormed` is about nesting, integers and
wrappers, and `total` is the charge of a whole value, a sum over its parts in any order.

* **`jsonToIpld_exact`**: a value is accepted exactly when it is well formed and its total is within
  the budget, and the total is what it takes.
* `Swapped` exchanges siblings somewhere in a value; `exists_ok_of_swapped`: what is accepted stays
  accepted.
* `total_le_length`: without wrappers the total is at most the length of the encoding. The text of a
  wrapper is longer than its encoding, and **`put_iff_total`** says what `put` makes of that.
-/

namespace PurpleSky.Repo

/-! ## Well-formed values and their totals -/

/-- The value under a wrapper key of an object. -/
def payload (fields : List (Bytes × Json)) : Option Json :=
  (fields.lookup (str "$link")).or (fields.lookup (str "$bytes"))

mutual

/-- The charge of a value: one for each node, and the bytes of its strings, of its keys and of the
texts in its wrappers. A wrapper is one node, and its key is free. -/
def total : Json → Nat
  | .string s => 1 + s.length
  | .array values => 1 + totalItems values
  | .object fields =>
      1 + (payload fields).elim (totalFields fields) fun v => v.asStr.elim 0 List.length
  | _ => 1

/-- The charge of the items of an array. -/
def totalItems : List Json → Nat
  | [] => 0
  | v :: values => total v + totalItems values

/-- The charge of the fields of an object and their keys. -/
def totalFields : List (Bytes × Json) → Nat
  | [] => 0
  | (k, v) :: fields => k.length + total v + totalFields fields

end

/-- A value at a depth is within the limits on nesting and integers, and every object with a wrapper
key is a wrapper: one field, with the canonical text of a CID or with strict base64. -/
inductive WellFormed (parse : Bytes → Option Cid) : Nat → Json → Prop where
  | null {d} : d ≤ maxRecordDepth → WellFormed parse d .null
  | bool {d} (b) : d ≤ maxRecordDepth → WellFormed parse d (.bool b)
  | string {d} (s) : d ≤ maxRecordDepth → WellFormed parse d (.string s)
  | integer {d n} : d ≤ maxRecordDepth → -maxSafeInteger ≤ n → n ≤ maxSafeInteger →
      WellFormed parse d (.integer n)
  | array {d values} : d ≤ maxRecordDepth → (∀ v ∈ values, WellFormed parse (d + 1) v) →
      WellFormed parse d (.array values)
  | link {d c} : d ≤ maxRecordDepth → c.text.length ≤ 128 → parse c.text = some c → Linkable c →
      WellFormed parse d (.object [(str "$link", .string c.text)])
  | bytes {d s} : d ≤ maxRecordDepth →
      (Base64.decode Base64.standard .indifferent s).isSome = true →
      WellFormed parse d (.object [(str "$bytes", .string s)])
  | object {d fields} : d ≤ maxRecordDepth →
      (∀ f ∈ fields, f.1 ≠ str "$link" ∧ f.1 ≠ str "$bytes") →
      (∀ f ∈ fields, WellFormed parse (d + 1) f.2) → WellFormed parse d (.object fields)

variable {parse : Bytes → Option Cid}

/-- A key that is not found is none of the keys. -/
theorem lookup_eq_none {fields : List (Bytes × Json)} {k : Bytes} :
    fields.lookup k = none ↔ ∀ f ∈ fields, f.1 ≠ k := by
  rw [List.lookup_eq_none_iff]
  exact forall₂_congr fun f _ => by rw [bne_iff_ne, ne_comm]

/-- An object that is no wrapper has neither of the two keys. -/
theorem payload_eq_none {fields : List (Bytes × Json)} :
    payload fields = none ↔ ∀ f ∈ fields, f.1 ≠ str "$link" ∧ f.1 ≠ str "$bytes" := by
  rw [payload, Option.or_eq_none_iff, lookup_eq_none, lookup_eq_none]
  exact forall₂_and.symm

/-- The payload of a link is its text. -/
@[simp] theorem payload_link (v : Json) : payload [(str "$link", v)] = some v := rfl

/-- The payload of bytes is their text. -/
@[simp] theorem payload_bytes (v : Json) : payload [(str "$bytes", v)] = some v := rfl

/-! ## What is accepted -/

/-- A value was accepted at a depth under a budget. -/
structure Accepted (parse : Bytes → Option Cid) (v : Json) (depth budget rest : Nat) : Prop where
  wellFormed : WellFormed parse depth v
  total_add : total v + rest = budget

/-- What is accepted of each item is accepted of the list. -/
theorem accepted_items {values : List Json} {depth : Nat}
    (hvalues : ∀ v ∈ values, ∀ budget x rest,
      jsonToIpld parse v depth budget = .ok (x, rest) → Accepted parse v depth budget rest)
    {budget rest : Nat} {xs : List Ipld}
    (h : jsonItems parse values depth budget = .ok (xs, rest)) :
    (∀ v ∈ values, WellFormed parse depth v) ∧ totalItems values + rest = budget := by
  induction values generalizing xs budget with
  | nil =>
      rw [jsonItems] at h
      obtain ⟨-, rfl⟩ := Prod.mk.inj (Except.ok.inj h)
      exact ⟨List.forall_mem_nil _, Nat.zero_add _⟩
  | cons v values ih =>
      rw [List.forall_mem_cons] at hvalues
      obtain ⟨x, left, items, hx, hitems, -⟩ := jsonItems_cons_eq_ok.mp h
      obtain ⟨hv, htotal⟩ := hvalues.1 _ _ _ hx
      obtain ⟨hrest, htotals⟩ := ih hvalues.2 hitems
      rw [List.forall_mem_cons, totalItems]
      exact ⟨⟨hv, hrest⟩, by omega⟩

/-- What is accepted of each field is accepted of the object. -/
theorem accepted_fields {values : List (Bytes × Json)} {depth : Nat}
    (hvalues : ∀ f ∈ values, ∀ budget x rest,
      jsonToIpld parse f.2 depth budget = .ok (x, rest) → Accepted parse f.2 depth budget rest)
    {budget rest : Nat} {xs : List (Bytes × Ipld)}
    (h : jsonFields parse values depth budget = .ok (xs, rest)) :
    (∀ f ∈ values, WellFormed parse depth f.2) ∧ totalFields values + rest = budget := by
  induction values generalizing xs budget with
  | nil =>
      rw [jsonFields] at h
      obtain ⟨-, rfl⟩ := Prod.mk.inj (Except.ok.inj h)
      exact ⟨List.forall_mem_nil _, Nat.zero_add _⟩
  | cons f values ih =>
      obtain ⟨k, v⟩ := f
      rw [List.forall_mem_cons] at hvalues
      obtain ⟨hk, x, left, fields, hx, hfields, -⟩ := jsonFields_cons_eq_ok.mp h
      obtain ⟨hv, htotal⟩ := hvalues.1 _ _ _ hx
      simp only at htotal
      obtain ⟨hrest, htotals⟩ := ih hvalues.2 hfields
      rw [List.forall_mem_cons, totalFields]
      exact ⟨⟨hv, hrest⟩, by omega⟩

/-- What is accepted is well formed and took its total. -/
theorem accepted_of_jsonToIpld (v : Json) : ∀ depth budget x rest,
    jsonToIpld parse v depth budget = .ok (x, rest) → Accepted parse v depth budget rest := by
  induction v using Json.inductOn with
  | null =>
      intro depth budget x rest h
      obtain ⟨hd, hb, -, rfl⟩ := jsonToIpld_eq_ok.mp h
      exact ⟨.null hd, by simp only [total, baseCharge] at hb ⊢; omega⟩
  | bool b =>
      intro depth budget x rest h
      obtain ⟨hd, hb, -, rfl⟩ := jsonToIpld_eq_ok.mp h
      exact ⟨.bool b hd, by simp only [total, baseCharge] at hb ⊢; omega⟩
  | integer n =>
      intro depth budget x rest h
      obtain ⟨hd, hb, ⟨h₁, h₂⟩, -, rfl⟩ := jsonToIpld_eq_ok.mp h
      exact ⟨.integer hd h₁ h₂, by simp only [total, baseCharge] at hb ⊢; omega⟩
  | float bits =>
      intro depth budget x rest h
      exact absurd (jsonToIpld_eq_ok.mp h).2.2 id
  | string s =>
      intro depth budget x rest h
      obtain ⟨hd, hb, -, rfl⟩ := jsonToIpld_eq_ok.mp h
      exact ⟨.string s hd, by simp only [total, baseCharge] at hb ⊢; omega⟩
  | array values ih =>
      intro depth budget x rest h
      obtain ⟨hd, hb, items, hitems, -⟩ := jsonToIpld_eq_ok.mp h
      obtain ⟨hvalues, htotal⟩ := accepted_items (fun v hv => ih v hv (depth + 1)) hitems
      exact ⟨.array hd hvalues, by simp only [total, baseCharge] at hb ⊢; omega⟩
  | object fields ih =>
      intro depth budget x rest h
      obtain ⟨hd, hb, h⟩ := jsonToIpld_eq_ok.mp h
      simp only [baseCharge] at hb
      rcases hlink : fields.lookup (str "$link") with _ | link
      · rcases hbytes : fields.lookup (str "$bytes") with _ | bytes
        · simp only [hlink, hbytes] at h
          obtain ⟨fs, hfields, -⟩ := h
          obtain ⟨hvalues, htotal⟩ := accepted_fields (fun f hf => ih f hf (depth + 1)) hfields
          have hkeys : payload fields = none := by rw [payload, hlink, hbytes]; rfl
          refine ⟨.object hd (payload_eq_none.mp hkeys) hvalues, ?_⟩
          rw [total, hkeys, Option.elim_none]
          omega
        · simp only [hlink, hbytes] at h
          obtain ⟨hlen, b, k, rfl, hall, hle, -, rfl⟩ := bytesWrapper_eq_ok.mp h
          obtain rfl := eq_singleton_of_lookup hlen hbytes
          refine ⟨.bytes hd ?_, ?_⟩
          · rw [(Base64.decode_eq_some_iff Base64.standard).mpr ⟨k, rfl, hall⟩, Option.isSome_some]
          · rw [total, payload_bytes, Option.elim_some, Json.asStr, Option.elim_some]
            omega
      · simp only [hlink] at h
        obtain ⟨hlen, c, rfl, h128, hle, hparse, hc, -, rfl⟩ := linkWrapper_eq_ok.mp h
        obtain rfl := eq_singleton_of_lookup hlen hlink
        refine ⟨.link hd h128 hparse hc, ?_⟩
        rw [total, payload_link, Option.elim_some, Json.asStr, Option.elim_some]
        omega

/-- A value converts to `x` at a depth under every budget that covers its total. -/
def Converts (parse : Bytes → Option Cid) (v : Json) (depth : Nat) (x : Ipld) : Prop :=
  ∀ budget, total v ≤ budget → jsonToIpld parse v depth budget = .ok (x, budget - total v)

/-- Items that convert for themselves convert one after the other. -/
theorem converts_items {values : List Json} {depth : Nat}
    (h : ∀ v ∈ values, ∃ x, Converts parse v depth x) :
    ∃ items, ∀ budget, totalItems values ≤ budget →
      jsonItems parse values depth budget = .ok (items, budget - totalItems values) := by
  induction values with
  | nil => exact ⟨[], fun budget _ => rfl⟩
  | cons v values ih =>
      rw [List.forall_mem_cons] at h
      obtain ⟨x, hx⟩ := h.1
      obtain ⟨items, hitems⟩ := ih h.2
      refine ⟨x :: items, fun budget hb => ?_⟩
      rw [totalItems] at hb
      refine jsonItems_cons_eq_ok.mpr ⟨x, _, items, hx budget (by omega), ?_, rfl⟩
      rw [hitems _ (by omega), totalItems, Nat.sub_sub]

/-- Fields that convert for themselves convert one after the other. -/
theorem converts_fields {values : List (Bytes × Json)} {depth : Nat}
    (h : ∀ f ∈ values, ∃ x, Converts parse f.2 depth x) :
    ∃ fields, ∀ budget, totalFields values ≤ budget →
      jsonFields parse values depth budget = .ok (fields, budget - totalFields values) := by
  induction values with
  | nil => exact ⟨[], fun budget _ => rfl⟩
  | cons f values ih =>
      obtain ⟨k, v⟩ := f
      rw [List.forall_mem_cons] at h
      obtain ⟨x, hx⟩ : ∃ x, Converts parse v depth x := h.1
      obtain ⟨fields, hfields⟩ := ih h.2
      refine ⟨(k, x) :: fields, fun budget hb => ?_⟩
      rw [totalFields] at hb
      refine jsonFields_cons_eq_ok.mpr ⟨by omega, x, _, fields, hx _ (by omega), ?_, rfl⟩
      rw [hfields _ (by omega), totalFields, Nat.sub_sub, Nat.sub_sub, Nat.add_assoc]

/-- What is well formed converts, to one result under every budget that is enough. -/
theorem WellFormed.converts {d : Nat} {v : Json} (h : WellFormed parse d v) :
    ∃ x, Converts parse v d x := by
  induction h with
  | null hd => exact ⟨.null, fun budget hb => jsonToIpld_eq_ok.mpr ⟨hd, hb, rfl, rfl⟩⟩
  | bool b hd => exact ⟨.bool b, fun budget hb => jsonToIpld_eq_ok.mpr ⟨hd, hb, rfl, rfl⟩⟩
  | integer hd h₁ h₂ =>
      exact ⟨.integer _, fun budget hb => jsonToIpld_eq_ok.mpr ⟨hd, hb, ⟨h₁, h₂⟩, rfl, rfl⟩⟩
  | string s hd =>
      refine ⟨.string s, fun budget hb => ?_⟩
      rw [total, Nat.add_comm] at hb ⊢
      exact jsonToIpld_eq_ok.mpr ⟨hd, hb, rfl, rfl⟩
  | array hd _ ih =>
      obtain ⟨items, hitems⟩ := converts_items ih
      refine ⟨.list items, fun budget hb => ?_⟩
      rw [total] at hb
      refine jsonToIpld_eq_ok.mpr ⟨hd, by simp only [baseCharge]; omega, items, ?_, rfl⟩
      rw [hitems _ (by omega), total, Nat.sub_sub]
  | @link d c hd h128 hparse hc =>
      refine ⟨.link c, fun budget hb => ?_⟩
      simp only [total, payload_link, Option.elim_some, Json.asStr] at hb ⊢
      refine jsonToIpld_eq_ok.mpr ⟨hd, by simp only [baseCharge]; omega, ?_⟩
      have hsome : [(str "$link", Json.string c.text)].lookup (str "$link") =
          some (.string c.text) := rfl
      simp only [hsome]
      exact linkWrapper_eq_ok.mpr ⟨rfl, c, rfl, h128, by omega, hparse, hc, rfl,
        (Nat.sub_sub _ _ _).symm⟩
  | @bytes d s hd hs =>
      obtain ⟨b, hdecode⟩ := Option.isSome_iff_exists.mp hs
      obtain ⟨k, rfl, hall⟩ := (Base64.decode_eq_some_iff Base64.standard).mp hdecode
      refine ⟨.bytes b, fun budget hb => ?_⟩
      simp only [total, payload_bytes, Option.elim_some, Json.asStr] at hb ⊢
      refine jsonToIpld_eq_ok.mpr ⟨hd, by simp only [baseCharge]; omega, ?_⟩
      have hnone : ∀ w : Json, [(str "$bytes", w)].lookup (str "$link") = none := fun w => rfl
      have hsome : ∀ w : Json, [(str "$bytes", w)].lookup (str "$bytes") = some w := fun w => rfl
      simp only [hnone, hsome]
      exact bytesWrapper_eq_ok.mpr ⟨rfl, b, k, rfl, hall, by omega, rfl, (Nat.sub_sub _ _ _).symm⟩
  | @object d fields hd hkeys _ ih =>
      obtain ⟨fs, hfields⟩ := converts_fields ih
      refine ⟨.map fs, fun budget hb => ?_⟩
      have hnone := payload_eq_none.mpr hkeys
      rw [total, hnone, Option.elim_none] at hb ⊢
      rw [payload, Option.or_eq_none_iff] at hnone
      refine jsonToIpld_eq_ok.mpr ⟨hd, by simp only [baseCharge]; omega, ?_⟩
      simp only [hnone.1, hnone.2]
      exact ⟨fs, by rw [hfields _ (by omega), Nat.sub_sub], rfl⟩

/-- Acceptance without the counter. -/
theorem exists_ok_iff {v : Json} {depth budget : Nat} :
    (∃ x rest, jsonToIpld parse v depth budget = .ok (x, rest)) ↔
      WellFormed parse depth v ∧ total v ≤ budget := by
  constructor
  · rintro ⟨x, rest, h⟩
    obtain ⟨hv, htotal⟩ := accepted_of_jsonToIpld v _ _ _ _ h
    exact ⟨hv, by omega⟩
  · rintro ⟨hv, hb⟩
    obtain ⟨x, hx⟩ := hv.converts
    exact ⟨x, _, hx budget hb⟩

/-! ## The order of siblings -/

/-- Two values that differ in the order of the items of one array or of the fields of one object,
somewhere in them. -/
inductive Swapped : Json → Json → Prop where
  | array {values values'} : values.Perm values' → Swapped (.array values) (.array values')
  | object {fields fields'} : fields.Perm fields' → Swapped (.object fields) (.object fields')
  | item (before after) {v w} : Swapped v w →
      Swapped (.array (before ++ v :: after)) (.array (before ++ w :: after))
  | field (before after) (k) {v w} : Swapped v w →
      Swapped (.object (before ++ (k, v) :: after)) (.object (before ++ (k, w) :: after))

/-- A swap of two fields is undone by a swap. -/
theorem Swapped.symm {v w : Json} (h : Swapped v w) : Swapped w v := by
  induction h with
  | array h => exact .array h.symm
  | object h => exact .object h.symm
  | item before after _ ih => exact .item before after ih
  | field before after k _ ih => exact .field before after k ih

/-- A list costs what its items cost. -/
theorem totalItems_eq_sum (values : List Json) : totalItems values = (values.map total).sum := by
  induction values with
  | nil => rfl
  | cons v values ih => rw [totalItems, ih, List.map_cons, List.sum_cons]

/-- An object costs its keys and what its fields cost. -/
theorem totalFields_eq_sum (fields : List (Bytes × Json)) :
    totalFields fields = (fields.map fun f => f.1.length + total f.2).sum := by
  induction fields with
  | nil => rfl
  | cons f fields ih => rw [totalFields, ih, List.map_cons, List.sum_cons]

/-- A text is not swapped with anything. -/
theorem Swapped.ne_string {v w : Json} (h : Swapped v w) (s : Bytes) : v ≠ .string s := by
  rintro rfl
  cases h

/-- A swap leaves a value well formed, with the same total. -/
theorem Swapped.wellFormed {v w : Json} (h : Swapped v w) {d : Nat} (hv : WellFormed parse d v) :
    WellFormed parse d w ∧ total w = total v := by
  induction h generalizing d with
  | @array values values' h =>
      cases hv with
      | array hd hvalues =>
          refine ⟨.array hd fun v hv => hvalues v (h.mem_iff.mpr hv), ?_⟩
          rw [total, total, totalItems_eq_sum, totalItems_eq_sum, (h.map total).sum_eq]
  | @object fields fields' h =>
      cases hv with
      | link hd h128 hparse hc =>
          obtain rfl := List.singleton_perm.mp h
          exact ⟨.link hd h128 hparse hc, rfl⟩
      | bytes hd hs =>
          obtain rfl := List.singleton_perm.mp h
          exact ⟨.bytes hd hs, rfl⟩
      | object hd hkeys hvalues =>
          have hkeys' : ∀ f ∈ fields', f.1 ≠ str "$link" ∧ f.1 ≠ str "$bytes" :=
            fun f hf => hkeys f (h.mem_iff.mpr hf)
          refine ⟨.object hd hkeys' fun f hf => hvalues f (h.mem_iff.mpr hf), ?_⟩
          rw [total, total, payload_eq_none.mpr hkeys, payload_eq_none.mpr hkeys',
            Option.elim_none, Option.elim_none, totalFields_eq_sum, totalFields_eq_sum,
            (h.map _).sum_eq]
  | @item before after v w h ih =>
      cases hv with
      | array hd hvalues =>
          simp only [List.forall_mem_append, List.forall_mem_cons] at hvalues
          obtain ⟨hbefore, hv, hafter⟩ := hvalues
          obtain ⟨hw, htotal⟩ := ih hv
          refine ⟨.array hd ?_, ?_⟩
          · simp only [List.forall_mem_append, List.forall_mem_cons]
            exact ⟨hbefore, hw, hafter⟩
          · simp only [total, totalItems_eq_sum, List.map_append, List.map_cons, htotal]
  | @field before after k v w h ih =>
      -- a wrapper has one field, and it is a text
      have hsingle : ∀ k' s, before ++ (k, v) :: after ≠ [(k', Json.string s)] := by
        intro k' s heq
        have hmem : (k, v) ∈ before ++ (k, v) :: after := by simp
        rw [heq, List.mem_singleton] at hmem
        exact h.ne_string s (Prod.mk.inj hmem).2
      generalize heq : before ++ (k, v) :: after = fields at hv hsingle
      cases hv with
      | link => exact absurd rfl (hsingle _ _)
      | bytes => exact absurd rfl (hsingle _ _)
      | object hd hkeys hvalues =>
          subst heq
          have hkeys' : ∀ f ∈ before ++ (k, w) :: after, f.1 ≠ str "$link" ∧
            f.1 ≠ str "$bytes" := by
            simpa only [List.forall_mem_append, List.forall_mem_cons] using hkeys
          rw [total, total, payload_eq_none.mpr hkeys, payload_eq_none.mpr hkeys']
          simp only [List.forall_mem_append, List.forall_mem_cons] at hvalues
          obtain ⟨hbefore, hv, hafter⟩ := hvalues
          obtain ⟨hw, htotal⟩ := ih hv
          refine ⟨.object hd hkeys' ?_, ?_⟩
          · simp only [List.forall_mem_append, List.forall_mem_cons]
            exact ⟨hbefore, hw, hafter⟩
          · simp only [Option.elim_none, totalFields_eq_sum, List.map_append, List.map_cons, htotal]

/-- So are many of them. -/
theorem swapped_symm {v w : Json} (h : Relation.ReflTransGen Swapped v w) :
    Relation.ReflTransGen Swapped w v := by
  induction h with
  | refl => exact .refl
  | tail _ h ih => exact .head h.symm ih

/-- What is accepted stays accepted in another order of its parts, and leaves as much. -/
theorem exists_ok_of_swapped {v w : Json} (h : Relation.ReflTransGen Swapped v w)
    {depth budget rest : Nat} (hv : ∃ x, jsonToIpld parse v depth budget = .ok (x, rest)) :
    ∃ x, jsonToIpld parse w depth budget = .ok (x, rest) := by
  induction h with
  | refl => exact hv
  | tail _ h ih =>
      obtain ⟨x, hx⟩ := ih
      obtain ⟨hv, hrest⟩ := accepted_of_jsonToIpld _ _ _ _ _ hx
      obtain ⟨hw, htotal⟩ := h.wellFormed hv
      obtain ⟨y, hy⟩ := hw.converts
      refine ⟨y, ?_⟩
      rw [hy budget (by omega), htotal, ← hrest, Nat.add_sub_cancel_left]

/-- **Exact acceptance.** From any budget a value converts exactly when it is well formed and its
total is within the budget, and then what is left is the budget less the total. A value with its
siblings in another order, anywhere in it, converts exactly when it does, and leaves as much. -/
theorem jsonToIpld_exact (parse : Bytes → Option Cid) (v : Json) (budget : Nat) :
    ((∃ x rest, jsonToIpld parse v 0 budget = .ok (x, rest)) ↔
      WellFormed parse 0 v ∧ total v ≤ budget) ∧
    (∀ x rest, jsonToIpld parse v 0 budget = .ok (x, rest) → rest = budget - total v) ∧
    ∀ w, Relation.ReflTransGen Swapped v w → ∀ rest,
      (∃ x, jsonToIpld parse w 0 budget = .ok (x, rest)) ↔
        ∃ x, jsonToIpld parse v 0 budget = .ok (x, rest) := by
  refine ⟨exists_ok_iff, ?_, ?_⟩
  · intro x rest h
    have := (accepted_of_jsonToIpld v _ _ _ _ h).total_add
    omega
  · exact fun w h rest => ⟨exists_ok_of_swapped (swapped_symm h), exists_ok_of_swapped h⟩

/-! ## The total and the length of the encoding -/

mutual

/-- The bytes of the texts in the wrappers of a value. -/
def wrapped : Json → Nat
  | .array values => wrappedItems values
  | .object fields =>
      (payload fields).elim (wrappedFields fields) fun v => v.asStr.elim 0 List.length
  | _ => 0

/-- The texts in the items of an array. -/
def wrappedItems : List Json → Nat
  | [] => 0
  | v :: values => wrapped v + wrappedItems values

/-- The texts in the fields of an object. -/
def wrappedFields : List (Bytes × Json) → Nat
  | [] => 0
  | (_, v) :: fields => wrapped v + wrappedFields fields

end

/-- A chunk has more bytes than its content. -/
theorem lt_length_chunk (major : Nat) (s : Bytes) :
    s.length < (DagCbor.chunk major s).length := by
  have := DagCbor.length_head_pos major s.length
  rw [DagCbor.chunk, List.length_append]
  omega

/-- No value is encoded by nothing. -/
theorem length_encode_pos (x : Ipld) : 1 ≤ (encode x).length :=
  List.length_pos_iff.mpr (DagCbor.encode_ne_nil x)

/-- The length of a map is the length of its fields, in any order. -/
theorem length_encode_map (fields : List (Bytes × Ipld)) :
    (encode (.map fields)).length = (DagCbor.head 5 fields.length).length +
      (fields.map fun f => (DagCbor.chunk 3 f.1).length + (encode f.2).length).sum := by
  have hperm := (DagCbor.canonical_perm fields).map
    fun f => (DagCbor.chunk 3 f.1).length + (DagCbor.encode f.2).length
  simp only [encode, DagCbor.encode_map, List.length_append, List.length_flatMap]
  rw [hperm.sum_eq]

/-- Each item within its encoding, so the list. -/
theorem total_le_items {values : List Json} {depth : Nat}
    (hvalues : ∀ v ∈ values, ∀ budget x rest, jsonToIpld parse v depth budget = .ok (x, rest) →
      total v ≤ (encode x).length + wrapped v)
    {budget rest : Nat} {xs : List Ipld}
    (h : jsonItems parse values depth budget = .ok (xs, rest)) :
    totalItems values ≤ (DagCbor.encodeItems xs).length + wrappedItems values := by
  induction values generalizing xs budget with
  | nil => exact Nat.zero_le _
  | cons v values ih =>
      rw [List.forall_mem_cons] at hvalues
      obtain ⟨x, left, items, hx, hitems, rfl⟩ := jsonItems_cons_eq_ok.mp h
      have h₁ := hvalues.1 _ _ _ hx
      have h₂ := ih hvalues.2 hitems
      rw [encode] at h₁
      rw [totalItems, wrappedItems, DagCbor.encodeItems, List.length_append]
      omega

/-- Each field within its encoding, so the object. -/
theorem total_le_fields {values : List (Bytes × Json)} {depth : Nat}
    (hvalues : ∀ f ∈ values, ∀ budget x rest, jsonToIpld parse f.2 depth budget = .ok (x, rest) →
      total f.2 ≤ (encode x).length + wrapped f.2)
    {budget rest : Nat} {xs : List (Bytes × Ipld)}
    (h : jsonFields parse values depth budget = .ok (xs, rest)) :
    totalFields values ≤ (xs.map fun f =>
      (DagCbor.chunk 3 f.1).length + (encode f.2).length).sum + wrappedFields values := by
  induction values generalizing xs budget with
  | nil => exact Nat.zero_le _
  | cons f values ih =>
      obtain ⟨k, v⟩ := f
      rw [List.forall_mem_cons] at hvalues
      obtain ⟨-, x, left, fields, hx, hfields, rfl⟩ := jsonFields_cons_eq_ok.mp h
      have h₁ := hvalues.1 _ _ _ hx
      have h₂ := ih hvalues.2 hfields
      have h₃ := lt_length_chunk 3 k
      rw [totalFields, wrappedFields, List.map_cons, List.sum_cons]
      simp only at h₁ ⊢
      omega

/-- Only the text of a wrapper can be longer than what it is encoded to. -/
theorem total_le_length (v : Json) : ∀ depth budget x rest,
    jsonToIpld parse v depth budget = .ok (x, rest) → total v ≤ (encode x).length + wrapped v := by
  induction v using Json.inductOn with
  | null | bool b | integer n =>
      intro depth budget x rest h
      exact Nat.le_add_right_of_le (length_encode_pos x)
  | float bits =>
      intro depth budget x rest h
      exact absurd (jsonToIpld_eq_ok.mp h).2.2 id
  | string s =>
      intro depth budget x rest h
      obtain ⟨-, -, rfl, -⟩ := jsonToIpld_eq_ok.mp h
      have := lt_length_chunk 3 s
      rw [total, encode, DagCbor.encode]
      omega
  | array values ih =>
      intro depth budget x rest h
      obtain ⟨-, -, items, hitems, rfl⟩ := jsonToIpld_eq_ok.mp h
      have h₁ := total_le_items (fun v hv => ih v hv (depth + 1)) hitems
      have h₂ := DagCbor.length_head_pos 4 items.length
      rw [total, wrapped, encode, DagCbor.encode, List.length_append]
      omega
  | object fields ih =>
      intro depth budget x rest h
      have hpos := length_encode_pos x
      rcases hpayload : payload fields with _ | v
      · obtain ⟨hlink, hbytes⟩ := Option.or_eq_none_iff.mp hpayload
        obtain ⟨-, -, h⟩ := jsonToIpld_eq_ok.mp h
        simp only [hlink, hbytes] at h
        obtain ⟨fs, hfields, rfl⟩ := h
        have h₁ := total_le_fields (fun f hf => ih f hf (depth + 1)) hfields
        have h₂ := DagCbor.length_head_pos 5 fs.length
        rw [total, wrapped, hpayload, Option.elim_none, Option.elim_none, length_encode_map]
        omega
      · rw [total, wrapped, hpayload, Option.elim_some, Option.elim_some]
        omega

/-! ## What a put refuses -/

variable {H : Sha256}

/-- A put that only the charge of its record can stop: the path and the type are right, under a
budget that is enough the record converts to `x`, the encoding of `x` is within the limit on
records, and the set has room for it. -/
structure Fitting (parse : Bytes → Option Cid) (path : Bytes) (value : Json) (x : Ipld)
    (s : RecordSet) : Prop where
  path_ok : Syntax.path path = .ok ()
  type_ok : (value.get (str "$type")).bind Json.asStr = (Bytes.splitOnce 47 path).map Prod.fst
  converts : ∃ budget rest, jsonToIpld parse value 0 budget = .ok (x, rest)
  length_le : (encode x).length ≤ maxRecordBytes
  count : path ∈ s.records ∨ s.len < maxRecords
  aggregate : s.encodedBytes - s.bytesAt path + (encode x).length ≤ maxTotalRecordBytes

/-- A value has one result, whatever the budget. -/
theorem result_unique {v : Json} {depth budget budget' rest rest' : Nat} {x y : Ipld}
    (hx : jsonToIpld parse v depth budget = .ok (x, rest))
    (hy : jsonToIpld parse v depth budget' = .ok (y, rest')) : x = y := by
  have hacceptx := accepted_of_jsonToIpld _ _ _ _ _ hx
  have haccepty := accepted_of_jsonToIpld _ _ _ _ _ hy
  obtain ⟨z, hz⟩ := hacceptx.wellFormed.converts
  have hxz := hz budget (Nat.le.intro hacceptx.total_add)
  have hyz := hz budget' (Nat.le.intro haccepty.total_add)
  rw [hx] at hxz
  rw [hy] at hyz
  exact (Prod.mk.inj (Except.ok.inj hxz)).1.trans (Prod.mk.inj (Except.ok.inj hyz)).1.symm

/-- A put that fits succeeds when the total of its record is within the limit. -/
theorem Fitting.put_ok_iff {path : Bytes} {value : Json} {x : Ipld} {s : RecordSet}
    (h : Fitting parse path value x s) (hs : s.Valid H parse) :
    (∃ cid, (put H parse path value s).1 = .ok cid) ↔ total value ≤ maxRecordBytes := by
  obtain ⟨budget, rest, hx⟩ := h.converts
  have haccept := accepted_of_jsonToIpld _ _ _ _ _ hx
  constructor
  · rintro ⟨cid, hput⟩
    obtain ⟨record, hrecord, -⟩ := put_eq_ok.mp (Prod.ext hput rfl)
    obtain ⟨y, left, hy, -⟩ := hrecord.converts
    exact Nat.le.intro (accepted_of_jsonToIpld _ _ _ _ _ hy).total_add
  · intro htotal
    obtain ⟨y, hy⟩ := haccept.wellFormed.converts
    have hy := hy _ htotal
    obtain rfl := result_unique hx hy
    refine ⟨cidFor H (encode x), ?_⟩
    have hadmissible : Admissible H parse path value ⟨cidFor H (encode x), encode x⟩ :=
      ⟨h.path_ok, h.type_ok, ⟨x, _, hy, rfl⟩, h.length_le⟩
    exact congrArg Prod.fst (put_eq_ok.mpr
      ⟨_, hadmissible, h.count, hs.bytesAt_le path, h.aggregate, rfl, rfl⟩)

/-- **What the budget of a put rejects.** A put that fits succeeds exactly when the charge of its
record, with the texts of the wrappers in it, is within the limit on encoded records. The charge is
at most the length of the encoding and of these texts, so that a record without links and bytes is
never rejected for it. -/
theorem put_iff_total (H : Sha256) (parse : Bytes → Option Cid) (calls : List Call) (path : Bytes)
    (value : Json) (x : Ipld)
    (h : Fitting parse path value x (runCalls H parse calls RecordSet.new)) :
    ((∃ cid, (put H parse path value (runCalls H parse calls RecordSet.new)).1 = .ok cid) ↔
      total value ≤ maxRecordBytes) ∧
    total value ≤ (encode x).length + wrapped value ∧
    (wrapped value = 0 → total value ≤ maxRecordBytes) := by
  obtain ⟨budget, rest, hx⟩ := h.converts
  have htotal := total_le_length value _ _ _ _ hx
  refine ⟨h.put_ok_iff (valid_runCalls valid_new calls), htotal, fun hwrapped => ?_⟩
  have := h.length_le
  omega

/-! ## A record that fits and is refused -/

/-- The path of a post. -/
def postPath : Bytes := str "app.bsky.feed.post/3jzfcijpj2z2a"

/-- A post with some bytes. -/
def blob (b : Bytes) : Json :=
  .object [(str "$type", .string (str "app.bsky.feed.post")),
    (str "data", .object [(str "$bytes", .string (Base64.encode Base64.standard b))])]

/-- What it converts to. -/
def blobIpld (b : Bytes) : Ipld :=
  .map [(str "$type", .string (str "app.bsky.feed.post")), (str "data", .bytes b)]

/-- The key of the sample is that of no wrapper. -/
theorem data_ne : str "data" ≠ str "$link" ∧ str "data" ≠ str "$bytes" := by decide

/-- The value of the sample may be stored. -/
theorem storable_blobIpld (b : Bytes) : Storable 0 (blobIpld b) := by
  refine .map (Nat.zero_le _) ?_ ?_ ?_
  · exact List.pairwise_pair.mpr (show compare (str "$type") (str "data") = .lt by decide +kernel)
  · rw [List.forall_mem_cons, List.forall_mem_singleton]
    exact ⟨by decide, data_ne⟩
  · rw [List.forall_mem_cons, List.forall_mem_singleton]
    exact ⟨.string _ (by decide), .bytes _ (by decide)⟩

/-- It costs what its text costs. -/
theorem converts_blob (b : Bytes) :
    jsonToIpld Cid.ofBase32 (blob b) 0 (cost (blobIpld b)) =
      .ok (blobIpld b, cost (blobIpld b) - cost (blobIpld b)) :=
  jsonToIpld_toJson parsesText_ofBase32 (storable_blobIpld b) _ (le_refl _)

/-- The encoding adds at most 40 bytes to those it holds. -/
theorem length_encode_blobIpld {b : Bytes} (hb : b.length < 65536 * 65536) :
    (encode (blobIpld b)).length ≤ b.length + 40 := by
  have hhead : (DagCbor.head 2 b.length).length ≤ 5 := by
    unfold DagCbor.head
    split_ifs <;> simp
  have htype : (DagCbor.chunk 3 (str "$type")).length +
      (encode (.string (str "app.bsky.feed.post"))).length = 25 := by decide +kernel
  have hmap : (DagCbor.head 5 2).length = 1 := rfl
  have hdata : (DagCbor.chunk 3 (str "data")).length = 5 := by decide +kernel
  have hbytes : (encode (.bytes b)).length = (DagCbor.head 2 b.length).length + b.length := by
    rw [encode, DagCbor.encode, DagCbor.chunk, List.length_append]
  rw [blobIpld, length_encode_map]
  simp only [List.length_cons, List.length_nil, Nat.zero_add, Nat.reduceAdd, List.map_cons,
    List.map_nil, List.sum_cons, List.sum_nil, hmap, htype, hdata, hbytes]
  omega

/-- Base64 is longer than what it stands for. -/
theorem lt_total_blob (b : Bytes) : b.length + b.length / 3 < total (blob b) := by
  have hkeys : payload [(str "$type", Json.string (str "app.bsky.feed.post")), (str "data",
      Json.object [(str "$bytes", .string (Base64.encode Base64.standard b))])] = none := by
    refine payload_eq_none.mpr ?_
    rw [List.forall_mem_cons, List.forall_mem_singleton]
    exact ⟨by decide, data_ne⟩
  have hlength := Base64.length_encode Base64.standard b
  rw [blob, total, hkeys, Option.elim_none, totalFields, totalFields, total, total, payload_bytes,
    Option.elim_some, Json.asStr, Option.elim_some]
  omega

/-- Within 900,000 bytes only the budget can refuse it. -/
theorem fitting_blob {b : Bytes} (hb : b.length ≤ 900000) :
    Fitting Cid.ofBase32 postPath (blob b) (blobIpld b) RecordSet.new := by
  have hlength := length_encode_blobIpld (b := b) (by omega)
  have htype : ((blob b).get (str "$type")).bind Json.asStr = some (str "app.bsky.feed.post") := rfl
  have hzero : RecordSet.new.encodedBytes = 0 := rfl
  refine ⟨by decide +kernel, ?_, ⟨_, _, converts_blob b⟩, ?_, .inr (by decide), ?_⟩
  · rw [htype]
    decide +kernel
  · rw [maxRecordBytes]
    omega
  · rw [hzero, maxTotalRecordBytes]
    omega

/-- A record of at most 800040 bytes is refused: its base64 text has more than a million. -/
theorem put_blob_refused :
    Fitting Cid.ofBase32 postPath (blob (List.replicate 800000 0))
      (blobIpld (List.replicate 800000 0)) RecordSet.new ∧
    ∀ cid, (put sha2 Cid.ofBase32 postPath (blob (List.replicate 800000 0)) RecordSet.new).1 ≠
      .ok cid := by
  have hlength : (List.replicate 800000 (0 : UInt8)).length = 800000 := List.length_replicate
  have hfitting := fitting_blob (b := List.replicate 800000 0) (by rw [hlength]; decide)
  refine ⟨hfitting, fun cid hput => ?_⟩
  have htotal := (hfitting.put_ok_iff valid_new).mp ⟨cid, hput⟩
  have hlt := lt_total_blob (List.replicate 800000 0)
  rw [hlength] at hlt
  rw [maxRecordBytes] at htotal
  omega

/-- A short one is accepted. -/
theorem put_iff_total_blob : ∃ cid,
    (put sha2 Cid.ofBase32 postPath (blob [1, 2, 3]) (runCalls sha2 Cid.ofBase32 [] .new)).1 =
      .ok cid :=
  (put_iff_total sha2 Cid.ofBase32 [] postPath (blob [1, 2, 3]) (blobIpld [1, 2, 3])
    (fitting_blob (by decide))).1.mpr (by decide +kernel)

end PurpleSky.Repo
