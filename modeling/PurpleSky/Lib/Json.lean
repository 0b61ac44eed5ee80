import PurpleSky.Lib.Bytes

/-!
# JSON values

A parsed JSON value: numbers are integers or finite floats, an object is the list of its fields in
key order, as in an ordered map. `Json.Sorted` says that this order is strict in every object.
`record` writes the fields of a record type, and `fieldsOf` reads them.
-/

namespace PurpleSky

/-- A JSON value. A float is its IEEE bit pattern. -/
inductive Json where
  | null
  | bool (b : Bool)
  | integer (n : Int)
  | float (bits : UInt64)
  | string (s : Bytes)
  | array (values : List Json)
  | object (fields : List (Bytes × Json))
  deriving Repr

namespace Json

/-- Induction with the hypothesis for every item and every field at once. -/
theorem inductOn {P : Json → Prop} (v : Json) (null : P .null) (bool : ∀ b, P (.bool b))
    (integer : ∀ n, P (.integer n)) (float : ∀ bits, P (.float bits))
    (string : ∀ s, P (.string s)) (array : ∀ values, (∀ w ∈ values, P w) → P (.array values))
    (object : ∀ fields, (∀ f ∈ fields, P f.2) → P (.object fields)) : P v :=
  match v with
  | .null => null
  | .bool b => bool b
  | .integer n => integer n
  | .float bits => float bits
  | .string s => string s
  | .array values => array values fun w hw => by
      have := List.sizeOf_lt_of_mem hw
      exact inductOn w null bool integer float string array object
  | .object fields => object fields fun (k, w) hf => by
      have := List.sizeOf_lt_of_mem hf
      have : sizeOf w < sizeOf (k, w) := by simp
      exact inductOn w null bool integer float string array object
termination_by sizeOf v

/-- The keys of every object in a value ascend strictly. -/
inductive Sorted : Json → Prop where
  | null : Sorted .null
  | bool (b) : Sorted (.bool b)
  | integer (n) : Sorted (.integer n)
  | float (bits) : Sorted (.float bits)
  | string (s) : Sorted (.string s)
  | array {values} : (∀ v ∈ values, Sorted v) → Sorted (.array values)
  | object {fields} : fields.Pairwise (fun f g => compare f.1 g.1 = .lt) →
      (∀ f ∈ fields, Sorted f.2) → Sorted (.object fields)

/-- The text of a string. -/
def asStr : Json → Option Bytes
  | .string s => some s
  | _ => none

/-- Only a string is read as one. -/
theorem asStr_eq_some {v : Json} {s : Bytes} : v.asStr = some s ↔ v = .string s := by
  cases v <;> simp [asStr]

/-- The number of an integer in the range of sixty-four signed bits. -/
def asI64 : Json → Option Int
  | .integer n => if -9223372036854775808 ≤ n ∧ n < 9223372036854775808 then some n else none
  | _ => none

/-- A field of an object. -/
def get (v : Json) (key : Bytes) : Option Json :=
  match v with
  | .object fields => fields.lookup key
  | _ => none

/-- A field of an object that was read as a map: the last of its name. -/
def last (v : Json) (key : Bytes) : Option Json :=
  match v with
  | .object fields => fields.reverse.lookup key
  | _ => none

/-- The number of an integer in the range of sixty-four unsigned bits. -/
def asU64 : Json → Option Nat
  | .integer n => if 0 ≤ n ∧ n < 18446744073709551616 then some n.toNat else none
  | _ => none

/-- An integer of sixty-four bits without a sign is read as it is. -/
theorem asU64_integer {n : Nat} (h : n < 18446744073709551616) :
    asU64 (.integer n) = some n := by
  have hn : (0 : Int) ≤ n ∧ (n : Int) < 18446744073709551616 := by omega
  rw [asU64, if_pos hn, Int.toNat_natCast]

/-- What is read fits in sixty-four bits. -/
theorem lt_of_asU64 {v : Json} {n : Nat} (h : asU64 v = some n) : n < 18446744073709551616 := by
  unfold asU64 at h
  split at h
  · split_ifs at h with hn
    obtain rfl := Option.some.inj h
    omega
  · cases h

/-- The value of a boolean. -/
def asBool : Json → Option Bool
  | .bool b => some b
  | _ => none

/-! ## Records -/

/-- The only field of a name. -/
def only (fields : List (Bytes × Json)) (name : Bytes) : Option Json :=
  match fields.filter fun f => f.1 = name with
  | [(_, v)] => some v
  | _ => none

/-- A record as the object of its fields. -/
def record (names : List Bytes) (values : List Json) : Json := .object (names.zip values)

/-- The values of the fields of a record, in the order of their names: from an object with each of
them once, or from an array with as many items. With `closed` other fields are not allowed. -/
def fieldsOf (closed : Bool) (names : List Bytes) : Json → Option (List Json)
  | .object fields =>
      if closed && !(fields.all fun f => names.contains f.1) then none
      else names.mapM (only fields)
  | .array values => if values.length = names.length then some values else none
  | _ => none

/-- A field of distinct fields is the only one of its name. -/
theorem only_of_mem {fields : List (Bytes × Json)} (hnd : (fields.map Prod.fst).Nodup)
    {f : Bytes × Json} (hf : f ∈ fields) : only fields f.1 = some f.2 := by
  induction fields with
  | nil => cases hf
  | cons g fields ih =>
      obtain ⟨hg, hnd⟩ := List.nodup_cons.mp hnd
      rcases List.mem_cons.mp hf with rfl | hf
      · have hrest : fields.filter (fun h => h.1 = f.1) = [] := by
          apply List.filter_eq_nil_iff.mpr
          intro h hh hk
          exact hg (List.mem_map.mpr ⟨h, hh, of_decide_eq_true hk⟩)
        simp [only, hrest]
      · have hne : g.1 ≠ f.1 := fun h => hg (List.mem_map.mpr ⟨f, hf, h.symm⟩)
        have := ih hnd hf
        unfold only at this ⊢
        rw [List.filter_cons_of_neg (by simpa using hne), this]

/-- Distinct fields are all found. -/
theorem mapM_only {fields : List (Bytes × Json)} (hnd : (fields.map Prod.fst).Nodup)
    {l : List (Bytes × Json)} (hl : l ⊆ fields) :
    (l.map Prod.fst).mapM (only fields) = some (l.map Prod.snd) := by
  induction l with
  | nil => rfl
  | cons f l ih =>
      obtain ⟨hf, hl⟩ := List.cons_subset.mp hl
      rw [List.map_cons, List.mapM_cons, only_of_mem hnd hf, ih hl]
      rfl

/-- An object with exactly the fields of a record reads back, in whatever order they stand. -/
theorem fieldsOf_object (closed : Bool) {fields l : List (Bytes × Json)} (hl : l ⊆ fields)
    (hf : fields ⊆ l) (hnd : (fields.map Prod.fst).Nodup) :
    fieldsOf closed (l.map Prod.fst) (.object fields) = some (l.map Prod.snd) := by
  have hall : (fields.all fun f => (l.map Prod.fst).contains f.1) = true := by
    rw [List.all_eq_true]
    intro f hm
    exact List.contains_iff_mem.mpr (List.mem_map.mpr ⟨f, hf hm, rfl⟩)
  rw [fieldsOf, hall, mapM_only hnd hl]
  simp

/-- A written record reads back. -/
theorem fieldsOf_record (closed : Bool) {names : List Bytes} (hnd : names.Nodup)
    {values : List Json} (hlen : values.length = names.length) :
    fieldsOf closed names (record names values) = some values := by
  have hfst : (names.zip values).map Prod.fst = names := List.map_fst_zip hlen.ge
  have hsnd : (names.zip values).map Prod.snd = values := List.map_snd_zip hlen.le
  have h := fieldsOf_object closed (List.Subset.refl (names.zip values)) (List.Subset.refl _)
    (hfst.symm ▸ hnd)
  rw [hfst, hsnd] at h
  exact h

end Json

end PurpleSky
