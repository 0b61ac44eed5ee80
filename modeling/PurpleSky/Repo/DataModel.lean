import PurpleSky.Lib.Base64
import PurpleSky.Lib.Except
import PurpleSky.Lib.Json
import PurpleSky.Repo.Basic

/-!
# From JSON to IPLD (`json_to_ipld`)

`jsonToIpld` converts a record's JSON under a nesting limit and a byte budget. `{"$link": ..}` and
`{"$bytes": ..}` are wrappers for links and bytes, checked for their canonical form.

The parser of CID texts is a parameter; what the statements need of it is `ParsesText`.

* `toJson` renders a result, `EqUpToPadding` compares values without the `=` of `$bytes` strings,
  `Storable` says what a result looks like.
* **`faithful_of_jsonToIpld`**: what is accepted is the rendering of its result, up to padding.
* **`jsonToIpld_toJson`**: what is storable has an accepted rendering.
* **`jsonToIpld_faithful`** puts the two together.
-/

namespace PurpleSky.Repo

/-- The largest integer a JavaScript number holds exactly. -/
def maxSafeInteger : Int := 9007199254740991

/-- Take an amount from the budget. -/
def charge (budget amount : Nat) : Except Error Nat :=
  if amount ≤ budget then .ok (budget - amount) else .error (.limit "record bytes")

/-- A CID a record may link to: version 1, raw or DAG-CBOR, SHA-256. -/
def Linkable (c : Cid) : Prop :=
  c.version = .v1 ∧ (c.codec = 0x55 ∨ c.codec = 0x71) ∧ c.hash.code = 0x12 ∧
    c.hash.digest.length = 32

instance (c : Cid) : Decidable (Linkable c) := inferInstanceAs (Decidable (_ ∧ _ ∧ _ ∧ _))

/-- The parser reads the canonical text of every linkable CID. -/
def ParsesText (parse : Bytes → Option Cid) : Prop := ∀ c, Linkable c → parse c.text = some c

/-- The number of an integer value, in the safe range. -/
def safeInteger (value : Json) : Except Error Int :=
  match value.asI64 with
  | some n =>
      if -maxSafeInteger ≤ n ∧ n ≤ maxSafeInteger then .ok n
      else .error (.invalidRecord "only safe signed JSON integers are supported")
  | none => .error (.invalidRecord "only safe signed JSON integers are supported")

/-- The link of a `$link` wrapper with its budget. -/
def linkWrapper (parse : Bytes → Option Cid) (fields : List (Bytes × Json)) (link : Json)
    (budget : Nat) : Except Error (Ipld × Nat) := do
  if fields.length ≠ 1 then .error (.invalidRecord "$link wrapper has extra fields")
  let some encoded := link.asStr | .error (.invalidRecord "$link must be a CID string")
  if encoded.length > 128 then .error (.invalidRecord "$link CID is too long")
  let budget ← charge budget encoded.length
  let some cid := parse encoded | .error (.invalidRecord "invalid $link CID")
  if Linkable cid ∧ cid.text = encoded then pure (.link cid, budget)
  else .error (.invalidRecord
    "$link must be canonical base32 CIDv1 with raw or DAG-CBOR codec and SHA-256")

/-- The bytes of a `$bytes` wrapper with its budget. Padding is optional, spare bits are not. -/
def bytesWrapper (fields : List (Bytes × Json)) (bytes : Json) (budget : Nat) :
    Except Error (Ipld × Nat) := do
  if fields.length ≠ 1 then .error (.invalidRecord "$bytes wrapper has extra fields")
  let some encoded := bytes.asStr | .error (.invalidRecord "$bytes must be base64")
  let budget ← charge budget encoded.length
  let some b := Base64.decode Base64.standard .indifferent encoded
    | .error (.invalidRecord "invalid base64")
  pure (.bytes b, budget)

/-- What a value costs before its parts. -/
def baseCharge : Json → Nat
  | .string s => s.length + 1
  | _ => 1

mutual

/-- Convert a value at a depth. The budget left over is returned with the result.
Source: `lib.rs`, `json_to_ipld` -/
def jsonToIpld (parse : Bytes → Option Cid) (value : Json) (depth budget : Nat) :
    Except Error (Ipld × Nat) := do
  if depth > maxRecordDepth then .error (.limit "record nesting")
  let budget ← charge budget (baseCharge value)
  match value with
  | .null => pure (.null, budget)
  | .bool v => pure (.bool v, budget)
  | .string v => pure (.string v, budget)
  | .integer n => pure (.integer (← safeInteger (.integer n)), budget)
  | .float bits => pure (.integer (← safeInteger (.float bits)), budget)
  | .array values =>
      let (items, budget) ← jsonItems parse values (depth + 1) budget
      pure (.list items, budget)
  | .object values =>
      match values.lookup (str "$link") with
      | some link => linkWrapper parse values link budget
      | none =>
          match values.lookup (str "$bytes") with
          | some bytes => bytesWrapper values bytes budget
          | none =>
              let (fields, budget) ← jsonFields parse values (depth + 1) budget
              pure (.map fields, budget)

/-- The items of an array in turn. -/
def jsonItems (parse : Bytes → Option Cid) :
    List Json → Nat → Nat → Except Error (List Ipld × Nat)
  | [], _, budget => .ok ([], budget)
  | v :: values, depth, budget => do
      let (x, budget) ← jsonToIpld parse v depth budget
      let (items, budget) ← jsonItems parse values depth budget
      pure (x :: items, budget)

/-- The fields of an object in turn. They come in key order and are filed in key order. -/
def jsonFields (parse : Bytes → Option Cid) :
    List (Bytes × Json) → Nat → Nat → Except Error (List (Bytes × Ipld) × Nat)
  | [], _, budget => .ok ([], budget)
  | (k, v) :: values, depth, budget => do
      let budget ← charge budget k.length
      let (x, budget) ← jsonToIpld parse v depth budget
      let (fields, budget) ← jsonFields parse values depth budget
      pure ((k, x) :: fields, budget)

end

/-! ## When a conversion succeeds -/

theorem charge_eq_ok {budget amount rest : Nat} :
    charge budget amount = .ok rest ↔ amount ≤ budget ∧ rest = budget - amount := by
  unfold charge
  split_ifs with h
  · simp [h, eq_comm]
  · simp [h]

theorem safeInteger_eq_ok {value : Json} {n : Int} :
    safeInteger value = .ok n ↔
      value = .integer n ∧ -maxSafeInteger ≤ n ∧ n ≤ maxSafeInteger := by
  unfold safeInteger maxSafeInteger
  cases value with
  | integer m =>
      simp only [Json.asI64]
      split_ifs with h64
      · simp only
        split_ifs with hsafe
        · constructor
          · intro h
            obtain rfl := Except.ok.inj h
            exact ⟨rfl, hsafe⟩
          · rintro ⟨hm, -⟩
            rw [Json.integer.inj hm]
        · simp only [false_iff, not_and]
          intro hm
          rw [← Json.integer.inj hm]
          exact fun h₁ h₂ => hsafe ⟨h₁, h₂⟩
      · simp only [false_iff, not_and, Json.integer.injEq]
        rintro rfl h₁
        omega
  | _ => simp [Json.asI64]

/-- A link wrapper holds the canonical text of a linkable CID, and nothing else. -/
theorem linkWrapper_eq_ok {parse : Bytes → Option Cid} {fields : List (Bytes × Json)} {link : Json}
    {budget : Nat} {x : Ipld} {rest : Nat} :
    linkWrapper parse fields link budget = .ok (x, rest) ↔
      fields.length = 1 ∧ ∃ c, link = .string c.text ∧ c.text.length ≤ 128 ∧
        c.text.length ≤ budget ∧ parse c.text = some c ∧ Linkable c ∧ x = .link c ∧
        rest = budget - c.text.length := by
  constructor
  · intro h
    unfold linkWrapper at h
    split_ifs at h with hlen
    · cases h
    rcases hlink : link.asStr with _ | encoded
    · simp only [hlink] at h
      cases h
    simp only [hlink] at h
    split_ifs at h with h128
    · cases h
    obtain ⟨left, hcharge, h⟩ := bind_eq_ok.mp h
    obtain ⟨hle, rfl⟩ := charge_eq_ok.mp hcharge
    rcases hparse : parse encoded with _ | c
    · simp only [hparse] at h
      cases h
    simp only [hparse] at h
    split_ifs at h with hcanon
    obtain ⟨hc, rfl⟩ := hcanon
    obtain ⟨rfl, rfl⟩ := Prod.mk.inj (pure_eq_ok.mp h)
    exact ⟨not_not.mp hlen, c, Json.asStr_eq_some.mp hlink, by omega, hle, hparse, hc, rfl, rfl⟩
  · rintro ⟨hlen, c, rfl, h128, hle, hparse, hc, rfl, rfl⟩
    have hcharge := charge_eq_ok.mpr ⟨hle, rfl⟩
    unfold linkWrapper
    rw [if_neg (not_not.mpr hlen)]
    simp only [Json.asStr]
    rw [if_neg (by omega)]
    refine bind_eq_ok.mpr ⟨_, hcharge, ?_⟩
    simp only [hparse]
    rw [if_pos ⟨hc, trivial⟩]
    rfl

/-- A bytes wrapper holds a base64 text with any part of its padding, and nothing else. -/
theorem bytesWrapper_eq_ok {fields : List (Bytes × Json)} {bytes : Json} {budget : Nat} {x : Ipld}
    {rest : Nat} :
    bytesWrapper fields bytes budget = .ok (x, rest) ↔
      fields.length = 1 ∧ ∃ b k, bytes = .string (Base64.encode Base64.standard b ++
          List.replicate k Base64.pad) ∧
        Base64.Padding.indifferent.Allows b k ∧
        (Base64.encode Base64.standard b ++ List.replicate k Base64.pad).length ≤ budget ∧
        x = .bytes b ∧ rest = budget -
          (Base64.encode Base64.standard b ++ List.replicate k Base64.pad).length := by
  constructor
  · intro h
    unfold bytesWrapper at h
    split_ifs at h with hlen
    · cases h
    rcases hbytes : bytes.asStr with _ | encoded
    · simp only [hbytes] at h
      cases h
    simp only [hbytes] at h
    obtain ⟨left, hcharge, h⟩ := bind_eq_ok.mp h
    obtain ⟨hle, rfl⟩ := charge_eq_ok.mp hcharge
    rcases hdecode : Base64.decode Base64.standard .indifferent encoded with _ | b
    · simp only [hdecode] at h
      cases h
    simp only [hdecode] at h
    obtain ⟨rfl, rfl⟩ := Prod.mk.inj (pure_eq_ok.mp h)
    obtain ⟨k, rfl, hall⟩ := (Base64.decode_eq_some_iff _).mp hdecode
    exact ⟨not_not.mp hlen, b, k, Json.asStr_eq_some.mp hbytes, hall, hle, rfl, rfl⟩
  · rintro ⟨hlen, b, k, rfl, hall, hle, rfl, rfl⟩
    have hcharge := charge_eq_ok.mpr ⟨hle, rfl⟩
    have hdecode := (Base64.decode_eq_some_iff Base64.standard).mpr ⟨k, rfl, hall⟩
    unfold bytesWrapper
    rw [if_neg (not_not.mpr hlen)]
    simp only [Json.asStr]
    refine bind_eq_ok.mpr ⟨_, hcharge, ?_⟩
    simp only [hdecode]
    rfl

/-- When a conversion succeeds, by the form of the value. -/
theorem jsonToIpld_eq_ok {parse : Bytes → Option Cid} {value : Json} {depth budget : Nat} {x : Ipld}
    {rest : Nat} :
    jsonToIpld parse value depth budget = .ok (x, rest) ↔
      depth ≤ maxRecordDepth ∧ baseCharge value ≤ budget ∧
        match value with
        | .null => x = .null ∧ rest = budget - 1
        | .bool b => x = .bool b ∧ rest = budget - 1
        | .string s => x = .string s ∧ rest = budget - (s.length + 1)
        | .integer n =>
            (-maxSafeInteger ≤ n ∧ n ≤ maxSafeInteger) ∧ x = .integer n ∧ rest = budget - 1
        | .float _ => False
        | .array values => ∃ items,
            jsonItems parse values (depth + 1) (budget - 1) = .ok (items, rest) ∧ x = .list items
        | .object fields =>
            match fields.lookup (str "$link"), fields.lookup (str "$bytes") with
            | some link, _ => linkWrapper parse fields link (budget - 1) = .ok (x, rest)
            | none, some bytes => bytesWrapper fields bytes (budget - 1) = .ok (x, rest)
            | none, none => ∃ fs,
                jsonFields parse fields (depth + 1) (budget - 1) = .ok (fs, rest) ∧
                  x = .map fs := by
  have henter : ∀ f : Nat → Except Error (Ipld × Nat),
      (if depth > maxRecordDepth then Except.error (.limit "record nesting")
        else charge budget (baseCharge value) >>= f) = .ok (x, rest) ↔
      depth ≤ maxRecordDepth ∧ baseCharge value ≤ budget ∧
        f (budget - baseCharge value) = .ok (x, rest) := by
    intro f
    rw [ite_error_eq_ok, not_lt, bind_eq_ok]
    constructor
    · rintro ⟨hdepth, left, hcharge, hf⟩
      obtain ⟨hle, rfl⟩ := charge_eq_ok.mp hcharge
      exact ⟨hdepth, hle, hf⟩
    · rintro ⟨hdepth, hle, hf⟩
      exact ⟨hdepth, _, charge_eq_ok.mpr ⟨hle, rfl⟩, hf⟩
  have hpair : ∀ {a : Ipld} {b : Nat}, (pure (a, b) : Except Error (Ipld × Nat)) = .ok (x, rest) ↔
      x = a ∧ rest = b := by
    intro a b
    rw [pure_eq_ok, Prod.mk.injEq, eq_comm, @eq_comm _ b]
  unfold jsonToIpld
  refine (henter _).trans (and_congr_right fun _ => and_congr_right fun _ => ?_)
  cases value with
  | null => exact hpair
  | bool b => exact hpair
  | string s => exact hpair
  | integer n =>
      simp only [bind_eq_ok, safeInteger_eq_ok, Json.integer.injEq, hpair, baseCharge]
      constructor
      · rintro ⟨m, ⟨rfl, h₁, h₂⟩, hx⟩
        exact ⟨⟨h₁, h₂⟩, hx⟩
      · rintro ⟨⟨h₁, h₂⟩, hx⟩
        exact ⟨n, ⟨rfl, h₁, h₂⟩, hx⟩
  | float bits =>
      constructor
      · intro h
        obtain ⟨m, hm, -⟩ := bind_eq_ok.mp h
        cases (safeInteger_eq_ok.mp hm).1
      · exact False.elim
  | array values =>
      simp only [bind_eq_ok, Prod.exists, hpair, baseCharge]
      constructor
      · rintro ⟨items, _, h, rfl, rfl⟩
        exact ⟨items, h, rfl⟩
      · rintro ⟨items, h, rfl⟩
        exact ⟨items, _, h, rfl, rfl⟩
  | object fields =>
      simp only [baseCharge]
      rcases fields.lookup (str "$link") with _ | link
      · rcases fields.lookup (str "$bytes") with _ | bytes
        · simp only [bind_eq_ok, Prod.exists, hpair]
          constructor
          · rintro ⟨fs, _, h, rfl, rfl⟩
            exact ⟨fs, h, rfl⟩
          · rintro ⟨fs, h, rfl⟩
            exact ⟨fs, _, h, rfl, rfl⟩
        · exact Iff.rfl
      · exact Iff.rfl

theorem jsonItems_cons_eq_ok {parse : Bytes → Option Cid} {v : Json} {values : List Json}
    {depth budget rest : Nat} {xs : List Ipld} :
    jsonItems parse (v :: values) depth budget = .ok (xs, rest) ↔
      ∃ x left items, jsonToIpld parse v depth budget = .ok (x, left) ∧
        jsonItems parse values depth left = .ok (items, rest) ∧ xs = x :: items := by
  rw [jsonItems]
  simp only [bind_eq_ok, Prod.exists, pure_eq_ok, Prod.mk.injEq]
  constructor
  · rintro ⟨x, left, hx, items, _, hitems, rfl, rfl⟩
    exact ⟨x, left, items, hx, hitems, rfl⟩
  · rintro ⟨x, left, items, hx, hitems, rfl⟩
    exact ⟨x, left, hx, items, _, hitems, rfl, rfl⟩

theorem jsonFields_cons_eq_ok {parse : Bytes → Option Cid} {k : Bytes} {v : Json}
    {values : List (Bytes × Json)} {depth budget rest : Nat} {xs : List (Bytes × Ipld)} :
    jsonFields parse ((k, v) :: values) depth budget = .ok (xs, rest) ↔
      k.length ≤ budget ∧ ∃ x left fields,
        jsonToIpld parse v depth (budget - k.length) = .ok (x, left) ∧
        jsonFields parse values depth left = .ok (fields, rest) ∧ xs = (k, x) :: fields := by
  rw [jsonFields]
  simp only [bind_eq_ok, Prod.exists, pure_eq_ok, Prod.mk.injEq, charge_eq_ok]
  constructor
  · rintro ⟨_, ⟨hk, rfl⟩, x, left, hx, fields, _, hfields, rfl, rfl⟩
    exact ⟨hk, x, left, fields, hx, hfields, rfl⟩
  · rintro ⟨hk, x, left, fields, hx, hfields, rfl⟩
    exact ⟨_, ⟨hk, rfl⟩, x, left, hx, fields, _, hfields, rfl, rfl⟩

/-! ## The rendering back to JSON -/

mutual

/-- The JSON of a value: links and bytes in their wrappers, bytes without padding. -/
def toJson : Ipld → Json
  | .null => .null
  | .bool b => .bool b
  | .integer n => .integer n
  | .string s => .string s
  | .bytes b => .object [(str "$bytes", .string (Base64.encode Base64.standard b))]
  | .list items => .array (toJsonItems items)
  | .map fields => .object (toJsonFields fields)
  | .link c => .object [(str "$link", .string c.text)]

/-- The items of a list. -/
def toJsonItems : List Ipld → List Json
  | [] => []
  | x :: items => toJson x :: toJsonItems items

/-- The fields of a map. -/
def toJsonFields : List (Bytes × Ipld) → List (Bytes × Json)
  | [] => []
  | (k, x) :: fields => (k, toJson x) :: toJsonFields fields

end

mutual

/-- What the JSON of a value takes from a budget. -/
def cost : Ipld → Nat
  | .null | .bool _ | .integer _ => 1
  | .string s => s.length + 1
  | .bytes b => 1 + (Base64.encode Base64.standard b).length
  | .list items => 1 + costItems items
  | .map fields => 1 + costFields fields
  | .link c => 1 + c.text.length

/-- The cost of the items of a list. -/
def costItems : List Ipld → Nat
  | [] => 0
  | x :: items => cost x + costItems items

/-- The cost of the fields of a map. -/
def costFields : List (Bytes × Ipld) → Nat
  | [] => 0
  | (k, x) :: fields => k.length + (cost x + costFields fields)

end

/-- A string without the padding at its end. -/
def stripPadding : Json → Json
  | .string s => .string (s.rdropWhile (· = Base64.pad))
  | v => v

mutual

/-- A value without the padding of its `$bytes` strings. -/
def unpad : Json → Json
  | .array values => .array (unpadItems values)
  | .object fields => .object (unpadFields fields)
  | v => v

/-- The items of an array. -/
def unpadItems : List Json → List Json
  | [] => []
  | v :: values => unpad v :: unpadItems values

/-- The fields of an object. -/
def unpadFields : List (Bytes × Json) → List (Bytes × Json)
  | [] => []
  | (k, v) :: fields =>
      (k, if k = str "$bytes" then stripPadding (unpad v) else unpad v) :: unpadFields fields

end

/-- Equal up to the padding of `$bytes` strings. -/
def EqUpToPadding (v w : Json) : Prop := unpad v = unpad w

/-- A value that conversion can return at a depth: nesting, integers, links and keys are as the
data model has them, and no map has the key of a wrapper. -/
inductive Storable : Nat → Ipld → Prop where
  | null {d} : d ≤ maxRecordDepth → Storable d .null
  | bool {d} (b) : d ≤ maxRecordDepth → Storable d (.bool b)
  | integer {d n} : d ≤ maxRecordDepth → -maxSafeInteger ≤ n → n ≤ maxSafeInteger →
      Storable d (.integer n)
  | string {d} (s) : d ≤ maxRecordDepth → Storable d (.string s)
  | bytes {d} (b) : d ≤ maxRecordDepth → Storable d (.bytes b)
  | list {d items} : d ≤ maxRecordDepth → (∀ x ∈ items, Storable (d + 1) x) →
      Storable d (.list items)
  | map {d fields} : d ≤ maxRecordDepth → fields.Pairwise Ipld.FieldLt →
      (∀ f ∈ fields, f.1 ≠ str "$link" ∧ f.1 ≠ str "$bytes") →
      (∀ f ∈ fields, Storable (d + 1) f.2) → Storable d (.map fields)
  | link {d c} : d ≤ maxRecordDepth → Linkable c → Storable d (.link c)

/-- What is storable at a depth is storable above it. -/
theorem Storable.mono {d : Nat} {x : Ipld} (h : Storable d x) {e : Nat} (he : e ≤ d) :
    Storable e x := by
  induction h generalizing e with
  | null hd => exact .null (he.trans hd)
  | bool b hd => exact .bool b (he.trans hd)
  | integer hd h₁ h₂ => exact .integer (he.trans hd) h₁ h₂
  | string s hd => exact .string s (he.trans hd)
  | bytes b hd => exact .bytes b (he.trans hd)
  | list hd _ ih => exact .list (he.trans hd) fun x hx => ih x hx (Nat.succ_le_succ he)
  | map hd hsorted hkeys _ ih =>
      exact .map (he.trans hd) hsorted hkeys fun f hf => ih f hf (Nat.succ_le_succ he)
  | link hd hc => exact .link (he.trans hd) hc

theorem Storable.sorted {d : Nat} {x : Ipld} (h : Storable d x) : x.Sorted := by
  induction h with
  | null _ => exact .null
  | bool b _ => exact .bool b
  | integer _ _ _ => exact .integer _
  | string s _ => exact .string s
  | bytes b _ => exact .bytes b
  | list _ _ ih => exact .list ih
  | map _ hsorted _ _ ih => exact .map hsorted ih
  | link _ _ => exact .link _

/-! ## Every accepted value is its rendering, up to padding -/

theorem length_toBytes {c : Cid} (h : Linkable c) : c.toBytes.length = 36 := by
  obtain ⟨hversion, hcodec, hcode, hsize⟩ := h
  have hone : ∀ n < 128, (Leb128.encode n).length = 1 := by
    intro n hn
    rw [Leb128.encode_eq, if_pos hn, List.length_singleton]
  have hcodec' : c.codec.toNat < 128 := by
    rcases hcodec with h | h <;> rw [h] <;> decide
  have hcode' : c.hash.code.toNat < 128 := by
    rw [hcode]
    decide
  rw [Cid.toBytes, hversion]
  simp only [Multihash.toBytes, List.length_append, hone 1 (by decide), hone _ hcodec',
    hone _ hcode', hsize, hone 32 (by decide)]

theorem length_text {c : Cid} (h : Linkable c) : c.text.length = 59 := by
  rw [Cid.text, List.length_cons, Base32.length_encode, length_toBytes h]

/-- A wrapper object is its one field. -/
theorem eq_singleton_of_lookup {fields : List (Bytes × Json)} {k : Bytes} {v : Json}
    (hlen : fields.length = 1) (h : fields.lookup k = some v) : fields = [(k, v)] := by
  obtain ⟨⟨k', v'⟩, rfl⟩ := List.length_eq_one_iff.mp hlen
  rw [List.lookup_cons] at h
  by_cases hk : k = k'
  · subst hk
    simp only [BEq.rfl] at h
    rw [Option.some.inj h]
  · have : (k == k') = false := by simpa using hk
    simp only [this, List.lookup_nil] at h
    cases h

theorem bytes_ne_link : str "$link" ≠ str "$bytes" := by decide

theorem unpad_link (s : Bytes) :
    unpad (.object [(str "$link", .string s)]) = .object [(str "$link", .string s)] := by
  simp [unpad, unpadFields, bytes_ne_link]

theorem unpad_bytes (s : Bytes) :
    unpad (.object [(str "$bytes", .string s)]) =
      .object [(str "$bytes", .string (s.rdropWhile (· = Base64.pad)))] := by
  simp [unpad, unpadFields, stripPadding]

/-- What conversion says of an accepted value and its result. -/
structure Faithful (v : Json) (x : Ipld) (depth budget rest : Nat) : Prop where
  storable : Storable depth x
  unpad_eq : unpad v = toJson x
  cost_le : cost x + rest ≤ budget

variable {parse : Bytes → Option Cid}

theorem faithful_items {values : List Json}
    (hvalues : ∀ v ∈ values, ∀ depth budget x rest,
      jsonToIpld parse v depth budget = .ok (x, rest) → Faithful v x depth budget rest)
    {depth budget rest : Nat} {xs : List Ipld}
    (h : jsonItems parse values depth budget = .ok (xs, rest)) :
    (∀ x ∈ xs, Storable depth x) ∧ unpadItems values = toJsonItems xs ∧
      costItems xs + rest ≤ budget := by
  induction values generalizing xs budget with
  | nil =>
      rw [jsonItems] at h
      obtain ⟨rfl, rfl⟩ := Prod.mk.inj (Except.ok.inj h)
      simp [unpadItems, toJsonItems, costItems]
  | cons v values ih =>
      obtain ⟨x, left, items, hx, hitems, rfl⟩ := jsonItems_cons_eq_ok.mp h
      obtain ⟨hs, hu, hc⟩ := hvalues v List.mem_cons_self _ _ _ _ hx
      obtain ⟨hs', hu', hc'⟩ := ih (fun w hw => hvalues w (List.mem_cons_of_mem _ hw)) hitems
      refine ⟨?_, ?_, ?_⟩
      · rw [List.forall_mem_cons]
        exact ⟨hs, hs'⟩
      · rw [unpadItems, toJsonItems, hu, hu']
      · rw [costItems]
        omega

theorem faithful_fields {values : List (Bytes × Json)}
    (hvalues : ∀ f ∈ values, ∀ depth budget x rest,
      jsonToIpld parse f.2 depth budget = .ok (x, rest) → Faithful f.2 x depth budget rest)
    (hkeys : ∀ f ∈ values, f.1 ≠ str "$bytes") {depth budget rest : Nat}
    {xs : List (Bytes × Ipld)} (h : jsonFields parse values depth budget = .ok (xs, rest)) :
    xs.map Prod.fst = values.map Prod.fst ∧ (∀ f ∈ xs, Storable depth f.2) ∧
      unpadFields values = toJsonFields xs ∧ costFields xs + rest ≤ budget := by
  induction values generalizing xs budget with
  | nil =>
      rw [jsonFields] at h
      obtain ⟨rfl, rfl⟩ := Prod.mk.inj (Except.ok.inj h)
      simp [unpadFields, toJsonFields, costFields]
  | cons f values ih =>
      obtain ⟨k, v⟩ := f
      obtain ⟨hk, x, left, fields, hx, hfields, rfl⟩ := jsonFields_cons_eq_ok.mp h
      obtain ⟨hs, hu, hc⟩ := hvalues (k, v) List.mem_cons_self _ _ _ _ hx
      obtain ⟨hmap, hs', hu', hc'⟩ :=
        ih (fun g hg => hvalues g (List.mem_cons_of_mem _ hg))
          (fun g hg => hkeys g (List.mem_cons_of_mem _ hg)) hfields
      have hne : k ≠ str "$bytes" := hkeys (k, v) List.mem_cons_self
      simp only at hu hc
      refine ⟨?_, ?_, ?_, ?_⟩
      · rw [List.map_cons, List.map_cons, hmap]
      · rw [List.forall_mem_cons]
        exact ⟨hs, hs'⟩
      · rw [unpadFields, toJsonFields, if_neg hne, hu, hu']
      · rw [costFields]
        omega

/-- A text field of an object is a text field of its map. -/
theorem lookup_jsonFields {values : List (Bytes × Json)} {depth budget rest : Nat}
    {xs : List (Bytes × Ipld)} (h : jsonFields parse values depth budget = .ok (xs, rest))
    {k s : Bytes} (hk : values.lookup k = some (.string s)) : xs.lookup k = some (.string s) := by
  induction values generalizing xs budget with
  | nil => cases hk
  | cons f values ih =>
      obtain ⟨k', v⟩ := f
      obtain ⟨-, x, left, fields, hx, hfields, rfl⟩ := jsonFields_cons_eq_ok.mp h
      rw [List.lookup_cons] at hk ⊢
      by_cases heq : k = k'
      · have hbeq : (k == k') = true := by simpa using heq
        simp only [hbeq] at hk ⊢
        obtain rfl := Option.some.inj hk
        obtain ⟨-, -, rfl, -⟩ := jsonToIpld_eq_ok.mp hx
        rfl
      · have hbeq : (k == k') = false := by simpa using heq
        simp only [hbeq] at hk ⊢
        exact ih hfields hk

/-- A value with a type converts to a map with that type: it is no wrapper. -/
theorem map_of_type {v : Json} {depth budget rest : Nat} {x : Ipld}
    (h : jsonToIpld parse v depth budget = .ok (x, rest)) {s : Bytes}
    (htype : (v.get (str "$type")).bind Json.asStr = some s) :
    ∃ fields, x = .map fields ∧ fields.lookup (str "$type") = some (.string s) := by
  obtain ⟨w, hget, hw⟩ := Option.bind_eq_some_iff.mp htype
  obtain rfl := Json.asStr_eq_some.mp hw
  cases v with
  | object values =>
      have hlookup : values.lookup (str "$type") = some (.string s) := hget
      have hwrapper : ∀ (k : Bytes) (inner : Json), str "$type" ≠ k → values.length = 1 →
          values.lookup k = some inner → False := by
        intro k inner hne hlen hinner
        obtain rfl := eq_singleton_of_lookup hlen hinner
        have hbeq : (str "$type" == k) = false := by simpa using hne
        simp only [List.lookup_cons, hbeq, List.lookup_nil] at hlookup
        cases hlookup
      obtain ⟨-, -, h⟩ := jsonToIpld_eq_ok.mp h
      rcases hlink : values.lookup (str "$link") with _ | link
      · rcases hbytes : values.lookup (str "$bytes") with _ | bytes
        · simp only [hlink, hbytes] at h
          obtain ⟨fs, hfields, rfl⟩ := h
          exact ⟨fs, rfl, lookup_jsonFields hfields hlookup⟩
        · simp only [hlink, hbytes] at h
          obtain ⟨hlen, -⟩ := bytesWrapper_eq_ok.mp h
          exact absurd hbytes fun hb => hwrapper _ _ (by decide) hlen hb
      · simp only [hlink] at h
        obtain ⟨hlen, -⟩ := linkWrapper_eq_ok.mp h
        exact absurd hlink fun hl => hwrapper _ _ (by decide) hlen hl
  | _ => cases hget

/-- **An accepted value is the rendering of its result, up to padding**; the result is storable and
its rendering costs no more. -/
theorem faithful_of_jsonToIpld (v : Json) : v.Sorted → ∀ depth budget x rest,
    jsonToIpld parse v depth budget = .ok (x, rest) → Faithful v x depth budget rest := by
  induction v using Json.inductOn with
  | null =>
      intro _ depth budget x rest h
      obtain ⟨hd, hb, rfl, rfl⟩ := jsonToIpld_eq_ok.mp h
      exact ⟨.null hd, rfl, by simp only [cost, baseCharge] at hb ⊢; omega⟩
  | bool b =>
      intro _ depth budget x rest h
      obtain ⟨hd, hb, rfl, rfl⟩ := jsonToIpld_eq_ok.mp h
      exact ⟨.bool b hd, rfl, by simp only [cost, baseCharge] at hb ⊢; omega⟩
  | integer n =>
      intro _ depth budget x rest h
      obtain ⟨hd, hb, ⟨h₁, h₂⟩, rfl, rfl⟩ := jsonToIpld_eq_ok.mp h
      exact ⟨.integer hd h₁ h₂, rfl, by simp only [cost, baseCharge] at hb ⊢; omega⟩
  | float bits =>
      intro _ depth budget x rest h
      exact absurd (jsonToIpld_eq_ok.mp h).2.2 id
  | string s =>
      intro _ depth budget x rest h
      obtain ⟨hd, hb, rfl, rfl⟩ := jsonToIpld_eq_ok.mp h
      exact ⟨.string s hd, rfl, by simp only [cost, baseCharge] at hb ⊢; omega⟩
  | array values ih =>
      intro hsorted depth budget x rest h
      obtain ⟨hd, hb, items, hitems, rfl⟩ := jsonToIpld_eq_ok.mp h
      cases hsorted with
      | array hvalues =>
          obtain ⟨hs, hu, hc⟩ := faithful_items (fun v hv => ih v hv (hvalues v hv)) hitems
          refine ⟨.list hd hs, ?_, ?_⟩
          · rw [unpad, toJson, hu]
          · simp only [cost, baseCharge] at hb ⊢
            omega
  | object fields ih =>
      intro hsorted depth budget x rest h
      obtain ⟨hd, hb, h⟩ := jsonToIpld_eq_ok.mp h
      simp only [baseCharge] at hb
      rcases hlink : fields.lookup (str "$link") with _ | link
      · rcases hbytes : fields.lookup (str "$bytes") with _ | bytes
        · -- an ordinary map
          simp only [hlink, hbytes] at h
          obtain ⟨fs, hfields, rfl⟩ := h
          have hkeys : ∀ f ∈ fields, f.1 ≠ str "$link" ∧ f.1 ≠ str "$bytes" := by
            intro f hf
            have h₁ := List.lookup_eq_none_iff.mp hlink f hf
            have h₂ := List.lookup_eq_none_iff.mp hbytes f hf
            exact ⟨fun hk => by simp [hk] at h₁, fun hk => by simp [hk] at h₂⟩
          cases hsorted with
          | object hpair hvalues =>
              obtain ⟨hmap, hs, hu, hc⟩ := faithful_fields
                (fun f hf => ih f hf (hvalues f hf)) (fun f hf => (hkeys f hf).2) hfields
              refine ⟨.map hd ?_ ?_ hs, ?_, ?_⟩
              · unfold Ipld.FieldLt
                rw [← @List.pairwise_map _ _ _ (fun a b : Bytes => compare a b = .lt), hmap,
                  List.pairwise_map]
                exact hpair
              · intro f hf
                have hmem : f.1 ∈ fields.map Prod.fst := hmap ▸ List.mem_map_of_mem hf
                obtain ⟨g, hg, hfg⟩ := List.mem_map.mp hmem
                rw [← hfg]
                exact hkeys g hg
              · rw [unpad, toJson, hu]
              · rw [cost]
                omega
        · -- a bytes wrapper
          simp only [hlink, hbytes] at h
          obtain ⟨hlen, b, k, rfl, -, hle, rfl, rfl⟩ := bytesWrapper_eq_ok.mp h
          obtain rfl := eq_singleton_of_lookup hlen hbytes
          refine ⟨.bytes b hd, ?_, ?_⟩
          · rw [unpad_bytes, Base64.rdropWhile_encode_append, toJson]
          · rw [List.length_append] at hle ⊢
            rw [cost]
            omega
      · -- a link wrapper
        simp only [hlink] at h
        obtain ⟨hlen, c, rfl, -, hle, -, hc, rfl, rfl⟩ := linkWrapper_eq_ok.mp h
        obtain rfl := eq_singleton_of_lookup hlen hlink
        refine ⟨.link hd hc, ?_, ?_⟩
        · rw [unpad_link, toJson]
        · rw [cost]
          omega

/-! ## Every rendering is accepted -/

theorem jsonItems_toJsonItems {items : List Ipld} {depth : Nat}
    (hitems : ∀ x ∈ items, ∀ budget, cost x ≤ budget →
      jsonToIpld parse (toJson x) depth budget = .ok (x, budget - cost x)) :
    ∀ budget, costItems items ≤ budget →
      jsonItems parse (toJsonItems items) depth budget =
        .ok (items, budget - costItems items) := by
  induction items with
  | nil =>
      intro budget _
      rfl
  | cons x items ih =>
      intro budget h
      rw [costItems] at h
      have hx := hitems x List.mem_cons_self budget (by omega)
      have hrest := ih (fun y hy => hitems y (List.mem_cons_of_mem _ hy)) (budget - cost x)
        (by omega)
      rw [toJsonItems, jsonItems_cons_eq_ok]
      refine ⟨x, _, items, hx, ?_, rfl⟩
      rw [hrest, costItems, Nat.sub_sub]

theorem jsonFields_toJsonFields {fields : List (Bytes × Ipld)} {depth : Nat}
    (hfields : ∀ f ∈ fields, ∀ budget, cost f.2 ≤ budget →
      jsonToIpld parse (toJson f.2) depth budget = .ok (f.2, budget - cost f.2)) :
    ∀ budget, costFields fields ≤ budget →
      jsonFields parse (toJsonFields fields) depth budget =
        .ok (fields, budget - costFields fields) := by
  induction fields with
  | nil =>
      intro budget _
      rfl
  | cons f fields ih =>
      intro budget h
      obtain ⟨k, x⟩ := f
      rw [costFields] at h
      have hx := hfields (k, x) List.mem_cons_self (budget - k.length) (by simp only; omega)
      have hrest := ih (fun y hy => hfields y (List.mem_cons_of_mem _ hy))
        (budget - k.length - cost x) (by omega)
      rw [toJsonFields, jsonFields_cons_eq_ok]
      refine ⟨by omega, x, _, fields, hx, ?_, rfl⟩
      rw [hrest, costFields, Nat.sub_sub, Nat.sub_sub]

theorem toJsonFields_eq_map (fields : List (Bytes × Ipld)) :
    toJsonFields fields = fields.map fun f => (f.1, toJson f.2) := by
  induction fields with
  | nil => rfl
  | cons f fields ih => rw [toJsonFields, ih, List.map_cons]

theorem toJsonItems_eq_map (items : List Ipld) : toJsonItems items = items.map toJson := by
  induction items with
  | nil => rfl
  | cons x items ih => rw [toJsonItems, ih, List.map_cons]

/-- A key the fields do not have is not found among their renderings. -/
theorem lookup_toJsonFields {fields : List (Bytes × Ipld)} {k : Bytes}
    (h : ∀ f ∈ fields, f.1 ≠ k) : (toJsonFields fields).lookup k = none := by
  rw [toJsonFields_eq_map, List.lookup_eq_none_iff]
  intro g hg
  obtain ⟨f, hf, rfl⟩ := List.mem_map.mp hg
  simpa using (h f hf).symm

/-- **The rendering of a storable value is accepted**, and converts back to it. -/
theorem jsonToIpld_toJson (hparse : ParsesText parse) {depth : Nat} {x : Ipld}
    (hx : Storable depth x) : ∀ budget, cost x ≤ budget →
      jsonToIpld parse (toJson x) depth budget = .ok (x, budget - cost x) := by
  induction hx with
  | null hd =>
      intro budget h
      exact jsonToIpld_eq_ok.mpr ⟨hd, h, rfl, rfl⟩
  | bool b hd =>
      intro budget h
      exact jsonToIpld_eq_ok.mpr ⟨hd, h, rfl, rfl⟩
  | integer hd h₁ h₂ =>
      intro budget h
      exact jsonToIpld_eq_ok.mpr ⟨hd, h, ⟨h₁, h₂⟩, rfl, rfl⟩
  | string s hd =>
      intro budget h
      exact jsonToIpld_eq_ok.mpr ⟨hd, h, rfl, rfl⟩
  | bytes b hd =>
      intro budget h
      rw [cost] at h
      refine jsonToIpld_eq_ok.mpr ⟨hd, by simp only [toJson, baseCharge]; omega, ?_⟩
      have hnone : [(str "$bytes", Json.string (Base64.encode Base64.standard b))].lookup
          (str "$link") = none := rfl
      have hsome : [(str "$bytes", Json.string (Base64.encode Base64.standard b))].lookup
          (str "$bytes") = some (.string (Base64.encode Base64.standard b)) := rfl
      simp only [toJson, hnone, hsome]
      refine bytesWrapper_eq_ok.mpr ⟨rfl, b, 0, ?_, ?_, ?_, rfl, ?_⟩
      · rw [List.replicate_zero, List.append_nil]
      · simp [Base64.Padding.Allows]
      · rw [List.replicate_zero, List.append_nil]
        omega
      · rw [List.replicate_zero, List.append_nil, cost, Nat.sub_sub]
  | list hd _ ih =>
      intro budget h
      rw [cost] at h
      refine jsonToIpld_eq_ok.mpr ⟨hd, by simp only [toJson, baseCharge]; omega, ?_⟩
      refine ⟨_, ?_, rfl⟩
      rw [jsonItems_toJsonItems ih _ (by omega), cost, Nat.sub_sub]
  | map hd _ hkeys _ ih =>
      intro budget h
      rw [cost] at h
      refine jsonToIpld_eq_ok.mpr ⟨hd, by simp only [toJson, baseCharge]; omega, ?_⟩
      simp only [toJson, lookup_toJsonFields fun f hf => (hkeys f hf).1,
        lookup_toJsonFields fun f hf => (hkeys f hf).2]
      refine ⟨_, ?_, rfl⟩
      rw [jsonFields_toJsonFields ih _ (by omega), cost, Nat.sub_sub]
  | @link d c hd hc =>
      intro budget h
      have hlen := length_text hc
      rw [cost] at h
      refine jsonToIpld_eq_ok.mpr ⟨hd, by simp only [toJson, baseCharge]; omega, ?_⟩
      have hsome : [(str "$link", Json.string c.text)].lookup (str "$link") =
          some (.string c.text) := rfl
      simp only [toJson, hsome]
      refine linkWrapper_eq_ok.mpr ⟨rfl, c, rfl, by omega, by omega, hparse c hc, hc, rfl, ?_⟩
      rw [cost, Nat.sub_sub]

theorem wrapper_sorted (k s : Bytes) : (Json.object [(k, .string s)]).Sorted := by
  refine .object (List.pairwise_singleton _ _) fun f hf => ?_
  obtain rfl := List.mem_singleton.mp hf
  exact .string s

theorem Storable.toJson_sorted {d : Nat} {x : Ipld} (h : Storable d x) : (toJson x).Sorted := by
  induction h with
  | null _ => exact .null
  | bool b _ => exact .bool b
  | integer _ _ _ => exact .integer _
  | string s _ => exact .string s
  | bytes b _ => exact wrapper_sorted _ _
  | list _ _ ih =>
      rw [toJson, toJsonItems_eq_map]
      refine .array fun v hv => ?_
      obtain ⟨x, hx, rfl⟩ := List.mem_map.mp hv
      exact ih x hx
  | map _ hsorted _ _ ih =>
      rw [toJson, toJsonFields_eq_map]
      refine .object (List.pairwise_map.mpr hsorted) fun g hg => ?_
      obtain ⟨f, hf, rfl⟩ := List.mem_map.mp hg
      exact ih f hf
  | link _ _ => exact wrapper_sorted _ _

/-- A rendering has no padding. -/
theorem Storable.unpad_toJson (hparse : ParsesText parse) {d : Nat} {x : Ipld}
    (h : Storable d x) : unpad (toJson x) = toJson x :=
  (faithful_of_jsonToIpld (toJson x) h.toJson_sorted _ _ _ _
    (jsonToIpld_toJson hparse h (cost x) le_rfl)).unpad_eq

/-- Storable values have distinct renderings. -/
theorem Storable.toJson_inj (hparse : ParsesText parse) {d e : Nat} {x y : Ipld}
    (hx : Storable d x) (hy : Storable e y) (h : toJson x = toJson y) : x = y := by
  have hx' := jsonToIpld_toJson hparse (hx.mono (Nat.zero_le d)) (cost x + cost y) (by omega)
  have hy' := jsonToIpld_toJson hparse (hy.mono (Nat.zero_le e)) (cost x + cost y) (by omega)
  rw [h, hy'] at hx'
  exact (congrArg Prod.fst (Except.ok.inj hx')).symm

/-- **Conversion is faithful.** `toJson` is an inverse rendering: from every accepted value with
result `x` it gives a value that is accepted at the same depth, under any budget from `cost x` on,
with the result `x`, and that equals the accepted value up to the padding in `$bytes` strings. So
two accepted values have one result, one binary form and, without a collision, one CID exactly when
they are equal up to this padding; and an accepted object with a wrapper key is a link or bytes. -/
theorem jsonToIpld_faithful (hparse : ParsesText parse) :
    (∀ v depth budget x rest, v.Sorted → jsonToIpld parse v depth budget = .ok (x, rest) →
      cost x ≤ budget ∧
      (∀ budget', cost x ≤ budget' →
        jsonToIpld parse (toJson x) depth budget' = .ok (x, budget' - cost x)) ∧
      EqUpToPadding v (toJson x) ∧ Storable depth x) ∧
    (∀ v w depth depth' budget budget' x y rest rest', v.Sorted → w.Sorted →
      jsonToIpld parse v depth budget = .ok (x, rest) →
      jsonToIpld parse w depth' budget' = .ok (y, rest') →
      (x = y ↔ EqUpToPadding v w) ∧ (encode x = encode y ↔ EqUpToPadding v w) ∧
      ∀ H, Cas.CollisionFree (cidFor H) [encode x, encode y] →
        (cidFor H (encode x) = cidFor H (encode y) ↔ EqUpToPadding v w)) ∧
    ∀ fields depth budget x rest, (Json.object fields).Sorted →
      jsonToIpld parse (.object fields) depth budget = .ok (x, rest) →
      (str "$link" ∈ fields.map Prod.fst ∨ str "$bytes" ∈ fields.map Prod.fst) →
      (∃ c, x = .link c) ∨ ∃ b, x = .bytes b := by
  refine ⟨?_, ?_, ?_⟩
  · intro v depth budget x rest hv h
    obtain ⟨hs, hu, hc⟩ := faithful_of_jsonToIpld v hv _ _ _ _ h
    refine ⟨by omega, jsonToIpld_toJson hparse hs, ?_, hs⟩
    rw [EqUpToPadding, hu, hs.unpad_toJson hparse]
  · intro v w depth depth' budget budget' x y rest rest' hv hw hx hy
    obtain ⟨hsx, hux, -⟩ := faithful_of_jsonToIpld v hv _ _ _ _ hx
    obtain ⟨hsy, huy, -⟩ := faithful_of_jsonToIpld w hw _ _ _ _ hy
    have hiff : x = y ↔ EqUpToPadding v w := by
      rw [EqUpToPadding, hux, huy]
      exact ⟨congrArg toJson, hsx.toJson_inj hparse hsy⟩
    have hbytes : encode x = encode y ↔ EqUpToPadding v w :=
      ⟨fun h => hiff.mp (DagCbor.encode_injOn hsx.sorted hsy.sorted h),
        fun h => congrArg encode (hiff.mpr h)⟩
    refine ⟨hiff, hbytes, fun H hfree => ⟨fun h => hbytes.mp ?_, fun h => ?_⟩⟩
    · exact hfree _ (by simp) _ (by simp) h
    · rw [hbytes.mpr h]
  · intro fields depth budget x rest _ h hkey
    have hfound : ∀ k, k ∈ fields.map Prod.fst → fields.lookup k ≠ none := by
      intro k hk hnone
      obtain ⟨f, hf, rfl⟩ := List.mem_map.mp hk
      simpa using List.lookup_eq_none_iff.mp hnone f hf
    obtain ⟨-, -, h⟩ := jsonToIpld_eq_ok.mp h
    rcases hlink : fields.lookup (str "$link") with _ | link
    · rcases hbytes : fields.lookup (str "$bytes") with _ | bytes
      · rcases hkey with hkey | hkey
        · exact absurd hlink (hfound _ hkey)
        · exact absurd hbytes (hfound _ hkey)
      · simp only [hlink, hbytes] at h
        obtain ⟨-, b, k, -, -, -, rfl, -⟩ := bytesWrapper_eq_ok.mp h
        exact Or.inr ⟨b, rfl⟩
    · simp only [hlink] at h
      obtain ⟨-, c, -, -, -, -, -, rfl, -⟩ := linkWrapper_eq_ok.mp h
      exact Or.inl ⟨c, rfl⟩

/-- A CID with a digest of sevens. -/
def sevens : Cid := Cid.newV1 0x55 ⟨0x12, List.replicate 32 7, by decide⟩

/-- A record with a link and two bytes. -/
def sample (encoded : Bytes) : Json :=
  .object [(str "$type", .string (str "app.bsky.feed.post")),
    (str "data", .object [(str "$bytes", .string encoded)]),
    (str "reply", .object [(str "$link", .string sevens.text)])]

theorem parsesText_ofBase32 : ParsesText Cid.ofBase32 := fun c _ => c.ofBase32_text

theorem sample_sorted (encoded : Bytes) : (sample encoded).Sorted := by
  refine .object ?_ ?_
  · simp only [List.pairwise_cons, List.mem_cons, List.not_mem_nil, or_false, forall_eq_or_imp,
      forall_eq]
    exact ⟨by decide, by decide, fun _ h => h.elim, .nil⟩
  simp only [List.mem_cons, List.not_mem_nil, or_false, forall_eq_or_imp, forall_eq]
  exact ⟨.string _, wrapper_sorted _ _, wrapper_sorted _ _⟩

/-- Padding of the bytes or none: one result. -/
theorem jsonToIpld_faithful_sample :
    ∃ x rest rest', jsonToIpld Cid.ofBase32 (sample (str "aGk=")) 0 1000 = .ok (x, rest) ∧
      jsonToIpld Cid.ofBase32 (sample (str "aGk")) 0 1000 = .ok (x, rest') := by
  obtain ⟨⟨x, rest⟩, hx⟩ := exists_of_isOk
    (x := jsonToIpld Cid.ofBase32 (sample (str "aGk=")) 0 1000) (by decide +kernel)
  obtain ⟨⟨y, rest'⟩, hy⟩ := exists_of_isOk
    (x := jsonToIpld Cid.ofBase32 (sample (str "aGk")) 0 1000) (by decide +kernel)
  have heq := ((jsonToIpld_faithful parsesText_ofBase32).2.1 _ _ _ _ _ _ _ _ _ _
    (sample_sorted _) (sample_sorted _) hx hy).1
  exact ⟨x, rest, rest', hx, heq.mpr rfl ▸ hy⟩

end PurpleSky.Repo
