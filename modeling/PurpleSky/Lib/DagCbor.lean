import PurpleSky.Lib.Cid

/-!
# DAG-CBOR

The IPLD data model without floats, its canonical binary form and a reader for it.

* `Ipld.Sorted`: the keys of every map ascend strictly in byte order, as in an ordered map.
* `encode`: shortest heads, map keys by length and then by bytes, links as tag 42 over `0x00` and
  the CID.
* **`decode_encode`**: reading what was written returns the value, for every sorted value. So
  `encode` is injective on sorted values (`encode_injOn`).

A head carries a number below `2 ^ 64`. The head of a larger number, which no 64-bit program can
build, is given an encoding of its own here (`0x1f`, then LEB128), so that the functions are total
and no statement needs a bound on the lengths in a value.
-/

namespace PurpleSky

/-- A value of the data model. A map is the list of its fields in key order. -/
inductive Ipld where
  | null
  | bool (b : Bool)
  | integer (n : Int)
  | string (s : Bytes)
  | bytes (b : Bytes)
  | list (items : List Ipld)
  | map (fields : List (Bytes × Ipld))
  | link (cid : Cid)
  deriving Repr

namespace Ipld

/-- Induction with the hypothesis for every item and every field at once. -/
theorem inductOn {P : Ipld → Prop} (x : Ipld) (null : P .null) (bool : ∀ b, P (.bool b))
    (integer : ∀ n, P (.integer n)) (string : ∀ s, P (.string s)) (bytes : ∀ b, P (.bytes b))
    (list : ∀ items, (∀ y ∈ items, P y) → P (.list items))
    (map : ∀ fields, (∀ f ∈ fields, P f.2) → P (.map fields))
    (link : ∀ cid, P (.link cid)) : P x :=
  match x with
  | .null => null
  | .bool b => bool b
  | .integer n => integer n
  | .string s => string s
  | .bytes b => bytes b
  | .list items => list items fun y hy => by
      have := List.sizeOf_lt_of_mem hy
      exact inductOn y null bool integer string bytes list map link
  | .map fields => map fields fun (k, y) hf => by
      have := List.sizeOf_lt_of_mem hf
      have : sizeOf y < sizeOf (k, y) := by simp
      exact inductOn y null bool integer string bytes list map link
  | .link cid => link cid
termination_by sizeOf x

/-- Two fields in key order. -/
def FieldLt (f g : Bytes × α) : Prop := compare f.1 g.1 = .lt

instance (f g : Bytes × α) : Decidable (FieldLt f g) := inferInstanceAs (Decidable (_ = _))

/-- The keys of every map in a value ascend strictly. -/
inductive Sorted : Ipld → Prop where
  | null : Sorted .null
  | bool (b) : Sorted (.bool b)
  | integer (n) : Sorted (.integer n)
  | string (s) : Sorted (.string s)
  | bytes (b) : Sorted (.bytes b)
  | list {items} : (∀ x ∈ items, Sorted x) → Sorted (.list items)
  | map {fields} : fields.Pairwise FieldLt → (∀ f ∈ fields, Sorted f.2) → Sorted (.map fields)
  | link (cid) : Sorted (.link cid)

end Ipld

namespace DagCbor

/-! ## Heads -/

/-- The initial byte of a major type with five bits of additional information. -/
def initial (major info : Nat) : UInt8 := UInt8.ofNat (major * 32 + info)

/-- A major type and its number, in the shortest form. -/
def head (major n : Nat) : Bytes :=
  if n < 24 then [initial major n]
  else if n < 256 then initial major 24 :: Bytes.bigEndian 1 n
  else if n < 65536 then initial major 25 :: Bytes.bigEndian 2 n
  else if n < 4294967296 then initial major 26 :: Bytes.bigEndian 4 n
  else if n < 18446744073709551616 then initial major 27 :: Bytes.bigEndian 8 n
  else initial major 31 :: Leb128.encode n

/-- Read a fixed-width number. -/
def readBigEndian (width : Nat) (s : Bytes) : Option (Nat × Bytes) :=
  (Multihash.readExact width s).map fun (b, rest) => (Bytes.ofBigEndian b, rest)

/-- Read a head: the major type, its number, and the bytes after it. -/
def readHead : Bytes → Option (Nat × Nat × Bytes)
  | [] => none
  | b :: s =>
      let major := b.toNat / 32
      let info := b.toNat % 32
      if info < 24 then some (major, info, s)
      else if info = 24 then (readBigEndian 1 s).map fun (n, s) => (major, n, s)
      else if info = 25 then (readBigEndian 2 s).map fun (n, s) => (major, n, s)
      else if info = 26 then (readBigEndian 4 s).map fun (n, s) => (major, n, s)
      else if info = 27 then (readBigEndian 8 s).map fun (n, s) => (major, n, s)
      else if info = 31 then (Leb128.decode s).map fun (n, s) => (major, n, s)
      else none

theorem readBigEndian_append {width n : Nat} (h : n < 256 ^ width) (rest : Bytes) :
    readBigEndian width (Bytes.bigEndian width n ++ rest) = some (n, rest) := by
  have hr := Multihash.readExact_append (Bytes.bigEndian width n) rest
  rw [Bytes.length_bigEndian] at hr
  simp only [readBigEndian, hr, Option.map_some, Bytes.ofBigEndian_bigEndian h]

theorem readHead_head_append {major : Nat} (hm : major < 8) (n : Nat) (rest : Bytes) :
    readHead (head major n ++ rest) = some (major, n, rest) := by
  have hi : ∀ info < 32, (initial major info).toNat = major * 32 + info := by
    intro info h
    rw [initial, UInt8.toNat_ofNat']
    omega
  have hdiv : ∀ info < 32, (major * 32 + info) / 32 = major := by omega
  have hmod : ∀ info < 32, (major * 32 + info) % 32 = info := by omega
  unfold head
  split_ifs with h₀ h₁ h₂ h₃ h₄
  · simp [readHead, hi n (by omega), hdiv n (by omega), hmod n (by omega), h₀]
  · simp [readHead, hi, hdiv, hmod, readBigEndian_append (show n < 256 ^ 1 from h₁)]
  · simp [readHead, hi, hdiv, hmod, readBigEndian_append (show n < 256 ^ 2 from h₂)]
  · simp [readHead, hi, hdiv, hmod, readBigEndian_append (show n < 256 ^ 4 from h₃)]
  · simp [readHead, hi, hdiv, hmod, readBigEndian_append (show n < 256 ^ 8 from h₄)]
  · simp [readHead, hi, hdiv, hmod, Leb128.decode_encode_append]

theorem head_ne_nil (major n : Nat) : head major n ≠ [] := by
  unfold head
  split_ifs <;> simp

/-! ## Writing -/

/-- Key order in a written map: shorter keys first, then byte order. -/
def keyRank (k : Bytes) : List Nat := k.length :: k.map UInt8.toNat

/-- Two fields in written order. -/
def RankLe (f g : Bytes × α) : Prop := (compare (keyRank f.1) (keyRank g.1)).isLE

instance : DecidableRel (@RankLe α) := fun _ _ => inferInstanceAs (Decidable (_ = _))

/-- Fields in written order. -/
def canonical (fields : List (Bytes × α)) : List (Bytes × α) := fields.insertionSort RankLe

/-- A byte or text string with its head. -/
def chunk (major : Nat) (s : Bytes) : Bytes := head major s.length ++ s

mutual

/-- The canonical binary form. -/
def encode : Ipld → Bytes
  | .null => [0xf6]
  | .bool b => [if b then 0xf5 else 0xf4]
  | .integer n => if 0 ≤ n then head 0 n.toNat else head 1 (-1 - n).toNat
  | .string s => chunk 3 s
  | .bytes b => chunk 2 b
  | .list items => head 4 items.length ++ encodeItems items
  | .map fields => head 5 fields.length ++
      (canonical (encodeFields fields)).flatMap fun (k, v) => chunk 3 k ++ v
  | .link cid => head 6 42 ++ chunk 2 (0 :: cid.toBytes)

/-- The items of a list, one after another. -/
def encodeItems : List Ipld → Bytes
  | [] => []
  | x :: items => encode x ++ encodeItems items

/-- The fields of a map, each value encoded. -/
def encodeFields : List (Bytes × Ipld) → List (Bytes × Bytes)
  | [] => []
  | (k, x) :: fields => (k, encode x) :: encodeFields fields

end

/-! ## Reading -/

/-- Read a string of `n` bytes. -/
def readChunk (major : Nat) (s : Bytes) : Option (Bytes × Bytes) := do
  let (m, n, s) ← readHead s
  if m = major then Multihash.readExact n s else none

/-- Read the CID of a link: `0x00`, then exactly one CID. -/
def readLink (s : Bytes) : Option (Cid × Bytes) := do
  let (payload, s) ← readChunk 2 s
  match payload with
  | 0 :: cid =>
      match Cid.readBytes cid with
      | some (c, []) => some (c, s)
      | _ => none
  | _ => none

/-- Two fields in key order. -/
def KeyLe (f g : Bytes × α) : Prop := (compare f.1 g.1).isLE

instance : DecidableRel (@KeyLe α) := fun _ _ => inferInstanceAs (Decidable (_ = _))

/-- Fields in key order. -/
def byKey (fields : List (Bytes × α)) : List (Bytes × α) := fields.insertionSort KeyLe

mutual

/-- Read one value. -/
def readItem : Nat → Bytes → Option (Ipld × Bytes)
  | 0, _ => none
  | fuel + 1, s => do
      let (major, n, s) ← readHead s
      match major with
      | 0 => some (.integer n, s)
      | 1 => some (.integer (-1 - n), s)
      | 2 => (Multihash.readExact n s).map fun (b, s) => (.bytes b, s)
      | 3 => (Multihash.readExact n s).map fun (b, s) => (.string b, s)
      | 4 => (readItems fuel n s).map fun (items, s) => (.list items, s)
      | 5 => (readFields fuel n s).map fun (fields, s) => (.map (byKey fields), s)
      | 6 => if n = 42 then (readLink s).map fun (c, s) => (.link c, s) else none
      | _ =>
          if n = 20 then some (.bool false, s)
          else if n = 21 then some (.bool true, s)
          else if n = 22 then some (.null, s)
          else none

/-- Read `n` values. -/
def readItems : Nat → Nat → Bytes → Option (List Ipld × Bytes)
  | 0, _, _ => none
  | _ + 1, 0, s => some ([], s)
  | fuel + 1, n + 1, s => do
      let (x, s) ← readItem fuel s
      let (items, s) ← readItems fuel n s
      pure (x :: items, s)

/-- Read `n` fields, each a text key and a value. -/
def readFields : Nat → Nat → Bytes → Option (List (Bytes × Ipld) × Bytes)
  | 0, _, _ => none
  | _ + 1, 0, s => some ([], s)
  | fuel + 1, n + 1, s => do
      let (k, s) ← readChunk 3 s
      let (x, s) ← readItem fuel s
      let (fields, s) ← readFields fuel n s
      pure ((k, x) :: fields, s)

end

/-- Read exactly one value. Every nesting level and every item costs a byte, so three units of fuel
a byte are enough. -/
def decode (s : Bytes) : Option Ipld :=
  match readItem (3 * s.length) s with
  | some (x, []) => some x
  | _ => none

/-! ## Reading what was written -/

theorem readChunk_chunk_append {major : Nat} (hm : major < 8) (b rest : Bytes) :
    readChunk major (chunk major b ++ rest) = some (b, rest) := by
  simp only [readChunk, chunk, List.append_assoc, readHead_head_append hm, Option.bind_eq_bind,
    Option.bind_some, if_true, Multihash.readExact_append]

theorem readLink_append (c : Cid) (rest : Bytes) :
    readLink (chunk 2 (0 :: c.toBytes) ++ rest) = some (c, rest) := by
  have hc := Cid.readBytes_toBytes_append c []
  rw [List.append_nil] at hc
  simp only [readLink, readChunk_chunk_append (by decide : 2 < 8), Option.bind_eq_bind,
    Option.bind_some, hc]

theorem encodeFields_eq_map (fields : List (Bytes × Ipld)) :
    encodeFields fields = fields.map fun f => (f.1, encode f.2) := by
  induction fields with
  | nil => simp [encodeFields]
  | cons f fields ih => simp [encodeFields, ih]

/-- Sorting looks at keys only, so it commutes with encoding the values. -/
theorem canonical_map (fields : List (Bytes × α)) (g : α → β) :
    canonical (fields.map fun f => (f.1, g f.2)) =
      (canonical fields).map fun f => (f.1, g f.2) :=
  (List.map_insertionSort RankLe RankLe (fun f : Bytes × α => (f.1, g f.2)) fields
    fun _ _ _ _ => Iff.rfl).symm

theorem encode_map (fields : List (Bytes × Ipld)) :
    encode (.map fields) = head 5 fields.length ++
      (canonical fields).flatMap fun f => chunk 3 f.1 ++ encode f.2 := by
  rw [encode, encodeFields_eq_map, canonical_map, List.flatMap_map]

theorem canonical_perm (fields : List (Bytes × α)) : (canonical fields).Perm fields :=
  List.perm_insertionSort _ _

theorem encode_ne_nil (x : Ipld) : encode x ≠ [] := by
  have := head_ne_nil
  cases x <;> simp [encode, chunk, this]
  split_ifs <;> exact this _ _

instance : Std.Total (@KeyLe α) where
  total f g := by
    unfold KeyLe
    rcases h : compare f.1 g.1 with _ | _ | _
    · simp
    · simp
    · right
      rw [Std.OrientedCmp.gt_iff_lt.mp h]
      rfl

instance : IsTrans (Bytes × α) KeyLe where
  trans f g _ hfg hgh :=
    Std.TransCmp.isLE_trans (show (compare f.1 g.1).isLE from hfg) hgh

theorem nodup_keys {fields : List (Bytes × α)} (hsorted : fields.Pairwise Ipld.FieldLt) :
    (fields.map Prod.fst).Nodup := by
  rw [List.Nodup, List.pairwise_map]
  refine hsorted.imp fun {f g} h hfg => ?_
  have hlt : compare f.1 g.1 = .lt := h
  rw [hfg, (Std.ReflCmp.compare_self : compare g.1 g.1 = .eq)] at hlt
  cases hlt

/-- Sorting by key undoes any reordering of a map's fields. -/
theorem byKey_eq_of_perm {fields gs : List (Bytes × α)} (hsorted : fields.Pairwise Ipld.FieldLt)
    (hperm : gs.Perm fields) : byKey gs = fields := by
  have hp : (byKey gs).Perm fields := (List.perm_insertionSort _ _).trans hperm
  have hle : fields.Pairwise KeyLe := hsorted.imp fun {f g} h => by
    unfold Ipld.FieldLt at h
    simp [KeyLe, h]
  -- both lists are sorted by key, and no two fields of either have one key
  refine hp.eq_of_pairwise ?_ (List.pairwise_insertionSort _ gs) hle
  intro f g hf hg hfg hgf
  have hkey : f.1 = g.1 :=
    Std.LawfulEqCmp.eq_of_compare
      (Std.OrientedCmp.isLE_antisymm (show (compare f.1 g.1).isLE from hfg) hgf)
  exact List.inj_on_of_nodup_map (nodup_keys hsorted) (hp.mem_iff.mp hf) hg hkey

/-- Reading the items of a list, given that each of them is read back. -/
theorem readItems_append {items : List Ipld}
    (hitems : ∀ x ∈ items, ∀ fuel rest, 3 * (encode x).length ≤ fuel + 1 →
      readItem fuel (encode x ++ rest) = some (x, rest)) :
    ∀ fuel rest, 3 * (encodeItems items).length + 1 ≤ fuel →
      readItems fuel items.length (encodeItems items ++ rest) = some (items, rest) := by
  induction items with
  | nil =>
      intro fuel rest hf
      obtain ⟨fuel, rfl⟩ : ∃ f, fuel = f + 1 := ⟨fuel - 1, by omega⟩
      simp [readItems, encodeItems]
  | cons x items ih =>
      intro fuel rest hf
      obtain ⟨fuel, rfl⟩ : ∃ f, fuel = f + 1 := ⟨fuel - 1, by omega⟩
      have hpos := List.length_pos_iff.mpr (encode_ne_nil x)
      simp only [encodeItems, List.length_append] at hf
      have hx := hitems x List.mem_cons_self fuel (encodeItems items ++ rest) (by omega)
      have hrest := ih (fun y hy => hitems y (List.mem_cons_of_mem _ hy)) fuel rest (by omega)
      simp only [readItems, encodeItems, List.length_cons, List.append_assoc, hx, hrest,
        Option.bind_eq_bind, Option.bind_some, Option.pure_def]

/-- The written form of a run of fields. -/
def writeFields (fields : List (Bytes × Ipld)) : Bytes :=
  fields.flatMap fun f => chunk 3 f.1 ++ encode f.2

/-- Reading a run of fields, given that each value is read back. -/
theorem readFields_append {fields : List (Bytes × Ipld)}
    (hfields : ∀ f ∈ fields, ∀ fuel rest, 3 * (encode f.2).length ≤ fuel + 1 →
      readItem fuel (encode f.2 ++ rest) = some (f.2, rest)) :
    ∀ fuel rest, 3 * (writeFields fields).length + 1 ≤ fuel →
      readFields fuel fields.length (writeFields fields ++ rest) = some (fields, rest) := by
  induction fields with
  | nil =>
      intro fuel rest hf
      obtain ⟨fuel, rfl⟩ : ∃ f, fuel = f + 1 := ⟨fuel - 1, by omega⟩
      simp [readFields, writeFields]
  | cons f fields ih =>
      intro fuel rest hf
      obtain ⟨fuel, rfl⟩ : ∃ f, fuel = f + 1 := ⟨fuel - 1, by omega⟩
      have hw : writeFields (f :: fields) = chunk 3 f.1 ++ (encode f.2 ++ writeFields fields) := by
        simp [writeFields]
      have hpos := List.length_pos_iff.mpr (encode_ne_nil f.2)
      rw [hw] at hf
      simp only [List.length_append] at hf
      have hx := hfields f List.mem_cons_self fuel (writeFields fields ++ rest) (by omega)
      have hrest := ih (fun g hg => hfields g (List.mem_cons_of_mem _ hg)) fuel rest (by omega)
      simp only [readFields, hw, List.length_cons, List.append_assoc,
        readChunk_chunk_append (by decide : 3 < 8), hx, hrest, Option.bind_eq_bind,
        Option.bind_some, Option.pure_def]

theorem length_head_pos (major n : Nat) : 1 ≤ (head major n).length :=
  List.length_pos_iff.mpr (head_ne_nil major n)

/-- **One value is read back, and what follows it is left**, for every sorted value and any fuel
of three units a byte. -/
theorem readItem_append {x : Ipld} (hx : x.Sorted) :
    ∀ fuel rest, 3 * (encode x).length ≤ fuel + 1 →
      readItem fuel (encode x ++ rest) = some (x, rest) := by
  induction x using Ipld.inductOn with
  | null =>
      intro fuel rest hf
      obtain ⟨fuel, rfl⟩ : ∃ f, fuel = f + 1 := ⟨fuel - 1, by simp [encode] at hf; omega⟩
      rfl
  | bool b =>
      intro fuel rest hf
      obtain ⟨fuel, rfl⟩ : ∃ f, fuel = f + 1 := ⟨fuel - 1, by simp [encode] at hf; omega⟩
      cases b <;> rfl
  | integer n =>
      intro fuel rest hf
      have h₀ := length_head_pos 0 n.toNat
      have h₁ := length_head_pos 1 (-1 - n).toNat
      by_cases hn : 0 ≤ n
      · rw [encode, if_pos hn] at hf ⊢
        obtain ⟨fuel, rfl⟩ : ∃ f, fuel = f + 1 := ⟨fuel - 1, by omega⟩
        simp only [readItem, readHead_head_append (by decide : 0 < 8), Option.bind_eq_bind,
          Option.bind_some, Int.toNat_of_nonneg hn]
      · rw [encode, if_neg hn] at hf ⊢
        obtain ⟨fuel, rfl⟩ : ∃ f, fuel = f + 1 := ⟨fuel - 1, by omega⟩
        have : (-1 - ((-1 - n).toNat : Int)) = n := by omega
        simp only [readItem, readHead_head_append (by decide : 1 < 8), Option.bind_eq_bind,
          Option.bind_some, this]
  | string s =>
      intro fuel rest hf
      have hpos := length_head_pos 3 s.length
      simp only [encode, chunk, List.length_append] at hf
      obtain ⟨fuel, rfl⟩ : ∃ f, fuel = f + 1 := ⟨fuel - 1, by omega⟩
      simp only [readItem, encode, chunk, List.append_assoc,
        readHead_head_append (by decide : 3 < 8), Option.bind_eq_bind, Option.bind_some,
        Multihash.readExact_append, Option.map_some]
  | bytes b =>
      intro fuel rest hf
      have hpos := length_head_pos 2 b.length
      simp only [encode, chunk, List.length_append] at hf
      obtain ⟨fuel, rfl⟩ : ∃ f, fuel = f + 1 := ⟨fuel - 1, by omega⟩
      simp only [readItem, encode, chunk, List.append_assoc,
        readHead_head_append (by decide : 2 < 8), Option.bind_eq_bind, Option.bind_some,
        Multihash.readExact_append, Option.map_some]
  | list items ih =>
      intro fuel rest hf
      have hpos := length_head_pos 4 items.length
      obtain _ | _ | _ | _ | _ | hsorted := hx
      simp only [encode, List.length_append] at hf
      obtain ⟨fuel, rfl⟩ : ∃ f, fuel = f + 1 := ⟨fuel - 1, by omega⟩
      have hitems := readItems_append (fun x hx => ih x hx (hsorted x hx)) fuel rest (by omega)
      simp only [readItem, encode, List.append_assoc, readHead_head_append (by decide : 4 < 8),
        Option.bind_eq_bind, Option.bind_some, hitems, Option.map_some]
  | map fields ih =>
      intro fuel rest hf
      have hpos := length_head_pos 5 fields.length
      obtain _ | _ | _ | _ | _ | _ | ⟨hsorted, hvalues⟩ := hx
      have hperm := canonical_perm fields
      rw [encode_map, ← writeFields] at hf ⊢
      simp only [List.length_append] at hf
      obtain ⟨fuel, rfl⟩ : ∃ f, fuel = f + 1 := ⟨fuel - 1, by omega⟩
      have hread : ∀ f ∈ canonical fields, ∀ fuel rest, 3 * (encode f.2).length ≤ fuel + 1 →
          readItem fuel (encode f.2 ++ rest) = some (f.2, rest) := fun f hf =>
        ih f (hperm.mem_iff.mp hf) (hvalues f (hperm.mem_iff.mp hf))
      have hfields := readFields_append hread fuel rest (by omega)
      rw [hperm.length_eq] at hfields
      simp only [readItem, List.append_assoc, readHead_head_append (by decide : 5 < 8),
        Option.bind_eq_bind, Option.bind_some, hfields, Option.map_some,
        byKey_eq_of_perm hsorted hperm]
  | link c =>
      intro fuel rest hf
      have hpos := length_head_pos 6 42
      simp only [encode, List.length_append] at hf
      obtain ⟨fuel, rfl⟩ : ∃ f, fuel = f + 1 := ⟨fuel - 1, by omega⟩
      simp only [readItem, encode, List.append_assoc, readHead_head_append (by decide : 6 < 8),
        Option.bind_eq_bind, Option.bind_some, if_true, readLink_append, Option.map_some]

/-- **Decoding inverts encoding** on sorted values. -/
theorem decode_encode {x : Ipld} (hx : x.Sorted) : decode (encode x) = some x := by
  have h := readItem_append hx (3 * (encode x).length) [] (by omega)
  rw [List.append_nil] at h
  simp only [decode, h]

/-- Distinct sorted values have distinct binary forms. -/
theorem encode_injOn {x y : Ipld} (hx : x.Sorted) (hy : y.Sorted) (h : encode x = encode y) :
    x = y := by
  have := decode_encode hx
  rw [h, decode_encode hy] at this
  exact (Option.some.inj this).symm

end DagCbor

end PurpleSky
