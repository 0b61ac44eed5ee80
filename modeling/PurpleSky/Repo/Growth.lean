import PurpleSky.Repo.Budget

/-!
# What a record can grow to

The budget of a conversion is not the size of an encoding: an integer costs one and takes nine
bytes, and the head of a key is free. `total` bounds the encoding all the same.

* `length_encode_lt`: an encoding is shorter than ten times the total. The bound is strict at every
  node, which pays for the head of an empty key.
* **`jsonToIpld_growth`**: the same of the budget that a conversion took, and of `put`.
-/

namespace PurpleSky.Repo

variable {parse : Bytes → Option Cid}

/-! ## Heads and links -/

/-- A head is at most nine bytes long. -/
theorem length_head_le {major n : Nat} (h : n < 18446744073709551616) :
    (DagCbor.head major n).length ≤ 9 := by
  unfold DagCbor.head
  split_ifs <;> simp

/-- That of a small number is one byte. -/
theorem length_head_of_lt {major n : Nat} (h : n < 24) : (DagCbor.head major n).length = 1 := by
  rw [DagCbor.head, if_pos h, List.length_singleton]

/-- A chunk is its bytes and a head. -/
theorem length_chunk_le {major : Nat} {s : Bytes} (h : s.length < 18446744073709551616) :
    (DagCbor.chunk major s).length ≤ 9 + s.length := by
  have hhead : (DagCbor.head major s.length).length ≤ 9 := length_head_le h
  rw [DagCbor.chunk, List.length_append]
  omega

/-- A link takes forty-one bytes. -/
theorem length_encode_link {c : Cid} (h : Linkable c) : (encode (.link c)).length = 41 := by
  have htag : (DagCbor.head 6 42).length = 2 := rfl
  have hhead : (DagCbor.head 2 37).length = 2 := rfl
  rw [encode, DagCbor.encode, DagCbor.chunk, List.length_append, List.length_append,
    List.length_cons, length_toBytes h, htag, hhead]

/-! ## The bound -/

/-- Every value counts at least once. -/
theorem total_pos (v : Json) : 1 ≤ total v := by
  cases v <;> simp [total]

/-- A node that is charged takes nine bytes besides its parts. -/
def Bounded (v : Json) (x : Ipld) : Prop :=
  total v < 18446744073709551616 → (encode x).length < 10 * total v

/-- The items of an array grow by at most ten times, if each of them does. -/
theorem length_encodeItems_le {values : List Json} {depth : Nat}
    (hvalues : ∀ v ∈ values, ∀ budget x rest,
      jsonToIpld parse v depth budget = .ok (x, rest) → Bounded v x)
    {budget rest : Nat} {xs : List Ipld} (h : jsonItems parse values depth budget = .ok (xs, rest))
    (hlt : totalItems values < 18446744073709551616) :
    xs.length ≤ totalItems values ∧ (DagCbor.encodeItems xs).length ≤ 10 * totalItems values := by
  induction values generalizing xs budget with
  | nil =>
      rw [jsonItems] at h
      obtain ⟨rfl, -⟩ := Prod.mk.inj (Except.ok.inj h)
      exact ⟨Nat.zero_le _, Nat.zero_le _⟩
  | cons v values ih =>
      rw [List.forall_mem_cons] at hvalues
      obtain ⟨x, left, items, hx, hitems, rfl⟩ := jsonItems_cons_eq_ok.mp h
      rw [totalItems] at hlt ⊢
      have hpos : 1 ≤ total v := total_pos v
      have hv : (DagCbor.encode x).length < 10 * total v := hvalues.1 _ _ _ hx (by omega)
      obtain ⟨hlength, hrest⟩ := ih hvalues.2 hitems (by omega)
      rw [DagCbor.encodeItems, List.length_append, List.length_cons]
      omega

/-- The key of a field costs its bytes, and its head is paid by the value. -/
theorem length_field_le {k : Bytes} {v : Json} {x : Ipld} (hv : (encode x).length < 10 * total v)
    (hk : k.length < 18446744073709551616) :
    (DagCbor.chunk 3 k).length + (encode x).length ≤ 10 * (k.length + total v) := by
  by_cases hempty : k.length = 0
  · have hhead : (DagCbor.head 3 k.length).length = 1 := length_head_of_lt (by omega)
    rw [DagCbor.chunk, List.length_append]
    omega
  · have hchunk : (DagCbor.chunk 3 k).length ≤ 9 + k.length := length_chunk_le hk
    omega

/-- So do the fields of an object, with their keys. -/
theorem length_writeFields_le {values : List (Bytes × Json)} {depth : Nat}
    (hvalues : ∀ f ∈ values, ∀ budget x rest,
      jsonToIpld parse f.2 depth budget = .ok (x, rest) → Bounded f.2 x)
    {budget rest : Nat} {xs : List (Bytes × Ipld)}
    (h : jsonFields parse values depth budget = .ok (xs, rest))
    (hlt : totalFields values < 18446744073709551616) :
    xs.length ≤ totalFields values ∧
      (xs.map fun f => (DagCbor.chunk 3 f.1).length + (encode f.2).length).sum ≤
        10 * totalFields values := by
  induction values generalizing xs budget with
  | nil =>
      rw [jsonFields] at h
      obtain ⟨rfl, -⟩ := Prod.mk.inj (Except.ok.inj h)
      exact ⟨Nat.zero_le _, Nat.zero_le _⟩
  | cons f values ih =>
      obtain ⟨k, v⟩ := f
      rw [List.forall_mem_cons] at hvalues
      obtain ⟨-, x, left, fields, hx, hfields, rfl⟩ := jsonFields_cons_eq_ok.mp h
      rw [totalFields] at hlt ⊢
      have hpos : 1 ≤ total v := total_pos v
      have hv : (encode x).length < 10 * total v := hvalues.1 _ _ _ hx (by simp only; omega)
      have hfield := length_field_le hv (show k.length < 18446744073709551616 by omega)
      obtain ⟨hlength, hrest⟩ := ih hvalues.2 hfields (by omega)
      rw [List.length_cons, List.map_cons, List.sum_cons]
      simp only
      omega

/-- An encoding is shorter than ten times the total, strictly at every node. -/
theorem length_encode_lt (v : Json) : ∀ depth budget x rest,
    jsonToIpld parse v depth budget = .ok (x, rest) → Bounded v x := by
  induction v using Json.inductOn with
  | null =>
      intro depth budget x rest h _
      obtain ⟨-, -, rfl, -⟩ := jsonToIpld_eq_ok.mp h
      simp [encode, DagCbor.encode, total]
  | bool b =>
      intro depth budget x rest h _
      obtain ⟨-, -, rfl, -⟩ := jsonToIpld_eq_ok.mp h
      simp [encode, DagCbor.encode, total]
  | integer n =>
      intro depth budget x rest h _
      obtain ⟨-, -, ⟨hlow, hhigh⟩, rfl, -⟩ := jsonToIpld_eq_ok.mp h
      have htotal : total (.integer n) = 1 := by simp [total]
      rw [maxSafeInteger] at hlow hhigh
      rw [encode, DagCbor.encode, htotal]
      split_ifs with hsign
      · have hhead : (DagCbor.head 0 n.toNat).length ≤ 9 := length_head_le (by omega)
        omega
      · have hhead : (DagCbor.head 1 (-1 - n).toNat).length ≤ 9 := length_head_le (by omega)
        omega
  | float bits =>
      intro depth budget x rest h
      exact absurd (jsonToIpld_eq_ok.mp h).2.2 id
  | string s =>
      intro depth budget x rest h hlt
      obtain ⟨-, -, rfl, -⟩ := jsonToIpld_eq_ok.mp h
      rw [total] at hlt ⊢
      have hchunk : (DagCbor.chunk 3 s).length ≤ 9 + s.length := length_chunk_le (by omega)
      rw [encode, DagCbor.encode]
      omega
  | array values ih =>
      intro depth budget x rest h hlt
      obtain ⟨-, -, items, hitems, rfl⟩ := jsonToIpld_eq_ok.mp h
      rw [total] at hlt ⊢
      obtain ⟨hlength, hle⟩ :=
        length_encodeItems_le (fun v hv => ih v hv (depth + 1)) hitems (by omega)
      have hhead : (DagCbor.head 4 items.length).length ≤ 9 := length_head_le (by omega)
      rw [encode, DagCbor.encode, List.length_append]
      omega
  | object fields ih =>
      intro depth budget x rest h hlt
      obtain ⟨-, -, h⟩ := jsonToIpld_eq_ok.mp h
      rcases hlink : fields.lookup (str "$link") with _ | link
      · rcases hbytes : fields.lookup (str "$bytes") with _ | bytes
        · simp only [hlink, hbytes] at h
          obtain ⟨fs, hfields, rfl⟩ := h
          have hkeys : payload fields = none := by rw [payload, hlink, hbytes]; rfl
          rw [total, hkeys, Option.elim_none] at hlt ⊢
          obtain ⟨hlength, hle⟩ :=
            length_writeFields_le (fun f hf => ih f hf (depth + 1)) hfields (by omega)
          have hhead : (DagCbor.head 5 fs.length).length ≤ 9 := length_head_le (by omega)
          rw [length_encode_map]
          omega
        · simp only [hlink, hbytes] at h
          obtain ⟨hlen, b, k, rfl, -, -, rfl, -⟩ := bytesWrapper_eq_ok.mp h
          obtain rfl := eq_singleton_of_lookup hlen hbytes
          rw [total, payload_bytes, Option.elim_some, Json.asStr, Option.elim_some,
            List.length_append, Base64.length_encode] at hlt ⊢
          have hchunk : (DagCbor.chunk 2 b).length ≤ 9 + b.length := length_chunk_le (by omega)
          rw [encode, DagCbor.encode]
          omega
      · simp only [hlink] at h
        obtain ⟨hlen, c, rfl, -, -, -, hc, rfl, -⟩ := linkWrapper_eq_ok.mp h
        obtain rfl := eq_singleton_of_lookup hlen hlink
        rw [total, payload_link, Option.elim_some, Json.asStr, Option.elim_some, length_text hc]
        rw [length_encode_link hc]
        omega

/-- **What the budget bounds.** What is encoded is shorter than ten times the budget that its
conversion took, and so than ten times the limit on records when `put` encodes it. -/
theorem jsonToIpld_growth (parse : Bytes → Option Cid) :
    (∀ v depth budget x rest, budget < 18446744073709551616 →
      jsonToIpld parse v depth budget = .ok (x, rest) →
      (encode x).length < 10 * (budget - rest)) ∧
    ∀ value x rest, jsonToIpld parse value 0 maxRecordBytes = .ok (x, rest) →
      (encode x).length < 10 * maxRecordBytes := by
  have hgrowth : ∀ v depth budget x rest, budget < 18446744073709551616 →
      jsonToIpld parse v depth budget = .ok (x, rest) →
      (encode x).length < 10 * (budget - rest) := by
    intro v depth budget x rest hbudget h
    have htotal : total v + rest = budget := (accepted_of_jsonToIpld _ _ _ _ _ h).total_add
    have hlt : (encode x).length < 10 * total v := length_encode_lt _ _ _ _ _ h (by omega)
    omega
  refine ⟨hgrowth, fun value x rest h => ?_⟩
  have hlt := hgrowth value 0 maxRecordBytes x rest (by decide) h
  omega

/-- The greatest integer under an empty key: eleven bytes for a charge of two. -/
theorem jsonToIpld_growth_sample :
    (encode (.map [([], .integer 9007199254740991)])).length < 10 * (5 - 3) :=
  (jsonToIpld_growth Cid.ofBase32).1 (.object [([], .integer 9007199254740991)]) 0 5 _ 3
    (by decide) rfl

end PurpleSky.Repo
