import PurpleSky.Repo.Basic

/-!
# CARv1 export (`car.rs`)

`exportCar` writes a header section with one root, then a section for every block: the root first,
the others in the order of the map. A section is a LEB128 length and its payload; the payload of a
block is its CID and its bytes.

`readCar` is a reader for the format, written from the format and not from the source, which has
none. **`readCar_exportCar`**: it reads back exactly the root and the blocks.
-/

namespace PurpleSky.Repo.Car

/-- The header of an export.
Source: `car.rs`, `Header` -/
structure Header where
  roots : List Cid
  version : Nat
  deriving DecidableEq, Repr

/-- The derived serialization of a header. -/
def Header.toIpld (h : Header) : Ipld :=
  .map [(str "roots", .list (h.roots.map .link)), (str "version", .integer h.version)]

/-! ## Writing -/

/-- The loop of `varint`: low seven bits with the high bit set, while more than one byte is left.
The fuel is the number itself. -/
def varintLoop : Nat → Nat → Bytes → Bytes
  | 0, n, out => out ++ [UInt8.ofNat n]
  | fuel + 1, n, out =>
      if 128 ≤ n then varintLoop fuel (n >>> 7) (out ++ [(UInt8.ofNat n &&& 0x7f) ||| 0x80])
      else out ++ [UInt8.ofNat n]

/-- Append a length.
Source: `car.rs`, `varint` -/
def varint (n : Nat) (out : Bytes) : Bytes := varintLoop n n out

/-- Append a block section.
Source: `car.rs`, `block` -/
def block (cid : Cid) (bytes out : Bytes) : Bytes :=
  let encoded := cid.toBytes
  varint (encoded.length + bytes.length) out ++ encoded ++ bytes

/-- Write a block map with its root.
Source: `car.rs`, `export` -/
def exportCar (root : Cid) (blocks : Blocks) : Except Error Bytes := do
  let header := encode (Header.toIpld ⟨[root], 1⟩)
  let out := varint header.length [] ++ header
  let some rootBytes := blocks[root]? | .error (.verification "missing CAR root")
  let out := block root rootBytes out
  pure (blocks.toList.foldl (fun out (cid, bytes) =>
    if cid ≠ root then block cid bytes out else out) out)

/-! ## Reading -/

/-- Read a section: a length and as many bytes. -/
def readSection (s : Bytes) : Option (Bytes × Bytes) := do
  let (n, s) ← Leb128.decode s
  Multihash.readExact n s

/-- Read block sections to the end of the input. -/
def readBlocks : Nat → Bytes → Option (List (Cid × Bytes))
  | _, [] => some []
  | 0, _ => none
  | fuel + 1, s => do
      let (payload, s) ← readSection s
      let (cid, bytes) ← Cid.readBytes payload
      let rest ← readBlocks fuel s
      pure ((cid, bytes) :: rest)

/-- Read a root of a header. -/
def link? : Ipld → Option Cid
  | .link c => some c
  | _ => none

/-- Read a header. -/
def Header.ofIpld? : Ipld → Option Header
  | .map [(k₁, .list roots), (k₂, .integer version)] =>
      if k₁ = str "roots" ∧ k₂ = str "version" ∧ 0 ≤ version then
        (roots.mapM link?).map fun roots => ⟨roots, version.toNat⟩
      else none
  | _ => none

/-- Read an export: a header section, then blocks to the end. -/
def readCar (s : Bytes) : Option (Header × List (Cid × Bytes)) := do
  let (header, s) ← readSection s
  let header ← (DagCbor.decode header).bind Header.ofIpld?
  let blocks ← readBlocks s.length s
  pure (header, blocks)

/-! ## What is written -/

theorem low_bits_or_high (n : Nat) :
    (UInt8.ofNat n &&& 0x7f) ||| 0x80 = UInt8.ofNat (n % 128 + 128) := by
  have hbyte : ∀ i : Fin 256,
      (UInt8.ofNat i &&& 0x7f) ||| 0x80 = UInt8.ofNat (i % 128 + 128) := by decide +kernel
  have h := hbyte ⟨n % 256, Nat.mod_lt _ (by decide)⟩
  have hn : UInt8.ofNat (n % 256) = UInt8.ofNat n := by
    apply UInt8.toNat_inj.mp
    simp
  simp only [hn] at h
  rw [h, Nat.mod_mod_of_dvd n (by decide)]

theorem varintLoop_eq {fuel n : Nat} (h : n ≤ fuel) (out : Bytes) :
    varintLoop fuel n out = out ++ Leb128.encode n := by
  induction fuel generalizing n out with
  | zero =>
      obtain rfl : n = 0 := by omega
      rfl
  | succ fuel ih =>
      unfold varintLoop
      rw [Leb128.encode_eq]
      by_cases hn : 128 ≤ n
      · rw [if_pos hn, if_neg (by omega), Nat.shiftRight_eq_div_pow, ih (by omega),
          low_bits_or_high, List.append_assoc]
        rfl
      · rw [if_neg hn, if_pos (by omega)]

/-- `varint` appends the LEB128 form. -/
theorem varint_eq (n : Nat) (out : Bytes) : varint n out = out ++ Leb128.encode n :=
  varintLoop_eq le_rfl out

/-- A section: a length and as many bytes. -/
def frame (payload : Bytes) : Bytes := Leb128.encode payload.length ++ payload

theorem block_eq (cid : Cid) (bytes out : Bytes) :
    block cid bytes out = out ++ frame (cid.toBytes ++ bytes) := by
  simp [block, varint_eq, frame]

/-- The blocks in export order: the root, then the others as the map has them. -/
def exportOrder (root : Cid) (rootBytes : Bytes) (blocks : Blocks) : List (Cid × Bytes) :=
  (root, rootBytes) :: blocks.toList.filter fun b => b.1 ≠ root

/-- The sections of a list of blocks. -/
def frames (bs : List (Cid × Bytes)) : Bytes := bs.flatMap fun b => frame (b.1.toBytes ++ b.2)

theorem foldl_block (root : Cid) (bs : List (Cid × Bytes)) (out : Bytes) :
    bs.foldl (fun out (cid, bytes) => if cid ≠ root then block cid bytes out else out) out =
      out ++ frames (bs.filter fun b => b.1 ≠ root) := by
  induction bs generalizing out with
  | nil => simp [frames]
  | cons b bs ih =>
      rw [List.foldl_cons, ih]
      by_cases h : b.1 = root
      · simp [h]
      · simp [h, block_eq, frames]

/-- The bytes of an export, section by section. -/
theorem exportCar_eq {root : Cid} {rootBytes : Bytes} {blocks : Blocks}
    (h : blocks[root]? = some rootBytes) :
    exportCar root blocks = .ok (frame (encode (Header.toIpld ⟨[root], 1⟩)) ++
      frames (exportOrder root rootBytes blocks)) := by
  have hfold := foldl_block root blocks.toList (block root rootBytes
    (varint (encode (Header.toIpld ⟨[root], 1⟩)).length [] ++ encode (Header.toIpld ⟨[root], 1⟩)))
  simp only [exportCar, h]
  rw [hfold, block_eq, varint_eq]
  simp [frame, frames, exportOrder, pure, Except.pure]

/-! ## What is read -/

theorem readSection_frame (payload rest : Bytes) :
    readSection (frame payload ++ rest) = some (payload, rest) := by
  simp only [readSection, frame, List.append_assoc, Leb128.decode_encode_append,
    Option.bind_eq_bind, Option.bind_some, Multihash.readExact_append]

theorem frame_ne_nil (payload : Bytes) : frame payload ≠ [] := by
  simp [frame, Leb128.encode_ne_nil]

theorem readBlocks_frames (bs : List (Cid × Bytes)) {fuel : Nat} (h : (frames bs).length ≤ fuel) :
    readBlocks fuel (frames bs) = some bs := by
  induction bs generalizing fuel with
  | nil => cases fuel <;> rfl
  | cons b bs ih =>
      have hcons : frames (b :: bs) = frame (b.1.toBytes ++ b.2) ++ frames bs := by simp [frames]
      have hpos := List.length_pos_iff.mpr (frame_ne_nil (b.1.toBytes ++ b.2))
      rw [hcons, List.length_append] at h
      obtain ⟨fuel, rfl⟩ : ∃ f, fuel = f + 1 := ⟨fuel - 1, by omega⟩
      have hne : frames (b :: bs) ≠ [] := by simp [hcons, frame_ne_nil]
      have hread := readSection_frame (b.1.toBytes ++ b.2) (frames bs)
      rw [← hcons] at hread
      -- the input is not at its end, so the reader takes one section
      rw [readBlocks.eq_3 _ _ hne]
      simp only [hread, Option.bind_eq_bind, Option.bind_some, Cid.readBytes_toBytes_append,
        ih (by omega : (frames bs).length ≤ fuel), Option.pure_def]

theorem Header.toIpld_sorted (h : Header) : h.toIpld.Sorted := by
  refine .map (by simp [Ipld.FieldLt]; decide) ?_
  simp only [List.mem_cons, List.not_mem_nil, or_false, forall_eq_or_imp, forall_eq]
  refine ⟨.list ?_, .integer _⟩
  intro x hx
  obtain ⟨c, -, rfl⟩ := List.mem_map.mp hx
  exact .link c

theorem Header.ofIpld?_toIpld (h : Header) : Header.ofIpld? h.toIpld = some h := by
  have hroots : ∀ cs : List Cid, (cs.map Ipld.link).mapM link? = some cs := by
    intro cs
    induction cs with
    | nil => rfl
    | cons c cs ih => simp [link?, ih]
  simp [Header.ofIpld?, Header.toIpld, hroots]

/-- The blocks of an export are those of the map, each once. -/
theorem mem_exportOrder {root : Cid} {rootBytes : Bytes} {blocks : Blocks}
    (h : blocks[root]? = some rootBytes) {cid : Cid} {bytes : Bytes} :
    (cid, bytes) ∈ exportOrder root rootBytes blocks ↔ blocks[cid]? = some bytes := by
  simp only [exportOrder, List.mem_cons, Prod.mk.injEq, List.mem_filter,
    Std.ExtTreeMap.mem_toList_iff_getElem?_eq_some, decide_eq_true_eq]
  constructor
  · rintro (⟨rfl, rfl⟩ | ⟨hget, -⟩)
    · exact h
    · exact hget
  · intro hget
    by_cases hc : cid = root
    · subst hc
      rw [h] at hget
      exact Or.inl ⟨rfl, (Option.some.inj hget).symm⟩
    · exact Or.inr ⟨hget, hc⟩

/-- The blocks after the root ascend strictly, and none of them is the root. -/
theorem exportOrder_tail_ascending (root : Cid) (rootBytes : Bytes) (blocks : Blocks) :
    (exportOrder root rootBytes blocks).tail.Pairwise (fun a b => compare a.1 b.1 = .lt) ∧
      ∀ b ∈ (exportOrder root rootBytes blocks).tail, b.1 ≠ root := by
  refine ⟨Std.ExtTreeMap.ordered_keys_toList.filter _, ?_⟩
  intro b hb
  simpa using (List.mem_filter.mp hb).2

/-- **An export reads back as it was written.** For every block map that has the root, the reader
takes the whole output, finds version 1 and the single root, and returns the root's block and then
every other block in ascending order, each with its own bytes; and an export fails only without its
root. -/
theorem readCar_exportCar {root : Cid} {rootBytes : Bytes} {blocks : Blocks}
    (h : blocks[root]? = some rootBytes) :
    (∃ car, exportCar root blocks = .ok car ∧
      readCar car = some (⟨[root], 1⟩, exportOrder root rootBytes blocks)) ∧
    (exportOrder root rootBytes blocks).head? = some (root, rootBytes) ∧
    ((exportOrder root rootBytes blocks).tail.Pairwise (fun a b => compare a.1 b.1 = .lt) ∧
      ∀ b ∈ (exportOrder root rootBytes blocks).tail, b.1 ≠ root) ∧
    (∀ cid bytes,
      (cid, bytes) ∈ exportOrder root rootBytes blocks ↔ blocks[cid]? = some bytes) ∧
    ∀ root' blocks' e, exportCar root' blocks' = .error e → root' ∉ blocks' := by
  refine ⟨⟨_, exportCar_eq h, ?_⟩, rfl, exportOrder_tail_ascending _ _ _,
    fun _ _ => mem_exportOrder h, ?_⟩
  · have hheader : (DagCbor.decode (encode (Header.toIpld ⟨[root], 1⟩))).bind Header.ofIpld? =
        some ⟨[root], 1⟩ := by
      rw [encode, DagCbor.decode_encode (Header.toIpld_sorted _), Option.bind_some,
        Header.ofIpld?_toIpld]
    simp only [readCar, readSection_frame, Option.bind_eq_bind, Option.bind_some, hheader,
      readBlocks_frames _ le_rfl, Option.pure_def]
  · intro root' blocks' e he hmem
    obtain ⟨bytes, hget⟩ :=
      Option.isSome_iff_exists.mp (Std.ExtTreeMap.isSome_getElem?_iff_mem.mpr hmem)
    rw [exportCar_eq hget] at he
    cases he

/-- Two blocks, one of them empty and in front of the root in the map's order. -/
theorem readCar_exportCar_two :
    ∃ car, exportCar (cidFor sha2 [7]) (Cas.insertAll (cidFor sha2) [[], [7]] ∅) = .ok car ∧
      readCar car = some (⟨[cidFor sha2 [7]], 1⟩,
        exportOrder (cidFor sha2 [7]) [7] (Cas.insertAll (cidFor sha2) [[], [7]] ∅)) :=
  (readCar_exportCar (by decide +kernel)).1

end PurpleSky.Repo.Car
