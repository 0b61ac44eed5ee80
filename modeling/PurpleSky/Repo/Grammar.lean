import PurpleSky.Repo.RecordSet

/-!
# The grammar of record paths

`RecordPath` is a path in its parts, with what the grammar asks of each of them, and `toBytes` its
text. `syntax::path` accepts these texts and no others:

* **`path_eq_ok`**: a text is accepted exactly when it is the text of a `RecordPath`.
* **`RecordPath.toBytes_injective`**: of one only.
* `RecordPath.length_le`, `RecordPath.ascii`: it is short, and it is ASCII.

`nsidValidIndexed` and `metadataIndexed` are checks with their indexing as steps that can panic.
They are the checks without them (`nsidValidIndexed_eq`, `metadataIndexed_eq`), and `put` does not
get to its `expect` with a path that does not split (`throws_prepare`). **`path_grammar`** puts it
together.
-/

namespace PurpleSky.Repo

open Bytes

/-- An error that a call returns, and no abort of the process. -/
def Error.Returned (e : Error) : Prop := ∀ what, e ≠ .panic what

namespace Syntax

/-! ## The parts of a path -/

/-- A label of an authority: lowercase letters, digits and hyphens, with no hyphen at an end. -/
structure IsLabel (s : Bytes) : Prop where
  ne_nil : s ≠ []
  length_le : s.length ≤ 63
  head_ne : s.head? ≠ some 45
  getLast_ne : s.getLast? ≠ some 45
  chars : ∀ c ∈ s, isLower c = true ∨ isDigit c = true ∨ c = 45

/-- The name at the end of a collection: letters and digits after a letter. -/
structure IsName (s : Bytes) : Prop where
  head : ∃ c, s.head? = some c ∧ isAlpha c = true
  length_le : s.length ≤ 63
  chars : ∀ c ∈ s, isAlnum c = true

/-- A record key: letters, digits and `.-_:~`, and not one of the two names of directories. -/
structure IsKey (s : Bytes) : Prop where
  ne_nil : s ≠ []
  length_le : s.length ≤ 512
  chars : ∀ c ∈ s, isAlnum c = true ∨ c ∈ str ".-_:~"
  ne_dot : s ≠ [46]
  ne_dots : s ≠ [46, 46]

/-- A record path: the labels of the authority, the name of the collection and the key. -/
@[ext]
structure RecordPath where
  labels : List Bytes
  name : Bytes
  key : Bytes
  two_le : 2 ≤ labels.length
  isLabel : ∀ l ∈ labels, IsLabel l
  letter : ∃ first c, labels.head? = some first ∧ first.head? = some c ∧ isAlpha c = true
  length_authority : ([46].intercalate labels).length ≤ 253
  isName : IsName name
  isKey : IsKey key

namespace RecordPath

/-- The labels with their dots. -/
def authority (p : RecordPath) : Bytes := [46].intercalate p.labels

/-- The collection. -/
def collection (p : RecordPath) : Bytes := p.authority ++ 46 :: p.name

/-- The text of a path. -/
def toBytes (p : RecordPath) : Bytes := p.collection ++ 47 :: p.key

end RecordPath

/-! ## Classes of bytes -/

/-- Letters and digits are characters of one byte, and separate nothing. -/
theorem ascii_of_isAlnum {c : UInt8} (h : isAlnum c = true) : c.toNat < 128 ∧ c ≠ 46 ∧ c ≠ 47 := by
  simp only [isAlnum, isAlpha, isLower, isUpper, isDigit, Bool.or_eq_true, Bool.and_eq_true,
    decide_eq_true_eq, UInt8.le_iff_toNat_le, UInt8.toNat_ofNat] at h
  refine ⟨by omega, ?_, ?_⟩
  · rintro rfl
    simp at h
  · rintro rfl
    simp at h

/-- A small letter is a letter. -/
theorem isAlnum_of_isLower {c : UInt8} (h : isLower c = true) : isAlnum c = true := by
  simp [isAlnum, isAlpha, h]

/-- A digit is one of the letters and digits. -/
theorem isAlnum_of_isDigit {c : UInt8} (h : isDigit c = true) : isAlnum c = true := by
  simp [isAlnum, h]

namespace IsLabel

variable {s : Bytes}

theorem ascii (h : IsLabel s) {c : UInt8} (hc : c ∈ s) : c.toNat < 128 ∧ c ≠ 46 ∧ c ≠ 47 := by
  rcases h.chars c hc with h | h | rfl
  · exact ascii_of_isAlnum (isAlnum_of_isLower h)
  · exact ascii_of_isAlnum (isAlnum_of_isDigit h)
  · decide

/-- Where a label starts with a letter, it is a lowercase one. -/
theorem isLower_of_isAlpha (h : IsLabel s) {c : UInt8} (hc : c ∈ s) (halpha : isAlpha c = true) :
    isLower c = true := by
  rcases h.chars c hc with h | h | rfl
  · exact h
  · simp only [isAlpha, isLower, isUpper, isDigit, Bool.or_eq_true, Bool.and_eq_true,
      decide_eq_true_eq, UInt8.le_iff_toNat_le, UInt8.toNat_ofNat] at h halpha
    omega
  · cases halpha

end IsLabel

/-- The check of a label accepts exactly the labels. -/
theorem labelValid_iff {s : Bytes} : labelValid s = true ↔ IsLabel s := by
  simp only [labelValid, Bool.and_eq_true, Bool.not_eq_true', List.isEmpty_eq_false_iff,
    decide_eq_true_eq, bne_iff_ne, List.all_eq_true, Bool.or_eq_true, beq_iff_eq, or_assoc]
  constructor
  · rintro ⟨⟨⟨⟨h₁, h₂⟩, h₃⟩, h₄⟩, h₅⟩
    exact ⟨h₁, h₂, h₃, h₄, h₅⟩
  · rintro ⟨h₁, h₂, h₃, h₄, h₅⟩
    exact ⟨⟨⟨⟨h₁, h₂⟩, h₃⟩, h₄⟩, h₅⟩

namespace RecordPath

variable (p : RecordPath)

/-- There are labels. -/
theorem labels_ne_nil : p.labels ≠ [] := by
  intro h
  have := p.two_le
  rw [h] at this
  cases this

/-- The labels are the parts of the authority. -/
theorem splitOn_authority : p.authority.splitOn 46 = p.labels :=
  List.splitOn_intercalate 46 (fun l hl hdot => ((p.isLabel l hl).ascii hdot).2.1 rfl)
    p.labels_ne_nil

/-- The authority has no slash. -/
theorem ascii_authority {c : UInt8} (hc : c ∈ p.authority) : c.toNat < 128 ∧ c ≠ 47 := by
  by_cases hdot : c = 46
  · subst hdot
    decide
  · obtain ⟨l, hl, hcl⟩ := exists_part_of_mem hc hdot
    rw [p.splitOn_authority] at hl
    have := (p.isLabel l hl).ascii hcl
    exact ⟨this.1, this.2.2⟩

/-- The collection has no slash. -/
theorem ascii_collection {c : UInt8} (hc : c ∈ p.collection) : c.toNat < 128 ∧ c ≠ 47 := by
  rcases List.mem_append.mp hc with hc | hc
  · exact p.ascii_authority hc
  · rcases List.mem_cons.mp hc with rfl | hc
    · decide
    · have := ascii_of_isAlnum (p.isName.chars c hc)
      exact ⟨this.1, this.2.2⟩

/-- The first slash is the one before the key. -/
theorem splitOnce_toBytes : splitOnce 47 p.toBytes = some (p.collection, p.key) :=
  splitOnce_eq_some_iff.mpr ⟨rfl, fun h => (p.ascii_collection h).2 rfl⟩

/-- The last dot of the collection is the one before the name. -/
theorem rsplitOnce_collection : rsplitOnce 46 p.collection = some (p.authority, p.name) :=
  rsplitOnce_eq_some_iff.mpr ⟨rfl, fun h => (ascii_of_isAlnum (p.isName.chars 46 h)).2.1 rfl⟩

/-- A path has its parts from its text. -/
theorem toBytes_injective : Function.Injective toBytes := by
  intro p q h
  have hsplit := p.splitOnce_toBytes
  rw [h, q.splitOnce_toBytes, Option.some.injEq, Prod.mk.injEq] at hsplit
  have hlast := p.rsplitOnce_collection
  rw [← hsplit.1, q.rsplitOnce_collection, Option.some.injEq, Prod.mk.injEq] at hlast
  have hlabels := p.splitOn_authority
  rw [← hlast.1, q.splitOn_authority] at hlabels
  exact RecordPath.ext hlabels.symm hlast.2.symm hsplit.2.symm

/-- A collection has at most 317 bytes. -/
theorem length_collection : p.collection.length ≤ 317 := by
  have h₁ : p.authority.length ≤ 253 := p.length_authority
  have h₂ := p.isName.length_le
  simp only [collection, List.length_append, List.length_cons]
  omega

/-- A path has at most 830 bytes. -/
theorem length_le : p.toBytes.length ≤ 830 := by
  have h₁ := p.length_collection
  have h₂ := p.isKey.length_le
  simp only [toBytes, List.length_append, List.length_cons]
  omega

theorem ascii {c : UInt8} (hc : c ∈ p.toBytes) : c.toNat < 128 := by
  rcases List.mem_append.mp hc with hc | hc
  · exact (p.ascii_collection hc).1
  · rcases List.mem_cons.mp hc with rfl | hc
    · decide
    · rcases p.isKey.chars c hc with h | h
      · exact (ascii_of_isAlnum h).1
      · have : ∀ c ∈ str ".-_:~", c.toNat < 128 := by decide +kernel
        exact this c h

end RecordPath

/-! ## What the checks accept -/

/-- The check of a name accepts exactly the names. -/
theorem isName_iff {name : Bytes} :
    (name.isEmpty || name.length > 63 || !(name.head?.any isAlpha) || !name.all isAlnum) = false ↔
      IsName name := by
  simp only [Bool.or_eq_false_iff, Bool.not_eq_false', List.isEmpty_eq_false_iff,
    decide_eq_false_iff_not, not_lt, List.all_eq_true]
  constructor
  · rintro ⟨⟨⟨-, hlength⟩, hhead⟩, hchars⟩
    rcases h : name.head? with _ | c
    · rw [h] at hhead
      cases hhead
    · rw [h, Option.any_some] at hhead
      exact ⟨⟨c, h, hhead⟩, hlength, hchars⟩
  · rintro ⟨⟨c, hc, halpha⟩, hlength, hchars⟩
    refine ⟨⟨⟨?_, hlength⟩, by rwa [hc, Option.any_some]⟩, hchars⟩
    rintro rfl
    cases hc

/-- The check of a record key accepts exactly the keys. -/
theorem isKey_iff {key : Bytes} :
    (key.isEmpty || key.length > 512 || key == [46] || key == [46, 46] ||
      !key.all fun c => isAlnum c || (str ".-_:~").contains c) = false ↔ IsKey key := by
  simp only [Bool.or_eq_false_iff, Bool.not_eq_false', List.isEmpty_eq_false_iff,
    decide_eq_false_iff_not, not_lt, List.all_eq_true, Bool.or_eq_true, List.contains_iff_mem,
    beq_eq_false_iff_ne]
  constructor
  · rintro ⟨⟨⟨⟨h₁, h₂⟩, h₃⟩, h₄⟩, h₅⟩
    exact ⟨h₁, h₂, h₅, h₃, h₄⟩
  · rintro ⟨h₁, h₂, h₅, h₃, h₄⟩
    exact ⟨⟨⟨⟨h₁, h₂⟩, h₃⟩, h₄⟩, h₅⟩

/-- A collection that is accepted comes apart at its last dot and the dots before it. -/
theorem exists_of_nsidValid {nsid key : Bytes} (h : nsidValid nsid = true) (hkey : IsKey key) :
    ∃ p : RecordPath, p.collection = nsid ∧ p.key = key := by
  unfold nsidValid at h
  rcases hsplit : rsplitOnce 46 nsid with _ | ⟨authority, name⟩
  · rw [hsplit] at h
    cases h
  · rw [hsplit] at h
    simp only [Bool.or_assoc] at h
    split_ifs at h with hbad
    rw [Bool.not_eq_true, Bool.or_eq_false_iff, Bool.or_eq_false_iff] at hbad
    obtain ⟨-, hauthority, hname⟩ := hbad
    simp only [Bool.and_eq_true, decide_eq_true_eq, List.all_eq_true] at h
    obtain ⟨⟨htwo, hletter⟩, hlabels⟩ := h
    have hjoin : [46].intercalate (authority.splitOn 46) = authority := List.intercalate_splitOn 46
    refine ⟨⟨authority.splitOn 46, name, key, htwo, fun l hl => labelValid_iff.mp (hlabels l hl),
      ?_, ?_, isName_iff.mp (by simpa only [Bool.or_assoc] using hname), hkey⟩, ?_, rfl⟩
    · rcases hfirst : (authority.splitOn 46).head? with _ | first
      · rw [hfirst] at hletter
        cases hletter
      rcases hc : first.head? with _ | c
      · rw [hfirst, Option.bind_some, hc] at hletter
        cases hletter
      rw [hfirst, Option.bind_some, hc, Option.any_some] at hletter
      exact ⟨first, c, rfl, hc, by rw [isAlpha, hletter, Bool.true_or]⟩
    · rw [hjoin]
      exact not_lt.mp (of_decide_eq_false hauthority)
    · show [46].intercalate (authority.splitOn 46) ++ 46 :: name = nsid
      rw [hjoin]
      exact (rsplitOnce_eq_some_iff.mp hsplit).1.symm

/-- The collection of a path is accepted. -/
theorem RecordPath.nsidValid_collection (p : RecordPath) : nsidValid p.collection = true := by
  have h₁ : ¬253 < p.authority.length := not_lt.mpr p.length_authority
  have h₂ : ¬317 < p.collection.length := not_lt.mpr p.length_collection
  obtain ⟨first, c, hfirst, hc, halpha⟩ := p.letter
  have hlabel := p.isLabel first (List.mem_of_mem_head? hfirst)
  have hlower := hlabel.isLower_of_isAlpha (List.mem_of_mem_head? hc) halpha
  have hname := isName_iff.mpr p.isName
  unfold nsidValid
  rw [p.rsplitOnce_collection]
  simp only [Bool.or_assoc, gt_iff_lt] at hname ⊢
  rw [hname, decide_eq_false h₁, decide_eq_false h₂]
  simp only [Bool.or_false, Bool.false_eq_true, if_false]
  rw [p.splitOn_authority, hfirst, Option.bind_some, hc, Option.any_some, hlower]
  simp only [ge_iff_le, p.two_le, decide_true, Bool.true_and, List.all_eq_true]
  exact fun l hl => labelValid_iff.mpr (p.isLabel l hl)

/-- **The accepted texts are the texts of paths.** -/
theorem path_eq_ok {s : Bytes} : path s = .ok () ↔ ∃ p : RecordPath, p.toBytes = s := by
  unfold path
  constructor
  · intro h
    rcases hsplit : splitOnce 47 s with _ | ⟨nsid, key⟩
    · simp only [hsplit] at h
      cases h
    · simp only [hsplit, Bool.or_assoc] at h
      split_ifs at h with hbad
      rw [Bool.not_eq_true, Bool.or_eq_false_iff, Bool.not_eq_false'] at hbad
      obtain ⟨p, rfl, rfl⟩ := exists_of_nsidValid hbad.1
        (isKey_iff.mp (by simpa only [Bool.or_assoc] using hbad.2))
      exact ⟨p, (splitOnce_eq_some_iff.mp hsplit).1.symm⟩
  · rintro ⟨p, rfl⟩
    have hkey := isKey_iff.mpr p.isKey
    simp only [p.splitOnce_toBytes, Bool.or_assoc] at hkey ⊢
    rw [hkey, p.nsidValid_collection]
    rfl

/-! ## Indexing -/

/-- The element at an index, which is there or the process aborts. -/
def index {α : Type} (xs : List α) (i : Nat) : Except Error α :=
  okOr xs[i]? (.panic "index out of bounds")

/-- The first item of a list that has one. -/
theorem index_zero {α : Type} {xs : List α} (h : xs ≠ []) : ∃ x, xs.head? = some x ∧
    index xs 0 = .ok x := by
  obtain ⟨x, rest, rfl⟩ := List.exists_cons_of_ne_nil h
  exact ⟨x, rfl, rfl⟩

/-- `nsidValid` with its two indexed reads in their places.
Source: `syntax.rs`, `nsid_valid` -/
def nsidValidIndexed (nsid : Bytes) : Except Error Bool :=
  match rsplitOnce 46 nsid with
  | none => pure false
  | some (authority, name) =>
      if nsid.length > 317 || authority.length > 253 || name.isEmpty || name.length > 63 then
        pure false
      else do
        let initial ← index name 0
        if !isAlpha initial || !name.all isAlnum then pure false
        else
          let segments := authority.splitOn 46
          if segments.length < 2 then pure false
          else do
            let first ← index segments 0
            pure (first.head?.any isLower && segments.all labelValid)

/-- `metadata` with its indexed read in its place.
Source: `syntax.rs`, `metadata` -/
def metadataIndexed (did rev : Bytes) : Except Error Unit :=
  let validDid :=
    match stripPrefix (str "did:plc:") did with
    | some id => plcValid id
    | none =>
        match stripPrefix (str "did:web:") did with
        | some domain => webValid domain
        | none => false
  if !validDid then
    .error (.invalidMetadata "expected normalized did:plc or hostname-only did:web")
  else if rev.length ≠ 13 then
    .error (.invalidMetadata "revision must be a 13-character TID")
  else do
    let initial ← index rev 0
    if !(str "234567abcdefghij").contains initial ||
        !rev.all (str "234567abcdefghijklmnopqrstuvwxyz").contains then
      .error (.invalidMetadata "revision must be a 13-character TID")
    else pure ()

/-- What is indexed is not empty: the name was looked at, and a split has a part. -/
theorem nsidValidIndexed_eq (nsid : Bytes) : nsidValidIndexed nsid = .ok (nsidValid nsid) := by
  unfold nsidValidIndexed nsidValid
  rcases rsplitOnce 46 nsid with _ | ⟨authority, name⟩
  · rfl
  · simp only [Bool.or_assoc]
    by_cases hbad : (decide (nsid.length > 317) || (decide (authority.length > 253) ||
        (name.isEmpty || decide (name.length > 63)))) = true
    · rw [if_pos hbad, if_pos]
      · rfl
      · simp only [Bool.or_eq_true] at hbad ⊢
        tauto
    · rw [if_neg hbad]
      simp only [Bool.or_eq_true, not_or, List.isEmpty_iff] at hbad
      obtain ⟨initial, hinitial, hindex⟩ := index_zero hbad.2.2.1
      obtain ⟨first, hfirst, hsegment⟩ := index_zero (List.splitOn_ne_nil 46 authority)
      have hname : name.isEmpty = false := by simpa using hbad.2.2.1
      rw [hindex, hinitial, hfirst, hsegment, hname, Option.any_some, Option.bind_some,
        Bool.eq_false_iff.mpr hbad.1, Bool.eq_false_iff.mpr hbad.2.1,
        Bool.eq_false_iff.mpr hbad.2.2.2]
      simp only [Bool.false_or]
      show (if _ then _ else if _ then _ else _) = _
      split_ifs with h₁ h₂
      · rfl
      · rw [decide_eq_false (by omega)]
        rfl
      · rw [decide_eq_true (by omega)]
        rfl

/-- A revision of thirteen characters has a first one. -/
theorem metadataIndexed_eq (did rev : Bytes) : metadataIndexed did rev = metadata did rev := by
  unfold metadataIndexed metadata
  refine if_congr Iff.rfl rfl ?_
  by_cases hlength : rev.length = 13
  · have hne : rev ≠ [] := by
      rintro rfl
      cases hlength
    obtain ⟨initial, hinitial, hindex⟩ := index_zero hne
    rw [if_neg (not_not.mpr hlength), hindex, hinitial, Option.any_some]
    simp [hlength]
    rfl
  · rw [if_pos hlength, if_pos (by simp [hlength])]

/-- The syntax of a commit finds its metadata invalid, and nothing else. -/
theorem throws_metadata {did rev : Bytes} :
    Throws (fun e => ∃ message, e = .invalidMetadata message) (metadata did rev) := by
  unfold metadata
  show Throws _ (if _ then _ else if _ then _ else _)
  exact throws_ite (throws_error ⟨_, rfl⟩) (throws_ite (throws_error ⟨_, rfl⟩) (throws_pure _))

/-- A path that is not accepted is an invalid path. -/
theorem throws_path {s : Bytes} : Throws Error.Returned (path s) := by
  unfold path
  split
  · exact throws_ite (throws_error nofun) (throws_pure _)
  · exact throws_error nofun

end Syntax

/-! ## The checks of a put -/

variable {parse : Bytes → Option Cid}

/-- A limit is returned as an error. -/
theorem throws_limit {what : String} :
    Throws Error.Returned (.error (.limit what) : Except Error α) := by
  refine throws_error fun _ h => ?_
  cases h

/-- Charging the budget does not panic. -/
theorem throws_charge {budget amount : Nat} : Throws Error.Returned (charge budget amount) :=
  throws_ite (throws_pure _) (throws_error nofun)

/-- Checking an integer does not panic. -/
theorem throws_safeInteger {value : Json} : Throws Error.Returned (safeInteger value) := by
  unfold safeInteger
  split
  · exact throws_ite (throws_pure _) (throws_error nofun)
  · exact throws_error nofun

/-- Reading a link does not panic. -/
theorem throws_linkWrapper {fields : List (Bytes × Json)} {link : Json} {budget : Nat} :
    Throws Error.Returned (linkWrapper parse fields link budget) := by
  unfold linkWrapper
  refine throws_ite (throws_error nofun) ?_
  split
  · refine throws_ite (throws_error nofun) (Throws.bind throws_charge fun left _ => ?_)
    split
    · exact throws_ite (throws_pure _) (throws_error nofun)
    · exact throws_error nofun
  · exact throws_error nofun

/-- Reading bytes does not panic. -/
theorem throws_bytesWrapper {fields : List (Bytes × Json)} {bytes : Json} {budget : Nat} :
    Throws Error.Returned (bytesWrapper fields bytes budget) := by
  unfold bytesWrapper
  refine throws_ite (throws_error nofun) ?_
  split
  · refine Throws.bind throws_charge fun left _ => ?_
    split
    · exact throws_pure _
    · exact throws_error nofun
  · exact throws_error nofun

/-- Conversion returns its errors. -/
theorem throws_jsonToIpld (v : Json) (depth budget : Nat) :
    Throws Error.Returned (jsonToIpld parse v depth budget) := by
  induction v using Json.inductOn generalizing depth budget with
  | null | bool b | string s =>
      unfold jsonToIpld
      exact throws_ite (throws_limit) (Throws.bind throws_charge fun _ _ => throws_pure _)
  | integer n | float bits =>
      unfold jsonToIpld
      exact throws_ite (throws_limit) (Throws.bind throws_charge fun _ _ =>
        Throws.bind throws_safeInteger fun _ _ => throws_pure _)
  | array values ih =>
      have items : ∀ values : List Json, (∀ w ∈ values, ∀ depth budget,
          Throws Error.Returned (jsonToIpld parse w depth budget)) → ∀ depth budget,
          Throws Error.Returned (jsonItems parse values depth budget) := by
        intro values
        induction values with
        | nil =>
            intro _ depth budget
            exact throws_pure _
        | cons w values ihItems =>
            intro hvalues depth budget
            rw [List.forall_mem_cons] at hvalues
            rw [jsonItems]
            exact Throws.bind (hvalues.1 depth budget) fun _ _ =>
              Throws.bind (ihItems hvalues.2 _ _) fun _ _ => throws_pure _
      unfold jsonToIpld
      exact throws_ite (throws_limit) (Throws.bind throws_charge fun _ _ =>
        Throws.bind (items values ih _ _) fun _ _ => throws_pure _)
  | object values ih =>
      have fields : ∀ values : List (Bytes × Json), (∀ f ∈ values, ∀ depth budget,
          Throws Error.Returned (jsonToIpld parse f.2 depth budget)) → ∀ depth budget,
          Throws Error.Returned (jsonFields parse values depth budget) := by
        intro values
        induction values with
        | nil =>
            intro _ depth budget
            exact throws_pure _
        | cons f values ihFields =>
            intro hvalues depth budget
            rw [List.forall_mem_cons] at hvalues
            rw [jsonFields]
            exact Throws.bind throws_charge fun _ _ => Throws.bind (hvalues.1 depth _) fun _ _ =>
              Throws.bind (ihFields hvalues.2 _ _) fun _ _ => throws_pure _
      unfold jsonToIpld
      refine throws_ite (throws_limit) (Throws.bind throws_charge fun _ _ => ?_)
      rcases hlink : values.lookup (str "$link") with _ | link
      · rcases hbytes : values.lookup (str "$bytes") with _ | bytes
        · simp only [hlink, hbytes]
          exact Throws.bind (fields values ih _ _) fun _ _ => throws_pure _
        · simp only [hlink, hbytes]
          exact throws_bytesWrapper
      · simp only [hlink]
        exact throws_linkWrapper

/-- A put aborts nowhere but where its count of bytes would underflow. -/
theorem throws_prepare {H : Sha256} {path : Bytes} {value : Json} {s : RecordSet} :
    Throws (fun e => ∀ what, e = .panic what →
        what = "attempt to subtract with overflow" ∧ s.encodedBytes < s.bytesAt path)
      (prepare H parse path value s) := by
  have returned : ∀ e : Error, e.Returned → ∀ what, e = .panic what →
      what = "attempt to subtract with overflow" ∧ s.encodedBytes < s.bytesAt path :=
    fun e he what h => absurd h (he what)
  unfold prepare
  refine Throws.bind (Syntax.throws_path.mono returned) fun _ hpath => ?_
  -- the path was accepted, so that there is a slash to split at
  obtain ⟨nsid, key, hsplit, -⟩ := Syntax.exists_split_of_path hpath
  simp only [hsplit]
  refine throws_ite (throws_error nofun) (throws_ite (throws_error nofun) ?_)
  refine Throws.bind ((throws_jsonToIpld value _ _).mono returned) fun _ _ => ?_
  refine throws_ite (throws_error nofun) ?_
  by_cases hunder : s.encodedBytes < s.bytesAt path
  · rw [if_pos hunder]
    refine throws_error fun what h => ⟨?_, hunder⟩
    exact (Error.panic.inj h).symm
  · rw [if_neg hunder]
    exact throws_ite (throws_error nofun) (throws_pure _)

/-- The error of a put is the error of its checks. -/
theorem put_fst_eq_error {H : Sha256} {path : Bytes} {value : Json} {s : RecordSet} {e : Error} :
    (put H parse path value s).1 = .error e ↔ prepare H parse path value s = .error e := by
  unfold put
  rcases prepare H parse path value s with e' | ⟨record, n⟩ <;> simp

/-- **Record paths.** A text is accepted exactly when it is the text of a path in its parts, and
then of one only; it is ASCII, of at most 830 bytes. The indexed reads of the checks are in range
for every text, and a put gets to its `expect` with no path that it could fail on: from any set it
is not reached, and from a set made by calls a put does not abort at all. -/
theorem path_grammar (H : Sha256) (parse : Bytes → Option Cid) :
    (∀ s, Syntax.path s = .ok () ↔ ∃ p : Syntax.RecordPath, p.toBytes = s) ∧
    (∀ p q : Syntax.RecordPath, p.toBytes = q.toBytes → p = q) ∧
    (∀ s, Syntax.path s = .ok () → s.length ≤ 830 ∧ ∀ c ∈ s, c.toNat < 128) ∧
    (∀ nsid, Syntax.nsidValidIndexed nsid = .ok (Syntax.nsidValid nsid)) ∧
    (∀ did rev, Syntax.metadataIndexed did rev = Syntax.metadata did rev ∧
      Throws Error.Returned (Syntax.metadataIndexed did rev)) ∧
    (∀ path value s, (put H parse path value s).1 ≠ .error (.panic "validated path")) ∧
    ∀ path value calls,
      Throws Error.Returned (put H parse path value (runCalls H parse calls RecordSet.new)).1 := by
  refine ⟨fun s => Syntax.path_eq_ok, fun p q h => Syntax.RecordPath.toBytes_injective h, ?_,
    Syntax.nsidValidIndexed_eq, ?_, ?_, ?_⟩
  · intro s h
    obtain ⟨p, rfl⟩ := Syntax.path_eq_ok.mp h
    exact ⟨p.length_le, fun c hc => p.ascii hc⟩
  · intro did rev
    refine ⟨Syntax.metadataIndexed_eq did rev, ?_⟩
    rw [Syntax.metadataIndexed_eq]
    exact Syntax.throws_metadata.mono fun e ⟨message, he⟩ what h => by
      rw [he] at h
      cases h
  · intro path value s h
    have := throws_prepare _ (put_fst_eq_error.mp h) _ rfl
    exact absurd this.1 (by decide)
  · rintro path value calls e h what rfl
    have hunder := (throws_prepare _ (put_fst_eq_error.mp h) _ rfl).2
    exact absurd ((valid_runCalls valid_new calls).bytesAt_le path) (not_le.mpr hunder)

end PurpleSky.Repo
