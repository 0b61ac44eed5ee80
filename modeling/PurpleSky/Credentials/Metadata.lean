import PurpleSky.Lib.Digits
import PurpleSky.Credentials.Binding

/-!
# Identities and revisions in a repository

A repository checks the DID and the revision of its commits with a syntax of its own. The identities
that the store accepts, and the revisions it makes of a time, are within it.

* `ofSortable_revision`, `revision_lt`: revisions stand for times, in order.
* `metadata_of_validate`: a repository takes a validated identity at any time.
* **`generated_acceptable`** puts these together.
* **`throws_bindVerified`**: binding what is acceptable fails only with the storage.
-/

namespace PurpleSky.Credentials

open Bytes Store

/-! ## Revisions -/

/-- The symbols of a revision, in order. -/
def sortable : Bytes := str "234567abcdefghijklmnopqrstuvwxyz"

/-- The number that a text of these symbols stands for. -/
def ofSortable (s : Bytes) : Nat := Digits.value 32 (s.map sortable.idxOf)

/-- What a revision stands for: the microseconds of a time shifted by ten bits, up to the largest
number. -/
def ticks (seconds : Nat) : Nat := min (min (seconds * 1000000) u64Max * 1024) u64Max

theorem revision_eq (n : Nat) :
    revision n = (Digits.digits 32 13 (ticks n)).map fun d => sortable.getD d 50 := by
  rw [Digits.digits, List.map_map]
  rfl

theorem ticks_lt (n : Nat) : ticks n < 2 ^ 64 := by
  have hmax : u64Max = 2 ^ 64 - 1 := rfl
  have hle : ticks n ≤ u64Max := min_le_right _ _
  omega

theorem ticks_of_lt {n : Nat} (h : n * 1024000000 < 2 ^ 64) : ticks n = n * 1024000000 := by
  have hmax : u64Max = 2 ^ 64 - 1 := rfl
  unfold ticks
  omega

theorem ticks_of_le {n : Nat} (h : 2 ^ 64 ≤ n * 1024000000) : ticks n = 2 ^ 64 - 1 := by
  have hmax : u64Max = 2 ^ 64 - 1 := rfl
  unfold ticks
  omega

theorem ticks_mod (n : Nat) : ticks n % 32 ^ 13 = ticks n :=
  Nat.mod_eq_of_lt ((ticks_lt n).trans (by decide))

/-- A revision is read back as its ticks. -/
theorem ofSortable_revision (n : Nat) : ofSortable (revision n) = ticks n := by
  have hindex : ∀ d < 32, sortable.idxOf (sortable.getD d 50) = d := by decide +kernel
  have hdigits : (revision n).map sortable.idxOf = Digits.digits 32 13 (ticks n) := by
    rw [revision_eq, List.map_map]
    refine (List.map_congr_left fun d hd => ?_).trans (List.map_id _)
    exact hindex d (Digits.lt_of_mem_digits (by decide) hd)
  rw [ofSortable, hdigits, Digits.value_digits, ticks_mod]

/-- Revisions are in the order of their ticks. -/
theorem revision_lt {s t : Nat} (h : ticks s < ticks t) : revision s < revision t := by
  have hsymbols : ∀ j < 32, ∀ i < j, sortable.getD i 50 < sortable.getD j 50 := by decide +kernel
  rw [revision_eq, revision_eq]
  refine Digits.map_digits_lt (by decide) (fun i j hij hj => hsymbols j hj i hij) ?_
  rwa [ticks_mod, ticks_mod]

/-- The symbols of a revision are those of the syntax, and the first one is of its first half. -/
theorem revision_syntax (n : Nat) :
    (revision n).length = 13 ∧ (revision n).head?.any (str "234567abcdefghij").contains = true ∧
      (revision n).all sortable.contains = true := by
  have hsymbol : ∀ d < 32, sortable.contains (sortable.getD d 50) = true := by decide +kernel
  have hfirst : ∀ d < 16, (str "234567abcdefghij").contains (sortable.getD d 50) = true := by
    decide +kernel
  rw [revision_eq]
  refine ⟨by simp, ?_, List.all_eq_true.mpr fun b hb => ?_⟩
  · have hvalue : ticks n / 32 ^ 12 < 16 := by
      have hlt := ticks_lt n
      omega
    have hsmall : ticks n / 32 ^ 12 < 32 := hvalue.trans (by decide)
    rw [Digits.digits_succ, List.map_cons, List.head?_cons, Option.any_some,
      Nat.mod_eq_of_lt hsmall]
    exact hfirst _ hvalue
  · obtain ⟨d, hd, rfl⟩ := List.mem_map.mp hb
    exact hsymbol d (Digits.lt_of_mem_digits (by decide) hd)

/-! ## Identities -/

/-- What the syntax makes of a DID that was found valid or not, and a revision. -/
theorem metadata_iff {valid : Bool} {rev : Bytes} :
    (if !valid then
      .error (.invalidMetadata "expected normalized did:plc or hostname-only did:web")
    else if rev.length ≠ 13 || !(rev.head?.any (str "234567abcdefghij").contains) ||
        !rev.all (str "234567abcdefghijklmnopqrstuvwxyz").contains then
      .error (.invalidMetadata "revision must be a 13-character TID")
    else pure () : Except Repo.Error Unit) = .ok () ↔
      valid = true ∧ rev.length = 13 ∧ rev.head?.any (str "234567abcdefghij").contains = true ∧
        rev.all sortable.contains = true := by
  have hsortable : sortable = str "234567abcdefghijklmnopqrstuvwxyz" := rfl
  rw [hsortable]
  split_ifs with hvalid hrev
  · simp only [Bool.not_eq_true'] at hvalid
    simp [hvalid]
  · refine iff_of_false (fun h => nomatch h) fun h => ?_
    simp [h.2.1, h.2.2.1, h.2.2.2] at hrev
  · simp only [Bool.or_eq_true, not_or, decide_eq_true_eq, ne_eq, not_not, Bool.not_eq_true',
      Bool.not_eq_false] at hvalid hrev
    exact iff_of_true rfl ⟨hvalid, hrev.1.1, hrev.1.2, hrev.2⟩

/-- A repository takes a generated revision where it takes any other. -/
theorem metadata_revision {did rev : Bytes} (h : Repo.Syntax.metadata did rev = .ok ()) (n : Nat) :
    Repo.Syntax.metadata did (revision n) = .ok () :=
  metadata_iff.mpr ⟨(metadata_iff.mp h).1, revision_syntax n⟩

/-- The host of a DID is what a repository takes it for. -/
theorem metadata_didHost {did name : Bytes} (hdid : didHost did = some name)
    (hname : Repo.Syntax.webValid name = true) (n : Nat) :
    Repo.Syntax.metadata did (revision n) = .ok () := by
  have hplc : stripPrefix (str "did:plc:") did = none := by
    rw [didHost, stripPrefix_eq_some] at hdid
    rw [hdid]
    rfl
  have hweb : stripPrefix (str "did:web:") did = some name := hdid
  unfold Repo.Syntax.metadata
  simp only [hplc, hweb]
  exact metadata_iff.mpr ⟨hname, revision_syntax n⟩

/-- A host name is one of the syntax. -/
theorem webValid_of_validHostname {host : Bytes} (h : validHostname host = true) :
    Repo.Syntax.webValid host = true := by
  have hlower : ∀ b : UInt8, isAlpha b = true → (isLower b || isDigit b || b == 45) = true →
      isLower b = true := by decide +kernel
  simp only [validHostname, Bool.and_eq_true] at h
  obtain ⟨⟨⟨hlength, hdot⟩, hlabels⟩, htld⟩ := h
  cases hlast : (host.splitOn 46).getLast? with
  | none =>
      rw [hlast] at htld
      cases htld
  | some tld =>
      rw [hlast, Option.any_some, Bool.and_eq_true] at htld
      have hlabel := List.all_eq_true.mp hlabels tld (List.mem_of_getLast? hlast)
      have hbytes : tld.all (fun c => isLower c || isDigit c || c == 45) = true := by
        simp only [Repo.Syntax.labelValid, Bool.and_eq_true] at hlabel
        exact hlabel.2
      have hany : tld.any isLower = true := by
        cases hhead : tld.head? with
        | none =>
            rw [hhead] at htld
            cases htld.1
        | some b =>
            rw [hhead] at htld
            have hmem := List.mem_of_mem_head? hhead
            exact List.any_eq_true.mpr ⟨b, hmem, hlower b htld.1 (List.all_eq_true.mp hbytes b hmem)⟩
      have hlastLower : (host.splitOn 46).getLast?.any (fun s => s.any isLower) = true := by
        rw [hlast]
        exact hany
      unfold Repo.Syntax.webValid
      rw [hlength, hdot, hlabels, hlastLower]
      exact Bool.or_true _

/-- So is this machine, with any port but zero. -/
theorem webValid_localhost {port : Option Nat} (hport : ∀ p ∈ port, p < 65536)
    (hne : port ≠ some 0) :
    ∃ name, didHost (localDid port) = some name ∧ Repo.Syntax.webValid name = true := by
  have hdid : ∀ s, didHost (str "did:web:localhost" ++ s) = some (str "localhost" ++ s) := fun s =>
    stripPrefix_eq_some.mpr rfl
  refine ⟨_, hdid _, ?_⟩
  unfold Repo.Syntax.webValid
  cases port with
  | none => rfl
  | some p =>
      have hp : 0 < p := Nat.pos_of_ne_zero fun h => hne (congrArg some h)
      have hstrip : stripPrefix (str "localhost%3A") (str "localhost" ++ (str "%3A" ++ decimal p)) =
          some (decimal p) := stripPrefix_eq_some.mpr rfl
      have hparse := parseU16_decimal (hport p rfl)
      simp only [hstrip, Option.any_some, hparse]
      simp [hp]

/-- A repository takes a validated identity at any time, when ports are numbers of sixteen bits. -/
theorem metadata_of_validate {C : Crates}
    (hport : ∀ s url port, C.parseUrl s = some url → url.port = some port → port < 65536)
    {identity : Identity} (h : identity.validate C = .ok ()) (n : Nat) :
    Repo.Syntax.metadata identity.did (revision n) = .ok () := by
  unfold Identity.validate at h
  obtain ⟨url, hurl, h⟩ := bind_eq_ok.mp h
  obtain ⟨_, -, h⟩ := bind_eq_ok.mp h
  split at h
  · obtain ⟨hdid, -, -, hne⟩ := ensure_eq_ok.mp h
    obtain ⟨name, hname, hvalid⟩ :=
      webValid_localhost (fun p hp => hport _ url p (okOr_eq_ok.mp hurl) hp) hne
    rw [← hdid] at hname
    exact metadata_didHost hname hvalid n
  · simp only [bind_eq_ok, okOr_eq_ok, ensure_eq_ok] at h
    obtain ⟨name, hdid, _, -, _, ⟨hname, -⟩, -⟩ := h
    exact metadata_didHost hdid (webValid_of_validHostname hname) n

/-- A repository of a validated identity is built at any time. -/
theorem exists_build {C : Crates}
    (hport : ∀ s url port, C.parseUrl s = some url → url.port = some port → port < 65536)
    {identity : Identity} (h : identity.validate C = .ok ()) (n : Nat)
    (signer : C.ecdsa.SigningKey) :
    ∃ repo, Repo.build sha2 C.ecdsa identity.did (revision n) Repo.RecordSet.new signer = .ok repo := by
  have hvalid := @Repo.valid_new sha2 fun _ => none
  exact ⟨_, Repo.build_eq (metadata_of_validate hport h n) hvalid signer⟩

/-- **Generated revisions and validated identities are acceptable.** A repository takes the revision
of any time where it takes the DID. Before the bound of sixty-four bits, revisions are in the order
of their times and stand for them; from the bound on they are one. The DID of every validated
identity is taken, so that the repository of a first binding is built. -/
theorem generated_acceptable {C : Crates}
    (hport : ∀ s url port, C.parseUrl s = some url → url.port = some port → port < 65536) :
    (∀ did rev n, Repo.Syntax.metadata did rev = .ok () →
      Repo.Syntax.metadata did (revision n) = .ok ()) ∧
    (∀ s t, s < t → t * 1024000000 < 2 ^ 64 → revision s < revision t) ∧
    (∀ n, n * 1024000000 < 2 ^ 64 → ofSortable (revision n) = n * 1024000000) ∧
    (∀ n, 2 ^ 64 ≤ n * 1024000000 → ofSortable (revision n) = 2 ^ 64 - 1 ∧
      ∀ m, 2 ^ 64 ≤ m * 1024000000 → revision m = revision n) ∧
    (∀ identity : Identity, identity.validate C = .ok () →
      ∀ n, Repo.Syntax.metadata identity.did (revision n) = .ok () ∧
        ∀ signer, ∃ repo,
          Repo.build sha2 C.ecdsa identity.did (revision n) Repo.RecordSet.new signer = .ok repo) := by
  refine ⟨fun _ _ n h => metadata_revision h n, fun s t hst ht => revision_lt ?_, fun n hn => ?_,
    fun n hn => ⟨?_, fun m hm => ?_⟩, fun identity h n => ⟨metadata_of_validate hport h n,
      exists_build hport h n⟩⟩
  · have hs : s * 1024000000 < 2 ^ 64 := (Nat.mul_le_mul_right _ hst.le).trans_lt ht
    rw [ticks_of_lt hs, ticks_of_lt ht]
    exact Nat.mul_lt_mul_of_pos_right hst (Nat.succ_pos _)
  · rw [ofSortable_revision, ticks_of_lt hn]
  · rw [ofSortable_revision, ticks_of_le hn]
  · rw [revision_eq, revision_eq, ticks_of_le hn, ticks_of_le hm]

/-- The sample identity is taken. -/
theorem generated_acceptable_sample :
    Repo.Syntax.metadata sampleIdentity.did (revision 1700000000) = .ok () := by
  have hidentity : sampleIdentity.validate sampleCrates = .ok () := by decide +kernel
  exact ((generated_acceptable sampleCrates_port).2.2.2.2 sampleIdentity hidentity 1700000000).1

/-! ## Binding -/

variable {C : Crates} {io : Faults} {db : Db}

/-- Reading the account fails with the storage. -/
theorem throws_loadAccount : Throws (fun e => e = .persistence) (loadAccount C io db) := by
  unfold loadAccount
  refine Throws.bind (throws_ensure fun _ => rfl) fun _ _ => ?_
  cases db.account with
  | none => exact throws_pure _
  | some row =>
      refine Throws.bind (throws_ensure fun _ => rfl) fun _ _ => ?_
      refine Throws.bind (throws_okOr fun _ => rfl) fun _ _ => ?_
      exact Throws.bind (throws_okOr fun _ => rfl) fun _ _ => throws_pure _

/-- A first account of a validated identity lacks only its key. -/
theorem throws_newAccount
    (hport : ∀ s url port, C.parseUrl s = some url → url.port = some port → port < 65536)
    {fid now : Nat} {authority random : Bytes} {identity : Identity}
    (hidentity : identity.validate C = .ok ()) :
    Throws (fun e => e = .persistence) (newAccount C fid authority identity now random) := by
  unfold newAccount
  refine Throws.bind (throws_okOr fun _ => rfl) fun signer _ => ?_
  obtain ⟨repo, hbuild⟩ := exists_build hport hidentity now signer
  rw [hbuild]
  exact throws_pure _

/-- What `bind_verified` refuses of the account that it finds. -/
def Account.Admits (account : Account) (fid : Nat) (authority : Bytes)
    (identity : Identity) : Prop :=
  account.fid = fid ∧ account.identity = identity ∧
    ¬(account.enabled ∧ account.authority ≠ authority)

/-- **Binding what is acceptable fails only with the storage**: a validated identity, an identifier
in range and an authority of the right form, that the stored account admits where there is one. -/
theorem throws_bindVerified
    (hport : ∀ s url port, C.parseUrl s = some url → url.port = some port → port < 65536)
    {fid now : Nat} {authority random : Bytes} {identity : Identity}
    (hidentity : identity.validate C = .ok ()) (hfid : fid ≠ 0 ∧ fid < 9223372036854775808)
    (hauthority : validAuthority authority = true)
    (hadmits : ∀ a, loadAccount C io db = .ok (some a) → a.Admits fid authority identity) :
    Throws (fun e => e = .persistence) (bindVerified C io db fid authority identity now random) := by
  have hrun : ∀ s, Throws (fun e => e = .persistence) (io.run s) :=
    fun _ => throws_ensure fun _ => rfl
  unfold bindVerified
  refine Throws.bind (fun e he => ?_) fun _ _ => ?_
  · rw [hidentity] at he
    cases he
  refine Throws.bind (throws_ensure fun h => absurd ⟨hfid.1, hfid.2, hauthority⟩ h) fun _ _ => ?_
  refine Throws.bind (hrun _) fun _ _ => Throws.bind throws_loadAccount fun old hold => ?_
  cases old with
  | none =>
      refine Throws.bind (throws_newAccount hport hidentity) fun _ _ => ?_
      exact Throws.bind (hrun _) fun _ _ => Throws.bind (hrun _) fun _ _ => throws_pure _
  | some old =>
      refine Throws.bind (throws_ensure fun h => absurd (hadmits old hold) h) fun _ _ => ?_
      exact Throws.bind (hrun _) fun _ _ => Throws.bind (hrun _) fun _ _ => throws_pure _

end PurpleSky.Credentials
