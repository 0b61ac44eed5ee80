import PurpleSky.Hypersnap.Info
import PurpleSky.Lib.Argmax
import PurpleSky.Lib.Except
import PurpleSky.Lib.Utf8

/-!
# What a node reports of an account's custody (`psky-hypersnap`)

`parseAuthority` reads the events of a registry, in whatever order they come. It keeps the latest
registration or transfer so far, and passes over everything else.

* `parseEvent_eq_ok`: what the loop takes one event for.
* `parseAuthority_eq_ok`: the loop finds the first of the latest moves.
* **`custody_latest`**: what is reported, that the order does not matter, and that no text makes the
  reader panic.
-/

namespace PurpleSky.Hypersnap

open Bytes

/-! ## Reading the events -/

/-- How a reading ends without a result: it gives up, or it panics. -/
inductive Stop where
  | nothing
  | panic
  deriving DecidableEq, Repr

/-- Where an event stands in the chain. -/
structure Position where
  blockNumber : Nat
  txIndex : Nat
  logIndex : Nat
  deriving DecidableEq, Repr

/-- The order of positions: by block, then by transaction, then by log. -/
def Position.key (p : Position) : Nat ×ₗ Nat ×ₗ Nat :=
  toLex (p.blockNumber, toLex (p.txIndex, p.logIndex))

/-- A position is its key. -/
theorem Position.key_injective : Function.Injective Position.key := by
  rintro ⟨_, _, _⟩ ⟨_, _, _⟩ h
  simpa [key] using h

/-- Source: `lib.rs`, `AuthorityObservation` -/
structure AuthorityObservation where
  registryEvents : Nat
  reportedCustody : Option Bytes
  verified : Bool
  deriving DecidableEq, Repr

/-- Source: `lib.rs`, `parse_authority` (one item of its loop) -/
def parseEvent (fid : Nat) (event : Json) : Except Stop (Option (Position × Bytes)) := do
  let reported ← okOr ((event.last (str "fid")).bind Json.asU64) .nothing
  ensure (reported = fid) .nothing
  let body ← okOr (event.last (str "idRegisterEventBody")) .nothing
  let eventType ← okOr ((body.last (str "eventType")).bind Json.asStr) .nothing
  if eventType ≠ str "Register" ∧ eventType ≠ str "Transfer" then pure none
  else do
    let address ← okOr ((body.last (str "to")).bind Json.asStr) .nothing
    ensure (address.length = 42) .nothing
    ensure (str "0x" <+: address) .nothing
    let digits ← okOr (sliceFrom address 2) .panic
    ensure (digits.all isHexDigit = true) .nothing
    let blockNumber ← okOr ((event.last (str "blockNumber")).bind Json.asU64) .nothing
    let txIndex ← okOr ((event.last (str "txIndex")).bind Json.asU64) .nothing
    let logIndex ← okOr ((event.last (str "logIndex")).bind Json.asU64) .nothing
    pure (some (⟨blockNumber, txIndex, logIndex⟩, address))

/-- The later of the latest move so far and another one. -/
def later (latest : Option (Position × Bytes)) (move : Position × Bytes) :
    Option (Position × Bytes) :=
  if latest.all fun previous => previous.1.key < move.1.key then some move else latest

/-- Source: `lib.rs`, `parse_authority` (its loop) -/
def parseEvents (fid : Nat) :
    Option (Position × Bytes) → List Json → Except Stop (Option (Position × Bytes))
  | latest, [] => pure latest
  | latest, event :: events => do
      let move ← parseEvent fid event
      parseEvents fid (move.elim latest (later latest)) events

/-- Source: `lib.rs`, `parse_authority` -/
def parseAuthority (value : Json) (fid : Nat) : Except Stop AuthorityObservation := do
  let events ← okOr ((value.last (str "events")).bind Json.asArray) .nothing
  ensure (events.length ≤ 1024) .nothing
  let latest ← parseEvents fid none events
  pure ⟨events.length, latest.map Prod.snd, false⟩

/-! ## What an event is taken for -/

/-- The account an event is about. -/
def IsFor (fid : Nat) (event : Json) : Prop :=
  (event.last (str "fid")).bind Json.asU64 = some fid

/-- What kind of event it is. -/
def eventType (event : Json) : Option Bytes :=
  ((event.last (str "idRegisterEventBody")).bind (·.last (str "eventType"))).bind Json.asStr

/-- The type of an event stands in its body. -/
theorem eventType_eq_some {event : Json} {t : Bytes} :
    eventType event = some t ↔ ∃ body, event.last (str "idRegisterEventBody") = some body ∧
      (body.last (str "eventType")).bind Json.asStr = some t := by
  rw [eventType, Option.bind_assoc, Option.bind_eq_some_iff]

/-- A registration or a transfer. -/
def Moves (event : Json) : Prop :=
  eventType event = some (str "Register") ∨ eventType event = some (str "Transfer")

instance (event : Json) : Decidable (Moves event) := inferInstanceAs (Decidable (_ ∨ _))

/-- A well-formed registration or transfer, with its position and the address it is to. -/
structure IsMove (event : Json) (position : Position) (address : Bytes) : Prop where
  moves : Moves event
  recipient : ((event.last (str "idRegisterEventBody")).bind (·.last (str "to"))).bind Json.asStr =
    some address
  length : address.length = 42
  digits : ∃ digits, address = str "0x" ++ digits ∧ digits.all isHexDigit = true
  blockNumber : (event.last (str "blockNumber")).bind Json.asU64 = some position.blockNumber
  txIndex : (event.last (str "txIndex")).bind Json.asU64 = some position.txIndex
  logIndex : (event.last (str "logIndex")).bind Json.asU64 = some position.logIndex

/-- Hexadecimal digits are characters of one byte. -/
theorem lt_of_isHexDigit {b : UInt8} (h : isHexDigit b = true) : b < 128 := by
  simp only [isHexDigit, isDigit, Bool.or_eq_true, Bool.and_eq_true, decide_eq_true_eq] at h
  rcases h with (⟨-, h⟩ | ⟨-, h⟩) | ⟨-, h⟩
  · exact UInt8.lt_of_le_of_lt h (by decide)
  · exact UInt8.lt_of_le_of_lt h (by decide)
  · exact UInt8.lt_of_le_of_lt h (by decide)

/-- What follows `0x` is a slice of the text. -/
theorem sliceFrom_hex {digits : Bytes} (h : digits.all isHexDigit = true) :
    sliceFrom (str "0x" ++ digits) 2 = some digits := by
  have hboundary : isCharBoundary (str "0x" ++ digits) 2 = true := by
    cases digits with
    | nil => rfl
    | cons b digits =>
        rw [List.all_cons, Bool.and_eq_true] at h
        have hb : b < 128 := lt_of_isHexDigit h.1
        have hget : (str "0x" ++ b :: digits)[2]? = some b := rfl
        simp [isCharBoundary, hget, hb]
  rw [sliceFrom, if_pos hboundary]
  rfl

/-- What the loop takes one event for. -/
theorem parseEvent_eq_ok {fid : Nat} {event : Json} {m : Option (Position × Bytes)} :
    parseEvent fid event = .ok m ↔ IsFor fid event ∧
      ((∃ t, eventType event = some t) ∧ ¬Moves event ∧ m = none ∨
        ∃ position address, IsMove event position address ∧ m = some (position, address)) := by
  simp only [parseEvent, bind_eq_ok, okOr_eq_ok, ensure_eq_ok]
  constructor
  · rintro ⟨reported, hfid, -, rfl, body, hbody, t, ht, h⟩
    have htype : eventType event = some t := eventType_eq_some.mpr ⟨body, hbody, ht⟩
    refine ⟨hfid, ?_⟩
    split_ifs at h with hother
    · refine .inl ⟨⟨t, htype⟩, fun hmoves => ?_, (pure_eq_ok.mp h).symm⟩
      rw [Moves, htype, Option.some.injEq, Option.some.injEq] at hmoves
      exact hmoves.elim hother.1 hother.2
    · simp only [bind_eq_ok, okOr_eq_ok, ensure_eq_ok, pure_eq_ok] at h
      obtain ⟨address, hto, -, hlength, -, hhead, digits, hslice, -, hhex, blockNumber, hblock,
        txIndex, htx, logIndex, hlog, rfl⟩ := h
      obtain ⟨rest, rfl⟩ := hhead
      rw [sliceFrom] at hslice
      split_ifs at hslice
      obtain rfl := Option.some.inj hslice
      have hmoves : Moves event := by
        rw [Moves, htype, Option.some.injEq, Option.some.injEq]
        tauto
      exact .inr ⟨⟨blockNumber, txIndex, logIndex⟩, _, ⟨hmoves, by rw [hbody, Option.bind_some, hto],
        hlength, ⟨rest, rfl, hhex⟩, hblock, htx, hlog⟩, rfl⟩
  · rintro ⟨hfid, ⟨⟨t, ht⟩, hmoves, rfl⟩ | ⟨position, address, hmove, rfl⟩⟩
    · obtain ⟨body, hbody, ht'⟩ := eventType_eq_some.mp ht
      rw [Moves, ht, Option.some.injEq, Option.some.injEq, not_or] at hmoves
      refine ⟨fid, hfid, (), rfl, body, hbody, t, ht', ?_⟩
      rw [if_pos hmoves]
      rfl
    · obtain ⟨hmoves, hto, hlength, ⟨digits, rfl, hhex⟩, hblock, htx, hlog⟩ := hmove
      obtain ⟨t, ht⟩ : ∃ t, eventType event = some t :=
        hmoves.elim (fun h => ⟨_, h⟩) fun h => ⟨_, h⟩
      obtain ⟨body, hbody, ht'⟩ := eventType_eq_some.mp ht
      rw [hbody, Option.bind_some] at hto
      refine ⟨fid, hfid, (), rfl, body, hbody, t, ht', ?_⟩
      rw [Moves, ht, Option.some.injEq, Option.some.injEq] at hmoves
      rw [if_neg (by tauto)]
      simp only [bind_eq_ok, okOr_eq_ok, ensure_eq_ok, pure_eq_ok]
      exact ⟨_, hto, (), hlength, (), List.prefix_append _ _, digits, sliceFrom_hex hhex, (), hhex,
        _, hblock, _, htx, _, hlog, rfl⟩

/-- An event the reader does not give up at. -/
def Readable (fid : Nat) (event : Json) : Prop := ∃ m, parseEvent fid event = .ok m

/-- The move an event is taken for. -/
def move? (fid : Nat) (event : Json) : Option (Position × Bytes) :=
  match parseEvent fid event with
  | .ok m => m
  | .error _ => none

/-- What `parse_event` returns is the move of the event. -/
theorem move?_of_ok {fid : Nat} {event : Json} {m : Option (Position × Bytes)}
    (h : parseEvent fid event = .ok m) : move? fid event = m := by
  rw [move?, h]

/-- An event that is read is of its account. -/
theorem Readable.isFor {fid : Nat} {event : Json} (h : Readable fid event) : IsFor fid event := by
  obtain ⟨m, hm⟩ := h
  exact (parseEvent_eq_ok.mp hm).1

/-- A registration or transfer that is read is well formed. -/
theorem Readable.isMove {fid : Nat} {event : Json} (h : Readable fid event) (hmoves : Moves event) :
    ∃ position address, IsMove event position address := by
  obtain ⟨m, hm⟩ := h
  obtain ⟨-, ⟨-, hno, -⟩ | ⟨position, address, hmove, -⟩⟩ := parseEvent_eq_ok.mp hm
  · exact absurd hmoves hno
  · exact ⟨position, address, hmove⟩

/-- A move of an event of the account is found. -/
theorem IsMove.move?_eq {fid : Nat} {event : Json} {position : Position} {address : Bytes}
    (hfor : IsFor fid event) (h : IsMove event position address) :
    move? fid event = some (position, address) :=
  move?_of_ok (parseEvent_eq_ok.mpr ⟨hfor, .inr ⟨position, address, h, rfl⟩⟩)

/-- What is found is a move of the event. -/
theorem isMove_of_move? {fid : Nat} {event : Json} {position : Position} {address : Bytes}
    (h : move? fid event = some (position, address)) : IsMove event position address := by
  unfold move? at h
  split at h
  · rename_i m hm
    subst h
    obtain ⟨-, ⟨-, -, hnone⟩ | ⟨position, address, hmove, hsome⟩⟩ := parseEvent_eq_ok.mp hm
    · cases hnone
    · obtain ⟨rfl, rfl⟩ := Prod.mk.inj (Option.some.inj hsome)
      exact hmove
  · cases h

/-- An event that is read has no move exactly where it does not move the custody. -/
theorem move?_eq_none {fid : Nat} {event : Json} (h : Readable fid event) :
    move? fid event = none ↔ ¬Moves event := by
  constructor
  · intro hnone hmoves
    obtain ⟨position, address, hmove⟩ := h.isMove hmoves
    rw [hmove.move?_eq h.isFor] at hnone
    cases hnone
  · intro hno
    cases hm : move? fid event with
    | none => rfl
    | some m => exact absurd (isMove_of_move? hm).moves hno

/-! ## The loop -/

/-- The comparison of positions is a step of an argmax. -/
theorem later_eq_argAux (latest : Option (Position × Bytes)) (move : Position × Bytes) :
    later latest move =
      List.argAux (fun b c => c.1.key < b.1.key) latest move := by
  cases latest with
  | none => rfl
  | some previous =>
      simp only [later, List.argAux, Option.all_some, decide_eq_true_eq]

/-- The loop gives up at an event that is not readable, and keeps the latest of the moves. -/
theorem parseEvents_eq_ok {fid : Nat} {latest r : Option (Position × Bytes)} {events : List Json} :
    parseEvents fid latest events = .ok r ↔
      (∀ e ∈ events, Readable fid e) ∧ r = (events.filterMap (move? fid)).foldl later latest := by
  induction events generalizing latest with
  | nil =>
      rw [parseEvents, pure_eq_ok]
      simp [eq_comm]
  | cons e events ih =>
      rw [parseEvents, bind_eq_ok, List.forall_mem_cons]
      constructor
      · rintro ⟨m, hm, hrest⟩
        obtain ⟨hall, rfl⟩ := ih.mp hrest
        refine ⟨⟨⟨m, hm⟩, hall⟩, ?_⟩
        rw [List.filterMap_cons, move?_of_ok hm]
        cases m with
        | none => rfl
        | some move => rfl
      · rintro ⟨⟨⟨m, hm⟩, hall⟩, rfl⟩
        refine ⟨m, hm, ih.mpr ⟨hall, ?_⟩⟩
        rw [List.filterMap_cons, move?_of_ok hm]
        cases m with
        | none => rfl
        | some move => rfl

/-- The latest of the moves, the first of them where several share its position. -/
def latestMove (fid : Nat) (events : List Json) : Option (Position × Bytes) :=
  (events.filterMap (move? fid)).argmax fun move => move.1.key

/-- What is read of a report. -/
theorem parseAuthority_eq_ok {value : Json} {fid : Nat} {o : AuthorityObservation} :
    parseAuthority value fid = .ok o ↔ ∃ events, value.last (str "events") = some (.array events) ∧
      events.length ≤ 1024 ∧ (∀ e ∈ events, Readable fid e) ∧
      o = ⟨events.length, (latestMove fid events).map Prod.snd, false⟩ := by
  have hloop : ∀ events : List Json,
      (events.filterMap (move? fid)).foldl later none = latestMove fid events := by
    intro events
    rw [latestMove, List.argmax]
    congr 1
    funext latest move
    exact later_eq_argAux latest move
  have harray : ∀ events : List Json, (value.last (str "events")).bind Json.asArray = some events ↔
      value.last (str "events") = some (.array events) := by
    intro events
    cases value.last (str "events") with
    | none => simp
    | some v => cases v <;> simp [Json.asArray]
  simp only [parseAuthority, bind_eq_ok, okOr_eq_ok, ensure_eq_ok, pure_eq_ok, parseEvents_eq_ok,
    harray, hloop]
  constructor
  · rintro ⟨events, hevents, -, hlength, _, ⟨hall, rfl⟩, rfl⟩
    exact ⟨events, hevents, hlength, hall, rfl⟩
  · rintro ⟨events, hevents, hlength, hall, rfl⟩
    exact ⟨events, hevents, (), hlength, _, ⟨hall, rfl⟩, rfl⟩

/-! ## The latest move -/

/-- The latest move is an event of the report: those before it are earlier, those after it no
later. -/
theorem latestMove_eq_some {fid : Nat} {events : List Json} (hall : ∀ e ∈ events, Readable fid e)
    {address : Bytes} :
    (latestMove fid events).map Prod.snd = some address ↔
      ∃ before e after position, events = before ++ e :: after ∧ IsMove e position address ∧
        (∀ e' ∈ before, ∀ position' address', IsMove e' position' address' →
          position'.key < position.key) ∧
        ∀ e' ∈ after, ∀ position' address', IsMove e' position' address' →
          position'.key ≤ position.key := by
  simp only [Option.map_eq_some_iff, latestMove, argmax_eq_some_iff_append]
  constructor
  · rintro ⟨⟨position, address⟩, ⟨early, late, hmoves, hearly, hlate⟩, rfl⟩
    obtain ⟨l₁, l₂, rfl, rfl, htail⟩ := List.filterMap_eq_append_iff.mp hmoves
    obtain ⟨l₃, e, after, rfl, hnone, he, rfl⟩ := List.filterMap_eq_cons_iff.mp htail
    refine ⟨l₁ ++ l₃, e, after, position, by simp, isMove_of_move? he, ?_, ?_⟩
    · intro e' he' position' address' hmove
      have hfor : IsFor fid e' := (hall e' (by
        rcases List.mem_append.mp he' with h | h <;> simp [h])).isFor
      rcases List.mem_append.mp he' with h | h
      · exact hearly _ (List.mem_filterMap.mpr ⟨e', h, hmove.move?_eq hfor⟩)
      · have := hnone e' h
        rw [hmove.move?_eq hfor] at this
        cases this
    · intro e' he' position' address' hmove
      have hfor : IsFor fid e' := (hall e' (by simp [he'])).isFor
      exact hlate _ (List.mem_filterMap.mpr ⟨e', he', hmove.move?_eq hfor⟩)
  · rintro ⟨before, e, after, position, rfl, hmove, hbefore, hafter⟩
    have hfor : IsFor fid e := (hall e (by simp)).isFor
    refine ⟨(position, address), ⟨before.filterMap (move? fid), after.filterMap (move? fid), ?_,
      ?_, ?_⟩, rfl⟩
    · rw [List.filterMap_append, List.filterMap_cons, hmove.move?_eq hfor]
    · rintro ⟨position', address'⟩ hm
      obtain ⟨e', he', hm⟩ := List.mem_filterMap.mp hm
      exact hbefore e' he' position' address' (isMove_of_move? hm)
    · rintro ⟨position', address'⟩ hm
      obtain ⟨e', he', hm⟩ := List.mem_filterMap.mp hm
      exact hafter e' he' position' address' (isMove_of_move? hm)

/-- There is no latest move exactly where no event moves the custody. -/
theorem latestMove_eq_none {fid : Nat} {events : List Json} (hall : ∀ e ∈ events, Readable fid e) :
    (latestMove fid events).map Prod.snd = none ↔ ∀ e ∈ events, ¬Moves e := by
  rw [Option.map_eq_none_iff, latestMove, List.argmax_eq_none, List.filterMap_eq_nil_iff]
  exact forall₂_congr fun e he => move?_eq_none (hall e he)

/-- Only registrations and transfers count. -/
theorem latestMove_filter {fid : Nat} {events : List Json} (hall : ∀ e ∈ events, Readable fid e) :
    latestMove fid (events.filter fun e => Moves e) = latestMove fid events := by
  rw [latestMove, latestMove, List.filterMap_filter]
  congr 1
  refine List.filterMap_congr fun e he => ?_
  by_cases hmoves : Moves e
  · simp [hmoves]
  · simp [hmoves, (move?_eq_none (hall e he)).mpr hmoves]

/-- No two registrations or transfers share a position. -/
def Distinct (events : List Json) : Prop :=
  events.Pairwise fun e e' => ∀ position address position' address',
    IsMove e position address → IsMove e' position' address' → position ≠ position'

/-- The order of events of distinct positions is of no matter. -/
theorem latestMove_perm {fid : Nat} {events events' : List Json} (h : events.Perm events')
    (hdistinct : Distinct events) : latestMove fid events = latestMove fid events' := by
  have hkeys : ((events.filterMap (move? fid)).map fun move => move.1.key).Nodup := by
    rw [List.Nodup, List.pairwise_map, List.pairwise_filterMap]
    refine hdistinct.imp fun hne m hm m' hm' => ?_
    exact Position.key_injective.ne (hne _ _ _ _ (isMove_of_move? hm) (isMove_of_move? hm'))
  exact argmax_perm (h.filterMap _) fun a ha b hb hab => List.inj_on_of_nodup_map hkeys ha hb hab

/-! ## No panic -/

/-- The strings of a value are texts, as a parser of JSON sees to. -/
inductive Texts : Json → Prop where
  | null : Texts .null
  | bool (b) : Texts (.bool b)
  | integer (n) : Texts (.integer n)
  | float (bits) : Texts (.float bits)
  | string {s} : IsText s → Texts (.string s)
  | array {values} : (∀ v ∈ values, Texts v) → Texts (.array values)
  | object {fields} : (∀ f ∈ fields, Texts f.2) → Texts (.object fields)

/-- A field of a document of texts is one. -/
theorem Texts.last {v w : Json} {key : Bytes} (hv : Texts v) (h : v.last key = some w) :
    Texts w := by
  cases hv with
  | object hfields =>
      obtain ⟨l₁, l₂, hl, -⟩ := List.lookup_eq_some_iff.mp h
      refine hfields (key, w) (List.mem_reverse.mp ?_)
      rw [hl]
      simp
  | _ => cases h

/-- A string of a document of texts is a text. -/
theorem Texts.asStr {v : Json} {s : Bytes} (hv : Texts v) (h : v.asStr = some s) : IsText s := by
  obtain rfl := Json.asStr_eq_some.mp h
  cases hv with
  | string hs => exact hs

/-- After `0x` a text may be cut. -/
theorem sliceFrom_ne_none {address : Bytes} (h : IsText address) (hhead : str "0x" <+: address) :
    sliceFrom address 2 ≠ none := by
  obtain ⟨rest, rfl⟩ := hhead
  have hslice : sliceFrom (str "0x" ++ rest) (str "0x").length = some rest :=
    sliceFrom_append (by decide +kernel) h
  rw [show 2 = (str "0x").length from rfl, hslice]
  exact Option.some_ne_none _

/-- A missing value stops the reading and panics nowhere. -/
theorem throws_give {α : Type} {x : Option α} : Throws (· = .nothing) (okOr x Stop.nothing) :=
  throws_okOr fun _ => rfl

/-- So does a check that fails. -/
theorem throws_check {c : Prop} [Decidable c] : Throws (· = .nothing) (ensure c Stop.nothing) :=
  throws_ensure fun _ => rfl

/-- Reading an event of texts does not panic. -/
theorem throws_parseEvent {fid : Nat} {event : Json} (h : Texts event) :
    Throws (· = .nothing) (parseEvent fid event) := by
  refine throws_give.bind fun _ _ => throws_check.bind fun _ _ => throws_give.bind
    fun body hbody => throws_give.bind fun _ _ => throws_ite (throws_pure _) ?_
  refine throws_give.bind fun address haddress => throws_check.bind fun _ _ =>
    throws_check.bind fun _ hhead => ?_
  have hbody : Texts body := h.last (okOr_eq_ok.mp hbody)
  obtain ⟨v, hv, hstr⟩ := Option.bind_eq_some_iff.mp (okOr_eq_ok.mp haddress)
  have haddress : IsText address := (hbody.last hv).asStr hstr
  have hslice : Throws (· = .nothing) (okOr (sliceFrom address 2) Stop.panic) :=
    throws_okOr fun hnone => absurd hnone (sliceFrom_ne_none haddress (ensure_eq_ok.mp hhead))
  exact hslice.bind fun _ _ => throws_check.bind fun _ _ => throws_give.bind fun _ _ =>
    throws_give.bind fun _ _ => throws_give.bind fun _ _ => throws_pure _

/-- Reading all of them does not. -/
theorem throws_parseEvents {fid : Nat} {latest : Option (Position × Bytes)} {events : List Json}
    (h : ∀ e ∈ events, Texts e) : Throws (· = .nothing) (parseEvents fid latest events) := by
  induction events generalizing latest with
  | nil => exact throws_pure _
  | cons e events ih =>
      rw [List.forall_mem_cons] at h
      exact (throws_parseEvent h.1).bind fun _ _ => ih h.2

/-- A report is read or given up; the reader does not panic. -/
theorem throws_parseAuthority {value : Json} {fid : Nat} (h : Texts value) :
    Throws (· = .nothing) (parseAuthority value fid) := by
  refine throws_give.bind fun events hevents => throws_check.bind fun _ _ => ?_
  obtain ⟨v, hv, harray⟩ := Option.bind_eq_some_iff.mp (okOr_eq_ok.mp hevents)
  have htexts : ∀ e ∈ events, Texts e := by
    have hvalue : Texts v := h.last hv
    cases hvalue with
    | array hvalues =>
        obtain rfl := Option.some.inj harray
        exact hvalues
    | _ => cases harray
  exact (throws_parseEvents htexts).bind fun _ _ => throws_pure _

/-! ## What is reported -/

/-- Two reports of the same events in another order are read the same, without ties. -/
theorem parseAuthority_perm {value value' : Json} {fid : Nat} {events events' : List Json}
    (hvalue : Texts value) (hvalue' : Texts value')
    (hevents : value.last (str "events") = some (.array events))
    (hevents' : value'.last (str "events") = some (.array events')) (hperm : events.Perm events')
    (hdistinct : Distinct events) : parseAuthority value' fid = parseAuthority value fid := by
  have hok : ∀ o, parseAuthority value' fid = .ok o ↔ parseAuthority value fid = .ok o := by
    intro o
    simp only [parseAuthority_eq_ok, hevents, hevents', Option.some.injEq, Json.array.injEq,
      exists_eq_left', hperm.length_eq, latestMove_perm hperm hdistinct, hperm.mem_iff]
  cases h : parseAuthority value fid with
  | ok o => exact (hok o).mpr h
  | error e =>
      cases h' : parseAuthority value' fid with
      | ok o =>
          rw [(hok o).mp h'] at h
          cases h
      | error e' => rw [throws_parseAuthority hvalue e h, throws_parseAuthority hvalue' e' h']

/-- **What is reported of an account's custody.** A report is read only where every event is for the
account and every registration and transfer is well formed. What is reported then is the address of
the first of the latest of these; nothing else counts, and without ties the order of the events does
not either. No text makes the reader panic. -/
theorem custody_latest (value : Json) (fid : Nat) :
    (∀ o, parseAuthority value fid = .ok o →
      ∃ events, value.last (str "events") = some (.array events) ∧ events.length ≤ 1024 ∧
        (∀ e ∈ events, IsFor fid e ∧
          (Moves e → ∃ position address, IsMove e position address)) ∧
        o.registryEvents = events.length ∧ o.verified = false ∧
        (o.reportedCustody = none ↔ ∀ e ∈ events, ¬Moves e) ∧
        (∀ address, o.reportedCustody = some address ↔
          ∃ before e after position, events = before ++ e :: after ∧ IsMove e position address ∧
            (∀ e' ∈ before, ∀ position' address', IsMove e' position' address' →
              position'.key < position.key) ∧
            ∀ e' ∈ after, ∀ position' address', IsMove e' position' address' →
              position'.key ≤ position.key) ∧
        ∀ value' events' o', parseAuthority value' fid = .ok o' →
          value'.last (str "events") = some (.array events') →
          (events'.filter fun e => Moves e) = (events.filter fun e => Moves e) →
          o'.reportedCustody = o.reportedCustody) ∧
    (Texts value → ∀ events value' events', value.last (str "events") = some (.array events) →
      Texts value' → value'.last (str "events") = some (.array events') → events.Perm events' →
      Distinct events → parseAuthority value' fid = parseAuthority value fid) ∧
    (Texts value → parseAuthority value fid ≠ .error .panic) := by
  refine ⟨fun o h => ?_, fun hvalue events value' events' hevents hvalue' hevents' hperm hdistinct =>
    parseAuthority_perm hvalue hvalue' hevents hevents' hperm hdistinct, fun hvalue h => ?_⟩
  · obtain ⟨events, hevents, hlength, hall, rfl⟩ := parseAuthority_eq_ok.mp h
    refine ⟨events, hevents, hlength, fun e he => ⟨(hall e he).isFor, (hall e he).isMove⟩, rfl, rfl,
      latestMove_eq_none hall, fun address => latestMove_eq_some hall, ?_⟩
    intro value' events' o' h' hevents' hfilter
    obtain ⟨events'', hevents'', -, hall', rfl⟩ := parseAuthority_eq_ok.mp h'
    obtain rfl : events' = events'' := by
      rw [hevents'] at hevents''
      exact Json.array.inj (Option.some.inj hevents'')
    simp only
    rw [← latestMove_filter hall, ← latestMove_filter hall', hfilter]
  · cases throws_parseAuthority hvalue _ h

/-- An event of the account 7. -/
def sampleEvent (block : Nat) (eventType : String) (address : Bytes) : Json :=
  .object [(str "fid", .integer 7), (str "blockNumber", .integer block),
    (str "txIndex", .integer 1), (str "logIndex", .integer 4),
    (str "idRegisterEventBody", .object [(str "eventType", .string (str eventType)),
      (str "to", .string address)])]

/-- A transfer, the registration before it, and a change of the recovery address after both. -/
def sampleRegistry : Json :=
  .object [(str "events", .array [
    sampleEvent 30 "Transfer" (str "0x1111111111111111111111111111111111111111"),
    sampleEvent 20 "Register" (str "0x2222222222222222222222222222222222222222"),
    sampleEvent 40 "ChangeRecovery" (str "0x3333333333333333333333333333333333333333")])]

/-- Of the three events the transfer is read as the custody. -/
theorem parseAuthority_sample : parseAuthority sampleRegistry 7 =
    .ok ⟨3, some (str "0x1111111111111111111111111111111111111111"), false⟩ := by
  decide +kernel

/-- The transfer is what counts. -/
theorem custody_latest_sample : ∃ events,
    sampleRegistry.last (str "events") = some (.array events) ∧
    ∃ before e after position, events = before ++ e :: after ∧
      IsMove e position (str "0x1111111111111111111111111111111111111111") ∧
      (∀ e' ∈ before, ∀ position' address', IsMove e' position' address' →
        position'.key < position.key) ∧
      ∀ e' ∈ after, ∀ position' address', IsMove e' position' address' →
        position'.key ≤ position.key := by
  obtain ⟨events, hevents, -, -, -, -, -, hcustody, -⟩ :=
    (custody_latest sampleRegistry 7).1 _ parseAuthority_sample
  exact ⟨events, hevents, (hcustody _).mp rfl⟩

end PurpleSky.Hypersnap
