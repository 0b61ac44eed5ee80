import PurpleSky.Lib.Machine

/-!
# The journal of the console (`journal.rs`)

The last events of a process, and the pages in which a reader takes them. A journal is a window on
the log of everything that was ever pushed (`Window`), so what a page leaves out is an interval of
that log.

* `Window.page`: a page is an interval of the log, from the cursor or from what is still there.
* **`cursor_without_gaps`**: a reader misses what was evicted before it came, is told so, and misses
  nothing else.
-/

namespace PurpleSky.Console

/-! ## Events and pages -/

/-- Source: `journal.rs`, `LOG_CAPACITY` -/
def logCapacity : Nat := 200

/-- Source: `journal.rs`, `OPERATION_CAPACITY` -/
def operationCapacity : Nat := 32

/-- Source: `journal.rs`, `Event` -/
structure LogEvent where
  sequence : Nat
  timestamp : Nat
  level : String
  event : String
  message : String
  deriving DecidableEq, Repr

/-- Source: `journal.rs`, `LogPage` -/
structure LogPage where
  entries : List LogEvent
  nextCursor : Nat
  droppedBefore : Nat
  truncated : Bool
  deriving DecidableEq, Repr

/-- Source: `journal.rs`, `Journal` -/
structure Journal where
  entries : List LogEvent
  sequence : Nat
  deriving DecidableEq, Repr

namespace Journal

/-- Source: `journal.rs`, `Journal::default` -/
def empty : Journal := ⟨[], 0⟩

/-- The number of the event is the next one. The source counts in sixty-four unsigned bits; from an
empty journal they are used up by the push of number `2^64`, which no process lives to see, so the
count is a natural number here. Source: `journal.rs`, `Journal::push` -/
def push (journal : Journal) (timestamp : Nat) (level event message : String) : Journal :=
  let sequence := journal.sequence + 1
  let entries := if journal.entries.length = logCapacity then journal.entries.tail else journal.entries
  ⟨entries ++ [⟨sequence, timestamp, level, event, message⟩], sequence⟩

/-- Source: `journal.rs`, `Journal::page` -/
def page (journal : Journal) (after limit : Nat) : LogPage :=
  let droppedBefore := match journal.entries.head? with
    | some e => e.sequence - 1
    | none => 0
  let entries := (journal.entries.filter fun e => after < e.sequence).take (min limit logCapacity)
  let nextCursor := match entries.getLast? with
    | some e => e.sequence
    | none => journal.sequence
  ⟨entries, nextCursor, droppedBefore, after < droppedBefore⟩

end Journal

/-- A refused request. Source: `server.rs`, `failure` -/
structure Refusal where
  status : Nat
  error : String
  message : String
  deriving DecidableEq, Repr

/-- Source: `server.rs`, `logs` -/
def logs (journal : Journal) (after limit : Nat) : Except Refusal LogPage :=
  if 1 ≤ limit ∧ limit ≤ logCapacity then .ok (journal.page after limit)
  else .error ⟨400, "InvalidLimit", "Log limit must be 1 through 200"⟩

/-! ## The window -/

/-- A journal shows the last events of a log that is numbered from one. -/
structure Window (log : List LogEvent) (journal : Journal) : Prop where
  numbered : log.map LogEvent.sequence = List.range' 1 log.length
  entries : journal.entries = log.rtake logCapacity
  sequence : journal.sequence = log.length

theorem window_empty : Window [] .empty := ⟨rfl, rfl, rfl⟩

/-- Pushing adds to the log, and moves the window. -/
theorem Window.push {log : List LogEvent} {journal : Journal} (h : Window log journal)
    (timestamp : Nat) (level event message : String) :
    Window (log ++ [⟨log.length + 1, timestamp, level, event, message⟩])
      (journal.push timestamp level event message) := by
  obtain ⟨hnumbered, hentries, hsequence⟩ := h
  have hcapacity : logCapacity = 200 := rfl
  refine ⟨?_, ?_, ?_⟩
  · rw [List.map_append, hnumbered, List.length_append, List.length_singleton,
      List.range'_append_1.symm]
    simp [Nat.add_comm]
  · unfold Journal.push
    rw [hsequence, hentries]
    simp only [List.rtake, List.length_drop, List.length_append, List.length_singleton,
      List.tail_drop]
    by_cases hfull : logCapacity ≤ log.length
    · rw [if_pos (by omega), List.drop_append_of_le_length (by omega),
        show log.length - logCapacity + 1 = log.length + 1 - logCapacity from by omega]
    · have hbelow : log.length < logCapacity := Nat.lt_of_not_le hfull
      rw [if_neg (by omega), show log.length - logCapacity = 0 from by omega,
        show log.length + 1 - logCapacity = 0 from by omega, List.drop_zero, List.drop_zero]
  · rw [Journal.push, hsequence, List.length_append, List.length_singleton]

/-- Of consecutive numbers those above a bound are a tail. -/
theorem filter_lt_eq_drop {l : List LogEvent} {first : Nat} (after : Nat)
    (h : l.map LogEvent.sequence = List.range' first l.length) :
    l.filter (fun e => after < e.sequence) = l.drop (after + 1 - first) := by
  induction l generalizing first with
  | nil => simp
  | cons e l ih =>
      rw [List.map_cons, List.length_cons, List.range'_succ, List.cons.injEq] at h
      obtain ⟨rfl, h⟩ := h
      by_cases hlt : after < e.sequence
      · have hall : l.filter (fun e => after < e.sequence) = l := by
          rw [ih h, show after + 1 - (e.sequence + 1) = 0 from by omega, List.drop_zero]
        rw [List.filter_cons_of_pos (by simpa using hlt), hall,
          show after + 1 - e.sequence = 0 from by omega, List.drop_zero]
      · rw [List.filter_cons_of_neg (by simpa using hlt), ih h,
          show after + 1 - e.sequence = (after + 1 - (e.sequence + 1)) + 1 from by omega,
          List.drop_succ_cons]

/-- The numbers of a part of the log. -/
theorem Window.numbers {log : List LogEvent} {journal : Journal} (h : Window log journal)
    (start count : Nat) :
    ((log.drop start).take count).map LogEvent.sequence =
      List.range' (start + 1) (min count (log.length - start)) := by
  rw [List.map_take, List.map_drop, h.numbered, List.drop_range', Nat.mul_one, Nat.add_comm]
  by_cases hcount : count ≤ log.length - start
  · rw [List.take_range'_of_length_ge hcount, Nat.min_eq_left hcount]
  · have hlength : log.length - start ≤ count := Nat.le_of_not_le hcount
    rw [List.take_range'_of_length_le hlength, Nat.min_eq_right hlength]

/-- The numbers of what a journal shows. -/
theorem Window.shown {log : List LogEvent} {journal : Journal} (h : Window log journal) :
    journal.entries = log.drop (log.length - logCapacity) ∧
    journal.entries.map LogEvent.sequence =
      List.range' (log.length - logCapacity + 1) journal.entries.length := by
  have hentries : journal.entries = log.drop (log.length - logCapacity) := h.entries
  refine ⟨hentries, ?_⟩
  rw [hentries, List.map_drop, h.numbered, List.drop_range', List.length_drop, Nat.mul_one,
    Nat.add_comm]

/-- The number of the last event that a reader at a cursor cannot get. -/
def Journal.start (journal : Journal) (after : Nat) : Nat :=
  max after (journal.sequence - logCapacity)

/-- A page is an interval of the log. -/
theorem Window.page_entries {log : List LogEvent} {journal : Journal} (h : Window log journal)
    (after limit : Nat) :
    (journal.page after limit).entries =
      (log.drop (journal.start after)).take (min limit logCapacity) := by
  obtain ⟨hentries, hnumbers⟩ := h.shown
  have hdrop : log.length - logCapacity + (after + 1 - (log.length - logCapacity + 1)) =
      journal.start after := by
    rw [Journal.start, h.sequence]
    omega
  unfold Journal.page
  rw [filter_lt_eq_drop after hnumbers, hentries, List.drop_drop, hdrop]

/-- What a page says was dropped. -/
theorem Window.page_droppedBefore {log : List LogEvent} {journal : Journal} (h : Window log journal)
    (after limit : Nat) :
    (journal.page after limit).droppedBefore = journal.sequence - logCapacity := by
  obtain ⟨hentries, hnumbers⟩ := h.shown
  rw [h.sequence]
  unfold Journal.page
  cases hlist : journal.entries with
  | nil =>
      have hlength : log.length - (log.length - logCapacity) = 0 := by
        rw [← List.length_drop, ← hentries, hlist, List.length_nil]
      have hcapacity : logCapacity = 200 := rfl
      simp only [List.head?_nil]
      omega
  | cons e rest =>
      rw [hlist, List.map_cons, List.length_cons, List.range'_succ, List.cons.injEq] at hnumbers
      simp only [List.head?_cons]
      omega

/-- The numbers on a page. -/
theorem Window.page_numbers {log : List LogEvent} {journal : Journal} (h : Window log journal)
    (after limit : Nat) :
    (journal.page after limit).entries.map LogEvent.sequence = List.range' (journal.start after + 1)
      (min (min limit logCapacity) (journal.sequence - journal.start after)) := by
  rw [h.page_entries, h.numbers, h.sequence]

/-! ## One page -/

/-- An event that was pushed is not there any more. -/
def Journal.Evicted (journal : Journal) (n : Nat) : Prop :=
  0 < n ∧ n ≤ journal.sequence ∧ n ∉ journal.entries.map LogEvent.sequence

theorem Window.evicted_iff {log : List LogEvent} {journal : Journal}
    (h : Window log journal) (n : Nat) :
    journal.Evicted n ↔ 0 < n ∧ n ≤ journal.sequence - logCapacity := by
  obtain ⟨hentries, hnumbers⟩ := h.shown
  have hlength : journal.entries.length = log.length - (log.length - logCapacity) := by
    rw [hentries, List.length_drop]
  rw [Journal.Evicted, hnumbers, List.mem_range'_1, h.sequence]
  omega

/-- What a page tells a reader at a cursor. -/
structure Gapless (journal : Journal) (cursor : Nat) (page : LogPage) : Prop where
  shown : page.entries ⊆ journal.entries
  consecutive : ∃ first, cursor < first ∧
    page.entries.map LogEvent.sequence = List.range' first page.entries.length
  missing : ∀ e ∈ page.entries.head?, ∀ n, cursor < n → (n < e.sequence ↔ journal.Evicted n)
  truncated : page.truncated = true ↔ ∃ n, cursor < n ∧ journal.Evicted n
  next : ∀ e ∈ page.entries.getLast?, page.nextCursor = e.sequence
  empty : page.entries = [] → journal.sequence ≤ cursor ∧ page.nextCursor = journal.sequence

/-- The cursor after a page, for a reader that is not ahead of the journal. -/
theorem Window.page_nextCursor {log : List LogEvent} {journal : Journal} (h : Window log journal)
    {after limit : Nat} (hafter : after ≤ journal.sequence) (hlimit : 1 ≤ limit) :
    (journal.page after limit).nextCursor = journal.start after +
      min (min limit logCapacity) (journal.sequence - journal.start after) := by
  have hnumbers := h.page_numbers after limit
  have hcapacity : logCapacity = 200 := rfl
  have hstart : journal.start after ≤ journal.sequence := by
    unfold Journal.start
    omega
  show (match (journal.page after limit).entries.getLast? with
    | some e => e.sequence
    | none => journal.sequence) = _
  rcases List.eq_nil_or_concat (journal.page after limit).entries with hnil | ⟨rest, e, hlast⟩
  · rw [hnil, List.map_nil] at hnumbers
    have hcount := List.range'_eq_nil_iff.mp hnumbers.symm
    rw [hnil, List.getLast?_nil]
    show journal.sequence = _
    omega
  · have hmap := congrArg List.getLast? hnumbers
    rw [hlast, List.concat_eq_append, List.map_append, List.map_singleton, List.getLast?_concat,
      List.getLast?_range'] at hmap
    rw [hlast, List.concat_eq_append, List.getLast?_concat]
    show e.sequence = _
    split_ifs at hmap with hzero
    have := Option.some.inj hmap
    omega

theorem Window.gapless {log : List LogEvent} {journal : Journal} (h : Window log journal)
    {cursor limit : Nat} (hcursor : cursor ≤ journal.sequence) (hlimit : 1 ≤ limit) :
    Gapless journal cursor (journal.page cursor limit) where
  shown e he := by
    have hmem : e ∈ journal.entries.filter fun e => cursor < e.sequence := List.mem_of_mem_take he
    exact (List.mem_filter.mp hmem).1
  consecutive := by
    have hnumbers := h.page_numbers cursor limit
    have hlength := congrArg List.length hnumbers
    rw [List.length_map, List.length_range'] at hlength
    refine ⟨journal.start cursor + 1, ?_, by rw [hlength, hnumbers]⟩
    unfold Journal.start
    omega
  missing := by
    intro e he n hn
    have hnumbers := congrArg List.head? (h.page_numbers cursor limit)
    rw [List.head?_map, Option.mem_def.mp he, Option.map_some, List.head?_range'] at hnumbers
    split_ifs at hnumbers with hzero
    have hfirst := Option.some.inj hnumbers
    rw [h.evicted_iff, hfirst, Journal.start]
    omega
  truncated := by
    have htruncated : (journal.page cursor limit).truncated =
        decide (cursor < (journal.page cursor limit).droppedBefore) := rfl
    rw [htruncated, decide_eq_true_eq, h.page_droppedBefore]
    constructor
    · intro hlt
      exact ⟨journal.sequence - logCapacity, hlt, (h.evicted_iff _).mpr ⟨by omega, le_refl _⟩⟩
    · rintro ⟨n, hn, hevicted⟩
      exact lt_of_lt_of_le hn ((h.evicted_iff n).mp hevicted).2
  next := by
    intro e he
    show (match (journal.page cursor limit).entries.getLast? with
      | some e => e.sequence
      | none => journal.sequence) = _
    rw [Option.mem_def.mp he]
  empty := by
    intro hnil
    have hnumbers := h.page_numbers cursor limit
    rw [hnil, List.map_nil] at hnumbers
    have hcount := List.range'_eq_nil_iff.mp hnumbers.symm
    have hnext := h.page_nextCursor hcursor hlimit
    have hcapacity : logCapacity = 200 := rfl
    rw [hnext]
    unfold Journal.start at hcount ⊢
    omega

/-- A cursor above the last event is reset to it. -/
theorem Window.page_reset {log : List LogEvent} {journal : Journal} (h : Window log journal)
    {after : Nat} (hafter : journal.sequence < after) (limit : Nat) :
    journal.page after limit = ⟨[], journal.sequence, journal.sequence - logCapacity, false⟩ := by
  have hentries : (journal.page after limit).entries = [] := by
    have hstart : log.length ≤ journal.start after := by
      rw [Journal.start, ← h.sequence]
      omega
    rw [h.page_entries, List.drop_eq_nil_of_le hstart, List.take_nil]
  have hdropped := h.page_droppedBefore after limit
  have hnext : (journal.page after limit).nextCursor = journal.sequence := by
    show (match (journal.page after limit).entries.getLast? with
      | some e => e.sequence
      | none => journal.sequence) = _
    rw [hentries, List.getLast?_nil]
  have htruncated : (journal.page after limit).truncated =
      decide (after < (journal.page after limit).droppedBefore) := rfl
  rw [hdropped, decide_eq_false (by omega)] at htruncated
  have hpage : journal.page after limit = ⟨(journal.page after limit).entries,
      (journal.page after limit).nextCursor, (journal.page after limit).droppedBefore,
      (journal.page after limit).truncated⟩ := rfl
  rw [hpage, hentries, hnext, hdropped, htruncated]

/-! ## Readers -/

/-- A journal with a reader. -/
structure Reader where
  journal : Journal
  cursor : Nat

/-- What happens to a journal and its reader. -/
inductive ReaderEvent where
  | push (timestamp : Nat) (level event message : String)
  | logs (limit : Nat)

inductive ReaderReply where
  | pushed
  | page (page : LogPage)
  | refused (refusal : Refusal)

/-- A reader goes on from where its page ended. -/
def Reader.step (reader : Reader) : ReaderEvent → Reader × ReaderReply
  | .push timestamp level event message =>
      (⟨reader.journal.push timestamp level event message, reader.cursor⟩, .pushed)
  | .logs limit =>
      match logs reader.journal reader.cursor limit with
      | .ok page => (⟨reader.journal, page.nextCursor⟩, .page page)
      | .error refusal => (reader, .refused refusal)

/-- Journals with a reader as a machine. -/
def readers : Machine Reader ReaderEvent ReaderReply := ⟨Reader.step⟩

/-- The numbers of the events in a reply. -/
def ReaderReply.delivered : ReaderReply → List Nat
  | .page p => p.entries.map LogEvent.sequence
  | _ => []

/-- A step of a reader. -/
abbrev ReaderEntry := Machine.Entry Reader ReaderEvent ReaderReply

/-- The numbers of all events that a reader got. -/
def delivered (trace : List ReaderEntry) : List Nat := trace.flatMap fun x => x.reply.delivered

/-- A reader was told at a step that it misses an event, which was evicted before. -/
def Told (x : ReaderEntry) (n : Nat) : Prop :=
  ∃ page, x.reply = .page page ∧ page.truncated = true ∧ x.before.cursor < n ∧
    x.before.journal.Evicted n

/-- What a step does to a reader that is not ahead of the journal. -/
structure Advances (x : ReaderEntry) : Prop where
  window : ∃ log, Window log x.after.journal
  bounded : x.after.cursor ≤ x.after.journal.sequence
  grows : x.before.cursor ≤ x.after.cursor
  ascending : x.reply.delivered.Pairwise (· < ·)
  range : ∀ n ∈ x.reply.delivered, x.before.cursor < n ∧ n ≤ x.after.cursor
  covered : ∀ n, x.before.cursor < n → n ≤ x.after.cursor → n ∈ x.reply.delivered ∨ Told x n
  gapless : ∀ page, x.reply = .page page → Gapless x.before.journal x.before.cursor page

/-- Where nothing is delivered and the cursor stays. -/
theorem advances_of_quiet {log : List LogEvent} {x : ReaderEntry} (h : Window log x.after.journal)
    (hbounded : x.after.cursor ≤ x.after.journal.sequence)
    (hcursor : x.after.cursor = x.before.cursor)
    (hquiet : x.reply.delivered = []) (hpage : ∀ page, x.reply ≠ .page page) : Advances x where
  window := ⟨log, h⟩
  bounded := hbounded
  grows := hcursor.ge
  ascending := hquiet ▸ List.Pairwise.nil
  range n hn := by
    rw [hquiet] at hn
    cases hn
  covered n hlt hle := absurd (hle.trans hcursor.le) (Nat.not_le_of_lt hlt)
  gapless page h := absurd h (hpage page)

/-- Where a page is delivered. -/
theorem advances_of_page {log : List LogEvent} {reader : Reader} (h : Window log reader.journal)
    (hcursor : reader.cursor ≤ reader.journal.sequence) (e : ReaderEvent) {limit : Nat}
    (hlimit : 1 ≤ limit) :
    Advances ⟨reader, e, .page (reader.journal.page reader.cursor limit),
      ⟨reader.journal, (reader.journal.page reader.cursor limit).nextCursor⟩⟩ := by
  have hgapless := h.gapless hcursor hlimit
  have hnext := h.page_nextCursor hcursor hlimit
  have hnumbers := h.page_numbers reader.cursor limit
  refine ⟨⟨log, h⟩, ?_, ?_, ?_, ?_, ?_, ?_⟩
  · simp only [hnext, Journal.start]
    omega
  · simp only [hnext, Journal.start]
    omega
  · rw [ReaderReply.delivered, hnumbers]
    exact List.pairwise_lt_range'
  · intro n hn
    rw [ReaderReply.delivered, hnumbers, List.mem_range'_1] at hn
    simp only [hnext]
    unfold Journal.start at hn ⊢
    omega
  · intro n hlt hle
    simp only [hnext] at hlt hle
    rw [ReaderReply.delivered, hnumbers, List.mem_range'_1]
    by_cases hle' : n ≤ reader.journal.sequence - logCapacity
    · have hevicted : reader.journal.Evicted n := (h.evicted_iff n).mpr ⟨by omega, hle'⟩
      exact .inr ⟨_, rfl, hgapless.truncated.mpr ⟨n, hlt, hevicted⟩, hlt, hevicted⟩
    · refine .inl ?_
      unfold Journal.start at hle ⊢
      omega
  · intro page hpage
    obtain rfl := ReaderReply.page.inj hpage
    exact hgapless

theorem reader_step {log : List LogEvent} {reader : Reader} (h : Window log reader.journal)
    (hcursor : reader.cursor ≤ reader.journal.sequence) (e : ReaderEvent) :
    Advances (readers.entry reader e) := by
  cases e with
  | push timestamp level event message =>
      refine advances_of_quiet (h.push timestamp level event message) ?_ rfl rfl ?_
      · exact Nat.le_succ_of_le hcursor
      · rintro page ⟨⟩
  | logs limit =>
      have hentry : readers.entry reader (.logs limit) = ⟨reader, .logs limit,
        (reader.step (.logs limit)).2, (reader.step (.logs limit)).1⟩ := rfl
      rw [hentry]
      unfold Reader.step logs
      by_cases hlimit : 1 ≤ limit ∧ limit ≤ logCapacity
      · simp only [if_pos hlimit]
        exact advances_of_page h hcursor _ hlimit.1
      · simp only [if_neg hlimit]
        refine advances_of_quiet h hcursor rfl rfl ?_
        rintro page ⟨⟩

/-- The run of a reader, from a cursor that is not ahead of the journal. -/
theorem reader_run {log : List LogEvent} {reader : Reader} (h : Window log reader.journal)
    (hcursor : reader.cursor ≤ reader.journal.sequence) (es : List ReaderEvent) :
    (∃ log', Window log' (readers.final reader es).journal) ∧
    (readers.final reader es).cursor ≤ (readers.final reader es).journal.sequence ∧
    (delivered (readers.trace reader es)).Pairwise (· < ·) ∧
    (∀ n ∈ delivered (readers.trace reader es), reader.cursor < n) ∧
    (∀ n, reader.cursor < n → n ≤ (readers.final reader es).cursor →
      n ∈ delivered (readers.trace reader es) ∨ ∃ x ∈ readers.trace reader es, Told x n) := by
  induction es generalizing reader log with
  | nil =>
      refine ⟨⟨log, h⟩, hcursor, .nil, ?_, ?_⟩
      · rintro n ⟨⟩
      · intro n hlt hle
        exact absurd hle (Nat.not_le_of_lt hlt)
  | cons e es ih =>
      have hstep := reader_step h hcursor e
      obtain ⟨log', h'⟩ := hstep.window
      obtain ⟨hwindow, hlast, hrest, habove, hlater⟩ := ih h' hstep.bounded
      have hdelivered : delivered (readers.trace reader (e :: es)) =
          (readers.entry reader e).reply.delivered ++
            delivered (readers.trace (readers.entry reader e).after es) := rfl
      rw [hdelivered]
      refine ⟨hwindow, hlast, ?_, ?_, ?_⟩
      · refine List.pairwise_append.mpr ⟨hstep.ascending, hrest, fun n hn m hm => ?_⟩
        exact lt_of_le_of_lt (hstep.range n hn).2 (habove m hm)
      · intro n hn
        rcases List.mem_append.mp hn with hn | hn
        · exact (hstep.range n hn).1
        · exact lt_of_le_of_lt hstep.grows (habove n hn)
      · intro n hlt hle
        by_cases hn : n ≤ (readers.entry reader e).after.cursor
        · rcases hstep.covered n hlt hn with hmem | htold
          · exact .inl (List.mem_append_left _ hmem)
          · exact .inr ⟨_, List.mem_cons_self, htold⟩
        · rcases hlater n (Nat.lt_of_not_le hn) hle with hmem | ⟨x, hx, htold⟩
          · exact .inl (List.mem_append_right _ hmem)
          · exact .inr ⟨x, List.mem_cons_of_mem _ hx, htold⟩

/-- The journal of a process after some events. -/
def journalOf (pushed : List (Nat × String × String × String)) : Journal :=
  pushed.foldl (fun journal p => journal.push p.1 p.2.1 p.2.2.1 p.2.2.2) .empty

theorem window_journalOf (pushed : List (Nat × String × String × String)) :
    ∃ log, Window log (journalOf pushed) := by
  induction pushed using List.reverseRecOn with
  | nil => exact ⟨[], window_empty⟩
  | append_singleton pushed p ih =>
      obtain ⟨log, h⟩ := ih
      rw [journalOf, List.foldl_append]
      exact ⟨_, h.push p.1 p.2.1 p.2.2.1 p.2.2.2⟩

/-- **Cursors have no silent gaps.** A reader that starts at a cursor in a journal, and goes on from
each page to the next while events are pushed, gets events in ascending order, all above the cursor.
Every page is of consecutive events; what lies between the cursor and the first of them is what was
evicted, and the page is truncated exactly when that is something. A page is empty only when every
event up to the last was delivered or told to be missing. A cursor above the last event is reset. -/
theorem cursor_without_gaps (pushed : List (Nat × String × String × String)) (cursor : Nat) :
    (cursor ≤ (journalOf pushed).sequence → ∀ es : List ReaderEvent,
      let trace := readers.trace ⟨journalOf pushed, cursor⟩ es
      (delivered trace).Pairwise (· < ·) ∧ (∀ n ∈ delivered trace, cursor < n) ∧
      (∀ x ∈ trace, ∀ page, x.reply = .page page → Gapless x.before.journal x.before.cursor page) ∧
      ∀ before x after, trace = before ++ x :: after → ∀ page, x.reply = .page page →
        page.entries = [] → ∀ n, cursor < n → n ≤ x.before.journal.sequence →
          n ∈ delivered before ∨ ∃ y ∈ before, Told y n) ∧
    ((journalOf pushed).sequence < cursor → ∀ limit,
      (journalOf pushed).page cursor limit = ⟨[], (journalOf pushed).sequence,
        (journalOf pushed).sequence - logCapacity, false⟩) := by
  obtain ⟨log, h⟩ := window_journalOf pushed
  refine ⟨fun hcursor es => ?_, fun hcursor limit => h.page_reset hcursor limit⟩
  let start : Reader := ⟨journalOf pushed, cursor⟩
  obtain ⟨-, -, hpairwise, habove, -⟩ := @reader_run log start h hcursor es
  have hpages : ∀ before x after, readers.trace start es = before ++ x :: after →
      ∀ page, x.reply = .page page → Gapless x.before.journal x.before.cursor page ∧
        ∀ n, cursor < n → n ≤ x.before.cursor → n ∈ delivered before ∨ ∃ y ∈ before, Told y n := by
    intro before x after htrace page hpage
    obtain ⟨es₁, e, es₂, rfl, rfl, rfl, -⟩ := Machine.exists_of_trace_eq_cons htrace
    obtain ⟨⟨log', h'⟩, hcursor', -, -, hcovered⟩ := @reader_run log start h hcursor es₁
    exact ⟨(reader_step h' hcursor' e).gapless page hpage, hcovered⟩
  refine ⟨hpairwise, habove, fun x hx page hpage => ?_, fun before x after htrace page hpage hnil => ?_⟩
  · obtain ⟨before, after, htrace⟩ := List.append_of_mem hx
    exact (hpages before x after htrace page hpage).1
  · obtain ⟨hgapless, hcovered⟩ := hpages before x after htrace page hpage
    intro n hlt hle
    exact hcovered n hlt (hle.trans (hgapless.empty hnil).1)

/-- Two hundred and five events, of which five are evicted. -/
def samplePushed : List (Nat × String × String × String) :=
  List.replicate 205 (0, "info", "test", "fixed")

/-- A reader that starts before the first event gets the sixth and the seventh, and is told of five.
-/
theorem cursor_without_gaps_sample :
    let trace := readers.trace ⟨journalOf samplePushed, 0⟩ [.logs 2]
    delivered trace = [6, 7] ∧ (delivered trace).Pairwise (· < ·) ∧
    (∀ n ∈ delivered trace, 0 < n) ∧
    (∀ x ∈ trace, ∀ page, x.reply = .page page → Gapless x.before.journal x.before.cursor page) ∧
    ((journalOf samplePushed).page 206 2).nextCursor = 205 := by
  have hsequence : (journalOf samplePushed).sequence = 205 := by decide +kernel
  obtain ⟨hascending, habove, hpages, -⟩ :=
    (cursor_without_gaps samplePushed 0).1 (Nat.zero_le _) [.logs 2]
  refine ⟨by decide +kernel, hascending, habove, hpages, ?_⟩
  rw [(cursor_without_gaps samplePushed 206).2 (by rw [hsequence]; decide) 2, hsequence]

end PurpleSky.Console
