import Kaine.Cycle.GatherSafety
import Kaine.Lib.Transition

/-! The cycle reads every stream from its seed to its cursor, each entry once, whichever reads
fail. -/
namespace Kaine.Tick
open Py Bus OrderedLog Transition

variable {s t : Consumer} {input : TickInput} {streams : List String} {stream : String}
  {cursors : Cursors} {reader : Reader}

theorem cursorId_render (id : EntryId) : cursorId id.render = id := by
  rw [cursorId, span_render]
  simp [Nat.ofDigitChars_ten_toDigits]

theorem cursorId_zero : cursorId "0" = ⟨0, 0⟩ := by decide

/-- The texts that a cursor takes: the beginning, or the id of an entry. -/
def IsCursor (text : String) : Prop := text = "0" ∨ ∃ id : EntryId, text = id.render

theorem IsCursor.ne_dollar {text : String} (h : IsCursor text) : text ≠ "$" := by
  rcases h with rfl | ⟨id, rfl⟩
  · decide
  · intro hdollar
    have hlen := congrArg (fun s => s.toList.length) hdollar
    have hpos : 0 < (Nat.toDigits 10 id.ms).length :=
      List.length_pos_iff.mpr Nat.toDigits_ne_nil
    simp [toList_render] at hlen
    omega

/-- A stream's read goes through where the consolidated one does or its own does not raise. -/
def Reads (reader : Reader) (cursors : Cursors) (streams : List String) (stream : String) : Bool :=
  (reader.hasBlock && (readBlock reader cursors streams).isOk) || !reader.readRaises stream

/-- A read hands on what it finds or nothing, stream by stream. -/
theorem readAll_cases (hnodup : streams.Nodup) :
    readAll reader cursors streams = streams.map fun stream =>
      if Reads reader cursors streams stream then found reader cursors stream else ([], none) := by
  have hfallback : (reader.hasBlock && (readBlock reader cursors streams).isOk) = false →
      streams.map (safeRead reader cursors) = streams.map fun stream =>
        if Reads reader cursors streams stream then found reader cursors stream
        else ([], none) := by
    intro hnone
    refine List.map_congr_left fun stream _ => ?_
    cases hr : reader.readRaises stream with
    | false => simp [Reads, hr, safeRead_eq hr]
    | true => simp [Reads, hr, safeRead, hnone]
  unfold readAll
  split
  · next hhas =>
    unfold safeReadBlock
    cases hb : readBlock reader cursors streams with
    | error e => exact hfallback (by simp [hb, Except.isOk, Except.toBool])
    | ok block =>
      refine List.map_congr_left fun stream hs => ?_
      have hreads : Reads reader cursors streams stream = true := by
        simp [Reads, hhas, hb, Except.isOk, Except.toBool]
      rw [if_pos hreads]
      exact readBlock_ok hb hnodup hs
  · next hhas => exact hfallback (by simp [hhas])

/-- The share of one stream in a batch is its own result. -/
theorem filter_gathered {result : String → ReadResult} (hnodup : streams.Nodup) :
    (gathered streams (streams.map result)).filter (fun item => item.1 = stream) =
      if stream ∈ streams then
        (result stream).1.map fun entry => (stream, entry.1.render, entry.2)
      else [] := by
  have hzip : streams.zip (streams.map result) = streams.map fun s => (s, result s) := by
    simp [← List.map_prod_left_eq_zip]
  rw [gathered, hzip, List.flatMap_map]
  clear hzip
  induction streams with
  | nil => rfl
  | cons head streams ih =>
    rw [List.nodup_cons] at hnodup
    rw [List.flatMap_cons, List.filter_append, ih hnodup.2]
    by_cases he : stream = head
    · subst he
      simp only [List.mem_cons_self, if_true, if_neg hnodup.1, List.append_nil]
      rw [List.filter_eq_self]
      rintro item hitem
      obtain ⟨entry, -, rfl⟩ := List.mem_map.mp hitem
      exact decide_eq_true rfl
    · have hnone : (((result head).1.map fun entry => (head, entry.1.render, entry.2)).filter
          fun item : Gathered => item.1 = stream) = [] := by
        rw [List.filter_eq_nil_iff]
        rintro item hitem
        obtain ⟨entry, -, rfl⟩ := List.mem_map.mp hitem
        simpa using fun h : head = stream => he h.symm
      rw [hnone, List.nil_append]
      simp only [List.mem_cons, he, false_or]

/-- A tick moves the cursor of a stream to the last entry that its read scanned. -/
theorem advanced_cursors {result : String → ReadResult} (hnodup : streams.Nodup)
    (cursors : Cursors) :
    (streams.zip (streams.map result)).foldl (fun cs r =>
      match r.2.2 with
      | some last => Function.update cs r.1 (some last.render)
      | none => cs) cursors stream =
      if stream ∈ streams then
        ((result stream).2.map EntryId.render).or (cursors stream)
      else cursors stream := by
  have hzip : streams.zip (streams.map result) = streams.map fun s => (s, result s) := by
    simp [← List.map_prod_left_eq_zip]
  rw [hzip, List.foldl_map]
  clear hzip
  induction streams generalizing cursors with
  | nil => rfl
  | cons head streams ih =>
    rw [List.nodup_cons] at hnodup
    rw [List.foldl_cons, ih hnodup.2]
    by_cases he : stream = head
    · subst he
      cases (result stream).2 <;> simp [hnodup.1]
    · cases (result head).2 <;> simp [he]

/-- What stands in a batch of some entries of a stream. -/
def entriesOf (stream : String) (entries : List StreamEntry) : List Gathered :=
  (decoded entries).map fun entry => (stream, entry.1.render, entry.2)

/-- What the reads of one tick find on a stream. -/
def Consumer.readOf (s : Consumer) (input : TickInput) (streams : List String) (stream : String) :
    List StreamEntry :=
  if Reads (s.reader input) (s.seed input streams).cursors streams stream then
    (s.history stream).xread (cursorId (cursorOf (s.seed input streams).cursors stream))
      input.readCount
  else []

section
variable (hcursor : IsCursor (cursorOf (s.seed input streams).cursors stream))
include hcursor

theorem result_eq :
    (if Reads (s.reader input) (s.seed input streams).cursors streams stream then
      found (s.reader input) (s.seed input streams).cursors stream else ([], none)) =
      (decoded (s.readOf input streams stream), lastScanned (s.readOf input streams stream)) := by
  unfold Consumer.readOf
  split
  · exact found_of_ne hcursor.ne_dollar
  · rfl

/-- The share of a stream in the batch of a tick is what its read decodes. -/
theorem filter_batch (hnodup : streams.Nodup) :
    (s.batch input streams).filter (fun item => item.1 = stream) = if stream ∈ streams
      then entriesOf stream (s.readOf input streams stream) else [] := by
  rw [Consumer.batch, readAll_cases hnodup, filter_gathered hnodup, result_eq hcursor]
  rfl

theorem cursors_tick (hnodup : streams.Nodup) : (s.tick input streams).cursors stream =
    if stream ∈ streams then
      ((lastScanned (s.readOf input streams stream)).map EntryId.render).or
        ((s.seed input streams).cursors stream)
    else (s.seed input streams).cursors stream := by
  have hadvance := @advanced_cursors streams stream (fun stream =>
    if Reads (s.reader input) (s.seed input streams).cursors streams stream then
      found (s.reader input) (s.seed input streams).cursors stream
    else ([], none)) hnodup (s.seed input streams).cursors
  rw [← readAll_cases hnodup] at hadvance
  rw [result_eq hcursor] at hadvance
  exact hadvance

end

/-- A read that finds something moves its cursor forward, whether it can decode it or not. -/
theorem readOf_advances {last : EntryId}
    (h : lastScanned (s.readOf input streams stream) = some last) :
    cursorId (cursorOf (s.seed input streams).cursors stream) < last ∧
      last ≤ (s.history stream).lastEntryId ∧
      s.readOf input streams stream = between StreamEntry.id (s.history stream).entries
        (cursorId (cursorOf (s.seed input streams).cursors stream)) last := by
  unfold Consumer.readOf at h ⊢
  split at h
  · next hreads =>
    rw [if_pos hreads]
    rw [lastScanned, Option.map_eq_some_iff] at h
    obtain ⟨entry, hentry, rfl⟩ := h
    have hmem : entry ∈ (s.history stream).entries :=
      List.mem_of_mem_filter (List.mem_of_mem_take (List.mem_of_getLast? hentry))
    have hi := (s.history stream).increasing
    exact ⟨lt_of_getLast? hentry, hi.le_tail hmem, take_after hi hentry⟩
  · cases h

/-- What a stream contributed lies between its seed and its cursor. -/
structure ReadTo (s : Consumer) (stream seed cursor : String) : Prop where
  isSeed : IsCursor seed
  isCursor : IsCursor cursor
  behind : cursorId seed ≤ cursorId cursor
  reached : cursorId cursor ≤ (s.history stream).lastEntryId
  contributed : s.contributed stream = entriesOf stream
    (between StreamEntry.id (s.history stream).entries (cursorId seed) (cursorId cursor))

/-- A stream was never consumed, or it is read from its seed to its cursor. -/
def ReadOnce (s : Consumer) (stream : String) : Prop :=
  (s.cursors stream = none ∧ s.seeds stream = none ∧ s.contributed stream = []) ∨
    ∃ seed cursor, s.seeds stream = some seed ∧ s.cursors stream = some cursor ∧
      ReadTo s stream seed cursor

theorem readOnce_initial (history : String → Stream) (stream : String) :
    ReadOnce (.initial history) stream := .inl ⟨rfl, rfl, rfl⟩

theorem isCursor_seedOf (s : Consumer) (input : TickInput) (stream : String) :
    IsCursor (s.seedOf input stream) ∧
      cursorId (s.seedOf input stream) ≤ (s.history stream).lastEntryId := by
  have hzero : "0-0" = (⟨0, 0⟩ : EntryId).render := by decide
  unfold Consumer.seedOf
  split
  · split
    · rw [hzero, cursorId_render]
      exact ⟨.inr ⟨_, rfl⟩, EntryId.zero_le _⟩
    · rw [cursorId_render]
      exact ⟨.inr ⟨_, rfl⟩, le_rfl⟩
  · rw [cursorId_zero]
    exact ⟨.inl rfl, EntryId.zero_le _⟩

/-- Seeding a stream that was never consumed starts it at its seed; others stay as they are. -/
theorem readOnce_seed (h : ReadOnce s stream) (input : TickInput) (streams : List String) :
    ReadOnce (s.seed input streams) stream := by
  have hcursors := seedCursors_apply (s.seedOf input) streams s.cursors stream
  have hseeds := seedCursors_apply (s.seedOf input) streams s.seeds stream
  rcases h with ⟨hc, hs, hnone⟩ | ⟨seed, cursor, hs, hc, hread⟩
  · rw [hc] at hcursors
    rw [hs] at hseeds
    by_cases hmem : stream ∈ streams
    · rw [if_pos hmem] at hcursors hseeds
      obtain ⟨his, hle⟩ := isCursor_seedOf s input stream
      refine .inr ⟨_, _, hseeds, hcursors, his, his, le_rfl, hle, ?_⟩
      simp only [Option.getD_none, between_self]
      exact hnone
    · rw [if_neg hmem] at hcursors hseeds
      exact .inl ⟨hcursors, hseeds, hnone⟩
  · refine .inr ⟨seed, cursor, ?_, ?_, ?_⟩
    · exact hseeds.trans (by rw [hs]; simp)
    · exact hcursors.trans (by rw [hc]; simp)
    · exact ⟨hread.isSeed, hread.isCursor, hread.behind, hread.reached, hread.contributed⟩

/-- An entry beyond the tail lies beyond every cursor. -/
theorem readOnce_publish (h : ReadOnce s stream) (stream' : String) (entry : StreamEntry) :
    ReadOnce (s.publish stream' entry) stream := by
  unfold Consumer.publish
  split
  case isFalse => exact h
  case isTrue hlt =>
    rcases h with h | ⟨seed, cursor, hs, hc, hread⟩
    · exact .inl h
    refine .inr ⟨seed, cursor, hs, hc, hread.isSeed, hread.isCursor, hread.behind, ?_, ?_⟩
    · by_cases he : stream = stream'
      · subst he
        have htail : ((s.history stream).append entry hlt).lastEntryId = entry.id := tail_append
        simp only [Function.update_self, htail]
        exact hread.reached.trans hlt.le
      · simpa [he] using hread.reached
    · by_cases he : stream = stream'
      · subst he
        simp only [Function.update_self, Stream.append]
        rw [between_append_of_lt (hread.reached.trans_lt hlt)]
        exact hread.contributed
      · simpa [he, Consumer.contributed] using hread.contributed

theorem contributed_tick (s : Consumer) (input : TickInput) (streams : List String)
    (stream : String) : (s.tick input streams).contributed stream =
      s.contributed stream ++ (s.batch input streams).filter fun item => item.1 = stream := by
  simp [Consumer.contributed, Consumer.tick]

/-- A tick adds to each stream just what lies between its old cursor and its new one. -/
theorem readOnce_tick (h : ReadOnce s stream) (hnodup : streams.Nodup) :
    ReadOnce (s.tick input streams) stream := by
  rcases readOnce_seed h input streams with ⟨hc, hs, hnone⟩ | ⟨seed, cursor, hs, hc, hread⟩
  · have hout : stream ∉ streams := by
      intro hmem
      have hcursors := seedCursors_apply (s.seedOf input) streams s.cursors stream
      rw [if_pos hmem] at hcursors
      exact absurd (hcursors.symm.trans hc) (by simp)
    have hcursor : IsCursor (cursorOf (s.seed input streams).cursors stream) := by
      rw [cursorOf, hc]
      exact .inl rfl
    refine .inl ⟨?_, hs, ?_⟩
    · rw [cursors_tick hcursor hnodup, if_neg hout, hc]
    · rw [contributed_tick, filter_batch hcursor hnodup, if_neg hout, List.append_nil]
      exact hnone
  · have hof : cursorOf (s.seed input streams).cursors stream = cursor := by rw [cursorOf, hc]; rfl
    have hcursor : IsCursor (cursorOf (s.seed input streams).cursors stream) := hof ▸ hread.isCursor
    have hcontributed : s.contributed stream = entriesOf stream
        (between StreamEntry.id (s.history stream).entries (cursorId seed) (cursorId cursor)) :=
      hread.contributed
    by_cases hmem : stream ∈ streams
    · cases hlast : lastScanned (s.readOf input streams stream) with
      | none =>
        have hnone : s.readOf input streams stream = [] := by
          simpa [lastScanned] using hlast
        refine .inr ⟨seed, cursor, hs, ?_, hread.isSeed, hread.isCursor, hread.behind,
          hread.reached, ?_⟩
        · rw [cursors_tick hcursor hnodup, if_pos hmem, hlast, hc]
          rfl
        · rw [contributed_tick, filter_batch hcursor hnodup, if_pos hmem, hnone, hcontributed]
          exact List.append_nil _
      | some last =>
        obtain ⟨hlt, hle, hentries⟩ := readOf_advances hlast
        rw [hof] at hlt hentries
        refine .inr ⟨seed, last.render, hs, ?_, hread.isSeed, .inr ⟨last, rfl⟩, ?_, ?_, ?_⟩
        · rw [cursors_tick hcursor hnodup, if_pos hmem, hlast]
          rfl
        · rw [cursorId_render]
          exact hread.behind.trans hlt.le
        · rw [cursorId_render]
          exact hle
        · rw [contributed_tick, filter_batch hcursor hnodup, if_pos hmem, hentries, hcontributed,
            cursorId_render]
          have hjoin := between_append (s.history stream).increasing.2 hread.behind hlt.le
          rw [entriesOf, entriesOf, ← List.map_append, decoded, decoded, ← List.filterMap_append,
            hjoin]
          rfl
    · refine .inr ⟨seed, cursor, hs, ?_, hread.isSeed, hread.isCursor, hread.behind,
        hread.reached, ?_⟩
      · rw [cursors_tick hcursor hnodup, if_neg hmem, hc]
      · rw [contributed_tick, filter_batch hcursor hnodup, if_neg hmem, List.append_nil]
        exact hcontributed

theorem readOnce_step {move : Move} (h : Step s move t) (hs : ∀ stream, ReadOnce s stream) :
    ∀ stream, ReadOnce t stream := by
  intro stream
  cases h with
  | publish stream' entry => exact readOnce_publish (hs stream) stream' entry
  | seed input => exact readOnce_seed (hs stream) input _
  | tick input hn hstreams =>
    exact readOnce_tick (hs stream) (activeStreams_nodup hstreams hn)
  | refused => exact hs stream

/-- No cursor that a stream had moves back, and its seed stays what it was. -/
def MovesOn (s t : Consumer) (stream : String) : Prop :=
  ∀ seed cursor, s.seeds stream = some seed → s.cursors stream = some cursor →
    t.seeds stream = some seed ∧
      ∃ cursor', t.cursors stream = some cursor' ∧ cursorId cursor ≤ cursorId cursor'

theorem movesOn_seed (s : Consumer) (input : TickInput) (streams : List String) (stream : String) :
    MovesOn s (s.seed input streams) stream := by
  intro seed cursor hs hc
  have hcursors := seedCursors_apply (s.seedOf input) streams s.cursors stream
  have hseeds := seedCursors_apply (s.seedOf input) streams s.seeds stream
  refine ⟨hseeds.trans (by rw [hs]; simp), cursor, hcursors.trans (by rw [hc]; simp), le_rfl⟩

theorem movesOn_tick (h : ReadOnce s stream) (hnodup : streams.Nodup) :
    MovesOn s (s.tick input streams) stream := by
  intro seed cursor hs hc
  obtain ⟨hseeds, cursor', hcursors, hle⟩ := movesOn_seed s input streams stream seed cursor hs hc
  refine ⟨hseeds, ?_⟩
  rcases readOnce_seed h input streams with ⟨hnone, -, -⟩ | ⟨seed', cursor'', hs', hc', hread⟩
  · rw [hnone] at hcursors
    cases hcursors
  · obtain rfl : cursor'' = cursor' := Option.some.inj (hc'.symm.trans hcursors)
    have hof : cursorOf (s.seed input streams).cursors stream = cursor'' := by
      rw [cursorOf, hc']; rfl
    have hcursor : IsCursor (cursorOf (s.seed input streams).cursors stream) := hof ▸ hread.isCursor
    rw [cursors_tick hcursor hnodup]
    by_cases hmem : stream ∈ streams
    · rw [if_pos hmem]
      cases hlast : lastScanned (s.readOf input streams stream) with
      | none => exact ⟨cursor'', hc', hle⟩
      | some last =>
        obtain ⟨hlt, -, -⟩ := readOf_advances hlast
        rw [hof] at hlt
        refine ⟨last.render, rfl, ?_⟩
        rw [cursorId_render]
        exact hle.trans hlt.le
    · rw [if_neg hmem]
      exact ⟨cursor'', hc', hle⟩

theorem movesOn_step {move : Move} (h : Step s move t) (hs : ∀ stream, ReadOnce s stream)
    (stream : String) : MovesOn s t stream := by
  cases h with
  | publish stream' entry =>
    intro seed cursor hseed hcursor
    unfold Consumer.publish
    split <;> exact ⟨hseed, cursor, hcursor, le_rfl⟩
  | seed input => exact movesOn_seed s input _ stream
  | tick input hn hstreams => exact movesOn_tick (hs stream) (activeStreams_nodup hstreams hn)
  | refused =>
    intro seed cursor hseed hcursor
    exact ⟨hseed, cursor, hcursor, le_rfl⟩

/-- What the next tick does to one of its streams. -/
structure TickRules (s : Consumer) (input : TickInput) (streams : List String) (stream : String) :
    Prop where
  /-- A stream whose own read fails after the consolidated one keeps its cursor. -/
  failed : Reads (s.reader input) (s.seed input streams).cursors streams stream = false →
    (s.tick input streams).cursors stream = (s.seed input streams).cursors stream ∧
      (s.batch input streams).filter (fun item => item.1 = stream) = []
  /-- A read that finds entries moves its cursor to the last of them, decodable or not. -/
  advanced : Reads (s.reader input) (s.seed input streams).cursors streams stream = true →
    ∀ entry, ((s.history stream).xread
        (cursorId (cursorOf (s.seed input streams).cursors stream)) input.readCount).getLast? =
      some entry →
    (s.tick input streams).cursors stream = some entry.id.render ∧
      cursorId (cursorOf (s.seed input streams).cursors stream) < entry.id

theorem tickRules (h : ReadOnce s stream) (hnodup : streams.Nodup) (hmem : stream ∈ streams) :
    TickRules s input streams stream := by
  have hcursor : IsCursor (cursorOf (s.seed input streams).cursors stream) := by
    rcases readOnce_seed h input streams with ⟨hc, -, -⟩ | ⟨_, cursor, -, hc, hread⟩
    · rw [cursorOf, hc]
      exact .inl rfl
    · rw [cursorOf, hc]
      exact hread.isCursor
  constructor
  · intro hfails
    have hnone : s.readOf input streams stream = [] := by
      rw [Consumer.readOf, hfails]
      rfl
    rw [cursors_tick hcursor hnodup, filter_batch hcursor hnodup, if_pos hmem, if_pos hmem, hnone]
    exact ⟨rfl, rfl⟩
  · intro hreads entry hentry
    have hlast : lastScanned (s.readOf input streams stream) = some entry.id := by
      rw [Consumer.readOf, hreads, if_pos rfl, lastScanned, hentry]
      rfl
    rw [cursors_tick hcursor hnodup, if_pos hmem, hlast]
    exact ⟨rfl, (readOf_advances hlast).1⟩

/-- Selection receives the gathered batch in another order. -/
theorem events_perm (s : Consumer) (input : TickInput) (streams : List String) :
    ((s.gather input streams).events).Perm
      ((s.batch input streams).map fun item => (streamEntryKey item.1 item.2.1, item.2.2)) :=
  (SortBy.sortBy_perm sortKey _).map _

/-- Wherever a run leads, every stream has contributed what lies between its seed and its cursor,
each entry once and in order; no step moves a cursor back, and a tick moves each past what it
scanned or leaves it alone. -/
theorem streams_read_once {history : String → Stream} {moves : List Move}
    (h : Run Step (.initial history) moves s) :
    (∀ stream, ReadOnce s stream) ∧
    (∀ move t stream, Step s move t → MovesOn s t stream) ∧
    ∀ input modules streams stream, modules.Nodup → activeStreams modules = .ok streams →
      stream ∈ streams → TickRules s input streams stream ∧
        ((s.gather input streams).events).Perm
          ((s.batch input streams).map fun item => (streamEntryKey item.1 item.2.1, item.2.2)) := by
  have hread : ∀ stream, ReadOnce s stream := by
    refine h.invariant (fun hstep hs => readOnce_step hstep hs) ?_
    exact readOnce_initial history
  refine ⟨hread, fun move t stream hstep => movesOn_step hstep hread stream, ?_⟩
  intro input modules streams stream hn hstreams hmem
  have hnodup := activeStreams_nodup hstreams hn
  exact ⟨tickRules (hread stream) hnodup hmem, events_perm s input streams⟩

section
/-- A stream whose first entry cannot be decoded. -/
def poisoned : Stream :=
  ⟨[⟨⟨7, 0⟩, none⟩, ⟨⟨7, 1⟩, some GlobalWorkspace.visionReport⟩], by decide⟩

/-- The consolidated read fails, and then the stream's own read goes through. -/
def fallbackInput : TickInput := ⟨1, false, fun _ => false, true, true, fun _ => false⟩

theorem streams_read_once_poisoned :
    (∀ stream, ReadOnce (((Consumer.initial fun _ => poisoned).tick fallbackInput
      ["vision.out"]).tick fallbackInput ["vision.out"]) stream) ∧
    (((Consumer.initial fun _ => poisoned).tick fallbackInput ["vision.out"]).tick fallbackInput
      ["vision.out"]).contributed "vision.out" =
        [("vision.out", "7-1", GlobalWorkspace.visionReport)] := by
  have hnodup : ["vision"].Nodup := by simp
  have hstep : ∀ s : Consumer, Step s (.tick fallbackInput ["vision"])
      (s.tick fallbackInput ["vision.out"]) := fun s => .tick s fallbackInput hnodup rfl
  have hrun := (Run.single (hstep (.initial fun _ => poisoned))).append (.single (hstep _))
  refine ⟨(streams_read_once hrun).1, ?_⟩
  decide

end

end Kaine.Tick
