import Kaine.Cycle.Gather
import Kaine.Workspace.CoreSafety

/-! The candidates of a tick do not depend on the order of the streams or on the read path. -/
namespace Kaine.Tick
open Py Bus

variable {reader reader' : Reader} {seed : String → String} {cursors cursors' : Cursors}
  {modules modules' streams streams' : List String} {stream : String}

/-- The ids of one reply are distinct. -/
def DistinctIds (xread : String → String → List StreamEntry) : Prop :=
  ∀ stream cursor, ((xread stream cursor).map StreamEntry.id).Nodup

/-- The consolidated read succeeds, or no stream's own read raises. -/
def Complete (reader : Reader) (cursors : Cursors) (streams : List String) : Prop :=
  (reader.hasBlock = true ∧ ∃ block, readBlock reader cursors streams = .ok block) ∨
    ∀ stream ∈ streams, reader.readRaises stream = false

/-- The stream that a module name gives, where it gives one. -/
def streamOf (module_ : String) : String := (moduleStream module_).toOption.getD ""

/-- What a read of one stream finds when it does not fail. -/
def found (reader : Reader) (cursors : Cursors) (stream : String) : ReadResult :=
  (readEntries reader.xread stream (cursorOf cursors stream)).toOption.getD ([], none)

theorem activeStreams_eq (h : activeStreams modules = .ok streams) :
    streams = modules.map streamOf ∧ ∀ m ∈ modules, moduleStream m = .ok (streamOf m) := by
  induction modules generalizing streams with
  | nil =>
    cases h
    simp
  | cons m modules ih =>
    simp only [activeStreams, List.mapM_cons, bind_eq_ok] at h
    obtain ⟨stream, hm, rest, hrest, h⟩ := h
    obtain ⟨rfl, hall⟩ := ih hrest
    cases h
    have hstream : streamOf m = stream := by simp [streamOf, hm, Except.toOption]
    subst hstream
    simpa [hm] using hall

/-- The streams of distinct modules are distinct. -/
theorem activeStreams_nodup (h : activeStreams modules = .ok streams) (hm : modules.Nodup) :
    streams.Nodup := by
  obtain ⟨rfl, hall⟩ := activeStreams_eq h
  refine hm.map_on ?_
  intro a ha b hb hab
  have hb' := hall b hb
  rw [← hab] at hb'
  exact moduleStream_injective (hall a ha) hb'

theorem activeStreams_perm (h : activeStreams modules = .ok streams)
    (h' : activeStreams modules' = .ok streams') (hp : modules.Perm modules') :
    streams.Perm streams' := by
  obtain ⟨rfl, _⟩ := activeStreams_eq h
  obtain ⟨rfl, _⟩ := activeStreams_eq h'
  exact hp.map streamOf

/-- Seeding gives each stream its own cursor, in whatever order the streams come. -/
theorem seedCursors_apply (seed : String → String) (streams : List String) (cursors : Cursors)
    (stream : String) : seedCursors seed streams cursors stream =
      if stream ∈ streams then some ((cursors stream).getD (seed stream)) else cursors stream := by
  induction streams generalizing cursors with
  | nil => simp [seedCursors]
  | cons head streams ih =>
    have hstep := ih (seedCursor seed cursors head)
    rw [seedCursors, List.foldl_cons]
    refine hstep.trans ?_
    unfold seedCursor
    by_cases he : stream = head
    · subst he
      cases hc : cursors stream <;> simp [hc]
    · cases hc : cursors head <;> simp [he]

theorem seedCursors_perm (hp : streams.Perm streams') :
    seedCursors seed streams cursors = seedCursors seed streams' cursors := by
  funext stream
  simp only [seedCursors_apply, hp.mem_iff]

theorem safeRead_eq (h : reader.readRaises stream = false) :
    safeRead reader cursors stream = found reader cursors stream := by
  simp [safeRead, found, h]

/-- A read that finds nothing reports nothing scanned. -/
theorem found_of_ne (h : cursorOf cursors stream ≠ "$") :
    found reader cursors stream =
      (decoded (reader.xread stream (cursorOf cursors stream)),
        lastScanned (reader.xread stream (cursorOf cursors stream))) := by
  simp [found, readEntries, h, Except.toOption]

theorem keys_map {V : Type} (f : String → V) (streams : List String) :
    (streams.map fun s => (s, f s)).map Prod.fst = streams := by
  simp [Function.comp_def]

/-- The dict that the consolidated read builds holds for each stream what its own read finds. -/
theorem lookup_block {V : Type} (view : List StreamEntry → V) (reply : String → List StreamEntry)
    (hnodup : streams.Nodup) (hs : stream ∈ streams) :
    (Assoc.assignAll (streams.map fun s => (s, view []))
      (((streams.map fun s => (s, reply s)).filter fun r => !r.2.isEmpty).map
        fun r => (r.1, view r.2))).lookup stream = some (view (reply stream)) := by
  have hfst : ((((streams.map fun s => (s, reply s)).filter fun r => !r.2.isEmpty).map
      fun r => (r.1, view r.2)).map Prod.fst).Sublist streams := by
    have hsub := (List.filter_sublist (p := fun r => !r.2.isEmpty)
      (l := streams.map fun s => (s, reply s))).map Prod.fst
    rw [keys_map] at hsub
    simpa [List.map_map, Function.comp_def] using hsub
  have hkeys := hnodup.sublist hfst
  have hinit : (streams.map fun s => (s, view [])).lookup stream = some (view []) := by
    refine Assoc.lookup_of_mem ?_ (List.mem_map.mpr ⟨stream, hs, rfl⟩)
    rwa [keys_map]
  rw [Assoc.lookup_assignAll _ hkeys, hinit]
  by_cases hnew : reply stream = []
  · have hnone : stream ∉ (((streams.map fun s => (s, reply s)).filter fun r =>
        !r.2.isEmpty).map fun r => (r.1, view r.2)).map Prod.fst := by
      simp [hnew]
    simp [Assoc.lookup_of_not_mem hnone, hnew]
  · have hmem : (stream, view (reply stream)) ∈ ((streams.map fun s => (s, reply s)).filter
        fun r => !r.2.isEmpty).map fun r => (r.1, view r.2) := by
      simp [hnew, hs]
    simp [Assoc.lookup_of_mem hkeys hmem]

/-- A consolidated read that succeeds hands on what the stream's own reads find. -/
theorem readBlock_ok {entriesByStream : List (String × List (EntryId × Event))}
    {lastByStream : List (String × Option EntryId)}
    (h : readBlock reader cursors streams = .ok (entriesByStream, lastByStream))
    (hnodup : streams.Nodup) (hs : stream ∈ streams) :
    ((entriesByStream.lookup stream).getD [], (lastByStream.lookup stream).getD none) =
      found reader cursors stream := by
  unfold readBlock at h
  split at h
  · cases h
  · unfold readEntriesBlock at h
    split at h
    · cases h
    · rename_i hdollar
      have hcursor : cursorOf cursors stream ≠ "$" := by
        intro he
        refine hdollar (List.any_eq_true.mpr ⟨_, List.mem_map.mpr ⟨stream, hs, rfl⟩, ?_⟩)
        simpa using he
      simp only [Except.ok.injEq, Prod.mk.injEq, List.map_map, Function.comp_def] at h
      obtain ⟨rfl, rfl⟩ := h
      have hentries := lookup_block decoded (fun s => reader.xread s (cursorOf cursors s)) hnodup hs
      have hlast :=
        lookup_block lastScanned (fun s => reader.xread s (cursorOf cursors s)) hnodup hs
      have hnil : decoded [] = [] ∧ lastScanned [] = none := ⟨rfl, rfl⟩
      rw [hnil.1] at hentries
      rw [hnil.2] at hlast
      rw [found_of_ne hcursor, hentries, hlast]
      rfl

/-- Both read paths hand on the same results, stream by stream. -/
theorem readAll_eq (h : Complete reader cursors streams) (hnodup : streams.Nodup) :
    readAll reader cursors streams = streams.map (found reader cursors) := by
  have hblock : ∀ block, readBlock reader cursors streams = .ok block →
      safeReadBlock reader cursors streams = streams.map (found reader cursors) := by
    rintro ⟨entriesByStream, lastByStream⟩ hb
    rw [safeReadBlock, hb]
    exact List.map_congr_left fun stream hs => readBlock_ok hb hnodup hs
  rcases h with ⟨hhas, block, hb⟩ | hr
  · simpa [readAll, hhas] using hblock block hb
  · have hfallback : streams.map (safeRead reader cursors) = streams.map (found reader cursors) :=
      List.map_congr_left fun stream hs => safeRead_eq (hr stream hs)
    unfold readAll
    split
    · cases hb : readBlock reader cursors streams with
      | error e => simpa [safeReadBlock, hb] using hfallback
      | ok block => exact hblock block hb
    · exact hfallback

/-- The candidates of one stream, before sorting. -/
def candidates (reader : Reader) (cursors : Cursors) (stream : String) : List Gathered :=
  (found reader cursors stream).1.map fun entry => (stream, entry.1.render, entry.2)

theorem gathered_eq (h : Complete reader cursors streams) (hnodup : streams.Nodup) :
    gathered streams (readAll reader cursors streams) =
      streams.flatMap (candidates reader cursors) := by
  have hzip : streams.zip (streams.map (found reader cursors)) =
      streams.map fun stream => (stream, found reader cursors stream) := by
    simp [← List.map_prod_left_eq_zip]
  rw [gathered, readAll_eq h hnodup, hzip, List.flatMap_map]
  rfl

theorem found_ids_nodup (hids : DistinctIds reader.xread) (cursors : Cursors) (stream : String) :
    ((found reader cursors stream).1.map Prod.fst).Nodup := by
  by_cases hc : cursorOf cursors stream = "$"
  · simp [found, readEntries, hc, Except.toOption]
  · rw [found_of_ne hc]
    refine (hids stream (cursorOf cursors stream)).sublist ?_
    generalize reader.xread stream (cursorOf cursors stream) = entries
    induction entries with
    | nil => exact .slnil
    | cons entry entries ih =>
      cases he : entry.event with
      | none => simpa [decoded, he] using ih.cons entry.id
      | some event => simpa [decoded, he] using ih.cons_cons entry.id

theorem mem_candidates {item : Gathered} (h : item ∈ streams.flatMap (candidates reader cursors)) :
    ∃ id : EntryId, item.1 ∈ streams ∧ item.2.1 = id.render ∧
      (id, item.2.2) ∈ (found reader cursors item.1).1 := by
  obtain ⟨stream, hs, hitem⟩ := List.mem_flatMap.mp h
  obtain ⟨⟨id, event⟩, hentry, rfl⟩ := List.mem_map.mp hitem
  exact ⟨id, hs, rfl, hentry⟩

/-- Stream and id name a candidate. -/
theorem candidate_ext (hids : DistinctIds reader.xread) {a b : Gathered}
    (ha : a ∈ streams.flatMap (candidates reader cursors))
    (hb : b ∈ streams.flatMap (candidates reader cursors)) (hstream : a.1 = b.1)
    (hid : a.2.1 = b.2.1) : a = b := by
  obtain ⟨ida, _, hra, hfa⟩ := mem_candidates ha
  obtain ⟨idb, _, hrb, hfb⟩ := mem_candidates hb
  obtain ⟨sa, ta, ea⟩ := a
  obtain ⟨sb, tb, eb⟩ := b
  simp only at *
  subst hstream
  subst hid
  obtain rfl : ida = idb := render_injective (hra.symm.trans hrb)
  have heq := List.inj_on_of_nodup_map (found_ids_nodup hids cursors sa) hfa hfb rfl
  simp_all

theorem candidates_nodup (hids : DistinctIds reader.xread) (cursors : Cursors)
    (hnodup : streams.Nodup) : (streams.flatMap (candidates reader cursors)).Nodup := by
  rw [List.nodup_flatMap]
  constructor
  · intro stream _
    refine List.Nodup.map ?_ (found_ids_nodup hids cursors stream).of_map
    rintro ⟨ida, ea⟩ ⟨idb, eb⟩ h
    simp only [Prod.mk.injEq, true_and] at h
    rw [render_injective h.1, h.2]
  · refine hnodup.imp ?_
    intro a b hne item ha hb
    obtain ⟨_, _, rfl⟩ := List.mem_map.mp ha
    obtain ⟨_, _, he⟩ := List.mem_map.mp hb
    exact hne (Prod.mk.inj he).1.symm

/-- The sort key tells the candidates of a tick apart. -/
theorem sortKey_ext (hids : DistinctIds reader.xread) {a b : Gathered}
    (ha : a ∈ streams.flatMap (candidates reader cursors))
    (hb : b ∈ streams.flatMap (candidates reader cursors)) (h : sortKey a = sortKey b) :
    a = b := by
  obtain ⟨ida, _, hra, _⟩ := mem_candidates ha
  obtain ⟨idb, _, hrb, _⟩ := mem_candidates hb
  simp only [sortKey, toLex_inj, Prod.mk.injEq] at h
  obtain ⟨_, _, hkey, hstream⟩ := h
  rw [hra, hrb, entryIdSortKey_render, entryIdSortKey_render] at hkey
  simp only [toLex_inj, Prod.mk.injEq] at hkey
  refine candidate_ext hids ha hb hstream ?_
  rw [hra, hrb]
  cases ida
  cases idb
  simp_all

/-- The key of a gathered entry, as selection sees it. -/
def keyOf (item : Gathered) : String := streamEntryKey item.1 item.2.1

theorem gather_events (h : Complete reader (seedCursors seed streams cursors) streams)
    (hnodup : streams.Nodup) : (gather reader seed cursors streams).events =
      (SortBy.sortBy sortKey (streams.flatMap
        (candidates reader (seedCursors seed streams cursors)))).map
          fun item => (keyOf item, item.2.2) := by
  simp only [gather, gathered_eq h hnodup]
  rfl

theorem found_congr (h : reader.xread = reader'.xread) : found reader = found reader' := by
  funext cursors stream
  simp [found, h]

theorem splitStreamEntryKey_keyOf {item : Gathered}
    (h : item ∈ streams.flatMap (candidates reader cursors)) :
    splitStreamEntryKey (keyOf item) = (some item.1, item.2.1) := by
  obtain ⟨id, _, hid, _⟩ := mem_candidates h
  refine splitStreamEntryKey_streamEntryKey ?_
  rw [hid]
  exact colon_not_mem_render id

/-- The keys of the candidates are distinct, since they split back. -/
theorem keys_nodup (hids : DistinctIds reader.xread) (cursors : Cursors) (hnodup : streams.Nodup) :
    ((streams.flatMap (candidates reader cursors)).map keyOf).Nodup := by
  refine (candidates_nodup hids cursors hnodup).map_on ?_
  intro a ha b hb hab
  have hsplit := splitStreamEntryKey_keyOf ha
  rw [hab, splitStreamEntryKey_keyOf hb] at hsplit
  simp only [Prod.mk.injEq, Option.some.injEq] at hsplit
  exact candidate_ext hids ha hb hsplit.1.symm hsplit.2.symm

/-- Within one source and type the entries of a stream sort as they arrived. -/
theorem sortKey_lt {a b : EntryId} {ea eb : Event} (h : a.before b = true)
    (hsource : ea.source = eb.source) (htype : ea.type = eb.type) :
    sortKey (stream, a.render, ea) < sortKey (stream, b.render, eb) := by
  have hkey := before_iff.mp h
  simp [sortKey, Prod.Lex.toLex_lt_toLex, hsource, htype, hkey]

/-- Two registration orders and both read paths hand selection the same events, under distinct
keys that split back and in arrival order. -/
theorem selection_order_free {seed : String → String} {cursors : Cursors}
    (hmodules : modules.Nodup) (hperm : modules.Perm modules')
    (hstreams : activeStreams modules = .ok streams)
    (hstreams' : activeStreams modules' = .ok streams')
    (hread : reader.xread = reader'.xread) (hids : DistinctIds reader.xread)
    (hcomplete : Complete reader (seedCursors seed streams cursors) streams)
    (hcomplete' : Complete reader' (seedCursors seed streams' cursors) streams') :
    (gather reader seed cursors streams).events = (gather reader' seed cursors streams').events ∧
    ((gather reader seed cursors streams).events.map Prod.fst).Nodup ∧
    GlobalWorkspace.requireUniqueIds (gather reader seed cursors streams).events = .ok () ∧
    (∀ item ∈ (gather reader seed cursors streams).events, ∃ stream ∈ streams, ∃ id : EntryId,
      item.1 = streamEntryKey stream id.render ∧
      (id, item.2) ∈ (found reader (seedCursors seed streams cursors) stream).1 ∧
      splitStreamEntryKey item.1 = (some stream, id.render)) ∧
    ∀ stream ∈ streams, ∀ a b : EntryId, ∀ ea eb : Event,
      (a, ea) ∈ (found reader (seedCursors seed streams cursors) stream).1 →
      (b, eb) ∈ (found reader (seedCursors seed streams cursors) stream).1 →
      a.before b = true → ea.source = eb.source → ea.type = eb.type →
      [(streamEntryKey stream a.render, ea), (streamEntryKey stream b.render, eb)].Sublist
        (gather reader seed cursors streams).events := by
  have hnodup := activeStreams_nodup hstreams hmodules
  have hp := activeStreams_perm hstreams hstreams' hperm
  have hevents := gather_events hcomplete hnodup
  have hevents' := gather_events hcomplete' (hp.nodup_iff.mp hnodup)
  rw [← seedCursors_perm hp] at hevents'
  generalize seedCursors seed streams cursors = cs at hevents hevents' ⊢
  have hkeys : ((gather reader seed cursors streams).events.map Prod.fst).Nodup := by
    have hsort := (SortBy.sortBy_perm sortKey (streams.flatMap (candidates reader cs))).map keyOf
    rw [hevents, List.map_map]
    exact hsort.nodup_iff.mpr (keys_nodup hids cs hnodup)
  refine ⟨?_, hkeys, GlobalWorkspace.requireUniqueIds_ok hkeys, ?_, ?_⟩
  · have hcand : candidates reader' cs = candidates reader cs := by
      funext stream
      simp [candidates, found_congr hread]
    have hflat := hp.flatMap_right (candidates reader cs)
    rw [hevents, hevents', hcand]
    congr 1
    exact SortBy.sortBy_eq_of_perm (fun a ha b hb => sortKey_ext hids ha hb) hflat
  · intro item hitem
    rw [hevents] at hitem
    obtain ⟨cand, hcand, rfl⟩ := List.mem_map.mp hitem
    have hmem := (SortBy.mem_sortBy sortKey).mp hcand
    obtain ⟨id, hs, hid, hfound⟩ := mem_candidates hmem
    have hsplit := splitStreamEntryKey_keyOf hmem
    rw [hid] at hsplit
    exact ⟨cand.1, hs, id, by rw [keyOf, hid], hfound, hsplit⟩
  · intro stream hs a b ea eb ha hb hbefore hsource htype
    have hmem : ∀ (id : EntryId) (event : Event), (id, event) ∈ (found reader cs stream).1 →
        (stream, id.render, event) ∈ streams.flatMap (candidates reader cs) := by
      intro id event hfound
      exact List.mem_flatMap.mpr ⟨stream, hs, List.mem_map.mpr ⟨(id, event), hfound, rfl⟩⟩
    have hsub := SortBy.sublist_of_key_lt (hmem a ea ha) (hmem b eb hb)
      (sortKey_lt hbefore hsource htype)
    rw [hevents]
    exact hsub.map fun item => (keyOf item, item.2.2)

/-- One entry on each stream, the later one on the stream that registers first. -/
def twoStreams (stream _cursor : String) : List StreamEntry :=
  if stream = "vision.out" then
    [⟨⟨7, 1⟩, some GlobalWorkspace.visionReport⟩]
  else if stream = "audition.out" then
    [⟨⟨7, 0⟩, some GlobalWorkspace.visionReport⟩]
  else []

theorem twoStreams_distinct : DistinctIds twoStreams := by
  intro stream cursor
  unfold twoStreams
  split
  · simp
  · split <;> simp

def blockReader : Reader := ⟨twoStreams, true, false, fun _ => true⟩
def fallbackReader : Reader := ⟨twoStreams, true, true, fun _ => false⟩

theorem selection_order_free_two :
    (gather blockReader (fun _ => "0") (fun _ => none) ["vision.out", "audition.out"]).events =
    (gather fallbackReader (fun _ => "0") (fun _ => none) ["audition.out",
      "vision.out"]).events := by
  have hblock : Complete blockReader
      (seedCursors (fun _ => "0") ["vision.out", "audition.out"] fun _ => none)
      ["vision.out", "audition.out"] := .inl ⟨rfl, _, rfl⟩
  have hfallback : Complete fallbackReader
      (seedCursors (fun _ => "0") ["audition.out", "vision.out"] fun _ => none)
      ["audition.out", "vision.out"] := .inr fun _ _ => rfl
  have hread : blockReader.xread = fallbackReader.xread := rfl
  have hmodules : ["vision", "audition"].Nodup := by simp
  have hperm : ["vision", "audition"].Perm ["audition", "vision"] := .swap _ _ _
  have h := selection_order_free hmodules hperm rfl rfl hread twoStreams_distinct hblock hfallback
  exact h.1

end Kaine.Tick
