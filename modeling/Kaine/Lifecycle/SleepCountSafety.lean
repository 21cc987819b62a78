import Kaine.Lifecycle.SleepCount

/-! The runner refines a consumer that checkpoints count and cursor together, so its persisted
count is exact. -/

namespace Kaine.SleepCount
open Py Bus Transition

variable {F : Type} [Zero F] {s t : System F} {stage before : StageState F} {final write : Bool}
  {allowed : List StreamEntry → EntryId → Prop} {a : Action F}

/-- An undecodable entry counts nothing. -/
def entryCounts (entry : StreamEntry) : Bool := entry.event.any countsAsSleep

/-- How many sleeps a stream holds behind one id and up to another. -/
def sleeps (stream : Stream) (a c : EntryId) : ℕ :=
  OrderedLog.count StreamEntry.id entryCounts stream.entries a c

def tally (stage : StageState F) (anchor : Option (Consumer.Anchor EntryId)) :
    Consumer.Tally EntryId where
  count := stage.sleepCount
  cursor := stage.sleepCursor
  anchor := anchor

/-- The runner as a checkpointed consumer of its stream. -/
def System.view (s : System F) : Consumer.State StreamEntry EntryId where
  log := s.stream.entries
  memory := tally s.runner.stage s.anchor
  disk := tally (s.disk.getD {}) s.diskAnchor
  scan :=
    match s.phase with
    | .scanning _ _ cursor total =>
      some (tally { s.runner.stage with sleepCount := total, sleepCursor := some cursor } s.anchor)
    | _ => none

/-- A few steps of the consumer. -/
abbrev Steps (allowed : List StreamEntry → EntryId → Prop) :=
  Relation.ReflTransGen (Consumer.Step StreamEntry.id entryCounts (⟨0, 0⟩ : EntryId) allowed)

theorem countBatch_decoded (total : ℕ) (entries : List StreamEntry) :
    countBatch total (decoded entries) = total + entries.countP entryCounts := by
  induction entries generalizing total with
  | nil => rfl
  | cons entry entries ih =>
    have hstep := ih (if entryCounts entry then total + 1 else total)
    rw [List.countP_cons]
    cases he : entry.event with
    | none =>
      have hnot : entryCounts entry = false := by simp [entryCounts, he]
      simpa [decoded, he, hnot] using ih total
    | some event =>
      have hcounts : entryCounts entry = countsAsSleep event := by simp [entryCounts, he]
      rw [hcounts] at hstep ⊢
      have hfold : countBatch total (decoded (entry :: entries)) =
          countBatch (if countsAsSleep event then total + 1 else total) (decoded entries) := by
        simp [countBatch, decoded, he]
      rw [hfold, hstep]
      split <;> omega

theorem render_ne_dollar (id : EntryId) : id.render ≠ "$" := by
  intro h
  have hlen := congrArg (fun s => s.toList.length) h
  have hpos : 0 < (Nat.toDigits 10 id.ms).length := List.length_pos_iff.mpr Nat.toDigits_ne_nil
  simp [toList_render] at hlen
  omega

theorem readEntries_render (xread : String → String → List StreamEntry) (stream : String)
    (id : EntryId) : readEntries xread stream id.render =
      .ok (decoded (xread stream id.render), lastScanned (xread stream id.render)) := by
  simp [readEntries, render_ne_dollar id]

theorem tally_record [LT F] [DecidableLT F] (reading : Option F)
    (anchor : Option (Consumer.Anchor EntryId)) :
    tally (recordStimulusSourceSeconds reading stage) anchor = tally stage anchor := by
  unfold recordStimulusSourceSeconds
  split
  · rfl
  · split <;> rfl

/-- Writing the stage saves the tally, or leaves the file as it is. -/
theorem writeStage_refines (ok : Bool) (s : System F) :
    Steps allowed s.view (s.writeStage ok).view := by
  cases ok with
  | false => exact .refl
  | true => exact .single .save

@[simp] theorem writeStage_stage (ok : Bool) (s : System F) :
    (s.writeStage ok).runner.stage = s.runner.stage := by
  cases ok <;> rfl

theorem beginCount_refines (final : Bool) (before : StageState F) (h : s.phase = .idle) :
    Steps allowed s.view (s.beginCount final before).view := by
  unfold System.beginCount
  split
  · have hview : ({ s with phase := .anchoring final before } : System F).view = s.view := by
      simp [System.view, h]
    rw [hview]
  · rename_i cursor hc
    have hscan : Consumer.Step StreamEntry.id entryCounts ⟨0, 0⟩ allowed s.view
        { s.view with scan := some s.view.memory } := .scan (by simp [System.view, tally, hc])
    have hview : ({ s with phase := .scanning final before cursor s.runner.stage.sleepCount } :
        System F).view = { s.view with scan := some s.view.memory } := by
      simp [System.view, tally, hc]
    rw [hview]
    exact .single hscan

/-- Stages with one tally look alike to the consumer, outside a scan. -/
theorem view_setStage (h : s.phase = .idle) (htally : ∀ anchor, tally stage anchor =
    tally s.runner.stage anchor) : (s.setStage stage).view = s.view := by
  simp [System.view, System.setStage, h, htally]

/-- The id that a reply to `latest` records. -/
def recordedId (stream : Stream) : EntryId := (stream.latest.map Prod.fst).getD ⟨0, 0⟩

theorem recordedId_le (stream : Stream) : recordedId stream ≤ stream.lastEntryId := by
  unfold recordedId Stream.latest Stream.lastEntryId
  rcases List.eq_nil_or_concat' stream.entries with hnil | ⟨front, last, hlast⟩
  · simp [hnil, OrderedLog.tail]
  · rw [hlast]
    cases hevent : last.event with
    | none => simp [hevent, EntryId.zero_le]
    | some event => simp [hevent]

theorem tally_advance (stage : StageState F) (now : String)
    (anchor : Option (Consumer.Anchor EntryId)) :
    tally (advanceToEmbodied stage now) anchor = tally stage anchor := by
  unfold advanceToEmbodied
  split <;> rfl

theorem mature_refines (write : Bool) (now : String) (h : s.phase = .evaluating) :
    Steps allowed s.view (s.mature write now).view := by
  have hidle : ({ s with phase := .idle } : System F).view = s.view := by simp [System.view, h]
  unfold System.mature
  split
  · have hview := view_setStage (s := { s with phase := .idle }) rfl
      (tally_advance s.runner.stage now)
    have hsave : Consumer.Step StreamEntry.id entryCounts ⟨0, 0⟩ allowed s.view
        { s.view with disk := s.view.memory } := .save
    have hsaved : ({ s.view with disk := s.view.memory } : Consumer.State StreamEntry EntryId) =
        ({ s.setStage (advanceToEmbodied s.runner.stage now) with
          disk := some (advanceToEmbodied s.runner.stage now)
          diskAnchor := s.anchor
          phase := .idle } : System F).view := by
      simp [System.view, System.setStage, h, tally_advance]
    rw [hsaved] at hsave
    exact .single hsave
  · rw [hidle]

theorem beginFinalCount_refines (h : s.phase = .idle) :
    Steps allowed s.view s.beginFinalCount.view := by
  unfold System.beginFinalCount
  split
  · exact .refl
  · exact beginCount_refines true s.runner.stage h

theorem tally_resolve (existing : Option (StageState F)) (prior : Bool) (now : String)
    (anchor : Option (Consumer.Anchor EntryId)) :
    tally (resolveBootStage existing prior now) anchor = tally (existing.getD {}) anchor := by
  unfold resolveBootStage
  cases existing with
  | some stage => rfl
  | none => cases prior <;> rfl

theorem restart_refines (stagingEnabled feedConfigured prior : Bool) (now : String)
    (s : System F) :
    Steps allowed s.view (s.restart stagingEnabled feedConfigured prior now).view := by
  have hview : (s.restart stagingEnabled feedConfigured prior now).view =
      { s.view with memory := s.view.disk, scan := none } := by
    simp [System.view, System.restart, tally_resolve]
  rw [hview]
  exact .single .load

/-- A cursor is only awaited while there is none. -/
def Fresh (s : System F) : Prop :=
  ∀ final before, s.phase = .anchoring final before → s.runner.stage.sleepCursor = none

theorem fresh_of_phase (h : s.phase = .idle ∨ s.phase = .evaluating) : Fresh s := by
  intro final before hp
  rcases h with h | h <;> simp [h] at hp

theorem beginCount_fresh (final : Bool) (before : StageState F) (s : System F) :
    Fresh (s.beginCount final before) := by
  unfold System.beginCount
  split
  · rename_i hc
    exact fun _ _ _ => hc
  · intro final' before' hp
    simp at hp

/-- The consumer that records ids under a condition keeps every tally exact. -/
def AllExact (s : System F) : Prop :=
  Consumer.All StreamEntry.id ⟨0, 0⟩ (Consumer.Exact StreamEntry.id entryCounts ⟨0, 0⟩) s.view

def AllSkipless (s : System F) : Prop :=
  Consumer.All StreamEntry.id ⟨0, 0⟩ (fun log t =>
    Consumer.Exact StreamEntry.id entryCounts ⟨0, 0⟩ log t ∧
      Consumer.Skipless StreamEntry.id entryCounts log t) s.view

theorem initial_view (h : Initial s) : s.view =
    ⟨s.stream.entries, {}, {}, none⟩ ∧ Fresh s := by
  obtain ⟨stagingEnabled, feedConfigured, prior, now, hs⟩ := h
  rw [hs]
  refine ⟨?_, fresh_of_phase (.inl rfl)⟩
  simp [System.view, tally_resolve]
  simp [tally]

theorem exact_init (h : Initial s) : Fresh s ∧ AllExact s := by
  obtain ⟨hview, hfresh⟩ := initial_view h
  refine ⟨hfresh, ?_⟩
  rw [AllExact, hview]
  exact ⟨s.stream.increasing, rfl, rfl, by simp⟩

theorem skipless_init (h : Initial s) : Fresh s ∧ AllSkipless s := by
  obtain ⟨hview, hfresh⟩ := initial_view h
  refine ⟨hfresh, ?_⟩
  rw [AllSkipless, hview]
  have hnone : Consumer.Skipless StreamEntry.id entryCounts s.stream.entries {} := by
    rintro a ⟨⟩
  exact ⟨s.stream.increasing, ⟨rfl, hnone⟩, ⟨rfl, hnone⟩, by simp⟩

/-- A stage with a cursor goes back to the anchor whose id it was counted from. -/
theorem exact_saved (hs : AllExact s) (hd : s.disk = some stage) :
    (stage.sleepCursor = none ∧ stage.sleepCount = 0) ∨
    ∃ cursor anchor, stage.sleepCursor = some cursor ∧ s.diskAnchor = some anchor ∧
      Consumer.Exact StreamEntry.id entryCounts ⟨0, 0⟩ s.stream.entries (tally stage s.diskAnchor) ∧
      stage.sleepCount = sleeps s.stream anchor.recorded cursor := by
  have hexact : Consumer.Exact StreamEntry.id entryCounts ⟨0, 0⟩ s.stream.entries
      (tally stage s.diskAnchor) := by
    simpa [System.view, hd] using hs.disk
  cases hc : stage.sleepCursor with
  | none =>
    cases ha : s.diskAnchor <;> simp_all [Consumer.Exact, tally]
  | some cursor =>
    cases ha : s.diskAnchor with
    | none => simp_all [Consumer.Exact, tally]
    | some anchor =>
      have hcount := hexact
      simp only [Consumer.Exact, tally, hc, ha] at hcount
      exact .inr ⟨cursor, anchor, rfl, rfl, ha ▸ hexact, hcount.2.2.2.2⟩

/-- The persisted count is the number of sleeps between the tail at the anchoring read and the
persisted cursor. -/
def CountedOnce (s : System F) : Prop :=
  ∀ stage, s.disk = some stage →
    (stage.sleepCursor = none ∧ stage.sleepCount = 0) ∨
    ∃ cursor anchor, stage.sleepCursor = some cursor ∧ s.diskAnchor = some anchor ∧
      stage.sleepCount = sleeps s.stream anchor.tail cursor

/-- Where every anchoring read finds its tail readable, the persisted count is exact. -/
theorem countedOnce_of_skipless (hs : AllSkipless s) : CountedOnce s := by
  intro stage hd
  have hexact : AllExact s :=
    ⟨hs.increasing, hs.memory.1, hs.disk.1, fun t ht => (hs.scan t ht).1⟩
  rcases exact_saved hexact hd with hnone | ⟨cursor, anchor, hc, ha, hsaved, _⟩
  · exact .inl hnone
  · have hskip : Consumer.Skipless StreamEntry.id entryCounts s.stream.entries
        (tally stage s.diskAnchor) := by
      simpa [System.view, hd] using hs.disk.2
    refine .inr ⟨cursor, anchor, hc, ha, ?_⟩
    exact hsaved.count_eq hskip hc ha

section Accrual

variable [Add F] [LT F] [DecidableLT F]

theorem tally_accumulate (delta : F) (anchor : Option (Consumer.Anchor EntryId)) :
    tally (accumulateLivedTime delta stage) anchor = tally stage anchor := by
  unfold accumulateLivedTime
  split <;> rfl

theorem tally_accrue (stage : StageState F) (delta : F)
    (reading : Option F) (anchor : Option (Consumer.Anchor EntryId)) :
    tally (recordStimulusSourceSeconds reading (accumulateLivedTime delta stage)) anchor =
      tally stage anchor := by
  rw [tally_record, tally_accumulate]

theorem beginTick_refines (serverTime : Option ℕ) (delta : F) (reading : Option F)
    (h : s.phase = .idle) :
    Steps allowed s.view (s.beginTick serverTime delta reading).view := by
  unfold System.beginTick
  split
  · exact .refl
  · dsimp only
    split
    · exact .refl
    · set u : System F :=
        { s with runner := { s.runner with bootMs := s.runner.bootMs.or serverTime } }
      have hu : u.phase = .idle := h
      have hview := view_setStage (s := u) hu (tally_accrue u.runner.stage delta reading)
      have hcount : Steps allowed _ _ := beginCount_refines (s := u.setStage
        (recordStimulusSourceSeconds reading (accumulateLivedTime delta u.runner.stage)))
        false s.runner.stage hu
      rw [hview] at hcount
      exact hcount

theorem finalLivedTime_refines (delta : F) (reading : Option F) (write : Bool) (s : System F) :
    Steps allowed s.view (s.finalLivedTime delta reading write).view := by
  refine (Relation.ReflTransGen.single .abandon).trans ?_
  have hview := view_setStage (s := { s with phase := .idle }) rfl
    (tally_accrue s.runner.stage delta reading)
  have hwrite : Steps allowed _ _ := writeStage_refines write
    (({ s with phase := .idle } : System F).setStage
      (recordStimulusSourceSeconds reading (accumulateLivedTime delta s.runner.stage)))
  rw [hview] at hwrite
  unfold System.finalLivedTime
  dsimp only
  split
  · exact .refl
  · exact hwrite

end Accrual

variable [DecidableEq F]

theorem persistIfChanged_refines (before : StageState F) (ok : Bool) (s : System F) :
    Steps allowed s.view (s.persistIfChanged before ok).view := by
  unfold System.persistIfChanged
  split
  · exact .refl
  · exact writeStage_refines ok s

theorem persistIfChanged_phase (before : StageState F) (ok : Bool) (s : System F)
    (phase : Phase F) : { s.persistIfChanged before ok with phase := phase } =
      ({ s with phase := phase } : System F).persistIfChanged before ok := by
  unfold System.persistIfChanged System.writeStage
  split
  · rfl
  · split <;> rfl

@[simp] theorem persistIfChanged_stage (before : StageState F) (ok : Bool) (s : System F) :
    (s.persistIfChanged before ok).runner.stage = s.runner.stage := by
  unfold System.persistIfChanged
  split <;> simp

@[simp] theorem afterCount_stage (final : Bool) (before : StageState F) (write : Bool)
    (s : System F) : (s.afterCount final before write).runner.stage = s.runner.stage := by
  unfold System.afterCount
  split
  · split <;> simp
  · simp

/-- Whatever a count came to, it ends with the scan over and the stage perhaps saved. -/
theorem afterCount_refines (final : Bool) (before : StageState F) (write : Bool) (s : System F) :
    Steps allowed { s.view with scan := none } (s.afterCount final before write).view := by
  unfold System.afterCount
  split
  · split
    · exact .refl
    · rw [persistIfChanged_phase]
      exact persistIfChanged_refines before write { s with phase := .idle }
  · rw [persistIfChanged_phase]
    exact persistIfChanged_refines before write { s with phase := .evaluating }

theorem afterCount_frame (final : Bool) (before : StageState F) (write : Bool) (s : System F) :
    (s.afterCount final before write).anchor = s.anchor ∧
      (s.afterCount final before write).stream = s.stream := by
  unfold System.afterCount System.persistIfChanged System.writeStage
  repeat' split
  all_goals exact ⟨rfl, rfl⟩

theorem afterCount_fresh (final : Bool) (before : StageState F) (write : Bool) (s : System F) :
    Fresh (s.afterCount final before write) := by
  refine fresh_of_phase ?_
  unfold System.afterCount
  split <;> simp

theorem latestReply_refines (read : Bool) (final : Bool) (before : StageState F) (write : Bool)
    (h : s.phase = .anchoring final before) (hc : s.runner.stage.sleepCursor = none)
    (hallowed : read = true → allowed s.stream.entries (recordedId s.stream)) :
    Steps allowed s.view (s.latestReply read final before write).view := by
  have hscan : s.view = { s.view with scan := none } := by simp [System.view, h]
  cases read with
  | false =>
    rw [hscan]
    exact afterCount_refines final before write s
  | true =>
    have hstep : Consumer.Step StreamEntry.id entryCounts ⟨0, 0⟩ allowed s.view { s.view with
        memory := { s.view.memory with
          cursor := some (recordedId s.stream)
          anchor := some ⟨recordedId s.stream, s.stream.lastEntryId⟩ } } :=
      .anchor hc (hallowed rfl) (recordedId_le s.stream)
    refine (Relation.ReflTransGen.single hstep).trans ?_
    have hafter : Steps allowed _ _ := afterCount_refines final before write
      { s.setStage { s.runner.stage with sleepCursor := some (recordedId s.stream) } with
        anchor := some ⟨recordedId s.stream, s.stream.lastEntryId⟩ }
    have hview : ({ s.view with
        memory := { s.view.memory with
          cursor := some (recordedId s.stream)
          anchor := some ⟨recordedId s.stream, s.stream.lastEntryId⟩ } } :
        Consumer.State StreamEntry EntryId) = { ({ s.setStage
          { s.runner.stage with sleepCursor := some (recordedId s.stream) } with
            anchor := some ⟨recordedId s.stream, s.stream.lastEntryId⟩ } : System F).view with
        scan := none } := by
      simp [System.view, System.setStage, tally, h]
    rw [hview]
    exact hafter

/-- What one reply of the scan does: fail, read on, or end the scan. -/
theorem batchReply_eq (read : Bool) (final : Bool) (before : StageState F) (cursor : EntryId)
    (total : ℕ) (write : Bool) (s : System F) :
    s.batchReply read final before cursor total write =
      if read then
        match (s.stream.xread cursor 100).getLast? with
        | some last =>
          let total := total + (s.stream.xread cursor 100).countP entryCounts
          { s with phase := .scanning final before last.id total }
        | none => (s.setStage { s.runner.stage with
            sleepCount := total, sleepCursor := some cursor }).afterCount final before write
      else s.afterCount final before write := by
  unfold System.batchReply
  cases read with
  | false => rfl
  | true =>
    simp only [if_true, readEntries_render, lastScanned]
    cases hlast : (s.stream.xread cursor 100).getLast? with
    | some last => simp [countBatch_decoded]
    | none =>
      have hnil : s.stream.xread cursor 100 = [] := List.getLast?_eq_none_iff.mp hlast
      simp [hnil, countBatch_decoded]

theorem batchReply_refines (read : Bool) (final : Bool) (before : StageState F) (cursor : EntryId)
    (total : ℕ) (write : Bool) (h : s.phase = .scanning final before cursor total) :
    Steps allowed s.view (s.batchReply read final before cursor total write).view := by
  have hscan : s.view.scan = some (tally { s.runner.stage with
      sleepCount := total, sleepCursor := some cursor } s.anchor) := by
    simp [System.view, h]
  rw [batchReply_eq]
  split
  · split
    · rename_i last hlast
      exact .single (.read hscan rfl hlast)
    · refine (Relation.ReflTransGen.single (.commit hscan)).trans ?_
      exact afterCount_refines final before write
        (s.setStage { s.runner.stage with sleepCount := total, sleepCursor := some cursor })
  · exact (Relation.ReflTransGen.single .abandon).trans (afterCount_refines final before write s)

variable [Add F] [LT F] [DecidableLT F]

theorem fresh_step (h : Step s a t) (hs : Fresh s) : Fresh t := by
  cases h with
  | append => exact hs
  | beginTick hp =>
    unfold System.beginTick
    split
    · exact hs
    · dsimp only
      split
      · exact hs
      · exact beginCount_fresh _ _ _
  | latestReply hp =>
    unfold System.latestReply
    split <;> exact afterCount_fresh _ _ _ _
  | batchReply hp =>
    rw [batchReply_eq]
    split
    · split
      · intro final before hp'
        simp at hp'
      · exact afterCount_fresh _ _ _ _
    · exact afterCount_fresh _ _ _ _
  | mature hp =>
    refine fresh_of_phase (.inl ?_)
    unfold System.mature
    split <;> rfl
  | endTick => exact fresh_of_phase (.inl rfl)
  | finalLivedTime =>
    refine fresh_of_phase (.inl ?_)
    unfold System.finalLivedTime System.writeStage
    dsimp only
    split
    · rfl
    · split <;> rfl
  | beginFinalCount hp =>
    unfold System.beginFinalCount
    split
    · exact hs
    · exact beginCount_fresh _ _ _
  | restart => exact fresh_of_phase (.inl rfl)

/-- Every step of the runner is a few steps of the consumer. -/
theorem step_refines (h : Step s a t) (hs : Fresh s)
    (hallowed : ∀ final before write, s.phase = .anchoring final before → a = .reply true write →
      allowed s.stream.entries (recordedId s.stream)) : Steps allowed s.view t.view := by
  cases h with
  | append hid => exact .single (.append hid)
  | beginTick hp => exact beginTick_refines _ _ _ hp
  | latestReply hp =>
    refine latestReply_refines _ _ _ _ hp (hs _ _ hp) ?_
    rintro rfl
    exact hallowed _ _ _ hp rfl
  | batchReply hp => exact batchReply_refines _ _ _ _ _ _ hp
  | mature hp => exact mature_refines _ _ hp
  | endTick hp =>
    have hidle : ({ s with phase := .idle } : System F).view = s.view := by simp [System.view, hp]
    rw [hidle]
  | finalLivedTime => exact finalLivedTime_refines _ _ _ _
  | beginFinalCount hp => exact beginFinalCount_refines hp
  | restart => exact restart_refines _ _ _ _ _

/-- The newest entry can be decoded, or no entry of the stream counts. -/
def TailReadable (stream : Stream) : Prop :=
  stream.entries = [] ∨ stream.latest ≠ none ∨ ∀ entry ∈ stream.entries, entryCounts entry = false

/-- An anchoring read finds its tail readable. -/
def AnchorOk (s : System F) (a : Action F) : Prop :=
  ∀ final before write, s.phase = .anchoring final before → a = .reply true write →
    TailReadable s.stream

/-- What anchoring leaves behind counts nothing just where the tail is readable. -/
theorem sleeps_recordedId (stream : Stream) :
    sleeps stream (recordedId stream) stream.lastEntryId = 0 ↔ TailReadable stream := by
  unfold TailReadable recordedId Stream.latest Stream.lastEntryId sleeps
  rcases List.eq_nil_or_concat' stream.entries with hnil | ⟨front, last, hlast⟩
  · simp [hnil, OrderedLog.count]
  · cases hevent : last.event with
    | some event =>
      simp [hlast, hevent, OrderedLog.count_eq_zero_of_le]
    | none =>
      have hbetween : ∀ entry ∈ stream.entries, (⟨0, 0⟩ : EntryId) < entry.id ∧
          entry.id ≤ OrderedLog.tail StreamEntry.id ⟨0, 0⟩ stream.entries :=
        fun entry hentry => ⟨stream.increasing.1 entry hentry, stream.increasing.le_tail hentry⟩
      rw [OrderedLog.count, List.countP_eq_zero]
      simp only [hlast, List.getLast?_append, List.getLast?_singleton, Option.some_or,
        Option.bind_some, hevent, Option.map_none, Option.getD_none, ne_eq, not_true_eq_false,
        false_or, List.append_eq_nil_iff, List.cons_ne_self, and_false] at hbetween ⊢
      constructor
      · intro h entry hentry
        have hnot := h entry hentry
        obtain ⟨hlow, hhigh⟩ := hbetween entry hentry
        rw [OrderedLog.tail_append] at hhigh
        simpa [hlow, hhigh] using hnot
      · intro h entry hentry
        simp [h entry hentry]

theorem exact_step (h : Step s a t) (hs : Fresh s ∧ AllExact s) : Fresh t ∧ AllExact t := by
  have hsteps : Steps (fun _ _ => True) s.view t.view :=
    step_refines h hs.1 (fun _ _ _ _ _ => trivial)
  exact ⟨fresh_step h hs.1, Consumer.steps_invariant Consumer.exact_step hsteps hs.2⟩

theorem reachable_exact (h : Reachable Initial Step s) : Fresh s ∧ AllExact s :=
  h.invariant (P := fun u => Fresh u ∧ AllExact u) exact_init (fun hstep hu => exact_step hstep hu)

theorem skipless_step (h : Guarded AnchorOk Step s a t) (hs : Fresh s ∧ AllSkipless s) :
    Fresh t ∧ AllSkipless t := by
  obtain ⟨hok, hstep⟩ := h
  have hsteps : Steps (fun log r => OrderedLog.count StreamEntry.id entryCounts
      log r (OrderedLog.tail StreamEntry.id ⟨0, 0⟩ log) = 0) s.view t.view :=
        step_refines hstep hs.1 (by
    intro final before write hp ha
    exact (sleeps_recordedId s.stream).mpr (hok final before write hp ha))
  refine ⟨fresh_step hstep hs.1, ?_⟩
  exact Consumer.steps_invariant (fun h => Consumer.skipless_step (fun hr => hr) h) hsteps hs.2

/-- A successful read moves the cursor on, past whatever it finds, or ends the scan at the tail. -/
theorem batchReply_progress {cursor : EntryId} {total : ℕ} (hs : AllExact s)
    (hp : s.phase = .scanning final before cursor total) (h : Step s (.reply true write) t) :
    (cursor < s.stream.lastEntryId ∧
      ∃ last total', t.phase = .scanning final before last total' ∧ cursor < last) ∨
    (cursor = s.stream.lastEntryId ∧ t.runner.stage.sleepCursor = some cursor) := by
  have hle : cursor ≤ s.stream.lastEntryId := by
    have hscan := hs.scan (tally { s.runner.stage with
      sleepCount := total, sleepCursor := some cursor } s.anchor) (by simp [System.view, hp])
    cases ha : s.anchor with
    | none => simp [Consumer.Exact, tally, ha] at hscan
    | some anchor =>
      simp only [Consumer.Exact, tally, ha] at hscan
      exact hscan.2.2.2.1
  cases h with
  | latestReply hp' => simp [hp] at hp'
  | batchReply hp' =>
    rw [hp] at hp'
    cases hp'
    rw [batchReply_eq, if_pos rfl]
    cases hlast : (s.stream.xread cursor 100).getLast? with
    | some last =>
      have hlt := OrderedLog.lt_of_getLast? hlast
      have hmem : last ∈ s.stream.entries := List.mem_of_mem_filter
        (List.mem_of_mem_take (List.mem_of_getLast? hlast))
      exact .inl ⟨hlt.trans_le (s.stream.increasing.le_tail hmem), _, _, rfl, hlt⟩
    | none =>
      have hnil := List.getLast?_eq_none_iff.mp hlast
      have hafter : OrderedLog.after StreamEntry.id s.stream.entries cursor = [] := by
        simpa [Stream.xread] using hnil
      have htail := (s.stream.increasing.after_eq_nil_iff (EntryId.zero_le cursor)).mp hafter
      refine .inr ⟨le_antisymm hle htail, ?_⟩
      simp [System.setStage]

/-- The persisted count is exact from the tail where every anchoring read finds the tail readable.
In every run it is exact from the id that was recorded, so from the tail just where no sleep lies
between; and no entry stalls the cursor. -/
theorem sleeps_counted_once :
    (∀ (s t : System F) (as : List (Action F)), Initial s → Run (Guarded AnchorOk Step) s as t →
      CountedOnce t) ∧
    (∀ (t : System F) (stage : StageState F) (cursor : EntryId), Reachable Initial Step t →
      t.disk = some stage → stage.sleepCursor = some cursor →
      ∃ anchor, t.diskAnchor = some anchor ∧
        stage.sleepCount = sleeps t.stream anchor.recorded cursor ∧
        (anchor.tail ≤ cursor → (stage.sleepCount = sleeps t.stream anchor.tail cursor ↔
          sleeps t.stream anchor.recorded anchor.tail = 0))) ∧
    (∀ (s t : System F) (final write : Bool) (before : StageState F),
      s.phase = .anchoring final before → Step s (.reply true write) t →
      ∃ anchor, t.anchor = some anchor ∧ anchor.tail = s.stream.lastEntryId ∧
        (sleeps t.stream anchor.recorded anchor.tail = 0 ↔ TailReadable s.stream)) ∧
    ∀ (s t : System F) (final write : Bool) (before : StageState F) (cursor : EntryId) (total : ℕ),
      Reachable Initial Step s → s.phase = .scanning final before cursor total →
      Step s (.reply true write) t →
      (cursor < s.stream.lastEntryId ∧
        ∃ last total', t.phase = .scanning final before last total' ∧ cursor < last) ∨
      (cursor = s.stream.lastEntryId ∧ t.runner.stage.sleepCursor = some cursor) := by
  refine ⟨?_, ?_, ?_, ?_⟩
  · intro s t as hi hrun
    have hskip := Run.invariant (P := fun u => Fresh u ∧ AllSkipless u)
      (fun hstep hu => skipless_step hstep hu) hrun (skipless_init hi)
    exact countedOnce_of_skipless hskip.2
  · intro t stage cursor hr hd hc
    have hs := (reachable_exact hr).2
    rcases exact_saved hs hd with ⟨hnone, _⟩ | ⟨cursor', anchor, hc', ha, hexact, hcount⟩
    · simp [hnone] at hc
    · obtain rfl : cursor' = cursor := Option.some.inj (hc'.symm.trans hc)
      exact ⟨anchor, ha, hcount, hexact.count_eq_iff hc ha⟩
  · intro s t final write before hp h
    cases h with
    | batchReply hp' => simp [hp] at hp'
    | latestReply hp' =>
      rw [hp] at hp'
      cases hp'
      have hframe := afterCount_frame final before write
        { s.setStage { s.runner.stage with sleepCursor := some (recordedId s.stream) } with
          anchor := some ⟨recordedId s.stream, s.stream.lastEntryId⟩ }
      refine ⟨⟨recordedId s.stream, s.stream.lastEntryId⟩, hframe.1, rfl, ?_⟩
      rw [← sleeps_recordedId s.stream]
      exact iff_of_eq (congrArg (sleeps · _ _ = 0) hframe.2)
  · intro s t final write before cursor total hr hp h
    exact batchReply_progress (reachable_exact hr).2 hp h

def completedSleep : Event :=
  { source := "sleep", type := "sleep.sleep.completed", salience := 0, timestamp := 0 }

def sleepAt (ms : ℕ) : StreamEntry := ⟨⟨ms, 0⟩, some completedSleep⟩

/-- A fresh runner on a stream of its own. -/
def start (entries : List StreamEntry)
    (h : OrderedLog.Increasing StreamEntry.id ⟨0, 0⟩ entries) : System ℤ where
  stream := ⟨entries, h⟩
  runner :=
    { stage := resolveBootStage none false "2026-01-01T00:00:00+00:00"
      stagingEnabled := true
      stimulusSourceFeedConfigured := true }

/-- A first tick that anchors, a sleep, and a second tick up to its scan. -/
def secondTick (s : System ℤ) (h : s.stream.lastEntryId < (sleepAt 3).id) : System ℤ :=
  let u := (s.beginTick (some 0) 0 none).latestReply true false s.runner.stage true
  { u with phase := .idle, stream := s.stream.append (sleepAt 3) h }.beginTick (some 0) 0 none

/-- A read that finds entries up to the sleep, and one that finds none. -/
def scanned (s : System ℤ) (h : s.stream.lastEntryId < (sleepAt 3).id) : System ℤ :=
  let u := secondTick s h
  let cursor := recordedId s.stream
  (u.batchReply true false u.runner.stage cursor 0 true).batchReply true false u.runner.stage
    (sleepAt 3).id (0 + (u.stream.xread cursor 100).countP entryCounts) true

def twoTicks : List (Action ℤ) :=
  [.beginTick (some 0) 0 none, .reply true true, .endTick, .append (sleepAt 3),
    .beginTick (some 0) 0 none, .reply true true, .reply true true]

theorem twoTicks_run {ok : System ℤ → Action ℤ → Prop} {entries : List StreamEntry}
    {h : OrderedLog.Increasing StreamEntry.id ⟨0, 0⟩ entries}
    {h3 : (start entries h).stream.lastEntryId < (sleepAt 3).id}
    (hread : ((secondTick (start entries h) h3).stream.xread
      (recordedId (start entries h).stream) 100).getLast? = some (sleepAt 3))
    (hanchor : ok ((start entries h).beginTick (some 0) 0 none) (.reply true true))
    (hother : ∀ u a, (∀ final before, u.phase ≠ .anchoring final before) → ok u a) :
    Run (Guarded ok Step) (start entries h) twoTicks (scanned (start entries h) h3) := by
  have hbegin : (secondTick (start entries h) h3).phase = .scanning false
      (secondTick (start entries h) h3).runner.stage (recordedId (start entries h).stream) 0 := rfl
  have hscan : ((secondTick (start entries h) h3).batchReply true false
      (secondTick (start entries h) h3).runner.stage (recordedId (start entries h).stream) 0
        true).phase = .scanning false (secondTick (start entries h) h3).runner.stage (sleepAt 3).id
          (0 + ((secondTick (start entries h) h3).stream.xread
            (recordedId (start entries h).stream) 100).countP entryCounts) := by
    rw [batchReply_eq, if_pos rfl, hread]
  refine .head ⟨hother _ _ nofun, .beginTick rfl⟩ (.head ⟨hanchor, .latestReply rfl⟩ ?_)
  refine .head ⟨hother _ _ nofun, .endTick rfl⟩ (.head ⟨hother _ _ nofun, .append (by exact h3)⟩ ?_)
  refine .head ⟨hother _ _ nofun, .beginTick rfl⟩ (.head ⟨hother _ _ ?_, .batchReply hbegin⟩ ?_)
  · intro final before hp
    cases hbegin.symm.trans hp
  · refine .head ⟨hother _ _ ?_, .batchReply hscan⟩ (.refl _)
    intro final before hp
    cases hscan.symm.trans hp

/-- With a readable tail the persisted count is the one sleep that came after it. -/
theorem sleeps_counted_once_clean :
    CountedOnce (scanned (start [sleepAt 1] (by decide)) (by decide)) := by
  refine sleeps_counted_once.1 _ _ twoTicks ⟨true, true, false, _, rfl⟩
    (twoTicks_run (by decide) ?_ ?_)
  · intro final before write _ _
    exact .inr (.inl nofun)
  · intro u a hne final before write hp _
    exact absurd hp (hne final before)

/-- A sleep that ended before the first tick, behind an entry that cannot be decoded. -/
def poisonedTail : System ℤ := start [sleepAt 1, ⟨⟨2, 0⟩, none⟩] (by decide)

theorem poisonedTail_reachable : Reachable Initial Step (scanned poisonedTail (by decide)) :=
  ⟨poisonedTail, twoTicks, ⟨true, true, false, _, rfl⟩,
    (twoTicks_run (by decide) trivial fun _ _ _ => trivial).mono And.right⟩

/-- The sleep before the first tick is counted, although it lies before the tail. -/
theorem earlier_sleep_counted :
    ¬ ∀ s : System ℤ, Reachable Initial Step s → CountedOnce s := by
  intro h
  have hdisk : (scanned poisonedTail (by decide)).disk = some
      { (poisonedTail.runner.stage) with sleepCount := 2, sleepCursor := some ⟨3, 0⟩ } := by
    decide
  have hanchor : (scanned poisonedTail (by decide)).diskAnchor = some ⟨⟨0, 0⟩, ⟨2, 0⟩⟩ := by
    decide
  have hsleeps : sleeps (scanned poisonedTail (by decide)).stream ⟨2, 0⟩ ⟨3, 0⟩ = 1 := by
    decide
  rcases h _ poisonedTail_reachable _ hdisk with ⟨hnone, _⟩ | ⟨cursor, anchor, hc, ha, hcount⟩
  · simp at hnone
  · obtain rfl : (⟨3, 0⟩ : EntryId) = cursor := Option.some.inj hc
    obtain rfl := Option.some.inj (hanchor.symm.trans ha)
    exact absurd (hcount.trans hsleeps) (by simp)

end Kaine.SleepCount
