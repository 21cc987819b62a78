import Kaine.Cycle.WelfareLatchSafety
import Mathlib.Data.List.TakeWhile

/-! Which crossings of distress are answered in the poll that finds them. A poll that raises between
a crossing and its response has read past both, and the crossing is gone. -/
namespace Kaine.Welfare
open Py Control WelfareIndicators Routine Relation Transition

variable {cfg : Config} {inputs : ℕ → ResponseInput} {ofText : String → Option PyFloat}
  {s t u w : World}

/-- The crossings that the distress detectors reported, newest first. -/
def reported (log : List Effect) : List CrossingReason :=
  log.filterMap fun
    | .crossing reason => some reason
    | _ => none

/-- The crossings of distress that were handed to the response, newest first. -/
def handed (log : List Effect) : List CrossingReason :=
  log.filterMap fun
    | .response reason => if reason.ofDistress then some reason else none
    | _ => none

/-- Every crossing reported since is handed to the response in the same order, up to one whose
response is enacted. -/
def Answered (w t : World) : Prop :=
  ∃ es, t.log = es ++ w.log ∧ handed es <:+ reported es ∧
    (handed es = reported es ∨ t.latch.acted = true)

/-- Nothing is reported and no crossing of distress is answered. -/
def Quiet (w t : World) : Prop := ∃ es, t.log = es ++ w.log ∧ reported es = [] ∧ handed es = []

theorem reported_append (es fs : List Effect) : reported (es ++ fs) = reported es ++ reported fs :=
  List.filterMap_append

theorem handed_append (es fs : List Effect) : handed (es ++ fs) = handed es ++ handed fs :=
  List.filterMap_append

theorem Quiet.of_log (h : t.log = w.log) : Quiet w t := ⟨[], h, rfl, rfl⟩

theorem Quiet.trans (h : Quiet w t) (h' : Quiet t u) : Quiet w u := by
  obtain ⟨es, hlog, hr, hh⟩ := h
  obtain ⟨fs, hlog', hr', hh'⟩ := h'
  refine ⟨fs ++ es, by rw [hlog', hlog, List.append_assoc], ?_, ?_⟩
  · rw [reported_append, hr, hr']; rfl
  · rw [handed_append, hh, hh']; rfl

theorem Quiet.answered (h : Quiet w t) : Answered w t := by
  obtain ⟨es, hlog, hr, hh⟩ := h
  exact ⟨es, hlog, by rw [hr, hh], .inl (by rw [hr, hh])⟩

/-- Whether a report can be heard, or brings no sample. -/
def converts (ofText : String → Option PyFloat) (d : Delivery) : Bool :=
  match predictionError ofText d.event with
  | some (.error _) => false
  | _ => true

def DistressArm.hear (ofText : String → Option PyFloat) (a : DistressArm) (d : Delivery) :
    Option CrossingReason × DistressArm :=
  match predictionError ofText d.event with
  | some (.ok magnitude) => a.observe d magnitude
  | _ => (none, a)

/-- Whether the onset of a gray-zone event fits a float. -/
def onsetConverts (d : Delivery) : Bool :=
  d.event.type ≠ "welfare.gray_zone" ∨ (grayZoneOnset d.event.payload).isOk

def DistressArm.hearGray (a : DistressArm) (d : Delivery) : Option CrossingReason × DistressArm :=
  match grayZoneOnset d.event.payload with
  | .ok (onset, ofEpisode) =>
    if d.event.type = "welfare.gray_zone" then a.grayZone onset ofEpisode d.clocks.wall
    else (none, a)
  | .error _ => (none, a)

def BusRead.entries : BusRead Batch → List Delivery
  | .read batch => batch.entries
  | _ => []

/-- The crossings that the reports of a poll bring, up to the first that does not convert. -/
def reportCrossings (ofText : String → Option PyFloat) (input : PollInput) (w : World) :
    List CrossingReason × DistressArm :=
  outputs (DistressArm.hear ofText) w.distress
    (input.interoception.entries.takeWhile (converts ofText))

/-- The same with the crossing that time alone brings. -/
def timedCrossings (ofText : String → Option PyFloat) (input : PollInput) (w : World) :
    List CrossingReason × DistressArm :=
  let (found, a) := reportCrossings ofText input w
  if found = [] then
    let (timed, a) := a.timeout input.timer
    (timed.toList, a)
  else (found, a)

/-- All crossings of a poll, up to the first gray-zone event whose onset does not convert. -/
def crossings (ofText : String → Option PyFloat) (input : PollInput) (w : World) :
    List CrossingReason :=
  let (found, a) := timedCrossings ofText input w
  found ++ (outputs DistressArm.hearGray a (input.welfare.entries.takeWhile onsetConverts)).1

/-- A poll that feeds its detectors: the latch is free, and no warm-up holds. -/
def Listens (cfg : Config) (input : PollInput) (w : World) : Prop :=
  (w.check input).latch.acted = false ∧
    inWarmup cfg (w.startedAt.getD input.clocks) input.clocks
      w.distress.interoceptionWarmupActive = false

/-- The ways of a poll to lose a crossing: an entry that does not convert after it, or a first
response that raises before the others. -/
inductive Loses (ofText : String → Option PyFloat) (cfg : Config) (input : PollInput) (w : World) :
    Prop where
  | report (hbad : input.interoception.entries.all (converts ofText) = false)
      (hfound : (reportCrossings ofText input w).1 ≠ [])
  | onset (hgood : input.interoception.entries.all (converts ofText) = true)
      (hbad : input.welfare.entries.all onsetConverts = false)
      (hfound : crossings ofText input w ≠ [])
  | readBack (hgood : input.interoception.entries.all (converts ofText) = true)
      (honsets : input.welfare.entries.all onsetConverts = true)
      (hfound : 2 ≤ (crossings ofText input w).length)
      (hbreaks : Breaks cfg (input.responses w.responses))

/-- Two arms whose detectors stand alike, however far their streams are read. -/
structure DistressArm.Alike (a b : DistressArm) : Prop where
  tracker : b.tracker = a.tracker
  repeats : b.repeats = a.repeats
  onset : b.distressOnsetTs = a.distressOnsetTs
  counted : b.countedEpisodes = a.countedEpisodes

section
variable {a b : DistressArm}

theorem DistressArm.Alike.refl (a : DistressArm) : a.Alike a := ⟨rfl, rfl, rfl, rfl⟩

theorem countEpisode_alike (h : a.Alike b) (onset : Option PyFloat) (now : ℚ) :
    (b.countEpisode onset now).1 = (a.countEpisode onset now).1 ∧
      (a.countEpisode onset now).2.Alike (b.countEpisode onset now).2 := by
  unfold DistressArm.countEpisode
  cases onset with
  | none =>
    dsimp only
    rw [h.repeats]
    exact ⟨rfl, h.tracker, rfl, h.onset, h.counted⟩
  | some ts =>
    dsimp only
    rw [h.repeats, h.counted]
    split
    · exact ⟨rfl, h⟩
    · exact ⟨rfl, h.tracker, rfl, h.onset, rfl⟩

theorem sustained_alike (h : a.Alike b) (now : ℚ) :
    (b.sustained now).1 = (a.sustained now).1 ∧ (a.sustained now).2.Alike (b.sustained now).2 := by
  unfold DistressArm.sustained
  dsimp only
  rw [h.onset]
  obtain ⟨hcrossed, harm⟩ := countEpisode_alike h a.distressOnsetTs now
  rw [hcrossed]
  exact ⟨rfl, harm⟩

theorem observe_alike (h : a.Alike b) (d : Delivery) (magnitude : PyFloat) :
    (b.observe d magnitude).1 = (a.observe d magnitude).1 ∧
      (a.observe d magnitude).2.Alike (b.observe d magnitude).2 := by
  unfold DistressArm.observe
  dsimp only
  rw [h.tracker, h.onset]
  have hnext : ∀ onset tracker, DistressArm.Alike { a with distressOnsetTs := onset, tracker }
      { b with distressOnsetTs := onset, tracker } :=
    fun _ _ => ⟨rfl, h.repeats, rfl, h.counted⟩
  split
  · obtain ⟨hreason, harm⟩ := sustained_alike (hnext _ _) d.clocks.wall
    exact ⟨congrArg some hreason, harm⟩
  · exact ⟨rfl, hnext _ _⟩

theorem timeout_alike (h : a.Alike b) (clocks : Clocks) :
    (b.timeout clocks).1 = (a.timeout clocks).1 ∧
      (a.timeout clocks).2.Alike (b.timeout clocks).2 := by
  unfold DistressArm.timeout
  dsimp only
  rw [h.tracker]
  have hnext : ∀ tracker, DistressArm.Alike { a with tracker } { b with tracker } :=
    fun _ => ⟨rfl, h.repeats, h.onset, h.counted⟩
  split
  · obtain ⟨hreason, harm⟩ := sustained_alike (hnext _) clocks.wall
    exact ⟨congrArg some hreason, harm⟩
  · exact ⟨rfl, hnext _⟩

theorem grayZone_alike (h : a.Alike b) (onset : Option PyFloat) (ofEpisode : Bool) (now : ℚ) :
    (b.grayZone onset ofEpisode now).1 = (a.grayZone onset ofEpisode now).1 ∧
      (a.grayZone onset ofEpisode now).2.Alike (b.grayZone onset ofEpisode now).2 := by
  unfold DistressArm.grayZone
  cases ofEpisode with
  | false =>
    dsimp only
    rw [h.repeats]
    exact ⟨rfl, h.tracker, rfl, h.onset, h.counted⟩
  | true =>
    obtain ⟨hcrossed, harm⟩ := countEpisode_alike h onset now
    simp only [if_true, hcrossed, true_and]
    exact harm

end

/-- From one world to another, the detectors report these crossings, stand as an arm does, and
nothing is answered. -/
structure Heard (found : List CrossingReason) (a : DistressArm) (w t : World) : Prop where
  log : t.log = (found.map Effect.crossing).reverse ++ w.log
  latch : t.latch = w.latch
  responses : t.responses = w.responses
  arm : a.Alike t.distress

theorem Heard.refl (w : World) : Heard [] w.distress w w := ⟨rfl, rfl, rfl, .refl _⟩

theorem Heard.trans {found later : List CrossingReason} {a b : DistressArm}
    (h : Heard found a w t) (h' : Heard later b t u) : Heard (found ++ later) b w u := by
  refine ⟨?_, h'.latch.trans h.latch, h'.responses.trans h.responses, h'.arm⟩
  rw [h'.log, h.log, List.map_append, List.reverse_append, List.append_assoc]

/-- A change of what no detector looks at. -/
theorem Heard.tend {found : List CrossingReason} {a b : DistressArm} (h : Heard found a w t)
    (hb : t.distress.Alike b) : Heard found a w { t with distress := b } := by
  refine ⟨h.log, h.latch, h.responses, ?_, ?_, ?_, ?_⟩
  · exact hb.tracker.trans h.arm.tracker
  · exact hb.repeats.trans h.arm.repeats
  · exact hb.onset.trans h.arm.onset
  · exact hb.counted.trans h.arm.counted

section
variable {found : List CrossingReason} {a : DistressArm}

theorem heard_modifyDistress {f : DistressArm → DistressArm} (hf : ∀ b : DistressArm, b.Alike (f b))
    (h : Heard found a w s) :
    wp (modifyDistress f) (fun _ => Heard found a w) (fun _ _ => False) s :=
  h.tend (hf s.distress)

theorem heard_detect {f : DistressArm → Option CrossingReason × DistressArm}
    (hf : ∀ {a b}, a.Alike b → (f b).1 = (f a).1 ∧ (f a).2.Alike (f b).2)
    (h : Heard found a w s) :
    wp (detect f) (fun here t => here = (f a).1.toList ∧ Heard (found ++ here) (f a).2 w t)
      (fun _ _ => False) s := by
  obtain ⟨hreason, harm⟩ := hf h.arm
  simp only [detect, modifyDistress, emit, wp_bind, wp_get, wp_modify, hreason]
  cases (f a).1 with
  | none =>
    refine ⟨rfl, h.trans ⟨rfl, rfl, rfl, harm⟩⟩
  | some reason =>
    refine ⟨rfl, h.trans ⟨rfl, rfl, rfl, harm⟩⟩

/-- The reports are heard up to the first that does not convert, which raises. -/
theorem heard_takeInteroception (ds : List Delivery) (h : Heard found a w s) :
    wp (takeInteroception ofText ds)
      (fun here t => ds.all (converts ofText) = true ∧
        here = (outputs (DistressArm.hear ofText) a ds).1 ∧
        Heard (found ++ here) (outputs (DistressArm.hear ofText) a ds).2 w t)
      (fun fault t => ds.all (converts ofText) = false ∧ (∃ e, fault = .raised e) ∧
        ∃ b, Heard (found ++ (outputs (DistressArm.hear ofText) a
          (ds.takeWhile (converts ofText))).1) b w t) s := by
  induction ds generalizing found a s with
  | nil => exact ⟨rfl, rfl, by simpa [outputs] using h⟩
  | cons d rest ih =>
    have hnote : ∀ b : DistressArm, b.Alike (b.noteReport d) := by
      intro b
      unfold DistressArm.noteReport
      dsimp only
      split <;> exact ⟨rfl, rfl, rfl, rfl⟩
    rw [takeInteroception, wp_bind]
    refine wp_mono (heard_modifyDistress hnote h) ?_ fun _ _ hf => hf.elim
    intro _ t ht
    cases hp : predictionError ofText d.event with
    | none =>
      have hc : converts ofText d = true := by rw [converts, hp]
      have hd : a.hear ofText d = (none, a) := by rw [DistressArm.hear, hp]
      simpa [outputs, hc, hd] using ih ht
    | some magnitude =>
      cases magnitude with
      | error e =>
        have hc : converts ofText d = false := by rw [converts, hp]
        simpa [hc, outputs] using ⟨a, ht⟩
      | ok magnitude =>
        have hc : converts ofText d = true := by rw [converts, hp]
        have hd : a.hear ofText d = a.observe d magnitude := by rw [DistressArm.hear, hp]
        dsimp only
        rw [wp_bind]
        refine wp_mono (heard_detect (fun h => observe_alike h d magnitude) ht) ?_
          fun _ _ hf => hf.elim
        rintro here u ⟨rfl, hu⟩
        rw [wp_bind]
        refine wp_mono (ih hu) ?_ ?_
        · rintro later v ⟨hall, rfl, hv⟩
          simpa [outputs, hc, hd, hall] using hv
        · rintro fault v ⟨hall, hraised, b, hv⟩
          refine ⟨by simp [hc, hall], hraised, b, ?_⟩
          simpa [outputs, hc, hd] using hv

/-- The gray-zone events are heard up to the first whose onset does not convert. -/
theorem heard_takeGrayZone (ds : List Delivery) (h : Heard found a w s) :
    wp (takeGrayZone ds)
      (fun here t => ds.all onsetConverts = true ∧
        here = (outputs DistressArm.hearGray a ds).1 ∧
        Heard (found ++ here) (outputs DistressArm.hearGray a ds).2 w t)
      (fun fault t => ds.all onsetConverts = false ∧ (∃ e, fault = .raised e) ∧
        ∃ b, Heard (found ++ (outputs DistressArm.hearGray a
          (ds.takeWhile onsetConverts)).1) b w t) s := by
  induction ds generalizing found a s with
  | nil => exact ⟨rfl, rfl, by simpa [outputs] using h⟩
  | cons d rest ih =>
    rw [takeGrayZone, wp_bind]
    refine wp_mono (heard_modifyDistress (fun _ => ⟨rfl, rfl, rfl, rfl⟩) h) ?_ fun _ _ hf => hf.elim
    intro _ t ht
    rw [wp_ite]
    refine ⟨fun hg => ?_, fun hg => ?_⟩
    · cases hp : grayZoneOnset d.event.payload with
      | error e =>
        have hc : onsetConverts d = false := by
          simp [onsetConverts, hg, hp, Except.isOk, Except.toBool]
        simpa [hc, outputs] using ⟨a, ht⟩
      | ok onset =>
        have hc : onsetConverts d = true := by simp [onsetConverts, hp, Except.isOk, Except.toBool]
        have hd : a.hearGray d = a.grayZone onset.1 onset.2 d.clocks.wall := by
          simp [DistressArm.hearGray, hp, hg]
        dsimp only
        rw [wp_bind]
        refine wp_mono (heard_detect (fun h => grayZone_alike h _ _ _) ht) ?_ fun _ _ hf => hf.elim
        rintro here u ⟨rfl, hu⟩
        rw [wp_bind]
        refine wp_mono (ih hu) ?_ ?_
        · rintro later v ⟨hall, rfl, hv⟩
          simpa [outputs, hc, hd, hall] using hv
        · rintro fault v ⟨hall, hraised, b, hv⟩
          refine ⟨by simp [hc, hall], hraised, b, ?_⟩
          simpa [outputs, hc, hd] using hv
    · have hc : onsetConverts d = true := by simp [onsetConverts, hg]
      have hd : a.hearGray d = (none, a) := by
        unfold DistressArm.hearGray
        split <;> simp [hg]
      simpa [outputs, hc, hd] using ih ht

theorem heard_noteRead (stream : String) (count : ℕ) (b : DistressArm) :
    b.Alike (b.noteRead stream count) := ⟨rfl, rfl, rfl, rfl⟩

theorem heard_distressReadOk (stream : String) (h : Heard found a w s) :
    wp (distressReadOk stream) (fun _ => Heard found a w) (fun _ _ => False) s := by
  simp only [distressReadOk, wp_bind, wp_get, wp_ite]
  exact ⟨fun _ => heard_modifyDistress (heard_noteRead stream 0) h, fun _ => h⟩

theorem heard_distressReadFailed (stream : String) (h : Heard found a w s) :
    wp (distressReadFailed stream) (fun _ => Heard found a w)
      (fun fault t => fault = .busReadFailing ∧ Heard found a w t) s := by
  simp only [distressReadFailed, wp_bind, wp_get]
  refine wp_mono (heard_modifyDistress (heard_noteRead stream _) h) ?_ fun _ _ hf => hf.elim
  intro _ t ht
  simp [ht]

theorem heard_readInteroception (read : BusRead Batch) (h : Heard found a w s) :
    wp (readInteroception read)
      (fun got t => got.1.entries = read.entries ∧ Heard found a w t) (fun _ _ => False) s := by
  cases read with
  | timeout => exact ⟨rfl, h⟩
  | failed =>
    simp only [readInteroception, wp_tryCatch, wp_bind, wp_pure]
    exact wp_mono (heard_distressReadFailed _ h) (fun _ _ ht => ⟨rfl, ht⟩)
      fun _ _ ht => ⟨rfl, ht.2⟩
  | read batch =>
    simp only [readInteroception, wp_bind, wp_pure]
    exact wp_mono (heard_distressReadOk _ h) (fun _ _ ht => ⟨rfl, ht⟩) fun _ _ hf => hf

theorem heard_skipTo {last : Option Bus.EntryId} {f : Bus.EntryId → DistressArm → DistressArm}
    (hf : ∀ c (b : DistressArm), b.Alike (f c b)) (h : Heard found a w s) :
    wp (skipTo last f) (fun _ => Heard found a w) (fun _ _ => False) s := by
  cases last with
  | none => exact h
  | some c => exact heard_modifyDistress (hf c) h

/-- A failing read of the gray zone is no loss; an onset that does not convert is. -/
theorem heard_drainGrayZone (read : BusRead Batch) (h : Heard found a w s) :
    wp (drainGrayZone read)
      (fun here t => read.entries.all onsetConverts = true ∧
        here = (outputs DistressArm.hearGray a read.entries).1 ∧ ∃ b, Heard (found ++ here) b w t)
      (fun fault t =>
        ((∃ e, fault = .raised e) ∧ read.entries.all onsetConverts = false ∧
          ∃ b, Heard (found ++ (outputs DistressArm.hearGray a
            (read.entries.takeWhile onsetConverts)).1) b w t) ∨
        ((∀ e, fault ≠ .raised e) ∧ read.entries = [] ∧ Heard found a w t)) s := by
  cases read with
  | timeout => exact .inr ⟨by simp, rfl, h⟩
  | failed =>
    simp only [drainGrayZone, wp_bind, wp_pure]
    refine wp_mono (heard_distressReadFailed _ h) ?_ ?_
    · intro _ t ht
      exact ⟨rfl, rfl, a, by simpa [outputs] using ht⟩
    · rintro fault t ⟨rfl, ht⟩
      exact .inr ⟨by simp, rfl, ht⟩
  | read batch =>
    simp only [drainGrayZone, wp_bind, wp_pure]
    refine wp_mono (heard_distressReadOk _ h) ?_ fun _ _ hf => hf.elim
    intro _ t ht
    refine wp_mono (heard_takeGrayZone batch.entries ht) ?_ ?_
    · rintro here u ⟨hall, rfl, hu⟩
      refine wp_mono (heard_skipTo (fun _ _ => ⟨rfl, rfl, rfl, rfl⟩) hu) ?_ fun _ _ hf => hf.elim
      exact fun _ v hv => ⟨hall, rfl, _, hv⟩
    · rintro fault u ⟨hall, hraised, hu⟩
      exact .inl ⟨hraised, hall, hu⟩

end

theorem heard_hear (input : PollInput) (h : Heard [] w.distress w s) :
    wp (hear ofText input)
      (fun got t => input.interoception.entries.all (converts ofText) = true ∧
        got.1 = (reportCrossings ofText input w).1 ∧
        Heard got.1 (reportCrossings ofText input w).2 w t)
      (fun _ t => input.interoception.entries.all (converts ofText) = false ∧
        ∃ b, Heard (reportCrossings ofText input w).1 b w t) s := by
  simp only [hear, wp_bind, wp_pure]
  refine wp_mono (heard_readInteroception input.interoception h) ?_ fun _ _ hf => hf.elim
  rintro ⟨batch, deferred⟩ t ⟨hbatch, ht⟩
  dsimp only at hbatch ⊢
  rw [hbatch]
  refine wp_mono (heard_takeInteroception _ ht) ?_ ?_
  · rintro here u ⟨hall, rfl, hu⟩
    have hread : input.interoception.entries.takeWhile (converts ofText) =
        input.interoception.entries := by
      rw [List.takeWhile_eq_self_iff]
      simpa using hall
    refine wp_mono (heard_skipTo (fun _ _ => ⟨rfl, rfl, rfl, rfl⟩) hu) ?_ fun _ _ hf => hf.elim
    intro _ v hv
    rw [reportCrossings, hread]
    exact ⟨hall, rfl, hv⟩
  · rintro fault u ⟨hall, -, hu⟩
    exact ⟨hall, hu⟩

theorem heard_checkTimer (input : PollInput)
    (h : Heard (reportCrossings ofText input w).1 (reportCrossings ofText input w).2 w s) :
    wp (checkTimer input.timer (reportCrossings ofText input w).1)
      (fun reasons t => reasons = (timedCrossings ofText input w).1 ∧
        Heard reasons (timedCrossings ofText input w).2 w t)
      (fun _ _ => False) s := by
  rw [checkTimer, wp_ite, timedCrossings]
  refine ⟨fun hnone => ?_, fun hsome => ?_⟩
  · have hdetect := heard_detect (fun h => timeout_alike h input.timer) h
    simpa [hnone] using hdetect
  · simpa [hsome] using h

/-- What a poll collects, and where it raises instead. -/
theorem heard_collect (input : PollInput) (h : Heard [] w.distress w s) :
    wp (collect ofText input)
      (fun got t => input.interoception.entries.all (converts ofText) = true ∧
        input.welfare.entries.all onsetConverts = true ∧ got.1 = crossings ofText input w ∧
        ∃ b, Heard got.1 b w t)
      (fun _ t =>
        (input.interoception.entries.all (converts ofText) = false ∧
          ∃ b, Heard (reportCrossings ofText input w).1 b w t) ∨
        (input.interoception.entries.all (converts ofText) = true ∧
          input.welfare.entries.all onsetConverts = false ∧
          ∃ b, Heard (crossings ofText input w) b w t)) s := by
  rw [collect, wp_bind]
  refine wp_mono (heard_hear input h) ?_ fun _ _ ht => .inl ht
  rintro ⟨heard, deferred⟩ t ⟨hall, hheard, ht⟩
  dsimp only at hheard ht ⊢
  subst hheard
  rw [wp_bind]
  refine wp_mono (heard_checkTimer input ht) ?_ fun _ _ hf => hf.elim
  rintro reasons u ⟨rfl, hu⟩
  rw [wp_tryCatch, wp_bind]
  refine wp_mono (heard_drainGrayZone input.welfare hu) ?_ ?_
  · rintro gray v ⟨honsets, rfl, hv⟩
    have hread : input.welfare.entries.takeWhile onsetConverts = input.welfare.entries := by
      rw [List.takeWhile_eq_self_iff]
      simpa using honsets
    refine ⟨hall, honsets, ?_, hv⟩
    rw [crossings, hread]
  · rintro fault v (⟨⟨e, rfl⟩, honsets, hv⟩ | ⟨hkept, hempty, hv⟩)
    · exact .inr ⟨hall, honsets, hv⟩
    · have hfound : crossings ofText input w = (timedCrossings ofText input w).1 := by
        simp [crossings, hempty, outputs]
      cases fault with
      | raised e => exact absurd rfl (hkept e)
      | busTimeout | busReadFailing => exact ⟨hall, by rw [hempty]; rfl, hfound.symm, _, hv⟩

theorem handed_response (reason : CrossingReason) (log : List Effect) :
    handed (.response reason :: log) =
      (if reason.ofDistress then [reason] else []) ++ handed log := by
  cases h : reason.ofDistress <;> simp [handed, h]

theorem Responded.handed {r : ResponseInput} {reason : CrossingReason}
    (h : Responded cfg r reason w t) : ∃ es, t.log = es ++ w.log ∧ reported es = [] ∧
      handed es = if reason.ofDistress then [reason] else [] := by
  have hlast : Welfare.handed [.response reason] = if reason.ofDistress then [reason] else [] := by
    rw [handed_response]
    exact List.append_nil _
  cases h with
  | suppressed => exact ⟨[_], rfl, rfl, hlast⟩
  | noticed => exact ⟨[_, _, _, _], rfl, rfl, hlast⟩
  | ended => exact ⟨[_, _, _, _, _], rfl, rfl, hlast⟩
  | raised _ _ _ fallback hook hh =>
    refine ⟨.freeze ⟨reason, fallback⟩ :: (hook ++ [.preserveLive r.saved, .response reason]),
      by simp, ?_, ?_⟩
    · rcases hh with rfl | rfl <;> rfl
    · rcases hh with rfl | rfl <;> exact hlast
  | paused _ _ fallback hook hh placed taken endFailed unreadable kind =>
    refine ⟨.notice kind ::
      .record (.protectiveAction reason taken r.saved endFailed (!placed) unreadable) ::
      .freeze ⟨reason, fallback⟩ :: (hook ++ [.preserveLive r.saved, .response reason]),
      by simp, ?_, ?_⟩
    · rcases hh with rfl | rfl <;> rfl
    · rcases hh with rfl | rfl <;> exact hlast

section
variable {r : ResponseInput} {reason : CrossingReason} {detail : Option IndicatorDetail}
  {taken : ActionTaken} {freezeReason : Option FreezeReason}

theorem carryOut_raises {freezeReason : FreezeReason} (h : ∃ ok, r.freeze = .returns ok .raises) :
    wp (carryOut cfg r reason detail taken (some freezeReason)) (fun _ _ => False)
      (fun _ t => t.latch = s.latch) s := by
  obtain ⟨ok, hcall⟩ := h
  cases ok <;> simp [carryOut, placeWelfareFreeze, emit, World.freezeFile, hcall]

theorem respond_raises (h : Breaks cfg (inputs s.responses)) :
    wp (respond cfg inputs reason detail) (fun _ _ => False) (fun _ t => t.latch = s.latch) s := by
  obtain ⟨hne, hend, hraises⟩ := h
  have hfreezes : ∃ freezeReason,
      (enact cfg (inputs s.responses).onEndRaises reason).2 = some freezeReason := by
    cases hact : cfg.action with
    | notify => exact absurd hact hne
    | pause => simp [enact, hact]
    | endRun =>
      cases hon : cfg.hasOnEnd with
      | false => simp [enact, hact, hon]
      | true => simp [enact, hact, hon, hend hact hon]
  obtain ⟨freezeReason, hfreezes⟩ := hfreezes
  have htake : ∀ t, t.latch = s.latch →
      wp (takeAction cfg (inputs s.responses) reason detail) (fun _ _ => False)
        (fun _ t => t.latch = s.latch) t := by
    intro t ht
    simp only [takeAction, emit, wp_bind, wp_ite, wp_modify, hfreezes]
    refine ⟨fun _ => ?_, fun _ => ?_⟩ <;>
      exact wp_mono (carryOut_raises hraises) (fun _ _ hf => hf) fun _ _ hu => hu.trans ht
  simp only [respond, preserveFirst, emit, hne, wp_bind, wp_get, wp_modify, wp_ite, wp_pure,
    false_and, if_false]
  exact ⟨fun _ => htake _ rfl, fun hfalse => (hfalse trivial).elim⟩

end

/-- What answering a list of crossings leaves: each is handed to the response in turn, up to one
whose response is enacted. -/
def HandedOn (reasons : List CrossingReason) (s t : World) : Prop :=
  ∃ es, t.log = es ++ s.log ∧ reported es = [] ∧ handed es <:+ reasons.reverse ∧
    (handed es = reasons.reverse ∨ t.latch.acted = true)

theorem respondAll_hands {reasons : List CrossingReason} (hd : Distressed reasons)
    (h : s.latch.acted = true ∨ ¬ Breaks cfg (inputs s.responses)) :
    wp (respondAll cfg inputs reasons) (fun _ => HandedOn reasons s) (fun _ _ => False) s := by
  induction reasons generalizing s with
  | nil => exact ⟨[], rfl, rfl, by simp [handed], .inl rfl⟩
  | cons reason rest ih =>
    simp only [respondAll, wp_bind, wp_get, wp_ite, wp_pure]
    refine ⟨fun ha => ⟨[], rfl, rfl, by simp [handed], .inr ha⟩, fun ha => ?_⟩
    have hreason : reason.ofDistress = true := hd reason (by simp)
    have hreturns := @respond_returns cfg inputs s reason none (h.resolve_left ha)
    refine wp_mono (wp_and (respond_does cfg inputs reason none s) hreturns) ?_ fun _ _ hf => hf.2
    rintro _ t ⟨⟨hdoes, hacted⟩, -⟩
    obtain ⟨es, hlog, hr, hh⟩ := hdoes.handed
    rw [if_pos hreason] at hh
    have hnext : t.latch.acted = true ∨ ¬ Breaks cfg (inputs t.responses) := by
      by_cases hn : cfg.action = .notify
      · exact .inr fun hbreaks => hbreaks.1 hn
      · exact .inl (hacted hn)
    refine wp_mono (ih (fun r hr => hd r (by simp [hr])) hnext) ?_ fun _ _ hf => hf
    rintro _ u ⟨fs, hlog', hr', hsuffix, hall⟩
    refine ⟨fs ++ es, by rw [hlog', hlog, List.append_assoc], ?_, ?_, ?_⟩
    · rw [reported_append, hr, hr']; rfl
    · obtain ⟨front, hfront⟩ := hsuffix
      exact ⟨front, by rw [handed_append, hh, List.reverse_cons, ← List.append_assoc, hfront]⟩
    · rcases hall with hall | hu
      · exact .inl (by rw [handed_append, hh, hall, List.reverse_cons])
      · exact .inr hu

/-- The first response raises: the crossings after it are dropped, and the latch is free. -/
theorem respondAll_drops {reason : CrossingReason} {rest : List CrossingReason}
    (hd : reason.ofDistress = true) (ha : s.latch.acted = false)
    (h : Breaks cfg (inputs s.responses)) :
    wp (respondAll cfg inputs (reason :: rest)) (fun _ _ => False)
      (fun _ t => t.latch = s.latch ∧
        ∃ es, t.log = es ++ s.log ∧ reported es = [] ∧ handed es = [reason]) s := by
  simp only [respondAll, wp_bind, wp_get, wp_ite, wp_pure]
  refine ⟨fun hacted => absurd hacted (by simp [ha]), fun _ => ?_⟩
  refine wp_mono (wp_and (respond_does cfg inputs reason none s) (respond_raises h)) ?_ ?_
  · exact fun _ _ hf => hf.2.elim
  · rintro fault t ⟨hdoes, hlatch⟩
    obtain ⟨es, hlog, hr, hh⟩ := hdoes.handed
    exact ⟨hlatch, es, hlog, hr, by rw [hh, if_pos hd]⟩

theorem quiet_responded {r : ResponseInput} {reason : CrossingReason}
    (h : Responded cfg r reason w t) (hd : reason.ofDistress = false) : Quiet w t := by
  obtain ⟨es, hlog, hr, hh⟩ := h.handed
  exact ⟨es, hlog, hr, by rw [hh, hd]; rfl⟩

theorem quiet_cons {e : Effect} (hr : reported [e] = []) (hh : handed [e] = [])
    (hlog : t.log = e :: w.log) : Quiet w t := ⟨[e], hlog, hr, hh⟩

theorem quiet_escalated {r : ResponseInput} {reason : CrossingReason}
    (h : Escalated cfg r reason w t) (hd : reason.ofDistress = false) : Quiet w t := by
  cases h with
  | held h | raised h => exact quiet_responded h hd
  | reset h => exact (quiet_responded h hd).trans (quiet_cons rfl rfl rfl)

/-- The indicator arm reports no crossing of distress and answers none. -/
theorem ArmDoes.quiet_distress (h : ArmDoes cfg inputs w t) : Quiet w t := by
  cases h with
  | tend => exact .of_log rfl
  | remark e he =>
    cases e with
    | notice | record => exact quiet_cons rfl rfl rfl
    | _ => cases he
  | crossed | request | begin | quiet => exact quiet_cons rfl rfl rfl
  | complete => exact ⟨[_, _], rfl, rfl, rfl⟩
  | unavailable _ h | freshCrossing _ _ _ _ _ _ _ h => exact quiet_escalated h rfl
  | restFailed _ failure indicators _ h =>
    have hrecord : Quiet w
        { w with log := .record (.restFailed failure indicators) :: w.log } :=
      quiet_cons rfl rfl rfl
    exact hrecord.trans (quiet_escalated h rfl)

theorem ArmPath.quiet_distress (h : ArmPath cfg inputs w t) : Quiet w t := by
  induction h with
  | refl => exact .of_log rfl
  | tail _ hstep ih => exact ih.trans hstep.quiet_distress

theorem quiet_pollArm (input : PollInput) (deferred : Option Fault) (w : World) :
    wp (pollArm cfg input deferred)
      (fun _ t => Quiet w t ∧ (w.latch.acted = true → t.latch.acted = true))
      (fun _ t => Quiet w t ∧ (w.latch.acted = true → t.latch.acted = true)) w := by
  simp only [pollArm, wp_bind, wp_get, wp_ite, wp_pure, wp_tryCatch]
  refine ⟨?_, fun _ => ⟨.of_log rfl, id⟩⟩
  rintro ⟨_, ha⟩
  have hfree : ∀ {t : World}, w.latch.acted = true → t.latch.acted = true := by
    intro t hacted
    rw [ha] at hacted
    cases hacted
  refine wp_mono (reaches_indicatorPoll .refl ha) (fun _ t ht => ⟨ht.quiet_distress, hfree⟩) ?_
  intro fault t ht
  simp [ht.quiet_distress, ha]

section
variable {w₀ : World}

theorem keeps_quiet_modifyDistress (f : DistressArm → DistressArm) :
    Keeps (Quiet w₀) (modifyDistress f) := Keeps.modify fun _ h => h.trans (.of_log rfl)

theorem keeps_quiet_drainStream (stream : String) (read : BusRead Batch)
    (note : Delivery → DistressArm → DistressArm)
    (skip : Bus.EntryId → DistressArm → DistressArm) :
    Keeps (Quiet w₀) (drainStream stream read note skip) := by
  cases read with
  | timeout => exact .throw _
  | failed =>
    have hread : Keeps (Quiet w₀) (distressReadFailed stream) :=
      Keeps.get_bind fun s hs =>
        (keeps_quiet_modifyDistress _).bind (fun _ => .ite (.throw _) (.pure _)) s hs
    exact hread.bind fun _ => .pure _
  | read batch =>
    have hread : Keeps (Quiet w₀) (distressReadOk stream) :=
      Keeps.get_bind fun s hs => Keeps.ite (keeps_quiet_modifyDistress _) (.pure _) s hs
    have hskip : Keeps (Quiet w₀) (skipTo batch.lastScanned skip) := by
      cases batch.lastScanned with
      | none => exact .pure _
      | some last => exact keeps_quiet_modifyDistress _
    exact hread.bind fun _ => (keeps_quiet_modifyDistress _).bind fun _ =>
      hskip.bind fun _ => .pure _

/-- In warm-up nothing is fed, so nothing is reported. -/
theorem keeps_quiet_drainDuringWarmup (input : PollInput) :
    Keeps (Quiet w₀) (drainDuringWarmup cfg input) := by
  have hnote : ∀ n, Keeps (Quiet w₀) (noteWarmup input.clocks n) := by
    intro n
    apply Keeps.get_bind
    intro s hs
    simp only [emit, wp_ite, wp_modify, wp_pure]
    exact ⟨fun _ => hs.trans (quiet_cons rfl rfl rfl), fun _ => hs⟩
  have haccrue : Keeps (Quiet w₀) (indicatorAccrue input.arm) := by
    intro s hs
    refine wp_mono (keeps_indicatorAccrue input.arm s (.refl s)) ?_ ?_ <;>
      exact fun _ t ht => hs.trans (.of_log ht.log)
  exact (keeps_quiet_drainStream _ _ _ _).bind fun _ => (keeps_quiet_drainStream _ _ _ _).bind
    fun _ => (keeps_quiet_modifyDistress _).bind fun _ => (hnote _).bind fun _ =>
      .ite haccrue (.pure _)

end

theorem Retried.quiet {pending : PendingFreeze} (h : Retried pending w t) : Quiet w t := by
  cases h with
  | found => exact ⟨[_, _], rfl, rfl, rfl⟩
  | placed => exact ⟨[_, _, _], rfl, rfl, rfl⟩
  | failed => exact quiet_cons rfl rfl rfl

/-- A re-arm reports nothing. -/
theorem quiet_maybeRearm (input : RearmInput) (w : World) :
    wp (maybeRearm cfg input) (fun _ => Quiet w) (fun _ => Quiet w) w := by
  simp only [maybeRearm, wp_bind, wp_get, wp_ite]
  refine ⟨fun _ => ?_, fun _ => .of_log rfl⟩
  cases input.tails with
  | timeout | failed => exact .of_log rfl
  | read tails =>
    cases cfg.indicatorsOn with
    | false => exact quiet_cons rfl rfl rfl
    | true => exact ⟨[_, _], rfl, rfl, rfl⟩

theorem reported_crossings (found : List CrossingReason) :
    reported (found.map Effect.crossing).reverse = found.reverse := by
  simp [reported, ← List.map_reverse, List.filterMap_map]

theorem handed_crossings (found : List CrossingReason) :
    handed (found.map Effect.crossing).reverse = [] := by
  simp [handed, ← List.map_reverse, List.filterMap_map]

section
variable {found : List CrossingReason} {a : DistressArm} {es : List Effect}

/-- Whether the crossings that were heard are answered is read off what follows them. -/
theorem Heard.answered_iff (h : Heard found a w t) (hlog : u.log = es ++ t.log)
    (hr : reported es = []) :
    Answered w u ↔
      handed es <:+ found.reverse ∧ (handed es = found.reverse ∨ u.latch.acted = true) := by
  have hall : u.log = (es ++ (found.map Effect.crossing).reverse) ++ w.log := by
    rw [hlog, h.log, List.append_assoc]
  have hreported : reported (es ++ (found.map Effect.crossing).reverse) = found.reverse := by
    rw [reported_append, hr, reported_crossings]; rfl
  have hhanded : handed (es ++ (found.map Effect.crossing).reverse) = handed es := by
    rw [handed_append, handed_crossings, List.append_nil]
  constructor
  · rintro ⟨fs, hfs, hanswered⟩
    rw [hall] at hfs
    rw [← List.append_cancel_right hfs, hreported, hhanded] at hanswered
    exact hanswered
  · intro hanswered
    refine ⟨_, hall, ?_⟩
    rw [hreported, hhanded]
    exact hanswered

/-- Crossings heard in a poll that raises before it answers are lost. -/
theorem Heard.unanswered (h : Heard found a w t) (ha : w.latch.acted = false) :
    Answered w t ↔ found = [] := by
  have hiff : Answered w t ↔
      handed [] <:+ found.reverse ∧ (handed [] = found.reverse ∨ t.latch.acted = true) :=
    h.answered_iff rfl rfl
  rw [hiff, h.latch, ha]
  cases found <;> simp [handed]

end

/-- Where every entry converts, only a first response that raises loses a crossing. -/
theorem not_loses {input : PollInput}
    (hgood : input.interoception.entries.all (converts ofText) = true)
    (honsets : input.welfare.entries.all onsetConverts = true)
    (h : 2 ≤ (crossings ofText input w).length → ¬ Breaks cfg (input.responses w.responses)) :
    ¬ Loses ofText cfg input w := by
  rintro (⟨hbad, -⟩ | ⟨-, hbad, -⟩ | ⟨-, -, htwo, hbreaks⟩)
  · simp [hgood] at hbad
  · simp [honsets] at hbad
  · exact h htwo hbreaks

/-- A poll that listens answers what it finds unless it loses it. -/
theorem listen_answers (input : PollInput) (ha : w.latch.acted = false) :
    wp (listen ofText cfg input) (fun _ t => Answered w t ↔ ¬ Loses ofText cfg input w)
      (fun _ t => Answered w t ↔ ¬ Loses ofText cfg input w) w := by
  have hdistressed := @takes_collect cfg input.responses ofText w w input .refl
  simp only [listen, wp_bind]
  refine wp_mono (wp_and (heard_collect input (.refl w)) hdistressed) ?_ ?_
  · rintro ⟨reasons, deferred⟩ t ⟨⟨hgood, honsets, hfound, a, ht⟩, -, hd⟩
    dsimp only at hfound ht hd ⊢
    have hat : t.latch.acted = false := by rw [ht.latch, ha]
    by_cases hbreaks : Breaks cfg (input.responses w.responses)
    · cases reasons with
      | nil =>
        simp only [respondAll, wp_pure]
        have hnone : ∀ u, Quiet t u → (Answered w u ↔ ¬ Loses ofText cfg input w) := by
          rintro u ⟨es, hlog, hr, hh⟩
          rw [ht.answered_iff hlog hr, hh]
          refine ⟨fun _ => ?_, fun _ => ⟨List.suffix_refl _, .inl rfl⟩⟩
          exact not_loses hgood honsets fun htwo => absurd htwo (by rw [← hfound]; simp)
        refine wp_mono (quiet_pollArm input deferred t) ?_ fun _ u hu => hnone u hu.1
        intro kept u hu
        cases kept with
        | none => exact hnone u hu.1
        | some fault => exact hnone u hu.1
      | cons reason rest =>
        have hbreaks' : Breaks cfg (input.responses t.responses) := by rwa [ht.responses]
        refine wp_mono (respondAll_drops (hd reason (by simp)) hat hbreaks') (fun _ _ hf =>
          hf.elim) ?_
        rintro fault u ⟨hlatch, es, hlog, hr, hh⟩
        rw [ht.answered_iff hlog hr, hh, hlatch, hat]
        constructor
        · rintro ⟨-, hone⟩
          have hrest : rest = [] := by simpa using hone
          exact not_loses hgood honsets fun htwo =>
            absurd htwo (by rw [← hfound, hrest]; simp)
        · intro hkept
          cases rest with
          | nil => exact ⟨List.suffix_refl _, .inl rfl⟩
          | cons second later =>
            exact absurd (.readBack hgood honsets (by rw [← hfound]; simp) hbreaks) hkept
    · have hok : t.latch.acted = true ∨ ¬ Breaks cfg (input.responses t.responses) :=
        .inr (by rwa [ht.responses])
      refine wp_mono (respondAll_hands hd hok) ?_ fun _ _ hf => hf.elim
      rintro _ u ⟨es, hlog, hr, hsuffix, hall⟩
      have hanswers : ∀ v, Quiet u v ∧ (u.latch.acted = true → v.latch.acted = true) →
          (Answered w v ↔ ¬ Loses ofText cfg input w) := by
        rintro v ⟨⟨fs, hlog', hr', hh'⟩, hlatch⟩
        have hlogs : v.log = (fs ++ es) ++ t.log := by rw [hlog', hlog, List.append_assoc]
        have hreported : reported (fs ++ es) = [] := by rw [reported_append, hr, hr']; rfl
        rw [ht.answered_iff hlogs hreported, handed_append, hh', List.nil_append]
        refine ⟨fun _ => not_loses hgood honsets fun _ => hbreaks, fun _ => ⟨hsuffix, ?_⟩⟩
        exact hall.imp_right hlatch
      refine wp_mono (quiet_pollArm input deferred u) ?_ fun _ v hv => hanswers v hv
      intro kept v hv
      cases kept with
      | none => exact hanswers v hv
      | some fault => exact hanswers v hv
  · rintro fault t ⟨(⟨hbad, a, ht⟩ | ⟨hgood, hbad, a, ht⟩), -⟩
    · rw [ht.unanswered ha]
      constructor
      · rintro hnone (⟨-, hfound⟩ | ⟨hgood, -, -⟩ | ⟨hgood, -, -, -⟩)
        · exact hfound hnone
        · simp [hbad] at hgood
        · simp [hbad] at hgood
      · intro hloses
        by_contra hfound
        exact hloses (.report hbad hfound)
    · rw [ht.unanswered ha]
      constructor
      · rintro hnone (⟨hbad, -⟩ | ⟨-, -, hfound⟩ | ⟨-, honsets, -, -⟩)
        · simp [hgood] at hbad
        · exact hfound hnone
        · simp [hbad] at honsets
      · intro hloses
        by_contra hfound
        exact hloses (.onset hgood hbad hfound)

/-- The first look of a poll changes only the latch, and that the look was taken. -/
theorem check_eq (w : World) (input : PollInput) :
    w.check input = { w with latch := (w.check input).latch, holdersChecked := true } := by
  unfold World.check World.adoptStandingWelfareFreeze
  split
  case isTrue hc => rw [← hc]
  case isFalse => split <;> rfl

theorem loses_congr {input : PollInput} (hd : t.distress = w.distress)
    (hr : t.responses = w.responses) : Loses ofText cfg input t ↔ Loses ofText cfg input w := by
  have hreports : reportCrossings ofText input t = reportCrossings ofText input w := by
    rw [reportCrossings, reportCrossings, hd]
  have hfound : crossings ofText input t = crossings ofText input w := by
    rw [crossings, crossings, timedCrossings, timedCrossings, hreports]
  constructor
  · rintro (⟨hbad, hfound'⟩ | ⟨hgood, hbad, hfound'⟩ | ⟨hgood, honsets, htwo, hbreaks⟩)
    · exact .report hbad (hreports ▸ hfound')
    · exact .onset hgood hbad (hfound ▸ hfound')
    · exact .readBack hgood honsets (hfound ▸ htwo) (hr ▸ hbreaks)
  · rintro (⟨hbad, hfound'⟩ | ⟨hgood, hbad, hfound'⟩ | ⟨hgood, honsets, htwo, hbreaks⟩)
    · exact .report hbad (hreports.symm ▸ hfound')
    · exact .onset hgood hbad (hfound.symm ▸ hfound')
    · exact .readBack hgood honsets (hfound.symm ▸ htwo) (hr.symm ▸ hbreaks)

theorem answered_congr (h : t.log = w.log) : Answered t u ↔ Answered w u := by
  rw [Answered, Answered, h]

/-- A poll answers every crossing that it finds, in any state and whatever it reads, unless it
listens and loses one. -/
theorem crossings_answered (cfg : Config) (ofText : String → Option PyFloat) (input : PollInput)
    (w : World) :
    Answered w (final (pollOnce ofText cfg input) w) ↔
      ¬ (Listens cfg input w ∧ Loses ofText cfg input w) := by
  rw [← @wp_iff_final _ _ _ (pollOnce ofText cfg input) w
    fun t => Answered w t ↔ ¬ (Listens cfg input w ∧ Loses ofText cfg input w)]
  have hcheck := check_eq w input
  have hlog : (w.check input).log = w.log := by rw [hcheck]
  have hdistress : (w.check input).distress = w.distress := by rw [hcheck]
  have hresponses : (w.check input).responses = w.responses := by rw [hcheck]
  have hstarted : (w.check input).startedAt = w.startedAt := by rw [hcheck]
  have hdeaf : ∀ t, ¬ Listens cfg input w → Quiet (w.check input) t →
      (Answered w t ↔ ¬ (Listens cfg input w ∧ Loses ofText cfg input w)) := by
    intro t hdeaf ht
    exact iff_of_true ((answered_congr hlog).mp ht.answered) fun h => hdeaf h.1
  simp only [pollOnce, wp_bind, wp_modify, wp_get, wp_ite]
  refine ⟨fun ha => ?_, fun ha => ⟨fun hwarm => ?_, fun hwarm => ?_⟩⟩
  · have hnot : ¬ Listens cfg input w := fun h => by rw [h.1] at ha; cases ha
    cases (w.check input).latch.pendingFreeze with
    | some pending =>
      refine wp_mono (retryPendingFreeze_does input.retry pending (w.check input)) ?_ ?_ <;>
        exact fun _ t ht => hdeaf t hnot ht.quiet
    | none =>
      refine wp_mono (quiet_maybeRearm input.rearm (w.check input)) ?_ ?_ <;>
        exact fun _ t ht => hdeaf t hnot ht
  · rw [hstarted, hdistress] at hwarm
    have hnot : ¬ Listens cfg input w := fun h => by rw [h.2] at hwarm; cases hwarm
    refine wp_mono (keeps_quiet_drainDuringWarmup input _ (Quiet.of_log rfl)) ?_ ?_ <;>
      exact fun _ t ht => hdeaf t hnot ht
  · rw [hstarted, hdistress] at hwarm
    have hfree : (w.check input).latch.acted = false := by simpa using ha
    have hlistens : Listens cfg input w := ⟨hfree, by simpa using hwarm⟩
    have hstart : ((w.check input).start input.clocks).log = w.log := hlog
    have hloses := @loses_congr cfg ofText ((w.check input).start input.clocks) w input hdistress
      hresponses
    have hanswers : ∀ t, (Answered ((w.check input).start input.clocks) t ↔
          ¬ Loses ofText cfg input ((w.check input).start input.clocks)) →
        (Answered w t ↔ ¬ (Listens cfg input w ∧ Loses ofText cfg input w)) := by
      intro t ht
      rw [answered_congr hstart, hloses] at ht
      rw [ht]
      exact not_congr (and_iff_right hlistens).symm
    exact wp_mono (listen_answers input hfree) (fun _ t ht => hanswers t ht)
      fun _ t ht => hanswers t ht

/-- Thirty seconds of distress are heard, with an entry behind them that is no number. -/
def distressThenText : List Move :=
  [.publishInteroception (report 1 (.float (.fin (9 / 10)))), .poll (pollAt 0 (.reads true)),
    .publishInteroception (report 2 (.float (.fin (9 / 10)))),
    .publishInteroception (report 3 (.str "n/a"))]

/-- The crossing is reported and the cursor is past it, and no response is made then or later. -/
theorem text_after_crossing_unanswered :
    ¬ Answered (run plainConfig noText bootedWelfare distressThenText).world
        (step plainConfig noText (run plainConfig noText bootedWelfare distressThenText)
          (.poll (pollAt 30 (.reads true)))).world ∧
      (run plainConfig noText bootedWelfare
        (distressThenText ++ [.poll (pollAt 30 (.reads true)),
          .poll (pollAt 60 (.reads true))])).world.log = [.crossing .sustainedDistress] := by
  constructor
  · rintro ⟨es, hlog, -, hall⟩
    have hbefore : (run plainConfig noText bootedWelfare distressThenText).world.log = [] := by
      decide +kernel
    have hafter : (step plainConfig noText (run plainConfig noText bootedWelfare distressThenText)
        (.poll (pollAt 30 (.reads true)))).world.log = [.crossing .sustainedDistress] := by
      decide +kernel
    have hfree : (step plainConfig noText (run plainConfig noText bootedWelfare distressThenText)
        (.poll (pollAt 30 (.reads true)))).world.latch.acted = false := by
      decide +kernel
    rw [hbefore, hafter, List.append_nil] at hlog
    subst hlog
    rw [hfree] at hall
    simp [handed, reported] at hall
  · decide +kernel

end Kaine.Welfare
