import Kaine.Cycle.WelfareMonitorSafety

/-! The cursors of the two distress streams only move forward, so what stands at or before them
never bears on the monitor again. -/
namespace Kaine.Welfare
open Py Control WelfareIndicators Routine Relation OrderedLog

variable {cfg : Config} {inputs : ℕ → ResponseInput} {ofText : String → Option PyFloat}
  {w t : World} {mark welfareMark : Bus.EntryId}

/-- Both cursors are at or beyond a mark in their stream. -/
def Past (mark welfareMark : Bus.EntryId) (w : World) : Prop :=
  mark ≤ w.distress.cursor ∧ welfareMark ≤ w.distress.welfareCursor

/-- A batch that lies beyond a mark of its stream. -/
def Batch.Past (batch : Batch) (mark : Bus.EntryId) : Prop :=
  (∀ d ∈ batch.entries, mark ≤ d.id) ∧ ∀ c, batch.lastScanned = some c → mark ≤ c

/-- What a poll reads lies beyond the marks. -/
structure ReadsPast (mark welfareMark : Bus.EntryId) (input : PollInput) : Prop where
  interoception : ∀ batch, input.interoception = .read batch → batch.Past mark
  welfare : ∀ batch, input.welfare = .read batch → batch.Past welfareMark
  tails : ∀ tails, input.rearm.tails = .read tails →
    mark ≤ tails.interoception ∧ welfareMark ≤ tails.welfare

theorem Past.of_eq (h : Past mark welfareMark w) (ht : t.distress = w.distress) :
    Past mark welfareMark t := by
  rw [Past, ht]
  exact h

theorem Responded.distress {r : ResponseInput} {reason : CrossingReason}
    (h : Responded cfg r reason w t) : t.distress = w.distress := by
  cases h <;> rfl

theorem Escalated.distress {r : ResponseInput} {reason : CrossingReason}
    (h : Escalated cfg r reason w t) : t.distress = w.distress := by
  cases h with
  | held h | raised h | reset h => exact h.distress

theorem ArmDoes.distress (h : ArmDoes cfg inputs w t) : t.distress = w.distress := by
  cases h with
  | unavailable _ hr | freshCrossing _ _ _ _ _ _ _ hr => exact hr.distress
  | restFailed _ _ _ _ hr => exact hr.distress.trans rfl
  | _ => rfl

theorem ArmPath.distress (h : ArmPath cfg inputs w t) : t.distress = w.distress := by
  induction h with
  | refl => rfl
  | tail _ hstep ih => rw [hstep.distress, ih]

theorem Retried.distress {pending : PendingFreeze} (h : Retried pending w t) :
    t.distress = w.distress := by
  cases h <;> rfl

/-- A change of the distress arm that moves no cursor back. -/
def Advances (f : DistressArm → DistressArm) (mark welfareMark : Bus.EntryId) : Prop :=
  ∀ a : DistressArm, mark ≤ a.cursor → welfareMark ≤ a.welfareCursor →
    mark ≤ (f a).cursor ∧ welfareMark ≤ (f a).welfareCursor

theorem keeps_modifyDistress {f : DistressArm → DistressArm} (hf : Advances f mark welfareMark) :
    Keeps (Past mark welfareMark) (modifyDistress f) :=
  Keeps.modify fun w hw => hf w.distress hw.1 hw.2

theorem countEpisode_cursors (a : DistressArm) (onset : Option PyFloat) (now : ℚ) :
    (a.countEpisode onset now).2.cursor = a.cursor ∧
      (a.countEpisode onset now).2.welfareCursor = a.welfareCursor := by
  unfold DistressArm.countEpisode
  dsimp only
  split
  · exact ⟨rfl, rfl⟩
  · split <;> exact ⟨rfl, rfl⟩

theorem observe_cursors (a : DistressArm) (d : Delivery) (magnitude : PyFloat) :
    (a.observe d magnitude).2.cursor = a.cursor ∧
      (a.observe d magnitude).2.welfareCursor = a.welfareCursor := by
  unfold DistressArm.observe DistressArm.sustained
  dsimp only
  split
  · exact countEpisode_cursors _ _ _
  · exact ⟨rfl, rfl⟩

theorem timeout_cursors (a : DistressArm) (clocks : Clocks) :
    (a.timeout clocks).2.cursor = a.cursor ∧
      (a.timeout clocks).2.welfareCursor = a.welfareCursor := by
  unfold DistressArm.timeout DistressArm.sustained
  dsimp only
  split
  · exact countEpisode_cursors _ _ _
  · exact ⟨rfl, rfl⟩

theorem grayZone_cursors (a : DistressArm) (onset : Option PyFloat) (ofEpisode : Bool) (now : ℚ) :
    (a.grayZone onset ofEpisode now).2.cursor = a.cursor ∧
      (a.grayZone onset ofEpisode now).2.welfareCursor = a.welfareCursor := by
  unfold DistressArm.grayZone
  dsimp only
  split
  · exact countEpisode_cursors _ _ _
  · exact ⟨rfl, rfl⟩

theorem keeps_detect {f : DistressArm → Option CrossingReason × DistressArm}
    (hf : ∀ a, (f a).2.cursor = a.cursor ∧ (f a).2.welfareCursor = a.welfareCursor) :
    Keeps (Past mark welfareMark) (detect f) := by
  apply Keeps.get_bind
  intro s hs
  have hpast : Past mark welfareMark { s with distress := (f s.distress).2 } := by
    obtain ⟨hcursor, hwelfare⟩ := hf s.distress
    rw [Past]
    dsimp only
    rw [hcursor, hwelfare]
    exact hs
  simp only [modifyDistress, wp_bind, wp_modify]
  cases (f s.distress).1 with
  | none => exact hpast
  | some reason => exact hpast

theorem keeps_takeInteroception {ds : List Delivery} (hds : ∀ d ∈ ds, mark ≤ d.id) :
    Keeps (Past mark welfareMark) (takeInteroception ofText ds) := by
  induction ds with
  | nil => exact .pure _
  | cons d rest ih =>
    have hrest := ih fun x hx => hds x (by simp [hx])
    have hnote : Advances (fun a => a.noteReport d) mark welfareMark := by
      intro a _ hw
      unfold DistressArm.noteReport
      dsimp only
      split <;> exact ⟨hds d (by simp), hw⟩
    refine (keeps_modifyDistress hnote).bind fun _ => ?_
    cases predictionError ofText d.event with
    | none => exact hrest
    | some magnitude =>
      cases magnitude with
      | error e => exact .throw _
      | ok magnitude =>
        exact (keeps_detect fun a => observe_cursors a d magnitude).bind fun _ =>
          hrest.bind fun _ => .pure _

theorem keeps_takeGrayZone {ds : List Delivery} (hds : ∀ d ∈ ds, welfareMark ≤ d.id) :
    Keeps (Past mark welfareMark) (takeGrayZone ds) := by
  induction ds with
  | nil => exact .pure _
  | cons d rest ih =>
    have hrest := ih fun x hx => hds x (by simp [hx])
    have hcursor : Advances (fun a => { a with welfareCursor := d.id }) mark welfareMark :=
      fun a hm _ => ⟨hm, hds d (by simp)⟩
    refine (keeps_modifyDistress hcursor).bind fun _ => .ite ?_ hrest
    cases grayZoneOnset d.event.payload with
    | error e => exact .throw _
    | ok onset =>
      exact (keeps_detect fun a => grayZone_cursors a _ _ _).bind fun _ =>
        hrest.bind fun _ => .pure _

theorem keeps_skipTo {last : Option Bus.EntryId} {f : Bus.EntryId → DistressArm → DistressArm}
    (hf : ∀ c, last = some c → Advances (f c) mark welfareMark) :
    Keeps (Past mark welfareMark) (skipTo last f) := by
  cases last with
  | none => exact .pure _
  | some c => exact keeps_modifyDistress (hf c rfl)

theorem advances_noteRead (stream : String) (count : ℕ) :
    Advances (fun a => a.noteRead stream count) mark welfareMark :=
  fun _ hm hw => ⟨hm, hw⟩

theorem keeps_distressReadOk (stream : String) :
    Keeps (Past mark welfareMark) (distressReadOk stream) := by
  apply Keeps.get_bind
  intro s hs
  exact Keeps.ite (keeps_modifyDistress (advances_noteRead stream 0)) (.pure _) s hs

theorem keeps_distressReadFailed (stream : String) :
    Keeps (Past mark welfareMark) (distressReadFailed stream) := by
  apply Keeps.get_bind
  intro s hs
  exact (keeps_modifyDistress (advances_noteRead stream _)).bind
    (fun _ => .ite (.throw _) (.pure _)) s hs

theorem keeps_respond (reason : CrossingReason) (detail : Option IndicatorDetail) :
    Keeps (Past mark welfareMark) (respond cfg inputs reason detail) := by
  intro s hs
  refine wp_mono (respond_does cfg inputs reason detail s) ?_ ?_
  · exact fun _ t ht => hs.of_eq ht.1.distress
  · exact fun _ t ht => hs.of_eq ht.distress

theorem keeps_respondAll (reasons : List CrossingReason) :
    Keeps (Past mark welfareMark) (respondAll cfg inputs reasons) := by
  induction reasons with
  | nil => exact .pure _
  | cons reason rest ih =>
    apply Keeps.get_bind
    intro s hs
    exact Keeps.ite (.pure _) ((keeps_respond reason none).bind fun _ => ih) s hs

theorem readInteroception_past {read : BusRead Batch} {s : World}
    (hread : ∀ batch, read = .read batch → batch.Past mark) (hs : Past mark welfareMark s) :
    wp (readInteroception read)
      (fun found t => Past mark welfareMark t ∧ found.1.Past mark)
      (fun _ => Past mark welfareMark) s := by
  have hempty : (⟨[], none⟩ : Batch).Past mark := ⟨by simp, by simp⟩
  cases read with
  | timeout => exact ⟨hs, hempty⟩
  | failed =>
    simp only [readInteroception, wp_tryCatch, wp_bind, wp_pure]
    exact wp_mono (keeps_distressReadFailed _ s hs) (fun _ _ ht => ⟨ht, hempty⟩)
      fun _ _ ht => ⟨ht, hempty⟩
  | read batch =>
    simp only [readInteroception, wp_bind, wp_pure]
    exact wp_mono (keeps_distressReadOk _ s hs) (fun _ _ ht => ⟨ht, hread batch rfl⟩)
      fun _ _ ht => ht

theorem keeps_drainGrayZone {read : BusRead Batch}
    (hread : ∀ batch, read = .read batch → batch.Past welfareMark) :
    Keeps (Past mark welfareMark) (drainGrayZone read) := by
  cases read with
  | timeout => exact .throw _
  | failed => exact (keeps_distressReadFailed _).bind fun _ => .pure _
  | read batch =>
    obtain ⟨hids, hlast⟩ := hread batch rfl
    refine (keeps_distressReadOk _).bind fun _ => (keeps_takeGrayZone hids).bind fun _ =>
      (keeps_skipTo fun c hc => ?_).bind fun _ => .pure _
    exact fun a hm _ => ⟨hm, hlast c hc⟩

theorem keeps_drainStream {stream : String} {read : BusRead Batch}
    {note : Delivery → DistressArm → DistressArm} {skip : Bus.EntryId → DistressArm → DistressArm}
    (hnote : ∀ batch, read = .read batch → ∀ d ∈ batch.entries, Advances (note d) mark welfareMark)
    (hskip : ∀ batch, read = .read batch → ∀ c, batch.lastScanned = some c →
      Advances (skip c) mark welfareMark) :
    Keeps (Past mark welfareMark) (drainStream stream read note skip) := by
  cases read with
  | timeout => exact .throw _
  | failed => exact (keeps_distressReadFailed _).bind fun _ => .pure _
  | read batch =>
    have hfold : ∀ (ds : List Delivery), (∀ d ∈ ds, Advances (note d) mark welfareMark) →
        Advances (fun a => ds.foldl (fun a d => note d a) a) mark welfareMark := by
      intro ds
      induction ds with
      | nil => exact fun _ _ hm hw => ⟨hm, hw⟩
      | cons d rest ih =>
        intro hds a hm hw
        obtain ⟨hm', hw'⟩ := hds d (by simp) a hm hw
        exact ih (fun x hx => hds x (by simp [hx])) (note d a) hm' hw'
    exact (keeps_distressReadOk _).bind fun _ =>
      (keeps_modifyDistress (hfold _ (hnote batch rfl))).bind fun _ =>
        (keeps_skipTo (hskip batch rfl)).bind fun _ => .pure _

section
variable {input : PollInput} (hin : ReadsPast mark welfareMark input)
include hin

theorem keeps_collect : Keeps (Past mark welfareMark) (collect ofText input) := by
  have hhear : Keeps (Past mark welfareMark) (hear ofText input) := by
    intro s hs
    simp only [hear, wp_bind, wp_pure]
    refine wp_mono (readInteroception_past hin.interoception hs) ?_ fun _ _ ht => ht
    rintro ⟨batch, deferred⟩ t ⟨ht, hids, hlast⟩
    have hskip : Keeps (Past mark welfareMark)
        (skipTo batch.lastScanned fun last a => { a with cursor := last }) :=
      keeps_skipTo fun c hc a _ hw => ⟨hlast c hc, hw⟩
    exact wp_mono (keeps_takeInteroception hids t ht) (fun _ u hu => hskip u hu) fun _ _ hu => hu
  have htimer : ∀ heard, Keeps (Past mark welfareMark) (checkTimer input.timer heard) :=
    fun _ => .ite (keeps_detect fun a => timeout_cursors a _) (.pure _)
  refine hhear.bind fun found => (htimer _).bind fun reasons => ?_
  refine .tryCatch ((keeps_drainGrayZone hin.welfare).bind fun _ => .pure _) fun fault => ?_
  cases fault with
  | raised e => exact .throw _
  | busTimeout | busReadFailing => exact .pure _

theorem keeps_listen : Keeps (Past mark welfareMark) (listen ofText cfg input) := by
  refine (keeps_collect hin).bind fun found => (keeps_respondAll found.1).bind fun _ => ?_
  have harm : Keeps (Past mark welfareMark) (pollArm cfg input found.2) := by
    apply Keeps.get_bind
    intro s hs
    simp only [wp_ite, wp_pure, wp_tryCatch, wp_bind]
    refine ⟨?_, fun _ => hs⟩
    rintro ⟨_, ha⟩
    refine wp_mono (reaches_indicatorPoll .refl ha) (fun _ t ht => hs.of_eq ht.distress) ?_
    intro fault t ht
    have hpast := hs.of_eq ht.distress
    simp [hpast]
  refine harm.bind fun kept => ?_
  cases kept with
  | none => exact .pure _
  | some fault => exact .throw _

theorem keeps_drainDuringWarmup : Keeps (Past mark welfareMark) (drainDuringWarmup cfg input) := by
  have hreports : Keeps (Past mark welfareMark)
      (drainStream interoceptionStream input.interoception (fun d a => a.noteReport d)
        (fun last a => { a with cursor := last })) := by
    refine keeps_drainStream (fun batch hb d hd a _ hw => ?_) fun batch hb c hc a _ hw =>
      ⟨(hin.interoception batch hb).2 c hc, hw⟩
    have hid := (hin.interoception batch hb).1 d hd
    unfold DistressArm.noteReport
    dsimp only
    split <;> exact ⟨hid, hw⟩
  have hgrays : Keeps (Past mark welfareMark)
      (drainStream welfareStream input.welfare (fun d a => { a with welfareCursor := d.id })
        (fun last a => { a with welfareCursor := last })) :=
    keeps_drainStream (fun batch hb d hd a hm _ => ⟨hm, (hin.welfare batch hb).1 d hd⟩)
      fun batch hb c hc a hm _ => ⟨hm, (hin.welfare batch hb).2 c hc⟩
  have hnote : ∀ n, Keeps (Past mark welfareMark) (noteWarmup input.clocks n) := by
    intro n
    apply Keeps.get_bind
    intro s hs
    simp only [emit, wp_ite, wp_modify, wp_pure]
    exact ⟨fun _ => hs, fun _ => hs⟩
  have haccrue : Keeps (Past mark welfareMark) (indicatorAccrue input.arm) := by
    intro s hs
    refine wp_mono (keeps_indicatorAccrue input.arm s (.refl s)) ?_ ?_ <;>
    · intro _ t ht
      refine hs.of_eq ?_
      rw [ht.rest]
  have hclear : Keeps (Past mark welfareMark) (modifyDistress DistressArm.clear) :=
    keeps_modifyDistress fun _ hm hw => ⟨hm, hw⟩
  refine hreports.bind fun _ => hgrays.bind fun _ => hclear.bind fun _ => (hnote _).bind fun _ => ?_
  exact .ite haccrue (.pure _)

/-- A poll moves no cursor back past what it reads. -/
theorem keeps_pollOnce : Keeps (Past mark welfareMark) (pollOnce ofText cfg input) := by
  have hcheck : ∀ w : World, (w.check input).distress = w.distress := by
    intro w
    unfold World.check World.adoptStandingWelfareFreeze
    split
    · rfl
    · split <;> rfl
  refine (Keeps.modify fun w hw => hw.of_eq (hcheck w)).bind fun _ => ?_
  apply Keeps.get_bind
  intro s hs
  rw [wp_ite]
  refine ⟨fun _ => ?_, fun _ => ?_⟩
  · cases s.latch.pendingFreeze with
    | some pending =>
      refine wp_mono (retryPendingFreeze_does input.retry pending s) ?_ ?_ <;>
        exact fun _ t ht => hs.of_eq ht.distress
    | none =>
      refine wp_mono (maybeRearm_does cfg input.rearm s) ?_ fun _ t ht => ht ▸ hs
      rintro - t (rfl | ht)
      · exact hs
      · obtain ⟨tails, hread, hdistress⟩ := ht.cursors
        rw [Past, hdistress]
        exact hin.tails tails hread
  · have hstart : Past mark welfareMark (s.start input.clocks) := hs.of_eq rfl
    simp only [wp_bind, wp_modify, wp_ite]
    exact ⟨fun _ => keeps_drainDuringWarmup hin _ hstart, fun _ => keeps_listen hin _ hstart⟩

end

/-- Two histories of a stream that differ only at or before a mark. -/
structure SameAfter (mark : Bus.EntryId) (a b : Bus.Stream) : Prop where
  tail : b.lastEntryId = a.lastEntryId
  after : OrderedLog.after Bus.StreamEntry.id b.entries mark =
    OrderedLog.after Bus.StreamEntry.id a.entries mark
  reached : mark ≤ a.lastEntryId

theorem SameAfter.xread {a b : Bus.Stream} {cursor : Bus.EntryId} (h : SameAfter mark a b)
    (hc : mark ≤ cursor) (count : ℕ) : b.xread cursor count = a.xread cursor count := by
  rw [Bus.Stream.xread, Bus.Stream.xread, ← after_after hc, h.after, after_after hc]

theorem SameAfter.publish {a b : Bus.Stream} (h : SameAfter mark a b) (entry : Bus.StreamEntry) :
    SameAfter mark (publish a entry) (publish b entry) := by
  by_cases hlt : a.lastEntryId < entry.id
  · have hlt' : b.lastEntryId < entry.id := h.tail ▸ hlt
    simp only [Welfare.publish, hlt, hlt', dite_true]
    refine ⟨?_, ?_, ?_⟩
    · simp [Bus.Stream.lastEntryId, Bus.Stream.append]
    · simp only [Bus.Stream.append, after_append, h.after]
    · have htail : (a.append entry hlt).lastEntryId = entry.id := by
        simp [Bus.Stream.lastEntryId, Bus.Stream.append]
      rw [htail]
      exact h.reached.trans hlt.le
  · have hlt' : ¬ b.lastEntryId < entry.id := h.tail ▸ hlt
    simpa only [Welfare.publish, hlt, hlt', dite_false] using h

/-- A decoded entry stands in the stream. -/
theorem mem_decoded {entries : List Bus.StreamEntry} {found : Bus.EntryId × Bus.Event}
    (h : found ∈ Bus.decoded entries) : ∃ entry ∈ entries, entry.id = found.1 := by
  simp only [Bus.decoded, List.mem_filterMap, Option.map_eq_some_iff] at h
  obtain ⟨entry, hentry, event, -, rfl⟩ := h
  exact ⟨entry, hentry, rfl⟩

theorem batchOf_past {stream : Bus.Stream} {cursor : Bus.EntryId} (clocks : ℕ → Clocks)
    (h : mark ≤ cursor) : (batchOf stream cursor clocks).Past mark := by
  have hread : ∀ entry ∈ stream.xread cursor readCount, mark ≤ entry.id := by
    intro entry hentry
    have hmem := List.mem_of_mem_take hentry
    rw [after, List.mem_filter] at hmem
    exact h.trans (by simpa using hmem.2 : cursor < entry.id).le
  constructor
  · intro d hd
    obtain ⟨i, hi, rfl⟩ := List.mem_mapIdx.mp hd
    obtain ⟨entry, hentry, hid⟩ := mem_decoded (List.getElem_mem hi)
    exact (hread entry hentry).trans_eq hid
  · intro c hc
    simp only [batchOf, Bus.lastScanned, Option.map_eq_some_iff] at hc
    obtain ⟨entry, hentry, rfl⟩ := hc
    exact hread entry (List.mem_of_getLast? hentry)

/-- Two systems that differ only in what their streams hold at or before the marks. -/
structure Agree (mark welfareMark : Bus.EntryId) (s s' : System) : Prop where
  world : s'.world = s.world
  interoception : SameAfter mark s.interoception s'.interoception
  welfare : SameAfter welfareMark s.welfare s'.welfare
  past : Past mark welfareMark s.world

theorem BusRead.map_eq_read {α β : Type} {f : α → β} {read : BusRead α} {b : β}
    (h : read.map f = .read b) : ∃ a, read = .read a ∧ f a = b := by
  cases read with
  | read a =>
    cases h
    exact ⟨a, rfl, rfl⟩
  | timeout | failed => cases h

theorem Agree.readsPast {s s' : System} (h : Agree mark welfareMark s s') (p : PollMove) :
    ReadsPast mark welfareMark (s.pollInput p) := by
  constructor
  · intro batch hb
    obtain ⟨clocks, -, rfl⟩ := BusRead.map_eq_read hb
    exact batchOf_past clocks h.past.1
  · intro batch hb
    obtain ⟨clocks, -, rfl⟩ := BusRead.map_eq_read hb
    exact batchOf_past clocks h.past.2
  · intro tails ht
    obtain ⟨_, -, rfl⟩ := BusRead.map_eq_read ht
    exact ⟨h.interoception.reached, h.welfare.reached⟩

theorem Agree.pollInput {s s' : System} (h : Agree mark welfareMark s s') (p : PollMove) :
    s'.pollInput p = s.pollInput p := by
  have hinteroception : ∀ clocks,
      batchOf s'.interoception s'.world.distress.cursor clocks =
        batchOf s.interoception s.world.distress.cursor clocks := by
    intro clocks
    simp only [batchOf, h.world, h.interoception.xread h.past.1]
  have hwelfare : ∀ clocks,
      batchOf s'.welfare s'.world.distress.welfareCursor clocks =
        batchOf s.welfare s.world.distress.welfareCursor clocks := by
    intro clocks
    simp only [batchOf, h.world, h.welfare.xread h.past.2]
  simp only [System.pollInput, funext hinteroception, funext hwelfare, h.interoception.tail,
    h.welfare.tail]

theorem Agree.step {s s' : System} (h : Agree mark welfareMark s s') (move : Move) :
    Agree mark welfareMark (step cfg ofText s move) (step cfg ofText s' move) := by
  cases move with
  | poll p =>
    have hpast := wp_iff_final.mp
      (@keeps_pollOnce cfg ofText _ _ _ (h.readsPast p) s.world h.past)
    refine ⟨?_, h.interoception, h.welfare, hpast⟩
    simp only [Welfare.step, h.pollInput, h.world]
  | control change =>
    refine ⟨?_, h.interoception, h.welfare, h.past⟩
    simp only [Welfare.step, h.world]
  | publishInteroception entry => exact ⟨h.world, h.interoception.publish entry, h.welfare, h.past⟩
  | publishWelfare entry => exact ⟨h.world, h.interoception, h.welfare.publish entry, h.past⟩

/-- What the streams held at or before the marks does not show in any later world. -/
theorem Agree.run {s s' : System} (h : Agree mark welfareMark s s') (moves : List Move) :
    Agree mark welfareMark (run cfg ofText s moves) (run cfg ofText s' moves) := by
  induction moves generalizing s s' with
  | nil => exact h
  | cons move rest ih => exact ih (h.step move)

end Kaine.Welfare
