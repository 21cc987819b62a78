import Kaine.Persistence.SinkRuns

/-! What is offered to a sink is stamped once and accounted for, and its gaps are counted. -/
namespace Kaine.JsonlSink
open Py

variable {sink sink' sink'' : Sink} {entries more : List (String × Dict)} {dropped lost : List Dict}

section Enqueue

/-- Records stamped one after another from a number on, each with the run it came in. -/
def stampFrom : ℕ → List (String × Dict) → List Dict
  | _, [] => []
  | n, (runId, entry) :: entries => stamp runId n entry :: stampFrom (n + 1) entries

@[simp] theorem length_stampFrom (n : ℕ) (entries : List (String × Dict)) :
    (stampFrom n entries).length = entries.length := by
  induction entries generalizing n with
  | nil => rfl
  | cons entry entries ih => exact congrArg Nat.succ (ih (n + 1))

theorem stampFrom_append (n : ℕ) (entries more : List (String × Dict)) :
    stampFrom n (entries ++ more) = stampFrom n entries ++ stampFrom (n + entries.length) more := by
  induction entries generalizing n with
  | nil => rfl
  | cons entry entries ih =>
    have hnext : n + 1 + entries.length = n + (entry :: entries).length := by
      rw [List.length_cons]
      omega
    rw [List.cons_append, stampFrom, ih, hnext]
    rfl

theorem numbered_stampFrom (entries : List (String × Dict)) :
    Numbered (stampFrom 0 entries) entries.length := by
  induction entries using List.reverseRecOn with
  | nil => exact ⟨[], rfl, List.Pairwise.nil, fun n hn => absurd hn List.not_mem_nil⟩
  | append_singleton entries entry ih =>
    rw [stampFrom_append, Nat.zero_add, List.length_append]
    exact ih.snoc entry.1 entry.2

/-- A sink after records have gone into its queue: some of them, or of those before, were dropped
for it. -/
structure Admitted (sink sink' : Sink) (entries : List (String × Dict))
    (dropped : List Dict) : Prop where
  counted : sink'.droppedCount = sink.droppedCount + dropped.length
  parts : (dropped ++ sink'.queue).Perm (sink.queue ++ stampFrom sink.seq entries)
  ordered : sink'.queue.Sublist (sink.queue ++ stampFrom sink.seq entries)
  seq : sink'.seq = sink.seq + entries.length
  wrote : sink'.wroteCount = sink.wroteCount
  kind : sink'.studyRecord = sink.studyRecord

theorem Admitted.refl (sink : Sink) : Admitted sink sink [] [] :=
  ⟨rfl, by simp [stampFrom], by simp [stampFrom], rfl, rfl, rfl⟩

theorem admitted_putStamped (runId : String) (sink : Sink) (entry : Dict) :
    ∃ dropped, Admitted sink (sink.putStamped (some runId) entry) [(runId, entry)] dropped := by
  unfold Sink.putStamped Sink.put
  dsimp only [Sink.stamp]
  by_cases hfits : sink.queueMaxsize = 0 ∨ sink.queue.length < sink.queueMaxsize
  · rw [if_pos hfits]
    exact ⟨[], rfl, List.Perm.refl _, List.Sublist.refl _, rfl, rfl, rfl⟩
  · rw [if_neg hfits]
    obtain ⟨hbound, hfull⟩ := not_or.mp hfits
    cases hqueue : sink.queue with
    | nil =>
      rw [hqueue, List.length_nil] at hfull
      omega
    | cons oldest rest =>
      refine ⟨[oldest], rfl, ?_, ?_, rfl, rfl, rfl⟩
      · rw [hqueue]
        exact List.Perm.refl _
      · rw [hqueue]
        exact List.sublist_cons_self oldest _

theorem Admitted.trans (h : Admitted sink sink' entries dropped)
    (h' : Admitted sink' sink'' more lost) :
    Admitted sink sink'' (entries ++ more) (dropped ++ lost) := by
  refine ⟨?_, ?_, ?_, ?_, h'.wrote.trans h.wrote, h'.kind.trans h.kind⟩
  · rw [h'.counted, h.counted, List.length_append, Nat.add_assoc]
  · rw [List.append_assoc, stampFrom_append, ← h.seq, ← List.append_assoc sink.queue]
    refine (h'.parts.append_left dropped).trans ?_
    rw [← List.append_assoc]
    exact h.parts.append_right _
  · rw [stampFrom_append, ← h.seq, ← List.append_assoc]
    exact h'.ordered.trans (h.ordered.append_right _)
  · rw [h'.seq, h.seq, List.length_append, Nat.add_assoc]

theorem admitted_fold (runId : String) (sink : Sink) (entries : List Dict) :
    ∃ dropped, Admitted sink (entries.foldl (Sink.putStamped (some runId)) sink)
      (entries.map fun entry => (runId, entry)) dropped := by
  induction entries generalizing sink with
  | nil => exact ⟨[], .refl sink⟩
  | cons entry entries ih =>
    obtain ⟨dropped, hfirst⟩ := admitted_putStamped runId sink entry
    obtain ⟨lost, hrest⟩ := ih (sink.putStamped (some runId) entry)
    exact ⟨_, hfirst.trans hrest⟩

/-- The gate changes nothing of a sink but its gap. -/
theorem admitEntry_frame (suspended : Bool) (now : String) (sink : Sink) (entry : Dict) :
    (sink.admitEntry suspended now entry).1.queue = sink.queue ∧
      (sink.admitEntry suspended now entry).1.seq = sink.seq ∧
      (sink.admitEntry suspended now entry).1.droppedCount = sink.droppedCount ∧
      (sink.admitEntry suspended now entry).1.wroteCount = sink.wroteCount ∧
      (sink.admitEntry suspended now entry).1.studyRecord = sink.studyRecord := by
  unfold Sink.admitEntry
  split_ifs <;> exact ⟨rfl, rfl, rfl, rfl, rfl⟩

theorem admitted_enqueue (runId : String) (suspended : Bool) (now : String) (sink : Sink)
    (entry : Dict) : ∃ dropped, Admitted sink (sink.enqueue (some runId) suspended now entry)
      ((sink.admitEntry suspended now entry).2.map fun entry => (runId, entry)) dropped := by
  obtain ⟨dropped, h⟩ :=
    admitted_fold runId (sink.admitEntry suspended now entry).1
      (sink.admitEntry suspended now entry).2
  obtain ⟨hqueue, hseq, hcount, hwrote, hkind⟩ := admitEntry_frame suspended now sink entry
  have hparts := h.parts
  have hordered := h.ordered
  rw [hqueue, hseq] at hparts hordered
  refine ⟨dropped, ?_, hparts, hordered, ?_, h.wrote.trans hwrote, h.kind.trans hkind⟩
  · exact h.counted.trans (by rw [hcount])
  · exact h.seq.trans (by rw [hseq])

/-- A record on its way into the queue leaves the gap as it is. -/
theorem fold_gap (ctx : Option String) (sink : Sink) (entries : List Dict) :
    (entries.foldl (Sink.putStamped ctx) sink).suspensionStartEmitted =
      sink.suspensionStartEmitted ∧ (entries.foldl (Sink.putStamped ctx) sink).suspendedDropped =
        sink.suspendedDropped := by
  induction entries generalizing sink with
  | nil => exact ⟨rfl, rfl⟩
  | cons entry entries ih =>
    have hfirst : (sink.putStamped ctx entry).suspensionStartEmitted = sink.suspensionStartEmitted ∧
        (sink.putStamped ctx entry).suspendedDropped = sink.suspendedDropped := by
      unfold Sink.putStamped Sink.stamp Sink.put
      cases ctx <;> dsimp only <;> split_ifs <;> exact ⟨rfl, rfl⟩
    exact ⟨(ih _).1.trans hfirst.1, (ih _).2.trans hfirst.2⟩

end Enqueue

section Account

/-- The first entry that a suspended gate withholds: a marker stands for it. -/
def Offer.Opens (o : Offer) : Prop :=
  o.suspended = true ∧ o.admitted = [[("record_gap", .str "start"), ("ts", .str o.now)]]

def Offer.Withheld (o : Offer) : Prop := o.suspended = true ∧ o.admitted = []

/-- The first entry after a suspension: a marker with the count stands before it. -/
def Offer.Closes (o : Offer) (withheld : ℕ) : Prop :=
  o.suspended = false ∧
    o.admitted = [[("record_gap", .str "end"), ("ts", .str o.now), ("dropped", .int withheld)],
      o.entry]

/-- Writes that end within a gap, with the number of entries that it has withheld. -/
def OpenGap (offers : List Offer) (withheld : ℕ) : Prop :=
  ∃ before first later, offers = before ++ first :: later ∧ first.Opens ∧
    (∀ o ∈ later, o.Withheld) ∧ withheld = (first :: later).length

/-- What is admitted for a write after others. -/
structure Offer.Fits (studyRecord : Bool) (earlier : List Offer) (o : Offer) : Prop where
  ordinary : studyRecord = false → o.admitted = [o.entry]
  suspended : studyRecord = true → o.suspended = true → o.Opens ∨ o.Withheld
  admitted : studyRecord = true → o.suspended = false →
    o.admitted = [o.entry] ∨ ∃ withheld, OpenGap earlier withheld ∧ o.Closes withheld

/-- The entries that were admitted, in order. -/
def admissions (offers : List Offer) : List (String × Dict) :=
  offers.flatMap fun o => o.admitted.map fun entry => (o.runId, entry)

/-- What the gate admits fits the writes before, and it counts the gap that is then open. -/
theorem admitEntry_fits {earlier : List Offer}
    (hgap : sink.suspensionStartEmitted = true → sink.studyRecord = true ∧
      OpenGap earlier sink.suspendedDropped)
    (runId : String) (suspended : Bool) (now : String) (entry : Dict) :
    (Offer.mk runId suspended now entry (sink.admitEntry suspended now entry).2).Fits
      sink.studyRecord earlier ∧ ((sink.admitEntry suspended now entry).1.suspensionStartEmitted =
        true → sink.studyRecord = true ∧
          OpenGap (earlier ++ [⟨runId, suspended, now, entry,
            (sink.admitEntry suspended now entry).2⟩])
          (sink.admitEntry suspended now entry).1.suspendedDropped) := by
  cases hstudy : sink.studyRecord with
  | false =>
    have hsame : sink.admitEntry suspended now entry = (sink, [entry]) := by
      simp [Sink.admitEntry, hstudy]
    rw [hsame]
    refine ⟨⟨fun _ => rfl, fun h => absurd h Bool.false_ne_true,
      fun h => absurd h Bool.false_ne_true⟩, ?_⟩
    intro hstart
    rw [(hgap hstart).1] at hstudy
    cases hstudy
  | true =>
    cases suspended with
    | true =>
      cases hstart : sink.suspensionStartEmitted with
      | false =>
        have hopen : sink.admitEntry true now entry =
            ({ sink with suspensionStartEmitted := true, suspendedDropped := 1 },
              [[("record_gap", .str "start"), ("ts", .str now)]]) := by
          simp [Sink.admitEntry, hstudy, hstart]
        rw [hopen]
        refine ⟨⟨fun h => absurd h.symm Bool.false_ne_true, fun _ _ => .inl ⟨rfl, rfl⟩,
          fun _ h => absurd h.symm Bool.false_ne_true⟩, fun _ => ⟨rfl, ?_⟩⟩
        exact ⟨earlier, _, [], rfl, ⟨rfl, rfl⟩, fun o ho => absurd ho List.not_mem_nil, rfl⟩
      | true =>
        have hcount : sink.admitEntry true now entry =
            ({ sink with suspendedDropped := sink.suspendedDropped + 1 }, []) := by
          simp [Sink.admitEntry, hstudy, hstart]
        rw [hcount]
        refine ⟨⟨fun h => absurd h.symm Bool.false_ne_true, fun _ _ => .inr ⟨rfl, rfl⟩,
          fun _ h => absurd h.symm Bool.false_ne_true⟩, fun _ => ⟨rfl, ?_⟩⟩
        obtain ⟨before, first, later, hearlier, hopens, hwithheld, hnumber⟩ := (hgap hstart).2
        refine ⟨before, first, later ++ [⟨runId, true, now, entry, []⟩], ?_, hopens, ?_, ?_⟩
        · rw [hearlier, List.append_assoc, List.cons_append]
        · intro o ho
          rcases List.mem_append.mp ho with ho | ho
          · exact hwithheld o ho
          · rw [List.mem_singleton.mp ho]
            exact ⟨rfl, rfl⟩
        · show sink.suspendedDropped + 1 = _
          rw [hnumber, ← List.cons_append, List.length_append, List.length_singleton]
    | false =>
      cases hstart : sink.suspensionStartEmitted with
      | false =>
        have hsame : sink.admitEntry false now entry = (sink, [entry])  := by
          simp [Sink.admitEntry, hstudy, hstart]
        rw [hsame]
        refine ⟨⟨fun _ => rfl, fun _ h => absurd h Bool.false_ne_true, fun _ _ => .inl rfl⟩, ?_⟩
        intro h
        rw [hstart] at h
        cases h
      | true =>
        have hclose : sink.admitEntry false now entry =
            ({ sink with suspendedDropped := 0, suspensionStartEmitted := false },
              [[("record_gap", .str "end"), ("ts", .str now),
                ("dropped", .int sink.suspendedDropped)], entry]) := by
          simp [Sink.admitEntry, hstudy, hstart]
        rw [hclose]
        refine ⟨⟨fun h => absurd h.symm Bool.false_ne_true, fun _ h => absurd h Bool.false_ne_true,
          fun _ _ => .inr ⟨_, (hgap hstart).2, rfl, rfl⟩⟩, fun h => absurd h Bool.false_ne_true⟩

namespace Tracked

/-- Every record that was stamped. -/
def stamped (t : Tracked) : List Dict := stampFrom 0 (admissions t.offers)

def written (t : Tracked) : List Dict := t.process.appended.map Prod.snd

/-- The batch that a thread has in hand. -/
def underWay (t : Tracked) : List Dict := (t.process.draining.map Drain.batch).getD []

/-- What a sink's numbers say of its records: those that are not on file were dropped, or failed,
or are not out yet. -/
structure Accounted (studyRecord : Bool) (t : Tracked) : Prop where
  ascending : ∃ bound, Numbered t.written bound
  exact : ∃ dropped : List Dict, dropped.length = t.process.sink.droppedCount ∧
    (t.written ++ (dropped ++
      (t.process.failed.flatten ++ (t.underWay ++ t.process.sink.queue)))).Perm t.stamped
  wrote : t.written.length = t.process.sink.wroteCount
  balance : t.stamped.length = t.process.sink.wroteCount + t.process.sink.droppedCount +
    t.process.sink.queue.length + t.underWay.length + t.process.failed.flatten.length
  fits : ∀ i (o : Offer), t.offers[i]? = some o → o.Fits studyRecord (t.offers.take i)

/-- The steps that lose no record unseen: the file of a batch is found, a thread that
raises has appended nothing, and no thread is left behind. -/
def Sound (t : Tracked) : Step → Prop
  | .drain today sweepRaises | .flush today sweepRaises =>
    t.process.sink.queue = [] ∨ targetDate t.process.date today sweepRaises ≠ none
  | .appendEnds (some lines) => lines = 0
  | .stopTimesOut => t.process.draining = none
  | _ => True

/-- What stands in every state: the account of the records, and the gap that is open. -/
structure Kept (studyRecord : Bool) (t : Tracked) : Prop where
  kind : t.process.sink.studyRecord = studyRecord
  orphans : t.process.orphans = []
  seq : t.process.sink.seq = t.stamped.length
  wrote : t.written.length = t.process.sink.wroteCount
  exact : ∃ dropped : List Dict, dropped.length = t.process.sink.droppedCount ∧
    (t.written ++ (dropped ++
      (t.process.failed.flatten ++ (t.underWay ++ t.process.sink.queue)))).Perm t.stamped
  ordered : (t.written ++ (t.underWay ++ t.process.sink.queue)).Sublist t.stamped
  gap : t.process.sink.suspensionStartEmitted = true →
    t.process.sink.studyRecord = true ∧ OpenGap t.offers t.process.sink.suspendedDropped
  fits : ∀ i (o : Offer), t.offers[i]? = some o → o.Fits studyRecord (t.offers.take i)

variable {studyRecord : Bool} {t t' : Tracked} {a : Step}

theorem Kept.accounted (h : t.Kept studyRecord) : t.Accounted studyRecord := by
  refine ⟨⟨(admissions t.offers).length, ?_⟩, h.exact, h.wrote, ?_, h.fits⟩
  · exact (numbered_stampFrom _).sublist ((List.sublist_append_left _ _).trans h.ordered)
  · obtain ⟨dropped, hcount, hperm⟩ := h.exact
    have hlength := hperm.length_eq
    simp only [List.length_append] at hlength
    rw [h.wrote, hcount] at hlength
    omega

/-- What is kept does not depend on the task, nor on the day. -/
theorem Kept.of_same (h : t.Kept studyRecord) {p : Process} (hsink : p.sink = t.process.sink)
    (hdraining : p.draining = t.process.draining) (horphans : p.orphans = t.process.orphans)
    (happended : p.appended = t.process.appended) (hfailed : p.failed = t.process.failed) :
    Kept studyRecord ⟨p, t.offers⟩ := by
  obtain ⟨q, offers⟩ := t
  obtain ⟨sink, date, worker, stopped, draining, orphans, appended, failed⟩ := p
  dsimp only at hsink hdraining horphans happended hfailed
  subst hsink hdraining horphans happended hfailed
  exact ⟨h.kind, h.orphans, h.seq, h.wrote, h.exact, h.ordered, h.gap, h.fits⟩

theorem admissions_snoc (offers : List Offer) (o : Offer) :
    admissions (offers ++ [o]) = admissions offers ++ o.admitted.map fun entry =>
      (o.runId, entry) := by
  rw [admissions, List.flatMap_append, List.flatMap_singleton]
  rfl

/-- A write stamps what is admitted for it, behind all that was stamped before. -/
theorem Kept.offer (h : t.Kept studyRecord) (runId : String) (suspended : Bool) (now : String)
    (entry : Dict) :
    Kept studyRecord
      ⟨{ t.process with sink := t.process.sink.enqueue (some runId) suspended now entry },
        t.note (.offer runId suspended now entry)⟩ := by
  obtain ⟨dropped, hadm⟩ := admitted_enqueue runId suspended now t.process.sink entry
  obtain ⟨lost, hlost, hperm⟩ := h.exact
  obtain ⟨hfits, hgap⟩ := admitEntry_fits h.gap runId suspended now entry
  obtain ⟨hstart, hcount⟩ := fold_gap (some runId) (t.process.sink.admitEntry suspended now entry).1
    (t.process.sink.admitEntry suspended now entry).2
  have hstamped : stampFrom 0 (admissions (t.note (.offer runId suspended now entry))) =
      t.stamped ++ stampFrom t.process.sink.seq
        ((t.process.sink.admitEntry suspended now entry).2.map fun entry => (runId, entry)) := by
    have hseq : 0 + (admissions t.offers).length = t.process.sink.seq := by
      rw [Nat.zero_add, h.seq, stamped, length_stampFrom]
    rw [note, admissions_snoc, stampFrom_append, hseq]
    rfl
  refine ⟨hadm.kind.trans h.kind, h.orphans, ?_, h.wrote.trans hadm.wrote.symm,
    ⟨lost ++ dropped, ?_, ?_⟩, ?_, ?_, ?_⟩
  · show _ = (stampFrom 0 (admissions (t.note (.offer runId suspended now entry)))).length
    rw [hstamped, List.length_append, length_stampFrom, ← h.seq]
    exact hadm.seq
  · rw [List.length_append, hlost]
    exact hadm.counted.symm
  · show List.Perm _ (stampFrom 0 (admissions (t.note (.offer runId suspended now entry))))
    rw [hstamped, List.append_assoc lost]
    refine .trans ?_ (hperm.append_right _)
    simp only [List.append_assoc]
    refine .append_left _ (.append_left _ ?_)
    rw [← List.append_assoc t.process.failed.flatten, ← List.append_assoc t.process.failed.flatten]
    refine List.perm_append_comm_assoc _ _ _ |>.trans ?_
    exact hadm.parts.append_left _
  · show List.Sublist _ (stampFrom 0 (admissions (t.note (.offer runId suspended now entry))))
    rw [hstamped]
    refine .trans ?_ (h.ordered.append_right _)
    simp only [List.append_assoc]
    exact .append (.refl _) (.append (.refl _) hadm.ordered)
  · intro hopen
    obtain ⟨hstudy, hgap⟩ := hgap (hstart.symm.trans hopen)
    refine ⟨hadm.kind.trans hstudy, ?_⟩
    exact hcount ▸ hgap
  · intro i o ho
    rcases Nat.lt_or_ge i t.offers.length with hi | hi
    · have hsome : t.offers[i]? = some o := by
        rw [← ho]
        exact (List.getElem?_append_left hi).symm
      have htake : (t.note (.offer runId suspended now entry)).take i = t.offers.take i :=
        List.take_append_of_le_length hi.le
      rw [htake]
      exact h.fits i o hsome
    · have hlast : i = t.offers.length := by
        have hlt := (List.getElem?_eq_some_iff.mp ho).1
        rw [note, List.length_append, List.length_singleton] at hlt
        omega
      subst hlast
      have htake : (t.note (.offer runId suspended now entry)).take t.offers.length = t.offers :=
        List.take_left
      rw [htake]
      rw [note, List.getElem?_concat_length] at ho
      rw [← Option.some.inj ho, ← h.kind]
      exact hfits

/-- A drain that finds its file has the whole queue in hand. -/
theorem Kept.beginDrain (h : t.Kept studyRecord) {today : String} {sweepRaises : Bool}
    (hidle : t.process.draining = none)
    (hsound : t.process.sink.queue = [] ∨ targetDate t.process.date today sweepRaises ≠ none) :
    Kept studyRecord ⟨(t.process.beginDrain today sweepRaises).1, t.offers⟩ ∧
      (t.process.beginDrain today sweepRaises).2 = true := by
  by_cases hqueue : t.process.sink.queue = []
  · rw [Process.beginDrain, if_pos hqueue]
    exact ⟨h, rfl⟩
  · obtain ⟨date, hdate⟩ := Option.ne_none_iff_exists'.mp (hsound.resolve_left hqueue)
    rw [Process.beginDrain, if_neg hqueue]
    simp only [hdate]
    refine ⟨?_, trivial⟩
    have hnone : t.underWay = [] := by rw [underWay, hidle]; rfl
    obtain ⟨lost, hlost, hperm⟩ := h.exact
    have hordered := h.ordered
    rw [hnone, List.nil_append] at hperm hordered
    refine ⟨h.kind, h.orphans, h.seq, h.wrote, ⟨lost, hlost, ?_⟩, ?_, h.gap, h.fits⟩
    · show (t.written ++ (lost ++ (_ ++ (t.process.sink.queue ++ [])))).Perm _
      rw [List.append_nil]
      exact hperm
    · show (t.written ++ (t.process.sink.queue ++ [])).Sublist _
      rw [List.append_nil]
      exact hordered

/-- A thread appends its batch, or nothing of it. -/
theorem Kept.endDrain (h : t.Kept studyRecord) {drain : Drain} {fails : Option ℕ}
    (hdrain : t.process.draining = some drain) (hsound : ∀ lines, fails = some lines → lines = 0) :
    Kept studyRecord ⟨t.process.endDrain drain fails, t.offers⟩ := by
  have hbatch : t.underWay = drain.batch := by rw [underWay, hdrain]; rfl
  obtain ⟨lost, hlost, hperm⟩ := h.exact
  have hordered := h.ordered
  rw [hbatch] at hperm hordered
  have hlines : (drain.batch.map fun record => (drain.date, record)).map Prod.snd =
    drain.batch := by
    rw [List.map_map]
    exact List.map_id drain.batch
  cases fails with
  | none =>
    have hwritten : written ⟨t.process.endDrain drain none, t.offers⟩ =
      t.written ++ drain.batch := by
      rw [written, Process.endDrain, Process.appendBatch, List.map_append, hlines]
      rfl
    refine ⟨h.kind, h.orphans, h.seq, ?_, ⟨lost, hlost, ?_⟩, ?_, h.gap, h.fits⟩
    · rw [hwritten, List.length_append, h.wrote]
      rfl
    · rw [hwritten, List.append_assoc]
      refine .trans (.append_left _ ?_) hperm
      refine .trans (List.perm_append_comm_assoc _ _ _) (.append_left _ ?_)
      exact List.perm_append_comm_assoc _ _ _
    · rw [hwritten, List.append_assoc]
      exact hordered
  | some lines =>
    obtain rfl := hsound lines rfl
    have hwritten : written ⟨t.process.endDrain drain (some 0), t.offers⟩ = t.written := by
      rw [written, Process.endDrain, Process.appendBatch, List.map_append]
      exact List.append_nil _
    refine ⟨h.kind, h.orphans, h.seq, ?_, ⟨lost, hlost, ?_⟩, ?_, h.gap, h.fits⟩
    · rw [hwritten, h.wrote]
      rfl
    · have hfailed : (t.process.endDrain drain (some 0)).failed.flatten =
        t.process.failed.flatten ++ drain.batch := by
        rw [Process.endDrain, List.flatten_append, List.flatten_singleton]
        rfl
      rw [hwritten, hfailed, List.append_assoc t.process.failed.flatten]
      exact hperm
    · rw [hwritten]
      refine .trans (.append (.refl _) ?_) hordered
      exact List.sublist_append_right _ _

/-- Every sound step keeps the account. -/
theorem Kept.next (h : t.Kept studyRecord) (hsound : t.Sound a) (hnext : t.Next a t') :
    t'.Kept studyRecord := by
  obtain ⟨p, hstep, rfl⟩ := Option.map_eq_some_iff.mp hnext
  cases a with
  | start =>
    simp only [Process.step] at hstep
    split_ifs at hstep with hbusy hidle
    all_goals
      cases hstep
      exact h.of_same rfl rfl rfl rfl rfl
  | offer runId suspended now entry =>
    cases hstep
    exact h.offer runId suspended now entry
  | drain today sweepRaises =>
    simp only [Process.step] at hstep
    split_ifs at hstep with hguard hfound <;> cases hstep
    · exact (h.beginDrain (Option.isNone_iff_eq_none.mp hguard.2) hsound).1
    · exact absurd (h.beginDrain (Option.isNone_iff_eq_none.mp hguard.2) hsound).2 hfound
  | appendEnds fails =>
    obtain ⟨drain, hdrain, hend⟩ := Option.map_eq_some_iff.mp hstep
    cases hend
    refine h.endDrain hdrain ?_
    rintro lines rfl
    exact hsound
  | taskEnds =>
    simp only [Process.step] at hstep
    split_ifs at hstep
    cases hstep
    exact h.of_same rfl rfl rfl rfl rfl
  | stop =>
    cases hstep
    exact h.of_same rfl rfl rfl rfl rfl
  | stopTimesOut =>
    simp only [Process.step] at hstep
    split_ifs at hstep
    cases hstep
    have hnone : t.process.draining = none := hsound
    refine h.of_same rfl hnone.symm ?_ rfl rfl
    show t.process.orphans ++ t.process.draining.toList = _
    rw [hnone]
    exact List.append_nil _
  | flush today sweepRaises =>
    simp only [Process.step] at hstep
    split_ifs at hstep with hguard
    cases hstep
    exact (h.beginDrain (Option.isNone_iff_eq_none.mp hguard.2.2) hsound).1.of_same rfl rfl
      rfl rfl rfl
  | orphanEnds i fails =>
    -- No thread was left behind.
    rw [Process.step, h.orphans, List.getElem?_nil] at hstep
    cases hstep

end Tracked

end Account

end Kaine.JsonlSink
