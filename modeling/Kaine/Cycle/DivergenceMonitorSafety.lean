import Kaine.Cycle.DivergenceMonitor
import Kaine.Lib.Transition
import Mathlib.Tactic.FinCases

/-! The divergence monitor preserves on rising edges: an arm counts as seen only once a preservation
for it has succeeded, and the preservations of one process keep their distance. -/
namespace Kaine.Divergence
open Py Transition DivergenceMonitor

theorem activeArms_subset (assessment : DivergenceAssessment) :
    activeArms assessment ⊆ armNames := by
  have hbranch : ∀ (c : Prop) [Decidable c] (a b : Finset String), a ⊆ armNames → b ⊆ armNames →
      (if c then a else b) ⊆ armNames := by
    intro c _ a b ha hb
    split
    · exact ha
    · exact hb
  have hsignalled : ((armSignals.filter fun row =>
      (Dict.get assessment.signals row.2).truthy).map Prod.fst).toFinset ⊆ armNames := by
    intro arm harm
    obtain ⟨row, hrow, rfl⟩ := List.mem_map.mp (List.mem_toFinset.mp harm)
    have hall : ∀ row ∈ armSignals, row.1 ∈ armNames := by decide
    exact hall row (List.mem_filter.mp hrow).1
  apply hbranch
  · decide
  · exact Finset.union_subset hsignalled (hbranch _ _ _ (by decide) (Finset.empty_subset _))

/-- The edge file reads back what was written to it. -/
theorem loadEdgeArms_edgePayload (repr : Json → String) {arms : Finset String}
    (h : arms ⊆ armNames) (updatedAt : String) :
    loadEdgeArms repr (.data (edgePayload arms updatedAt)) = arms := by
  have hstored : ∀ arm ∈ armNames, mapStoredValue arm = arm := by decide
  have hread : loadEdgeArms repr (.data (edgePayload arms updatedAt)) =
      mapArms repr ((arms.sort (· ≤ ·)).map .str) := rfl
  rw [hread]
  ext arm
  simp only [mapArms, List.mem_toFinset, List.mem_map, Finset.mem_sort, List.map_map,
    Function.comp_apply, pyStr]
  constructor
  · rintro ⟨name, hname, rfl⟩
    rwa [hstored name (h hname)]
  · intro harm
    exact ⟨arm, harm, hstored arm (h harm)⟩

variable {T : Type} [Sub T] [LinearOrder T] {config : DivergenceMonitorConfig T}
  {m : DivergenceMonitor T} {file : EdgeFile} {p : Poll T} {s t : System T}

/-- What a poll can do, with the arms that its assessment finds. -/
inductive PollDoes (config : DivergenceMonitorConfig T) (m : DivergenceMonitor T) (file : EdgeFile)
    (p : Poll T) : Report × DivergenceMonitor T × EdgeFile → Prop where
  | settling : PollDoes config m file p (.quiet, m, file)
  | unassessed : PollDoes config m file p
      (.quiet, { m with lastArms := some (m.recorded config file) }, file)
  | shrunk (a : DivergenceAssessment) (hp : p.assessment = some a)
      (hold : activeArms a ⊆ m.recorded config file) : PollDoes config m file p
      (.quiet, { m with lastArms := some (activeArms a) }, saveEdgeArms p (activeArms a) file)
  | limited (a : DivergenceAssessment) (hp : p.assessment = some a)
      (hlimit : m.rateLimited config p.now = true) : PollDoes config m file p
      (.rateLimited (activeArms a \ m.recorded config file),
        { m with lastArms := some (m.recorded config file) }, file)
  | failed (a : DivergenceAssessment) (hp : p.assessment = some a)
      (hnew : (activeArms a \ m.recorded config file).Nonempty)
      (hlimit : m.rateLimited config p.now = false) : PollDoes config m file p
      (.failed (activeArms a \ m.recorded config file),
        { m with lastArms := some (m.recorded config file) }, file)
  | interrupted (a : DivergenceAssessment) (hp : p.assessment = some a)
      (hnew : (activeArms a \ m.recorded config file).Nonempty)
      (hlimit : m.rateLimited config p.now = false) : PollDoes config m file p
      (.preserved (activeArms a \ m.recorded config file),
        { m with lastArms := some (m.recorded config file), lastPreserveAt := some p.now }, file)
  | preserved (a : DivergenceAssessment) (hp : p.assessment = some a)
      (hnew : (activeArms a \ m.recorded config file).Nonempty)
      (hlimit : m.rateLimited config p.now = false) : PollDoes config m file p
      (.preserved (activeArms a \ m.recorded config file),
        { m with lastArms := some (activeArms a), lastPreserveAt := some p.now },
        saveEdgeArms p (activeArms a) file)

theorem pollOnce_does (config : DivergenceMonitorConfig T) (m : DivergenceMonitor T)
    (file : EdgeFile) (p : Poll T) :
    PollDoes config m file p (m.pollOnce config file p) := by
  unfold pollOnce
  split
  · exact .settling
  · cases ha : p.assessment with
    | none => exact .unassessed
    | some a =>
      simp only [pollArms]
      by_cases hnew : activeArms a \ m.recorded config file = ∅
      · rw [if_pos hnew]
        have hold : activeArms a ⊆ m.recorded config file :=
          Finset.sdiff_eq_empty_iff_subset.mp hnew
        split
        · exact .shrunk a ha hold
        · exact .unassessed
      · rw [if_neg hnew]
        have hnonempty := Finset.nonempty_iff_ne_empty.mpr hnew
        have hlimited : DivergenceMonitor.rateLimited config
            { m with lastArms := some (m.recorded config file) } p.now =
              m.rateLimited config p.now := rfl
        rw [hlimited]
        cases hlimit : m.rateLimited config p.now with
        | true => exact .limited a ha hlimit
        | false =>
          rw [if_neg (by simp)]
          cases hpreserve : p.preserve with
          | fails => exact .failed a ha hnonempty hlimit
          | interrupted => exact .interrupted a ha hnonempty hlimit
          | ok => exact .preserved a ha hnonempty hlimit

/-- An arm was recorded when the monitor first ran, or a preservation for it has succeeded. -/
def Known (config : DivergenceMonitorConfig T) (file : EdgeFile) (s : System T) (arm : String) :
    Prop :=
  arm ∈ loadEdgeArms config.repr file ∨ ∃ p ∈ s.preservations, arm ∈ p.arms

/-- Nothing counts as seen that is not known, in memory or on disk. -/
structure Seen (config : DivergenceMonitorConfig T) (file : EdgeFile) (s : System T) : Prop where
  recorded : ∀ arm ∈ s.recorded config, Known config file s arm
  onDisk : ∀ arm ∈ loadEdgeArms config.repr s.file, Known config file s arm

omit [Sub T] [LinearOrder T] in
/-- A written file holds the arms of the poll. -/
theorem load_saveEdgeArms {repr : Json → String} {p : Poll T} {a : DivergenceAssessment}
    {file : EdgeFile} {arm : String}
    (h : arm ∈ loadEdgeArms repr (saveEdgeArms p (activeArms a) file)) :
    arm ∈ activeArms a ∨ arm ∈ loadEdgeArms repr file := by
  unfold saveEdgeArms at h
  split at h
  · rw [loadEdgeArms_edgePayload repr (activeArms_subset a)] at h
    exact .inl h
  · exact .inr h

/-- A poll records an arm that was recorded before, or that its own preservation is for. -/
theorem PollDoes.recorded {r : Report × DivergenceMonitor T × EdgeFile}
    (h : PollDoes config m file p r) {arm : String} (harm : arm ∈ r.2.1.recorded config r.2.2) :
    arm ∈ m.recorded config file ∨ ∃ q ∈ System.preservation p r.1, arm ∈ q.arms := by
  cases h with
  | settling => exact .inl harm
  | unassessed | limited | failed | interrupted => exact .inl harm
  | shrunk a _ hold => exact .inl (hold harm)
  | preserved a _ _ _ =>
    by_cases hseen : arm ∈ m.recorded config file
    · exact .inl hseen
    · refine .inr ⟨_, List.mem_singleton_self _, ?_⟩
      exact Finset.mem_sdiff.mpr ⟨harm, hseen⟩

/-- A poll writes to disk what it records. -/
theorem PollDoes.onDisk {r : Report × DivergenceMonitor T × EdgeFile}
    (h : PollDoes config m file p r) {arm : String}
    (harm : arm ∈ loadEdgeArms config.repr r.2.2) :
    arm ∈ r.2.1.recorded config r.2.2 ∨ arm ∈ loadEdgeArms config.repr file := by
  cases h with
  | settling | unassessed | limited | failed | interrupted => exact .inr harm
  | shrunk a _ _ => exact load_saveEdgeArms harm
  | preserved a _ _ _ => exact load_saveEdgeArms harm

/-- A poll tries to preserve for just the arms that it finds and that are not recorded. -/
theorem PollDoes.newArms {r : Report × DivergenceMonitor T × EdgeFile}
    (h : PollDoes config m file p r) (hattempts : r.1.attempts = true) :
    r.1.newArms.Nonempty ∧ ∃ a, p.assessment = some a ∧
      r.1.newArms = activeArms a \ m.recorded config file := by
  cases h with
  | settling | unassessed | shrunk | limited => cases hattempts
  | failed a hp hnew _ => exact ⟨hnew, a, hp, rfl⟩
  | interrupted a hp hnew _ => exact ⟨hnew, a, hp, rfl⟩
  | preserved a hp hnew _ => exact ⟨hnew, a, hp, rfl⟩

theorem Known.poll {known : EdgeFile} {arm : String} (h : Known config known s arm) (p : Poll T) :
    Known config known (s.poll config p) arm := by
  rcases h with h | ⟨q, hq, harm⟩
  · exact .inl h
  · exact .inr ⟨q, List.mem_append_right _ hq, harm⟩

theorem seen_poll {known : EdgeFile} (hs : Seen config known s) (p : Poll T) :
    Seen config known (s.poll config p) := by
  have hdoes := pollOnce_does config s.monitor s.file p
  have hrecorded : ∀ arm ∈ (s.poll config p).recorded config,
      Known config known (s.poll config p) arm := by
    intro arm harm
    rcases hdoes.recorded harm with hold | ⟨q, hq, hnew⟩
    · exact (hs.recorded arm hold).poll p
    · exact .inr ⟨q, List.mem_append_left _ hq, hnew⟩
  refine ⟨hrecorded, fun arm harm => ?_⟩
  rcases hdoes.onDisk harm with hnew | hold
  · exact hrecorded arm hnew
  · exact (hs.onDisk arm hold).poll p

theorem seen_step {known : EdgeFile} {move : Move T} (h : Step config s move t)
    (hs : Seen config known s) : Seen config known t := by
  obtain ⟨hallowed, rfl⟩ := h
  cases move with
  | poll p => exact seen_poll hs p
  | restart startedAt => exact ⟨hs.onDisk, hs.onDisk⟩
  | spoil file =>
    have hload : loadEdgeArms config.repr file = ∅ := by
      rcases hallowed with rfl | rfl <;> rfl
    constructor
    · intro arm harm
      apply hs.recorded
      unfold System.step System.recorded DivergenceMonitor.recorded at harm
      unfold System.recorded DivergenceMonitor.recorded
      cases hlast : s.monitor.lastArms with
      | none => simp [hlast, hload] at harm
      | some last => simpa [hlast] using harm
    · intro arm harm
      simp [System.step, hload] at harm

/-- The preservations of a process, in time. -/
structure Paced (config : DivergenceMonitorConfig T) (s : System T) : Prop where
  last : s.monitor.lastPreserveAt = s.here.head?.map Preservation.time
  past : ∀ q ∈ s.here, q.time ≤ s.now
  apart : s.here.Pairwise fun later earlier => config.minIntervalS ≤ later.time - earlier.time

/-- Only a preservation moves the time of the last one, and only when it is long enough past. -/
theorem PollDoes.lastPreserveAt {r : Report × DivergenceMonitor T × EdgeFile}
    (h : PollDoes config m file p r) :
    (System.preservation p r.1 = [] ∧ r.2.1.lastPreserveAt = m.lastPreserveAt) ∨
    (∃ arms, System.preservation p r.1 = [⟨p.now, arms⟩]) ∧
      r.2.1.lastPreserveAt = some p.now ∧ m.rateLimited config p.now = false := by
  cases h with
  | settling | unassessed | shrunk | limited | failed => exact .inl ⟨rfl, rfl⟩
  | interrupted a _ _ hlimit => exact .inr ⟨⟨_, rfl⟩, rfl, hlimit⟩
  | preserved a _ _ hlimit => exact .inr ⟨⟨_, rfl⟩, rfl, hlimit⟩

section
variable (hsub : ∀ a b c : T, a ≤ b → a - c ≤ b - c)

include hsub in
theorem paced_poll (hs : Paced config s) (hnow : s.now ≤ p.now) :
    Paced config (s.poll config p) := by
  rcases (pollOnce_does config s.monitor s.file p).lastPreserveAt with
    ⟨hnone, hlast⟩ | ⟨⟨arms, hnew⟩, hlast, hlimit⟩
  · refine ⟨?_, ?_, ?_⟩ <;> unfold System.poll <;> simp only [hnone, List.nil_append]
    · exact hlast.trans hs.last
    · exact fun q hq => (hs.past q hq).trans hnow
    · exact hs.apart
  · have hapart : ∀ q ∈ s.here, config.minIntervalS ≤ p.now - q.time := by
      intro q hq
      cases hhere : s.here with
      | nil => simp [hhere] at hq
      | cons first rest =>
        have hfirst : config.minIntervalS ≤ p.now - first.time := by
          have htime : s.monitor.lastPreserveAt = some first.time := by
            rw [hs.last, hhere]
            rfl
          simpa [rateLimited, htime] using hlimit
        rw [hhere] at hq
        rcases List.mem_cons.mp hq with rfl | hrest
        · exact hfirst
        · have hbefore := hs.apart
          rw [hhere] at hbefore
          have hpast : first.time ≤ p.now :=
            (hs.past first (by rw [hhere]; exact List.mem_cons_self)).trans hnow
          exact (List.rel_of_pairwise_cons hbefore hrest).trans (hsub _ _ _ hpast)
    refine ⟨?_, ?_, ?_⟩ <;> unfold System.poll <;> simp only [hnew, List.singleton_append]
    · exact hlast
    · intro q hq
      rcases List.mem_cons.mp hq with rfl | hq
      · exact le_rfl
      · exact (hs.past q hq).trans hnow
    · exact List.pairwise_cons.mpr ⟨hapart, hs.apart⟩

include hsub in
theorem paced_step {move : Move T} (h : Step config s move t) (hs : Paced config s) :
    Paced config t := by
  obtain ⟨hallowed, rfl⟩ := h
  cases move with
  | poll p => exact paced_poll hsub hs hallowed
  | restart startedAt => exact ⟨rfl, by simp [System.step, System.restart], List.Pairwise.nil⟩
  | spoil file => exact ⟨hs.last, hs.past, hs.apart⟩

include hsub in
/-- Over every run, with subtraction monotone: what counts as seen was recorded at the start or has
been preserved for; a poll tries to preserve for the arms found that do not count as seen, and
there are some; it newly records only arms that its preservation is for; and the preservations of a
process are the shortest interval apart. -/
theorem preserves_rising_edges {file : EdgeFile} {startedAt : T} {moves : List (Move T)}
    (h : Run (Step config) (System.initial file startedAt) moves s) :
    (∀ arm ∈ s.recorded config, Known config file s arm) ∧
    (∀ p, (s.report config p).attempts = true → (s.report config p).newArms.Nonempty ∧
      ∃ a, p.assessment = some a ∧
        (s.report config p).newArms = activeArms a \ s.recorded config) ∧
    (∀ p, ∀ arm ∈ (s.poll config p).recorded config, arm ∈ s.recorded config ∨
      ∃ q ∈ System.preservation p (s.report config p), arm ∈ q.arms) ∧
    s.here.Pairwise fun later earlier => config.minIntervalS ≤ later.time - earlier.time := by
  have hseen : Seen config file s := by
    refine h.invariant seen_step ?_
    exact ⟨fun arm harm => .inl harm, fun arm harm => .inl harm⟩
  have hpaced : Paced config s := by
    refine h.invariant (paced_step hsub) ?_
    exact ⟨rfl, by simp [System.initial], List.Pairwise.nil⟩
  refine ⟨hseen.recorded, ?_, ?_, hpaced.apart⟩
  · exact fun p hattempts => (pollOnce_does config s.monitor s.file p).newArms hattempts
  · exact fun p arm harm => (pollOnce_does config s.monitor s.file p).recorded harm

end

section
/-- A poll that finds the adapters, preserves and cannot save. -/
def adaptersPoll (now : ℤ) (saves : Bool) : Poll ℤ :=
  ⟨now, some ⟨true, [("sleep_adapters_present", .bool true)]⟩, .ok, saves, "then"⟩

def settled : DivergenceMonitorConfig ℤ := ⟨1800, 120, fun _ => ""⟩

/-- The arms are preserved for, saving fails, and after a restart they are preserved for again. -/
theorem preserves_rising_edges_restart :
    (((System.initial EdgeFile.missing 0).poll settled (adaptersPoll 200 false)).restart 300 |>.poll
      settled (adaptersPoll 500 true)).here.Pairwise
        fun later earlier => settled.minIntervalS ≤ later.time - earlier.time := by
  have hfirst : (0 : ℤ) ≤ 200 := by decide
  have hsecond : (300 : ℤ) ≤ 500 := by decide
  have hrun : Run (Step settled) (System.initial .missing 0)
      [.poll (adaptersPoll 200 false), .restart 300, .poll (adaptersPoll 500 true)] _ :=
    .head ⟨hfirst, rfl⟩ (.head ⟨trivial, rfl⟩ (.head ⟨hsecond, rfl⟩ (.refl _)))
  exact (preserves_rising_edges (fun _ _ _ h => Int.sub_le_sub_right h _) hrun).2.2.2

end

end Kaine.Divergence
