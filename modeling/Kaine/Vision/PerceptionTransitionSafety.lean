import Kaine.Lib.Threads
import Kaine.Vision.PerceptionTransition
import Mathlib.Tactic.Linarith

/-! The crossfade counts the perceived time while the controller is up to date, and ends once. -/
namespace Kaine.PerceptionTransition

open Kaine.Vision

variable {config : Config} {c : Controller} {s : System} {todo : List Action} {now : ℚ}

/-- No crossfade completes that was not announced before. -/
def StartedFirst (phases : List Phase) : Prop :=
  ∀ earlier later, phases = earlier ++ .completed :: later → .started ∈ earlier

/-- What the crossfade promises at every moment of a boot. -/
structure Exact (config : Config) (s : System) : Prop where
  counted : s.controller.progressAt s.now = s.perceivedTime
  held : transitionHolder ∈ s.clock.holders ↔ s.releases = 0
  releasedOnce : s.releases + s.threads.flatten.count .release = if s.controller.released then 1
    else 0
  finalOnce : s.phases.countP Phase.isFinal = if s.controller.released then 1 else 0
  completedInTime : .completed ∈ s.phases → config.transitionSeconds ≤ s.perceivedTime
  startedOnce : s.phases.count .started ≤ 1
  startedFirst : StartedFirst (s.emitted.map Event.phase)

namespace Controller

@[simp] theorem progressAt_closeSegment : (c.closeSegment now).progressAt now = c.progressAt now :=
  rfl

/-- What an update may open, or leave closed. -/
theorem update_eq (perceived : Option Bool) (holders : Finset String) :
    c.update perceived holders now =
      if c.started ∧ ¬c.released ∧ perceived.getD c.perceived ∧ others holders = ∅ then
        { c with
          progress := c.progressAt now
          perceived := perceived.getD c.perceived
          segmentStart := some now
          announced := true
          pending := if c.announced then c.pending else c.pending ++ [.started] }
      else
        { c with
          progress := c.progressAt now
          perceived := perceived.getD c.perceived
          segmentStart := none } :=
  rfl

@[simp] theorem started_update (perceived : Option Bool) (holders : Finset String) :
    (c.update perceived holders now).started = c.started := by
  rw [update_eq]
  split_ifs <;> rfl

@[simp] theorem released_update (perceived : Option Bool) (holders : Finset String) :
    (c.update perceived holders now).released = c.released := by
  rw [update_eq]
  split_ifs <;> rfl

theorem arm_eq (c : Controller) (config : Config) (now : ℚ) :
    ∃ timer, c.arm config now = { c with timer := timer } := by
  unfold arm
  split_ifs
  · exact ⟨c.timer, rfl⟩
  · exact ⟨_, rfl⟩

/-- A segment is open, since a moment that has passed, exactly while what was taken in lets the
crossfade run. -/
structure Segment (c : Controller) (holders : Finset String) (now : ℚ) : Prop where
  begun : ∀ began, c.segmentStart = some began → began ≤ now
  opened : c.segmentStart.isSome ↔ c.started ∧ ¬c.released ∧ c.perceived ∧ others holders = ∅

variable {holders : Finset String}

theorem segment_update (perceived : Option Bool) (holders : Finset String) :
    (c.update perceived holders now).Segment holders now := by
  rw [update_eq]
  split
  next h =>
    refine ⟨?_, by simpa using h⟩
    rintro began hbegan
    exact (Option.some.inj hbegan).symm.le
  next h => exact ⟨by simp, by simpa using h⟩

theorem segment_finish (phase : Phase) : (c.finish phase).Segment holders now :=
  ⟨by simp [finish], by simp [finish]⟩

end Controller

/-- What the events that were `sent` on and the calls that release the holder add up to. -/
structure Ledger (config : Config) (c : Controller) (sent : List Phase) (releases : ℕ) : Prop where
  released : releases = if c.released then 1 else 0
  final : (sent ++ c.pending).countP Phase.isFinal = if c.released then 1 else 0
  started : (sent ++ c.pending).count .started = if c.announced then 1 else 0
  completed : .completed ∈ sent ++ c.pending → c.released ∧ config.transitionSeconds ≤ c.progress
  unannounced : c.announced = false → c.progress = 0 ∧ c.segmentStart = none
  ended : c.released → c.segmentStart = none
  settled : .completed ∈ sent → .started ∉ c.pending

namespace Ledger

variable {sent sent' : List Phase} {releases : ℕ}

theorem perm (h : Ledger config c sent releases) (hperm : sent.Perm sent') :
    Ledger config c sent' releases := by
  have hall := hperm.append_right c.pending
  refine ⟨h.released, ?_, ?_, ?_, h.unannounced, h.ended, ?_⟩
  · rw [← hall.countP_eq]
    exact h.final
  · rw [← hall.count_eq]
    exact h.started
  · intro hmem
    exact h.completed (hall.mem_iff.mpr hmem)
  · intro hmem
    exact h.settled (hperm.mem_iff.mpr hmem)

theorem not_completed (h : Ledger config c sent releases) (hrun : ¬c.released) :
    .completed ∉ sent ++ c.pending := fun hmem => hrun (h.completed hmem).1

theorem closeSegment (h : Ledger config c sent releases) (now : ℚ) :
    Ledger config (c.closeSegment now) sent releases := by
  refine ⟨h.released, h.final, h.started, ?_, ?_, fun _ => rfl, h.settled⟩
  · intro hmem
    obtain ⟨hreleased, hle⟩ := h.completed hmem
    have hsame : c.progressAt now = c.progress := by simp [Controller.progressAt, h.ended hreleased]
    refine ⟨hreleased, ?_⟩
    simpa only [Controller.closeSegment, hsame] using hle
  · intro hquiet
    obtain ⟨hzero, hnone⟩ := h.unannounced hquiet
    refine ⟨?_, rfl⟩
    simpa [Controller.closeSegment, Controller.progressAt, hnone] using hzero

/-- The first segment announces the start; what follows it does not. -/
theorem update (h : Ledger config c sent releases) (hrun : ¬c.released) (perceived : Option Bool)
    (holders : Finset String) (now : ℚ) :
    Ledger config (c.update perceived holders now) sent releases := by
  have hnone := h.not_completed hrun
  have hsent : .completed ∉ sent := fun hmem => hnone (List.mem_append_left _ hmem)
  have hfinal := h.final
  have hstarted := h.started
  rw [Controller.update_eq]
  split
  next hopens =>
    refine ⟨h.released, ?_, ?_, ?_, fun hquiet => (by cases hquiet),
      fun hended => absurd hended hrun, fun hmem => absurd hmem hsent⟩
    · by_cases hsaid : c.announced
      · simpa [hsaid] using hfinal
      · simpa [hsaid, Phase.isFinal] using hfinal
    · by_cases hsaid : c.announced
      · simpa [hsaid] using hstarted
      · have hnever : sent.count .started + c.pending.count .started = 0 := by
          simpa [hsaid] using hstarted
        simp only [hsaid, Bool.false_eq_true, if_false, List.count_append,
          List.count_singleton_self, if_true]
        omega
    · intro hmem
      by_cases hsaid : c.announced
      · exact absurd (by simpa [hsaid] using hmem) hnone
      · exact absurd (by simpa [hsaid] using hmem) hnone
  next hshut =>
    have hclosed := h.closeSegment now
    exact ⟨h.released, h.final, h.started, hclosed.completed, hclosed.unannounced, fun _ => rfl,
      h.settled⟩

/-- The end of the crossfade is the one final event, and owes the holder its one release. -/
theorem finish (h : Ledger config c sent releases) (hrun : ¬c.released) {phase : Phase}
    (hfinal : phase.isFinal) (hdone : phase = .completed → config.transitionSeconds ≤ c.progress) :
    Ledger config (c.finish phase) sent (releases + 1) := by
  have hnone := h.not_completed hrun
  have hsent : .completed ∉ sent := fun hmem => hnone (List.mem_append_left _ hmem)
  have hne : phase ≠ .started := by
    rintro rfl
    cases hfinal
  refine ⟨?_, ?_, ?_, ?_, ?_, fun _ => rfl, fun hmem => absurd hmem hsent⟩
  · have hreleases := h.released
    rw [if_neg hrun] at hreleases
    simp [Controller.finish, hreleases]
  · have hcount := h.final
    rw [if_neg hrun] at hcount
    have hmore : (sent ++ (c.pending ++ [phase])).countP Phase.isFinal = 1 := by
      rw [← List.append_assoc, List.countP_append, hcount, List.countP_singleton, if_pos hfinal]
    simpa only [Controller.finish, if_true] using hmore
  · have hmore : (sent ++ (c.pending ++ [phase])).count .started =
      (sent ++ c.pending).count .started := by
      rw [← List.append_assoc, List.count_append, List.count_singleton, if_neg (by simpa using hne)]
      rfl
    exact hmore.trans h.started
  · intro hmem
    have hmem : .completed ∈ sent ++ c.pending ∨ .completed = phase := by
      simpa [Controller.finish, or_assoc] using hmem
    rcases hmem with hbefore | rfl
    · exact absurd hbefore hnone
    · exact ⟨rfl, hdone rfl⟩
  · intro hquiet
    exact ⟨(h.unannounced hquiet).1, rfl⟩

theorem flush (h : Ledger config c sent releases) :
    Ledger config { c with pending := [] } (sent ++ c.pending) releases := by
  have hall : sent ++ c.pending ++ [] = sent ++ c.pending := List.append_nil _
  exact ⟨h.released, hall.symm ▸ h.final, hall.symm ▸ h.started, hall.symm ▸ h.completed,
    h.unannounced, h.ended, fun _ => List.not_mem_nil⟩

/-- The fields that the code of the surfaces and of the timer sets do not count. -/
theorem of_setters (h : Ledger config c sent releases) (videoPresent started : Bool)
    (timer : Option ℚ) : Ledger config
      { c with videoPresent := videoPresent, started := started, timer := timer } sent releases :=
  ⟨h.released, h.final, h.started, h.completed, h.unannounced, h.ended, h.settled⟩

end Ledger

namespace System

/-- What holds of every state with `todo` all that its threads have left. -/
structure Inv (config : Config) (s : System) (todo : List Action) : Prop where
  ledger : Ledger config s.controller (s.sent todo) (s.releases + todo.count .release)
  segment : s.controller.Segment s.takenIn s.now
  held : transitionHolder ∈ s.clock.holders ↔ s.releases = 0

variable {todo' : List Action} {a : Action}

theorem Inv.perm (h : s.Inv config todo) (hperm : todo.Perm todo') : s.Inv config todo' := by
  have hsent : (s.sent todo).Perm (s.sent todo') := (hperm.filterMap _).append_left _
  refine ⟨?_, h.segment, h.held⟩
  rw [← hperm.count_eq]
  exact h.ledger.perm hsent

/-- An action that neither releases nor emits does not count. -/
theorem inv_cons (hrelease : a ≠ .release) (hemits : a.emits? = none) :
    s.Inv config (a :: todo) ↔ s.Inv config todo := by
  have hsent : s.sent (a :: todo) = s.sent todo := by simp [sent, hemits]
  have hcount : (a :: todo).count .release = todo.count .release := List.count_cons_of_ne hrelease
  constructor
  · intro h
    exact ⟨hsent ▸ hcount ▸ h.ledger, h.segment, h.held⟩
  · intro h
    refine ⟨?_, h.segment, h.held⟩
    rw [hsent, hcount]
    exact h.ledger

@[simp] theorem inv_sample {method : Sampling} : s.Inv config (.sample method :: todo) ↔
    s.Inv config todo :=
  inv_cons (by simp) rfl

@[simp] theorem inv_apply {method : Sampling} {perceived : Option Bool} :
    s.Inv config (.apply method perceived :: todo) ↔ s.Inv config todo :=
  inv_cons (by simp) rfl

@[simp] theorem inv_deliver {holders : Finset String} :
    s.Inv config (.deliver holders :: todo) ↔ s.Inv config todo :=
  inv_cons (by simp) rfl

@[simp] theorem inv_flush : s.Inv config (.flush :: todo) ↔ s.Inv config todo :=
  inv_cons (by simp) rfl

@[simp] theorem inv_rearm : s.Inv config (.rearm :: todo) ↔ s.Inv config todo :=
  inv_cons (by simp) rfl

theorem Inv.takeIn (h : s.Inv config todo) (hrun : ¬s.controller.released) (perceived : Option Bool)
    (holders : Finset String) : (s.takeIn perceived holders).Inv config todo :=
  ⟨h.ledger.update hrun perceived holders s.now,
    Controller.segment_update perceived holders, h.held⟩

theorem inv_finish (hledger : Ledger config c (s.sent todo) (s.releases + todo.count .release))
    (hheld : transitionHolder ∈ s.clock.holders ↔ s.releases = 0) (hrun : ¬c.released)
    {phase : Phase}
    (hfinal : phase.isFinal) (hdone : phase = .completed → config.transitionSeconds ≤ c.progress) :
    Inv config { s with controller := c.finish phase } (.release :: .flush :: todo) := by
  have hfinish := hledger.finish hrun hfinal hdone
  have hcount : (.release :: .flush :: todo).count .release = todo.count .release + 1 := by
    rw [List.count_cons_self, List.count_cons_of_ne (by simp)]
  refine ⟨?_, Controller.segment_finish phase, hheld⟩
  rw [hcount]
  exact hfinish

theorem Inv.pauseClock (h : s.Inv config todo) {holder : String}
    (hother : holder ≠ transitionHolder) :
    (s.pauseClock holder).1.Inv config ((s.pauseClock holder).2 ++ todo) := by
  unfold System.pauseClock
  split_ifs
  · exact h
  · refine inv_deliver.mpr ⟨h.ledger, h.segment, ?_⟩
    have hne : transitionHolder ≠ holder := hother.symm
    simpa [hne] using h.held

theorem Inv.resumeClock (h : s.Inv config todo) {holder : String}
    (hother : holder ≠ transitionHolder) :
    (s.resumeClock holder).1.Inv config ((s.resumeClock holder).2 ++ todo) := by
  unfold System.resumeClock
  split_ifs
  · refine inv_deliver.mpr ⟨h.ledger, h.segment, ?_⟩
    have hne : transitionHolder ≠ holder := hother.symm
    simpa [hne] using h.held
  · exact h

/-- The thread that finished takes the holder off the clock, which still had it. -/
theorem Inv.release (h : s.Inv config (.release :: todo)) :
    Inv config ({ s with releases := s.releases + 1 }.resumeClock transitionHolder).1
      (({ s with releases := s.releases + 1 }.resumeClock transitionHolder).2 ++ todo) := by
  have hledger := h.ledger
  have hcount : (.release :: todo).count .release = todo.count .release + 1 := List.count_cons_self
  rw [hcount] at hledger
  have hone : s.releases + (todo.count .release + 1) ≤ 1 := by
    rw [hledger.released]
    split_ifs <;> omega
  have hzero : s.releases = 0 := by omega
  have hmem : transitionHolder ∈ s.clock.holders := h.held.mpr hzero
  have hsum : s.releases + (todo.count .release + 1) = s.releases + 1 + todo.count .release := by
    omega
  unfold System.resumeClock
  rw [if_pos hmem]
  refine inv_deliver.mpr ⟨?_, h.segment, ?_⟩
  · rw [hsum] at hledger
    exact hledger
  · simp

theorem Inv.flush (h : s.Inv config todo) :
    Inv config { s with controller.pending := [] } (s.controller.pending.map .emit ++ todo) := by
  have hemits : (s.controller.pending.map Action.emit).filterMap Action.emits? =
    s.controller.pending := by
    rw [List.filterMap_map]
    exact List.filterMap_some
  have hrelease : (s.controller.pending.map Action.emit).count .release = 0 := by
    simp [List.count_eq_zero]
  have hperm : (s.sent todo ++ s.controller.pending).Perm
      (s.sent (s.controller.pending.map .emit ++ todo)) := by
    unfold sent
    rw [List.filterMap_append, hemits, List.append_assoc]
    exact List.perm_append_comm.append_left _
  refine ⟨?_, ⟨h.segment.begun, h.segment.opened⟩, h.held⟩
  rw [List.count_append, hrelease, Nat.zero_add]
  exact h.ledger.flush.perm hperm

theorem Inv.emit (h : s.Inv config (.emit phase :: todo)) (seconds : ℚ) :
    Inv config { s with emitted := s.emitted ++ [⟨phase, seconds⟩] } todo := by
  have hsent : s.sent (.emit phase :: todo) =
      sent { s with emitted := s.emitted ++ [⟨phase, seconds⟩] } todo := by
    simp [sent, Action.emits?]
  have hcount : (.emit phase :: todo).count .release = todo.count .release :=
    List.count_cons_of_ne (by simp)
  refine ⟨?_, h.segment, h.held⟩
  have hledger := h.ledger
  rw [hsent, hcount] at hledger
  exact hledger

theorem Inv.arm (h : s.Inv config todo) :
    Inv config { s with controller := s.controller.arm config s.now } todo := by
  obtain ⟨timer, htimer⟩ := s.controller.arm_eq config s.now
  rw [htimer]
  exact ⟨h.ledger.of_setters _ _ timer, ⟨h.segment.begun, h.segment.opened⟩, h.held⟩

theorem Inv.applyStart (h : s.Inv config todo) (perceived : Option Bool) :
    (s.applyStart config perceived).1.Inv config ((s.applyStart config perceived).2 ++ todo) := by
  unfold System.applyStart
  split_ifs with hskip
  · exact h
  · have hrun : ¬s.controller.released := fun hreleased => hskip (.inr hreleased)
    have hledger := h.ledger.of_setters s.controller.videoPresent true s.controller.timer
    have hupdate := hledger.update hrun perceived s.clock.holders s.now
    have hheld := h.held
    have hholders : (s.clock.start none s.now).holders = s.clock.holders :=
      PlaylistClock.holders_start _ _ _
    refine inv_flush.mpr (Inv.arm ⟨?_, Controller.segment_update perceived _, ?_⟩)
    · rw [← hholders] at hupdate
      exact hupdate
    · rw [← hholders] at hheld
      exact hheld

theorem Inv.applyPoll (h : s.Inv config todo) (perceived : Option Bool) :
    (s.applyPoll config perceived).1.Inv config ((s.applyPoll config perceived).2 ++ todo) := by
  unfold System.applyPoll
  by_cases hreleased : s.controller.released
  · rw [if_pos hreleased]
    exact h
  · have htaken := h.takeIn hreleased perceived s.clock.holders
    have hrun : ¬(s.takeIn perceived s.clock.holders).controller.released := by
      simpa [System.takeIn] using hreleased
    rw [if_neg hreleased]
    dsimp only
    split
    next hdone => exact inv_finish htaken.ledger htaken.held hrun rfl (fun _ => hdone)
    next => exact inv_flush.mpr htaken

theorem Inv.onHolders (h : s.Inv config todo) (holders : Finset String) :
    (s.onHolders holders).1.Inv config ((s.onHolders holders).2 ++ todo) := by
  unfold System.onHolders
  split_ifs with hskip
  · exact h
  · have hrun : ¬s.controller.released := fun hreleased => hskip (.inr hreleased)
    exact inv_flush.mpr (h.takeIn hrun none holders)

theorem Inv.act (h : s.Inv config (a :: todo)) (perceiving : Option Bool) :
    (s.act config perceiving a).1.Inv config ((s.act config perceiving a).2 ++ todo) := by
  cases a with
  | sample method =>
    have hrest := inv_sample.mp h
    exact inv_apply.mpr ⟨hrest.ledger, hrest.segment, hrest.held⟩
  | apply method perceived =>
    have hrest := inv_apply.mp h
    cases method with
    | start => exact hrest.applyStart perceived
    | poll => exact hrest.applyPoll perceived
  | release => exact h.release
  | deliver holders => exact (inv_deliver.mp h).onHolders holders
  | flush => exact (inv_flush.mp h).flush
  | emit phase => exact h.emit config.transitionSeconds
  | rearm => exact (inv_rearm.mp h).arm

theorem Inv.enterPoll (h : s.Inv config todo) : s.Inv config (s.enterPoll ++ todo) := by
  unfold System.enterPoll
  split_ifs
  · exact h
  · exact inv_sample.mpr h
  · exact h

theorem Inv.enter (h : s.Inv config todo) (entry : Call) :
    (s.enter entry).1.Inv config ((s.enter entry).2 ++ todo) := by
  cases entry with
  | start surface =>
    simp only [System.enter]
    split_ifs
    · exact h
    · exact h
    · exact inv_sample.mpr h
  | poll => exact h.enterPoll
  | timer =>
    have hrearm := (inv_rearm.mpr h).enterPoll
    simpa [System.enter] using hrearm
  | abort reason =>
    simp only [System.enter]
    split_ifs with hreleased
    · exact h
    · exact inv_finish (h.ledger.closeSegment s.now) h.held hreleased rfl
        (fun habsurd => by cases habsurd)
  | setVideoPresent present =>
    exact ⟨h.ledger.of_setters present _ _, ⟨h.segment.begun, h.segment.opened⟩, h.held⟩
  | pause holder hother => exact h.pauseClock hother
  | resume holder hother => exact h.resumeClock hother

theorem Inv.later (h : s.Inv config todo) {d : ℚ} (hd : 0 ≤ d) (perceivedTime : ℚ) :
    Inv config { s with now := s.now + d, perceivedTime := perceivedTime } todo := by
  refine ⟨h.ledger, ⟨?_, h.segment.opened⟩, h.held⟩
  intro began hbegan
  exact (h.segment.begun began hbegan).trans (le_add_of_nonneg_right hd)

theorem Inv.step (h : s.Inv config s.threads.flatten) (step : Step) :
    (s.step config step).Inv config (s.step config step).threads.flatten := by
  cases step with
  | wait d hd => exact h.later hd _
  | call entry =>
    have henter := h.enter entry
    have hperm : ((s.enter entry).2 ++ s.threads.flatten).Perm
      (s.threads ++ [(s.enter entry).2]).flatten := by
      rw [List.flatten_append, List.flatten_singleton]
      exact List.perm_append_comm
    obtain ⟨hledger, hsegment, hheld⟩ := henter.perm hperm
    exact ⟨hledger, hsegment, hheld⟩
  | run i perceiving =>
    cases hi : s.threads[i]? with
    | none => simpa [System.step, hi] using h
    | some thread =>
      cases thread with
      | nil => simpa [System.step, hi] using h
      | cons a rest =>
        obtain ⟨others, hall, hset⟩ := Threads.exists_perm_set hi
        have hact := (h.perm hall).act perceiving
        obtain ⟨hledger, hsegment, hheld⟩ := hact.perm (hset (s.act config perceiving a).2).symm
        simp only [System.step, hi]
        exact ⟨hledger, hsegment, hheld⟩

/-- Only time moves a count, and only an action that emits is heard. -/
structure Still (s t : System) (heard : List Event) : Prop where
  perceivedTime : t.perceivedTime = s.perceivedTime
  progressAt : t.controller.progressAt t.now = s.controller.progressAt s.now
  emitted : t.emitted = s.emitted ++ heard

theorem Still.refl (s : System) : s.Still s [] := ⟨rfl, rfl, (List.append_nil _).symm⟩

end System

end Kaine.PerceptionTransition
