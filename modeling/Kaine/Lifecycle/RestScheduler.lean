import Mathlib.Algebra.Order.BigOperators.Group.List
import Mathlib.Data.Nat.Cast.Order.Field
import Mathlib.Tactic.Linarith

/-! When the next rest is due, and how far it may be put off (`kaine/modules/sleep/scheduler.py`),
in exact arithmetic. Rest cannot be put off without bound. -/
namespace Kaine.Rest

variable {K : Type} [Field K] [LinearOrder K]

/-- Settings that the constructor accepts. -/
structure RestSettings (K : Type) [Field K] [LinearOrder K] where
  interval : K
  maxDeferral : K
  perDefer : K
  interval_pos : 0 < interval
  maxDeferral_nonneg : 0 ≤ maxDeferral
  perDefer_pos : 0 < perDefer

structure RestScheduler (K : Type) where
  originalDueAt : K
  effectiveDueAt : K
  deriving DecidableEq

/-- A shorter deferral is refused. -/
def minDeferral : K := ((1 / 1000 : ℚ) : K)

namespace RestScheduler

/-- The constructor, where the clock reads `now`. -/
def init (settings : RestSettings K) (now : K) : RestScheduler K :=
    ⟨now + settings.interval, now + settings.interval⟩

def totalDeferral (s : RestScheduler K) : K := max 0 (s.effectiveDueAt - s.originalDueAt)

def isDue (settings : RestSettings K) (s : RestScheduler K) (now : K) : Bool :=
  s.effectiveDueAt ≤ now || s.originalDueAt + settings.maxDeferral ≤ now

def tryDefer (settings : RestSettings K) (s : RestScheduler K) (now : K) : Bool × RestScheduler K :=
  if s.originalDueAt + settings.maxDeferral ≤ now then (false, s)
  else
    let proposed := s.effectiveDueAt + settings.perDefer
    let cap := s.originalDueAt + settings.maxDeferral
    let proposed := if cap < proposed then cap else proposed
    if proposed - s.effectiveDueAt < minDeferral then (false, s)
    else (true, { s with effectiveDueAt := proposed })

def markCompleted (settings : RestSettings K) (_s : RestScheduler K) (now : K) : RestScheduler K :=
  ⟨now + settings.interval, now + settings.interval⟩

/-- `original_due_in` and `effective_due_in`. -/
def exportRemaining (s : RestScheduler K) (now : K) : K × K :=
  (s.originalDueAt - now, s.effectiveDueAt - now)

/-- None is the `ValueError` of a negative deferral. -/
def restoreRemaining (_s : RestScheduler K) (originalDueIn effectiveDueIn now : K) :
    Option (RestScheduler K) :=
  if effectiveDueIn < originalDueIn then none else some ⟨now + originalDueIn, now + effectiveDueIn⟩

end RestScheduler

/-- A call, with what the clock reads. A restart exports on the old clock, and makes a scheduler and
restores it on the new one. -/
inductive RestEvent (K : Type) where
  | tryDefer (now : K)
  | completed (now : K)
  | restart (exportedAt startedAt restoredAt : K)

/-- A scheduler with its history: the clock of its last call, the time it has run, the running time
at which the interval began, and the deferrals that the interval has been granted. -/
structure RestRun (K : Type) where
  scheduler : RestScheduler K
  clock : K
  running : K
  begun : K
  deferred : List K

namespace RestRun

def init (settings : RestSettings K) (now : K) : RestRun K := ⟨.init settings now, now, 0, 0, []⟩

/-- The running time when the clock reads `now`. -/
def runningAt (run : RestRun K) (now : K) : K := run.running + (now - run.clock)

def step (settings : RestSettings K) (run : RestRun K) : RestEvent K → RestRun K
  | .tryDefer now =>
    let after := (run.scheduler.tryDefer settings now).2
    { run with
      scheduler := after
      clock := now
      running := run.runningAt now
      deferred :=
        if (run.scheduler.tryDefer settings now).1 then
          run.deferred ++ [after.effectiveDueAt - run.scheduler.effectiveDueAt]
        else run.deferred }
  | .completed now =>
    { scheduler := run.scheduler.markCompleted settings now
      clock := now
      running := run.runningAt now
      begun := run.runningAt now
      deferred := [] }
  | .restart exportedAt startedAt restoredAt =>
    let saved := run.scheduler.exportRemaining exportedAt
    let fresh := RestScheduler.init settings startedAt
    { run with
      scheduler := (fresh.restoreRemaining saved.1 saved.2 restoredAt).getD fresh
      clock := restoredAt
      running := run.runningAt exportedAt }

/-- The clock of a process does not go back. -/
def InOrder (run : RestRun K) : RestEvent K → Prop
  | .tryDefer now | .completed now => run.clock ≤ now
  | .restart exportedAt startedAt restoredAt => run.clock ≤ exportedAt ∧ startedAt ≤ restoredAt

end RestRun

/-- The runs of a scheduler, across any number of restarts. -/
inductive Reaches (settings : RestSettings K) : RestRun K → Prop where
  | init (now : K) : Reaches settings (.init settings now)
  | step {run : RestRun K} {event : RestEvent K} (h : Reaches settings run)
      (horder : run.InOrder event) :
    Reaches settings (run.step settings event)

open RestScheduler

variable {settings : RestSettings K} {s : RestScheduler K} {run : RestRun K} {event : RestEvent K}
  {now : K}

/-- A deferral is refused, and changes nothing, or it moves the due time by enough and within the
cap. -/
theorem tryDefer_cases (settings : RestSettings K) (s : RestScheduler K) (now : K) :
    s.tryDefer settings now = (false, s) ∨
    ∃ due, s.tryDefer settings now = (true, { s with effectiveDueAt := due }) ∧
      minDeferral ≤ due - s.effectiveDueAt ∧ due ≤ s.originalDueAt + settings.maxDeferral := by
  unfold tryDefer
  dsimp only
  split_ifs with hpast hcap hsmall hsmall
  · exact .inl rfl
  · exact .inl rfl
  · exact .inr ⟨_, rfl, not_lt.mp hsmall, le_rfl⟩
  · exact .inl rfl
  · exact .inr ⟨_, rfl, not_lt.mp hsmall, not_lt.mp hcap⟩

theorem tryDefer_refused (h : (s.tryDefer settings now).1 = false) :
    (s.tryDefer settings now).2 = s := by
  rcases tryDefer_cases settings s now with hsame | ⟨due, haccept, -⟩
  · rw [hsame]
  · rw [haccept] at h
    cases h

/-- The due times are those of the interval, measured in running time, and what was granted lies
within the cap. -/
structure Scheduled (settings : RestSettings K) (run : RestRun K) : Prop where
  original : run.scheduler.originalDueAt = run.clock + (run.begun + settings.interval - run.running)
  effective : run.scheduler.effectiveDueAt = run.scheduler.originalDueAt + run.deferred.sum
  granted : ∀ d ∈ run.deferred, minDeferral ≤ d
  capped : run.deferred.sum ≤ settings.maxDeferral

theorem scheduled_init (settings : RestSettings K) (now : K) :
    Scheduled settings (.init settings now) := by
  refine ⟨?_, ?_, fun d hd => (by cases hd), settings.maxDeferral_nonneg⟩
  · simp [RestRun.init, RestScheduler.init]
  · simp [RestRun.init, RestScheduler.init]

section Run
variable [IsStrictOrderedRing K]

theorem minDeferral_pos : (0 : K) < minDeferral := by
  unfold minDeferral
  exact_mod_cast (by norm_num : (0 : ℚ) < 1 / 1000)

theorem Scheduled.sum_nonneg (h : Scheduled settings run) : 0 ≤ run.deferred.sum :=
  List.sum_nonneg fun d hd => minDeferral_pos.le.trans (h.granted d hd)

theorem Scheduled.step (h : Scheduled settings run) (event : RestEvent K) :
    Scheduled settings (run.step settings event) := by
  cases event with
  | tryDefer now =>
    have horiginal := h.original
    have heffective := h.effective
    rcases tryDefer_cases settings run.scheduler now with hsame | ⟨due, haccept, hlong, hcap⟩
    · simp only [RestRun.step, hsame]
      refine ⟨?_, heffective, h.granted, h.capped⟩
      simp only [RestRun.runningAt]
      linarith
    · simp only [RestRun.step, haccept, if_true]
      refine ⟨?_, ?_, fun d hd => ?_, ?_⟩
      · simp only [RestRun.runningAt]
        linarith
      · rw [List.sum_append, List.sum_singleton]
        dsimp only
        linarith
      · rcases List.mem_append.mp hd with hd | hd
        · exact h.granted d hd
        · rw [List.mem_singleton.mp hd]
          exact hlong
      · rw [List.sum_append, List.sum_singleton]
        linarith
  | completed now =>
    refine ⟨?_, ?_, fun d hd => (by cases hd), settings.maxDeferral_nonneg⟩
    · simp [RestRun.step, RestScheduler.markCompleted]
    · simp [RestRun.step, RestScheduler.markCompleted]
  | restart exportedAt startedAt restoredAt =>
    have horiginal := h.original
    have heffective := h.effective
    have hsum := h.sum_nonneg
    have hrestores : ¬run.scheduler.effectiveDueAt - exportedAt <
      run.scheduler.originalDueAt - exportedAt := by
      rw [not_lt]
      linarith
    have hrestored : (RestScheduler.init settings startedAt).restoreRemaining
        (run.scheduler.originalDueAt - exportedAt) (run.scheduler.effectiveDueAt - exportedAt)
          restoredAt =
        some ⟨restoredAt + (run.scheduler.originalDueAt - exportedAt),
          restoredAt + (run.scheduler.effectiveDueAt - exportedAt)⟩ := if_neg hrestores
    simp only [RestRun.step, exportRemaining, hrestored, Option.getD_some]
    refine ⟨?_, ?_, h.granted, h.capped⟩
    · simp only [RestRun.runningAt]
      linarith
    · dsimp only
      linarith

theorem scheduled_of_reaches (h : Reaches settings run) : Scheduled settings run := by
  induction h with
  | init now => exact scheduled_init settings now
  | step _ _ ih => exact ih.step _

/-- Each deferral has a least size, so there are no more than fit. -/
theorem Scheduled.count_le (h : Scheduled settings run) :
    run.deferred.length * minDeferral ≤ settings.maxDeferral := by
  have hsum := List.card_nsmul_le_sum run.deferred minDeferral h.granted
  rw [nsmul_eq_mul] at hsum
  exact hsum.trans h.capped

/-- In every run rest is due once the running time has passed the original due time and the longest
deferral, what an interval was granted sums to no more than that, in no more than so many steps, and
a refusal changes nothing. -/
theorem rest_bounded (h : Reaches settings run) :
    (∀ now, run.begun + settings.interval + settings.maxDeferral ≤ run.runningAt now →
      run.scheduler.isDue settings now = true) ∧
    run.scheduler.totalDeferral = run.deferred.sum ∧ run.deferred.sum ≤ settings.maxDeferral ∧
    (∀ d ∈ run.deferred, minDeferral ≤ d) ∧ run.deferred.length * minDeferral ≤
      settings.maxDeferral ∧
    ∀ now, (run.scheduler.tryDefer settings now).1 = false →
      (run.scheduler.tryDefer settings now).2 = run.scheduler := by
  have hs := scheduled_of_reaches h
  have heffective := hs.effective
  refine ⟨fun now hnow => ?_, ?_, hs.capped, hs.granted, hs.count_le, fun now => tryDefer_refused⟩
  · have hpast : run.scheduler.originalDueAt + settings.maxDeferral ≤ now := by
      have horiginal := hs.original
      simp only [RestRun.runningAt] at hnow
      linarith
    simp [isDue, hpast]
  · rw [totalDeferral, heffective, add_sub_cancel_left]
    exact max_eq_right hs.sum_nonneg

end Run

/-- An hour awake, at most ten minutes late. -/
def hourly : RestSettings ℚ := ⟨3600, 600, 60, by norm_num, by norm_num, by norm_num⟩

/-- A deferral and a restart on another clock, eleven minutes after which rest is due. -/
def restarted : RestRun ℚ :=
  ((RestRun.init hourly 50).step hourly (.tryDefer 3600)).step hourly (.restart 3650 9 10)

theorem rest_bounded_restarted : restarted.deferred = [60] ∧
    restarted.scheduler.isDue hourly 610 = true := by
  have hfirst : (RestRun.init hourly 50).InOrder (.tryDefer 3600) := by
    change (50 : ℚ) ≤ 3600
    norm_num
  have hsecond : ((RestRun.init hourly 50).step hourly (.tryDefer 3600)).InOrder
    (.restart 3650 9 10) := by
    refine ⟨?_, ?_⟩
    · change (3600 : ℚ) ≤ 3650
      norm_num
    · norm_num
  have hreaches : Reaches hourly restarted := .step (.step (.init 50) hfirst) hsecond
  exact ⟨by decide +kernel, (rest_bounded hreaches).1 610 (by decide +kernel)⟩

end Kaine.Rest
