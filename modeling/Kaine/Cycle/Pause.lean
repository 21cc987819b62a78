import Kaine.Lib.Stopwatch
import Mathlib.Algebra.Order.Ring.Int

/-! Pausing the cognitive cycle, and the time it counts as paused or not awake
(`kaine/cycle/engine.py`). When the paused and the not-awake totals are the times they stand for. -/
namespace Kaine.Pause

variable {T : Type} [AddCommGroup T] [LinearOrder T]

/-- The fields of the cycle that `pause`, `resume`, `shutdown` and the start of a tick use.
`pausedIsSet` is the event the loop waits on, set while the cycle runs; each stopwatch is a total
with the start of the span in progress. -/
structure CognitiveCycle (T : Type) where
  pausedIsSet : Bool
  pausedSpan : Stopwatch T
  unawakeSpan : Stopwatch T
  stopped : Bool
  prevTickStart : Option T
  prevTargetMs : Option T

namespace CognitiveCycle

def isPaused (c : CognitiveCycle T) : Bool := !c.pausedIsSet

def refreshUnawake (c : CognitiveCycle T) (now : T) (isAsleep : Bool) : CognitiveCycle T :=
  let excluded := c.isPaused || isAsleep
  if excluded && !c.unawakeSpan.running then
    { c with unawakeSpan := c.unawakeSpan.startAt now }
  else if !excluded && c.unawakeSpan.running then
    { c with unawakeSpan := c.unawakeSpan.stopAt now }
  else c

/-- A pause freezes the entity: discard the previous tick start. -/
def discardTickStart (c : CognitiveCycle T) : CognitiveCycle T :=
  { c with prevTickStart := none, prevTargetMs := none }

/-- `pause` after its hook has returned. It does not look at the flag again. -/
def pauseAfterHook (c : CognitiveCycle T) (now : T) (isAsleep : Bool) : CognitiveCycle T :=
  let c := { c with pausedIsSet := false, pausedSpan := c.pausedSpan.startAt now }
  (c.refreshUnawake now isAsleep).discardTickStart

/-- `resume` up to its hook. -/
def resumeBeforeHook (c : CognitiveCycle T) (now : T) : CognitiveCycle T :=
  let span := if c.pausedSpan.running then c.pausedSpan.stopAt now else c.pausedSpan
  { c with pausedSpan := span, pausedIsSet := true }

def resumeAfterHook (c : CognitiveCycle T) (now : T) (isAsleep : Bool) : CognitiveCycle T :=
  (c.refreshUnawake now isAsleep).discardTickStart

/-- `shutdown` up to its hook, after which it does nothing. -/
def shutdownBeforeHook (c : CognitiveCycle T) : CognitiveCycle T :=
  { c with stopped := true, pausedIsSet := true }

/-- The start of a tick. -/
def beginTick (c : CognitiveCycle T) (now start target : T) (isAsleep : Bool) : CognitiveCycle T :=
  { c.refreshUnawake now isAsleep with prevTickStart := some start, prevTargetMs := some target }

/-- Subjective seconds spent paused, including a pause in progress. -/
def pausedSubjectiveSeconds (c : CognitiveCycle T) (now : T) : T := c.pausedSpan.reading now

/-- Subjective seconds not awake, including a span in progress. -/
def unawakeSubjectiveSeconds (c : CognitiveCycle T) (now : T) (isAsleep : Bool) :
    T × CognitiveCycle T :=
  let c := c.refreshUnawake now isAsleep
  (c.unawakeSpan.reading now, c)

end CognitiveCycle

/-- The cycle, the subjective clock, what the sleep source says, and how many calls of `pause` and
of `resume` wait at their hook. -/
structure System (T : Type) where
  cycle : CognitiveCycle T
  now : T
  asleep : Bool
  pausing : ℕ
  resuming : ℕ

/-- The stretches of code between two waits, and what happens around them. -/
inductive Action (T : Type) [Zero T] [LE T] where
  | pause
  | pauseHookReturns
  | resume
  | resumeHookReturns
  | shutdown
  | tick (start target : T)
  | readUnawake
  | sleepSource (asleep : Bool)
  | advance (d : {d : T // 0 ≤ d})

def step (s : System T) : Action T → System T
  | .pause => if s.cycle.isPaused then s else { s with pausing := s.pausing + 1 }
  | .pauseHookReturns =>
    if s.pausing = 0 then s
    else { s with
      pausing := s.pausing - 1
      cycle := s.cycle.pauseAfterHook s.now s.asleep }
  | .resume =>
    if s.cycle.isPaused then
      { s with resuming := s.resuming + 1, cycle := s.cycle.resumeBeforeHook s.now }
    else s
  | .resumeHookReturns =>
    if s.resuming = 0 then s
    else { s with
      resuming := s.resuming - 1
      cycle := s.cycle.resumeAfterHook s.now s.asleep }
  | .shutdown => { s with cycle := s.cycle.shutdownBeforeHook }
  | .tick start target => { s with cycle := s.cycle.beginTick s.now start target s.asleep }
  | .readUnawake => { s with cycle := (s.cycle.unawakeSubjectiveSeconds s.now s.asleep).2 }
  | .sleepSource asleep => { s with asleep }
  | .advance d => { s with now := s.now + d.val }

def run (s : System T) (actions : List (Action T)) : System T := actions.foldl step s

/-- A new cycle. -/
def initial (now : T) (asleep : Bool) : System T :=
  { cycle := ⟨true, .zero, .zero, false, none, none⟩, now, asleep, pausing := 0, resuming := 0 }

/-- What the two readers return. -/
def System.paused (s : System T) : T := s.cycle.pausedSubjectiveSeconds s.now

def System.unawake (s : System T) : T := (s.cycle.unawakeSubjectiveSeconds s.now s.asleep).1

variable {s t : System T} {a : Action T} {actions later : List (Action T)}

def Action.duration : Action T → T
  | .advance d => d.val
  | _ => 0

/-- The clock time of a run during which the state was of a kind. -/
def timeWhere (p : System T → Bool) : System T → List (Action T) → T
  | _, [] => 0
  | s, a :: actions => (if p s then a.duration else 0) + timeWhere p (step s a) actions

def isPaused (s : System T) : Bool := s.cycle.isPaused

def frozenAsleep (s : System T) : Bool := s.cycle.isPaused && s.asleep

def countsUnawake (s : System T) : Bool := s.cycle.unawakeSpan.running

/-- No pause takes effect, and no shutdown starts, while the cycle is paused already. -/
def Orderly (s : System T) : Action T → Prop
  | .pauseHookReturns => s.pausing = 0 ∨ s.cycle.isPaused = false
  | .shutdown => s.cycle.isPaused = false
  | _ => True

/-- Every step of a run meets the condition in the state before it. -/
def OrderlyRun : System T → List (Action T) → Prop
  | _, [] => True
  | s, a :: actions => Orderly s a ∧ OrderlyRun (step s a) actions

instance (s : System T) : (a : Action T) → Decidable (Orderly s a)
  | .pauseHookReturns => inferInstanceAs (Decidable (_ ∨ _))
  | .shutdown => inferInstanceAs (Decidable (_ = _))
  | .pause | .resume | .resumeHookReturns | .tick _ _ | .readUnawake | .sleepSource _
  | .advance _ => isTrue trivial

instance decidableOrderlyRun :
    (s : System T) → (actions : List (Action T)) → Decidable (OrderlyRun s actions)
  | _, [] => isTrue trivial
  | s, a :: actions =>
    have := decidableOrderlyRun (step s a) actions
    inferInstanceAs (Decidable (_ ∧ _))

/-- What the readers promise of a run and of any continuation of it. -/
structure Accounted (s : System T) (actions later : List (Action T)) : Prop where
  exact : (run s actions).paused = timeWhere isPaused s actions
  mono : (run s actions).paused ≤ (run s (actions ++ later)).paused
  le_unawake : (run s actions).paused ≤ (run s actions).unawake
  once : timeWhere frozenAsleep (run s actions) later ≤
      (run s (actions ++ later)).unawake - (run s actions).unawake ∧
    (run s (actions ++ later)).unawake - (run s actions).unawake ≤
      timeWhere (fun _ => true) (run s actions) later

/-- What holds of the stopwatches in every run: their spans began in the past, and a frozen cycle
counts as not awake. -/
structure Sound (s : System T) : Prop where
  pausedPast : s.cycle.pausedSpan.Past s.now
  unawakePast : s.cycle.unawakeSpan.Past s.now
  frozen : s.cycle.isPaused = true → s.cycle.unawakeSpan.running = true

/-- The paused span is open exactly while the cycle is paused. -/
def SpanFits (s : System T) : Prop := s.cycle.pausedSpan.running = s.cycle.isPaused

namespace CognitiveCycle

variable {c : CognitiveCycle T} {now : T} {isAsleep : Bool}

@[simp] theorem refreshUnawake_isPaused :
    (c.refreshUnawake now isAsleep).isPaused = c.isPaused := by
  unfold refreshUnawake
  dsimp only
  split_ifs <;> rfl

@[simp] theorem refreshUnawake_pausedSpan :
    (c.refreshUnawake now isAsleep).pausedSpan = c.pausedSpan := by
  unfold refreshUnawake
  dsimp only
  split_ifs <;> rfl

/-- A refresh opens and closes the span without changing what it reads at that moment. -/
@[simp] theorem refreshUnawake_reading :
    (c.refreshUnawake now isAsleep).unawakeSpan.reading now = c.unawakeSpan.reading now := by
  unfold refreshUnawake
  dsimp only
  split_ifs with hopen hclose
  · have hstopped : c.unawakeSpan.running = false := by simp_all
    exact Stopwatch.reading_startAt hstopped now
  · rfl
  · rfl

theorem refreshUnawake_running :
    (c.refreshUnawake now isAsleep).unawakeSpan.running = (c.isPaused || isAsleep) := by
  unfold refreshUnawake
  cases hx : c.isPaused || isAsleep <;> cases hr : c.unawakeSpan.running <;> simp [hr]

theorem refreshUnawake_past (h : c.unawakeSpan.Past now) :
    (c.refreshUnawake now isAsleep).unawakeSpan.Past now := by
  unfold refreshUnawake
  dsimp only
  split_ifs
  · exact Stopwatch.past_startAt _ _
  · exact Stopwatch.past_stopAt _ _ _
  · exact h

end CognitiveCycle

theorem unawake_eq (s : System T) : s.unawake = s.cycle.unawakeSpan.reading s.now :=
  CognitiveCycle.refreshUnawake_reading

/-- Two cycles that agree on all that the readers look at. -/
structure Same (c c' : CognitiveCycle T) : Prop where
  isPaused : c.isPaused = c'.isPaused
  pausedSpan : c.pausedSpan = c'.pausedSpan
  unawakeSpan : c.unawakeSpan = c'.unawakeSpan

omit [AddCommGroup T] [LinearOrder T] in
theorem Same.refl (c : CognitiveCycle T) : Same c c := ⟨rfl, rfl, rfl⟩

/-- The cycle as a pause leaves it, before the refresh. -/
def freeze (c : CognitiveCycle T) (now : T) : CognitiveCycle T :=
  { c with pausedIsSet := false, pausedSpan := c.pausedSpan.startAt now }

omit [AddCommGroup T] [LinearOrder T] in
@[simp] theorem freeze_isPaused (c : CognitiveCycle T) (now : T) :
    (freeze c now).isPaused = true := rfl

omit [AddCommGroup T] [LinearOrder T] in
@[simp] theorem freeze_running (c : CognitiveCycle T) (now : T) :
    (freeze c now).pausedSpan.running = true := rfl

@[simp] theorem resumeBeforeHook_isPaused (c : CognitiveCycle T) (now : T) :
    (c.resumeBeforeHook now).isPaused = false := rfl

omit [AddCommGroup T] [LinearOrder T] in
@[simp] theorem shutdownBeforeHook_isPaused (c : CognitiveCycle T) :
    c.shutdownBeforeHook.isPaused = false := rfl

theorem resumeBeforeHook_pausedSpan {c : CognitiveCycle T} {now : T}
    (h : c.pausedSpan.running = true) :
    (c.resumeBeforeHook now).pausedSpan = c.pausedSpan.stopAt now := by
  simp [CognitiveCycle.resumeBeforeHook, h]

/-- What one step can do to the flag, the two spans and the clock. -/
theorem step_cases (s : System T) (a : Action T) :
    (∃ d, a = .advance d ∧ (step s a).cycle = s.cycle ∧ (step s a).now = s.now + d.val) ∨
    (a.duration = 0 ∧ (step s a).now = s.now ∧
      (Same (step s a).cycle s.cycle ∨
       Same (step s a).cycle (s.cycle.refreshUnawake s.now s.asleep) ∨
       (a = .pauseHookReturns ∧ s.pausing ≠ 0 ∧
         Same (step s a).cycle ((freeze s.cycle s.now).refreshUnawake s.now s.asleep)) ∨
       (s.cycle.isPaused = true ∧ Same (step s a).cycle (s.cycle.resumeBeforeHook s.now)) ∨
       (a = .shutdown ∧ Same (step s a).cycle s.cycle.shutdownBeforeHook))) := by
  cases a with
  | advance d => exact .inl ⟨d, rfl, rfl, rfl⟩
  | pause =>
    right
    simp only [step]
    split <;> exact ⟨rfl, rfl, .inl (.refl _)⟩
  | pauseHookReturns =>
    right
    simp only [step]
    split
    · exact ⟨rfl, rfl, .inl (.refl _)⟩
    · rename_i hp
      exact ⟨rfl, rfl, .inr (.inr (.inl ⟨trivial, hp, rfl, rfl, rfl⟩))⟩
  | resume =>
    right
    simp only [step]
    split
    · rename_i hp
      exact ⟨rfl, rfl, .inr (.inr (.inr (.inl ⟨hp, .refl _⟩)))⟩
    · exact ⟨rfl, rfl, .inl (.refl _)⟩
  | resumeHookReturns =>
    right
    simp only [step]
    split
    · exact ⟨rfl, rfl, .inl (.refl _)⟩
    · exact ⟨rfl, rfl, .inr (.inl ⟨rfl, rfl, rfl⟩)⟩
  | shutdown => exact .inr ⟨rfl, rfl, .inr (.inr (.inr (.inr ⟨rfl, .refl _⟩)))⟩
  | tick start target => exact .inr ⟨rfl, rfl, .inr (.inl ⟨rfl, rfl, rfl⟩)⟩
  | readUnawake => exact .inr ⟨rfl, rfl, .inr (.inl ⟨rfl, rfl, rfl⟩)⟩
  | sleepSource asleep => exact .inr ⟨rfl, rfl, .inl (.refl _)⟩

omit [AddCommGroup T] in
theorem Sound.congr {s t : System T} (h : Sound s) (hnow : t.now = s.now)
    (hsame : Same t.cycle s.cycle) : Sound t where
  pausedPast := by rw [hsame.pausedSpan, hnow]; exact h.pausedPast
  unawakePast := by rw [hsame.unawakeSpan, hnow]; exact h.unawakePast
  frozen := by rw [hsame.isPaused, hsame.unawakeSpan]; exact h.frozen

theorem sound_initial (now : T) (asleep : Bool) : Sound (initial now asleep) where
  pausedPast := Stopwatch.past_zero _
  unawakePast := Stopwatch.past_zero _
  frozen := by simp [initial, CognitiveCycle.isPaused]

theorem sound_refresh {c : CognitiveCycle T} (hpaused : c.pausedSpan.Past s.now)
    (hunawake : c.unawakeSpan.Past s.now) :
    Sound { s with cycle := c.refreshUnawake s.now s.asleep } where
  pausedPast := by simpa using hpaused
  unawakePast := CognitiveCycle.refreshUnawake_past hunawake
  frozen := by
    intro hp
    rw [CognitiveCycle.refreshUnawake_isPaused] at hp
    simp [CognitiveCycle.refreshUnawake_running, hp]

theorem sound_step [IsOrderedAddMonoid T] (h : Sound s) (a : Action T) : Sound (step s a) := by
  rcases step_cases s a with ⟨d, -, hcycle, hnow⟩ | ⟨-, hnow, hcases⟩
  · refine ⟨?_, ?_, by rw [hcycle]; exact h.frozen⟩
    · rw [hcycle, hnow]
      exact h.pausedPast.later d.2
    · rw [hcycle, hnow]
      exact h.unawakePast.later d.2
  · rcases hcases with hsame | hsame | ⟨-, -, hsame⟩ | ⟨-, hsame⟩ | ⟨-, hsame⟩
    · exact h.congr hnow hsame
    · exact (sound_refresh h.pausedPast h.unawakePast).congr hnow hsame
    · have hpast : (freeze s.cycle s.now).pausedSpan.Past s.now := Stopwatch.past_startAt _ _
      exact (sound_refresh hpast h.unawakePast).congr hnow hsame
    · have hopen : Sound { s with cycle := s.cycle.resumeBeforeHook s.now } := by
        refine ⟨?_, h.unawakePast, by simp⟩
        simp only [CognitiveCycle.resumeBeforeHook]
        split
        · exact Stopwatch.past_stopAt _ _ _
        · exact h.pausedPast
      exact hopen.congr hnow hsame
    · have hset : Sound { s with cycle := s.cycle.shutdownBeforeHook } :=
        ⟨h.pausedPast, h.unawakePast, by simp⟩
      exact hset.congr hnow hsame

/-- In an orderly step the paused span follows the flag. -/
theorem spanFits_step (h : SpanFits s) (ho : Orderly s a) : SpanFits (step s a) := by
  unfold SpanFits at *
  rcases step_cases s a with ⟨d, -, hcycle, -⟩ | ⟨-, -, hcases⟩
  · rw [hcycle]
    exact h
  · rcases hcases with hsame | hsame | ⟨-, -, hsame⟩ | ⟨hp, hsame⟩ | ⟨ha, hsame⟩
    · rw [hsame.pausedSpan, hsame.isPaused]
      exact h
    · rw [hsame.pausedSpan, hsame.isPaused]
      simpa using h
    · rw [hsame.pausedSpan, hsame.isPaused]
      simp
    · rw [hsame.pausedSpan, hsame.isPaused]
      rw [resumeBeforeHook_pausedSpan (h.trans hp)]
      rfl
    · subst ha
      have hp : s.cycle.isPaused = false := ho
      rw [hsame.pausedSpan, hsame.isPaused]
      exact h.trans hp

/-- An orderly step adds its time to what the paused reader returns exactly while paused. -/
theorem paused_step [IsOrderedAddMonoid T] (hs : Sound s) (h : SpanFits s) (ho : Orderly s a) :
    (step s a).paused = s.paused + if isPaused s then a.duration else 0 := by
  unfold System.paused CognitiveCycle.pausedSubjectiveSeconds
  rcases step_cases s a with ⟨d, rfl, hcycle, hnow⟩ | ⟨hzero, hnow, hcases⟩
  · rw [hcycle, hnow, Stopwatch.reading_add hs.pausedPast d.2, h]
    rfl
  · rw [hzero, ite_self, add_zero, hnow]
    rcases hcases with hsame | hsame | ⟨ha, hp, hsame⟩ | ⟨hp, hsame⟩ | ⟨ha, hsame⟩
    · rw [hsame.pausedSpan]
    · rw [hsame.pausedSpan, CognitiveCycle.refreshUnawake_pausedSpan]
    · subst ha
      rcases ho with ho | ho
      · exact (hp ho).elim
      · rw [hsame.pausedSpan, CognitiveCycle.refreshUnawake_pausedSpan]
        exact Stopwatch.reading_startAt (h.trans ho) s.now
    · have hrunning : s.cycle.pausedSpan.running = true := h.trans hp
      rw [hsame.pausedSpan]
      simp [CognitiveCycle.resumeBeforeHook, hrunning]
    · rw [hsame.pausedSpan]
      rfl

/-- Every step adds its time to what the not-awake reader returns exactly while its span is open. -/
theorem unawake_step [IsOrderedAddMonoid T] (hs : Sound s) (a : Action T) :
    (step s a).unawake = s.unawake + if countsUnawake s then a.duration else 0 := by
  rw [unawake_eq, unawake_eq]
  rcases step_cases s a with ⟨d, rfl, hcycle, hnow⟩ | ⟨hzero, hnow, hcases⟩
  · rw [hcycle, hnow, Stopwatch.reading_add hs.unawakePast d.2]
    rfl
  · rw [hzero, ite_self, add_zero, hnow]
    rcases hcases with hsame | hsame | ⟨-, -, hsame⟩ | ⟨-, hsame⟩ | ⟨-, hsame⟩
    · rw [hsame.unawakeSpan]
    · rw [hsame.unawakeSpan, CognitiveCycle.refreshUnawake_reading]
    · rw [hsame.unawakeSpan, CognitiveCycle.refreshUnawake_reading]
      rfl
    · rw [hsame.unawakeSpan]
      rfl
    · rw [hsame.unawakeSpan]
      rfl

theorem run_append (s : System T) (actions later : List (Action T)) :
    run s (actions ++ later) = run (run s actions) later := List.foldl_append

theorem orderlyRun_append :
    OrderlyRun s (actions ++ later) ↔ OrderlyRun s actions ∧ OrderlyRun (run s actions) later := by
  induction actions generalizing s with
  | nil => simp [OrderlyRun, run]
  | cons a actions ih =>
    have hrun : run s (a :: actions) = run (step s a) actions := rfl
    simp [OrderlyRun, ih, hrun, and_assoc]

theorem sound_run [IsOrderedAddMonoid T] (h : Sound s) (actions : List (Action T)) :
    Sound (run s actions) := by
  induction actions generalizing s with
  | nil => exact h
  | cons a actions ih => exact ih (sound_step h a)

theorem spanFits_run (h : SpanFits s) (ho : OrderlyRun s actions) : SpanFits (run s actions) := by
  induction actions generalizing s with
  | nil => exact h
  | cons a actions ih => exact ih (spanFits_step h ho.1) ho.2

theorem paused_run [IsOrderedAddMonoid T] (hs : Sound s) (h : SpanFits s)
    (ho : OrderlyRun s actions) :
    (run s actions).paused = s.paused + timeWhere isPaused s actions := by
  induction actions generalizing s with
  | nil => simp [run, timeWhere]
  | cons a actions ih =>
    have hrest := ih (sound_step hs a) (spanFits_step h ho.1) ho.2
    rw [paused_step hs h ho.1, add_assoc] at hrest
    exact hrest

theorem unawake_run [IsOrderedAddMonoid T] (hs : Sound s) (actions : List (Action T)) :
    (run s actions).unawake = s.unawake + timeWhere countsUnawake s actions := by
  induction actions generalizing s with
  | nil => simp [run, timeWhere]
  | cons a actions ih =>
    have hrest := ih (sound_step hs a)
    rw [unawake_step hs, add_assoc] at hrest
    exact hrest

theorem Action.duration_nonneg (a : Action T) : 0 ≤ a.duration := by
  cases a with
  | advance d => exact d.2
  | _ => exact le_rfl

/-- A kind of state that implies another lasts no longer. -/
theorem timeWhere_mono [IsOrderedAddMonoid T] {p q : System T → Bool}
    (hpq : ∀ {s : System T}, Sound s → p s = true → q s = true) (hs : Sound s)
    (actions : List (Action T)) : timeWhere p s actions ≤ timeWhere q s actions := by
  induction actions generalizing s with
  | nil => exact le_rfl
  | cons a actions ih =>
    refine add_le_add ?_ (ih (sound_step hs a))
    by_cases hp : p s = true
    · rw [if_pos hp, if_pos (hpq hs hp)]
    · rw [if_neg hp]
      split
      · exact a.duration_nonneg
      · exact le_rfl

theorem timeWhere_nonneg [IsOrderedAddMonoid T] (p : System T → Bool) (s : System T)
    (actions : List (Action T)) : 0 ≤ timeWhere p s actions := by
  induction actions generalizing s with
  | nil => exact le_rfl
  | cons a actions ih =>
    refine add_nonneg ?_ (ih (step s a))
    split
    · exact a.duration_nonneg
    · exact le_rfl

/-- In an orderly run the readers return the times they are named after. -/
theorem pause_accounted [IsOrderedAddMonoid T] (now : T) (asleep : Bool)
    (actions later : List (Action T)) (h : OrderlyRun (initial now asleep) (actions ++ later)) :
    Accounted (initial now asleep) actions later := by
  have hinit := sound_initial now asleep
  have hfits : SpanFits (initial now asleep) := rfl
  obtain ⟨hfirst, hlater⟩ := orderlyRun_append.mp h
  have hmid := sound_run hinit actions
  have hpaused := paused_run hinit hfits hfirst
  have hunawake := unawake_run hinit actions
  have hzero : (initial now asleep).paused = 0 := rfl
  have hzero' : (initial now asleep).unawake = 0 := by rw [unawake_eq]; rfl
  rw [hzero, zero_add] at hpaused
  rw [hzero', zero_add] at hunawake
  have hgrown := unawake_run hmid later
  rw [← run_append] at hgrown
  refine ⟨hpaused, ?_, ?_, ?_, ?_⟩
  · rw [run_append, paused_run hmid (spanFits_run hfits hfirst) hlater]
    exact le_add_of_nonneg_right (timeWhere_nonneg _ _ _)
  · rw [hpaused, hunawake]
    exact timeWhere_mono (fun hs => hs.frozen) hinit actions
  · rw [hgrown, add_sub_cancel_left]
    refine timeWhere_mono (fun hs hp => hs.frozen ?_) hmid later
    unfold frozenAsleep at hp
    simp_all
  · rw [hgrown, add_sub_cancel_left]
    exact timeWhere_mono (fun _ _ => rfl) hmid later

/-- Five seconds. -/
def fiveSeconds : Action ℤ := .advance ⟨5, by decide⟩

/-- A new cycle, awake, with its clock at zero. -/
def newCycle : System ℤ := initial 0 false

/-- One pause, five seconds frozen and asleep, one resume. -/
def onePause : List (Action ℤ) :=
  [.pause, .pauseHookReturns, .sleepSource true, fiveSeconds, .resume, .resumeHookReturns]

theorem one_pause_accounted : Accounted newCycle onePause [fiveSeconds, .shutdown] :=
  pause_accounted 0 false onePause [fiveSeconds, .shutdown] (by decide)

/-- Two pauses wait at their hooks; the second to return takes the start of the span with it. -/
def overlappingPauses : List (Action ℤ) :=
  [.pause, .pause, .pauseHookReturns, fiveSeconds, .pauseHookReturns]

/-- A shutdown sets the event and leaves the span open. -/
def pausedAtShutdown : List (Action ℤ) := [.pause, .pauseHookReturns, .shutdown, fiveSeconds]

theorem pause_not_accounted :
    (run newCycle overlappingPauses).paused = 0 ∧
    timeWhere isPaused newCycle overlappingPauses = 5 ∧
    ¬ Accounted newCycle overlappingPauses [] ∧
    (run newCycle pausedAtShutdown).paused = 5 ∧
    timeWhere isPaused newCycle pausedAtShutdown = 0 ∧
    ¬ Accounted newCycle pausedAtShutdown [] := by
  have h₁ : (run newCycle overlappingPauses).paused = 0 := by decide
  have h₂ : timeWhere isPaused newCycle overlappingPauses = 5 := by decide
  have h₃ : (run newCycle pausedAtShutdown).paused = 5 := by decide
  have h₄ : timeWhere isPaused newCycle pausedAtShutdown = 0 := by decide
  refine ⟨h₁, h₂, ?_, h₃, h₄, ?_⟩
  · intro h
    have := h.exact
    omega
  · intro h
    have := h.exact
    omega

end Kaine.Pause
