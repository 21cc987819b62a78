import Kaine.Lib.Transition
import Mathlib.Algebra.Order.Group.Defs

/-! One speaker that rests between reports, does not repeat itself, and says nothing more while an
utterance is in flight unless it interrupts that. -/
namespace Pacing
open Transition

variable {S T : Type*}

/-- What ends an utterance: its output is observed, or the time of its guard has elapsed at what the
guard's clock reads. -/
inductive Release (T : Type*) where
  | output
  | timeout (reading : T)
  deriving DecidableEq

/-- A report, which may interrupt; an utterance that another asked for; or a release. An utterance
carries what its own clock and that of the guard read when it was started. -/
inductive Event (S T : Type*) where
  | speak (signature : S) (time guard : T) (interrupts : Bool)
  | other (time guard : T)
  | release (why : Release T)
  deriving DecidableEq

/-- The least time between reports, the time after which one may be repeated, and the time that the
guard waits for an output. -/
structure Rules (T : Type*) where
  rest : T
  expiry : Option T
  timeout : T

structure State (S T : Type*) where
  inFlight : Bool := false
  lastAt : Option T := none
  armedAt : Option T := none
  said : Option (S × T) := none

/-- The state after a report. -/
def State.spoken (signature : S) (time guard : T) : State S T :=
  ⟨true, some time, some guard, some (signature, time)⟩

section
variable [Sub T] [LE T]

def Rested (rules : Rules T) (s : State S T) (time : T) : Prop :=
  ∀ t, s.lastAt = some t → rules.rest ≤ time - t

/-- What was said last is not said again before it expires. -/
def Fresh (rules : Rules T) (s : State S T) (signature : S) (time : T) : Prop :=
  ∀ t, s.said = some (signature, t) → ∃ e, rules.expiry = some e ∧ e ≤ time - t

inductive Step (rules : Rules T) : State S T → Event S T → State S T → Prop where
  | report {s : State S T} {signature : S} {time guard : T} (hfree : s.inFlight = false)
      (hrested : Rested rules s time) (hfresh : Fresh rules s signature time) :
      Step rules s (.speak signature time guard false) (.spoken signature time guard)
  | interrupt {s : State S T} {signature : S} {time guard : T} (hflight : s.inFlight = true)
      (hfresh : Fresh rules s signature time) :
      Step rules s (.speak signature time guard true) (.spoken signature time guard)
  | other (s : State S T) (time guard : T) :
      Step rules s (.other time guard)
        { s with inFlight := true, lastAt := some time, armedAt := some guard }
  | output (s : State S T) :
      Step rules s (.release .output) { s with inFlight := false, armedAt := none }
  | timeout {s : State S T} {reading : T} (hflight : s.inFlight = true)
      (helapsed : ∀ armed, s.armedAt = some armed → rules.timeout ≤ reading - armed) :
      Step rules s (.release (.timeout reading)) { s with inFlight := false, armedAt := none }

end

namespace Event

/-- The time at which an utterance was started. -/
def startedAt : Event S T → Option T
  | .speak _ time _ _ => some time
  | .other time _ => some time
  | .release _ => none

/-- What the guard's clock read when an utterance was started. -/
def armedAt : Event S T → Option T
  | .speak _ _ guard _ => some guard
  | .other _ guard => some guard
  | .release _ => none

def isSpeak : Event S T → Bool
  | .speak _ _ _ _ => true
  | .other _ _ | .release _ => false

def isRelease : Event S T → Bool
  | .release _ => true
  | .speak _ _ _ _ | .other _ _ => false

end Event

/-- A reading of the latest event that has one, from an earlier one on. -/
def latest (reading : Event S T → Option T) : T → List (Event S T) → T
  | t, [] => t
  | t, e :: es => latest reading ((reading e).getD t) es

section
variable [Sub T] [LE T] {rules : Rules T} {s t u : State S T} {e : Event S T}
  {mid : List (Event S T)} {a b : S} {ta ga tb gb time : T} {i j : Bool}

theorem lastAt_step (h : Step rules s e t) (hs : s.lastAt = some time) :
    t.lastAt = some (e.startedAt.getD time) := by
  cases h with
  | report => rfl
  | interrupt => rfl
  | other => rfl
  | output => exact hs
  | timeout => exact hs

theorem lastAt_run (h : Run (Step rules) s mid t) (hs : s.lastAt = some time) :
    t.lastAt = some (latest Event.startedAt time mid) := by
  induction h generalizing time with
  | refl => exact hs
  | head hstep _ ih => exact ih (lastAt_step hstep hs)

theorem said_run (h : Run (Step rules) s mid t) (hmid : ∀ e ∈ mid, e.isSpeak = false) :
    t.said = s.said := by
  induction h with
  | refl => rfl
  | head hstep _ ih =>
    obtain ⟨hfirst, hrest⟩ := List.forall_mem_cons.mp hmid
    rw [ih hrest]
    cases hstep with
    | report => cases hfirst
    | interrupt => cases hfirst
    | other => rfl
    | output => rfl
    | timeout => rfl

theorem after_speak (h : Step rules s (.speak a ta ga i) t) : t = .spoken a ta ga := by
  cases h <;> rfl

/-- A run between two of a speaker's events passes through the states at both ends of what lies
between. -/
theorem between
    (h : Run (Step rules) s (.speak a ta ga i :: (mid ++ [.speak b tb gb j])) u) :
    ∃ v w, Run (Step rules) (.spoken a ta ga) mid v ∧ Step rules v (.speak b tb gb j) w := by
  cases h with
  | head hfirst hrest =>
    obtain ⟨v, hmid, hlast⟩ := hrest.split
    rw [after_speak hfirst] at hmid
    cases hlast with
    | head hsecond _ => exact ⟨v, _, hmid, hsecond⟩

/-- The first of the events that is a release; where the guard's time has elapsed, it has since the
guard was last armed. -/
def Releases (rules : Rules T) (ga : T) (mid : List (Event S T)) : Prop :=
  ∃ before why after, mid = before ++ .release why :: after ∧
    (∀ e ∈ before, e.isRelease = false) ∧
    ∀ reading, why = .timeout reading → rules.timeout ≤ reading - latest Event.armedAt ga before

theorem Releases.cons {gb : T} (h : Releases rules gb mid) (he : e.isRelease = false)
    (harmed : e.armedAt.getD ga = gb) : Releases rules ga (e :: mid) := by
  obtain ⟨before, why, after, rfl, hbefore, htimeout⟩ := h
  refine ⟨e :: before, why, after, rfl, ?_, ?_⟩
  · exact List.forall_mem_cons.mpr ⟨he, hbefore⟩
  · intro reading hwhy
    rw [latest, harmed]
    exact htimeout reading hwhy

/-- An utterance in flight is over only after a release. -/
theorem releases_run (h : Run (Step rules) s mid t) (hs : s.inFlight = true)
    (harmed : s.armedAt = some ga) (ht : t.inFlight = false) : Releases rules ga mid := by
  induction h generalizing ga with
  | refl => exact absurd (hs.symm.trans ht) (by decide)
  | head hstep _ ih =>
    cases hstep with
    | report => exact (ih rfl rfl ht).cons rfl rfl
    | interrupt => exact (ih rfl rfl ht).cons rfl rfl
    | other => exact (ih rfl rfl ht).cons rfl rfl
    | output => exact ⟨[], .output, _, rfl, by simp, nofun⟩
    | timeout _ helapsed =>
      refine ⟨[], .timeout _, _, rfl, by simp, ?_⟩
      rintro _ ⟨⟩
      exact helapsed ga harmed

/-- Between two reports the first is released. -/
theorem release_between
    (h : Run (Step rules) s (.speak a ta ga i :: (mid ++ [.speak b tb gb false])) u) :
    Releases rules ga mid := by
  obtain ⟨v, w, hmid, hsecond⟩ := between h
  cases hsecond with
  | report hfree => exact releases_run hmid rfl rfl hfree

/-- A report comes at least the rest after the latest utterance before it. -/
theorem rested_between
    (h : Run (Step rules) s (.speak a ta ga i :: (mid ++ [.speak b tb gb false])) u) :
    rules.rest ≤ tb - latest Event.startedAt ta mid := by
  obtain ⟨v, w, hmid, hsecond⟩ := between h
  cases hsecond with
  | report _ hrested => exact hrested _ (lastAt_run hmid rfl)

/-- What was said last is said again only once it has expired. -/
theorem expired_between
    (h : Run (Step rules) s (.speak a ta ga i :: (mid ++ [.speak a tb gb j])) u)
    (hmid : ∀ e ∈ mid, e.isSpeak = false) : ∃ e, rules.expiry = some e ∧ e ≤ tb - ta := by
  obtain ⟨v, w, hrun, hsecond⟩ := between h
  have hsaid : v.said = some (a, ta) := said_run hrun hmid
  cases hsecond with
  | report _ _ hfresh => exact hfresh ta hsaid
  | interrupt _ hfresh => exact hfresh ta hsaid

end

/-- Where readings do not run back, the latest is no earlier than any before it. -/
theorem le_latest [Preorder T] {reading : Event S T → Option T} {mid : List (Event S T)} {ta : T}
    (h : (ta :: mid.filterMap reading).Pairwise (· ≤ ·)) : ta ≤ latest reading ta mid := by
  induction mid generalizing ta with
  | nil => exact le_refl _
  | cons e mid ih =>
    cases he : reading e with
    | none =>
      rw [List.filterMap_cons_none he] at h
      simpa [latest, he] using ih h
    | some t =>
      rw [List.filterMap_cons_some he] at h
      obtain ⟨hle, hrest⟩ := List.pairwise_cons.mp h
      have hnext := ih hrest
      simp only [latest, he, Option.getD_some]
      exact (hle t (by simp)).trans hnext

end Pacing
