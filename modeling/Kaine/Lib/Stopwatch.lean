import Mathlib.Algebra.Order.Group.Defs

/-! A running total of time with at most one open span, read at any later time. -/

structure Stopwatch (T : Type*) where
  total : T
  since : Option T

namespace Stopwatch

variable {T : Type*} [AddCommGroup T] [LinearOrder T] {w : Stopwatch T} {now d : T}

def zero : Stopwatch T := ⟨0, none⟩

def running (w : Stopwatch T) : Bool := w.since.isSome

/-- The total with the span in progress; a clock behind its start adds nothing. -/
def reading (w : Stopwatch T) (now : T) : T :=
  match w.since with
  | some t => w.total + max 0 (now - t)
  | none => w.total

/-- Open a span, whatever was open before. -/
def startAt (w : Stopwatch T) (now : T) : Stopwatch T := { w with since := some now }

/-- Close the span that is open, if one is. -/
def stopAt (w : Stopwatch T) (now : T) : Stopwatch T := ⟨w.reading now, none⟩

/-- The open span began by now. -/
def Past (w : Stopwatch T) (now : T) : Prop := ∀ t, w.since = some t → t ≤ now

omit [LinearOrder T] in
@[simp] theorem running_zero : (zero : Stopwatch T).running = false := rfl

@[simp] theorem reading_zero (now : T) : (zero : Stopwatch T).reading now = 0 := rfl

omit [AddCommGroup T] [LinearOrder T] in
@[simp] theorem running_startAt (w : Stopwatch T) (now : T) : (w.startAt now).running = true := rfl

@[simp] theorem running_stopAt (w : Stopwatch T) (now : T) : (w.stopAt now).running = false := rfl

@[simp] theorem reading_stopAt (w : Stopwatch T) (now : T) (now' : T) :
    (w.stopAt now).reading now' = w.reading now := rfl

theorem reading_startAt (h : w.running = false) (now : T) :
    (w.startAt now).reading now = w.reading now := by
  cases hs : w.since with
  | none => simp [reading, startAt, hs]
  | some t => simp [running, hs] at h

theorem past_zero (now : T) : (zero : Stopwatch T).Past now := by
  intro t ht
  cases ht

theorem past_stopAt (w : Stopwatch T) (now now' : T) : (w.stopAt now).Past now' := by
  intro t ht
  cases ht

omit [AddCommGroup T] in
theorem past_startAt (w : Stopwatch T) (now : T) : (w.startAt now).Past now := by
  intro t ht
  cases ht
  exact le_rfl

theorem Past.later [IsOrderedAddMonoid T] (h : w.Past now) (hd : 0 ≤ d) : w.Past (now + d) := by
  intro t ht
  exact (h t ht).trans (le_add_of_nonneg_right hd)

/-- Time adds to a reading exactly while a span is open. -/
theorem reading_add [IsOrderedAddMonoid T] (h : w.Past now) (hd : 0 ≤ d) :
    w.reading (now + d) = w.reading now + if w.running then d else 0 := by
  cases hs : w.since with
  | none => simp [reading, running, hs]
  | some t =>
    have ht : 0 ≤ now - t := sub_nonneg.mpr (h t hs)
    have hsum : now + d - t = now - t + d := add_sub_right_comm now d t
    have ht' : 0 ≤ now - t + d := add_nonneg ht hd
    simp [reading, running, hs, hsum, max_eq_right ht, max_eq_right ht', add_assoc]

end Stopwatch
