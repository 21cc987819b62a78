import Mathlib.Data.Finset.Insert
import Mathlib.Data.Finset.Erase
import Mathlib.Algebra.Order.Ring.Rat
import Mathlib.Tactic.Ring

/-! The playback clock that the two playlist feeds share: an origin, named holders that pause it,
and the durations of its items. Times are rational seconds. -/
namespace Kaine.Vision

structure PlaylistClock where
  durations : List (Option ℚ)
  origin : Option ℚ := none
  holders : Finset String := ∅
  pauseStarted : Option ℚ := none
  pausedTotal : ℚ := 0

namespace PlaylistClock

variable {c : PlaylistClock} {now : ℚ} {holder : String}

/-- A clock of items none of which has been measured. -/
def new (itemCount : ℕ) : PlaylistClock := { durations := List.replicate itemCount none }

/-- Fix the origin once. A clock that is already held is born paused. -/
def start (c : PlaylistClock) (at? : Option ℚ) (now : ℚ) : PlaylistClock :=
  match c.origin with
  | some _ => c
  | none =>
    let origin := at?.getD now
    { c with
      origin := some origin
      pauseStarted := if c.holders.Nonempty then some origin else c.pauseStarted }

def started (c : PlaylistClock) : Bool := c.origin.isSome

/-- Before the origin is fixed the first holder's pause is pending: no span opens. -/
def pause (c : PlaylistClock) (holder : String) (now : ℚ) : PlaylistClock :=
  if holder ∈ c.holders then c
  else
    { c with
      holders := insert holder c.holders
      pauseStarted :=
        if c.holders.Nonempty then c.pauseStarted
        else if c.origin.isSome then some now else c.pauseStarted }

/-- The last holder closes the span and adds it to what the clock has been paused for. -/
def resume (c : PlaylistClock) (holder : String) (now : ℚ) : PlaylistClock :=
  if holder ∈ c.holders then
    let holders := c.holders.erase holder
    if holders.Nonempty then { c with holders := holders }
    else
      { c with
        holders := holders
        pausedTotal :=
          match c.origin, c.pauseStarted with
          | some _, some began => c.pausedTotal + (now - began)
          | _, _ => c.pausedTotal
        pauseStarted := none }
  else c

/-- Register an item's duration; the first writer wins. -/
def setDuration (c : PlaylistClock) (idx : ℕ) (seconds : ℚ) : PlaylistClock :=
  match c.durations[idx]? with
  | some none =>
    if 0 < seconds then { c with durations := c.durations.set idx (some seconds) } else c
  | _ => c

def elapsed (c : PlaylistClock) (now : ℚ) : ℚ :=
  match c.origin with
  | none => 0
  | some origin =>
    let inPause :=
      match c.pauseStarted with
      | some began => if c.holders.Nonempty then now - began else 0
      | none => 0
    max 0 (now - origin - c.pausedTotal - inPause)

/-- Walks the items from `idx`, which starts at `acc`. An item without a duration is held. -/
def walk (itemCount : ℕ) (elapsed : ℚ) : List (Option ℚ) → ℕ → ℚ → ℕ × ℚ
  | [], _, _ => (itemCount, 0)
  | none :: _, idx, acc => (idx, max 0 (elapsed - acc))
  | some d :: ds, idx, acc =>
    if elapsed < acc + d then (idx, elapsed - acc)
      else walk itemCount elapsed ds (idx + 1) (acc + d)

/-- The item and the offset in it at an elapsed time, the current one when none is given. -/
def locate (c : PlaylistClock) (elapsed? : Option ℚ) (now : ℚ) : ℕ × ℚ :=
  walk c.durations.length (elapsed?.getD (c.elapsed now)) c.durations 0 0

@[simp] theorem durations_start (c : PlaylistClock) (at? : Option ℚ) (now : ℚ) :
    (c.start at? now).durations = c.durations := by
  cases h : c.origin <;> simp [start, h]

@[simp] theorem durations_pause (c : PlaylistClock) (holder : String) (now : ℚ) :
    (c.pause holder now).durations = c.durations := by
  unfold pause
  split_ifs <;> rfl

@[simp] theorem durations_resume (c : PlaylistClock) (holder : String) (now : ℚ) :
    (c.resume holder now).durations = c.durations := by
  unfold resume
  dsimp only
  split_ifs <;> rfl

@[simp] theorem length_durations_setDuration (c : PlaylistClock) (idx : ℕ) (seconds : ℚ) :
    (c.setDuration idx seconds).durations.length = c.durations.length := by
  unfold setDuration
  split
  · split_ifs <;> simp
  · rfl

@[simp] theorem holders_start (c : PlaylistClock) (at? : Option ℚ) (now : ℚ) :
    (c.start at? now).holders = c.holders := by
  cases h : c.origin <;> simp [start, h]

@[simp] theorem holders_pause (c : PlaylistClock) (holder : String) (now : ℚ) :
    (c.pause holder now).holders = insert holder c.holders := by
  by_cases h : holder ∈ c.holders
  · simp [pause, h]
  · simp [pause, h]

@[simp] theorem holders_resume (c : PlaylistClock) (holder : String) (now : ℚ) :
    (c.resume holder now).holders = c.holders.erase holder := by
  unfold resume
  dsimp only
  split_ifs with h
  · rfl
  · rfl
  · exact (Finset.erase_eq_of_notMem h).symm

@[simp] theorem started_start (c : PlaylistClock) (at? : Option ℚ) (now : ℚ) :
    (c.start at? now).started = true := by
  cases h : c.origin <;> simp [start, started, h]

@[simp] theorem started_pause (c : PlaylistClock) (holder : String) (now : ℚ) :
    (c.pause holder now).started = c.started := by
  unfold pause started
  split_ifs <;> rfl

@[simp] theorem started_resume (c : PlaylistClock) (holder : String) (now : ℚ) :
    (c.resume holder now).started = c.started := by
  unfold resume started
  dsimp only
  split_ifs <;> rfl

/-- The clock reads `perceived`: it runs on from there, or a span opened by now holds it there. -/
structure Reads (c : PlaylistClock) (now perceived : ℚ) : Prop where
  nonneg : 0 ≤ perceived
  unstarted : c.origin = none → perceived = 0 ∧ c.pausedTotal = 0 ∧ c.pauseStarted = none
  running : ∀ o, c.origin = some o → c.holders = ∅ →
    c.pauseStarted = none ∧ perceived = now - o - c.pausedTotal
  held : ∀ o, c.origin = some o → c.holders.Nonempty →
    ∃ p, c.pauseStarted = some p ∧ perceived = p - o - c.pausedTotal

variable {perceived : ℚ}

theorem Reads.elapsed (h : c.Reads now perceived) : c.elapsed now = perceived := by
  cases ho : c.origin with
  | none =>
    obtain ⟨hzero, _, _⟩ := h.unstarted ho
    simp [PlaylistClock.elapsed, ho, hzero]
  | some o =>
    rcases c.holders.eq_empty_or_nonempty with hempty | hne
    · obtain ⟨hnone, hread⟩ := h.running o ho hempty
      have hmax := max_eq_right h.nonneg
      simp only [PlaylistClock.elapsed, ho, hnone, sub_zero]
      rw [← hread, hmax]
    · obtain ⟨p, hp, hread⟩ := h.held o ho hne
      have hspan : now - o - c.pausedTotal - (now - p) = perceived := by
        rw [hread]
        ring
      simp only [PlaylistClock.elapsed, ho, hp, if_pos hne, hspan]
      exact max_eq_right h.nonneg

theorem reads_new (itemCount : ℕ) (now : ℚ) : (new itemCount).Reads now 0 where
  nonneg := le_rfl
  unstarted _ := ⟨rfl, rfl, rfl⟩
  running o ho := by cases ho
  held o ho := by cases ho

/-- Time that passes is perceived exactly when the clock has started and nobody holds it. -/
theorem Reads.later (h : c.Reads now perceived) {d : ℚ} (hd : 0 ≤ d) :
    c.Reads (now + d) (perceived + if c.started ∧ c.holders = ∅ then d else 0) := by
  cases ho : c.origin with
  | none =>
    have hoff : c.started = false := by simp [started, ho]
    simp only [hoff, Bool.false_eq_true, false_and, if_false, add_zero]
    exact ⟨h.nonneg, h.unstarted, fun o hs => (by simp [ho] at hs),
      fun o hs => (by simp [ho] at hs)⟩
  | some o =>
    have hon : c.started = true := by simp [started, ho]
    rcases c.holders.eq_empty_or_nonempty with hempty | hne
    · obtain ⟨hnone, hread⟩ := h.running o ho hempty
      rw [if_pos ⟨hon, hempty⟩]
      refine ⟨add_nonneg h.nonneg hd, fun hs => (by simp [ho] at hs), ?_, ?_⟩
      · rintro o' ho' -
        cases ho.symm.trans ho'
        refine ⟨hnone, ?_⟩
        rw [hread]
        ring
      · intro o' _ hheld
        simp [hempty] at hheld
    · rw [if_neg (fun hand => hne.ne_empty hand.2), add_zero]
      refine ⟨h.nonneg, fun hs => (by simp [ho] at hs), ?_, h.held⟩
      intro o' _ hheld
      exact absurd hheld hne.ne_empty

theorem Reads.start (h : c.Reads now perceived) : (c.start none now).Reads now perceived := by
  cases ho : c.origin with
  | some o => simpa [PlaylistClock.start, ho] using h
  | none =>
    obtain ⟨hzero, htotal, hnone⟩ := h.unstarted ho
    have hstart : c.start none now = { c with
        origin := some now
        pauseStarted := if c.holders.Nonempty then some now else c.pauseStarted } := by
      simp [PlaylistClock.start, ho]
    rw [hstart]
    refine ⟨h.nonneg, fun hs => (by cases hs), ?_, ?_⟩
    · rintro o ho' hempty
      cases ho'
      have hempty : c.holders = ∅ := hempty
      have hnot : ¬c.holders.Nonempty := Finset.not_nonempty_iff_eq_empty.mpr hempty
      refine ⟨by simp [hnot, hnone], ?_⟩
      simp [hzero, htotal]
    · rintro o ho' hne
      cases ho'
      exact ⟨now, if_pos hne, by simp [hzero, htotal]⟩

theorem Reads.pause (h : c.Reads now perceived) (holder : String) :
    (c.pause holder now).Reads now perceived := by
  by_cases hmem : holder ∈ c.holders
  · simpa [PlaylistClock.pause, hmem] using h
  · have hpause : c.pause holder now = { c with
        holders := insert holder c.holders
        pauseStarted :=
          if c.holders.Nonempty then c.pauseStarted
          else if c.origin.isSome then some now else c.pauseStarted } := if_neg hmem
    rw [hpause]
    refine ⟨h.nonneg, ?_, ?_, ?_⟩
    · intro ho
      have ho : c.origin = none := ho
      obtain ⟨hzero, htotal, hnone⟩ := h.unstarted ho
      exact ⟨hzero, htotal, by simp [ho, hnone]⟩
    · intro o _ hempty
      exact absurd hempty (Finset.insert_ne_empty holder c.holders)
    · intro o ho _
      have ho : c.origin = some o := ho
      rcases c.holders.eq_empty_or_nonempty with hempty | hne
      · obtain ⟨_, hread⟩ := h.running o ho hempty
        exact ⟨now, by simp [hempty, ho], hread⟩
      · obtain ⟨p, hp, hread⟩ := h.held o ho hne
        exact ⟨p, by simp [hne, hp], hread⟩

theorem Reads.resume (h : c.Reads now perceived) (holder : String) :
    (c.resume holder now).Reads now perceived := by
  by_cases hmem : holder ∈ c.holders
  · have hheld : c.holders.Nonempty := ⟨holder, hmem⟩
    by_cases hleft : (c.holders.erase holder).Nonempty
    · have hresume : c.resume holder now = { c with holders := c.holders.erase holder } := by
        simp only [PlaylistClock.resume, if_pos hmem, if_pos hleft]
      rw [hresume]
      refine ⟨h.nonneg, h.unstarted, ?_, fun o ho _ => h.held o ho hheld⟩
      intro o _ hempty
      exact absurd hempty hleft.ne_empty
    · have hresume : c.resume holder now = { c with
          holders := c.holders.erase holder
          pausedTotal :=
            match c.origin, c.pauseStarted with
            | some _, some began => c.pausedTotal + (now - began)
            | _, _ => c.pausedTotal
          pauseStarted := none } := by
        simp only [PlaylistClock.resume, if_pos hmem, if_neg hleft]
      rw [hresume]
      refine ⟨h.nonneg, ?_, ?_, fun o _ hne => absurd hne hleft⟩
      · intro ho
        have ho : c.origin = none := ho
        obtain ⟨hzero, htotal, _⟩ := h.unstarted ho
        exact ⟨hzero, by simp [ho, htotal], rfl⟩
      · intro o ho _
        have ho : c.origin = some o := ho
        obtain ⟨p, hp, hread⟩ := h.held o ho hheld
        refine ⟨rfl, ?_⟩
        simp only [ho, hp, hread]
        ring
  · simpa [PlaylistClock.resume, hmem] using h

end PlaylistClock

end Kaine.Vision
