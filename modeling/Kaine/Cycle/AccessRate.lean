import Kaine.Bus.Schema
import Mathlib.Algebra.BigOperators.Group.Finset.Basic
import Mathlib.Data.Rat.Floor

/-! The adaptive access rate and the cadence of experiential broadcasts
(`kaine/cycle/access_rate.py` and `kaine/cycle/engine.py`). Broadcasts keep pace with the sum of the
ratios, and the rate stays between rest and ceiling. -/
namespace Kaine.AccessRate
open Py Bus

/-- The configuration that `from_section` accepts. -/
structure AccessRateConfig where
  enabled : Bool := true
  salienceFloor : ℚ := 1 / 2
  phasicDecayS : ℚ := 1
  baselineArousal : ℚ := 3 / 10
  decay_pos : 0 < phasicDecayS := by decide

def excludedSources : List String := ["cycle", "workspace"]

/-- What is of a value above a threshold, as a part of the way from there to 1. -/
def above (value threshold : ℚ) : ℚ :=
  if 1 ≤ threshold then 0 else max 0 (min 1 ((value - threshold) / (1 - threshold)))

def tonicDrive (arousal : Option PyFloat) (baseline : ℚ) : ℚ :=
  match arousal with
  | some (.fin a) => above a baseline
  | _ => 0

def phasicInput (maxSalience : Option ℚ) (floor : ℚ) : ℚ :=
  match maxSalience with
  | some s => above s floor
  | none => 0

/-- A report that a module marks as an alert. -/
def isAlert (event : Event) : Bool :=
  event.source ∉ excludedSources && Dict.get event.payload "alert" = .bool true

def maxReportSalience (events : List (String × Event)) : Option ℚ :=
  events.foldl
    (fun maxS entry =>
      if isAlert entry.2 then
        match maxS with
        | none => some entry.2.salience
        | some s => some (if s < entry.2.salience then entry.2.salience else s)
      else maxS)
    none

structure AccessRateController where
  config : AccessRateConfig
  drive : ℚ := 0
  phasic : ℚ := 0

/-- The drive and the effective rate, and the controller after the tick; `exp` is `math.exp`. -/
def AccessRateController.step (exp : ℚ → ℚ) (c : AccessRateController)
    (events : List (String × Event)) (arousal : Option PyFloat) (dtS restingHz ceilingHz : ℚ) :
    (ℚ × ℚ) × AccessRateController :=
  if !c.config.enabled then ((0, restingHz), { c with drive := 0, phasic := 0 })
  else
    let decayed := c.phasic * exp (-max dtS 0 / c.config.phasicDecayS)
    let inputVal := phasicInput (maxReportSalience events) c.config.salienceFloor
    let phasic := max inputVal decayed
    let drive := max (tonicDrive arousal c.config.baselineArousal) phasic
    let effective := if ceilingHz ≤ restingHz then restingHz
      else restingHz + (ceilingHz - restingHz) * drive
    ((drive, max (min restingHz ceilingHz) (min effective (max restingHz ceilingHz))),
      { c with drive, phasic })

/-- The cycle's rates and its controller, if one is wired. -/
structure Cycle where
  processingRate : ℚ
  targetTickPeriod : ℚ
  experientialRate : ℚ
  effectiveExperientialRate : ℚ
  accessDrive : ℚ := 0
  accessRate : Option AccessRateController := none

/-- `_update_access_rate`; a provider that raises gives no arousal. -/
def Cycle.updateAccessRate (exp : ℚ → ℚ) (s : Cycle) (events : List (String × Event))
    (arousal : Option PyFloat) : Cycle :=
  match s.accessRate with
  | none => { s with effectiveExperientialRate := s.experientialRate, accessDrive := 0 }
  | some c =>
    let result := c.step exp events arousal s.targetTickPeriod s.experientialRate s.processingRate
    { s with
      accessDrive := result.1.1, effectiveExperientialRate := result.1.2
      accessRate := some result.2 }

/-- `_advance_experiential`: the ratio of the effective rate to the processing rate is added to the
accumulator; whether a broadcast is due, and what is left. -/
def advance (acc ratio : ℚ) : Bool × ℚ :=
  if 1 ≤ acc + ratio then
    -- The broadcast is taken off first, so that the carry is kept.
    (true, if 1 < acc + ratio - 1 then 1 else acc + ratio - 1)
  else (false, acc + ratio)

/-- The accumulator after so many ticks of the given ratios. -/
def accumulator (ratio : ℕ → ℚ) : ℕ → ℚ
  | 0 => 0
  | n + 1 => (advance (accumulator ratio n) (ratio n)).2

/-- The number of experiential broadcasts in so many ticks. -/
def broadcasts (ratio : ℕ → ℚ) : ℕ → ℕ
  | 0 => 0
  | n + 1 => broadcasts ratio n + if (advance (accumulator ratio n) (ratio n)).1 then 1 else 0

variable {acc ratio : ℚ} {ratios : ℕ → ℚ} {n : ℕ}

/-- The accumulator stays within one broadcast. -/
theorem advance_mem (hacc : 0 ≤ acc ∧ acc ≤ 1) (hratio : 0 < ratio) :
    0 ≤ (advance acc ratio).2 ∧ (advance acc ratio).2 ≤ 1 := by
  obtain ⟨hlow, hhigh⟩ := hacc
  unfold advance
  split_ifs with hdue hover
  · exact ⟨zero_le_one, le_refl 1⟩
  · exact ⟨by linarith, by linarith⟩
  · exact ⟨by linarith, by linarith⟩

theorem accumulator_mem (hratios : ∀ i, 0 < ratios i) (n : ℕ) :
    0 ≤ accumulator ratios n ∧ accumulator ratios n ≤ 1 := by
  induction n with
  | zero => exact ⟨le_refl 0, zero_le_one⟩
  | succ n ih => exact advance_mem ih (hratios n)

/-- Below the processing rate a broadcast takes exactly one off, and what is left is less than
one. -/
theorem advance_carry (hacc : 0 ≤ acc ∧ acc < 1) (hratio : 0 < ratio ∧ ratio ≤ 1) :
    (0 ≤ (advance acc ratio).2 ∧ (advance acc ratio).2 < 1) ∧
      acc + ratio = (if (advance acc ratio).1 then 1 else 0) + (advance acc ratio).2 := by
  obtain ⟨hlow, hhigh⟩ := hacc
  obtain ⟨hpos, hle⟩ := hratio
  unfold advance
  by_cases hdue : 1 ≤ acc + ratio
  · have hover : ¬ 1 < acc + ratio - 1 := by linarith
    rw [if_pos hdue, if_neg hover]
    exact ⟨⟨by linarith, by linarith⟩, by rw [if_pos rfl]; ring⟩
  · rw [if_neg hdue]
    exact ⟨⟨by linarith, by linarith⟩, by rw [if_neg Bool.false_ne_true]; ring⟩

/-- The ratios so far are the broadcasts and what is left. -/
theorem sum_eq (hratios : ∀ i, 0 < ratios i ∧ ratios i ≤ 1) (n : ℕ) :
    (0 ≤ accumulator ratios n ∧ accumulator ratios n < 1) ∧
      ∑ i ∈ Finset.range n, ratios i = broadcasts ratios n + accumulator ratios n := by
  induction n with
  | zero => exact ⟨⟨le_refl 0, zero_lt_one⟩, by simp [accumulator, broadcasts]⟩
  | succ n ih =>
    obtain ⟨hacc, hsum⟩ := ih
    obtain ⟨hmem, hcarry⟩ := advance_carry hacc (hratios n)
    refine ⟨hmem, ?_⟩
    rw [Finset.sum_range_succ, hsum, add_assoc, hcarry, broadcasts, accumulator, Nat.cast_add,
      add_assoc]
    cases (advance (accumulator ratios n) (ratios n)).1 <;> simp

/-- A clamp keeps a value between its bounds. -/
theorem clamp_mem {low high x : ℚ} (h : low ≤ high) :
    low ≤ max (min low high) (min x (max low high)) ∧
      max (min low high) (min x (max low high)) ≤ high := by
  rw [min_eq_left h, max_eq_right h]
  exact ⟨le_max_left _ _, max_le h (min_le_right _ _)⟩

theorem step_mem (exp : ℚ → ℚ) (c : AccessRateController) (events : List (String × Event))
    (arousal : Option PyFloat) (dtS : ℚ) {restingHz ceilingHz : ℚ} (h : restingHz ≤ ceilingHz) :
    restingHz ≤ (c.step exp events arousal dtS restingHz ceilingHz).1.2 ∧
      (c.step exp events arousal dtS restingHz ceilingHz).1.2 ≤ ceilingHz := by
  unfold AccessRateController.step
  split_ifs
  · exact ⟨le_refl _, h⟩
  · exact clamp_mem h
  · exact clamp_mem h

/-- The count of broadcasts, the bounds of the accumulator, and those of the effective rate. -/
theorem cadence_exact (exp : ℚ → ℚ) :
    (∀ ratios : ℕ → ℚ, (∀ i, 0 < ratios i ∧ ratios i ≤ 1) → ∀ n,
      (broadcasts ratios n : ℤ) = ⌊∑ i ∈ Finset.range n, ratios i⌋) ∧
    (∀ ratios : ℕ → ℚ, (∀ i, 0 < ratios i) → ∀ n,
      0 ≤ accumulator ratios (n + 1) ∧ accumulator ratios (n + 1) ≤ 1 ∧
        broadcasts ratios (n + 1) ≤ broadcasts ratios n + 1) ∧
    (∀ (s : Cycle) (c : AccessRateController) (events : List (String × Event))
      (arousal : Option PyFloat), s.accessRate = some c → c.config.enabled = true →
        s.experientialRate ≤ s.processingRate →
      s.experientialRate ≤ (s.updateAccessRate exp events arousal).effectiveExperientialRate ∧
        (s.updateAccessRate exp events arousal).effectiveExperientialRate ≤ s.processingRate) := by
  refine ⟨fun ratios hratios n => ?_, fun ratios hratios n => ?_,
    fun s c events arousal hwired _ hle => ?_⟩
  · obtain ⟨⟨hlow, hhigh⟩, hsum⟩ := sum_eq hratios n
    rw [hsum, eq_comm, Int.floor_eq_iff]
    push_cast
    exact ⟨by linarith, by linarith⟩
  · obtain ⟨hlow, hhigh⟩ := accumulator_mem hratios (n + 1)
    refine ⟨hlow, hhigh, ?_⟩
    rw [broadcasts]
    split_ifs <;> omega
  · unfold Cycle.updateAccessRate
    rw [hwired]
    exact step_mem exp c events arousal _ hle

/-- At 10/3 Hz over 10 Hz every third tick is a broadcast. -/
theorem cadence_thirds : broadcasts (fun _ => 1 / 3) 9 = 3 ∧ accumulator (fun _ => 5) 2 ≤ 1 := by
  obtain ⟨hcount, hbounds, -⟩ := cadence_exact fun _ => 1
  refine ⟨?_, (hbounds (fun _ => 5) (fun _ => by norm_num) 1).2.1⟩
  have h := hcount (fun _ => 1 / 3) (fun _ => ⟨by norm_num, by norm_num⟩) 9
  have hsum : ∑ _i ∈ Finset.range 9, (1 / 3 : ℚ) = 3 := by
    rw [Finset.sum_const, Finset.card_range]
    norm_num
  rw [hsum, show ⌊(3 : ℚ)⌋ = 3 from Int.floor_intCast 3] at h
  exact_mod_cast h

end Kaine.AccessRate
