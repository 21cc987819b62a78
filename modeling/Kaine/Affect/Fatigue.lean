import Mathlib.Data.List.Induction
import Mathlib.Tactic.NormNum

/-! Fatigue of the waking hours: what it builds up, and the crossings of its threshold that ask for
sleep. A stretch at or above the threshold asks for sleep once, but for one that a restore begins.
-/
namespace Kaine.Affect.Fatigue

variable {K : Type} [Field K] [LinearOrder K]

/-- What the constructor takes; `injected` where it is given a callable for the housekeeping
pressure. -/
structure Settings (K : Type) [Field K] [LinearOrder K] where
  decayPerS : K
  threshold : K
  fasterDecayFactor : K
  injected : Bool
  decay_nonneg : 0 ≤ decayPerS
  threshold_pos : 0 < threshold
  factor_ge : 1 ≤ fasterDecayFactor

/-- What the pressure callable does: it raises, returns no finite number, or a number. -/
inductive Pressure (K : Type)
  | raises
  | notFinite
  | number (p : K)

structure Accumulator (K : Type) [Field K] where
  value : K := 0
  thresholdCrossed : Bool := false
  fasterDecay : Bool := false
  lastTime : Option K := none

namespace Accumulator

def pressureValue (cfg : Settings K) (s : Accumulator K) (pressure : Pressure K) : K :=
  if cfg.injected = false ∨ s.fasterDecay = true then 0
  else
    match pressure with
    | .raises => 0
    | .notFinite => 0
    | .number p => if p < 0 then 0 else p

/-- The value that an observation integrates to, `last` being the time of the one before. -/
def integrated (cfg : Settings K) (s : Accumulator K) (error : K) (pressure : Pressure K)
    (last now : K) : K :=
  let dt := max 0 (now - last)
  let e := max 0 error
  let p := s.pressureValue cfg pressure
  let decayRate := if s.fasterDecay then cfg.decayPerS * cfg.fasterDecayFactor else cfg.decayPerS
  max 0 (s.value + e * (1 + p) * dt - decayRate * dt)

def update (cfg : Settings K) (s : Accumulator K) (error : K) (pressure : Pressure K) (now : K) :
    Bool × Accumulator K :=
  match s.lastTime with
  | none => (false, { s with lastTime := some now })
  | some last =>
    let newValue := s.integrated cfg error pressure last now
    let newlyCrossed := decide (s.value < cfg.threshold) && decide (cfg.threshold ≤ newValue)
    (newlyCrossed, { s with
      value := newValue
      lastTime := some now
      thresholdCrossed := newlyCrossed || s.thresholdCrossed })

def wouldCross (cfg : Settings K) (s : Accumulator K) (error : K) (pressure : Pressure K)
    (now : K) : Bool :=
  match s.lastTime with
  | none => false
  | some last =>
    decide (s.value < cfg.threshold) &&
      decide (cfg.threshold ≤ s.integrated cfg error pressure last now)

def reset (s : Accumulator K) : Accumulator K :=
  { s with value := 0, thresholdCrossed := false, lastTime := none }

def stateDict (s : Accumulator K) : K := s.value

def loadStateDict (s : Accumulator K) (state : K) : Accumulator K := { s with value := state }

end Accumulator

/-- What happens to an accumulator: it is updated, told of sleep, reset, or saved and loaded into a
fresh one. -/
inductive Op (K : Type)
  | update (error : K) (pressure : Pressure K) (now : K)
  | setFasterDecay (flag : Bool)
  | reset
  | restore

/-- The accumulator after an operation, and whether it has reported a crossing. -/
def step (cfg : Settings K) (s : Accumulator K) : Op K → Bool × Accumulator K
  | .update error pressure now => s.update cfg error pressure now
  | .setFasterDecay flag => (false, { s with fasterDecay := flag })
  | .reset => (false, s.reset)
  | .restore => (false, ({} : Accumulator K).loadStateDict s.stateDict)

variable {cfg : Settings K} {s : Accumulator K} {ops : List (Op K)}

/-- An operation of a run: whether it reported a crossing, and the accumulator after it. -/
structure Entry (K : Type) [Field K] where
  op : Op K
  crossed : Bool
  after : Accumulator K

/-- The accumulator at the end of a history, which has the latest entry first. -/
def current : List (Entry K) → Accumulator K
  | [] => {}
  | entry :: _ => entry.after

/-- The history of a process that performs the operations in turn. -/
def history (cfg : Settings K) (ops : List (Op K)) : List (Entry K) :=
  ops.foldl (fun past op => ⟨op, (step cfg (current past) op).1,
    (step cfg (current past) op).2⟩ :: past) []

/-- The value is below the threshold after this entry, or written by it and not integrated. -/
def Entry.begins (cfg : Settings K) (entry : Entry K) : Bool :=
  decide (entry.after.value < cfg.threshold) ||
    match entry.op with
    | .reset => true
    | .restore => true
    | _ => false

/-- The entries since the value was last below the threshold, reset or restored. -/
def stretch (cfg : Settings K) (past : List (Entry K)) : List (Entry K) :=
  past.takeWhile fun entry => !entry.begins cfg

/-- The crossings that the updates among these entries reported. -/
def crossings (past : List (Entry K)) : ℕ := past.countP (·.crossed)

/-- No restore writes a value at or above the threshold. -/
def RestoresBelow (cfg : Settings K) (ops : List (Op K)) : Prop :=
  ∀ before after, ops = before ++ .restore :: after →
    (current (history cfg before)).value < cfg.threshold

theorem history_concat (cfg : Settings K) (ops : List (Op K)) (op : Op K) :
    history cfg (ops ++ [op]) = ⟨op, (step cfg (current (history cfg ops)) op).1,
      (step cfg (current (history cfg ops)) op).2⟩ :: history cfg ops := by
  unfold history
  rw [List.foldl_append]
  rfl

theorem RestoresBelow.of_concat {op : Op K} (h : RestoresBelow cfg (ops ++ [op])) :
    RestoresBelow cfg ops := by
  intro before after hsplit
  refine h before (after ++ [op]) ?_
  rw [hsplit, List.append_assoc, List.cons_append]

theorem integrated_nonneg (cfg : Settings K) (s : Accumulator K) (error : K) (pressure : Pressure K)
    (last now : K) : 0 ≤ s.integrated cfg error pressure last now := le_max_left _ _

theorem step_nonneg (cfg : Settings K) (op : Op K) (h : 0 ≤ s.value) :
    0 ≤ (step cfg s op).2.value := by
  cases op with
  | update error pressure now =>
    unfold step Accumulator.update
    cases s.lastTime with
    | none => exact h
    | some last => exact integrated_nonneg ..
  | setFasterDecay flag => exact h
  | reset => exact le_rfl
  | restore => exact h

theorem history_nonneg (cfg : Settings K) (ops : List (Op K)) :
    0 ≤ (current (history cfg ops)).value := by
  induction ops using List.reverseRecOn with
  | nil => exact le_rfl
  | append_singleton ops op ih =>
    rw [history_concat]
    exact step_nonneg cfg op ih

theorem wouldCross_eq (cfg : Settings K) (s : Accumulator K) (error : K) (pressure : Pressure K)
    (now : K) : s.wouldCross cfg error pressure now = (s.update cfg error pressure now).1 := by
  unfold Accumulator.wouldCross Accumulator.update
  cases s.lastTime <;> rfl

/-- An update that leaves the value at or above the threshold reports just where it was below. -/
theorem update_crossed {error : K} {pressure : Pressure K} {now : K}
    (h : cfg.threshold ≤ (s.update cfg error pressure now).2.value) :
    (s.update cfg error pressure now).1 = decide (s.value < cfg.threshold) := by
  unfold Accumulator.update at h ⊢
  cases hlast : s.lastTime with
  | none =>
    rw [hlast] at h
    exact (decide_eq_false (not_lt.mpr h)).symm
  | some last =>
    rw [hlast] at h
    dsimp only at h ⊢
    rw [decide_eq_true h, Bool.and_true]

/-- Where the value is below the threshold the stretch is empty. -/
theorem stretch_of_below {past : List (Entry K)} (h : (current past).value < cfg.threshold) :
    stretch cfg past = [] := by
  cases past with
  | nil => rfl
  | cons entry past =>
    have hbegins : entry.begins cfg = true := by
      have hvalue : entry.after.value < cfg.threshold := h
      rw [Entry.begins, decide_eq_true hvalue, Bool.true_or]
    rw [stretch, List.takeWhile_cons_of_neg (by rw [hbegins]; exact Bool.false_ne_true)]

theorem stretch_cons {entry : Entry K} {past : List (Entry K)} (h : entry.begins cfg = false) :
    stretch cfg (entry :: past) = entry :: stretch cfg past := by
  rw [stretch, List.takeWhile_cons_of_pos (by rw [h]; rfl)]
  rfl

/-- The crossings of the stretch at or above the threshold are one. -/
theorem crossings_stretch (h : RestoresBelow cfg ops)
    (habove : cfg.threshold ≤ (current (history cfg ops)).value) :
    crossings (stretch cfg (history cfg ops)) = 1 := by
  induction ops using List.reverseRecOn with
  | nil => exact absurd habove (not_le.mpr cfg.threshold_pos)
  | append_singleton ops op ih =>
    rw [history_concat] at habove ⊢
    change cfg.threshold ≤ (step cfg (current (history cfg ops)) op).2.value at habove
    have hbefore := ih h.of_concat
    have hbegins := decide_eq_false (not_lt.mpr habove)
    cases op with
    | update error pressure now =>
      have hcrossed := update_crossed (s := current (history cfg ops)) habove
      rw [stretch_cons (by rw [Entry.begins, hbegins]; rfl), crossings, List.countP_cons]
      change (stretch cfg (history cfg ops)).countP (·.crossed) +
        (if (Accumulator.update cfg (current (history cfg ops)) error pressure now).1 = true then 1
          else 0) = 1
      rw [hcrossed]
      rcases lt_or_ge (current (history cfg ops)).value cfg.threshold with hbelow | hstays
      · rw [stretch_of_below hbelow, decide_eq_true hbelow]
        rfl
      · rw [decide_eq_false (not_lt.mpr hstays)]
        exact hbefore hstays
    | setFasterDecay flag =>
      rw [stretch_cons (by rw [Entry.begins, hbegins]; rfl), crossings,
        List.countP_cons_of_neg Bool.false_ne_true]
      exact hbefore habove
    | reset => exact absurd habove (not_le.mpr cfg.threshold_pos)
    | restore => exact absurd (h ops [] rfl) (not_lt.mpr habove)

/-- In every run the value is not negative and a crossing is foretold; where no restore writes a
value at or above the threshold, each stretch there has reported one crossing. -/
theorem asks_for_sleep (cfg : Settings K) (ops : List (Op K)) :
    0 ≤ (current (history cfg ops)).value ∧
      (∀ error pressure now, (current (history cfg ops)).wouldCross cfg error pressure now =
        ((current (history cfg ops)).update cfg error pressure now).1) ∧
      (RestoresBelow cfg ops → cfg.threshold ≤ (current (history cfg ops)).value →
        crossings (stretch cfg (history cfg ops)) = 1) :=
  ⟨history_nonneg cfg ops, wouldCross_eq cfg _, crossings_stretch⟩

/-- The parameters that a bare constructor has. -/
def defaults : Settings ℚ where
  decayPerS := 1 / 100
  threshold := 100
  fasterDecayFactor := 3
  injected := false
  decay_nonneg := by norm_num
  threshold_pos := by norm_num
  factor_ge := by norm_num

/-- An entity that is restored before it tires, and then stays above the threshold. -/
def tiring : List (Op ℚ) :=
  [.update 0 .raises 0, .restore, .update 0 .raises 1, .update 200 .raises 2, .update 200 .raises 3]

theorem asks_for_sleep_tiring : defaults.threshold ≤ (current (history defaults tiring)).value ∧
    crossings (stretch defaults (history defaults tiring)) = 1 := by
  have habove : defaults.threshold ≤ (current (history defaults tiring)).value := by decide +kernel
  refine ⟨habove, (asks_for_sleep defaults tiring).2.2 ?_ habove⟩
  intro before after hsplit
  rcases before with _ | ⟨first, _ | ⟨a, _ | ⟨b, _ | ⟨c, _ | ⟨d, before⟩⟩⟩⟩⟩
  · cases hsplit
  · cases hsplit
    decide +kernel
  · cases hsplit
  · cases hsplit
  · cases hsplit
  · simp [tiring] at hsplit

/-- An entity that is saved in a stretch above the threshold, and wakes in it. -/
def savedTired : List (Op ℚ) :=
  [.update 0 .raises 0, .update 200 .raises 1, .restore, .update 200 .raises 2,
    .update 200 .raises 3]

/-- No update of the restored entity has reported a crossing, at almost four times the threshold. -/
theorem savedTired_unreported : defaults.threshold ≤ (current (history defaults savedTired)).value ∧
    crossings (stretch defaults (history defaults savedTired)) = 0 := by
  decide +kernel

end Kaine.Affect.Fatigue
