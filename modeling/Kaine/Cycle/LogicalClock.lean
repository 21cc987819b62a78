import Kaine.Lib.Timedelta
import Mathlib.Algebra.BigOperators.Ring.List

/-! The logical clock of the deterministic mode (`kaine/cycle/engine.py`). The stamps of a run of
the logical clock, against the epoch plus the ticks times the period. -/
namespace Kaine.LogicalClock
open Py

/-- The part of the engine that the logical clock reads. Times are microseconds after
`BASE_EPOCH`. -/
structure Engine where
  tickIndex : ℕ := 0
  targetTickPeriod : Double
  logicalDt : ℤ := 0
  logicalLastTick : Option ℕ := none

def period (hz : Double) : Double := Double.round 1 / hz

/-- A new engine, `none` for the `ValueError`. -/
def Engine.new (hz : Double) : Option Engine :=
  if hz ≤ Double.round 0 then none else some { targetTickPeriod := period hz }

namespace Engine

def setProcessingRate (s : Engine) (hz : Double) : Option Engine :=
  if hz ≤ Double.round 0 then none else some { s with targetTickPeriod := period hz }

/-- The time that a number of ticks of one period takes. -/
def span (period : Double) (ticks : ℕ) : Double := Double.round ticks * period

/-- The stamp, `none` where the `timedelta` or the sum raises, and the engine that is left. -/
def logicalNow (s : Engine) : Option ℤ × Engine :=
  match s.logicalLastTick with
  | none => (some 0, { s with logicalLastTick := some s.tickIndex, logicalDt := 0 })
  | some last =>
    if s.tickIndex = last then (some s.logicalDt, s)
    else
      match (timedelta (span s.targetTickPeriod (s.tickIndex - last))).bind
        (datetimeAdd s.logicalDt) with
      | some logicalDt =>
        (some logicalDt, { s with logicalDt, logicalLastTick := some s.tickIndex })
      | none => (none, s)

end Engine

inductive Op where
  | setRate (hz : Double)
  | tick
  | now

/-- A step of the engine, and the stamp of its tick that it reads. -/
def perform (s : Engine) : Op → Option (ℕ × ℤ) × Engine
  | .setRate hz => (none, (s.setProcessingRate hz).getD s)
  | .tick => (none, { s with tickIndex := s.tickIndex + 1 })
  | .now => (s.logicalNow.1.map fun stamp => (s.tickIndex, stamp), s.logicalNow.2)

/-- The stamps that are read, each with its tick. -/
def stamps (s : Engine) : List Op → List (ℕ × ℤ)
  | [] => []
  | op :: rest => (perform s op).1.toList ++ stamps (perform s op).2 rest

open Rounding Engine

section Rates

variable {hz p x : Double} {q : ℚ} {n : ℕ}

theorem val_round_of_mem (hq : IsBinary64 q) (hbound : |q| < (2 ^ 53 : ℕ)) :
    (Double.round q).val = .fin q := by
  have hself : binary64 q = q := nearest_binary64.eq_self hq
  have hpow : ∀ k, 53 < k → ((2 ^ 53 : ℕ) : ℚ) < ((2 ^ k : ℕ) : ℚ) := fun k hk =>
    Nat.cast_lt.mpr (Nat.pow_lt_pow_right Nat.one_lt_two hk)
  have hlarge : ((2 ^ 53 : ℕ) : ℚ) < doubleBound := by
    unfold doubleBound
    exact hpow 1024 (by omega)
  rw [Double.round_val (by rw [hself]; exact hbound.trans hlarge), hself]

theorem le_fin {y : Double} {a b : ℚ} (hx : x.val = .fin a) (hy : y.val = .fin b) :
    x ≤ y ↔ a ≤ b := by
  rw [Double.le_iff, hx, hy]
  exact decide_eq_true_iff

theorem val_one : (Double.round 1).val = .fin 1 :=
  val_round_of_mem ⟨1, 0, by norm_num, by norm_num, by norm_num⟩ (by norm_num)

theorem val_million : (Double.round 1000000).val = .fin 1000000 :=
  val_round_of_mem ⟨1000000, 0, by norm_num, by norm_num, by norm_num⟩ (by norm_num)

theorem val_millionth : (Double.round (1 / 2 ^ 20)).val = .fin (1 / 2 ^ 20) :=
  val_round_of_mem ⟨1, -20, by norm_num, by norm_num, by norm_num⟩ (by norm_num)

/-- A period of a rate of at most a million ticks a second. -/
def Fast (p : Double) : Prop := Double.round (1 / 2 ^ 20) ≤ p

theorem period_fast (hpos : ¬hz ≤ Double.round 0) (hle : hz ≤ Double.round 1000000) :
    Fast (period hz) := by
  cases hval : hz.val with
  | fin q =>
    rw [le_fin hval Double.round_zero, not_le] at hpos
    rw [le_fin hval val_million] at hle
    rw [Fast, period, Double.div_fin val_one hval]
    refine Double.round_mono (one_div_le_one_div_of_le hpos (hle.trans ?_))
    norm_num
  | negInf =>
    refine absurd ?_ hpos
    rw [Double.le_iff, hval, Double.round_zero]
    rfl
  | posInf =>
    rw [Double.le_iff, hval, val_million] at hle
    cases hle
  | nan =>
    rw [Double.le_iff, hval, val_million] at hle
    cases hle

/-- A float that is at least a number is a number, or infinite. -/
theorem fin_or_posInf {y : Double} {a : ℚ} (hx : x.val = .fin a) (h : x ≤ y) :
    (∃ b, y.val = .fin b ∧ a ≤ b) ∨ y.val = .posInf := by
  cases hy : y.val with
  | fin b => exact .inl ⟨b, rfl, (le_fin hx hy).mp h⟩
  | posInf => exact .inr rfl
  | _ =>
    rw [Double.le_iff, hx, hy] at h
    cases h

/-- A tick and more of such a period take a millionth of a second at least. -/
theorem millionth_le_span (hp : Fast p) (hn : 1 ≤ n) (hspan : (span p n).val = .fin q) :
    1 / 2 ^ 20 ≤ q := by
  have hticks : Double.round 1 ≤ Double.round n := Double.round_mono (by exact_mod_cast hn)
  have hinf : span p n ≠ Double.inf := by
    intro h
    rw [h] at hspan
    cases hspan
  rcases fin_or_posInf val_one hticks with ⟨b, hb, hone⟩ | hb
  · rcases fin_or_posInf val_millionth hp with ⟨a, ha, hlong⟩ | ha
    · have hprod : (1 : ℚ) / 2 ^ 20 ≤ b * a := by
        calc (1 : ℚ) / 2 ^ 20 ≤ a := hlong
          _ ≤ b * a := le_mul_of_one_le_left (le_trans (by norm_num) hlong) hone
      have hle : Double.round (1 / 2 ^ 20) ≤ span p n := by
        rw [span, Double.mul_fin hb ha]
        exact Double.round_mono hprod
      exact (le_fin val_millionth hspan).mp hle
    · have hpos : 0 < Double.signed (Double.round n).val := by
        rw [hb]; exact zero_lt_one.trans_le hone
      exact absurd (Double.mul_posInf hpos ha) hinf
  · have hpos : 0 < Double.signed p.val := by
      rcases fin_or_posInf val_millionth hp with ⟨a, ha, hlong⟩ | ha
      · rw [ha]
        exact lt_of_lt_of_le (by norm_num) hlong
      · rw [ha]
        exact zero_lt_one
    exact absurd (Double.posInf_mul hb hpos) hinf

end Rates

/-- The stamps of two ticks: one stamp for one tick, a later stamp for a later tick. -/
def Follows (a b : ℕ × ℤ) : Prop := a.1 ≤ b.1 ∧ (a.1 = b.1 → a.2 = b.2) ∧ (a.1 < b.1 → a.2 < b.2)

theorem Follows.refl (a : ℕ × ℤ) : Follows a a :=
  ⟨le_rfl, fun _ => rfl, fun h => absurd h (lt_irrefl _)⟩

theorem Follows.trans {a b c : ℕ × ℤ} (hab : Follows a b) (hbc : Follows b c) : Follows a c := by
  refine ⟨hab.1.trans hbc.1, fun heq => ?_, fun hlt => ?_⟩
  · have hb : a.1 = b.1 := le_antisymm hab.1 (heq ▸ hbc.1)
    exact (hab.2.1 hb).trans (hbc.2.1 (hb ▸ heq))
  · rcases hab.1.lt_or_eq with hfirst | hfirst
    · rcases hbc.1.lt_or_eq with hsecond | hsecond
      · exact (hab.2.2 hfirst).trans (hbc.2.2 hsecond)
      · exact (hab.2.2 hfirst).trans_eq (hbc.2.1 hsecond)
    · rw [hab.2.1 hfirst]
      exact hbc.2.2 (hfirst ▸ hlt)

variable {s : Engine} {y : ℕ × ℤ} {stamp : ℤ}

/-- An engine whose last stamp is `y`. -/
structure Stands (s : Engine) (y : ℕ × ℤ) : Prop where
  last : s.logicalLastTick = some y.1
  stamp : s.logicalDt = y.2
  le : y.1 ≤ s.tickIndex

/-- The microseconds of a number of periods before they are rounded. -/
def unrounded (p : Double) (n : ℕ) : ℚ :=
  match (span p n).val with
  | .fin q => microseconds q
  | _ => 0

/-- The microseconds that a step of the clock adds. -/
def whole (p : Double) (n : ℕ) : ℤ := halfEven (unrounded p n)

theorem unrounded_of_fin {p : Double} {n : ℕ} {q : ℚ} (h : (span p n).val = .fin q) :
    unrounded p n = microseconds q := by
  unfold unrounded
  generalize (span p n).val = v at *
  subst h
  rfl

theorem halfEven_zero : halfEven 0 = 0 := by
  rw [halfEven_eq_iff]
  left
  simp

theorem val_span_zero {p : Double} {q : ℚ} (h : (span p 0).val = .fin q) : q = 0 := by
  have hzero : (Double.round ((0 : ℕ) : ℚ)).val = .fin 0 := by
    rw [Nat.cast_zero]
    exact Double.round_zero
  cases hp : p.val with
  | fin a =>
    rw [span, Double.mul_fin hzero hp, zero_mul, Double.round_zero] at h
    exact (PyFloat.fin.inj h).symm
  | _ =>
    have hnan : span p 0 = Double.nan := by
      change Double.mul _ p = _
      rw [Double.mul, hzero, hp]
      simp [Double.infinity, Double.signed]
    rw [hnan] at h
    cases h

theorem whole_zero (p : Double) : whole p 0 = 0 := by
  have hzero : unrounded p 0 = 0 := by
    unfold unrounded
    split
    · rename_i hspan
      rw [val_span_zero hspan, microseconds_zero]
    · rfl
  rw [whole, hzero, halfEven_zero]

/-- The microseconds that a `datetime` can hold. -/
def InRange (moment : ℤ) : Prop := -62135596800000000 ≤ moment ∧ moment ≤ 253402300799999999

theorem inRange_zero : InRange 0 := ⟨by decide, by decide⟩

/-- What a stamp that is read adds to the last one, and the engine that is left. -/
theorem logicalNow_eq_some (h : Stands s y) (hnow : s.logicalNow.1 = some stamp) :
    stamp = y.2 + whole s.targetTickPeriod (s.tickIndex - y.1) ∧
      Stands s.logicalNow.2 (s.tickIndex, stamp) ∧
        s.logicalNow.2.targetTickPeriod = s.targetTickPeriod ∧
      (InRange y.2 → InRange stamp) ∧
      (s.tickIndex ≠ y.1 → ∃ q, (span s.targetTickPeriod (s.tickIndex - y.1)).val = .fin q) := by
  rw [logicalNow, h.last] at hnow ⊢
  dsimp only at hnow ⊢
  by_cases hsame : s.tickIndex = y.1
  · rw [if_pos hsame] at hnow ⊢
    obtain rfl := Option.some.inj hnow
    rw [hsame, Nat.sub_self, whole_zero, add_zero]
    refine ⟨h.stamp, ⟨h.last, rfl, hsame.ge⟩, rfl, fun hrange => ?_, fun hne => absurd rfl hne⟩
    rwa [h.stamp]
  · rw [if_neg hsame] at hnow ⊢
    cases hadd : (timedelta (span s.targetTickPeriod (s.tickIndex - y.1))).bind
      (datetimeAdd s.logicalDt) with
    | none =>
      rw [hadd] at hnow
      cases hnow
    | some sum =>
      rw [hadd] at hnow
      obtain rfl := Option.some.inj hnow
      obtain ⟨us, hus, hsum⟩ := Option.bind_eq_some_iff.mp hadd
      obtain ⟨q, hspan, hround, -⟩ := timedelta_eq_some.mp hus
      obtain ⟨hsum, hrange⟩ := datetimeAdd_eq_some.mp hsum
      rw [whole, unrounded_of_fin hspan, hround, ← h.stamp, hsum]
      exact ⟨rfl, ⟨rfl, rfl, le_rfl⟩, rfl, fun _ => hrange, fun _ => ⟨q, hspan⟩⟩

/-- An engine that could not read a stamp is unchanged. -/
theorem logicalNow_eq_none (hnow : s.logicalNow.1 = none) : s.logicalNow.2 = s := by
  rw [logicalNow] at hnow ⊢
  cases hlast : s.logicalLastTick with
  | none =>
    rw [hlast] at hnow
    cases hnow
  | some last =>
    rw [hlast] at hnow
    dsimp only at hnow ⊢
    by_cases hsame : s.tickIndex = last
    · rw [if_pos hsame] at hnow
      cases hnow
    · rw [if_neg hsame] at hnow ⊢
      cases hadd :
        (timedelta (span s.targetTickPeriod (s.tickIndex - last))).bind
          (datetimeAdd s.logicalDt) with
      | none => rfl
      | some sum =>
        rw [hadd] at hnow
        cases hnow

/-- A stamp of a later tick is later, where the rate is at most a million ticks a second. -/
theorem one_le_whole {p : Double} (hp : Fast p) {n : ℕ} (hn : 1 ≤ n) {q : ℚ}
    (h : (span p n).val = .fin q) : 1 ≤ whole p n := by
  rw [whole, unrounded_of_fin h]
  exact one_le_of_millionth (millionth_le_span hp hn h)

theorem now_follows (h : Stands s y) (hp : Fast s.targetTickPeriod)
    (hnow : s.logicalNow.1 = some stamp) : Follows y (s.tickIndex, stamp) := by
  obtain ⟨hstamp, -, -, -, hspan⟩ := logicalNow_eq_some h hnow
  refine ⟨h.le, fun hsame => ?_, fun hlater => ?_⟩
  · change y.1 = s.tickIndex at hsame
    rw [hstamp, ← hsame, Nat.sub_self, whole_zero, add_zero]
  · change y.1 < s.tickIndex at hlater
    obtain ⟨q, hq⟩ := hspan hlater.ne'
    have hone := one_le_whole hp (by omega : 1 ≤ s.tickIndex - y.1) hq
    change y.2 < stamp
    omega

/-- No rate is above a million ticks a second. -/
def RatesFast (ops : List Op) : Prop := ∀ hz, .setRate hz ∈ ops → hz ≤ Double.round 1000000

theorem setRate_fast {hz : Double} (hp : Fast s.targetTickPeriod)
    (hz_le : hz ≤ Double.round 1000000) :
    Fast ((s.setProcessingRate hz).getD s).targetTickPeriod := by
  rw [setProcessingRate]
  split_ifs with hpos
  · exact hp
  · exact period_fast hpos hz_le

theorem setRate_stands (h : Stands s y) (hz : Double) :
    Stands ((s.setProcessingRate hz).getD s) y := by
  rw [setProcessingRate]
  split_ifs
  · exact h
  · exact ⟨h.last, h.stamp, h.le⟩

theorem tick_stands (h : Stands s y) : Stands { s with tickIndex := s.tickIndex + 1 } y :=
  ⟨h.last, h.stamp, h.le.trans (Nat.le_succ _)⟩

theorem stamps_now (s : Engine) (rest : List Op) :
    stamps s (.now :: rest) =
      match s.logicalNow.1 with
      | some stamp => (s.tickIndex, stamp) :: stamps s.logicalNow.2 rest
      | none => stamps s rest := by
  rw [stamps, perform]
  cases hnow : s.logicalNow.1 with
  | some stamp => rfl
  | none =>
    rw [logicalNow_eq_none hnow]
    rfl

theorem stamps_follow (ops : List Op) :
    ∀ {s : Engine} {y : ℕ × ℤ}, Stands s y → Fast s.targetTickPeriod → RatesFast ops →
      (stamps s ops).Pairwise Follows ∧ ∀ x ∈ stamps s ops, Follows y x := by
  induction ops with
  | nil =>
    intro s y _ _ _
    exact ⟨List.Pairwise.nil, fun x hx => by cases hx⟩
  | cons op rest ih =>
    intro s y h hp hrates
    have hrest : RatesFast rest := fun hz hmem => hrates hz (List.mem_cons_of_mem _ hmem)
    cases op with
    | setRate hz =>
      exact ih (setRate_stands h hz) (setRate_fast hp (hrates hz List.mem_cons_self)) hrest
    | tick => exact ih (tick_stands h) hp hrest
    | now =>
      rw [stamps_now]
      cases hnow : s.logicalNow.1 with
      | none => exact ih h hp hrest
      | some stamp =>
        obtain ⟨-, hstands, hperiod, -⟩ := logicalNow_eq_some h hnow
        have hfollows := now_follows h hp hnow
        obtain ⟨hpairwise, hlater⟩ := ih hstands (hperiod ▸ hp) hrest
        refine ⟨List.pairwise_cons.mpr ⟨hlater, hpairwise⟩, fun x hx => ?_⟩
        rcases List.mem_cons.mp hx with rfl | hx
        · exact hfollows
        · exact hfollows.trans (hlater x hx)

/-- The first stamp of a run is the epoch, and the rest of the run goes on from it. -/
theorem stamps_first (ops : List Op) :
    ∀ {s : Engine}, s.logicalLastTick = none →
      stamps s ops = [] ∨
      ∃ s' t rest, stamps s ops = (t, 0) :: stamps s' rest ∧ Stands s' (t, 0) ∧
        rest ⊆ ops ∧
        (Fast s.targetTickPeriod → RatesFast ops → Fast s'.targetTickPeriod) ∧
        ((∀ hz, .setRate hz ∉ ops) → s'.targetTickPeriod = s.targetTickPeriod) := by
  induction ops with
  | nil => exact fun _ => .inl rfl
  | cons op rest ih =>
    intro s hlast
    have hmem : ∀ {later : List Op}, later ⊆ rest → later ⊆ op :: rest :=
        fun h _ hx => List.mem_cons_of_mem op (h hx)
    cases op with
    | setRate hz =>
      have hnone : ((s.setProcessingRate hz).getD s).logicalLastTick = none := by
        rw [setProcessingRate]
        split_ifs <;> exact hlast
      rcases ih hnone with hnil | ⟨s', t, later, heq, hstands, hsub, hfast, -⟩
      · exact .inl hnil
      · refine .inr ⟨s', t, later, heq, hstands, hmem hsub, fun hp hrates => ?_, fun hno => ?_⟩
        · have hfirst := setRate_fast hp (hrates hz List.mem_cons_self)
          exact hfast hfirst fun hz' h => hrates hz' (List.mem_cons_of_mem _ h)
        · exact absurd List.mem_cons_self (hno hz)
    | tick =>
      rcases ih (s := { s with tickIndex := s.tickIndex + 1 }) hlast with hnil | ⟨s', t, later,
        heq, hstands, hsub, hfast, hsame⟩
      · exact .inl hnil
      · refine .inr ⟨s', t, later, heq, hstands, hmem hsub, fun hp hrates => ?_, fun hno => ?_⟩
        · exact hfast hp fun hz' h => hrates hz' (List.mem_cons_of_mem _ h)
        · exact hsame fun hz h => hno hz (List.mem_cons_of_mem _ h)
    | now =>
      have hnow : s.logicalNow =
          (some 0, { s with logicalLastTick := some s.tickIndex, logicalDt := 0 }) := by
        rw [logicalNow, hlast]
      refine .inr ⟨s.logicalNow.2, s.tickIndex, rest, ?_, ?_, hmem (List.Subset.refl rest), ?_, ?_⟩
      · rw [stamps_now, hnow]
      · rw [hnow]
        exact ⟨rfl, rfl, le_rfl⟩
      · rw [hnow]
        exact fun hp _ => hp
      · rw [hnow]
        exact fun _ => rfl

/-- The ticks between the stamps. -/
def strides : List ℕ → List ℕ
  | a :: b :: rest => (b - a) :: strides (b :: rest)
  | _ => []

/-- At a fixed rate a stamp is the last one and the microseconds of every step since. -/
theorem stamps_sum (ops : List Op) :
    ∀ {s : Engine} {y : ℕ × ℤ} {seen : List (ℕ × ℤ)}, Stands s y → InRange y.2 →
      (∀ hz, .setRate hz ∉ ops) → seen <+: stamps s ops →
      ∃ x, (y :: seen).getLast? = some x ∧ InRange x.2 ∧
        x.2 = y.2 + ((strides ((y :: seen).map Prod.fst)).map (whole s.targetTickPeriod)).sum ∧
        x.1 = y.1 + (strides ((y :: seen).map Prod.fst)).sum := by
  induction ops with
  | nil =>
    intro s y seen h hrange _ hseen
    obtain rfl := List.prefix_nil.mp hseen
    exact ⟨y, rfl, hrange, by simp [strides], by simp [strides]⟩
  | cons op rest ih =>
    intro s y seen h hrange hfixed hseen
    have hrest : ∀ hz, .setRate hz ∉ rest := fun hz hmem => hfixed hz (List.mem_cons_of_mem _ hmem)
    cases op with
    | setRate hz => exact absurd List.mem_cons_self (hfixed hz)
    | tick =>
      exact ih (s := { s with tickIndex := s.tickIndex + 1 }) (tick_stands h) hrange hrest hseen
    | now =>
      rw [stamps_now] at hseen
      cases hnow : s.logicalNow.1 with
      | none =>
        rw [hnow] at hseen
        exact ih h hrange hrest hseen
      | some stamp =>
        rw [hnow] at hseen
        obtain ⟨hstamp, hstands, hperiod, hkept, -⟩ := logicalNow_eq_some h hnow
        cases seen with
        | nil => exact ⟨y, rfl, hrange, by simp [strides], by simp [strides]⟩
        | cons first later =>
          obtain ⟨rfl, hlater⟩ := List.cons_prefix_cons.mp hseen
          obtain ⟨x, hlast, hrange', hsum, hticks⟩ := ih hstands (hkept hrange) hrest hlater
          refine ⟨x, hlast, hrange', ?_, ?_⟩
          · rw [hsum, hperiod, hstamp]
            simp [strides]
            ring
          · have hle := h.le
            rw [hticks]
            simp [strides]
            omega

/-- What rounding adds to a step of the clock. -/
def rounding (p : Double) (n : ℕ) : ℚ := whole p n - unrounded p n

/-- How far the steps are from the one product: the rounding of every step, and what the products of
floats differ by before they are rounded. -/
def drift (p : Double) (steps : List ℕ) : ℚ :=
  (steps.map (rounding p)).sum + ((steps.map (unrounded p)).sum - unrounded p steps.sum)

/-- The drift stays within half a microsecond; at just half of one the sum of the steps is even. -/
def Settled (p : Double) (steps : List ℕ) : Prop :=
  (span p steps.sum).isFinite = true ∧
    (|drift p steps| < 1 / 2 ∨ (|drift p steps| = 1 / 2 ∧ Even (steps.map (whole p)).sum))

theorem drift_eq (p : Double) (steps : List ℕ) :
    drift p steps = ((steps.map (whole p)).sum : ℤ) - unrounded p steps.sum := by
  have hsum : (steps.map (rounding p)).sum + (steps.map (unrounded p)).sum =
    ((steps.map (whole p)).sum : ℤ) := by
    induction steps with
    | nil => simp
    | cons n rest ih =>
      rw [List.map_cons, List.map_cons, List.map_cons, List.sum_cons, List.sum_cons, List.sum_cons,
        Int.cast_add, ← ih, rounding]
      ring
  rw [drift, ← hsum]
  ring

/-- The stamp that the epoch and a number of periods give. -/
def epochPlus (p : Double) (ticks : ℕ) : Option ℤ := (timedelta (span p ticks)).bind (datetimeAdd 0)

theorem epochPlus_iff {p : Double} {steps : List ℕ} (hrange : InRange (steps.map (whole p)).sum) :
    epochPlus p steps.sum = some (steps.map (whole p)).sum ↔ Settled p steps := by
  rw [epochPlus, Settled, drift_eq, ← halfEven_eq_iff]
  constructor
  · intro h
    obtain ⟨us, hus, hsum⟩ := Option.bind_eq_some_iff.mp h
    obtain ⟨q, hspan, hround, -⟩ := timedelta_eq_some.mp hus
    obtain ⟨hsum, -⟩ := datetimeAdd_eq_some.mp hsum
    refine ⟨Double.isFinite_iff.mpr ⟨q, hspan⟩, ?_⟩
    rw [unrounded_of_fin hspan, hround, ← hsum, zero_add]
  · rintro ⟨hfinite, hround⟩
    obtain ⟨q, hspan⟩ := Double.isFinite_iff.mp hfinite
    rw [unrounded_of_fin hspan] at hround
    obtain ⟨hlow, hhigh⟩ := hrange
    refine Option.bind_eq_some_iff.mpr ⟨_,
      timedelta_eq_some.mpr ⟨q, hspan, hround, by omega, by omega⟩, ?_⟩
    exact datetimeAdd_eq_some.mpr ⟨zero_add _, hlow, hhigh⟩

/-- A period of whole 64ths of a second, which has whole microseconds, never drifts. -/
theorem settled_of_sixtyFourths {p : Double} {m : ℕ} (hp : p.val = .fin (m / 64)) {steps : List ℕ}
    (hsum : steps.sum < 2 ^ 53) (hprod : steps.sum * m < 2 ^ 53) : Settled p steps := by
  have hspan : ∀ n ≤ steps.sum, (span p n).val = .fin (((n * m : ℕ) : ℚ) / 64) := by
    intro n hn
    have hle : n * m ≤ steps.sum * m := Nat.mul_le_mul_right m hn
    have hticks : (Double.round n).val = .fin n := by
      have hbound : |((n : ℤ) : ℚ)| < (2 ^ 53 : ℕ) := by
        rw [Int.cast_natCast, Nat.abs_cast]
        exact_mod_cast hn.trans_lt hsum
      exact val_round_of_mem (isBinary64_intCast (by rw [Nat.abs_cast]; omega)) hbound
    have hproduct : (n : ℚ) * (m / 64) = ((n * m : ℕ) : ℚ) / 64 := by
      push_cast
      ring
    rw [span, Double.mul_fin hticks hp, hproduct]
    refine val_round_of_mem ⟨(n * m : ℕ), -6, ?_, by norm_num, ?_⟩ ?_
    · rw [Nat.abs_cast]
      omega
    · push_cast
      norm_num
      ring
    · rw [abs_of_nonneg (by positivity)]
      have hcast : ((n * m : ℕ) : ℚ) < (2 ^ 53 : ℕ) := Nat.cast_lt.mpr (hle.trans_lt hprod)
      have hnonneg : (0 : ℚ) ≤ ((n * m : ℕ) : ℚ) := by positivity
      exact (div_le_self hnonneg (by norm_num)).trans_lt hcast
  have hexact : ∀ n ≤ steps.sum, unrounded p n = ((15625 * (n * m) : ℤ) : ℚ) := by
    intro n hn
    rw [unrounded_of_fin (hspan n hn), microseconds_of_sixtyFourths rfl]
    push_cast
    ring
  have hwhole : ∀ n ≤ steps.sum, whole p n = 15625 * (n * m) := by
    intro n hn
    rw [whole, hexact n hn, halfEven_eq_iff]
    left
    simp
  have hsteps : (steps.map (whole p)).sum = 15625 * (steps.sum * m) := by
    have hmap : steps.map (whole p) = steps.map fun n : ℕ => 15625 * ((n : ℤ) * m) :=
      List.map_congr_left fun n hn => hwhole n (List.le_sum_of_mem hn)
    have hcast : (steps.map fun n : ℕ => (n : ℤ)).sum = steps.sum :=
        (map_list_sum (Nat.castRingHom ℤ) steps).symm
    rw [hmap, List.sum_map_mul_left, List.sum_map_mul_right, hcast]
  refine ⟨Double.isFinite_iff.mpr ⟨_, hspan _ le_rfl⟩, .inl ?_⟩
  rw [drift_eq, hsteps, hexact _ le_rfl, sub_self]
  norm_num

/-- At a fixed rate a stamp is the epoch plus its ticks times the period just where the rounding of
the steps has settled; up to a million ticks a second a later tick has a later stamp, and one tick
one stamp. -/
theorem stamps_iff {hz : Double} {s : Engine} (hnew : Engine.new hz = some s) (ops : List Op) :
    ((∀ hz', .setRate hz' ∉ ops) → ∀ first later x, first :: later <+: stamps s ops →
      (first :: later).getLast? = some x →
      (epochPlus s.targetTickPeriod (x.1 - first.1) = some x.2 ↔
        Settled s.targetTickPeriod (strides ((first :: later).map Prod.fst)))) ∧
    (hz ≤ Double.round 1000000 → RatesFast ops → (stamps s ops).Pairwise Follows) := by
  rw [Engine.new] at hnew
  split_ifs at hnew with hpos
  obtain rfl := Option.some.inj hnew
  constructor
  · intro hfixed first later x hseen hlast
    rcases stamps_first ops (s := { targetTickPeriod := period hz }) rfl with hnil | ⟨s', t,
      rest, heq, hstands, hsub, -, hperiod⟩
    · rw [hnil] at hseen
      cases List.prefix_nil.mp hseen
    · rw [heq] at hseen
      obtain ⟨rfl, hlater⟩ := List.cons_prefix_cons.mp hseen
      have hrest : ∀ hz', .setRate hz' ∉ rest := fun hz' hmem => hfixed hz' (hsub hmem)
      obtain ⟨x', hx', hrange, hsum, hticks⟩ := stamps_sum rest hstands inRange_zero hrest hlater
      obtain rfl := Option.some.inj (hx'.symm.trans hlast)
      rw [hperiod hfixed, zero_add] at hsum
      rw [hsum] at hrange ⊢
      have hcount : x'.1 - t = (strides (((t, 0) :: later).map Prod.fst)).sum := by
        rw [hticks]; simp
      dsimp only
      rw [hcount]
      exact epochPlus_iff hrange
  · intro hle hrates
    rcases stamps_first ops (s := { targetTickPeriod := period hz }) rfl with hnil | ⟨s', t,
      rest, heq, hstands, hsub, hfast, -⟩
    · rw [hnil]
      exact List.Pairwise.nil
    · rw [heq]
      have hrest : RatesFast rest := fun hz' hmem => hrates hz' (hsub hmem)
      obtain ⟨hpairwise, hlater⟩ :=
        stamps_follow rest hstands (hfast (period_fast hpos hle) hrates) hrest
      exact List.pairwise_cons.mpr ⟨hlater, hpairwise⟩

/-- 128 ticks a second: a period of 7812.5 microseconds. -/
def hz128 : Engine := { targetTickPeriod := period (Double.round 128) }

theorem hz128_stamps : (¬Double.round 128 ≤ Double.round 0) ∧
    stamps hz128 [.now, .tick, .now, .tick, .now] = [(0, 0), (1, 7812), (2, 15624)] ∧
      epochPlus hz128.targetTickPeriod 2 ≠ some 15624 := by
  decide +kernel

theorem hz128_new : Engine.new (Double.round 128) = some hz128 := by
  rw [Engine.new, if_neg hz128_stamps.1]
  rfl

/-- At 128 ticks a second the second tick is a microsecond early. -/
theorem hz128_early :
    ¬∀ (hz : Double) (s : Engine), Engine.new hz = some s →
      ∀ ops : List Op, (∀ hz', .setRate hz' ∉ ops) →
        ∀ first later x, first :: later <+: stamps s ops → (first :: later).getLast? = some x →
          epochPlus s.targetTickPeriod (x.1 - first.1) = some x.2 := by
  intro hall
  have hstamp := hall _ hz128 hz128_new [.now, .tick, .now, .tick, .now] (by simp) (0,
      0) [(1, 7812), (2, 15624)]
    (2, 15624) (by rw [hz128_stamps.2.1]) rfl
  exact hz128_stamps.2.2 hstamp

/-- 64 ticks a second: a period of 15625 microseconds. -/
theorem stamps_iff_hz64 :
    ∃ s, Engine.new (Double.round 64) = some s ∧ epochPlus s.targetTickPeriod 2 = some 31250 ∧
      (stamps s [.now, .tick, .setRate (Double.round 3), .now]).Pairwise Follows := by
  have hpos : ¬Double.round 64 ≤ Double.round 0 := by decide +kernel
  have hnew : Engine.new (Double.round 64) =
    some { targetTickPeriod := period (Double.round 64) } :=
    if_neg hpos
  obtain ⟨hstamp, -⟩ := stamps_iff hnew [.now, .tick, .now, .tick, .now]
  refine ⟨_, hnew, ?_, (stamps_iff hnew _).2 (by decide +kernel) ?_⟩
  · have hseen : stamps { targetTickPeriod := period (Double.round 64) }
        [.now, .tick, .now, .tick, .now] = [(0, 0), (1, 15625), (2, 31250)] := by decide +kernel
    have hperiod : (period (Double.round 64)).val = .fin ((1 : ℕ) / 64) := by decide +kernel
    refine (hstamp (by simp) (0, 0) [(1, 15625), (2, 31250)] (2, 31250) (by rw [hseen]) rfl).mpr ?_
    exact settled_of_sixtyFourths hperiod (by decide) (by decide)
  · intro hz hmem
    have hthree : hz = Double.round 3 := by simpa using hmem
    rw [hthree]
    decide +kernel

end Kaine.LogicalClock
