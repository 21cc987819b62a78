import Kaine.Cycle.TimeScale

/-! What every sequence of readings does to the time scale. -/
namespace Kaine.TimeScale
open Py

theorem of_check {ok : Prop} [Decidable ok] {u : Unit} (h : check ok = .ok u) : ok := by
  unfold check at h
  split_ifs at h with hok
  exact hok

theorem above_eq_ok {bound v : Double} {u : Unit} (h : above bound v = .ok u) : v.isFinite = true :=
  (of_check h).1

/-- What accepted settings promise. -/
structure Ordered (settings : TimeScaleSettings) : Prop where
  floor : settings.floor.isFinite = true
  ceiling : settings.ceiling.isFinite = true
  dwell : settings.dwellS.isFinite = true
  floor_le : settings.floor ≤ settings.ceiling

theorem ne_nan_of_isFinite {v : Double} (h : v.isFinite = true) : v.val ≠ .nan := by
  obtain ⟨q, hq⟩ := Double.isFinite_iff.mp h
  rw [hq]
  exact fun hne => by cases hne

theorem Settings.ordered (s : Settings) : Ordered s.toTimeScaleSettings := by
  have h := s.accepted
  unfold TimeScaleSettings.postInit at h
  obtain ⟨_, hceiling, h⟩ := bind_eq_ok.mp h
  obtain ⟨_, hfloor, h⟩ := bind_eq_ok.mp h
  obtain ⟨_, horder, h⟩ := bind_eq_ok.mp h
  obtain ⟨_, -, h⟩ := bind_eq_ok.mp h
  obtain ⟨_, -, h⟩ := bind_eq_ok.mp h
  obtain ⟨_, -, h⟩ := bind_eq_ok.mp h
  obtain ⟨_, -, h⟩ := bind_eq_ok.mp h
  obtain ⟨_, hdwell, -⟩ := bind_eq_ok.mp h
  have hf := above_eq_ok hfloor
  have hc := above_eq_ok hceiling
  exact ⟨hf, hc, above_eq_ok hdwell,
    Double.le_of_not_lt (ne_nan_of_isFinite hc) (ne_nan_of_isFinite hf) (of_check horder)⟩


variable {settings : TimeScaleSettings} {exp : Double → Double} {c c' : TimeScaleController}
  {r : Reading} {x : Sample} {ema scale : Double} {change : ScaleChange}

namespace TimeScaleController

theorem clamp_bounds (h : Ordered settings) (hnan : (clamp settings scale).val ≠ .nan) :
    settings.floor ≤ clamp settings scale ∧ clamp settings scale ≤ settings.ceiling := by
  have hfloor := ne_nan_of_isFinite h.floor
  have hceiling := ne_nan_of_isFinite h.ceiling
  unfold clamp at *
  split_ifs at * with hlow hhigh
  · exact ⟨Double.le_refl hfloor, h.floor_le⟩
  · exact ⟨h.floor_le, Double.le_refl hceiling⟩
  · exact ⟨Double.le_of_not_lt hnan hfloor hlow, Double.le_of_not_lt hceiling hnan hhigh⟩

theorem clamp_eq_self (hlow : settings.floor ≤ scale) (hhigh : scale ≤ settings.ceiling) :
    clamp settings scale = scale := by
  unfold clamp
  rw [if_neg (Double.not_lt_of_le hlow), if_neg (Double.not_lt_of_le hhigh)]

end TimeScaleController

/-- What a change that one reading triggers promises. -/
structure Sound (settings : TimeScaleSettings) (change : ScaleChange) : Prop where
  floor_le : settings.floor ≤ change.new
  le_ceiling : change.new ≤ settings.ceiling
  overload : change.reason = .overload → change.new < change.old
  headroom : change.reason = .headroom → change.old < change.new ∧
    (change.new ≤ change.old * settings.maxUpFactor ∨
      change.old * settings.maxUpFactor < settings.floor ∧ change.new = settings.floor)

theorem finite_eq_ok {v : Option Double} {y : Double} :
    finite v = .ok y ↔ v = some y ∧ y.isFinite = true := by
  unfold finite
  cases v with
  | none => simp
  | some z =>
    by_cases hz : z.isFinite = true
    · simp only [if_pos hz, Except.ok.injEq, Option.some.injEq]
      constructor
      · rintro rfl
        exact ⟨rfl, hz⟩
      · exact And.left
    · simp only [if_neg hz, reduceCtorEq, Option.some.injEq, false_iff]
      rintro ⟨rfl, hy⟩
      exact hz hy

/-- What an accepted reading is. -/
theorem accept_eq_ok (h : accept r = .ok x) :
    (r.busyMs = some x.busyMs ∧ x.busyMs.isFinite = true) ∧
    (r.periodMs = some x.periodMs ∧ x.periodMs.isFinite = true) ∧
    (r.nowWallS = some x.nowWallS ∧ x.nowWallS.isFinite = true) ∧
    (r.currentScale = some x.currentScale ∧ x.currentScale.isFinite = true) ∧
    ¬(x.periodMs ≤ .round 0 ∨ x.busyMs < .round 0 ∨ x.currentScale ≤ .round 0) := by
  unfold accept at h
  obtain ⟨busy, hbusy, h⟩ := bind_eq_ok.mp h
  obtain ⟨period, hperiod, h⟩ := bind_eq_ok.mp h
  obtain ⟨now, hnow, h⟩ := bind_eq_ok.mp h
  obtain ⟨current, hcurrent, h⟩ := bind_eq_ok.mp h
  by_cases hout : period ≤ .round 0 ∨ busy < .round 0 ∨ current ≤ .round 0
  · rw [if_pos hout] at h
    cases h
  rw [if_neg hout] at h
  cases h
  exact ⟨finite_eq_ok.mp hbusy, finite_eq_ok.mp hperiod, finite_eq_ok.mp hnow,
    finite_eq_ok.mp hcurrent, hout⟩

namespace TimeScaleController

theorem overloadScale_eq_some (h : Ordered settings)
    (hnew : c.overloadScale settings ema x = some scale) (hx : x.currentScale.isFinite = true) :
    settings.floor ≤ scale ∧ scale ≤ settings.ceiling ∧ scale < x.currentScale := by
  unfold overloadScale at hnew
  cases hsince : c.overloadSince with
  | none =>
    rw [hsince] at hnew
    cases hnew
  | some since =>
    rw [hsince] at hnew
    dsimp only at hnew
    split_ifs at hnew with hdue
    obtain ⟨-, hlt⟩ := hdue
    cases hnew
    obtain ⟨q, hq⟩ := Double.isFinite_iff.mp hx
    have hle : x.currentScale - .round (1 / 10 ^ 9) ≤ x.currentScale :=
      Double.sub_le_self hq (Double.round_mono (by norm_num))
    obtain ⟨hfloor, hceiling⟩ := clamp_bounds h (Double.ne_nan_of_lt hlt).1
    exact ⟨hfloor, hceiling, Double.lt_of_lt_of_le hlt hle⟩

theorem headroomScale_eq_some (h : Ordered settings)
    (hnew : c.headroomScale settings ema x = some scale) (hx : x.currentScale.isFinite = true) :
    scale ≤ settings.ceiling ∧ x.currentScale < scale ∧
      scale ≤ x.currentScale * settings.maxUpFactor := by
  unfold headroomScale at hnew
  cases hsince : c.headroomSince with
  | none =>
    rw [hsince] at hnew
    cases hnew
  | some since =>
    rw [hsince] at hnew
    dsimp only at hnew
    generalize (if ema = .round 0 then Double.inf else x.currentScale * settings.target / ema) =
      sStar at hnew
    split_ifs at hnew with hdue
    obtain ⟨-, hlt⟩ := hdue
    cases hnew
    obtain ⟨q, hq⟩ := Double.isFinite_iff.mp hx
    have hle : x.currentScale ≤ x.currentScale + .round (1 / 10 ^ 9) :=
      Double.le_add_self hq (Double.round_mono (by norm_num))
    have hmin := Double.pyMin_le_left (Double.ne_nan_of_lt hlt).2
    exact ⟨Double.pyMin_le_right (Double.ne_nan_of_lt hlt).2 (ne_nan_of_isFinite h.ceiling),
      Double.lt_of_le_of_lt hle hlt,
        Double.le_trans hmin (Double.pyMin_le_left (Double.ne_nan_of_le hmin).2)⟩

theorem sound_overload (h : Ordered settings) (hnew : c.overloadScale settings ema x = some scale)
    (hx : x.currentScale.isFinite = true) :
    Sound settings (applyChange settings scale ema .overload x).1 := by
  obtain ⟨hfloor, hceiling, hlt⟩ := overloadScale_eq_some h hnew hx
  have happlied : (applyChange settings scale ema .overload x).1.new = scale :=
    clamp_eq_self hfloor hceiling
  constructor
  · rwa [happlied]
  · rwa [happlied]
  · intro _
    rwa [happlied]
  · intro hreason
    cases hreason

theorem sound_headroom (h : Ordered settings) (hnew : c.headroomScale settings ema x = some scale)
    (hx : x.currentScale.isFinite = true) :
    Sound settings (applyChange settings scale ema .headroom x).1 := by
  obtain ⟨hceiling, hlt, hfactor⟩ := headroomScale_eq_some h hnew hx
  have hnan := (Double.ne_nan_of_le hceiling).1
  have hnfloor := ne_nan_of_isFinite h.floor
  by_cases hlow : scale < settings.floor
  · -- the bounded step ends below the floor, which stands in for it
    have happlied : (applyChange settings scale ema .headroom x).1.new = settings.floor :=
      if_pos hlow
    constructor
    · rw [happlied]
      exact Double.le_refl hnfloor
    · rw [happlied]
      exact h.floor_le
    · intro hreason
      cases hreason
    · intro _
      rw [happlied]
      refine ⟨Double.lt_of_lt_of_le hlt (Double.le_of_lt hlow), ?_⟩
      by_cases hbound : x.currentScale * settings.maxUpFactor < settings.floor
      · exact .inr ⟨hbound, rfl⟩
      · exact .inl (Double.le_of_not_lt (Double.ne_nan_of_le hfactor).2 hnfloor hbound)
  · have hfloor := Double.le_of_not_lt hnan hnfloor hlow
    have happlied : (applyChange settings scale ema .headroom x).1.new = scale :=
      clamp_eq_self hfloor hceiling
    constructor
    · rwa [happlied]
    · rwa [happlied]
    · intro hreason
      cases hreason
    · intro _
      rw [happlied]
      exact ⟨hlt, .inl hfactor⟩

/-- What a change does: it is sound, comes after the dwell, and starts the next one. -/
theorem adapt_eq_some (h : Ordered settings) (hx : x.currentScale.isFinite = true)
    (hchange : c.adapt settings ema x = some (change, c')) :
    Sound settings change ∧ change.old = x.currentScale ∧
      ¬x.nowWallS - c.lastChangeTime < settings.dwellS ∧ c'.lastChangeTime = x.nowWallS := by
  unfold adapt at hchange
  split_ifs at hchange with hdwell
  cases hover : c.overloadScale settings ema x with
  | some new =>
    rw [hover] at hchange
    cases hchange
    exact ⟨sound_overload h hover hx, rfl, hdwell, rfl⟩
  | none =>
    rw [hover] at hchange
    cases hhead : c.headroomScale settings ema x with
    | none =>
      rw [hhead] at hchange
      cases hchange
    | some new =>
      rw [hhead] at hchange
      cases hchange
      exact ⟨sound_headroom h hhead hx, rfl, hdwell, rfl⟩

/-- A reading that triggers a change, with its time. -/
theorem observe_change (h : Ordered settings)
    (hobs : c.observe settings exp r = (.ok (some change), c')) :
    ∃ now, r.nowWallS = some now ∧ now.isFinite = true ∧ r.currentScale = some change.old ∧
      Sound settings change ∧ ¬now - c.lastChangeTime < settings.dwellS ∧
        c'.lastChangeTime = now := by
  unfold observe at hobs
  cases haccept : accept r with
  | error e =>
    rw [haccept] at hobs
    cases e <;> cases hobs
  | ok x =>
    rw [haccept] at hobs
    obtain ⟨-, -, ⟨hnow, hfinite⟩, ⟨hcurrent, hscale⟩, -⟩ := accept_eq_ok haccept
    dsimp only at hobs
    cases hadapt : (c.sampled settings exp x).adapt settings
        (c.smooth settings exp (x.busyMs / x.periodMs) x.nowWallS) x with
    | none =>
      rw [hadapt] at hobs
      cases hobs
    | some out =>
      rw [hadapt] at hobs
      cases hobs
      obtain ⟨hsound, hold, hdwell, hlast⟩ := adapt_eq_some h hscale hadapt
      exact ⟨x.nowWallS, hnow, hfinite, by rw [hcurrent, hold], hsound, hdwell, hlast⟩

/-- A reading that triggers no change leaves the time of the last one. -/
theorem observe_same (h : ∀ change, (c.observe settings exp r).1 ≠ .ok (some change)) :
    (c.observe settings exp r).2.lastChangeTime = c.lastChangeTime := by
  unfold observe at *
  cases haccept : accept r with
  | error e => cases e <;> rfl
  | ok x =>
    rw [haccept] at h
    dsimp only at h ⊢
    cases hadapt : (c.sampled settings exp x).adapt settings
        (c.smooth settings exp (x.busyMs / x.periodMs) x.nowWallS) x with
    | none => rfl
    | some out =>
      rw [hadapt] at h
      exact absurd rfl (h out.1)

theorem changes_change {rest : List Reading}
    (h : c.observe settings exp r = (.ok (some change), c')) :
    c.changes settings exp (r :: rest) = (r, change) :: c'.changes settings exp rest := by
  rw [changes, h]

theorem changes_same {rest : List Reading}
    (h : ∀ change, (c.observe settings exp r).1 ≠ .ok (some change)) :
    c.changes settings exp (r :: rest) = (c.observe settings exp r).2.changes
      settings exp rest := by
  rw [changes]
  split
  · next change c' heq => exact absurd (congrArg Prod.fst heq) (h change)
  · next out c' _ heq => rw [heq]

/-- A reading triggers a change or none. -/
theorem observe_cases (settings : TimeScaleSettings) (exp : Double → Double)
    (c : TimeScaleController) (r : Reading) :
    (∃ change c', c.observe settings exp r = (.ok (some change), c')) ∨
      ∀ change, (c.observe settings exp r).1 ≠ .ok (some change) := by
  by_cases h : ∃ change, (c.observe settings exp r).1 = .ok (some change)
  · obtain ⟨change, hchange⟩ := h
    exact .inl ⟨change, (c.observe settings exp r).2, Prod.ext hchange rfl⟩
  · exact .inr fun change hchange => h ⟨change, hchange⟩

theorem sound_of_mem_changes (h : Ordered settings) {rs : List Reading} :
    ∀ {c : TimeScaleController} {e : Reading × ScaleChange}, e ∈ c.changes settings exp rs →
      e.1.currentScale = some e.2.old ∧ Sound settings e.2 := by
  induction rs with
  | nil =>
    intro c e he
    cases he
  | cons r rest ih =>
    intro c e he
    rcases observe_cases settings exp c r with ⟨change, c', hobs⟩ | hsame
    · rw [changes_change hobs] at he
      obtain ⟨_, -, -, hold, hsound, -⟩ := observe_change h hobs
      rcases List.mem_cons.mp he with rfl | he
      · exact ⟨hold, hsound⟩
      · exact ih he
    · rw [changes_same hsame] at he
      exact ih he

end TimeScaleController

/-- The finite time of a reading. -/
def Reading.time (r : Reading) : Option Double := r.nowWallS.filter Double.isFinite

/-- Readings whose finite times do not fall. -/
def Chronological (rs : List Reading) : Prop := (rs.filterMap Reading.time).Pairwise (· ≤ ·)

/-- Two readings that a duration lies between. -/
def Apart (duration : Double) (r r' : Reading) : Prop :=
  ∀ t, r.nowWallS = some t → ∀ t', r'.nowWallS = some t' → duration ≤ t' - t

theorem Reading.time_eq {now : Double} (h : r.nowWallS = some now) (hfinite : now.isFinite = true) :
    r.time = some now := by
  rw [Reading.time, h]
  simp [hfinite]

namespace TimeScaleController

/-- The dwell lies between the last change and each of the next ones, and between any two of
these. -/
theorem changes_apart (h : Ordered settings) {rs : List Reading} :
    ∀ {c : TimeScaleController}, Chronological rs →
      (∀ t ∈ rs.filterMap Reading.time, c.lastChangeTime ≤ t) →
        (∀ e ∈ c.changes settings exp rs, ∃ t, e.1.nowWallS = some t ∧ t.isFinite = true ∧
        settings.dwellS ≤ t - c.lastChangeTime) ∧
      (c.changes settings exp rs).Pairwise fun e e' => Apart settings.dwellS e.1 e'.1 := by
  induction rs with
  | nil =>
    intro c _ _
    refine ⟨?_, List.Pairwise.nil⟩
    intro e he
    cases he
  | cons r rest ih =>
    intro c hchron hlast
    have hsub := (List.sublist_cons_self r rest).filterMap Reading.time
    have hrest : Chronological rest := hchron.sublist hsub
    rcases observe_cases settings exp c r with ⟨change, c', hobs⟩ | hsame
    · rw [changes_change hobs]
      obtain ⟨now, hnow, hfinite, -, -, hdwell, hlast'⟩ := observe_change h hobs
      have htime := Reading.time_eq hnow hfinite
      rw [Chronological, List.filterMap_cons_some htime] at hchron
      rw [List.filterMap_cons_some htime] at hlast
      have hbefore := hlast now List.mem_cons_self
      obtain ⟨hsince, hpairs⟩ := ih hrest fun t ht => by
        rw [hlast']
        exact (List.pairwise_cons.mp hchron).1 t ht
      rw [hlast'] at hsince
      refine ⟨?_, List.pairwise_cons.mpr ⟨?_, hpairs⟩⟩
      · intro e he
        rcases List.mem_cons.mp he with rfl | he
        · have hnan := Double.sub_ne_nan hfinite hbefore
          exact ⟨now, hnow, hfinite, Double.le_of_not_lt hnan (ne_nan_of_isFinite h.dwell) hdwell⟩
        · -- counted from an earlier moment the time only grows
          obtain ⟨t, ht, htfin, hle⟩ := hsince e he
          exact ⟨t, ht, htfin, Double.le_trans hle (Double.sub_le_sub_left htfin hfinite hbefore)⟩
      · intro e he s hs t ht
        obtain ⟨t', ht', -, hle⟩ := hsince e he
        rw [hnow] at hs
        rw [ht'] at ht
        cases hs
        cases ht
        exact hle
    · rw [changes_same hsame]
      have hkept := observe_same hsame
      obtain ⟨hsince, hpairs⟩ := ih hrest fun t ht => by
        rw [hkept]
        exact hlast t (hsub.subset ht)
      rw [hkept] at hsince
      exact ⟨hsince, hpairs⟩

end TimeScaleController

/-- A reading with a part that is missing or not finite, or a period, a busy time or a scale out of
range. -/
def Reading.Rejected (r : Reading) : Prop :=
  (∃ v ∈ [r.busyMs, r.periodMs, r.nowWallS, r.currentScale], ∀ y, v = some y → y.isFinite = false) ∨
  (∃ y, r.periodMs = some y ∧ y ≤ .round 0) ∨ (∃ y, r.busyMs = some y ∧ y < .round 0) ∨
  ∃ y, r.currentScale = some y ∧ y ≤ .round 0

theorem Reading.Rejected.accept (h : r.Rejected) : ∃ e, accept r = .error e := by
  cases haccept : TimeScale.accept r with
  | error e => exact ⟨e, rfl⟩
  | ok x =>
    exfalso
    obtain ⟨⟨hbusy, hb⟩, ⟨hperiod, hp⟩, ⟨hnow, hn⟩, ⟨hcurrent, hc⟩, hrange⟩ := accept_eq_ok haccept
    rcases h with ⟨v, hv, hnot⟩ | ⟨y, hy, hle⟩ | ⟨y, hy, hlt⟩ | ⟨y, hy, hle⟩
    · simp only [List.mem_cons, List.not_mem_nil, or_false] at hv
      rcases hv with rfl | rfl | rfl | rfl
      · exact absurd (hnot _ hbusy) (by simp [hb])
      · exact absurd (hnot _ hperiod) (by simp [hp])
      · exact absurd (hnot _ hnow) (by simp [hn])
      · exact absurd (hnot _ hcurrent) (by simp [hc])
    · rw [hperiod] at hy
      cases hy
      exact hrange (.inl hle)
    · rw [hbusy] at hy
      cases hy
      exact hrange (.inr (.inl hlt))
    · rw [hcurrent] at hy
      cases hy
      exact hrange (.inr (.inr hle))

theorem observe_rejected (h : r.Rejected) :
    (c.observe settings exp r).2 = c ∧ ∀ change, (c.observe settings exp r).1 ≠
      .ok (some change) := by
  obtain ⟨e, he⟩ := h.accept
  unfold TimeScaleController.observe
  rw [he]
  cases e <;> exact ⟨rfl, fun change hne => by cases hne⟩

/-- The changes of a run of readings: at least a dwell apart, within the bounds, downwards on an
overload, and on headroom upwards by the greatest factor at most, or to the floor where that lies
higher. A rejected reading changes nothing. -/
theorem changes_sound (settings : Settings) (exp : Double → Double) (rs : List Reading)
    (h : Chronological rs) :
    ((TimeScaleController.changes settings.toTimeScaleSettings exp {} rs).Pairwise fun e e' =>
      Apart settings.dwellS e.1 e'.1) ∧
    (∀ e ∈ TimeScaleController.changes settings.toTimeScaleSettings exp {} rs,
      e.1.currentScale = some e.2.old ∧ Sound settings.toTimeScaleSettings e.2) ∧
    ∀ r : Reading, r.Rejected →
      ((TimeScaleController.observeAll settings.toTimeScaleSettings exp {} rs).observe
        settings.toTimeScaleSettings exp r).2 =
      TimeScaleController.observeAll settings.toTimeScaleSettings exp {} rs := by
  refine ⟨?_, ?_, fun r hr => (observe_rejected hr).1⟩
  · refine (TimeScaleController.changes_apart settings.ordered h ?_).2
    intro t ht
    obtain ⟨r, -, htime⟩ := List.mem_filterMap.mp ht
    obtain ⟨-, hfinite⟩ := Option.filter_eq_some_iff.mp htime
    exact Double.negInf_le (ne_nan_of_isFinite hfinite)
  · intro e he
    exact TimeScaleController.sound_of_mem_changes settings.ordered he

section Idle

def idleSettings : Settings := { ceiling := .round 1, accepted := by decide +kernel }

/-- `math.exp` at zero and at minus one. -/
def idleExp (x : Double) : Double := if x = .round 0 then .round 1
    else .round (36787944117144233 / 10 ^ 17)

/-- Half a minute without work, at a scale far below the floor. -/
def idleReadings : List Reading :=
  [⟨some (.round 0), some (.round 100), some (.round 0), some (.round (1 / 100))⟩,
    ⟨some (.round 0), some (.round 100), some (.round 30), some (.round (1 / 100))⟩]

theorem chronological_idle : Chronological idleReadings := by
  unfold Chronological
  decide +kernel

/-- Headroom takes a scale below the floor up to it, ten times as high. -/
theorem headroom_to_floor :
    ¬∀ (settings : Settings) (exp : Double → Double) (rs : List Reading), Chronological rs →
      ∀ e ∈ TimeScaleController.changes settings.toTimeScaleSettings exp {} rs, e.2.reason =
        .headroom → e.2.new ≤ e.2.old * settings.maxUpFactor := by
  intro h
  have hall := h idleSettings idleExp idleReadings chronological_idle
  revert hall
  decide +kernel

theorem changes_sound_idle :
    (TimeScaleController.changes idleSettings.toTimeScaleSettings idleExp {} idleReadings).length =
      1 ∧
    ((TimeScaleController.changes idleSettings.toTimeScaleSettings idleExp {} idleReadings).Pairwise
      fun e e' =>
      Apart idleSettings.dwellS e.1 e'.1) :=
  ⟨by decide +kernel, (changes_sound idleSettings idleExp idleReadings chronological_idle).1⟩

end Idle

end Kaine.TimeScale
