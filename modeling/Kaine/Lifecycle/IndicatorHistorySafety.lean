import Kaine.Lifecycle.IndicatorHistory

/-! The evaluator of the welfare indicators says of every history what is computed from it anew. -/
namespace Kaine.WelfareIndicators
open Py Window Transition

variable {params : IndicatorParams} {e : IndicatorEvaluator} {h : History} {s : Samples}
  {a b : Heard} {t : ℚ} {known : List Excluded} {drive : UncontrolledDrive} {name : Indicator}

theorem gap_nonneg (params : IndicatorParams) (a b : Heard) : 0 ≤ gap params a b := by
  unfold gap
  split
  · rename_i hcond
    exact le_min (by linarith [hcond.1]) params.maxGap_pos.le
  · exact le_refl _

theorem gap_pos_iff :
    0 < gap params a b ↔ a.sample.t < b.sample.t ∧ ¬ covers b.known a.sample.t := by
  unfold gap
  split
  · rename_i hcond
    have hpos : 0 < min (b.sample.t - a.sample.t) params.maxGapS :=
      lt_min (by linarith [hcond.1]) params.maxGap_pos
    exact iff_of_true hpos hcond
  · rename_i hcond
    exact iff_of_false (lt_irrefl _) hcond

/-- An exclusion that covers no part of a gap's start covers a time in it only if it starts
there. -/
theorem covers_within {m τ : ℚ} (hm : covers known m = false)
    (hstarts : ∀ x ∈ known, ¬ (m < x.start ∧ x.start < t)) (hle : m ≤ τ) (hlt : τ < t) :
    covers known τ = false := by
  by_contra hcovers
  have hsome : known.any (fun x => x.start ≤ τ && x.stop.all (τ < ·)) = true := by
    simpa [covers] using hcovers
  obtain ⟨x, hx, hcover⟩ := List.any_eq_true.mp hsome
  simp only [Bool.and_eq_true, decide_eq_true_eq, Option.all_eq_true] at hcover
  obtain ⟨hstart, hstop⟩ := hcover
  have hearly : x.start ≤ m := by
    by_contra hlate
    exact hstarts x hx ⟨not_le.mp hlate, hstart.trans_lt hlt⟩
  have hcovered : covers known m = true := by
    refine List.any_eq_true.mpr ⟨x, hx, ?_⟩
    simp only [Bool.and_eq_true, decide_eq_true_eq, Option.all_eq_true]
    exact ⟨hearly, fun stop h => hle.trans_lt (hstop stop h)⟩
  rw [hcovered] at hm
  cases hm

/-- One more accepted sample. -/
def Samples.push (s : Samples) (b : Heard) : Samples := { s with since := s.since ++ [b] }

section
variable (params s b)

theorem all_push : (s.push b).all = s.all ++ [b] := by simp [Samples.all, Samples.push]

theorem awake_push :
    (s.push b).awake params = s.awake params + s.all.getLast?.elim 0 (gap params · b) := by
  simp only [Samples.awake, all_push, total_concat]

@[simp] theorem restartPos_push : (s.push b).restartPos params = s.restartPos params := rfl

theorem awake_le_push : s.awake params ≤ (s.push b).awake params := by
  simp only [Samples.awake, all_push]
  exact total_le_concat (gap_nonneg params) _ _

theorem windowStart_le_push : s.windowStart params ≤ (s.push b).windowStart params := by
  have hawake := awake_le_push params s b
  simp only [Samples.windowStart, restartPos_push]
  exact max_le_max_left _ (by linarith)

theorem placed_push : placed (gap params) (s.push b).all =
    placed (gap params) s.all ++ [((s.push b).awake params, b)] := by
  simp only [all_push, placed_concat, Samples.awake]

theorem before_length_le : s.before.length ≤ (placed (gap params) s.all).length := by
  simp [Samples.all]

theorem intervals_push : (s.push b).intervals params = s.intervals params ++
    (s.all.getLast?.bind fun a =>
      intervalOf params ((s.awake params, a), ((s.push b).awake params, b))).toList := by
  have hle : s.before.length - 1 ≤ (placed (gap params) s.all).length :=
    (Nat.sub_le _ _).trans (before_length_le params s)
  have hlast : ((placed (gap params) s.all).drop (s.before.length - 1)).getLast? =
      s.all.getLast?.map fun a => (s.awake params, a) := by
    rw [List.getLast?_drop, getLast?_placed]
    split
    · rename_i hshort
      have hnil : s.all = [] := by
        refine List.length_eq_zero_iff.mp ?_
        have hlen : s.all.length = s.before.length + s.since.length := by simp [Samples.all]
        simp only [length_placed] at hshort
        omega
      simp [hnil]
    · rfl
  have hbefore : (s.push b).before.length = s.before.length := rfl
  simp only [Samples.intervals, placed_push, hbefore, List.drop_append_of_le_length hle,
    pairs_concat, List.filterMap_append, hlast]
  cases s.all.getLast? with
  | none => rfl
  | some a =>
    cases hiv : intervalOf params ((s.awake params, a), ((s.push b).awake params, b)) <;>
      simp [hiv]

theorem counters_push : (s.push b).counters params drive = s.counters params drive ++
    ((b.ends drive).map ((s.push b).awake params, ·)).toList := by
  have hbefore : (s.push b).before.length = s.before.length := rfl
  simp only [Samples.counters, placed_push, hbefore,
    List.drop_append_of_le_length (before_length_le params s), List.filterMap_append]
  cases hends : b.ends drive <;> simp [hends]

theorem ends_push : (s.push b).ends params drive = s.ends params drive ++
    ((s.counters params drive).getLast?.bind fun p => (b.ends drive).bind fun reading =>
      gainOf (p, ((s.push b).awake params, reading))).toList := by
  simp only [Samples.ends, counters_push]
  cases b.ends drive with
  | none =>
    cases (s.counters params drive).getLast? <;> simp
  | some reading =>
    simp only [Option.map_some, Option.toList_some, pairs_concat, List.filterMap_append]
    cases (s.counters params drive).getLast? with
    | none => simp
    | some p =>
      cases hgain : gainOf (p, ((s.push b).awake params, reading)) <;> simp [hgain]

theorem intervals_pairwise : (s.intervals params).Pairwise fun x y => x.stop ≤ y.stop := by
  have hplaced := (placed_pairwise (gap_nonneg params) s.all).sublist
    (List.drop_sublist (s.before.length - 1) _)
  refine List.Pairwise.filterMap (intervalOf params) ?_ (pairs_pairwise hplaced)
  intro p q hpq x hx y hy
  unfold intervalOf at hx hy
  split at hx
  · split at hy
    · obtain rfl := Option.some.inj hx
      obtain rfl := Option.some.inj hy
      exact hpq
    · cases hy
  · cases hx

theorem counters_pairwise : (s.counters params drive).Pairwise fun p q => p.1 ≤ q.1 := by
  have hplaced := (placed_pairwise (gap_nonneg params) s.all).sublist
    (List.drop_sublist s.before.length _)
  refine List.Pairwise.filterMap _ ?_ hplaced
  intro p q hpq x hx y hy
  obtain ⟨_, _, rfl⟩ := Option.map_eq_some_iff.mp hx
  obtain ⟨_, _, rfl⟩ := Option.map_eq_some_iff.mp hy
  exact hpq

theorem ends_pairwise (drive : UncontrolledDrive) :
    (s.ends params drive).Pairwise fun x y => x.position ≤ y.position := by
  refine List.Pairwise.filterMap gainOf ?_ (pairs_pairwise (counters_pairwise params s))
  intro p q hpq x hx y hy
  unfold gainOf at hx hy
  split at hx
  · split at hy
    · obtain rfl := Option.some.inj hx
      obtain rfl := Option.some.inj hy
      exact hpq
    · cases hy
  · cases hx

end

/-- Nothing is in the window of a restart. -/
theorem intervals_restart (params : IndicatorParams) (l : List Heard) :
    (Samples.mk l []).intervals params = [] := by
  have hshort : ((placed (gap params) l).drop (l.length - 1)).length ≤ 1 := by
    simp
    omega
  simp only [Samples.intervals, Samples.all, List.append_nil]
  generalize (placed (gap params) l).drop (l.length - 1) = rest at hshort
  match rest, hshort with
  | [], _ => rfl
  | [_], _ => rfl

theorem counters_restart (params : IndicatorParams) (l : List Heard) :
    (Samples.mk l []).counters params drive = [] := by
  have hnone : (placed (gap params) l).drop l.length = [] := List.drop_eq_nil_of_le (by simp)
  simp [Samples.counters, Samples.all, hnone]

section
variable {kind : ExclusionKind} {m : ℚ} {l : List Excluded}

/-- Whether an exclusion is still open, or ended after a time. -/
def endsAfter (t : ℚ) (x : Excluded) : Bool := x.stop.all (t < ·)

theorem endsAfter_of_isOpen {x : Excluded} (hx : x.isOpen = true) : endsAfter m x = true := by
  have hnone : x.stop = none := by simpa [Excluded.isOpen] using hx
  simp [endsAfter, hnone]

/-- Exclusions that ended by a time cover no later one. -/
theorem covers_filter (hle : m ≤ t) : covers (l.filter (endsAfter m)) t = covers l t := by
  unfold covers
  rw [List.any_filter]
  congr 1
  funext x
  cases hstop : x.stop with
  | none => simp [endsAfter, hstop]
  | some stop =>
    simp only [endsAfter, hstop, Option.all_some]
    by_cases hlt : t < stop
    · simp [hlt, hle.trans_lt hlt]
    · simp [hlt]

/-- The exclusion that is closed is one that no filter of ended ones drops. -/
theorem closeNewest_filter (kind : ExclusionKind) (t : ℚ) (l : List Excluded) :
    (closeNewest kind t (l.filter (endsAfter m))).filter (endsAfter m) =
      (closeNewest kind t l).filter (endsAfter m) := by
  induction l with
  | nil => rfl
  | cons x older ih =>
    by_cases hkeep : endsAfter m x = true
    · rw [List.filter_cons_of_pos hkeep]
      by_cases hopen : x.kind = kind ∧ x.isOpen
      · simp only [closeNewest, hopen, and_self, if_true, List.filter_cons, List.filter_filter,
          Bool.and_self]
      · simp only [closeNewest, hopen, if_false, List.filter_cons_of_pos hkeep, ih]
    · have hclosed : ¬ (x.kind = kind ∧ x.isOpen = true) := fun h =>
        hkeep (endsAfter_of_isOpen h.2)
      rw [List.filter_cons_of_neg hkeep, ih]
      simp only [closeNewest, hclosed, if_false, List.filter_cons_of_neg hkeep]

theorem any_open_filter : (l.filter (endsAfter m)).any (fun x => x.kind = kind ∧ x.isOpen) =
    l.any fun x => x.kind = kind ∧ x.isOpen := by
  rw [List.any_filter]
  congr 1
  funext x
  cases hopen : x.isOpen with
  | false => simp
  | true => simp [endsAfter_of_isOpen hopen]

end

/-- The exclusions that an evaluator still holds: those that had not ended by its latest sample. -/
def held (latest : Option Sample) (l : List Excluded) : List Excluded :=
  latest.elim l fun sample => l.filter (endsAfter sample.t)

theorem furthestFrom_concat (m : Option ℚ) (feeds : List Feed) (feed : Feed) :
    furthestFrom m (feeds ++ [feed]) = furthestFrom (furthestFrom m feeds) [feed] := by
  simp [furthestFrom]

theorem silenceFrom_concat (m : Option ℚ) (feeds : List Feed) (feed : Feed) :
    silenceFrom m (feeds ++ [feed]) =
      silenceFrom m feeds + silentStep (furthestFrom m feeds) feed := by
  induction feeds generalizing m with
  | nil => simp [silenceFrom, furthestFrom]
  | cons first feeds ih =>
    have hfold : furthestFrom m (first :: feeds) = furthestFrom (furthestFrom m [first]) feeds := by
      simp [furthestFrom]
    simp only [List.cons_append, silenceFrom, ih, hfold]
    ring

/-- An evaluator holds of a history what is still of use in it. -/
structure Agrees (params : IndicatorParams) (e : IndicatorEvaluator) (h : History) : Prop where
  params_eq : e.params = params
  pos : e.pos = h.samples.awake params
  restartPos : e.restartPos = h.samples.restartPos params
  intervals : e.intervals =
    (h.samples.intervals params).filter fun iv => h.samples.windowStart params < iv.stop
  ends : ∀ drive, e.ends drive =
    (h.samples.ends params drive).filter fun x => h.samples.windowStart params < x.position
  lastEnds : ∀ drive, e.lastEnds drive = (h.samples.counters params drive).getLast?.map Prod.snd
  current : e.current = h.latest
  excluded : e.excluded = held h.latest h.excluded
  tLast : e.tLast = h.furthest
  silentS : e.silentS = h.silence
  overBar : ∀ name, e.overBar name = h.wasOver params name
  heard : ∀ sample, h.latest = some sample → ∃ m, h.furthest = some m ∧ sample.t ≤ m
  evaluated : ∀ s, h.evaluated = some s →
    ∃ later, h.samples = ⟨s.before, s.since ++ later⟩

theorem agrees_initial (params : IndicatorParams) : Agrees params { params } {} where
  params_eq := rfl
  pos := rfl
  restartPos := rfl
  intervals := rfl
  ends := fun _ => rfl
  lastEnds := fun _ => rfl
  current := rfl
  excluded := rfl
  tLast := rfl
  silentS := rfl
  overBar := fun _ => rfl
  heard := by
    intro sample hs
    cases hs
  evaluated := by
    intro s hs
    cases hs

namespace Agrees

theorem windowStart (hag : Agrees params e h) : e.windowStart = h.samples.windowStart params := by
  simp only [IndicatorEvaluator.windowStart, Samples.windowStart, hag.params_eq, hag.pos,
    hag.restartPos]

theorem covers_eq (hag : Agrees params e h) (ht : ∀ sample, h.latest = some sample → sample.t ≤ t) :
    e.isExcluded t = covers h.excluded t := by
  have hheld : e.isExcluded t = covers (held h.latest h.excluded) t := by
    simp only [IndicatorEvaluator.isExcluded, hag.excluded, covers]
  rw [hheld]
  cases hlatest : h.latest with
  | none => rfl
  | some sample => exact covers_filter (ht sample hlatest)

/-- Passing time adds to the silence what the step of the history says. -/
theorem advance_fields (hag : Agrees params e h) (t : ℚ) :
    (e.advance t).tLast = (h.feed t).furthest ∧ (e.advance t).silentS = (h.feed t).silence := by
  have hfurthest : (h.feed t).furthest = furthestFrom h.furthest [⟨t, h.excluded⟩] :=
    furthestFrom_concat _ _ _
  have hsilence : (h.feed t).silence = h.silence + silentStep h.furthest ⟨t, h.excluded⟩ :=
    silenceFrom_concat _ _ _
  rw [hfurthest, hsilence]
  cases hlast : h.furthest with
  | none =>
    simp [IndicatorEvaluator.advance, hag.tLast, hlast, furthestFrom, silentStep, hag.silentS]
  | some m =>
    have hcovers : e.isExcluded m = covers h.excluded m := by
      refine hag.covers_eq fun sample hsample => ?_
      obtain ⟨m', hm', hle⟩ := hag.heard sample hsample
      rw [hlast] at hm'
      rwa [Option.some.inj hm']
    by_cases hlt : m < t
    · cases hm : covers h.excluded m <;>
        simp [IndicatorEvaluator.advance, hag.tLast, hlast, hlt, hcovers, hm, furthestFrom,
          silentStep, hag.silentS, max_eq_right hlt.le]
    · simp [IndicatorEvaluator.advance, hag.tLast, hlast, hlt, furthestFrom, silentStep,
        hag.silentS, max_eq_left (not_lt.mp hlt)]

end Agrees

/-- Passing time changes nothing else. -/
theorem advance_frame (e : IndicatorEvaluator) (t : ℚ) :
    e.advance t = { e with tLast := (e.advance t).tLast, silentS := (e.advance t).silentS } := by
  unfold IndicatorEvaluator.advance
  split
  · rfl
  · split <;> rfl

theorem furthest_feed_le (h : History) (t : ℚ) :
    ∃ m, (h.feed t).furthest = some m ∧ t ≤ m ∧ ∀ m', h.furthest = some m' → m' ≤ m := by
  have hfurthest : (h.feed t).furthest = furthestFrom h.furthest [⟨t, h.excluded⟩] :=
    furthestFrom_concat _ _ _
  rw [hfurthest]
  cases h.furthest with
  | none => exact ⟨t, rfl, le_refl _, fun m' hm' => by cases hm'⟩
  | some m =>
    refine ⟨max m t, rfl, le_max_right _ _, fun m' hm' => ?_⟩
    rw [← Option.some.inj hm']
    exact le_max_left _ _

theorem agrees_advance (hag : Agrees params e h) (t : ℚ) :
    Agrees params (e.advance t) (h.feed t) := by
  obtain ⟨htLast, hsilent⟩ := hag.advance_fields t
  rw [advance_frame]
  exact { hag with
    tLast := htLast
    silentS := hsilent
    heard := by
      intro sample hsample
      obtain ⟨m, hm, hle⟩ := hag.heard sample hsample
      obtain ⟨m', hm', -, hall⟩ := furthest_feed_le h t
      exact ⟨m', hm', hle.trans (hall m hm)⟩ }

theorem agrees_excludeStart (hag : Agrees params e h) (kind : ExclusionKind) (t : ℚ) :
    Agrees params (e.excludeStart kind t) (h.excludeStart kind t) := by
  have hany : e.excluded.any (fun x => x.kind = kind ∧ x.isOpen) =
      h.excluded.any fun x => x.kind = kind ∧ x.isOpen := by
    rw [hag.excluded]
    cases h.latest with
    | none => rfl
    | some sample => exact any_open_filter
  by_cases hopen : h.excluded.any (fun x => x.kind = kind ∧ x.isOpen) = true
  · simpa only [IndicatorEvaluator.excludeStart, History.excludeStart, hany, hopen, if_true]
      using hag
  · have hheld : held h.latest (h.excluded ++ [⟨kind, t, none⟩]) =
        held h.latest h.excluded ++ [⟨kind, t, none⟩] := by
      cases h.latest with
      | none => rfl
      | some sample => simp [held, endsAfter]
    simp only [IndicatorEvaluator.excludeStart, History.excludeStart, hany, hopen]
    refine { hag with excluded := ?_ }
    exact (congrArg (· ++ _) hag.excluded).trans hheld.symm

theorem agrees_excludeEnd (hag : Agrees params e h) (kind : ExclusionKind) (t : ℚ) :
    Agrees params (e.excludeEnd kind t) (h.excludeEnd kind t) := by
  have hexcluded : (e.excludeEnd kind t).excluded =
      held h.latest (closeNewest kind t h.excluded.reverse).reverse := by
    simp only [IndicatorEvaluator.excludeEnd, IndicatorEvaluator.pruneExcluded, hag.current,
      hag.excluded]
    cases h.latest with
    | none => rfl
    | some sample =>
      have hclose := closeNewest_filter (m := sample.t) kind t h.excluded.reverse
      rw [List.filter_reverse] at hclose
      simp only [held, Option.elim_some, List.filter_reverse]
      exact congrArg List.reverse hclose
  have hframe : e.excludeEnd kind t = { e with excluded := (e.excludeEnd kind t).excluded } := by
    unfold IndicatorEvaluator.excludeEnd IndicatorEvaluator.pruneExcluded
    split <;> rfl
  rw [hframe]
  exact { hag with excluded := hexcluded }

theorem agrees_restart (hag : Agrees params e h) : Agrees params e.restart h.restart := by
  have hall : h.restart.samples.all = h.samples.all := by simp [History.restart, Samples.all]
  have hlatest : h.restart.latest = h.latest := by simp only [History.latest, hall]
  have hawake : h.restart.samples.awake params = h.samples.awake params := by
    simp only [Samples.awake, hall]
  exact {
    params_eq := hag.params_eq
    pos := hag.pos.trans hawake.symm
    restartPos := hag.pos
    intervals := by
      simp only [History.restart, intervals_restart]
      rfl
    ends := by
      intro drive
      simp only [History.restart, Samples.ends, counters_restart]
      rfl
    lastEnds := by
      intro drive
      simp only [History.restart, counters_restart]
      rfl
    current := hag.current.trans hlatest.symm
    excluded := by
      rw [hlatest]
      exact hag.excluded
    tLast := hag.tLast
    silentS := hag.silentS
    overBar := fun _ => rfl
    heard := by
      rw [hlatest]
      exact hag.heard
    evaluated := by
      intro s hs
      cases hs }

/-- A window that has been pruned is pruned. -/
theorem agrees_pruneWindow (hag : Agrees params e h) : Agrees params e.pruneWindow h := by
  refine { hag with intervals := ?_, ends := ?_ }
  · simp only [IndicatorEvaluator.pruneWindow, hag.windowStart, hag.intervals]
    exact dropWhile_filter (intervals_pairwise params h.samples) _
  · intro drive
    simp only [IndicatorEvaluator.pruneWindow, hag.windowStart, hag.ends]
    exact dropWhile_filter (ends_pairwise params h.samples drive) _

namespace Agrees

theorem spanAwakeS (hag : Agrees params e h) : e.spanAwakeS = h.samples.spanAwakeS params := by
  simp only [IndicatorEvaluator.spanAwakeS, Samples.spanAwakeS, hag.pos, hag.windowStart]

theorem evaluable (hag : Agrees params e h) : e.evaluable = h.samples.evaluable params := by
  simp only [IndicatorEvaluator.evaluable, Samples.evaluable, hag.spanAwakeS, hag.params_eq]

/-- What lies before the window has no part in it. -/
theorem awakeWhere (hag : Agrees params e h) (p : Interval → Bool) :
    e.awakeWhere p = h.samples.awakeWhere params p := by
  simp only [IndicatorEvaluator.awakeWhere, Samples.awakeWhere, hag.pos, hag.windowStart,
    hag.intervals]
  generalize h.samples.intervals params = l
  induction l with
  | nil => rfl
  | cons iv l ih =>
    by_cases hin : h.samples.windowStart params < iv.stop
    · simp only [List.filter_cons, hin, decide_true, if_true]
      cases p iv <;>
        simp only [if_true, Bool.false_eq_true, if_false, List.map_cons, List.sum_cons, ih]
    · have hzero : max 0 (min iv.stop (h.samples.awake params) -
          max iv.start (h.samples.windowStart params)) = 0 := by
        refine max_eq_left ?_
        have hstop := min_le_left iv.stop (h.samples.awake params)
        have hstart := le_max_right iv.start (h.samples.windowStart params)
        linarith [not_lt.mp hin]
      simp only [List.filter_cons, hin, decide_false, Bool.false_eq_true, if_false, ih]
      cases hp : p iv <;> simp [hzero]

theorem value (hag : Agrees params e h) (name : Indicator) :
    e.value name = h.samples.value params name := by
  cases name with
  | deprived drive => simp only [IndicatorEvaluator.value, Samples.value, hag.awakeWhere]
  | negativeValence => simp only [IndicatorEvaluator.value, Samples.value, hag.awakeWhere]
  | uncontrolled drive =>
    simp only [IndicatorEvaluator.value, Samples.value, hag.ends, hag.windowStart,
      List.filter_filter, Bool.and_self]

theorem isOver (hag : Agrees params e h) (name : Indicator) :
    (e.evaluable && e.isOver name) = h.samples.isOver params name := by
  simp only [IndicatorEvaluator.isOver, Samples.isOver, hag.evaluable, hag.value, hag.params_eq]

/-- A span that could be evaluated since its restart still can be. -/
theorem evaluable_of_wasOver (hag : Agrees params e h) (hover : h.wasOver params name = true) :
    e.evaluable = true := by
  obtain ⟨s, hs, hsover⟩ : ∃ s, h.evaluated = some s ∧ s.isOver params name = true := by
    cases hs : h.evaluated with
    | none => simp [History.wasOver, hs] at hover
    | some s => exact ⟨s, rfl, by simpa [History.wasOver, hs] using hover⟩
  obtain ⟨later, hlater⟩ := hag.evaluated s hs
  have hthen : params.minSpanS ≤ s.spanAwakeS params := by
    have hboth := Bool.and_eq_true_iff.mp hsover
    simpa [Samples.evaluable] using hboth.1
  have hgrown : s.awake params ≤ h.samples.awake params := by
    simp only [hlater, Samples.awake, Samples.all, ← List.append_assoc]
    exact total_le_append (gap_nonneg params) _ _
  have hbase : s.restartPos params = h.samples.restartPos params := by rw [hlater]; rfl
  have hspan : s.spanAwakeS params ≤ h.samples.spanAwakeS params := by
    simp only [Samples.spanAwakeS, Samples.windowStart, hbase]
    refine max_le_max_left _ ?_
    have hleft := le_max_left (h.samples.restartPos params) (s.awake params - params.spanS)
    have hright := le_max_right (h.samples.restartPos params) (s.awake params - params.spanS)
    rw [sub_le_sub_iff]
    rcases max_choice (h.samples.restartPos params) (h.samples.awake params - params.spanS)
      with hmax | hmax <;> rw [hmax] <;> linarith
  rw [hag.evaluable]
  simpa [Samples.evaluable] using hthen.trans hspan

/-- What an evaluation says is what is computed from the history. -/
theorem evaluation (hag : Agrees params e h) : e.evaluate.1 = h.evaluation params := by
  have hpruned := agrees_pruneWindow hag
  have havailable : e.pruneWindow.available = decide (h.silence < params.unavailableAfterS) := by
    simp only [IndicatorEvaluator.available, hpruned.silentS, hpruned.params_eq]
  have hcrossed : (if e.pruneWindow.evaluable then
      indicatorNames.filter fun name => e.pruneWindow.isOver name && !e.pruneWindow.overBar name
      else []) =
      indicatorNames.filter fun name =>
        h.samples.isOver params name && !h.wasOver params name := by
    simp only [← hpruned.isOver, ← hpruned.overBar]
    cases e.pruneWindow.evaluable <;> simp
  simp only [IndicatorEvaluator.evaluate, hcrossed, hpruned.isOver]
  simp only [History.evaluation, hpruned.value, hpruned.spanAwakeS, havailable, hpruned.params_eq,
    hpruned.evaluable]

end Agrees

/-- An evaluation remembers which indicators were over their bars. -/
theorem agrees_evaluate (hag : Agrees params e h) :
    Agrees params e.evaluate.2 { h with evaluated := some h.samples } := by
  have hpruned := agrees_pruneWindow hag
  have hover : ∀ name, e.evaluate.2.overBar name = h.samples.isOver params name := by
    intro name
    simp only [IndicatorEvaluator.evaluate]
    split
    · rename_i heval
      rw [← hpruned.isOver, heval, Bool.true_and]
    · rename_i heval
      have hno : h.samples.isOver params name = false := by
        rw [← hpruned.isOver]
        simp [heval]
      rw [hno, hpruned.overBar]
      by_contra hwas
      exact heval (hpruned.evaluable_of_wasOver (by simpa using hwas))
  have hframe : e.evaluate.2 = { e.pruneWindow with overBar := e.evaluate.2.overBar } := by
    simp only [IndicatorEvaluator.evaluate]
    split <;> rfl
  rw [hframe]
  exact { hpruned with
    overBar := hover
    evaluated := by
      intro s hs
      obtain rfl := Option.some.inj hs
      exact ⟨[], by simp⟩ }

/-- The time up to an accepted sample goes to the coordinate and, as an interval, to the window. -/
theorem accrue_eq (hag : Agrees params e h) (hb : b.known = h.excluded) :
    e.accrue b.sample.t = { e with
      pos := (h.samples.push b).awake params
      intervals := e.intervals ++ (h.samples.all.getLast?.bind fun a =>
        intervalOf params
          ((h.samples.awake params, a), ((h.samples.push b).awake params, b))).toList } := by
  have hpush := awake_push params h.samples b
  have hcurrent : e.current = h.samples.all.getLast?.map Heard.sample := hag.current
  cases hlast : h.samples.all.getLast? with
  | none =>
    rw [hlast] at hpush hcurrent
    have hsame : e.accrue b.sample.t = e := by simp [IndicatorEvaluator.accrue, hcurrent]
    rw [hsame, hpush, Option.elim_none, add_zero, ← hag.pos]
    simp
  | some a =>
    rw [hlast] at hpush hcurrent
    simp only [Option.elim_some] at hpush
    have hcovers : e.isExcluded a.sample.t = covers h.excluded a.sample.t := by
      refine hag.covers_eq fun sample hsample => ?_
      rw [← hag.current, hcurrent] at hsample
      rw [← Option.some.inj hsample]
    have hcond : (a.sample.t < b.sample.t ∧ ¬ e.isExcluded a.sample.t = true) ↔
        0 < gap params a b := by
      rw [gap_pos_iff, hb, hcovers]
    have haccrue : e.accrue b.sample.t =
        if a.sample.t < b.sample.t ∧ ¬ e.isExcluded a.sample.t = true then
          { e with
            pos := e.pos + min (b.sample.t - a.sample.t) e.params.maxGapS
            intervals := e.intervals ++
              [⟨e.pos, e.pos + min (b.sample.t - a.sample.t) e.params.maxGapS,
                a.sample.valence < -e.params.valenceBar, a.sample.above⟩] }
        else e := by
      simp only [IndicatorEvaluator.accrue, hcurrent, Option.map_some]
    have hiv : intervalOf params ((h.samples.awake params, a),
        ((h.samples.push b).awake params, b)) = if 0 < gap params a b
          then some ⟨h.samples.awake params, (h.samples.push b).awake params,
          a.sample.valence < -params.valenceBar, a.sample.above⟩ else none := by
      simp only [intervalOf, hpush, lt_add_iff_pos_right]
    rw [haccrue, Option.bind_some, hiv]
    by_cases hpos : 0 < gap params a b
    · have hgap : gap params a b = min (b.sample.t - a.sample.t) params.maxGapS := by
        rw [gap, if_pos (gap_pos_iff.mp hpos)]
      rw [if_pos (hcond.mpr hpos), if_pos hpos, hpush, hgap, hag.pos, hag.params_eq]
      rfl
    · have hzero : gap params a b = 0 := le_antisymm (not_lt.mp hpos) (gap_nonneg params a b)
      rw [if_neg fun hc => hpos (hcond.mp hc), if_neg hpos, hpush, hzero, add_zero, ← hag.pos]
      simp

/-- What the counters of a sample add to the window is their gain since the reading before. -/
theorem noteEnds_ends (hag : Agrees params e h) (payload : Dict) (drive : UncontrolledDrive)
    {e' : IndicatorEvaluator} (hends : e'.ends = e.ends) (hlast : e'.lastEnds = e.lastEnds) :
    (e'.noteEnds payload).ends drive = e.ends drive ++
      ((h.samples.counters params drive).getLast?.bind fun p =>
        (readEnds payload drive).bind fun reading => gainOf (p, (e'.pos, reading))).toList := by
  simp only [IndicatorEvaluator.noteEnds, hends, hlast, hag.lastEnds]
  cases (h.samples.counters params drive).getLast? with
  | none => cases readEnds payload drive <;> simp
  | some p =>
    cases readEnds payload drive with
    | none => simp
    | some reading =>
      obtain ⟨own, other⟩ := reading
      obtain ⟨q, lastOwn, lastOther⟩ := p
      simp only [Option.map_some, Option.bind_some, gainOf]
      split <;> simp

theorem noteEnds_lastEnds (hag : Agrees params e h) {payload : Dict} (drive : UncontrolledDrive)
    {e' : IndicatorEvaluator} (hlast : e'.lastEnds = e.lastEnds)
    (hends : b.ends = readEnds payload) :
    (e'.noteEnds payload).lastEnds drive =
      ((h.samples.push b).counters params drive).getLast?.map Prod.snd := by
  simp only [IndicatorEvaluator.noteEnds, hlast, hag.lastEnds, counters_push, hends]
  cases readEnds payload drive <;> simp

/-- A history that has just heard a sign of life. -/
def History.hush (h : History) : History := { h with heardBy := h.furthest, feeds := [] }

theorem agrees_hush (hag : Agrees params e h) : Agrees params { e with silentS := 0 } h.hush :=
  { hag with silentS := rfl }

/-- The evaluator after an accepted sample. -/
def IndicatorEvaluator.take (e : IndicatorEvaluator) (sample : Sample) (payload : Dict) :
    IndicatorEvaluator :=
  ({ (e.accrue sample.t).noteEnds payload with current := some sample }.pruneExcluded).pruneWindow

theorem latest_push (h : History) (b : Heard) :
    ({ h with samples := h.samples.push b } : History).latest = some b.sample := by
  simp [History.latest, all_push]

theorem agrees_take (hag : Agrees params e h) {payload : Dict} (hb : b.known = h.excluded)
    (hends : b.ends = readEnds payload)
    (hlater : ∀ sample, h.latest = some sample → sample.t ≤ b.sample.t)
    (hfed : ∃ m, h.furthest = some m ∧ b.sample.t ≤ m) :
    Agrees params (e.take b.sample payload) { h with samples := h.samples.push b } := by
  have haccrue := accrue_eq hag hb
  have hparams : (e.take b.sample payload).params = params :=
    (congrArg IndicatorEvaluator.params haccrue).trans hag.params_eq
  have hpos : (e.take b.sample payload).pos = (h.samples.push b).awake params :=
    congrArg IndicatorEvaluator.pos haccrue
  have hrestart : (e.take b.sample payload).restartPos = (h.samples.push b).restartPos params :=
    (congrArg IndicatorEvaluator.restartPos haccrue).trans hag.restartPos
  have hlast : (e.accrue b.sample.t).lastEnds = e.lastEnds := by rw [haccrue]
  have hstart : (e.take b.sample payload).windowStart = (h.samples.push b).windowStart params := by
    simp only [IndicatorEvaluator.windowStart, Samples.windowStart, hparams, hpos, hrestart]
  have hgrows := windowStart_le_push params h.samples b
  exact {
    params_eq := hparams
    pos := hpos
    restartPos := hrestart
    intervals := by
      have hpairwise := intervals_pairwise params (h.samples.push b)
      have hintervals := congrArg IndicatorEvaluator.intervals haccrue
      rw [intervals_push] at hpairwise ⊢
      rw [← dropWhile_filter_append _ hpairwise hgrows, ← hstart, ← hag.intervals]
      exact congrArg _ hintervals
    ends := by
      intro drive
      have hpairwise := ends_pairwise params (h.samples.push b) drive
      have hsame : (e.accrue b.sample.t).ends = e.ends := by rw [haccrue]
      have hnoted := noteEnds_ends hag payload drive hsame hlast
      rw [congrArg IndicatorEvaluator.pos haccrue, ← hends] at hnoted
      rw [ends_push] at hpairwise ⊢
      rw [← dropWhile_filter_append _ hpairwise hgrows, ← hstart, ← hag.ends]
      exact congrArg _ hnoted
    lastEnds := fun drive => noteEnds_lastEnds hag drive hlast hends
    current := (latest_push h b).symm
    excluded := by
      have hkept : (e.take b.sample payload).excluded = e.excluded.filter (endsAfter b.sample.t) :=
        congrArg (fun e' => e'.excluded.filter (endsAfter b.sample.t)) haccrue
      rw [hkept, hag.excluded, latest_push]
      cases hlatest : h.latest with
      | none => rfl
      | some sample =>
        simp only [held, Option.elim_some, List.filter_filter]
        refine List.filter_congr fun x _ => ?_
        have hle := hlater sample hlatest
        cases hstop : x.stop with
        | none => simp [endsAfter, hstop]
        | some stop =>
          by_cases hlt : b.sample.t < stop
          · simp [endsAfter, hstop, hlt, hle.trans_lt hlt]
          · simp [endsAfter, hstop, hlt]
    tLast := (congrArg IndicatorEvaluator.tLast haccrue).trans hag.tLast
    silentS := (congrArg IndicatorEvaluator.silentS haccrue).trans hag.silentS
    overBar := fun name =>
      (congrArg (fun e' => e'.overBar name) haccrue).trans (hag.overBar name)
    heard := by
      rw [latest_push]
      rintro sample ⟨rfl⟩
      exact hfed
    evaluated := by
      intro s hs
      obtain ⟨later, hlater⟩ := hag.evaluated s hs
      refine ⟨later ++ [b], ?_⟩
      simp [hlater, Samples.push] }

/-- A sample is accepted, is only a time fed, or is nothing at all, by both alike. -/
theorem agrees_observeState (hag : Agrees params e h) (t : ℚ) (payload : Dict) :
    Agrees params (e.observeOr t payload) (h.observeState t payload) := by
  unfold IndicatorEvaluator.observeOr IndicatorEvaluator.observeState History.observeState
  cases readValence payload with
  | error err => exact hag
  | ok read =>
    cases read with
    | none => exact hag
    | some valence =>
      have hfed := agrees_advance hag t
      have hcurrent : (e.advance t).current = h.latest := hfed.current
      have hany : (e.advance t).current.any (fun sample => t < sample.t) =
          h.latest.any fun sample => t < sample.t := by rw [hcurrent]
      simp only [Except.map, History.hear]
      by_cases hbehind : h.latest.any (fun sample => t < sample.t) = true
      · rw [if_pos (hany.trans hbehind), if_pos hbehind]
        exact hfed
      · rw [if_neg fun hc => hbehind (hany.symm.trans hc), if_neg hbehind]
        obtain ⟨m, hm, hle, -⟩ := furthest_feed_le h t
        refine agrees_take (agrees_hush hfed)
          (b := ⟨⟨t, valence, readAbove payload⟩, readEnds payload, h.excluded⟩) rfl rfl ?_
            ⟨m, hm, hle⟩
        intro sample hsample
        have hlatest : h.latest = some sample := hsample
        simpa [hlatest] using hbehind

/-- Fed the same, both say the same and go on agreeing. -/
theorem agrees_step (hag : Agrees params e h) (move : Move) :
    (h.step params move).1 = (e.step move).1 ∧
      Agrees params (e.step move).2 (h.step params move).2 := by
  cases move with
  | observeState t payload =>
    cases t with
    | fin t => exact ⟨rfl, agrees_observeState hag t payload⟩
    | nan | negInf | posInf => exact ⟨rfl, hag⟩
  | advance t =>
    cases t with
    | fin t => exact ⟨rfl, agrees_advance hag t⟩
    | nan | negInf | posInf => exact ⟨rfl, hag⟩
  | excludeStart kind t =>
    cases t with
    | fin t => exact ⟨rfl, agrees_excludeStart hag kind t⟩
    | nan | negInf | posInf => exact ⟨rfl, hag⟩
  | excludeEnd kind t =>
    cases t with
    | fin t => exact ⟨rfl, agrees_excludeEnd hag kind t⟩
    | nan | negInf | posInf => exact ⟨rfl, hag⟩
  | restart => exact ⟨rfl, agrees_restart hag⟩
  | evaluate => exact ⟨congrArg some hag.evaluation.symm, agrees_evaluate hag⟩
  | peek =>
    refine ⟨?_, agrees_pruneWindow hag⟩
    simp only [History.step, IndicatorEvaluator.step, IndicatorEvaluator.peek, hag.evaluation]

/-- An evaluator that was fed the moves. -/
def evaluatorAfter (params : IndicatorParams) (moves : List Move) : IndicatorEvaluator :=
  (outputs IndicatorEvaluator.step { params } moves).2

def historyOf (params : IndicatorParams) (moves : List Move) : History :=
  (outputs (History.step params) {} moves).2

/-- What an evaluator says over the moves that are still to come. -/
def saysNext (e : IndicatorEvaluator) (later : List Move) : List Evaluation :=
  (outputs IndicatorEvaluator.step e later).1

theorem agrees_after (params : IndicatorParams) (moves : List Move) :
    Agrees params (evaluatorAfter params moves) (historyOf params moves) :=
  (outputs_sim (r := Agrees params) (fun move hag => agrees_step hag move)
    (agrees_initial params) moves).2

theorem saysNext_of_agrees (hag : Agrees params e h) (later : List Move) :
    saysNext e later = (outputs (History.step params) h later).1 :=
  (outputs_sim (r := Agrees params) (fun move hag => agrees_step hag move) hag later).1.symm

/-- Outside all exclusions the silence is the time that has passed. -/
theorem silenceFrom_uncovered {m : ℚ} {feeds : List Feed}
    (hfeeds : ∀ feed ∈ feeds, ∀ τ, covers feed.known τ = false) :
    ∃ m', furthestFrom (some m) feeds = some m' ∧ silenceFrom (some m) feeds = m' - m := by
  induction feeds generalizing m with
  | nil => exact ⟨m, rfl, by simp [silenceFrom]⟩
  | cons feed feeds ih =>
    obtain ⟨hfirst, hrest⟩ := List.forall_mem_cons.mp hfeeds
    obtain ⟨m', hfurthest, hsilence⟩ := ih (m := max m feed.t) hrest
    have hnext : furthestFrom (some m) [feed] = some (max m feed.t) := rfl
    refine ⟨m', hfurthest, ?_⟩
    rw [silenceFrom, hnext, hsilence]
    by_cases hlt : m < feed.t
    · simp [silentStep, hlt, hfirst, max_eq_right hlt.le]
    · simp [silentStep, hlt, max_eq_left (not_lt.mp hlt)]

/-- The window, the coordinate and the silence of an evaluator are those of its history. -/
structure Recomputed (params : IndicatorParams) (e : IndicatorEvaluator) (h : History) : Prop where
  awake : e.pos = h.samples.awake params
  intervals : e.intervals =
    (h.samples.intervals params).filter fun iv => h.samples.windowStart params < iv.stop
  ends : ∀ drive, e.ends drive =
    (h.samples.ends params drive).filter fun x => h.samples.windowStart params < x.position
  silent : e.silentS = h.silence
  /-- Outside all exclusions that is the time since the latest sample. -/
  sinceHeard : ∀ m, h.heardBy = some m →
    (∀ feed ∈ h.feeds, ∀ τ, covers feed.known τ = false) →
    ∃ m', h.furthest = some m' ∧ e.silentS = m' - m
  /-- A gap counts as a whole: excluded time enters it only by an exclusion that starts inside. -/
  outside : ∀ a b, (a, b) ∈ pairs h.samples.all → 0 < gap params a b →
    (∀ x ∈ b.known, ¬ (a.sample.t < x.start ∧ x.start < b.sample.t)) →
    ∀ τ, a.sample.t ≤ τ → τ < b.sample.t → covers b.known τ = false

/-- Whatever an evaluator is fed, it says what is computed anew from the history, with crossings as
the rising edges of what was evaluated since the restart; it holds just the window of that history;
and a peek changes nothing it says later. -/
theorem evaluator_recomputes (params : IndicatorParams) (moves : List Move) :
    saysNext { params } moves = (outputs (History.step params) {} moves).1 ∧
    Recomputed params (evaluatorAfter params moves) (historyOf params moves) ∧
    ∀ later, saysNext (evaluatorAfter params moves).peek.2 later =
      saysNext (evaluatorAfter params moves) later := by
  have hag := agrees_after params moves
  refine ⟨saysNext_of_agrees (agrees_initial params) moves, ?_, ?_⟩
  · exact {
      awake := hag.pos
      intervals := hag.intervals
      ends := hag.ends
      silent := hag.silentS
      sinceHeard := by
        intro m hm hfeeds
        obtain ⟨m', hfurthest, hsilence⟩ := silenceFrom_uncovered hfeeds
        refine ⟨m', ?_, ?_⟩
        · rw [History.furthest, hm, hfurthest]
        · rw [hag.silentS, History.silence, hm, hsilence]
      outside := by
        intro a b _ hpos hstarts τ hle hlt
        have huncovered : covers b.known a.sample.t = false := by
          simpa using (gap_pos_iff.mp hpos).2
        exact covers_within huncovered hstarts hle hlt }
  · intro later
    have hpeek := saysNext_of_agrees (agrees_pruneWindow hag) later
    exact hpeek.trans (saysNext_of_agrees hag later).symm

section
/-- A sample of neutral valence. -/
def neutralAt (t : ℚ) : Move :=
  .observeState (.fin t) [("state", .obj [("valence", .float (.fin 0))])]

/-- A sleep begins between two samples. -/
def sleepInGap : List Move :=
  [neutralAt 0, .excludeStart .sleep (.fin 1), neutralAt 5]

/-- A span restarts between two samples. -/
def restartInGap : List Move := [neutralAt 0, .restart, neutralAt 5]

/-- A sleep begins between a sample and the next time. -/
def sleepInSilence : List Move :=
  [neutralAt 0, .excludeStart .sleep (.fin 1), .advance (.fin 2)]

end

/-- The awake coordinate takes in the part of a gap that is inside an exclusion, a span takes in a
gap that began before its restart, and the silence a step that ends inside an exclusion. -/
theorem gaps_count_whole :
    (¬ ∀ params moves, ∀ a b, (a, b) ∈ pairs (historyOf params moves).samples.all →
      gap params a b = b.sample.t - a.sample.t → ∀ τ, a.sample.t ≤ τ → τ < b.sample.t →
      covers b.known τ = false) ∧
    (¬ ∀ params moves, (evaluatorAfter params moves).spanAwakeS =
      (Samples.mk [] (historyOf params moves).samples.since).spanAwakeS params) ∧
    ¬ ∀ params moves m, ∀ x ∈ (historyOf params moves).excluded, x.stop = none →
      (historyOf params moves).heardBy = some m → m ≤ x.start →
      (evaluatorAfter params moves).silentS ≤ x.start - m := by
  refine ⟨?_, ?_, ?_⟩
  · intro hall
    have hasleep : (pairs (historyOf defaultParams sleepInGap).samples.all).any (fun p =>
        gap defaultParams p.1 p.2 = p.2.sample.t - p.1.sample.t && p.1.sample.t ≤ 1 &&
          (1 : ℚ) < p.2.sample.t && covers p.2.known 1) = true := by decide +kernel
    obtain ⟨⟨a, b⟩, hmem, hp⟩ := List.any_eq_true.mp hasleep
    simp only [Bool.and_eq_true, decide_eq_true_eq] at hp
    obtain ⟨⟨⟨hgap, hle⟩, hlt⟩, hcovers⟩ := hp
    have hfree := hall defaultParams sleepInGap a b hmem hgap 1 hle hlt
    rw [hcovers] at hfree
    cases hfree
  · intro hall
    have hspan := hall defaultParams restartInGap
    revert hspan
    decide +kernel
  · intro hall
    have hasleep : (historyOf defaultParams sleepInSilence).excluded.any (fun x =>
        x.isOpen && (0 : ℚ) ≤ x.start &&
          x.start - 0 < (evaluatorAfter defaultParams sleepInSilence).silentS) = true := by
      decide +kernel
    obtain ⟨x, hmem, hp⟩ := List.any_eq_true.mp hasleep
    simp only [Excluded.isOpen, Bool.and_eq_true, Option.isNone_iff_eq_none, decide_eq_true_eq]
      at hp
    obtain ⟨⟨hopen, hle⟩, hlt⟩ := hp
    have hheard : (historyOf defaultParams sleepInSilence).heardBy = some 0 := by decide
    exact absurd (hall defaultParams sleepInSilence 0 x hmem hopen hheard hle) (not_le.mpr hlt)

end Kaine.WelfareIndicators
