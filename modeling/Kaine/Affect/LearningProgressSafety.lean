import Kaine.Affect.LearningProgress
import Mathlib.Algebra.Order.BigOperators.Group.List

/-! Rolling the bins against assigning every sample to its bin anew. -/
namespace Kaine.LearningProgress
open Py WindowedProgress

section Deque

variable {α : Type*} {l r : List α} {n : ℕ}

theorem rtake_append (h : n ≤ r.length) : (l ++ r).rtake n = r.rtake n := by
  rw [List.rtake, List.rtake, List.length_append, Nat.add_sub_assoc h, List.drop_length_add_append]

/-- What was dropped before an extension would be dropped after it. -/
theorem rtake_rtake_append : (l.rtake n ++ r).rtake n = (l ++ r).rtake n := by
  rcases Nat.lt_or_ge n l.length with hlt | hge
  · have hsplit : l.take (l.length - n) ++ l.rtake n = l := List.take_append_drop _ _
    have hlength : n ≤ (l.rtake n ++ r).length := by
      rw [List.rtake, List.length_append, List.length_drop]
      omega
    conv_rhs => rw [← hsplit, List.append_assoc, rtake_append hlength]
  · have hall : l.rtake n = l := by
      rw [List.rtake, Nat.sub_eq_zero_of_le hge, List.drop_zero]
    rw [hall]

theorem rtake_append_replicate {a : α} {m : ℕ} (h : n ≤ m) :
    (l ++ List.replicate m a).rtake n = List.replicate n a := by
  rw [rtake_append (by rwa [List.length_replicate]), List.rtake, List.length_replicate,
    List.drop_replicate, Nat.sub_sub_self h]

end Deque

variable {cfg : Settings} {log : List (ℚ × ℚ)} {now t origin : ℚ}

/-- The samples from the first positive one on. -/
def kept (log : List (ℚ × ℚ)) : List (ℚ × ℚ) := log.dropWhile fun x => x.2 ≤ 0

/-- The samples of a bin. -/
def inBin (cfg : Settings) (origin : ℚ) (samples : List (ℚ × ℚ)) (i : ℤ) : List (ℚ × ℚ) :=
  samples.filter fun x => binOf cfg origin x.1 = i

def binAt (cfg : Settings) (origin : ℚ) (samples : List (ℚ × ℚ)) (i : ℤ) : Bin :=
  ⟨((inBin cfg origin samples i).map Prod.snd).sum, (inBin cfg origin samples i).length⟩

/-- The bins that a time has completed, each from the samples that fall in it. -/
def completed (cfg : Settings) (origin : ℚ) (samples : List (ℚ × ℚ)) (now : ℚ) : List Bin :=
  (List.range (binOf cfg origin now).toNat).map fun i : ℕ => binAt cfg origin samples i

/-- The estimator as all samples so far make it. -/
def recompute (cfg : Settings) (log : List (ℚ × ℚ)) (now : ℚ) : WindowedProgress :=
  match kept log with
  | [] => {}
  | first :: rest =>
    { origin := some first.1
      bins := (completed cfg first.1 (first :: rest) now).rtake cfg.maxBins
      currentIdx := binOf cfg first.1 now
      current := binAt cfg first.1 (first :: rest) (binOf cfg first.1 now) }

/-- Samples that start at an origin and lie no later than a time. -/
def Between (origin now : ℚ) (samples : List (ℚ × ℚ)) : Prop :=
  ∀ x ∈ samples, origin ≤ x.1 ∧ x.1 ≤ now

theorem binOf_mono (h : now ≤ t) : binOf cfg origin now ≤ binOf cfg origin t := by
  have hpos := cfg.binS_pos
  unfold binOf
  gcongr

theorem binOf_nonneg (cfg : Settings) (h : origin ≤ t) : 0 ≤ binOf cfg origin t := by
  have hpos := cfg.binS_pos
  exact Int.floor_nonneg.mpr (div_nonneg (by linarith) hpos.le)

theorem inBin_of_lt {samples : List (ℚ × ℚ)} (h : Between origin now samples) {i : ℤ}
    (hi : binOf cfg origin now < i) : inBin cfg origin samples i = [] := by
  refine List.filter_eq_nil_iff.mpr fun x hx => ?_
  have hle : binOf cfg origin x.1 ≤ binOf cfg origin now := binOf_mono (h x hx).2
  simp only [decide_eq_true_eq]
  omega

theorem binAt_of_lt {samples : List (ℚ × ℚ)} (h : Between origin now samples) {i : ℤ}
    (hi : binOf cfg origin now < i) : binAt cfg origin samples i = .empty := by
  rw [binAt, inBin_of_lt h hi]
  rfl

/-- Time passes: the bin that was filling is completed, and empty ones after it. -/
theorem completed_of_lt {samples : List (ℚ × ℚ)} (h : Between origin now samples)
    (hnow : origin ≤ now) (hlt : binOf cfg origin now < binOf cfg origin t) :
    completed cfg origin samples t = completed cfg origin samples now ++
      [binAt cfg origin samples (binOf cfg origin now)] ++
      .replicate (binOf cfg origin t - binOf cfg origin now - 1).toNat .empty := by
  obtain ⟨n, hn⟩ := Int.eq_ofNat_of_zero_le (binOf_nonneg cfg hnow)
  obtain ⟨gap, hgap⟩ := Int.eq_ofNat_of_zero_le (a := binOf cfg origin t - binOf cfg origin now - 1)
    (by omega)
  have hm : (binOf cfg origin t).toNat = n + (1 + gap) := by omega
  have hn' : (binOf cfg origin now).toNat = n := by omega
  rw [completed, completed, hm, hn', hgap, List.range_add, List.map_append, List.append_assoc,
    List.range_add, List.map_append, List.map_append, hn]
  have hempty : (((List.range gap).map (1 + ·)).map (n + ·)).map (fun i : ℕ =>
      binAt cfg origin samples i) = List.replicate gap .empty := by
    refine List.eq_replicate_iff.mpr ⟨by simp, fun bin hbin => ?_⟩
    obtain ⟨i, hi, rfl⟩ := List.mem_map.mp hbin
    obtain ⟨j, hj, rfl⟩ := List.mem_map.mp hi
    obtain ⟨k, -, rfl⟩ := List.mem_map.mp hj
    refine binAt_of_lt h ?_
    push_cast
    omega
  rw [hempty]
  simp

/-- What the estimator holds is what its samples make. -/
structure Tracks (cfg : Settings) (log : List (ℚ × ℚ)) (now : ℚ) (s : WindowedProgress) : Prop where
  eq : s = recompute cfg log now
  between : ∀ first ∈ (kept log).head?, Between first.1 now (kept log)
  nonneg : ∀ x ∈ kept log, 0 ≤ x.2

theorem recompute_cons {first : ℚ × ℚ} {rest : List (ℚ × ℚ)} (h : kept log = first :: rest) :
    recompute cfg log now =
      { origin := some first.1
        bins := (completed cfg first.1 (kept log) now).rtake cfg.maxBins
        currentIdx := binOf cfg first.1 now
        current := binAt cfg first.1 (kept log) (binOf cfg first.1 now) } := by
  rw [recompute, h]

theorem recompute_nil (h : kept log = []) : recompute cfg log now = {} := by rw [recompute, h]

/-- An advance leads to what the samples make at its time. -/
theorem advance_recompute (h : ∀ first ∈ (kept log).head?, Between first.1 now (kept log))
    (hnow : now ≤ t) : (recompute cfg log now).advance cfg t = recompute cfg log t := by
  cases hkept : kept log with
  | nil =>
    rw [recompute_nil hkept, recompute_nil hkept]
    rfl
  | cons first rest =>
    have hbetween : Between first.1 now (kept log) := h first (by rw [hkept]; rfl)
    have hfirst : first.1 ≤ now := (hbetween first (by rw [hkept]; exact List.mem_cons_self)).2
    have hmono : binOf cfg first.1 now ≤ binOf cfg first.1 t := binOf_mono hnow
    rw [recompute_cons hkept, recompute_cons hkept, advance]
    dsimp only
    by_cases hle : binOf cfg first.1 t ≤ binOf cfg first.1 now
    · have heq : binOf cfg first.1 t = binOf cfg first.1 now := le_antisymm hle hmono
      rw [if_pos hle, completed, completed, heq]
    · have hlt : binOf cfg first.1 now < binOf cfg first.1 t := not_le.mp hle
      rw [if_neg hle, binAt_of_lt hbetween hlt, completed_of_lt hbetween hfirst hlt]
      congr 1
      split_ifs with hgap
      · rw [rtake_append_replicate (by omega)]
      · rw [extend, extend, rtake_rtake_append, List.append_assoc, rtake_rtake_append,
          List.append_assoc]

theorem binAt_concat_self (samples : List (ℚ × ℚ)) (t error : ℚ) :
    binAt cfg origin (samples ++ [(t, error)]) (binOf cfg origin t) =
      ⟨(binAt cfg origin samples (binOf cfg origin t)).sum + error,
        (binAt cfg origin samples (binOf cfg origin t)).count + 1⟩ := by
  simp [binAt, inBin, List.filter_append]

theorem completed_concat (samples : List (ℚ × ℚ)) (t error : ℚ) :
    completed cfg origin (samples ++ [(t, error)]) t = completed cfg origin samples t := by
  refine List.map_congr_left fun i hi => ?_
  have hlt : (i : ℤ) < binOf cfg origin t := by
    have hrange := List.mem_range.mp hi
    omega
  have hne : binOf cfg origin t ≠ i := hlt.ne'
  simp [binAt, inBin, List.filter_append, hne]

theorem kept_concat (log : List (ℚ × ℚ)) (x : ℚ × ℚ) :
    kept (log ++ [x]) = if kept log = [] then (if x.2 ≤ 0 then [] else [x])
      else kept log ++ [x] := by
  unfold kept
  rw [List.dropWhile_append]
  cases log.dropWhile fun x => decide (x.2 ≤ 0) with
  | nil => by_cases hx : x.2 ≤ 0 <;> simp [hx]
  | cons first rest => simp

theorem tracks_init (cfg : Settings) (now : ℚ) : Tracks cfg [] now {} :=
  ⟨rfl, fun first h => (by cases h), fun x h => (by cases h)⟩

theorem tracks_advance {s : WindowedProgress} (h : Tracks cfg log now s) (hnow : now ≤ t) :
    Tracks cfg log t (s.advance cfg t) := by
  refine ⟨?_, fun first hfirst x hx => ?_, h.nonneg⟩
  · rw [h.eq]
    exact advance_recompute h.between hnow
  · obtain ⟨hlow, hhigh⟩ := h.between first hfirst x hx
    exact ⟨hlow, hhigh.trans hnow⟩

theorem tracks_add {s : WindowedProgress} {error : ℚ} (h : Tracks cfg log now s) (hnow : now ≤ t)
    (herror : 0 ≤ error) : Tracks cfg (log ++ [(t, error)]) t (s.add cfg t error) := by
  have hconcat := kept_concat log (t, error)
  cases hkept : kept log with
  | nil =>
    have hs : s = {} := h.eq.trans (recompute_nil hkept)
    rw [if_pos hkept] at hconcat
    subst hs
    by_cases hzero : error ≤ 0
    · -- still waiting for a positive error
      rw [if_pos hzero] at hconcat
      have hadd : add cfg {} t error = {} := if_pos hzero
      rw [hadd]
      refine ⟨(recompute_nil hconcat).symm, ?_, ?_⟩
      · intro first hfirst
        rw [hconcat] at hfirst
        cases hfirst
      · intro x hx
        rw [hconcat] at hx
        cases hx
    · -- the first positive error: it opens the first bin at its own time
      rw [if_neg hzero] at hconcat
      have hadd : add cfg {} t error =
          { origin := some t, currentIdx := 0, current := ⟨error, 1⟩ } := if_neg hzero
      have hfirst : binOf cfg t t = 0 := by simp [binOf]
      refine ⟨?_, ?_, ?_⟩
      · rw [hadd, recompute_cons hconcat, hconcat, hfirst, completed, hfirst]
        simp [binAt, inBin, hfirst, List.rtake]
      · intro first hmem x hx
        rw [hconcat] at hmem hx
        cases hmem
        rw [List.mem_singleton.mp hx]
        exact ⟨le_rfl, le_rfl⟩
      · intro x hx
        rw [hconcat] at hx
        rw [List.mem_singleton.mp hx]
        exact herror
  | cons first rest =>
    have hne : kept log ≠ [] := by
      rw [hkept]
      exact List.cons_ne_nil _ _
    have horigin : s.origin = some first.1 := by rw [h.eq, recompute_cons hkept]
    have hadvanced := tracks_advance h hnow
    rw [if_neg hne] at hconcat
    have hcons : kept (log ++ [(t, error)]) = first :: (rest ++ [(t, error)]) := by
      rw [hconcat, hkept, List.cons_append]
    have hbetween := hadvanced.between first (by rw [hkept]; rfl)
    refine ⟨?_, ?_, ?_⟩
    · rw [add, horigin]
      dsimp only
      rw [hadvanced.eq, recompute_cons hkept, recompute_cons hcons, hconcat, completed_concat,
        binAt_concat_self]
    · intro first' hmem x hx
      rw [hcons] at hmem
      cases hmem
      rw [hconcat] at hx
      rcases List.mem_append.mp hx with hx | hx
      · exact hbetween x hx
      · rw [List.mem_singleton.mp hx]
        exact ⟨(hbetween first (by rw [hkept]; exact List.mem_cons_self)).1.trans
          (hbetween first (by rw [hkept]; exact List.mem_cons_self)).2, le_rfl⟩
    · intro x hx
      rw [hconcat] at hx
      rcases List.mem_append.mp hx with hx | hx
      · exact h.nonneg x hx
      · rw [List.mem_singleton.mp hx]
        exact herror

/-- The samples that a sequence of calls adds. -/
def samples (ops : List Op) : List (ℚ × ℚ) :=
  ops.filterMap fun
    | .add t error => some (t, error)
    | _ => none

/-- Calls whose times do not fall and whose errors are not negative. -/
structure Orderly (ops : List Op) : Prop where
  times : (ops.map Op.time).Pairwise (· ≤ ·)
  errors : ∀ x ∈ samples ops, 0 ≤ x.2

theorem tracks_run {ops : List Op} :
    ∀ {log : List (ℚ × ℚ)} {now : ℚ} {s : WindowedProgress}, Tracks cfg log now s →
      (now :: ops.map Op.time).Pairwise (· ≤ ·) → (∀ x ∈ samples ops, 0 ≤ x.2) →
      ∃ now' ∈ now :: ops.map Op.time, Tracks cfg (log ++ samples ops) now' (run cfg s ops) := by
  induction ops with
  | nil =>
    intro log now s h _ _
    exact ⟨now, List.mem_cons_self, by simpa [samples, run] using h⟩
  | cons op ops ih =>
    intro log now s h htimes herrors
    obtain ⟨hfirst, hrest⟩ := List.pairwise_cons.mp htimes
    have hnow : now ≤ op.time := hfirst op.time List.mem_cons_self
    have hstep : ∀ log', log' ++ samples ops = log ++ samples (op :: ops) →
        Tracks cfg log' op.time (perform cfg s op).2 →
        ∃ now' ∈ now :: (op :: ops).map Op.time,
          Tracks cfg (log ++ samples (op :: ops)) now' (run cfg s (op :: ops)) := by
      intro log' hlog htracks
      obtain ⟨now', hmem, htracks'⟩ := ih htracks hrest fun x hx => by
        refine herrors x ?_
        cases op <;> simp_all [samples]
      rw [hlog] at htracks'
      exact ⟨now', List.mem_cons_of_mem _ hmem, htracks'⟩
    cases op with
    | add t error =>
      have herror : 0 ≤ error := herrors (t, error) (by simp [samples])
      exact hstep (log ++ [(t, error)]) (by simp [samples]) (tracks_add h hnow herror)
    | advance t => exact hstep log (by simp [samples]) (tracks_advance h hnow)
    | value t => exact hstep log (by simp [samples]) (tracks_advance h hnow)

/-- Before a call at a time that no earlier call passes, the samples make the estimator. -/
theorem tracks_of_orderly (cfg : Settings) {ops : List Op} (h : Orderly (ops ++ [.advance t])) :
    ∃ now, now ≤ t ∧ Tracks cfg (samples ops) now (run cfg {} ops) := by
  have htimes := h.times
  have hsamples : samples (ops ++ [.advance t]) = samples ops := by simp [samples]
  have herrors : ∀ x ∈ samples ops, 0 ≤ x.2 := hsamples ▸ h.errors
  rw [List.map_append] at htimes
  obtain ⟨hops, -, hlast⟩ := List.pairwise_append.mp htimes
  cases ops with
  | nil => exact ⟨t, le_rfl, tracks_init cfg t⟩
  | cons op ops =>
    have hfirst : (op.time :: (op :: ops).map Op.time).Pairwise (· ≤ ·) := by
      refine List.pairwise_cons.mpr ⟨fun u hu => ?_, hops⟩
      rcases List.mem_cons.mp hu with rfl | hu
      · exact le_rfl
      · exact (List.pairwise_cons.mp hops).1 u hu
    obtain ⟨now, hmem, htracks⟩ := tracks_run (tracks_init cfg op.time) hfirst herrors
    refine ⟨now, hlast now ?_ t (by simp [Op.time]), by simpa using htracks⟩
    rcases List.mem_cons.mp hmem with rfl | hmem
    · exact List.mem_cons_self
    · exact hmem

/-- Two estimators that differ in where they count their bins from. -/
structure Shifted (cfg : Settings) (s s' : WindowedProgress) : Prop where
  bins : s'.bins = s.bins
  current : s'.current = s.current
  origin : ∃ o o', s.origin = some o ∧ s'.origin = some o' ∧
    o' = o + (s.currentIdx - s'.currentIdx) * cfg.binS

variable {s s' : WindowedProgress}

theorem binOf_shift (k : ℤ) : binOf cfg (origin + k * cfg.binS) t = binOf cfg origin t - k := by
  have hne := cfg.binS_pos.ne'
  have heq : (t - (origin + k * cfg.binS)) / cfg.binS = (t - origin) / cfg.binS - k := by
    field_simp
    ring
  rw [binOf, heq, Int.floor_sub_intCast, binOf]

theorem Shifted.advance (h : Shifted cfg s s') (t : ℚ) :
    Shifted cfg (s.advance cfg t) (s'.advance cfg t) := by
  obtain ⟨o, o', ho, ho', heq⟩ := h.origin
  have hshift : binOf cfg o' t = binOf cfg o t - (s.currentIdx - s'.currentIdx) := by
    rw [heq, ← Int.cast_sub, binOf_shift]
  rw [WindowedProgress.advance, WindowedProgress.advance, ho, ho']
  dsimp only
  rw [hshift]
  by_cases hle : binOf cfg o t ≤ s.currentIdx
  · have hle' : binOf cfg o t - (s.currentIdx - s'.currentIdx) ≤ s'.currentIdx := by omega
    rw [if_pos hle, if_pos hle']
    exact h
  · have hle' : ¬binOf cfg o t - (s.currentIdx - s'.currentIdx) ≤ s'.currentIdx := by omega
    rw [if_neg hle, if_neg hle']
    have hgap : binOf cfg o t - (s.currentIdx - s'.currentIdx) - s'.currentIdx - 1 =
        binOf cfg o t - s.currentIdx - 1 := by omega
    refine ⟨?_, rfl, o, o', rfl, rfl, ?_⟩
    · rw [hgap, h.bins, h.current]
    · rw [heq]
      push_cast
      ring

theorem Shifted.perform (h : Shifted cfg s s') (op : Op) :
    (LearningProgress.perform cfg s' op).1 = (LearningProgress.perform cfg s op).1 ∧
      Shifted cfg (LearningProgress.perform cfg s op).2 (LearningProgress.perform cfg s' op).2 := by
  obtain ⟨o, o', ho, ho', -⟩ := h.origin
  cases op with
  | add t error =>
    refine ⟨rfl, ?_⟩
    have hadvanced := h.advance t
    rw [LearningProgress.perform, LearningProgress.perform, add, add, ho, ho']
    refine ⟨hadvanced.bins, ?_, hadvanced.origin⟩
    dsimp only
    rw [hadvanced.current]
  | advance t => exact ⟨rfl, h.advance t⟩
  | value t =>
    have hadvanced := h.advance t
    refine ⟨?_, hadvanced⟩
    rw [LearningProgress.perform, LearningProgress.perform, value, value, hadvanced.bins]

theorem Shifted.outputs (ops : List Op) :
    ∀ {s s' : WindowedProgress}, Shifted cfg s s' →
      LearningProgress.outputs cfg s' ops = LearningProgress.outputs cfg s ops := by
  induction ops with
  | nil =>
    intro s s' _
    rfl
  | cons op ops ih =>
    intro s s' h
    obtain ⟨hout, hnext⟩ := h.perform op
    rw [LearningProgress.outputs, LearningProgress.outputs, hout, ih hnext]

/-- A bin that `from_dict` accepts. -/
def Bin.Valid (bin : Bin) : Prop := 0 ≤ bin.sum ∧ (bin.count = 0 → bin.sum = 0)

theorem valid_empty : Bin.empty.Valid := ⟨le_rfl, fun _ => rfl⟩

theorem valid_binAt {log : List (ℚ × ℚ)} (h : ∀ x ∈ log, 0 ≤ x.2) (i : ℤ) :
    (binAt cfg origin log i).Valid := by
  refine ⟨List.sum_nonneg fun e he => ?_, fun hcount => ?_⟩
  · obtain ⟨x, hx, rfl⟩ := List.mem_map.mp he
    exact h x (List.mem_filter.mp hx).1
  · have hnil : inBin cfg origin log i = [] := List.length_eq_zero_iff.mp hcount
    rw [binAt, hnil]
    rfl

theorem Tracks.valid (h : Tracks cfg log now s) :
    (∀ bin ∈ s.bins, bin.Valid) ∧ s.current.Valid := by
  cases hkept : kept log with
  | nil =>
    have hs : s = {} := h.eq.trans (recompute_nil hkept)
    rw [hs]
    exact ⟨fun bin hbin => (by cases hbin), valid_empty⟩
  | cons first rest =>
    have hs := h.eq.trans (recompute_cons hkept)
    rw [hs]
    refine ⟨fun bin hbin => ?_, valid_binAt h.nonneg _⟩
    obtain ⟨i, -, rfl⟩ := List.mem_map.mp (List.mem_of_mem_drop hbin)
    exact valid_binAt h.nonneg _

theorem validatePair_pairOf {bin : Bin} (h : bin.Valid) :
    validatePair (pairOf bin) = .ok (some bin) := by
  have hsum : ¬bin.sum < 0 := not_lt.mpr h.1
  have hcount : countOf (.int bin.count) = some bin.count := by
    have hnonneg : ¬(bin.count : ℤ) < 0 := by omega
    simp [countOf, hnonneg]
  have hzero : ¬(bin.count = 0 ∧ bin.sum ≠ 0) := fun hne => hne.2 (h.2 hne.1)
  simp only [pairOf, validatePair, asFloat, if_neg hsum, hcount, if_neg hzero]

theorem validateBins_pairOf {bins : List Bin} (h : ∀ bin ∈ bins, bin.Valid) :
    validateBins (bins.map pairOf) = .ok (some bins) := by
  induction bins with
  | nil => rfl
  | cons bin bins ih =>
    rw [List.map_cons, validateBins, validatePair_pairOf (h bin List.mem_cons_self)]
    dsimp only
    rw [ih fun b hb => h b (List.mem_cons_of_mem _ hb)]
    rfl

theorem elapsed_eq (s : WindowedProgress) (hidx : s.currentIdx = binOf cfg origin t) :
    s.elapsed cfg origin t = t - (origin + s.currentIdx * cfg.binS) ∧
      0 ≤ s.elapsed cfg origin t ∧ s.elapsed cfg origin t ≤ cfg.binS := by
  have hpos := cfg.binS_pos
  have hlow : (binOf cfg origin t : ℚ) * cfg.binS ≤ t - origin := by
    rw [← le_div_iff₀ hpos]
    exact Int.floor_le _
  have hhigh : t - origin < (binOf cfg origin t + 1 : ℚ) * cfg.binS := by
    rw [← div_lt_iff₀ hpos]
    exact Int.lt_floor_add_one _
  have hraw : s.elapsed cfg origin t = t - (origin + s.currentIdx * cfg.binS) := by
    rw [elapsed, hidx, if_neg (by linarith), if_neg (by linarith)]
  refine ⟨hraw, ?_, ?_⟩
  · rw [hraw, hidx]
    linarith
  · rw [hraw, hidx]
    linarith

theorem fromDict_saved (hbins : ∀ bin ∈ s.bins, bin.Valid) (hcurrent : s.current.Valid)
    (hlength : s.bins.rtake cfg.maxBins = s.bins) (hlow : 0 ≤ s.elapsed cfg origin t)
    (hhigh : s.elapsed cfg origin t ≤ cfg.binS) :
    fromDict cfg (.obj (s.saved cfg origin t)) t =
      .ok (some ⟨some (t - s.elapsed cfg origin t), s.bins, 0, s.current⟩) := by
  have hsame : ¬(1 / 10 ^ 9 : ℚ) < |cfg.binS - cfg.binS| := by
    rw [sub_self, abs_zero]
    norm_num
  have hrange : ¬(s.elapsed cfg origin t < 0 ∨ cfg.binS < s.elapsed cfg origin t) := by
    rintro (hneg | hpast)
    · linarith
    · linarith
  have hbinS : Dict.get (s.saved cfg origin t) "bin_s" = .float (.fin cfg.binS) := rfl
  have hlist : Dict.get (s.saved cfg origin t) "bins" = .arr (s.bins.map pairOf) := rfl
  have hpair : Dict.get (s.saved cfg origin t) "current" = pairOf s.current := rfl
  have helapsed : Dict.get (s.saved cfg origin t) "elapsed_s" =
    .float (.fin (s.elapsed cfg origin t)) := rfl
  unfold fromDict
  simp only [Json.asDict, hbinS, hlist, hpair, helapsed, asFloat, validateBins_pairOf hbins,
    validatePair_pairOf hcurrent, bind, Except.bind, pure, Except.pure, if_neg hsame, if_neg hrange,
    hlength]

/-- What is read back counts its bins from the start of the one that is filling. -/
theorem fromDict_toDict (h : Tracks cfg log t (s.advance cfg t))
    (horigin : s.origin = some origin) : ∃ d s', s.toDict cfg t = (.ok d, s.advance cfg t) ∧
      fromDict cfg (.obj d) t = .ok (some s') ∧ Shifted cfg (s.advance cfg t) s' := by
  obtain ⟨hbins, hcurrent⟩ := h.valid
  have hadvanced : (s.advance cfg t).origin = some origin := by
    rw [WindowedProgress.advance, horigin]
    dsimp only
    by_cases hle : binOf cfg origin t ≤ s.currentIdx
    · rw [if_pos hle]
      exact horigin
    · rw [if_neg hle]
  obtain ⟨hidx, hlength⟩ : (s.advance cfg t).currentIdx = binOf cfg origin t ∧
      (s.advance cfg t).bins.rtake cfg.maxBins = (s.advance cfg t).bins := by
    cases hkept : kept log with
    | nil =>
      rw [h.eq, recompute_nil hkept] at hadvanced
      cases hadvanced
    | cons first rest =>
      have hs := h.eq.trans (recompute_cons hkept)
      rw [hs] at hadvanced ⊢
      cases hadvanced
      refine ⟨rfl, ?_⟩
      have htwice := rtake_rtake_append (l := completed cfg first.1 (kept log) t) (r := [])
        (n := cfg.maxBins)
      rwa [List.append_nil, List.append_nil] at htwice
  obtain ⟨hraw, hlow, hhigh⟩ := elapsed_eq (s.advance cfg t) hidx
  refine ⟨(s.advance cfg t).saved cfg origin t, ⟨some (t - (s.advance cfg t).elapsed cfg origin t),
    (s.advance cfg t).bins, 0, (s.advance cfg t).current⟩, ?_, ?_, rfl, rfl, origin, _,
      hadvanced, rfl, ?_⟩
  · rw [toDict, horigin]
  · exact fromDict_saved hbins hcurrent hlength hlow hhigh
  · rw [hraw]
    push_cast
    ring

/-- After any calls the value is the one that the samples give anew. A started estimator that is
saved and restored goes on as the one that was saved, and one that has not started is refused. -/
theorem value_recompute (cfg : Settings) (ops : List Op) (t : ℚ)
    (h : Orderly (ops ++ [.advance t])) :
    ((run cfg {} ops).value cfg t).1 = progress (recompute cfg (samples ops) t).bins ∧
    ((run cfg {} ops).started = true →
      ∃ d s', ((run cfg {} ops).toDict cfg t).1 = .ok d ∧ fromDict cfg (.obj d) t = .ok (some s') ∧
        ∀ later, outputs cfg s' later = outputs cfg ((run cfg {} ops).toDict cfg t).2 later) ∧
    ((run cfg {} ops).started = false → ((run cfg {} ops).toDict cfg t).1 =
      .error .valueError) := by
  obtain ⟨now, hnow, htracks⟩ := tracks_of_orderly cfg h
  have hadvanced := tracks_advance htracks hnow
  refine ⟨?_, fun hstarted => ?_, fun hwaiting => ?_⟩
  · rw [value, hadvanced.eq]
  · obtain ⟨origin, horigin⟩ := Option.isSome_iff_exists.mp hstarted
    obtain ⟨d, s', hsave, hload, hshift⟩ := fromDict_toDict hadvanced horigin
    refine ⟨d, s', by rw [hsave], hload, fun later => ?_⟩
    rw [hsave]
    exact hshift.outputs later
  · have hnone : (run cfg {} ops).origin = none := by simpa [started] using hwaiting
    rw [toDict, hnone]

section Sample

theorem sampleBin_pos : (0 : ℚ) < 1 := by norm_num

theorem sampleBins_two_le : 2 ≤ 2 := le_rfl

theorem sampleBins_even : 2 % 2 = 0 := rfl

def sampleSettings : Settings := ⟨1, 2, sampleBin_pos, sampleBins_two_le, sampleBins_even⟩

def sampleOps : List Op := [.add 0 1, .add 1 (1 / 2)]

theorem orderly_sample : Orderly (sampleOps ++ [.advance 2]) := by
  constructor
  · decide
  · decide +kernel

theorem value_recompute_sample :
    ((run sampleSettings {} sampleOps).value sampleSettings 2).1 = some (1 / 2) ∧
    progress (recompute sampleSettings (samples sampleOps) 2).bins = some (1 / 2) := by
  have hvalue : ((run sampleSettings {} sampleOps).value sampleSettings 2).1 = some (1 / 2) := by
    decide +kernel
  exact ⟨hvalue, by rw [← (value_recompute sampleSettings sampleOps 2 orderly_sample).1, hvalue]⟩

/-- An estimator that has seen no positive error cannot be saved. -/
theorem unstarted_not_saved :
    ¬∀ (cfg : Settings) (ops : List Op) (t : ℚ), Orderly (ops ++ [.advance t]) →
      ∃ d s', ((run cfg {} ops).toDict cfg t).1 = .ok d ∧
        fromDict cfg (.obj d) t = .ok (some s') := by
  intro h
  obtain ⟨d, _, hsave, -⟩ := h sampleSettings [] 0 ⟨List.pairwise_singleton _ _,
    fun x hx => (by cases hx)⟩
  cases hsave

end Sample

end Kaine.LearningProgress
