import Kaine.Lifecycle.WelfareSignal
import Mathlib.Data.List.Induction
import Mathlib.Tactic.Abel
import Mathlib.Tactic.Linarith

/-! Every report of the sustained threshold, against the calls before it. -/
namespace Kaine.WelfareSignal
open Py SustainedThresholdTracker

/-- A moment on the clock that stops in a freeze and on the wall clock. -/
structure Reading (T : Type) where
  unfrozen : T
  wall : T
  deriving DecidableEq

inductive Call (T : Type) where
  | observe (magnitude : PyFloat) (moment : Reading T)
  | checkTimeout (moment : Reading T)
  | reset (moment : Reading T)
  deriving DecidableEq

def Call.reading {T : Type} : Call T → Reading T
  | .observe _ moment => moment
  | .checkTimeout moment => moment
  | .reset moment => moment

section Log

variable {T : Type} {run : List (Reading T)}

/-- The episode of a run of samples. -/
def episodeOf (run : List (Reading T)) : Option (Episode T) :=
  match run.head?, run.getLast? with
  | some first, some last => some ⟨first.unfrozen, first.wall, last.unfrozen, last.wall⟩
  | _, _ => none

theorem episodeOf_concat (run : List (Reading T)) (r : Reading T) :
    episodeOf (run ++ [r]) =
      some (match episodeOf run with
        | none => ⟨r.unfrozen, r.wall, r.unfrozen, r.wall⟩
        | some e => { e with lastSample := r.unfrozen, lastSampleWall := r.wall }) := by
  cases run with
  | nil => rfl
  | cons first rest =>
    have hhead : (first :: rest ++ [r]).head? = some first := rfl
    have hend : (first :: rest ++ [r]).getLast? = some r := List.getLast?_concat
    have hlast := List.getLast?_eq_some_getLast (List.cons_ne_nil first rest)
    unfold episodeOf
    rw [hhead, hend, hlast]
    rfl

/-- A run of samples at or above the threshold, with one more call. -/
def extend (threshold : PyFloat) (run : List (Reading T)) : Call T → List (Reading T)
  | .observe magnitude moment => if threshold.le magnitude then run ++ [moment] else []
  | .checkTimeout _ => run
  | .reset _ => []

/-- The samples at or above the threshold since the last one below it, reset or report. -/
def unbroken (threshold : PyFloat) (log : List (Call T × Bool)) : List (Reading T) :=
  log.foldl (fun run x => if x.2 then [] else extend threshold run x.1) []

/-- Wall time from the first sample of a run to its last, and unfrozen time since. -/
def counted [AddCommGroup T] (run : List (Reading T)) (now : T) : Option T :=
  match run.head?, run.getLast? with
  | some first, some last => some ((last.wall - first.wall) + (now - last.unfrozen))
  | _, _ => none

theorem counted_eq [AddCommGroup T] (run : List (Reading T)) (now : T) :
    counted run now = (episodeOf run).map (elapsed · now) := by
  unfold counted episodeOf
  cases run.head? <;> cases run.getLast? <;> rfl

theorem reset_of_none [LinearOrder T] {d : SustainedThresholdTracker T} (h : d.episode = none) :
    d.reset = d := by
  cases d
  cases h
  rfl

theorem episode_eq {d : SustainedThresholdTracker T} {e : Episode T} (h : d.episode = some e) :
    { d with episode := some e } = d := by
  cases d
  cases h
  rfl

end Log

section Run

variable {T : Type} [AddCommGroup T] [LinearOrder T]

/-- Whether a call reports a crossing, and the tracker after it. -/
def call (d : SustainedThresholdTracker T) : Call T → Bool × SustainedThresholdTracker T
  | .observe magnitude moment => d.observe magnitude moment.unfrozen moment.wall
  | .checkTimeout moment => d.checkTimeout moment.unfrozen
  | .reset _ => (false, d.reset)

/-- Each call with what it reports. -/
def trace (d : SustainedThresholdTracker T) : List (Call T) → List (Call T × Bool)
  | [] => []
  | c :: rest => (c, (call d c).1) :: trace (call d c).2 rest

variable {d : SustainedThresholdTracker T} {run : List (Reading T)} {r : Reading T} {c : Call T}

/-- What a call does, from the episode of the run that it leaves. -/
theorem call_eq (h : d.episode = episodeOf run) (c : Call T) :
    call d c =
      match episodeOf (extend d.threshold run c) with
      | none => (false, d.reset)
      | some e =>
        if d.durationS ≤ elapsed e c.reading.unfrozen then (true, d.reset)
        else (false, { d with episode := some e }) := by
  cases c with
  | reset moment => rfl
  | checkTimeout moment =>
    rw [extend, ← h, call, checkTimeout]
    cases he : d.episode with
    | none =>
      dsimp only
      rw [reset_of_none he]
    | some e =>
      dsimp only
      rw [episode_eq he]
      rfl
  | observe magnitude moment =>
    rw [extend, call, observe]
    by_cases habove : d.threshold.le magnitude = true
    · rw [if_pos habove, if_pos habove, episodeOf_concat, ← h]
      cases d.episode <;> rfl
    · rw [if_neg habove, if_neg habove]
      rfl

/-- A call reports where the time counted for the run so far has reached the duration, and leaves
the run so far, or none where it reports. -/
theorem call_reports (h : d.episode = episodeOf run) (c : Call T) :
    ((call d c).1 = true ↔
      ∃ t, counted (extend d.threshold run c) c.reading.unfrozen = some t ∧ d.durationS ≤ t) ∧
    (call d c).2.episode = episodeOf (if (call d c).1 = true then []
      else extend d.threshold run c) ∧
    (call d c).2.threshold = d.threshold ∧ (call d c).2.durationS = d.durationS := by
  rw [counted_eq]
  cases he : episodeOf (extend d.threshold run c) with
  | none =>
    have hcall : call d c = (false, d.reset) := by rw [call_eq h, he]
    rw [hcall]
    refine ⟨iff_of_false Bool.false_ne_true ?_, he.symm, rfl, rfl⟩
    rintro ⟨t, ht, -⟩
    cases ht
  | some e =>
    by_cases hlong : d.durationS ≤ elapsed e c.reading.unfrozen
    · have hcall : call d c = (true, d.reset) := by
        rw [call_eq h, he]
        exact if_pos hlong
      rw [hcall]
      exact ⟨iff_of_true rfl ⟨_, rfl, hlong⟩, rfl, rfl, rfl⟩
    · have hcall : call d c = (false, { d with episode := some e }) := by
        rw [call_eq h, he]
        exact if_neg hlong
      rw [hcall]
      refine ⟨iff_of_false Bool.false_ne_true ?_, he.symm, rfl, rfl⟩
      rintro ⟨t, ht, hle⟩
      obtain rfl := Option.some.inj ht
      exact hlong hle

/-- What every call of a run reports: the induction is on the calls still to come, from any run of
samples. -/
theorem trace_reports (calls : List (Call T)) :
    ∀ {d : SustainedThresholdTracker T} (run : List (Reading T)), d.episode = episodeOf run →
      ∀ {before : List (Call T × Bool)} {c : Call T} {reported : Bool},
        before ++ [(c, reported)] <+: trace d calls →
        (reported = true ↔
          ∃ t, counted
              (extend d.threshold
                (before.foldl (fun run x => if x.2 then [] else extend d.threshold run x.1) run) c)
              c.reading.unfrozen = some t ∧
            d.durationS ≤ t) := by
  induction calls with
  | nil =>
    intro d run _ before c reported hbefore
    have hnil := List.prefix_nil.mp hbefore
    simp at hnil
  | cons first rest ih =>
    intro d run h before c reported hbefore
    obtain ⟨hreports, hepisode, hthreshold, hduration⟩ := call_reports h first
    cases before with
    | nil =>
      obtain ⟨hfirst, -⟩ := List.cons_prefix_cons.mp hbefore
      cases hfirst
      exact hreports
    | cons x later =>
      obtain ⟨rfl, hlater⟩ := List.cons_prefix_cons.mp hbefore
      have hnext := ih _ hepisode hlater
      rw [hthreshold, hduration] at hnext
      exact hnext

theorem trace_fst (calls : List (Call T)) :
    ∀ d : SustainedThresholdTracker T, (trace d calls).map Prod.fst = calls := by
  induction calls with
  | nil => exact fun _ => rfl
  | cons c rest ih => exact fun d => congrArg (c :: ·) (ih _)

/-- The moments of calls on the two clocks: neither goes back, and unfrozen time is not the
faster. -/
def Later (a b : Reading T) : Prop :=
  a.unfrozen ≤ b.unfrozen ∧ b.unfrozen - a.unfrozen ≤ b.wall - a.wall

def Consistent (calls : List (Call T)) : Prop := (calls.map Call.reading).Pairwise Later

theorem readings_pairwise {calls : List (Call T)} {log : List (Call T × Bool)}
    (hclock : Consistent calls) (hlog : log <+: trace d calls) :
    (log.map fun x => x.1.reading).Pairwise Later := by
  rw [Consistent, ← trace_fst calls d, List.map_map] at hclock
  exact hclock.sublist (hlog.sublist.map _)

end Run

section Log

variable {T : Type} {threshold : PyFloat} {log : List (Call T × Bool)} {r : Reading T}

theorem unbroken_concat (threshold : PyFloat) (log : List (Call T × Bool)) (x : Call T × Bool) :
    unbroken threshold (log ++ [x]) = if x.2 then []
      else extend threshold (unbroken threshold log) x.1 := by
  rw [unbroken, List.foldl_append]
  rfl

/-- A call that a run of samples survives. -/
def Sustains (threshold : PyFloat) (x : Call T × Bool) : Prop :=
  x.2 = false ∧
    match x.1 with
    | .observe magnitude _ => threshold.le magnitude = true
    | .checkTimeout _ => True
    | .reset _ => False

/-- A run that is not empty goes on from the last one, or starts with the call. -/
theorem unbroken_cases {x : Call T × Bool} (h : unbroken threshold (log ++ [x]) ≠ []) :
    Sustains threshold x ∧
      (unbroken threshold (log ++ [x]) = unbroken threshold log ∨
        ∃ m r, x = (.observe m r, false) ∧ unbroken threshold (log ++ [x]) =
          unbroken threshold log ++ [r]) := by
  rw [unbroken_concat] at h ⊢
  obtain ⟨c, reported⟩ := x
  cases reported with
  | true => exact absurd rfl h
  | false =>
    simp only [Bool.false_eq_true, if_false] at h ⊢
    cases c with
    | reset moment => exact absurd rfl h
    | checkTimeout moment => exact ⟨⟨rfl, trivial⟩, .inl rfl⟩
    | observe magnitude moment =>
      rw [extend] at h ⊢
      by_cases habove : threshold.le magnitude = true
      · rw [if_pos habove]
        exact ⟨⟨rfl, habove⟩, .inr ⟨magnitude, moment, rfl, rfl⟩⟩
      · rw [if_neg habove] at h
        exact absurd rfl h

/-- The first sample of a run, since which nothing broke it. -/
theorem unbroken_first :
    ∀ {first : Reading T}, (unbroken threshold log).head? = some first →
      ∃ pre m post, log = pre ++ (.observe m first, false) :: post ∧ threshold.le m = true ∧
        ∀ x ∈ post, Sustains threshold x := by
  induction log using List.reverseRecOn with
  | nil =>
    intro first h
    cases h
  | append_singleton log x ih =>
    intro first h
    have hne : unbroken threshold (log ++ [x]) ≠ [] := by
      intro hnil
      rw [hnil] at h
      cases h
    obtain ⟨hsustains, hcases⟩ := unbroken_cases hne
    have hold : ∀ {first : Reading T}, (unbroken threshold log).head? = some first →
        ∃ pre m post, log ++ [x] = pre ++ (.observe m first, false) :: post ∧
          threshold.le m = true ∧ ∀ x ∈ post, Sustains threshold x := by
      intro first hfirst
      obtain ⟨pre, m, post, heq, habove, hpost⟩ := ih hfirst
      refine ⟨pre, m, post ++ [x], by rw [heq, List.append_assoc]; rfl, habove, fun y hy => ?_⟩
      rcases List.mem_append.mp hy with hy | hy
      · exact hpost y hy
      · rw [List.mem_singleton.mp hy]
        exact hsustains
    rcases hcases with heq | ⟨m, r, rfl, heq⟩
    · rw [heq] at h
      exact hold h
    · rw [heq] at h
      cases hrun : unbroken threshold log with
      | nil =>
        rw [hrun] at h
        obtain rfl := Option.some.inj h
        exact ⟨log, m, [], rfl, hsustains.2, fun x hx => by cases hx⟩
      | cons old rest =>
        rw [hrun] at h
        obtain rfl := Option.some.inj h
        exact hold (by rw [hrun]; rfl)

/-- The samples at or above the threshold since the last one below it or reset, whatever was
reported. -/
def runAfter (threshold : PyFloat) (calls : List (Call T)) : List (Reading T) :=
    calls.foldl (extend threshold) []

theorem runAfter_concat (threshold : PyFloat) (calls : List (Call T)) (c : Call T) :
    runAfter threshold (calls ++ [c]) = extend threshold (runAfter threshold calls) c := by
  rw [runAfter, List.foldl_append]
  rfl

theorem unbroken_suffix (threshold : PyFloat) (log : List (Call T × Bool)) :
    unbroken threshold log <:+ runAfter threshold (log.map Prod.fst) := by
  induction log using List.reverseRecOn with
  | nil => exact List.suffix_refl _
  | append_singleton log x ih =>
    rw [unbroken_concat, List.map_append, List.map_singleton, runAfter_concat]
    split_ifs with hreported
    · exact List.nil_suffix
    · cases hx : x.1 with
      | reset moment => exact List.suffix_refl _
      | checkTimeout moment => exact ih
      | observe magnitude moment =>
        rw [extend, extend]
        split_ifs with habove
        · obtain ⟨older, holder⟩ := ih
          exact ⟨older, by rw [← holder, List.append_assoc]⟩
        · exact List.suffix_refl _

/-- Calls that report nothing, from where no run is under way. -/
theorem unbroken_append {pre post : List (Call T × Bool)}
    (hpre : runAfter threshold (pre.map Prod.fst) = []) (hpost : ∀ x ∈ post, x.2 = false) :
    unbroken threshold (pre ++ post) =
      runAfter threshold (post.map Prod.fst) := by
  induction post using List.reverseRecOn with
  | nil =>
    have hnil := unbroken_suffix threshold pre
    rw [hpre, List.suffix_nil] at hnil
    rw [List.append_nil, hnil]
    rfl
  | append_singleton post x ih =>
    have hfalse := hpost x (List.mem_append_right _ List.mem_cons_self)
    rw [← List.append_assoc, unbroken_concat, hfalse, List.map_append, List.map_singleton,
      runAfter_concat, ih fun y hy => hpost y (List.mem_append_left _ hy)]
    rfl

/-- The samples of a run were all observed. -/
theorem mem_unbroken : ∀ {r : Reading T}, r ∈ unbroken threshold log →
    ∃ x ∈ log, x.1.reading = r := by
  induction log using List.reverseRecOn with
  | nil =>
    intro r h
    cases h
  | append_singleton log x ih =>
    intro r h
    obtain ⟨-, hcases⟩ := unbroken_cases (List.ne_nil_of_mem h)
    have hold : r ∈ unbroken threshold log → ∃ y ∈ log ++ [x], y.1.reading = r := fun hr =>
      (ih hr).imp fun y hy => ⟨List.mem_append_left _ hy.1, hy.2⟩
    rcases hcases with heq | ⟨m, r', rfl, heq⟩
    · rw [heq] at h
      exact hold h
    · rw [heq] at h
      rcases List.mem_append.mp h with h | h
      · exact hold h
      · rw [List.mem_singleton.mp h]
        exact ⟨_, List.mem_append_right _ List.mem_cons_self, rfl⟩

end Log

section Clock

variable {T : Type} [AddCommGroup T] [LinearOrder T] [IsOrderedAddMonoid T]

variable {threshold : PyFloat} {before : List (Call T × Bool)} {c : Call T} {t : T}
  {first : Reading T}

theorem Later.wall_le {a b : Reading T} (h : Later a b) : a.wall ≤ b.wall := by
  have hnonneg : 0 ≤ b.unfrozen - a.unfrozen := sub_nonneg.mpr h.1
  exact sub_nonneg.mp (hnonneg.trans h.2)

/-- No more is counted for a run than the wall time since its first sample. -/
theorem counted_le (hclock : ((before ++ [(c, false)]).map fun x => x.1.reading).Pairwise Later)
    (hcounted : counted (unbroken threshold (before ++ [(c, false)])) c.reading.unfrozen = some t) :
    ∃ first, (unbroken threshold (before ++ [(c, false)])).head? = some first ∧ t ≤
      c.reading.wall - first.wall := by
  unfold counted at hcounted
  cases hhead : (unbroken threshold (before ++ [(c, false)])).head? with
  | none =>
    rw [hhead] at hcounted
    cases hcounted
  | some first =>
    cases hend : (unbroken threshold (before ++ [(c, false)])).getLast? with
    | none =>
      rw [hhead, hend] at hcounted
      cases hcounted
    | some last =>
      rw [hhead, hend] at hcounted
      obtain rfl := Option.some.inj hcounted
      obtain ⟨x, hx, rfl⟩ := mem_unbroken (List.mem_of_getLast? hend)
      have hsince : c.reading.unfrozen - x.1.reading.unfrozen ≤
        c.reading.wall - x.1.reading.wall := by
        rcases List.mem_append.mp hx with hx | hx
        · rw [List.map_append, List.pairwise_append] at hclock
          exact (hclock.2.2 _ (List.mem_map_of_mem hx) _ List.mem_cons_self).2
        · rw [List.mem_singleton.mp hx, sub_self, sub_self]
      refine ⟨first, rfl, ?_⟩
      calc x.1.reading.wall - first.wall + (c.reading.unfrozen - x.1.reading.unfrozen)
          ≤ x.1.reading.wall - first.wall + (c.reading.wall - x.1.reading.wall) := by gcongr
        _ = c.reading.wall - first.wall := by abel

/-- Every report of a run. -/
theorem report_long {calls : List (Call T)} {d : SustainedThresholdTracker T}
    (hd : d.episode = none) (hclock : Consistent calls)
    (hlog : before ++ [(c, true)] <+: trace d calls) :
    ∃ pre m first post, before ++ [(c, false)] = pre ++ (.observe m first, false) :: post ∧
      d.threshold.le m = true ∧ (∀ x ∈ post, Sustains d.threshold x) ∧
      d.durationS ≤ c.reading.wall - first.wall := by
  obtain ⟨t, ht, hle⟩ := (trace_reports calls [] hd hlog).mp rfl
  have hrun : unbroken d.threshold (before ++ [(c, false)]) =
      extend d.threshold (unbroken d.threshold before) c :=
    unbroken_concat _ _ _
  have hreadings : ((before ++ [(c, false)]).map fun x => x.1.reading).Pairwise Later := by
    have hsame := readings_pairwise hclock hlog
    rwa [List.map_append] at hsame ⊢
  have hcounted : counted (unbroken d.threshold (before ++ [(c, false)])) c.reading.unfrozen =
    some t := by
    rw [hrun]
    exact ht
  obtain ⟨first, hfirst, hwall⟩ := counted_le hreadings hcounted
  obtain ⟨pre, m, post, heq, habove, hpost⟩ := unbroken_first hfirst
  exact ⟨pre, m, first, post, heq, habove, hpost, hle.trans hwall⟩

/-- Two reports are a duration apart: the run of the second starts after the first. -/
theorem reports_apart {calls : List (Call T)} {d : SustainedThresholdTracker T}
    (hd : d.episode = none) (hclock : Consistent calls) {between : List (Call T × Bool)}
    {c' : Call T}
    (hlog : before ++ (c, true) :: between ++ [(c', true)] <+: trace d calls) :
    d.durationS ≤ c'.reading.wall - c.reading.wall := by
  obtain ⟨pre, m, first, post, heq, -, hpost, hle⟩ := report_long hd hclock hlog
  have hmem : (c, true) ∈ pre := by
    have hin : (c, true) ∈ pre ++ (.observe m first, false) :: post := by
      rw [← heq]
      simp
    rcases List.mem_append.mp hin with hin | hin
    · exact hin
    · rcases List.mem_cons.mp hin with hsame | hin
      · cases hsame
      · cases (hpost _ hin).1
  have hreadings : ((pre ++ (.observe m first, false) :: post).map fun x =>
    x.1.reading).Pairwise Later := by
    have hsame := readings_pairwise hclock hlog
    rw [← heq]
    rwa [List.map_append] at hsame ⊢
  rw [List.map_append, List.pairwise_append] at hreadings
  have hlater : Later c.reading first :=
    hreadings.2.2 _ (List.mem_map_of_mem hmem) _ List.mem_cons_self
  exact hle.trans (sub_le_sub_left hlater.wall_le _)

/-- For a run of calls from no episode: until something is reported of a run of samples, a call
reports just where the time counted for it reaches the duration; whatever is reported, an unbroken
run of samples started at least a duration earlier; and two reports are a duration apart. -/
theorem tracker_sound {calls : List (Call T)} {d : SustainedThresholdTracker T}
    (hd : d.episode = none) (hclock : Consistent calls) :
    (∀ pre post c reported, pre ++ post ++ [(c, reported)] <+: trace d calls →
      runAfter d.threshold (pre.map Prod.fst) = [] → (∀ x ∈ post, x.2 = false) →
      (reported = true ↔
        ∃ t, counted (runAfter d.threshold (post.map Prod.fst ++ [c])) c.reading.unfrozen = some t ∧
          d.durationS ≤ t)) ∧
    (∀ before c, before ++ [(c, true)] <+: trace d calls →
      ∃ pre m first post, before ++ [(c, false)] = pre ++ (.observe m first, false) :: post ∧
        d.threshold.le m = true ∧ (∀ x ∈ post, Sustains d.threshold x) ∧
        d.durationS ≤ c.reading.wall - first.wall) ∧
    (∀ before c between c', before ++ (c, true) :: between ++ [(c', true)] <+: trace d calls →
      d.durationS ≤ c'.reading.wall - c.reading.wall) := by
  refine ⟨fun pre post c reported hlog hpre hpost => ?_, fun _ _ hlog => report_long hd hclock hlog,
    fun _ _ _ _ hlog => reports_apart hd hclock hlog⟩
  rw [runAfter_concat, ← unbroken_append hpre hpost]
  exact trace_reports calls [] hd hlog

end Clock

/-- Half, for 30 seconds. -/
def halfTracker : SustainedThresholdTracker ℚ := { threshold := .fin (1 / 2), durationS := 30 }

/-- A sample, 90 seconds in which the process is frozen, and a sample ten unfrozen seconds after the
first. -/
def thawed : List (Call ℚ) := [.observe (.fin 1) ⟨0, 0⟩, .observe (.fin 1) ⟨10, 100⟩]

theorem thawed_consistent : Consistent thawed := by
  norm_num [Consistent, thawed, Call.reading, Later]

theorem thawed_trace :
    trace halfTracker thawed = [(.observe (.fin 1) ⟨0, 0⟩, false),
      (.observe (.fin 1) ⟨10, 100⟩, true)] := by
  decide +kernel

theorem tracker_sound_thawed :
    ∃ t, counted (runAfter halfTracker.threshold thawed) 10 = some t ∧ halfTracker.durationS ≤ t :=
  ((tracker_sound (d := halfTracker) rfl thawed_consistent).1 [] [(.observe (.fin 1) ⟨0, 0⟩, false)]
    (.observe (.fin 1) ⟨10, 100⟩) true (by rw [thawed_trace]; exact List.prefix_refl _) rfl
      (by simp)).mp rfl

/-- Frozen time between two samples counts. -/
theorem frozen_gap_counts :
    ¬∀ (d : SustainedThresholdTracker ℚ) (a b : Reading ℚ) (m m' : PyFloat), d.episode = none →
      Consistent [.observe m a, .observe m' b] →
      trace d [.observe m a, .observe m' b] = [(.observe m a, false), (.observe m' b, true)] →
      d.durationS ≤ b.unfrozen - a.unfrozen := by
  intro hall
  have hle := hall halfTracker ⟨0, 0⟩ ⟨10, 100⟩ (.fin 1) (.fin 1) rfl thawed_consistent thawed_trace
  norm_num [halfTracker] at hle

end Kaine.WelfareSignal
