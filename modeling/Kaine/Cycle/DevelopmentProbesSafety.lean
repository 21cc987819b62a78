import Kaine.Cycle.DevelopmentProbes

/-! The probes stay bounded: when one starts, when it is over, and how the two kinds take turns. -/
namespace Kaine.Development
open Py

section Config

variable {data : Dict} {c : DevelopmentReadoutConfig} {name : String} {v default : Setting} {fv : ℚ}

/-- What the probes need of their settings. -/
structure DevelopmentReadoutConfig.Valid (c : DevelopmentReadoutConfig) : Prop where
  readoutPeriod : 0 < c.readoutPeriodSeconds
  withdrawalPeriod : 0 < c.withdrawalPeriodSeconds
  perturbationPeriod : 0 < c.perturbationPeriodSeconds
  jitter_nonneg : 0 ≤ c.probeJitterFraction
  jitter_le : c.probeJitterFraction ≤ 1 / 2

theorem checkNumber_eq_ok (h : checkNumber name fv = .ok v) : v = .number fv ∧
    (name = "probe_jitter_fraction" → 0 ≤ fv ∧ fv ≤ 1 / 2) ∧
    (name ≠ "probe_jitter_fraction" → name ≠ "viability_r1_slope_per_hour" →
      name ≠ "viability_min_points" → 0 < fv) := by
  unfold checkNumber at h
  by_cases h1 : name = "probe_jitter_fraction"
  · rw [if_pos h1] at h
    split_ifs at h with hrange
    cases h
    rw [not_or, not_lt, not_lt] at hrange
    exact ⟨rfl, fun _ => hrange, fun hne => absurd h1 hne⟩
  · rw [if_neg h1] at h
    by_cases h2 : name = "viability_r1_slope_per_hour"
    · rw [if_pos h2] at h
      split_ifs at h
      cases h
      exact ⟨rfl, fun heq => absurd heq h1, fun _ hne => absurd h2 hne⟩
    · rw [if_neg h2] at h
      by_cases h3 : name = "viability_min_points"
      · rw [if_pos h3] at h
        split_ifs at h
        cases h
        exact ⟨rfl, fun heq => absurd heq h1, fun _ _ hne => absurd h3 hne⟩
      · rw [if_neg h3] at h
        split_ifs at h with hpos
        all_goals
          cases h
          exact ⟨rfl, fun heq => absurd heq h1, fun _ _ _ => not_le.mp hpos⟩

/-- A field's number is its default or one that was checked. -/
theorem readField_eq_ok (hname : name ≠ "viability_watch")
    (h : readField data name default = .ok v) :
    v = default ∨ ∃ fv, checkNumber name fv = .ok v := by
  unfold readField at h
  cases hlookup : data.lookup name with
  | none =>
    rw [hlookup] at h
    cases h
    exact .inl rfl
  | some value =>
    rw [hlookup] at h
    dsimp only at h
    rw [if_neg hname] at h
    cases value with
    | int n =>
      dsimp only at h
      cases hn : PyFloat.ofInt n with
      | error e =>
        rw [hn] at h
        cases h
      | ok x =>
        rw [hn] at h
        cases x with
        | fin fv => exact .inr ⟨fv, h⟩
        | _ => cases h
    | float x =>
      cases x with
      | fin fv => exact .inr ⟨fv, h⟩
      | _ => cases h
    | _ => cases h

theorem checkTogether_eq_ok {c' : DevelopmentReadoutConfig}
    (h : c.checkTogether = .ok c') : c' = c := by
  unfold DevelopmentReadoutConfig.checkTogether at h
  dsimp only at h
  split_ifs at h
  cases h
  rfl

/-- The settings of an accepted table are those of its fields. -/
theorem fromTable_eq_ok (h : DevelopmentReadoutConfig.fromTable data = .ok c)
    (hdefault : fields.lookup name = some default) :
    ∃ v, readField data name default = .ok v ∧ c.kwargs.lookup name = some v := by
  unfold DevelopmentReadoutConfig.fromTable at h
  dsimp only at h
  split_ifs at h
  obtain ⟨kwargs, hkwargs, htogether⟩ := bind_eq_ok.mp h
  rw [checkTogether_eq_ok htogether]
  exact Assoc.lookup_mapM hkwargs hdefault

theorem number_pos (h : DevelopmentReadoutConfig.fromTable data = .ok c) {d : ℚ}
    (hdefault : fields.lookup name = some (.number d)) (hd : 0 < d)
    (h1 : name ≠ "probe_jitter_fraction")
    (h2 : name ≠ "viability_r1_slope_per_hour") (h3 : name ≠ "viability_min_points")
    (h4 : name ≠ "viability_watch") : 0 < c.number name := by
  obtain ⟨v, hread, hlookup⟩ := fromTable_eq_ok h hdefault
  unfold DevelopmentReadoutConfig.number
  rw [hlookup]
  rcases readField_eq_ok h4 hread with rfl | ⟨fv, hcheck⟩
  · exact hd
  · obtain ⟨rfl, -, hpos⟩ := checkNumber_eq_ok hcheck
    exact hpos h1 h2 h3

theorem fromDict_valid {json : Json} (h : DevelopmentReadoutConfig.fromDict json = .ok c) :
    c.Valid := by
  obtain ⟨data, hdata⟩ : ∃ data, DevelopmentReadoutConfig.fromTable data = .ok c := by
    cases json with
    | null => exact ⟨[], h⟩
    | obj data => exact ⟨data, h⟩
    | _ => cases h
  have hjitter : 0 ≤ c.probeJitterFraction ∧ c.probeJitterFraction ≤ 1 / 2 := by
    obtain ⟨v, hread, hlookup⟩ := fromTable_eq_ok hdata
      (show fields.lookup "probe_jitter_fraction" = some (.number (1 / 4)) by decide +kernel)
    unfold DevelopmentReadoutConfig.probeJitterFraction DevelopmentReadoutConfig.number
    rw [hlookup]
    rcases readField_eq_ok (by decide) hread with rfl | ⟨fv, hcheck⟩
    · norm_num
    · obtain ⟨rfl, hrange, -⟩ := checkNumber_eq_ok hcheck
      exact hrange rfl
  refine ⟨?_, ?_, ?_, hjitter.1, hjitter.2⟩
  · exact number_pos hdata (show fields.lookup "readout_period_seconds" =
      some (.number 60) by decide) (by norm_num) (by decide) (by decide) (by decide) (by decide)
  · exact number_pos hdata (show fields.lookup "withdrawal_period_seconds" =
      some (.number 1800) by decide) (by norm_num) (by decide) (by decide) (by decide) (by decide)
  · exact number_pos hdata (show fields.lookup "perturbation_period_seconds" =
      some (.number 3600) by decide) (by norm_num) (by decide) (by decide) (by decide) (by decide)

end Config

section Step

variable {c : DevelopmentReadoutConfig} {jitter : Jitter} {o : Owner} {s : Step} {kind : Kind}

/-- The owner that has started a probe with a draw. -/
def Owner.begun (c : DevelopmentReadoutConfig) (o : Owner) (s : Step) (kind : Kind)
    (u : ℚ) : Owner :=
  { o with
    scale := probeScale c kind
    nextAt := Function.update o.nextAt kind
      (s.now + period c kind * (1 + c.probeJitterFraction * (2 * u - 1)))
    probe := some ⟨kind, s.now, s.now + probeSeconds c kind⟩
    counter := Function.update o.counter kind (o.counter kind + 1) }

/-- The owner that has ended its probe. -/
def Owner.stopped (c : DevelopmentReadoutConfig) (o : Owner) (s : Step) : Owner :=
  { o with scale := c.baselineDriveFraction, lastProbeEnd := some s.now, probe := none }

/-- What a step of the probes does: nothing, an end, or a start that everything allows. -/
inductive Handled (c : DevelopmentReadoutConfig) (jitter : Jitter) (o : Owner) (s : Step) :
    Owner × Option ProbeEvent → Prop
  | rests (h : ∀ p, o.probe = some p → s.now < p.end_) : Handled c jitter o s (o, none)
  | ends (p : Probe) (seconds : ℚ) (aborted : Option Bool) (hp : o.probe = some p) :
      Handled c jitter o s (o.stopped c s, some ⟨p.kind, .end_, seconds, aborted, s.publishes⟩)
  | starts (kind : Kind) (hidle : o.probe = none) (hsettled : o.settleUntil ≤ s.now)
      (hspaced : ∀ last ∈ o.lastProbeEnd, last + max 60 c.withdrawalSeconds ≤ s.now)
      (hdue : o.due c s.now kind = true)
      (hfirst : o.due c s.now kind.other = true → o.nextAt kind ≤ o.nextAt kind.other) :
      Handled c jitter o s (o.begun c s kind (jitter.unit kind (o.counter kind)),
        some ⟨kind, .start, probeSeconds c kind, none, s.publishes⟩)

theorem choose_eq_some (h : o.choose c s.now = some kind) : o.due c s.now kind = true ∧
    (o.due c s.now kind.other = true → o.nextAt kind ≤ o.nextAt kind.other) := by
  unfold Owner.choose at h
  by_cases hw : o.due c s.now .withdrawal = true
  · rw [if_pos hw] at h
    split_ifs at h with hp
    · cases h
      rw [Bool.and_eq_true, decide_eq_true_eq] at hp
      exact ⟨hp.1, fun _ => hp.2⟩
    · cases h
      refine ⟨hw, fun hdue => ?_⟩
      rw [Bool.and_eq_true, decide_eq_true_eq, not_and] at hp
      exact (not_le.mp (hp hdue)).le
  · rw [if_neg hw] at h
    split_ifs at h with hp
    cases h
    exact ⟨hp, fun hdue => absurd hdue hw⟩

theorem handled_handleProbes (hcounter : ∀ kind, o.counter kind < counterLimit) :
    Handled c jitter o s (o.handleProbes c jitter s) := by
  unfold Owner.handleProbes
  cases hprobe : o.probe with
  | some p =>
    dsimp only
    by_cases hend : (if p.end_ = 0 then s.now else p.end_) ≤ s.now
    · rw [if_pos hend]
      exact .ends p _ _ hprobe
    · rw [if_neg hend]
      refine .rests fun q hq => ?_
      rw [hprobe, Option.some.injEq] at hq
      subst hq
      split_ifs at hend with hzero
      · exact absurd le_rfl hend
      · exact not_le.mp hend
  | none =>
    have hrests : Handled c jitter o s (o, none) := .rests fun p hp => by
      rw [hprobe] at hp
      cases hp
    dsimp only
    by_cases hsettle : s.now < o.settleUntil
    · rw [if_pos hsettle]
      exact hrests
    · rw [if_neg hsettle]
      by_cases hspace :
          (o.lastProbeEnd.any fun last => s.now < last + max 60 c.withdrawalSeconds) = true
      · rw [if_pos hspace]
        exact hrests
      · rw [if_neg hspace]
        cases hchoose : o.choose c s.now with
        | none => exact hrests
        | some kind =>
          obtain ⟨hdue, hfirst⟩ := choose_eq_some hchoose
          have hspaced : ∀ last ∈ o.lastProbeEnd, last + max 60 c.withdrawalSeconds ≤ s.now := by
            intro last hlast
            rw [Option.mem_def.mp hlast, Option.any_some, decide_eq_true_eq] at hspace
            exact not_lt.mp hspace
          have hstart : o.startProbe c jitter s kind =
              (o.begun c s kind (jitter.unit kind (o.counter kind)),
                some ⟨kind, .start, probeSeconds c kind, none, s.publishes⟩) := by
            unfold Owner.startProbe Owner.jitterUnit
            dsimp only
            rw [if_pos (hcounter kind)]
            rfl
          dsimp only
          rw [hstart]
          exact .starts kind hprobe (not_lt.mp hsettle) hspaced hdue hfirst

/-- The owner as an unpaused step finds it: behind a pause it settles anew. -/
def Owner.awake (c : DevelopmentReadoutConfig) (o : Owner) (s : Step) : Owner :=
  if o.pausedLastStep then
    { o with settleUntil := s.now + c.readoutPeriodSeconds, awakeSince := s.now }
  else o

@[simp] theorem Owner.awake_probe : (o.awake c s).probe = o.probe := by
  unfold Owner.awake
  split_ifs <;> rfl

@[simp] theorem Owner.awake_scale : (o.awake c s).scale = o.scale := by
  unfold Owner.awake
  split_ifs <;> rfl

@[simp] theorem Owner.awake_counter : (o.awake c s).counter = o.counter := by
  unfold Owner.awake
  split_ifs <;> rfl

@[simp] theorem Owner.awake_lastProbeEnd : (o.awake c s).lastProbeEnd = o.lastProbeEnd := by
  unfold Owner.awake
  split_ifs <;> rfl

/-- What a step does. -/
inductive Stepped (c : DevelopmentReadoutConfig) (jitter : Jitter) (o : Owner) (s : Step) :
    Owner × Option ProbeEvent → Prop
  | paused (hpaused : s.paused = true) (hidle : o.probe = none) :
      Stepped c jitter o s ({ o with pausedLastStep := true }, none)
  | aborted (hpaused : s.paused = true) (p : Probe) (hp : o.probe = some p) :
      Stepped c jitter o s ({ o.stopped c s with pausedLastStep := true },
        some ⟨p.kind, .end_, s.now - p.start, some true, s.publishes⟩)
  | awake (hpaused : s.paused = false) {next : Owner × Option ProbeEvent}
      (h : Handled c jitter (o.awake c s) s next) :
      Stepped c jitter o s ({ next.1 with pausedLastStep := false }, next.2)

theorem stepped_step (hcounter : ∀ kind, o.counter kind < counterLimit) :
    Stepped c jitter o s (o.step c jitter s) := by
  unfold Owner.step
  cases hpaused : s.paused with
  | true =>
    rw [if_pos rfl]
    cases hprobe : o.probe with
    | none => exact .paused hpaused hprobe
    | some p => exact .aborted hpaused p hprobe
  | false =>
    rw [if_neg (by simp)]
    have hsame : ∀ kind, (o.awake c s).counter kind = o.counter kind :=
      fun kind => congrFun Owner.awake_counter kind
    have hhandled : Handled c jitter (o.awake c s) s ((o.awake c s).handleProbes c jitter s) :=
      handled_handleProbes fun kind => hsame kind ▸ hcounter kind
    exact .awake hpaused hhandled

end Step

section Starts

variable {c : DevelopmentReadoutConfig} {jitter : Jitter} {o : Owner} {s : Step}
  {past : List Entry} {t0 : ℚ} {next : Owner × Option ProbeEvent}

/-- Whether the last step of a run was paused. -/
def lastPaused (paused : Bool) (past : List Entry) : Bool :=
  (past.getLast?.map fun e => e.step.paused).getD paused

theorem resumes_snoc (paused : Bool) (past : List Entry) (e : Entry) :
    resumes paused (past ++ [e]) = resumes paused past ++ if lastPaused paused past &&
      !e.step.paused then [e.step.now] else [] := by
  induction past generalizing paused with
  | nil => simp [resumes, lastPaused]
  | cons first past ih =>
    have hlast : lastPaused paused (first :: past) = lastPaused first.step.paused past := by
      unfold lastPaused
      cases past with
      | nil => rfl
      | cons second past =>
        rw [List.getLast?_cons_cons,
          List.getLast?_eq_getLast_of_ne_nil (List.cons_ne_nil second past)]
        rfl
    rw [List.cons_append, resumes, resumes, ih, hlast, List.append_assoc]

theorem mem_resumes {paused : Bool} {t : ℚ} (h : t ∈ resumes paused past) :
    ∃ e ∈ past, e.step.now = t := by
  induction past generalizing paused with
  | nil => cases h
  | cons first past ih =>
    rw [resumes] at h
    rcases List.mem_append.mp h with h | h
    · split_ifs at h
      · exact ⟨first, List.mem_cons_self, (List.mem_singleton.mp h).symm⟩
      · cases h
    · obtain ⟨e, he, ht⟩ := ih h
      exact ⟨e, List.mem_cons_of_mem _ he, ht⟩

/-- What the owner knows of the steps before: the boot and every resume have been settled for, and
every end is remembered. -/
structure Inv (c : DevelopmentReadoutConfig) (t0 : ℚ) (past : List Entry) (o : Owner) : Prop where
  scale : o.probe = none → o.scale = c.baselineDriveFraction
  settled : ∀ t ∈ t0 :: resumes false past, t + c.readoutPeriodSeconds ≤ o.settleUntil
  awake : ∀ t ∈ t0 :: resumes false past, t ≤ o.awakeSince
  paused : o.pausedLastStep = lastPaused false past
  ended : ∀ e ∈ past, e.ended.isSome = true → ∃ last ∈ o.lastProbeEnd, e.step.now ≤ last

/-- What allows a start: an unpaused step, long enough after the boot, the resumes and the ends
before it. -/
structure Allowed (c : DevelopmentReadoutConfig) (t0 : ℚ) (past : List Entry) (e : Entry)
    (kind : Kind) : Prop where
  unpaused : e.step.paused = false
  settled : ∀ t ∈ t0 :: resumes false (past ++ [e]), t + c.readoutPeriodSeconds ≤ e.step.now
  spaced : ∀ x ∈ past, x.ended.isSome = true → x.step.now + max 60 c.withdrawalSeconds ≤ e.step.now
  window : kind = .withdrawal →
    ∀ t ∈ t0 :: resumes false (past ++ [e]), t + c.entrainmentWindowSeconds ≤ e.step.now

theorem inv_boot {counters : Kind → ℕ} (h : Owner.boot c jitter t0 counters = some o) :
    Inv c t0 [] o := by
  unfold Owner.boot Owner.jitterUnit at h
  dsimp only at h
  split at h
  · cases h
    refine ⟨fun _ => rfl, ?_, ?_, rfl, fun _ he => absurd he List.not_mem_nil⟩
    · intro t ht
      rw [List.mem_singleton.mp ht]
    · intro t ht
      rw [List.mem_singleton.mp ht]
  · cases h

/-- A resume settles anew, so the boot and every resume are settled for. -/
theorem Inv.awaken (h : Inv c t0 past o) (hclock : ∀ e ∈ past, e.step.now ≤ s.now)
    (ht0 : t0 ≤ s.now) (hpaused : s.paused = false) {e : Entry} (he : e.step = s) :
    (∀ t ∈ t0 :: resumes false (past ++ [e]),
      t + c.readoutPeriodSeconds ≤ (o.awake c s).settleUntil) ∧
        ∀ t ∈ t0 :: resumes false (past ++ [e]), t ≤ (o.awake c s).awakeSince := by
  rw [resumes_snoc, he, hpaused, Bool.not_false, Bool.and_true, ← h.paused]
  unfold Owner.awake
  by_cases hresumed : o.pausedLastStep = true
  · rw [if_pos hresumed, if_pos hresumed]
    have hbefore : ∀ t ∈ t0 :: (resumes false past ++ [s.now]), t ≤ s.now := by
      intro t ht
      rcases List.mem_cons.mp ht with rfl | ht
      · exact ht0
      · rcases List.mem_append.mp ht with ht | ht
        · obtain ⟨x, hx, rfl⟩ := mem_resumes ht
          exact hclock x hx
        · rw [List.mem_singleton.mp ht]
    exact ⟨fun t ht => by linarith [hbefore t ht], hbefore⟩
  · rw [if_neg hresumed, if_neg hresumed, List.append_nil]
    exact ⟨h.settled, h.awake⟩

theorem resumes_snoc_paused {e : Entry} (he : e.step.paused = true) :
    resumes false (past ++ [e]) = resumes false past := by
  rw [resumes_snoc, he, Bool.not_true, Bool.and_false]
  exact List.append_nil _

theorem lastPaused_snoc (past : List Entry) (e : Entry) :
    lastPaused false (past ++ [e]) = e.step.paused := by
  unfold lastPaused
  rw [List.getLast?_concat]
  rfl

/-- An end that is now is remembered, and so are those before it. -/
theorem ended_snoc (hclock : ∀ e ∈ past, e.step.now ≤ s.now) {e : Entry} (he : e.step = s) :
    ∀ x ∈ past ++ [e], x.ended.isSome = true → ∃ last ∈ some s.now, x.step.now ≤ last := by
  intro x hx _
  refine ⟨s.now, rfl, ?_⟩
  rcases List.mem_append.mp hx with hx | hx
  · exact hclock x hx
  · rw [List.mem_singleton.mp hx, he]

theorem Inv.ended_kept (h : Inv c t0 past o) {e : Entry} (he : e.ended = none) :
    ∀ x ∈ past ++ [e], x.ended.isSome = true → ∃ last ∈ o.lastProbeEnd, x.step.now ≤ last := by
  intro x hx hended
  rcases List.mem_append.mp hx with hx | hx
  · exact h.ended x hx hended
  · rw [List.mem_singleton.mp hx, he] at hended
    cases hended

/-- One step: a start is allowed, and the owner knows of the step. -/
theorem inv_step (h : Inv c t0 past o) (hclock : ∀ e ∈ past, e.step.now ≤ s.now) (ht0 : t0 ≤ s.now)
    (hs : Stepped c jitter o s next) :
    (∀ kind, Entry.started ⟨s, o, next.1, next.2⟩ = some kind →
      Allowed c t0 past ⟨s, o, next.1, next.2⟩ kind) ∧
        Inv c t0 (past ++ [⟨s, o, next.1, next.2⟩]) next.1 := by
  cases hs with
  | paused hpaused hidle =>
    refine ⟨fun kind hk => (by cases hk), h.scale, ?_, ?_, ?_, h.ended_kept rfl⟩
    · rw [resumes_snoc_paused hpaused]
      exact h.settled
    · rw [resumes_snoc_paused hpaused]
      exact h.awake
    · rw [lastPaused_snoc]
      exact hpaused.symm
  | aborted hpaused p hp =>
    refine ⟨fun kind hk => (by cases hk), fun _ => rfl, ?_, ?_, ?_, ended_snoc hclock rfl⟩
    · rw [resumes_snoc_paused hpaused]
      exact h.settled
    · rw [resumes_snoc_paused hpaused]
      exact h.awake
    · rw [lastPaused_snoc]
      exact hpaused.symm
  | awake hpaused hhandled =>
    rename_i handled
    obtain ⟨hsettled, hawake⟩ := h.awaken hclock ht0 hpaused
      (e := ⟨s, o, { handled.1 with pausedLastStep := false }, handled.2⟩) rfl
    have hlast : (o.awake c s).lastProbeEnd = o.lastProbeEnd := Owner.awake_lastProbeEnd
    have hscale : (o.awake c s).scale = o.scale ∧ (o.awake c s).probe = o.probe :=
      ⟨Owner.awake_scale, Owner.awake_probe⟩
    have hpause : ∀ e : Entry, e.step = s → false = lastPaused false (past ++ [e]) := by
      intro e he
      rw [lastPaused_snoc, he]
      exact hpaused.symm
    cases hhandled with
    | rests hrests =>
      refine ⟨fun kind hk => (by cases hk), ?_, hsettled, hawake, hpause _ rfl, ?_⟩
      · show (o.awake c s).probe = none → (o.awake c s).scale = _
        rw [hscale.1, hscale.2]
        exact h.scale
      · show ∀ x ∈ _, _ → ∃ last ∈ (o.awake c s).lastProbeEnd, _
        rw [hlast]
        exact h.ended_kept rfl
    | ends p seconds aborted hp =>
      exact ⟨fun kind hk => (by cases hk), fun _ => rfl, hsettled, hawake, hpause _ rfl,
        ended_snoc hclock rfl⟩
    | starts kind hidle hsettle hspaced hdue hfirst =>
      refine ⟨?_, fun hnone => (by cases hnone), hsettled, hawake, hpause _ rfl, ?_⟩
      · intro kind' hk
        cases hk
        refine ⟨hpaused, fun t ht => (hsettled t ht).trans hsettle, ?_, ?_⟩
        · intro x hx hended
          obtain ⟨last, hlast', hle⟩ := h.ended x hx hended
          have hlater := hspaced last (hlast ▸ hlast')
          have hstep : x.step.now + max 60 c.withdrawalSeconds ≤
            last + max 60 c.withdrawalSeconds := by linarith
          exact hstep.trans hlater
        · rintro rfl t ht
          unfold Owner.due at hdue
          have hwindow := (of_decide_eq_true hdue).2
          have hstep := hawake t ht
          show _ ≤ s.now
          linarith
      · show ∀ x ∈ _, _ → ∃ last ∈ (o.awake c s).lastProbeEnd, _
        rw [hlast]
        exact h.ended_kept rfl

end Starts

section Linked

variable {c : DevelopmentReadoutConfig} {jitter : Jitter} {o : Owner} {s : Step} {e e' : Entry}
  {past mid rest : List Entry} {kind : Kind} {p : Probe} {next : Owner × Option ProbeEvent}

/-- Entries that follow one another from an owner. -/
def Linked (c : DevelopmentReadoutConfig) (jitter : Jitter) : Owner → List Entry → Prop
  | _, [] => True
  | o, e :: entries =>
    e.before = o ∧ Stepped c jitter o e.step (e.after, e.event) ∧ Linked c jitter e.after entries

/-- A step draws at most once for a kind. -/
theorem Stepped.counter_le (h : Stepped c jitter o s next) (kind : Kind) :
    next.1.counter kind ≤ o.counter kind + 1 := by
  cases h with
  | paused hpaused hidle => exact Nat.le_succ _
  | aborted hpaused p hp => exact Nat.le_succ _
  | awake hpaused hhandled =>
    rename_i handled
    have hsame : (o.awake c s).counter kind = o.counter kind := congrFun Owner.awake_counter kind
    rw [← hsame]
    cases hhandled with
    | rests hrests => exact Nat.le_succ _
    | ends p seconds aborted hp => exact Nat.le_succ _
    | starts started hidle hsettle hspaced hdue hfirst =>
      show Function.update (o.awake c s).counter started
        ((o.awake c s).counter started + 1) kind ≤ _
      by_cases hkind : kind = started
      · rw [hkind, Function.update_self]
      · rw [Function.update_of_ne hkind]
        exact Nat.le_succ _

/-- A run whose draws do not run out is linked. -/
theorem linked_trace (steps : List Step)
    (henough : ∀ kind, o.counter kind + steps.length ≤ counterLimit) :
    Linked c jitter o (trace c jitter o steps) := by
  induction steps generalizing o with
  | nil => trivial
  | cons s steps ih =>
    have hcounter : ∀ kind, o.counter kind < counterLimit := by
      intro kind
      have h := henough kind
      rw [List.length_cons] at h
      omega
    have hstep : Stepped c jitter o s (o.step c jitter s) := stepped_step hcounter
    refine ⟨rfl, hstep, ih fun kind => ?_⟩
    have h := henough kind
    have hle := hstep.counter_le kind
    rw [List.length_cons] at h
    dsimp only
    omega

theorem Linked.split (h : Linked c jitter o (past ++ e :: rest)) :
    Stepped c jitter e.before e.step (e.after, e.event) ∧ Linked c jitter e.after rest := by
  induction past generalizing o with
  | nil =>
    obtain ⟨rfl, hstep, hrest⟩ := h
    exact ⟨hstep, hrest⟩
  | cons first past ih => exact ih h.2.2

/-- Along a run every start is allowed, and no idle owner's drive is off its baseline. -/
theorem Linked.allowed {t0 : ℚ} (h : Linked c jitter o rest) (hinv : Inv c t0 past o)
    (hclock : ((past ++ rest).map fun x => x.step.now).Pairwise (· ≤ ·))
    (ht0 : ∀ x ∈ rest, t0 ≤ x.step.now) {front back : List Entry}
    (hsplit : rest = front ++ e :: back) :
    (∀ kind, e.started = some kind → Allowed c t0 (past ++ front) e kind) ∧
      Inv c t0 (past ++ front ++ [e]) e.after := by
  induction front generalizing past o rest with
  | nil =>
    subst hsplit
    obtain ⟨rfl, hstep, -⟩ := h
    have hbefore : ∀ x ∈ past, x.step.now ≤ e.step.now := by
      intro x hx
      rw [List.nil_append, List.map_append] at hclock
      exact (List.pairwise_append.mp hclock).2.2 _ (List.mem_map.mpr ⟨x, hx, rfl⟩) _
        List.mem_cons_self
    rw [List.append_nil]
    exact inv_step hinv hbefore (ht0 e List.mem_cons_self) hstep
  | cons first front ih =>
    subst hsplit
    obtain ⟨rfl, hstep, hrest⟩ := h
    have hbefore : ∀ x ∈ past, x.step.now ≤ first.step.now := by
      intro x hx
      rw [List.map_append] at hclock
      exact (List.pairwise_append.mp hclock).2.2 _ (List.mem_map.mpr ⟨x, hx, rfl⟩) _
        List.mem_cons_self
    have hnext := (inv_step hinv hbefore (ht0 first List.mem_cons_self) hstep).2
    have hmove : past ++ first :: front = past ++ [first] ++ front := by rw [List.append_assoc]; rfl
    rw [hmove]
    refine ih hrest hnext ?_ (fun x hx => ht0 x (List.mem_cons_of_mem _ hx)) rfl
    rw [List.append_assoc]
    exact hclock

/-- A step under a probe ends it, or finds it before its end, unpaused. -/
theorem Stepped.probing (h : Stepped c jitter o s next) (hp : o.probe = some p) (e : Entry)
    (he : e.event = next.2) : (e.ended = some p.kind ∧ e.started = none ∧ next.1.probe = none) ∨
      (e.ended = none ∧ e.started = none ∧ next.1.probe = some p ∧ s.now < p.end_ ∧
        s.paused = false) := by
  have hsame : (o.awake c s).probe = o.probe := Owner.awake_probe
  unfold Entry.ended Entry.started
  rw [he]
  cases h with
  | paused hpaused hidle =>
    rw [hidle] at hp
    cases hp
  | aborted hpaused q hq =>
    rw [hq, Option.some.injEq] at hp
    subst hp
    exact .inl ⟨rfl, rfl, rfl⟩
  | awake hpaused hhandled =>
    cases hhandled with
    | rests hrests => exact .inr ⟨rfl, rfl, hsame.trans hp, hrests p (hsame.trans hp), hpaused⟩
    | ends q seconds aborted hq =>
      rw [hsame, hp, Option.some.injEq] at hq
      subst hq
      exact .inl ⟨rfl, rfl, rfl⟩
    | starts started hidle hsettle hspaced hdue hfirst =>
      rw [hsame, hp] at hidle
      cases hidle

/-- A step without a probe ends none, and it stays idle or starts one. -/
theorem Stepped.idle (h : Stepped c jitter o s next) (hp : o.probe = none) (e : Entry)
    (he : e.event = next.2) : e.ended = none ∧ ((e.started = none ∧ next.1.probe = none) ∨
      ∃ kind, e.started = some kind ∧ next.1.probe = some ⟨kind, s.now,
        s.now + probeSeconds c kind⟩) := by
  have hsame : (o.awake c s).probe = o.probe := Owner.awake_probe
  unfold Entry.ended Entry.started
  rw [he]
  cases h with
  | paused hpaused hidle => exact ⟨rfl, .inl ⟨rfl, hidle⟩⟩
  | aborted hpaused q hq =>
    rw [hp] at hq
    cases hq
  | awake hpaused hhandled =>
    cases hhandled with
    | rests hrests => exact ⟨rfl, .inl ⟨rfl, hsame.trans hp⟩⟩
    | ends q seconds aborted hq =>
      rw [hsame, hp] at hq
      cases hq
    | starts started hidle hsettle hspaced hdue hfirst => exact ⟨rfl, .inr ⟨started, rfl, rfl⟩⟩

/-- A start finds the owner idle and leaves it with the probe. -/
theorem Stepped.probe_of_started (h : Stepped c jitter o s next) (e : Entry) (he : e.event = next.2)
    (hstarted : e.started = some kind) :
    o.probe = none ∧ next.1.probe = some ⟨kind, s.now, s.now + probeSeconds c kind⟩ := by
  cases hp : o.probe with
  | some p =>
    rcases h.probing hp e he with ⟨-, hnone, -⟩ | ⟨-, hnone, -⟩
    · rw [hnone] at hstarted
      cases hstarted
    · rw [hnone] at hstarted
      cases hstarted
  | none =>
    rcases (h.idle hp e he).2 with ⟨hnone, -⟩ | ⟨started, hsome, hprobe⟩
    · rw [hnone] at hstarted
      cases hstarted
    · rw [hsome, Option.some.injEq] at hstarted
      subst hstarted
      exact ⟨rfl, hprobe⟩

/-- A probe is over by its planned end and by a pause. -/
theorem Linked.is_over (h : Linked c jitter o (mid ++ e' :: rest)) (hp : o.probe = some p)
    (hover : p.end_ ≤ e'.step.now ∨ e'.step.paused = true) :
    ∃ x ∈ mid ++ [e'], x.ended = some p.kind := by
  induction mid generalizing o with
  | nil =>
    obtain ⟨rfl, hstep, -⟩ := h
    rcases hstep.probing hp e' rfl with ⟨hended, -⟩ | ⟨-, -, -, hlt, hpaused⟩
    · exact ⟨e', List.mem_singleton_self _, hended⟩
    · rcases hover with hover | hover
      · exact absurd hlt (not_lt.mpr hover)
      · rw [hover] at hpaused
        cases hpaused
  | cons first mid ih =>
    obtain ⟨rfl, hstep, hrest⟩ := h
    rcases hstep.probing hp first rfl with ⟨hended, -⟩ | ⟨-, -, hprobe, -⟩
    · exact ⟨first, List.mem_cons_self, hended⟩
    · obtain ⟨x, hx, hended⟩ := ih hrest hprobe
      exact ⟨x, List.mem_cons_of_mem _ hx, hended⟩

theorem Linked.no_end (h : Linked c jitter o (mid ++ rest)) (hp : o.probe = none)
    (hmid : ∀ x ∈ mid, x.started = none) : mid.filterMap Entry.ended = [] := by
  induction mid generalizing o with
  | nil => rfl
  | cons first mid ih =>
    obtain ⟨rfl, hstep, hrest⟩ := h
    obtain ⟨hended, hcase⟩ := hstep.idle hp first rfl
    have hnone := hmid first List.mem_cons_self
    rw [List.filterMap_cons_none hended]
    rcases hcase with ⟨-, hidle⟩ | ⟨kind, hsome, -⟩
    · exact ih hrest hidle fun x hx => hmid x (List.mem_cons_of_mem _ hx)
    · rw [hnone] at hsome
      cases hsome

/-- Between a probe and the next start lies its end, once. -/
theorem Linked.one_end (h : Linked c jitter o (mid ++ e' :: rest)) (hp : o.probe = some p)
    (hmid : ∀ x ∈ mid, x.started = none) (hstarted : e'.started = some kind) :
    mid.filterMap Entry.ended = [p.kind] := by
  induction mid generalizing o with
  | nil =>
    obtain ⟨rfl, hstep, -⟩ := h
    rw [(hstep.probe_of_started e' rfl hstarted).1] at hp
    cases hp
  | cons first mid ih =>
    obtain ⟨rfl, hstep, hrest⟩ := h
    have hlater := fun x hx => hmid x (List.mem_cons_of_mem first hx)
    rcases hstep.probing hp first rfl with ⟨hended, -, hidle⟩ | ⟨hended, -, hprobe, -⟩
    · rw [List.filterMap_cons_some hended, hrest.no_end hidle hlater]
    · rw [List.filterMap_cons_none hended]
      exact ih hrest hprobe hlater

end Linked

section Turns

variable {c : DevelopmentReadoutConfig} {jitter : Jitter} {o : Owner} {s : Step} {e e' : Entry}
  {mid rest : List Entry} {kind : Kind} {next : Owner × Option ProbeEvent} {t t' : ℚ}

theorem due_mono (h : o.due c t kind = true) (hle : t ≤ t') : o.due c t' kind = true := by
  cases kind with
  | withdrawal =>
    obtain ⟨hnext, hwindow⟩ := of_decide_eq_true h
    exact decide_eq_true ⟨hnext.trans hle, hwindow.trans hle⟩
  | perturbation => exact decide_eq_true ((of_decide_eq_true h).trans hle)

theorem nextAt_le_of_due (h : o.due c t kind = true) : o.nextAt kind ≤ t := by
  cases kind with
  | withdrawal => exact (of_decide_eq_true h).1
  | perturbation => exact of_decide_eq_true h

/-- What is due depends on the schedule and on how long the entity has been awake. -/
theorem due_congr {o' : Owner} (hnext : o'.nextAt kind = o.nextAt kind)
    (hawake : o'.awakeSince = o.awakeSince) : o'.due c t kind = o.due c t kind := by
  cases kind with
  | withdrawal =>
    unfold Owner.due
    rw [hnext, hawake]
  | perturbation =>
    unfold Owner.due
    rw [hnext]

theorem kind_cases (kind kind' : Kind) : kind' = kind ∨ kind' = kind.other := by
  cases kind <;> cases kind' <;> simp [Kind.other]

theorem other_ne (kind : Kind) : kind.other ≠ kind := by cases kind <;> simp [Kind.other]

/-- While the other kind is due and scheduled earlier, an unpaused step leaves it so or starts
it. -/
theorem Stepped.waiting (h : Stepped c jitter o s next) (hpaused : s.paused = false)
    (hawake : o.pausedLastStep = false) (hdue : o.due c s.now kind.other = true)
    (hfirst : o.nextAt kind.other < o.nextAt kind) (e : Entry) (he : e.event = next.2) :
    e.started = some kind.other ∨ (e.started = none ∧ next.1.pausedLastStep = false ∧
      next.1.nextAt = o.nextAt ∧ next.1.awakeSince = o.awakeSince) := by
  have hsame : o.awake c s = o := if_neg (by simp [hawake])
  unfold Entry.started
  rw [he]
  cases h with
  | paused hp hidle =>
    rw [hp] at hpaused
    cases hpaused
  | aborted hp p hprobe =>
    rw [hp] at hpaused
    cases hpaused
  | awake hp hhandled =>
    rw [hsame] at hhandled
    cases hhandled with
    | rests hrests => exact .inr ⟨rfl, rfl, rfl, rfl⟩
    | ends p seconds aborted hprobe => exact .inr ⟨rfl, rfl, rfl, rfl⟩
    | starts started hidle hsettle hspaced hdue' hfirst' =>
      rcases kind_cases kind started with rfl | rfl
      · exact absurd (hfirst' hdue) (not_le.mpr hfirst)
      · exact .inl rfl

/-- A kind that is due and scheduled earlier comes before the other. -/
theorem Linked.other_first (h : Linked c jitter o (mid ++ e' :: rest))
    (hawake : o.pausedLastStep = false) (hdue : o.due c t kind.other = true)
    (hfirst : o.nextAt kind.other < o.nextAt kind)
    (hclock : ∀ x ∈ mid ++ [e'], t ≤ x.step.now)
    (hpaused : ∀ x ∈ mid ++ [e'], x.step.paused = false)
    (hstarted : e'.started = some kind) : ∃ x ∈ mid, x.started = some kind.other := by
  induction mid generalizing o with
  | nil =>
    obtain ⟨rfl, hstep, -⟩ := h
    have hnow := due_mono hdue (hclock e' List.mem_cons_self)
    rcases hstep.waiting (hpaused e' List.mem_cons_self) hawake hnow hfirst e'
      rfl with hother | ⟨hnone, -⟩
    · rw [hstarted, Option.some.injEq] at hother
      exact absurd hother.symm (other_ne kind)
    · rw [hnone] at hstarted
      cases hstarted
  | cons first mid ih =>
    obtain ⟨rfl, hstep, hrest⟩ := h
    have hnow := due_mono hdue (hclock first List.mem_cons_self)
    rcases hstep.waiting (hpaused first List.mem_cons_self) hawake hnow hfirst first rfl with
      hother | ⟨-, hawake', hnext, hsince⟩
    · exact ⟨first, List.mem_cons_self, hother⟩
    · dsimp only at hawake' hnext hsince
      obtain ⟨x, hx, hother⟩ := ih hrest hawake' ((due_congr (congrFun hnext _) hsince).trans hdue)
        (by rw [hnext]; exact hfirst) (fun x hx => hclock x (List.mem_cons_of_mem _ hx))
        (fun x hx => hpaused x (List.mem_cons_of_mem _ hx))
      exact ⟨x, List.mem_cons_of_mem _ hx, hother⟩

/-- A start puts its kind behind the other, where that is due. -/
theorem Stepped.behind (h : Stepped c jitter o s next) (hvalid : c.Valid)
    (hdue : o.due c s.now kind.other = true) (e : Entry) (he : e.event = next.2)
    (hstarted : e.started = some kind) :
    next.1.pausedLastStep = false ∧ next.1.due c s.now kind.other = true ∧
      next.1.nextAt kind.other < next.1.nextAt kind := by
  unfold Entry.started at hstarted
  rw [he] at hstarted
  cases h with
  | paused hp hidle => cases hstarted
  | aborted hp p hprobe => cases hstarted
  | awake hp hhandled =>
    cases hhandled with
    | rests hrests => cases hstarted
    | ends p seconds aborted hprobe => cases hstarted
    | starts started hidle hsettle hspaced hdue' hfirst' =>
      cases hstarted
      have hawake : o.pausedLastStep = false := by
        by_contra hresumed
        rw [Bool.not_eq_false] at hresumed
        unfold Owner.awake at hsettle
        rw [if_pos hresumed] at hsettle
        dsimp only at hsettle
        linarith [hvalid.readoutPeriod]
      have hsame : o.awake c s = o := if_neg (by simp [hawake])
      rw [hsame]
      have hother : (o.begun c s kind (jitter.unit kind (o.counter kind))).nextAt kind.other =
        o.nextAt kind.other :=
        Function.update_of_ne (other_ne kind) _ _
      refine ⟨rfl, (due_congr hother rfl).trans hdue, ?_⟩
      show (o.begun c s kind _).nextAt kind.other < (o.begun c s kind _).nextAt kind
      rw [hother]
      have hlater : s.now < (o.begun c s kind (jitter.unit kind (o.counter kind))).nextAt kind := by
        unfold Owner.begun
        dsimp only
        rw [Function.update_self]
        have hperiod : 0 < period c kind := by
          cases kind with
          | withdrawal => exact hvalid.withdrawalPeriod
          | perturbation => exact hvalid.perturbationPeriod
        have hfactor : 0 < 1 + c.probeJitterFraction *
          (2 * jitter.unit kind (o.counter kind) - 1) := by
          have hunit := jitter.nonneg kind (o.counter kind)
          nlinarith [hvalid.jitter_nonneg, hvalid.jitter_le]
        linarith [mul_pos hperiod hfactor]
      exact lt_of_le_of_lt (nextAt_le_of_due hdue) hlater

end Turns

variable {c : DevelopmentReadoutConfig}

/-- What bounds the probes of a run that boots at a time. -/
structure Bounded (c : DevelopmentReadoutConfig) (t0 : ℚ) (run : List Entry) : Prop where
  /-- Without a probe the drive is at its baseline. -/
  scale : ∀ e ∈ run, e.after.probe = none → e.after.scale = c.baselineDriveFraction
  /-- A start is allowed: it comes in an unpaused step behind the settling, the spacing and, for a
  withdrawal, the entrainment window. -/
  allowed : ∀ past e rest kind, run = past ++ e :: rest → e.started = some kind →
    Allowed c t0 past e kind
  /-- A probe has ended by the first step at or after its planned end and by the first paused
  step. -/
  is_over : ∀ past e mid e' rest kind, run = past ++ e :: (mid ++ e' :: rest) →
    e.started = some kind → (e.step.now + probeSeconds c kind ≤ e'.step.now ∨
      e'.step.paused = true) →
    ∃ x ∈ mid ++ [e'], x.ended = some kind
  /-- Between a start and the next one lies its end, once. -/
  paired : ∀ past e mid e' rest kind kind', run = past ++ e :: (mid ++ e' :: rest) →
    e.started = some kind → (∀ x ∈ mid, x.started = none) → e'.started = some kind' →
      mid.filterMap Entry.ended = [kind]
  /-- A kind that is due as the other starts comes before the other starts again, without a pause
  between. -/
  fair : ∀ past e mid e' rest kind, run = past ++ e :: (mid ++ e' :: rest) → e.started = some kind →
    e'.started = some kind → (∀ x ∈ mid, x.step.paused = false) →
    e.before.due c e.step.now kind.other = true → ∃ x ∈ mid, x.started = some kind.other

theorem boot_eq_some {jitter : Jitter} {t0 : ℚ} {counters : Kind → ℕ}
    (h : ∀ kind, counters kind < counterLimit) :
    ∃ o, Owner.boot c jitter t0 counters = some o ∧ o.scale = c.baselineDriveFraction ∧
      o.probe = none ∧ ∀ kind, o.counter kind = counters kind + 1 := by
  have hcounter : Function.update counters Kind.withdrawal (counters .withdrawal + 1)
    .perturbation < counterLimit := by
    rw [Function.update_of_ne (by simp)]
    exact h .perturbation
  unfold Owner.boot Owner.jitterUnit
  dsimp only
  rw [if_pos (h .withdrawal), if_pos hcounter]
  refine ⟨_, rfl, rfl, rfl, fun kind => ?_⟩
  cases kind with
  | withdrawal =>
    dsimp only
    rw [Function.update_of_ne (by simp), Function.update_self]
  | perturbation =>
    dsimp only
    rw [Function.update_self, Function.update_of_ne (by simp)]

theorem map_now_trace (c : DevelopmentReadoutConfig) (jitter : Jitter) (o : Owner)
    (steps : List Step) : (trace c jitter o steps).map Entry.step = steps := by
  induction steps generalizing o with
  | nil => rfl
  | cons s steps ih => exact congrArg (s :: ·) (ih _)

/-- Probes stay bounded in every run of accepted settings whose draws do not run out. -/
theorem probes_bounded {json : Json} (hc : DevelopmentReadoutConfig.fromDict json = .ok c)
    (jitter : Jitter) (t0 : ℚ) (counters : Kind → ℕ) (steps : List Step)
    (hclock : (t0 :: steps.map Step.now).Pairwise (· ≤ ·))
    (hcounters : ∀ kind, counters kind + steps.length < counterLimit) :
    ∃ o, Owner.boot c jitter t0 counters = some o ∧ o.scale = c.baselineDriveFraction ∧
      Bounded c t0 (trace c jitter o steps) := by
  have hvalid := fromDict_valid hc
  have hdraws : ∀ kind, counters kind < counterLimit := by
    intro kind
    have h := hcounters kind
    omega
  obtain ⟨o, hboot, hscale, -, hcounter⟩ := boot_eq_some hdraws
  refine ⟨o, hboot, hscale, ?_⟩
  have hlinked : Linked c jitter o (trace c jitter o steps) := by
    refine linked_trace steps fun kind => ?_
    have h := hcounters kind
    rw [hcounter kind]
    omega
  generalize hrun : trace c jitter o steps = run at hlinked
  have htimes : run.map (fun x => x.step.now) = steps.map Step.now := by
    have hsteps := map_now_trace c jitter o steps
    rw [hrun] at hsteps
    rw [← hsteps, List.map_map]
    rfl
  obtain ⟨hstart, hsorted⟩ := List.pairwise_cons.mp hclock
  rw [← htimes] at hstart hsorted
  have hafter : ∀ x ∈ run, t0 ≤ x.step.now := fun x hx => hstart _ (List.mem_map.mpr ⟨x, hx, rfl⟩)
  refine ⟨?_, ?_, ?_, ?_, ?_⟩
  · intro e he hidle
    obtain ⟨front, back, hsplit⟩ := List.append_of_mem he
    exact (hlinked.allowed (inv_boot hboot) hsorted hafter hsplit).2.scale hidle
  · intro past e rest kind hsplit hstarted
    exact (hlinked.allowed (inv_boot hboot) hsorted hafter hsplit).1 kind hstarted
  · rintro past e mid e' rest kind rfl hstarted hover
    obtain ⟨hstep, hrest⟩ := hlinked.split
    exact hrest.is_over (hstep.probe_of_started e rfl hstarted).2 hover
  · rintro past e mid e' rest kind kind' rfl hstarted hmid hstarted'
    obtain ⟨hstep, hrest⟩ := hlinked.split
    exact hrest.one_end (hstep.probe_of_started e rfl hstarted).2 hmid hstarted'
  · rintro past e mid e' rest kind rfl hstarted hstarted' hpaused hdue
    obtain ⟨hstep, hrest⟩ := hlinked.split
    obtain ⟨hawake, hdue', hfirst⟩ := hstep.behind hvalid hdue e rfl hstarted
    have hlater : ∀ x ∈ mid ++ [e'], e.step.now ≤ x.step.now := by
      intro x hx
      have hx' : x ∈ mid ++ e' :: rest := by
        rcases List.mem_append.mp hx with hx | hx
        · exact List.mem_append_left _ hx
        · exact List.mem_append_right _ (List.mem_singleton.mp hx ▸ List.mem_cons_self)
      rw [List.map_append] at hsorted
      have hcons := (List.pairwise_append.mp hsorted).2.1
      exact (List.pairwise_cons.mp hcons).1 _ (List.mem_map.mpr ⟨x, hx', rfl⟩)
    have hunpaused : ∀ x ∈ mid ++ [e'], x.step.paused = false := by
      intro x hx
      rcases List.mem_append.mp hx with hx | hx
      · exact hpaused x hx
      · rw [List.mem_singleton.mp hx]
        have hsplit : past ++ e :: (mid ++ e' :: rest) = (past ++ e :: mid) ++ e' :: rest := by simp
        exact ((hlinked.allowed (inv_boot hboot) hsorted hafter hsplit).1 kind hstarted').unpaused
    exact hrest.other_first hawake hdue' hfirst hlater hunpaused hstarted'

/-- The draw that leaves every probe at its earliest. -/
def zeroJitter : Jitter := ⟨fun _ _ => 0, fun _ _ => le_rfl, fun _ _ => zero_lt_one⟩

/-- A perturbation, its end, which the bus refuses, and a withdrawal. -/
def refusedEnd : List Step :=
  [⟨140, some false, true⟩, ⟨145, some false, false⟩, ⟨300, some false, true⟩]

theorem fromDict_null : DevelopmentReadoutConfig.fromDict .null = .ok ⟨fields⟩ := by decide +kernel

theorem probes_bounded_default : ∃ o, Owner.boot ⟨fields⟩ zeroJitter 0 (fun _ => 0) = some o ∧
    o.scale = DevelopmentReadoutConfig.baselineDriveFraction ⟨fields⟩ ∧
    Bounded ⟨fields⟩ 0 (trace ⟨fields⟩ zeroJitter o refusedEnd) :=
  probes_bounded fromDict_null zeroJitter 0 (fun _ => 0) refusedEnd (by decide)
    fun _ => by decide

/-- The end of a published start is not published, and the next start is. -/
theorem end_unpublished : DevelopmentReadoutConfig.fromDict .null = .ok ⟨fields⟩ ∧
    (Owner.boot ⟨fields⟩ zeroJitter 0 fun _ => 0).map (fun o =>
      ((trace ⟨fields⟩ zeroJitter o refusedEnd).filterMap Entry.event).map fun e =>
        (e.kind, e.phase, e.published)) =
    some [(.perturbation, .start, true), (.perturbation, .end_, false),
      (.withdrawal, .start, true)] := by
  refine ⟨fromDict_null, ?_⟩
  decide +kernel

end Kaine.Development
