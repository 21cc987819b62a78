import Kaine.Effectors.ProgrammeSafety
import Kaine.Effectors.StimulusControl
import Kaine.Lib.Transition

/-! The bounds on stimulus control, over every interleaving of commands, polls and holders of the
clock. -/
namespace Kaine.Effectors

/-- A command on its way: between its check and its application, or between that and its stamp. -/
inductive InFlight where
  | checked (action : String) (now : ℚ)
  | applied (action : String) (now : ℚ)

/-- An accepted command: the time it was made, and awake time where it was applied. -/
structure Accepted where
  action : String
  at? : ℚ
  awake : ℚ

/-- The last pause of the entity by the polls that bracket it: the one before it began, and the last
one that still counted it. -/
structure Bracket where
  before : ℚ
  after : ℚ

def Bracket.span (b : Bracket) : ℚ := b.after - b.before

/-- The control with its clocks, the poll and the command in progress, and what has been
accepted. -/
structure ControlRun where
  control : StimulusControl
  now : ℚ
  mono : ℚ
  polling : Option ℚ := none
  inFlight : Option InFlight := none
  accepted : List Accepted := []
  bracket : Bracket

inductive ControlLabel where
  | pass (d m : ℚ≥0)
  | start
  | hold (holder : String)
  | release (holder : String)
  | readPoll
  | poll
  | check (action : String)
  | apply
  | stamp

variable {cfg : StimulusControlConfig} {r r' : ControlRun} {label : ControlLabel}
  {labels : List ControlLabel}

def ControlRun.withClock (r : ControlRun) (clock : ProgrammeClock) : ControlRun :=
  { r with
    control := { r.control with
      controller := { r.control.controller with clock := clock } } }

/-- One step: time, a holder that is not the entity, a poll in its two halves, or a command in its
three. -/
inductive ControlStep (cfg : StimulusControlConfig) :
    ControlRun → ControlLabel → ControlRun → Prop where
  | pass (r : ControlRun) (d m : ℚ≥0) :
      ControlStep cfg r (.pass d m) { r with now := r.now + d, mono := r.mono + m }
  | start (r : ControlRun) :
      ControlStep cfg r .start (r.withClock (r.control.controller.clock.start r.mono))
  | hold (r : ControlRun) {holder : String} (h : holder ≠ entityHolder) :
      ControlStep cfg r (.hold holder)
        (r.withClock (r.control.controller.clock.pause holder r.mono))
  | release (r : ControlRun) {holder : String} (h : holder ≠ entityHolder) :
      ControlStep cfg r (.release holder)
        (r.withClock (r.control.controller.clock.resume holder r.mono))
  | readPoll (r : ControlRun) (h : r.polling = none) :
      ControlStep cfg r .readPoll { r with polling := some r.now }
  | poll (r : ControlRun) {now : ℚ} (h : r.polling = some now) :
      ControlStep cfg r .poll
        { r with
          polling := none
          control := { r.control with
            controller := (r.control.controller.pollOnce cfg now r.now r.mono).1
            tally := if (r.control.controller.pollOnce cfg now r.now r.mono).2 then
                { r.control.tally with autoReleases := r.control.tally.autoReleases + 1 }
              else r.control.tally }
          bracket := if r.control.controller.entityPausedAt.isSome then
              { r.bracket with after := now } else r.bracket }
  | refused (r : ControlRun) {action : String} {reason : Refusal} {s : StimulusControl}
      (hidle : r.inFlight = none)
      (h : r.control.refusal cfg action r.now r.mono = (some reason, s)) :
      ControlStep cfg r (.check action) { r with control := s.refuse cfg action reason }
  | checked (r : ControlRun) {action : String} {s : StimulusControl} (hidle : r.inFlight = none)
      (h : r.control.refusal cfg action r.now r.mono = (none, s)) :
      ControlStep cfg r (.check action)
        { r with control := s, inFlight := some (.checked action r.now) }
  | raised (r : ControlRun) {action : String} {made : ℚ} {reason : Refusal}
      (hchecked : r.inFlight = some (.checked action made))
      (h : r.control.controller.apply cfg action r.now r.mono = .error reason) :
      ControlStep cfg r .apply
        { r with control := r.control.refuse cfg action reason, inFlight := none }
  | applied (r : ControlRun) {action : String} {made : ℚ} {c : StimulusController}
      (hchecked : r.inFlight = some (.checked action made))
      (h : r.control.controller.apply cfg action r.now r.mono = .ok c) :
      ControlStep cfg r .apply
        { r with
          control := { r.control with controller := c }
          inFlight := some (.applied action made)
          accepted := ⟨action, made, r.control.controller.awakeS⟩ :: r.accepted
          bracket := if action = pauseAction then
              ⟨r.control.controller.lastAccount, r.control.controller.lastAccount⟩ else r.bracket }
  | stamp (r : ControlRun) {action : String} {made : ℚ}
      (h : r.inFlight = some (.applied action made)) : ControlStep cfg r .stamp
        { r with control := r.control.stamp action made, inFlight := none }

/-- A programme under control before anything has happened. -/
def ControlRun.begin (cfg : StimulusControlConfig) (clock : ProgrammeClock) (now mono : ℚ) :
    ControlRun where
  control := { controller := .new clock now, tally := .new cfg }
  now := now
  mono := mono
  bracket := ⟨now, now⟩

namespace StimulusController

variable {c c' : StimulusController} {action : String} {now mono a d : ℚ} {span : PauseSpan}
  {spans : List PauseSpan}

/-- The seconds of the window that ends at `a` that the spans hold. -/
def held (a : ℚ) (spans : List PauseSpan) : ℚ := (spans.map (heldBy a)).sum

/-- Every span is closed but, while the entity pauses, the last one. -/
def SpansOpen (paused : Prop) (spans : List PauseSpan) : Prop :=
  ∃ closed : List PauseSpan, (∀ span ∈ closed, span.2.isSome) ∧
    ((¬paused ∧ spans = closed) ∨ paused ∧ ∃ start, spans = closed ++ [(start, none)])

theorem heldBy_closed_le (h : span.2.isSome) (hd : 0 ≤ d) :
    heldBy (a + d) span ≤ heldBy a span := by
  obtain ⟨start, stop⟩ := span
  cases stop with
  | none => simp at h
  | some stop =>
    have hlow : max start (a - pauseShareWindowS) ≤ max start (a + d - pauseShareWindowS) :=
      max_le_max le_rfl (by linarith)
    simp only [heldBy, Option.getD_some]
    exact max_le_max le_rfl (by linarith)

theorem heldBy_open_le (start : ℚ) (hd : 0 ≤ d) :
    heldBy (a + d) (start, none) ≤ heldBy a (start, none) + d := by
  have hlow : max start (a - pauseShareWindowS) ≤ max start (a + d - pauseShareWindowS) :=
    max_le_max le_rfl (by linarith)
  simp only [heldBy, Option.getD_none]
  refine max_le ?_ ?_
  · have := le_max_left 0 (a - max start (a - pauseShareWindowS))
    linarith
  · have := le_max_right 0 (a - max start (a - pauseShareWindowS))
    linarith

/-- Awake time adds to what is held only while the entity pauses. -/
theorem held_later {paused : Prop} (h : SpansOpen paused spans) (hd : 0 ≤ d) :
    (¬paused → held (a + d) spans ≤ held a spans) ∧ held (a + d) spans ≤ held a spans + d := by
  obtain ⟨closed, hclosed, hcases⟩ := h
  have hsum : held (a + d) closed ≤ held a closed :=
    List.sum_le_sum fun span hspan => heldBy_closed_le (hclosed span hspan) hd
  rcases hcases with ⟨_, rfl⟩ | ⟨hpaused, start, rfl⟩
  · exact ⟨fun _ => hsum, by linarith⟩
  · refine ⟨fun hnot => absurd hpaused hnot, ?_⟩
    have hopen := heldBy_open_le (a := a) start hd
    simp only [held, List.map_append, List.sum_append, List.map_cons, List.map_nil,
      List.sum_singleton] at hsum ⊢
    linarith

theorem held_append_start (a : ℚ) (spans : List PauseSpan) :
    held a (spans ++ [(a, none)]) = held a spans := by
  have hzero : heldBy a (a, none) = 0 := by
    have := le_max_left a (a - pauseShareWindowS)
    simp only [heldBy, Option.getD_none]
    exact max_eq_left (by linarith)
  simp [held, hzero]

theorem closeLast_append (a start : ℚ) (closed : List PauseSpan) :
    closeLast a (closed ++ [(start, none)]) = closed ++ [(start, some a)] := by
  induction closed with
  | nil => rfl
  | cons span closed ih =>
    cases closed with
    | nil =>
      obtain ⟨first, stop⟩ := span
      cases stop <;> rfl
    | cons next closed =>
      have hcons : closeLast a (span :: next :: closed ++ [(start, none)]) =
          span :: closeLast a (next :: closed ++ [(start, none)]) := by
        simp [closeLast]
      rw [hcons, ih]
      rfl

theorem held_closeLast (h : SpansOpen True spans) (a : ℚ) :
    held a (closeLast a spans) = held a spans ∧ SpansOpen False (closeLast a spans) := by
  obtain ⟨closed, hclosed, ⟨hnot, _⟩ | ⟨_, start, rfl⟩⟩ := h
  · exact absurd trivial hnot
  · rw [closeLast_append]
    have hsame : heldBy a (start, some a) = heldBy a (start, none) := rfl
    refine ⟨by simp [held, hsame], closed ++ [(start, some a)], ?_, .inl ⟨not_false, rfl⟩⟩
    intro span hspan
    rcases List.mem_append.mp hspan with hspan | hspan
    · exact hclosed span hspan
    · rw [List.mem_singleton.mp hspan]
      rfl

/-- A span that the window has passed holds nothing of it. -/
theorem held_filter (a : ℚ) (spans : List PauseSpan) :
    held a (spans.filter (inWindow a)) = held a spans := by
  induction spans with
  | nil => rfl
  | cons span spans ih =>
    obtain ⟨start, stop⟩ := span
    cases stop with
    | none => simpa [held, List.filter_cons, inWindow] using ih
    | some stop =>
      by_cases hin : a - pauseShareWindowS < stop
      · simpa [held, List.filter_cons, inWindow, hin] using ih
      · have hzero : heldBy a (start, some stop) = 0 := by
          have := le_max_right start (a - pauseShareWindowS)
          simp only [heldBy, Option.getD_some]
          exact max_eq_left (by linarith)
        simpa [held, List.filter_cons, inWindow, hin, hzero] using ih

theorem spansOpen_filter {paused : Prop} (h : SpansOpen paused spans) (a : ℚ) :
    SpansOpen paused (spans.filter (inWindow a)) := by
  obtain ⟨closed, hclosed, hcases⟩ := h
  refine ⟨closed.filter (inWindow a),
    fun span hspan => hclosed span (List.mem_of_mem_filter hspan), ?_⟩
  rcases hcases with ⟨hnot, rfl⟩ | ⟨hpaused, start, rfl⟩
  · exact .inl ⟨hnot, rfl⟩
  · exact .inr ⟨hpaused, start, by simp [inWindow]⟩

theorem seek_holders {clock clock' : ProgrammeClock} {k : ℤ} {idx : ℕ}
    (h : clock.seek k mono = .ok (clock', idx)) : clock'.holders = clock.holders := by
  unfold ProgrammeClock.seek at h
  split at h
  · cases h
  · cases h
    rfl

theorem switchChannel_holders {clock clock' : ProgrammeClock} {k : ℤ} {idx : ℕ}
    (h : clock.switchChannel k mono = .ok (clock', idx)) : clock'.holders = clock.holders := by
  unfold ProgrammeClock.switchChannel at h
  split at h
  · split at h
    · cases h
    · cases h
      rfl
  · cases h

theorem pauseRefusal_none (h : c.pauseRefusal cfg now = none) :
    entityHolder ∉ c.clock.holders ∧
      c.pausedShare ≤ cfg.pauseShareMax - cfg.pauseMaxS / pauseShareWindowS + eps := by
  unfold pauseRefusal at h
  split_ifs at h with hpaused
  have hshare : c.pauseShareRefusal cfg = none := by
    split at h
    · split_ifs at h
      exact h
    · exact h
  refine ⟨by simpa [entityPaused] using hpaused, ?_⟩
  unfold pauseShareRefusal at hshare
  dsimp only at hshare
  split_ifs at hshare with hlt
  exact not_lt.mp hlt

/-- What passes the refusal: a pause that is new and fits, a resume of a pause. -/
theorem refusal_none (h : c.refusal cfg action now mono = none) :
    (action = pauseAction → c.pauseRefusal cfg now = none) ∧
      (action = resumeAction → entityHolder ∈ c.clock.holders) := by
  unfold refusal at h
  split at h
  · cases h
  split at h
  · cases h
  split at h
  · cases h
  cases hpause : (if action = pauseAction then c.pauseRefusal cfg now else none) with
  | some reason => simp [hpause] at h
  | none =>
    simp only [hpause] at h
    refine ⟨fun hact => (if_pos hact).symm.trans hpause, fun hact => ?_⟩
    by_contra hfree
    have hnot : c.entityPaused = false := by simp [entityPaused, hfree]
    simp [hact, hnot] at h

/-- What an applied command does: it opens a pause, ends one, or moves the gain or the position. -/
theorem apply_cases (h : c.apply cfg action now mono = .ok c') :
    (action = pauseAction ∧ c.pauseRefusal cfg now = none ∧
      c' = { c with
        entityPausedAt := some now
        pauseSpans := c.pauseSpans ++ [(c.awakeS, none)]
        clock := c.clock.pause entityHolder mono }) ∨
    (action ≠ pauseAction ∧ entityHolder ∈ c.clock.holders ∧ c' = c.endEntityPause now mono) ∨
    (action ≠ pauseAction ∧ ∃ clock gain, clock.holders = c.clock.holders ∧
      (|c.gainDb| ≤ cfg.gainMaxDb → |gain| ≤ cfg.gainMaxDb) ∧
      c' = { c with clock := clock, gainDb := gain }) := by
  unfold apply at h
  split at h
  · cases h
  rename_i hnone
  obtain ⟨hpause, hresume⟩ := refusal_none hnone
  split_ifs at h with h₁ h₂ h₃ h₄ h₅ h₆
  · cases h
    exact .inl ⟨h₁, hpause h₁, rfl⟩
  · cases h
    exact .inr (.inl ⟨h₁, hresume h₂, rfl⟩)
  · split at h
    · cases h
      exact .inr (.inr ⟨h₁, _, _, seek_holders ‹_›, id, rfl⟩)
    · cases h
  · split at h
    · cases h
      exact .inr (.inr ⟨h₁, _, _, seek_holders ‹_›, id, rfl⟩)
    · cases h
  · cases h
    refine .inr (.inr ⟨h₁, _, _, rfl, ?_, rfl⟩)
    intro hgain
    have hbounds := abs_le.mp hgain
    have hstep := cfg.gainStep_pos
    refine abs_le.mpr ⟨le_min ?_ ?_, min_le_left _ _⟩ <;> linarith
  · cases h
    refine .inr (.inr ⟨h₁, _, _, rfl, ?_, rfl⟩)
    intro hgain
    have hbounds := abs_le.mp hgain
    have hstep := cfg.gainStep_pos
    refine abs_le.mpr ⟨le_max_left _ _, max_le ?_ ?_⟩ <;> linarith
  · split at h
    · cases h
    · split at h
      · cases h
        exact .inr (.inr ⟨h₁, _, _, switchChannel_holders ‹_›, id, rfl⟩)
      · cases h

/-- The gain keeps its bound, and what the window holds grew since the last pause was taken by no
more than the polls that bracket the pause are apart. -/
structure Charged (cfg : StimulusControlConfig) (c : StimulusController) (now : ℚ)
    (polling : Option ℚ) (bracket : Bracket) : Prop where
  gain : |c.gainDb| ≤ cfg.gainMaxDb
  holds : entityHolder ∈ c.clock.holders ↔ c.entityPausedAt.isSome = true
  spans : SpansOpen (c.entityPausedAt.isSome = true) c.pauseSpans
  polled : c.lastAccount ≤ now
  polling : ∀ t, polling = some t → c.lastAccount ≤ t ∧ t ≤ now
  ordered : bracket.before ≤ bracket.after
  bracketed : c.entityPausedAt.isSome = true → bracket.after = c.lastAccount
  share : held c.awakeS c.pauseSpans ≤
    pauseShareWindowS * (cfg.pauseShareMax + eps) - cfg.pauseMaxS + bracket.span

/-- And an open pause has not been found full by a poll. -/
structure Bounded (cfg : StimulusControlConfig) (c : StimulusController) (now : ℚ)
    (polling : Option ℚ) (bracket : Bracket) : Prop extends Charged cfg c now polling bracket where
  released : ∀ p, c.entityPausedAt = some p → c.lastAccount < p + cfg.pauseMaxS

variable {polling : Option ℚ} {bracket : Bracket} {t : ℚ}

theorem Bounded.later (h : c.Bounded cfg now polling bracket) (hd : 0 ≤ d) :
    c.Bounded cfg (now + d) polling bracket :=
  { h with
    polled := by linarith [h.polled]
    polling := fun t ht => ⟨(h.polling t ht).1, by linarith [(h.polling t ht).2]⟩ }

theorem Bounded.readPoll (h : c.Bounded cfg now polling bracket) :
    c.Bounded cfg now (some now) bracket :=
  { h with
    polling := by
      rintro t ht
      cases ht
      exact ⟨h.polled, le_rfl⟩ }

theorem Bounded.withClock (h : c.Bounded cfg now polling bracket) {clock : ProgrammeClock}
    (hsame : entityHolder ∈ clock.holders ↔ entityHolder ∈ c.clock.holders) :
    ({ c with clock := clock } : StimulusController).Bounded cfg now polling bracket :=
  ⟨⟨h.gain, hsame.trans h.holds, h.spans, h.polled, h.polling, h.ordered, h.bracketed, h.share⟩,
    h.released⟩

theorem Bounded.episode (h : c.Bounded cfg now polling bracket) (b : Bool) :
    ({ c with shareEpisode := b } : StimulusController).Bounded cfg now polling bracket :=
  ⟨⟨h.gain, h.holds, h.spans, h.polled, h.polling, h.ordered, h.bracketed, h.share⟩, h.released⟩

theorem Bounded.prune (h : c.Bounded cfg now polling bracket) :
    (c.prune cfg).Bounded cfg now polling bracket :=
  ⟨⟨h.gain, h.holds, spansOpen_filter h.spans c.awakeS, h.polled, h.polling, h.ordered, h.bracketed,
    (held_filter c.awakeS c.pauseSpans).le.trans h.share⟩, h.released⟩

/-- The end of a pause closes its span where it stands. -/
theorem Charged.endEntityPause (h : c.Charged cfg now polling bracket)
    (hpaused : entityHolder ∈ c.clock.holders) (ended mono : ℚ) :
    (c.endEntityPause ended mono).Bounded cfg now polling bracket := by
  have hsome := h.holds.mp hpaused
  have hspans : SpansOpen True c.pauseSpans := by
    have := h.spans
    rwa [hsome, eq_self] at this
  obtain ⟨hheld, hclosed⟩ := held_closeLast hspans c.awakeS
  refine ⟨⟨h.gain, ?_, ?_, h.polled, h.polling, h.ordered, fun hp => (by cases hp),
    hheld.le.trans h.share⟩, fun p hp => by cases hp⟩
  · simp [StimulusController.endEntityPause, ProgrammeClock.resume, ProgrammeClock.withClock]
  · simpa [StimulusController.endEntityPause] using hclosed

/-- A poll accounts the time since the last one, which an open pause is charged with. -/
theorem Charged.account (h : c.Charged cfg now (some t) bracket) (mono : ℚ) :
    (c.account t mono).Charged cfg now none
      (if c.entityPausedAt.isSome then { bracket with after := t } else bracket) := by
  obtain ⟨hlast, hnow⟩ := h.polling t rfl
  have hmax : max 0 (t - c.lastAccount) = t - c.lastAccount := max_eq_right (by linarith)
  obtain ⟨δ, hδ, hδle, hawake⟩ : ∃ δ, 0 ≤ δ ∧ δ ≤ t - c.lastAccount ∧
      (c.account t mono).awakeS = c.awakeS + δ := by
    refine ⟨_, ?_, ?_, rfl⟩
    · split_ifs
      · exact le_max_left _ _
      · exact le_rfl
    · split_ifs
      · exact hmax.le
      · linarith
  obtain ⟨hfree, hgrow⟩ := held_later (a := c.awakeS) h.spans hδ
  by_cases hpaused : c.entityPausedAt.isSome = true
  · have hafter := h.bracketed hpaused
    rw [if_pos hpaused]
    refine ⟨h.gain, h.holds, h.spans, hnow, fun _ hn => (by cases hn), ?_, fun _ => rfl, ?_⟩
    · exact h.ordered.trans (by rw [hafter]; exact hlast)
    · rw [hawake]
      have hshare := h.share
      simp only [Bracket.span, hafter] at hshare ⊢
      have hspans : (c.account t mono).pauseSpans = c.pauseSpans := rfl
      rw [hspans]
      linarith
  · rw [if_neg hpaused]
    refine ⟨h.gain, h.holds, h.spans, hnow, fun _ hn => (by cases hn), h.ordered,
      fun hp => absurd hp hpaused, ?_⟩
    rw [hawake]
    exact (hfree hpaused).trans h.share

theorem Bounded.pollOnce (h : c.Bounded cfg now (some t) bracket) (ended mono : ℚ) :
    (c.pollOnce cfg t ended mono).1.Bounded cfg now none
      (if c.entityPausedAt.isSome then { bracket with after := t } else bracket) := by
  have hacc := h.toCharged.account mono
  cases hdue : (c.account t mono).releaseDue cfg t with
  | true =>
    have hpaused : entityHolder ∈ (c.account t mono).clock.holders := by
      have := (Bool.and_eq_true _ _).mp hdue
      simpa [entityPaused] using this.1
    have hpoll : (c.pollOnce cfg t ended mono).1 =
      ((c.account t mono).endEntityPause ended mono).prune cfg := by
      simp [StimulusController.pollOnce, hdue]
    rw [hpoll]
    exact (hacc.endEntityPause hpaused ended mono).prune
  | false =>
    have hpoll : (c.pollOnce cfg t ended mono).1 = (c.account t mono).prune cfg := by
      simp [StimulusController.pollOnce, hdue]
    rw [hpoll]
    refine Bounded.prune ⟨hacc, ?_⟩
    intro p hp
    have hpaused : (c.account t mono).entityPaused = true := by
      have := hacc.holds.mpr (by rw [hp]; rfl)
      simpa [entityPaused] using this
    have hnot : ¬cfg.pauseMaxS ≤ t - p := by
      intro hle
      simp [releaseDue, hpaused, hp, hle] at hdue
    have hlast : (c.account t mono).lastAccount = t := rfl
    rw [hlast]
    linarith

/-- Whatever is accepted keeps the bounds; a new pause starts a new bracket at the last poll. -/
theorem Bounded.apply (h : c.Bounded cfg now polling bracket)
    (happly : c.apply cfg action now mono = .ok c') :
    c'.Bounded cfg now polling
      (if action = pauseAction then ⟨c.lastAccount, c.lastAccount⟩ else bracket) := by
  rcases apply_cases happly with ⟨hact, hnone, rfl⟩ | ⟨hact, hpaused, rfl⟩ |
    ⟨hact, clock, gain, hholders, hgain, rfl⟩
  · obtain ⟨hfree, hshare⟩ := pauseRefusal_none hnone
    have hnot : ¬c.entityPausedAt.isSome = true := fun hp => hfree (h.holds.mpr hp)
    rw [if_pos hact]
    refine ⟨⟨h.gain, ?_, ?_, h.polled, h.polling, le_rfl, fun _ => rfl, ?_⟩, ?_⟩
    · simp [ProgrammeClock.pause, ProgrammeClock.withClock]
    · obtain ⟨closed, hclosed, ⟨_, hspans⟩ | ⟨hp, _⟩⟩ := h.spans
      · exact ⟨closed, hclosed, .inr ⟨rfl, c.awakeS, by rw [hspans]⟩⟩
      · exact absurd hp hnot
    · rw [held_append_start]
      have hpos : (0 : ℚ) < pauseShareWindowS := by norm_num [pauseShareWindowS]
      have hheld : held c.awakeS c.pauseSpans ≤
          (cfg.pauseShareMax - cfg.pauseMaxS / pauseShareWindowS + eps) * pauseShareWindowS := by
        have := hshare
        rwa [pausedShare, div_le_iff₀ hpos] at this
      have hroom : (cfg.pauseShareMax - cfg.pauseMaxS / pauseShareWindowS + eps) *
          pauseShareWindowS = pauseShareWindowS * (cfg.pauseShareMax + eps) - cfg.pauseMaxS := by
        field_simp
        ring
      simp only [Bracket.span, sub_self, add_zero]
      linarith
    · intro p hp
      cases hp
      have := cfg.pauseMax_pos
      have := h.polled
      linarith
  · rw [if_neg hact]
    exact h.toCharged.endEntityPause hpaused now mono
  · rw [if_neg hact]
    refine ⟨⟨hgain h.gain, ?_, h.spans, h.polled, h.polling, h.ordered, h.bracketed, h.share⟩,
      h.released⟩
    rw [← h.holds, ← hholders]

theorem awakeS_pollOnce (c : StimulusController) (t ended mono : ℚ) :
    c.awakeS ≤ (c.pollOnce cfg t ended mono).1.awakeS := by
  have hpoll : (c.pollOnce cfg t ended mono).1.awakeS = (c.account t mono).awakeS := by
    unfold pollOnce
    dsimp only
    split_ifs <;> rfl
  rw [hpoll]
  unfold account
  dsimp only
  split_ifs
  · exact le_add_of_nonneg_right (le_max_left _ _)
  · exact (add_zero _).ge

theorem awakeS_apply (h : c.apply cfg action now mono = .ok c') : c'.awakeS = c.awakeS := by
  rcases apply_cases h with ⟨_, _, rfl⟩ | ⟨_, _, rfl⟩ | ⟨_, _, _, _, _, rfl⟩ <;> rfl

end StimulusController

namespace StimulusControl

variable {s s' : StimulusControl} {action : String} {now mono : ℚ} {reason : Refusal}
  {result : Option Refusal}

/-- The seeks that the trailing awake hour still holds, from the first of them on. -/
def liveSeeks (s : StimulusControl) : List ℚ :=
  s.effector.seeks.dropWhile fun seek => decide (pauseShareWindowS ≤ s.controller.awakeS - seek)

/-- What a check leaves, and what it has found where it finds nothing to refuse. -/
theorem refusal_spec (h : s.refusal cfg action now mono = (result, s')) :
    (∃ seeks, (seeks = s.effector.seeks ∨ seeks = s.liveSeeks) ∧
      s' = { s with effector := { s.effector with seeks := seeks } }) ∧
    (result = none →
      (∀ last, s.effector.lastAcceptedAt = some last → last + cfg.minIntervalS ≤ now) ∧
      (action ∈ seekActions → s'.effector.seeks.length < cfg.seeksPerAwakeHour)) := by
  have hsame : s = { s with effector := { s.effector with seeks := s.effector.seeks } } := rfl
  unfold refusal at h
  split at h
  · cases h
    exact ⟨⟨_, .inl rfl, hsame⟩, fun hn => by cases hn⟩
  cases hlast : s.effector.lastAcceptedAt.filter fun last => now - last < cfg.minIntervalS with
  | some last =>
    simp only [hlast] at h
    cases h
    exact ⟨⟨_, .inl rfl, hsame⟩, fun hn => by cases hn⟩
  | none =>
    have hinterval : ∀ last, s.effector.lastAcceptedAt = some last →
        last + cfg.minIntervalS ≤ now := by
      intro last hl
      rw [hl] at hlast
      have hnot : ¬now - last < cfg.minIntervalS := by simpa using hlast
      linarith
    simp only [hlast] at h
    split at h
    · split at h
      · rename_i hroom
        cases h
        exact ⟨⟨_, .inr rfl, rfl⟩, fun _ => ⟨hinterval, fun _ => hroom⟩⟩
      · cases h
        exact ⟨⟨_, .inr rfl, rfl⟩, fun hn => by cases hn⟩
    · rename_i hseek
      cases h
      exact ⟨⟨_, .inl rfl, hsame⟩, fun _ => ⟨hinterval, fun hin => absurd hin hseek⟩⟩

/-- A refusal leaves everything but the counts of refusals and the share episode. -/
theorem refuse_spec (cfg : StimulusControlConfig) (s : StimulusControl) (action : String)
    (reason : Refusal) : ∃ episode refused shareRefusals, s.refuse cfg action reason =
      { s with
        controller := { s.controller with shareEpisode := episode }
        tally := { s.tally with refused := refused, pauseShareRefusals := shareRefusals } } := by
  have hcounted : ∃ episode refused shareRefusals,
      ({ s with tally := s.tally.noteRefused cfg action } : StimulusControl) =
        { s with
          controller := { s.controller with shareEpisode := episode }
          tally := { s.tally with refused := refused, pauseShareRefusals := shareRefusals } } :=
    ⟨s.controller.shareEpisode, (s.tally.noteRefused cfg action).refused,
      s.tally.pauseShareRefusals, rfl⟩
  cases reason with
  | pauseShare share =>
    by_cases hact : action = pauseAction
    · simp only [refuse, if_pos hact]
      exact ⟨_, _, _, rfl⟩
    · simp only [refuse, if_neg hact]
      exact hcounted
  | _ => exact hcounted

end StimulusControl

def Accepted.isSeek (a : Accepted) : Bool := decide (a.action ∈ seekActions)

/-- The accepted seeks later than a time within the trailing awake hour are all still remembered. -/
def SeeksCounted (accepted : List Accepted) (seeks : List ℚ) (awake : ℚ) : Prop :=
  ∀ x, awake - pauseShareWindowS ≤ x →
    accepted.countP (fun a => a.isSeek && x < a.awake) ≤ seeks.countP fun seek => x < seek

/-- The effector remembers what has been accepted. -/
def Settled (accepted : List Accepted) (e : StimulusEffector) (awake : ℚ) : Prop :=
  (∀ a ∈ accepted, ∃ last, e.lastAcceptedAt = some last ∧ a.at? ≤ last) ∧
    SeeksCounted accepted e.seeks awake

/-- What a command on its way has found, or has left to be remembered. -/
def OnItsWay (cfg : StimulusControlConfig) (accepted : List Accepted) (e : StimulusEffector)
    (awake : ℚ) : Option InFlight → Prop
  | none => Settled accepted e awake
  | some (.checked action made) =>
    Settled accepted e awake ∧
      (∀ last, e.lastAcceptedAt = some last → last + cfg.minIntervalS ≤ made) ∧
      (action ∈ seekActions → e.seeks.length < cfg.seeksPerAwakeHour)
  | some (.applied action made) =>
    ∃ m rest, accepted = ⟨action, made, m⟩ :: rest ∧ m ≤ awake ∧ Settled rest e awake ∧
      ∀ a ∈ rest, a.at? ≤ made

/-- Accepted commands keep their distance, and any trailing awake hour its seeks. -/
structure Paced (cfg : StimulusControlConfig) (r : ControlRun) : Prop where
  spaced : r.accepted.Pairwise fun later earlier => earlier.at? + cfg.minIntervalS ≤ later.at?
  capped : ∀ a, r.accepted.countP (fun x => x.isSeek && a - pauseShareWindowS < x.awake &&
    x.awake ≤ a) ≤ cfg.seeksPerAwakeHour
  onItsWay : OnItsWay cfg r.accepted r.control.effector r.control.controller.awakeS r.inFlight

variable {accepted : List Accepted} {seeks : List ℚ} {awake awake' : ℚ} {e : StimulusEffector}

theorem SeeksCounted.later (h : SeeksCounted accepted seeks awake) (hle : awake ≤ awake') :
    SeeksCounted accepted seeks awake' := fun x hx => h x (by linarith)

/-- Seeks that the hour has passed are not needed. -/
theorem SeeksCounted.dropWhile (h : SeeksCounted accepted seeks awake) :
    SeeksCounted accepted
      (seeks.dropWhile fun seek => decide (pauseShareWindowS ≤ awake - seek)) awake := by
  intro x hx
  refine (h x hx).trans ?_
  clear h
  induction seeks with
  | nil => exact le_rfl
  | cons seek seeks ih =>
    by_cases hold : pauseShareWindowS ≤ awake - seek
    · have hnot : ¬x < seek := by linarith
      rw [List.dropWhile_cons_of_pos (by simpa using hold),
        List.countP_cons_of_neg (by simpa using hnot)]
      exact ih
    · rw [List.dropWhile_cons_of_neg (by simpa using hold)]

/-- A stamp comes no earlier in awake time than the command it is for. -/
theorem SeeksCounted.stamp {m : ℚ} (h : SeeksCounted accepted seeks awake) (action : String)
    (made : ℚ) (hm : m ≤ awake) :
    SeeksCounted (⟨action, made, m⟩ :: accepted)
      (if action ∈ seekActions then seeks ++ [awake] else seeks) awake := by
  intro x hx
  have hcount := h x hx
  by_cases hseek : action ∈ seekActions
  · rw [if_pos hseek, List.countP_append, List.countP_singleton]
    by_cases hlate : x < m
    · have hlate' : x < awake := hlate.trans_le hm
      rw [List.countP_cons_of_pos (by simp [Accepted.isSeek, hseek, hlate]), if_pos (by simpa)]
      omega
    · rw [List.countP_cons_of_neg (by simp [hlate])]
      omega
  · rw [if_neg hseek, List.countP_cons_of_neg (by simp [Accepted.isSeek, hseek])]
    exact hcount

theorem OnItsWay.later {f : Option InFlight} (h : OnItsWay cfg accepted e awake f)
    (hle : awake ≤ awake') : OnItsWay cfg accepted e awake' f := by
  rcases f with _ | ⟨action, made⟩ | ⟨action, made⟩
  · exact ⟨h.1, h.2.later hle⟩
  · exact ⟨⟨h.1.1, h.1.2.later hle⟩, h.2⟩
  · obtain ⟨m, rest, hacc, hm, hsettled, hrest⟩ := h
    exact ⟨m, rest, hacc, hm.trans hle, ⟨hsettled.1, hsettled.2.later hle⟩, hrest⟩

/-- An accepted seek joins what any trailing hour holds of the seeks before it. -/
theorem capped_cons {made m : ℚ} {action : String}
    (hcapped : ∀ a, accepted.countP (fun x => x.isSeek && a - pauseShareWindowS < x.awake &&
      x.awake ≤ a) ≤ cfg.seeksPerAwakeHour)
    (hcounted : SeeksCounted accepted seeks m)
    (hroom : action ∈ seekActions → seeks.length < cfg.seeksPerAwakeHour) (a : ℚ) :
    ((⟨action, made, m⟩ : Accepted) :: accepted).countP
      (fun x => x.isSeek && a - pauseShareWindowS < x.awake && x.awake ≤ a) ≤
        cfg.seeksPerAwakeHour := by
  by_cases hin : action ∈ seekActions ∧ a - pauseShareWindowS < m ∧ m ≤ a
  · obtain ⟨hseek, hlow, hhigh⟩ := hin
    have hothers : accepted.countP (fun x => x.isSeek && a - pauseShareWindowS < x.awake &&
        x.awake ≤ a) ≤ seeks.length := by
      calc accepted.countP (fun x => x.isSeek && a - pauseShareWindowS < x.awake && x.awake ≤ a)
          ≤ accepted.countP (fun x => x.isSeek && a - pauseShareWindowS < x.awake) := by
            refine List.countP_mono_left fun x _ hx => ?_
            simp only [Bool.and_eq_true] at hx ⊢
            exact hx.1
        _ ≤ seeks.countP fun seek => a - pauseShareWindowS < seek :=
            hcounted _ (by linarith)
        _ ≤ seeks.length := List.countP_le_length
    have := hroom hseek
    refine (List.countP_cons_of_pos ?_).le.trans (by omega)
    simp [Accepted.isSeek, hseek, hlow, hhigh]
  · refine (List.countP_cons_of_neg ?_).le.trans (hcapped a)
    simpa [Accepted.isSeek] using hin

/-- Both invariants of a run. -/
structure Controlled (cfg : StimulusControlConfig) (r : ControlRun) : Prop where
  bounded : r.control.controller.Bounded cfg r.now r.polling r.bracket
  paced : Paced cfg r

theorem Paced.refuse {s : StimulusControl} (action : String) (reason : Refusal)
    (h : Paced cfg { r with control := s }) :
    Paced cfg { r with control := s.refuse cfg action reason } := by
  obtain ⟨episode, refused, shareRefusals, heq⟩ := s.refuse_spec cfg action reason
  rw [heq]
  exact ⟨h.spaced, h.capped, h.onItsWay⟩

theorem StimulusController.Bounded.refuse {s : StimulusControl} {now : ℚ} {polling : Option ℚ}
    {bracket : Bracket} (action : String) (reason : Refusal)
    (h : s.controller.Bounded cfg now polling bracket) :
    (s.refuse cfg action reason).controller.Bounded cfg now polling bracket := by
  obtain ⟨episode, refused, shareRefusals, heq⟩ := s.refuse_spec cfg action reason
  rw [heq]
  exact h.episode episode

theorem Settled.liveSeeks {s : StimulusControl}
    (h : Settled accepted s.effector s.controller.awakeS) :
    (seeks = s.effector.seeks ∨ seeks = s.liveSeeks) →
      Settled accepted { s.effector with seeks := seeks } s.controller.awakeS := by
  rintro (rfl | rfl)
  · exact h
  · exact ⟨h.1, h.2.dropWhile⟩

/-- One step keeps both. -/
theorem Controlled.step (h : Controlled cfg r) (hstep : ControlStep cfg r label r') :
    Controlled cfg r' := by
  obtain ⟨hb, hp⟩ := h
  cases hstep with
  | pass d m => exact ⟨hb.later d.2, ⟨hp.spaced, hp.capped, hp.onItsWay⟩⟩
  | start =>
    refine ⟨hb.withClock ?_, ⟨hp.spaced, hp.capped, hp.onItsWay⟩⟩
    simp [ProgrammeClock.start, ProgrammeClock.withClock]
  | hold hne =>
    refine ⟨hb.withClock ?_, ⟨hp.spaced, hp.capped, hp.onItsWay⟩⟩
    simp [ProgrammeClock.pause, ProgrammeClock.withClock, hne.symm]
  | release hne =>
    refine ⟨hb.withClock ?_, ⟨hp.spaced, hp.capped, hp.onItsWay⟩⟩
    simp [ProgrammeClock.resume, ProgrammeClock.withClock, hne.symm]
  | readPoll hidle => exact ⟨hb.readPoll, ⟨hp.spaced, hp.capped, hp.onItsWay⟩⟩
  | @poll now hreading =>
    rw [hreading] at hb
    exact ⟨hb.pollOnce r.now r.mono, ⟨hp.spaced, hp.capped,
      hp.onItsWay.later (StimulusController.awakeS_pollOnce _ _ _ _)⟩⟩
  | @refused action reason s hidle hrefusal =>
    obtain ⟨⟨seeks, hseeks, rfl⟩, _⟩ := StimulusControl.refusal_spec hrefusal
    have hway := hp.onItsWay
    rw [hidle] at hway
    refine ⟨StimulusController.Bounded.refuse action reason hb,
      Paced.refuse action reason ⟨hp.spaced, hp.capped, ?_⟩⟩
    rw [hidle]
    exact Settled.liveSeeks hway hseeks
  | @checked action s hidle hrefusal =>
    obtain ⟨⟨seeks, hseeks, rfl⟩, hnone⟩ := StimulusControl.refusal_spec hrefusal
    obtain ⟨hinterval, hroom⟩ := hnone rfl
    have hway := hp.onItsWay
    rw [hidle] at hway
    exact ⟨hb, ⟨hp.spaced, hp.capped, Settled.liveSeeks hway hseeks, hinterval, hroom⟩⟩
  | @raised action made reason hchecked happly =>
    have hway := hp.onItsWay
    rw [hchecked] at hway
    exact ⟨StimulusController.Bounded.refuse action reason hb,
      Paced.refuse (r := { r with inFlight := none }) action reason ⟨hp.spaced, hp.capped, hway.1⟩⟩
  | @applied action made c hchecked happly =>
    have hway := hp.onItsWay
    rw [hchecked] at hway
    obtain ⟨hsettled, hinterval, hroom⟩ := hway
    have hawake := StimulusController.awakeS_apply happly
    have hearlier : ∀ a ∈ r.accepted, a.at? + cfg.minIntervalS ≤ made := by
      intro a ha
      obtain ⟨last, hlast, hle⟩ := hsettled.1 a ha
      exact (add_le_add_left hle _).trans (hinterval last hlast)
    refine ⟨hb.apply happly, ⟨List.pairwise_cons.mpr ⟨hearlier, hp.spaced⟩,
      capped_cons hp.capped hsettled.2 hroom, ?_⟩⟩
    refine ⟨_, _, rfl, hawake.ge, by rw [hawake]; exact hsettled, ?_⟩
    intro a ha
    have := hearlier a ha
    have := cfg.minInterval_pos
    linarith
  | @stamp action made happlied =>
    have hway := hp.onItsWay
    rw [happlied] at hway
    obtain ⟨m, rest, hacc, hm, hsettled, hrest⟩ := hway
    refine ⟨hb, ⟨hp.spaced, hp.capped, ?_⟩⟩
    rw [hacc]
    refine ⟨?_, ?_⟩
    · intro a ha
      refine ⟨made, rfl, ?_⟩
      rcases List.mem_cons.mp ha with rfl | ha
      · exact le_rfl
      · exact hrest a ha
    · exact hsettled.2.stamp action made hm

theorem Controlled.run (h : Controlled cfg r)
    (hrun : Transition.Run (ControlStep cfg) r labels r') : Controlled cfg r' :=
  hrun.invariant (fun hstep hs => hs.step hstep) h

theorem measuredProgramme_holders {durations : List ℚ} {segments : Option (List (ℕ × ℕ))}
    {clock : ProgrammeClock} (h : measuredProgramme durations segments = .ok clock) :
    clock.holders = ∅ := by
  have hprobe : ∀ (rest : List ℚ) (c : ProgrammeClock) (idx : ℕ),
      (c.probeDurations idx rest).holders = c.holders := by
    intro rest
    induction rest with
    | nil => exact fun _ _ => rfl
    | cons d ds ih =>
      intro c idx
      rw [ProgrammeClock.probeDurations, ih]
      simp only [ProgrammeClock.setDuration, ProgrammeClock.withClock]
      unfold Vision.PlaylistClock.setDuration
      split
      · split_ifs <;> rfl
      · rfl
  unfold measuredProgramme at h
  split at h
  · rename_i c hnew
    cases h
    rw [hprobe]
    unfold ProgrammeClock.new at hnew
    dsimp only at hnew
    split_ifs at hnew
    cases hnew
    rfl
  · cases h

theorem controlled_begin (cfg : StimulusControlConfig) {clock : ProgrammeClock}
    (hclock : entityHolder ∉ clock.holders)
    (now mono : ℚ) : Controlled cfg (.begin cfg clock now mono) := by
  have hgain : (0 : ℚ) ≤ cfg.gainMaxDb := cfg.gainStep_pos.le.trans cfg.gainStep_le
  have hroom : cfg.pauseMaxS ≤ cfg.pauseShareMax * 3600 :=
    (div_le_iff₀ (by norm_num)).mp cfg.pauseMax_fits
  constructor
  · refine ⟨⟨by simpa [ControlRun.begin, StimulusController.new] using hgain,
      ⟨fun h => absurd h hclock, fun h => by cases h⟩,
        ⟨[], by simp, .inl ⟨by simp [ControlRun.begin, StimulusController.new], rfl⟩⟩, le_rfl,
          fun t ht => (by cases ht), le_rfl,
      fun h => (by cases h), ?_⟩, fun p hp => by cases hp⟩
    simp only [StimulusController.held, ControlRun.begin, StimulusController.new, List.map_nil,
      List.sum_nil, Bracket.span, sub_self, add_zero, pauseShareWindowS, eps]
    linarith
  · exact ⟨.nil, fun a => Nat.zero_le _, fun a ha => (by cases ha), fun x _ => Nat.zero_le _⟩

/-- A control that a refused command leaves: what it counted, and without the seeks the hour has
passed. -/
def AfterRefusal (s s' : StimulusControl) : Prop :=
  ∃ seeks episode refused shareRefusals, (seeks = s.effector.seeks ∨ seeks = s.liveSeeks) ∧
    s' = { controller := { s.controller with shareEpisode := episode }
           effector := { s.effector with seeks := seeks }
           tally := { s.tally with refused := refused, pauseShareRefusals := shareRefusals } }

/-- A command that is not on its way after its check or its application was refused there. -/
theorem refused_step (hstep : ControlStep cfg r label r')
    (hlabel : label = .apply ∨ ∃ action, label = .check action) (hidle : r'.inFlight = none) :
    AfterRefusal r.control r'.control ∧ r'.now = r.now ∧ r'.mono = r.mono ∧
      r'.polling = r.polling ∧ r'.accepted = r.accepted := by
  cases hstep with
  | @refused action reason s _ hrefusal =>
    obtain ⟨⟨seeks, hseeks, rfl⟩, _⟩ := StimulusControl.refusal_spec hrefusal
    obtain ⟨episode, refused, shareRefusals, heq⟩ := StimulusControl.refuse_spec cfg
      { r.control with effector := { r.control.effector with seeks := seeks } } action reason
    refine ⟨⟨seeks, episode, refused, shareRefusals, hseeks, ?_⟩, rfl, rfl, rfl, rfl⟩
    exact heq
  | @raised action made reason _ _ =>
    obtain ⟨episode, refused, shareRefusals, heq⟩ :=
      r.control.refuse_spec cfg action reason
    exact ⟨⟨_, episode, refused, shareRefusals, .inl rfl, heq⟩, rfl, rfl, rfl, rfl⟩
  | checked => cases hidle
  | applied => cases hidle
  | pass => rcases hlabel with h | ⟨_, h⟩ <;> cases h
  | start => rcases hlabel with h | ⟨_, h⟩ <;> cases h
  | hold => rcases hlabel with h | ⟨_, h⟩ <;> cases h
  | release => rcases hlabel with h | ⟨_, h⟩ <;> cases h
  | readPoll => rcases hlabel with h | ⟨_, h⟩ <;> cases h
  | poll => rcases hlabel with h | ⟨_, h⟩ <;> cases h
  | stamp => rcases hlabel with h | ⟨_, h⟩ <;> cases h

/-- The effector's `act` is the steps of a command with nothing between them. -/
theorem act_run (hidle : r.inFlight = none) (action : String) :
    ∃ labels r', Transition.Run (ControlStep cfg) r labels r' ∧ r'.inFlight = none ∧
      r'.control = (r.control.act cfg action r.now r.mono).1 := by
  unfold StimulusControl.act
  rcases hcheck : r.control.refusal cfg action r.now r.mono with ⟨_ | reason, s⟩
  · have hchecked := ControlStep.checked r hidle hcheck
    dsimp only
    cases happly : s.controller.apply cfg action r.now r.mono with
    | error reason =>
      have hraised : ControlStep cfg _ _ _ := .raised
        { r with control := s, inFlight := some (.checked action r.now) } rfl happly
      exact ⟨_, _, .head hchecked (.single hraised), rfl, rfl⟩
    | ok c =>
      have happlied : ControlStep cfg _ _ _ := .applied
        { r with control := s, inFlight := some (.checked action r.now) } rfl happly
      exact ⟨_, _, .head hchecked (.head happlied (.single (.stamp _ rfl))), rfl, rfl⟩
  · exact ⟨_, _, .single (.refused r hidle hcheck), hidle, rfl⟩

/-- A poll that finds the entity's pause full ends it. -/
theorem poll_releases (h : Controlled cfg r) {t p : ℚ} (hreading : r.polling = some t)
    (hpaused : r.control.controller.entityPausedAt = some p) (hfull : p + cfg.pauseMaxS ≤ t)
    (hstep : ControlStep cfg r .poll r') :
    entityHolder ∉ r'.control.controller.clock.holders := by
  intro hstill
  have hafter := (h.step hstep).bounded
  cases hstep with
  | @poll now hnow =>
    cases hreading.symm.trans hnow
    have hsome := hafter.holds.mp hstill
    have hkept : (r.control.controller.pollOnce cfg t r.now r.mono).1.entityPausedAt = some p ∧
        (r.control.controller.pollOnce cfg t r.now r.mono).1.lastAccount = t := by
      cases hdue : (r.control.controller.account t r.mono).releaseDue cfg t with
      | true =>
        simp [StimulusController.pollOnce, hdue, StimulusController.prune,
          StimulusController.endEntityPause] at hsome
      | false =>
        simp only [StimulusController.pollOnce, hdue, Bool.false_eq_true, if_false]
        exact ⟨hpaused, rfl⟩
    have := hafter.released p hkept.1
    rw [hkept.2] at this
    linarith

/-- In every run of an accepted configuration: accepted commands keep the least interval, no
trailing awake hour holds more seeks than its cap, the gain stays in its range, a poll at or after a
pause's length ends it, the paused share is over its bound by no more than the polls around one
pause are too far apart, and a refused command leaves the rest of the state alone. -/
theorem stimulus_control_bounded {durations : List ℚ} {segments : Option (List (ℕ × ℕ))}
    {clock : ProgrammeClock} (hclock : measuredProgramme durations segments = .ok clock)
    {now mono : ℚ}
    (hrun : Transition.Run (ControlStep cfg) (.begin cfg clock now mono) labels r) :
    (r.accepted.Pairwise fun later earlier => earlier.at? + cfg.minIntervalS ≤ later.at?) ∧
      (∀ a, r.accepted.countP (fun x => x.isSeek && a - pauseShareWindowS < x.awake &&
        x.awake ≤ a) ≤ cfg.seeksPerAwakeHour) ∧
      |r.control.controller.gainDb| ≤ cfg.gainMaxDb ∧
      (∀ t p r', r.polling = some t → r.control.controller.entityPausedAt = some p →
        p + cfg.pauseMaxS ≤ t → ControlStep cfg r .poll r' →
          entityHolder ∉ r'.control.controller.clock.holders) ∧
      r.control.controller.pausedShare ≤
        cfg.pauseShareMax + eps + (r.bracket.span - cfg.pauseMaxS) / pauseShareWindowS ∧
      ∀ label r', ControlStep cfg r label r' → (label = .apply ∨ ∃ action, label = .check action) →
        r'.inFlight = none → AfterRefusal r.control r'.control ∧ r'.now = r.now ∧ r'.mono = r.mono ∧
          r'.polling = r.polling ∧ r'.accepted = r.accepted := by
  have hholders : entityHolder ∉ clock.holders := by simp [measuredProgramme_holders hclock]
  have h := (controlled_begin cfg hholders now mono).run hrun
  refine ⟨h.paced.spaced, h.paced.capped, h.bounded.gain, ?_, ?_, ?_⟩
  · intro t p r' hreading hpaused hfull hstep
    exact poll_releases h hreading hpaused hfull hstep
  · have hpos : (0 : ℚ) < pauseShareWindowS := by norm_num [pauseShareWindowS]
    have hshare := h.bounded.share
    have hbound : cfg.pauseShareMax + eps + (r.bracket.span - cfg.pauseMaxS) / pauseShareWindowS =
        (pauseShareWindowS * (cfg.pauseShareMax + eps) - cfg.pauseMaxS + r.bracket.span) /
          pauseShareWindowS := by
      field_simp
      ring
    rw [hbound, StimulusController.pausedShare]
    exact (div_le_div_iff_of_pos_right hpos).mpr hshare
  · intro label r' hstep hlabel hidle
    exact refused_step hstep hlabel hidle

/-- A share bound that one full pause uses up. -/
def onePause : StimulusControlConfig where
  enabled := true
  stage := stageMinimal
  minIntervalS := 30
  seeksPerAwakeHour := 20
  pauseMaxS := 120
  gainStepDb := 2
  gainMaxDb := 6
  pauseShareMax := 1 / 30
  channels := []
  minInterval_pos := by norm_num
  pauseMax_pos := by norm_num
  gainStep_pos := by norm_num
  gainStep_le := by norm_num
  gainMax_le := by norm_num [gainMaxBoundDb]
  pauseShare_pos := by norm_num
  pauseShare_le := by norm_num [pauseShareMaxBound]
  pauseMax_fits := by norm_num

theorem eq_ok_of_isSome {ε α : Type} {x : Except ε α} (h : x.toOption.isSome) :
    x = .ok (x.toOption.get h) := by
  cases x with
  | ok a => rfl
  | error e => cases h

/-- A pause is accepted and its length passes before the clock is read for a poll; half a minute
after that poll another pause is refused. -/
theorem pause_run : ∃ clock waiting polled later refused,
    measuredProgramme [1000] none = .ok clock ∧
    Transition.Run (ControlStep onePause) (.begin onePause clock 0 0)
      [.start, .check pauseAction, .apply, .stamp, .pass 120 120, .readPoll] waiting ∧
    ControlStep onePause waiting .poll polled ∧ ControlStep onePause polled (.pass 30 30) later ∧
    ControlStep onePause later (.check pauseAction) refused ∧ refused.inFlight = none ∧
    waiting.polling = some 120 ∧ waiting.control.controller.entityPausedAt = some 0 ∧
    entityHolder ∈ waiting.control.controller.clock.holders ∧
    later.control.controller.pausedShare = 1 / 30 := by
  refine ⟨_, _, _, _, _, eq_ok_of_isSome (by decide),
    .head (.start _) <| .head (.checked _ rfl (Prod.ext ?_ rfl)) <|
      .head (.applied _ rfl (eq_ok_of_isSome ?_)) <| .head (.stamp _ rfl) <|
      .head (.pass _ 120 120) <| .head (.readPoll _ rfl) (.refl _),
    .poll _ rfl, .pass _ 30 30,
    .refused _ ?_ (Prod.ext (y := (some (.pauseShare (1 / 30)), _)) ?_ rfl), ?_, ?_, ?_, ?_, ?_⟩
  all_goals decide +kernel

theorem stimulus_control_bounded_released : ∃ clock waiting polled later refused,
    measuredProgramme [1000] none = .ok clock ∧
    Transition.Run (ControlStep onePause) (.begin onePause clock 0 0)
      [.start, .check pauseAction, .apply, .stamp, .pass 120 120, .readPoll] waiting ∧
    ControlStep onePause waiting .poll polled ∧ ControlStep onePause polled (.pass 30 30) later ∧
    ControlStep onePause later (.check pauseAction) refused ∧
    (entityHolder ∈ waiting.control.controller.clock.holders ∧
      entityHolder ∉ polled.control.controller.clock.holders) ∧
    (later.control.controller.pausedShare = 1 / 30 ∧
      later.control.controller.pausedShare ≤ onePause.pauseShareMax + eps +
        (later.bracket.span - onePause.pauseMaxS) / pauseShareWindowS) ∧
    AfterRefusal later.control refused.control := by
  obtain ⟨clock, waiting, polled, later, refused, hclock, hrun, hpoll, hpass, hrefused, hidle,
    hreading, hpaused, hholds, hshare⟩ := pause_run
  obtain ⟨_, _, _, hreleased, _, _⟩ := stimulus_control_bounded hclock hrun
  obtain ⟨_, _, _, _, hbound, hafter⟩ := stimulus_control_bounded hclock
    ((hrun.append (.single hpoll)).append (.single hpass))
  exact ⟨clock, waiting, polled, later, refused, hclock, hrun, hpoll, hpass, hrefused,
    ⟨hholds, hreleased 120 0 polled hreading hpaused (by norm_num [onePause]) hpoll⟩,
    ⟨hshare, hbound⟩, (hafter _ _ hrefused (.inr ⟨_, rfl⟩) hidle).1⟩

/-- A pause taken ten seconds after the last poll is charged with them: the share passes its bound
though the pause ended before its length, and the next pause is refused, which opens a share
episode. -/
theorem share_over_bound_before_pause_max :
    ((measuredProgramme [10000] none).toOption.map fun clock =>
      let s : StimulusControl :=
        { controller := .new (clock.start 0) 0, tally := .new onePause }
      let paused := s.act onePause pauseAction 10 10
      let polled := (paused.1.controller.pollOnce onePause 129 129 129).1
      let refused := ({ paused.1 with controller := polled } : StimulusControl).act onePause
        pauseAction 200 200
      (paused.2, polled.entityPaused, polled.pausedShare, refused.2, polled.shareEpisode,
        refused.1.controller.shareEpisode)) =
      some (none, false, 129 / 3600, some (.pauseShare (129 / 3600)), false, true) := by
  decide +kernel

end Kaine.Effectors
