import Kaine.Cycle.WelfareMonitorSafety

/-! What the response to the welfare indicators is for: the phases that its effects go through, and
what each of them says of the effects before it. -/
namespace Kaine.Welfare
open WelfareIndicators Transition

/-- A requested rest. -/
structure Rest where
  id : String
  indicators : List Indicator
  deriving DecidableEq

/-- Where the response stands, for all indicators at once. -/
inductive Phase where
  | armed
  | resting (rest : Rest)
  | restarted (rest : Rest) (position : ℚ)
  | fresh (rest : Rest) (position : ℚ) (again : List Indicator)
  | failed
  | answered (reason : CrossingReason)
  | rearming

/-- The stage of the indicators; none while an escalation or a re-arm is under way. -/
def Phase.stage : Phase → Option IndicatorStage
  | .armed => some .armed
  | .resting _ => some .resting
  | .fresh _ _ _ => some .fresh
  | _ => none

/-- The effects that move no phase. -/
def Effect.besidesRest : Effect → Bool
  | .response reason => reason.ofDistress
  | .freeze reason => reason.crossing.ofDistress
  | .spansRestarted _ | .indicatorReset | .crossed _ _ => false
  | .record r =>
    match r with
    | .rearmed | .restRequested _ _ | .restStarted _ _ _ | .restFailed _ _ | .restCompleted _ _
    | .indicatorRearmed => false
    | _ => true
  | _ => true

def Rest.requested (rest : Rest) : Effect := .record (.restRequested rest.id rest.indicators)

def Rest.completed (rest : Rest) : Effect := .record (.restCompleted rest.id rest.indicators)

/-- The steps of the response: armed, resting, fresh, armed; an escalation out of any of them; and
back to armed with a notice or a re-arm. -/
inductive PhaseStep : Phase → Effect → Phase → Prop where
  | besides {p : Phase} {e : Effect} (he : e.besidesRest = true) (hp : p ≠ .rearming) :
      PhaseStep p e p
  | crossed {p : Phase} (indicators : List Indicator) (since : ℚ)
      (hp : p = .armed ∨ (∃ rest, p = .resting rest) ∨ ∃ reason, p = .answered reason) :
      PhaseStep p (.crossed indicators since) p
  | requested (rest : Rest) : PhaseStep .armed rest.requested (.resting rest)
  | started (rest : Rest) (standing : Bool) :
      PhaseStep (.resting rest) (.record (.restStarted rest.id rest.indicators standing))
        (.resting rest)
  | restarted (rest : Rest) (position : ℚ) :
      PhaseStep (.resting rest) (.spansRestarted position) (.restarted rest position)
  | completed (rest : Rest) (position : ℚ) :
      PhaseStep (.restarted rest position) rest.completed (.fresh rest position [])
  | crossedAgain (rest : Rest) (position : ℚ) (before again : List Indicator) (since : ℚ)
      (hs : position ≤ since) :
      PhaseStep (.fresh rest position before) (.crossed again since) (.fresh rest position again)
  | quiet (rest : Rest) (position : ℚ) (again : List Indicator) :
      PhaseStep (.fresh rest position again) (.record .indicatorRearmed) .armed
  | unavailable (failure : RestFailure) (indicators : List Indicator)
      (hf : failure = .sleepModuleNotRunning ∨ failure = .requestNotSent) :
      PhaseStep .armed (.record (.restFailed failure indicators)) .failed
  | failed (rest : Rest) (failure : RestFailure) :
      PhaseStep (.resting rest) (.record (.restFailed failure rest.indicators)) .failed
  | answersFailure : PhaseStep .failed (.response .restFailed) (.answered .restFailed)
  | answersSilence {p : Phase} (hp : p.stage.isSome) :
      PhaseStep p (.response .unavailable) (.answered .unavailable)
  | answersCrossing (rest : Rest) (position : ℚ) (name : Indicator) (others : List Indicator) :
      PhaseStep (.fresh rest position (name :: others)) (.response (.indicator name))
        (.answered (.indicator name))
  | frozen (reason : CrossingReason) (fallback : Option Fallback) :
      PhaseStep (.answered reason) (.freeze ⟨reason, fallback⟩) (.answered reason)
  | startsOver (reason : CrossingReason) : PhaseStep (.answered reason) .indicatorReset .armed
  | dropped {p : Phase} (hp : p.stage.isSome) : PhaseStep p .indicatorReset .rearming
  | rearmed {p : Phase} (hp : p = .rearming ∨ p = .armed) :
      PhaseStep p (.record .rearmed) .armed

/-- The effects so far, newest first, go through the phases to this one. -/
def Follows (log : List Effect) (p : Phase) : Prop := Run PhaseStep .armed log.reverse p

variable {log es fs : List Effect} {e : Effect} {p q : Phase} {rest : Rest}

theorem Follows.cons (h : Follows log p) (hs : PhaseStep p e q) : Follows (e :: log) q := by
  rw [Follows, List.reverse_cons]
  exact h.append (.single hs)

theorem Follows.last (h : Follows (e :: log) q) : ∃ p, Follows log p ∧ PhaseStep p e q := by
  rw [Follows, List.reverse_cons] at h
  exact Run.concat_iff.mp h

theorem Follows.besides (es : List Effect) (h : Follows log p) (hp : p ≠ .rearming)
    (he : ∀ e ∈ es, e.besidesRest = true) : Follows (es ++ log) p := by
  induction es with
  | nil => exact h
  | cons e es ih =>
    have hrest := ih fun x hx => he x (by simp [hx])
    exact hrest.cons (.besides (he e (by simp)) hp)

/-- The effects that begin anew. -/
def Effect.startsOver : Effect → Bool
  | .record (.restRequested _ _) | .record .indicatorRearmed | .indicatorReset => true
  | _ => false

def NoStart (es : List Effect) : Prop := ∀ e ∈ es, e.startsOver = false

theorem NoStart.concat (h : NoStart es) (he : e.startsOver = false) : NoStart (es ++ [e]) := by
  intro x hx
  rcases List.mem_append.mp hx with hx | hx
  · exact h x hx
  · rw [List.mem_singleton.mp hx, he]

/-- Since the latest start, which was the request of a rest, these effects came in this order. -/
def SinceRequest (rest : Rest) (es seen : List Effect) : Prop :=
  ∃ before since, es = before ++ rest.requested :: since ∧ NoStart since ∧ seen.Sublist since

theorem SinceRequest.request (rest : Rest) (es : List Effect) :
    SinceRequest rest (es ++ [rest.requested]) [] :=
  ⟨es, [], rfl, by simp [NoStart], .slnil⟩

theorem SinceRequest.concat {seen : List Effect} (h : SinceRequest rest es seen)
    (he : e.startsOver = false) :
    SinceRequest rest (es ++ [e]) seen ∧ SinceRequest rest (es ++ [e]) (seen ++ [e]) := by
  obtain ⟨before, since, rfl, hno, hseen⟩ := h
  have hsplit : before ++ rest.requested :: since ++ [e] =
      before ++ rest.requested :: (since ++ [e]) := by simp
  exact ⟨⟨before, since ++ [e], hsplit, hno.concat he, hseen.trans (List.sublist_append_left _ _)⟩,
    ⟨before, since ++ [e], hsplit, hno.concat he, hseen.append (.refl _)⟩⟩

/-- A rest that fails, or that cannot be requested. -/
def FailedToRest (es seen : List Effect) : Prop :=
  (∃ rest failure, SinceRequest rest es (.record (.restFailed failure rest.indicators) :: seen)) ∨
    ∃ before failure indicators since,
      es = before ++ .record (.restFailed failure indicators) :: since ∧ NoStart since ∧
      seen.Sublist since ∧ (failure = .sleepModuleNotRunning ∨ failure = .requestNotSent)

theorem FailedToRest.concat {seen : List Effect} (h : FailedToRest es seen)
    (he : e.startsOver = false) :
    FailedToRest (es ++ [e]) seen ∧ FailedToRest (es ++ [e]) (seen ++ [e]) := by
  rcases h with ⟨rest, failure, h⟩ | ⟨before, failure, indicators, since, rfl, hno, hseen, hf⟩
  · exact ⟨.inl ⟨rest, failure, (h.concat he).1⟩, .inl ⟨rest, failure, (h.concat he).2⟩⟩
  · have hsplit : before ++ .record (.restFailed failure indicators) :: since ++ [e] =
        before ++ .record (.restFailed failure indicators) :: (since ++ [e]) := by simp
    exact ⟨.inr ⟨before, failure, indicators, since ++ [e], hsplit, hno.concat he,
        hseen.trans (List.sublist_append_left _ _), hf⟩,
      .inr ⟨before, failure, indicators, since ++ [e], hsplit, hno.concat he,
        hseen.append (.refl _), hf⟩⟩

/-- The rest was completed, and the spans were restarted at its end. -/
def Rest.ended (rest : Rest) (position : ℚ) : List Effect :=
  [.spansRestarted position, rest.completed]

/-- A rest was completed, and over the spans since its end an indicator crossed. -/
def CrossedAfterRest (name : Indicator) (es : List Effect) : Prop :=
  ∃ rest position others since, position ≤ since ∧ SinceRequest rest es
    (rest.ended position ++ [.crossed (name :: others) since, .response (.indicator name)])

/-- What a phase says of the effects before it. -/
def Phase.Past : Phase → List Effect → Prop
  | .resting rest, es => SinceRequest rest es []
  | .restarted rest position, es => SinceRequest rest es [.spansRestarted position]
  | .fresh rest position again, es => SinceRequest rest es (rest.ended position) ∧
      (again = [] ∨ ∃ since, position ≤ since ∧
        SinceRequest rest es (rest.ended position ++ [.crossed again since]))
  | .failed, es => FailedToRest es []
  | .answered .restFailed, es => FailedToRest es [.response .restFailed]
  | .answered (.indicator name), es => CrossedAfterRest name es
  | _, _ => True

/-- An effect that begins nothing leaves the past of a phase true. -/
theorem Phase.Past.concat (h : p.Past es) (he : e.startsOver = false) : p.Past (es ++ [e]) := by
  cases p with
  | resting rest => exact (SinceRequest.concat h he).1
  | restarted rest position => exact (SinceRequest.concat h he).1
  | fresh rest position again =>
    refine ⟨(h.1.concat he).1, h.2.imp_right ?_⟩
    rintro ⟨since, hle, hsince⟩
    exact ⟨since, hle, (hsince.concat he).1⟩
  | failed => exact (FailedToRest.concat h he).1
  | answered reason =>
    cases reason with
    | restFailed => exact (FailedToRest.concat h he).1
    | indicator name =>
      obtain ⟨rest, position, others, since, hle, hsince⟩ := h
      exact ⟨rest, position, others, since, hle, (hsince.concat he).1⟩
    | _ => trivial
  | armed | rearming => trivial

theorem startsOver_of_besidesRest (he : e.besidesRest = true) : e.startsOver = false := by
  cases e with
  | record r => cases r <;> first | rfl | cases he
  | indicatorReset => cases he
  | _ => rfl

theorem PhaseStep.of_besidesRest (hs : PhaseStep p e q) (he : e.besidesRest = true) : q = p := by
  cases hs with
  | besides | crossed | started | frozen => rfl
  | _ => cases he

theorem PhaseStep.past (hs : PhaseStep p e q) (h : p.Past es) : q.Past (es ++ [e]) := by
  cases hs with
  | besides he => exact h.concat (startsOver_of_besidesRest he)
  | crossed | started | frozen => exact h.concat rfl
  | requested rest => exact SinceRequest.request rest es
  | restarted rest position => exact (SinceRequest.concat h rfl).2
  | completed rest position => exact ⟨(SinceRequest.concat h rfl).2, .inl rfl⟩
  | crossedAgain rest position before again since hle =>
    exact ⟨(h.1.concat rfl).1, .inr ⟨since, hle, (h.1.concat rfl).2⟩⟩
  | unavailable failure indicators hf =>
    exact .inr ⟨es, failure, indicators, [], rfl, by simp [NoStart], .slnil, hf⟩
  | failed rest failure => exact .inl ⟨rest, failure, (SinceRequest.concat h rfl).2⟩
  | answersFailure => exact (FailedToRest.concat h rfl).2
  | answersCrossing rest position name others =>
    rcases h.2 with hnone | ⟨since, hle, hsince⟩
    · cases hnone
    · refine ⟨rest, position, others, since, hle, ?_⟩
      have hnext := (hsince.concat (e := .response (.indicator name)) rfl).2
      rwa [List.append_assoc] at hnext
  | quiet | answersSilence | startsOver | dropped | rearmed => trivial

theorem past_of_run (h : Run PhaseStep .armed es p) : p.Past es :=
  h.concat_induction (P := fun es p => p.Past es) trivial fun hpast hs => hs.past hpast

/-- The completions of a rest, its failures, and the escalations, among some effects. -/
def completions (es : List Effect) : ℕ :=
  es.countP fun
    | .record (.restCompleted _ _) => true
    | _ => false

def failures (es : List Effect) : ℕ :=
  es.countP fun
    | .record (.restFailed _ _) => true
    | _ => false

def escalations (es : List Effect) : ℕ :=
  es.countP fun
    | .response reason => !reason.ofDistress
    | _ => false

/-- What a phase says of these three numbers since the request, before anything begins anew. -/
def Phase.Tally : Phase → ℕ → ℕ → ℕ → Prop
  | .resting _, c, f, x | .restarted _ _, c, f, x => c = 0 ∧ f = 0 ∧ x = 0
  | .fresh _ _ _, c, f, x => c = 1 ∧ f = 0 ∧ x = 0
  | .failed, c, f, x => c = 0 ∧ f = 1 ∧ x = 0
  | .answered _, c, f, x => c + f ≤ 1 ∧ x = 1
  | .armed, _, _, _ | .rearming, _, _, _ => False

def Phase.Counts (p : Phase) (es : List Effect) : Prop :=
  p.Tally (completions es) (failures es) (escalations es)

theorem Phase.Counts.concat
    (h : p.Tally (completions es + completions [e]) (failures es + failures [e])
      (escalations es + escalations [e])) : p.Counts (es ++ [e]) := by
  have hc : completions (es ++ [e]) = completions es + completions [e] := List.countP_append
  have hf : failures (es ++ [e]) = failures es + failures [e] := List.countP_append
  have hx : escalations (es ++ [e]) = escalations es + escalations [e] := List.countP_append
  rwa [Phase.Counts, hc, hf, hx]

theorem uncounted_of_besidesRest (he : e.besidesRest = true) :
    completions [e] = 0 ∧ failures [e] = 0 ∧ escalations [e] = 0 := by
  cases e with
  | record r => cases r <;> first | exact ⟨rfl, rfl, rfl⟩ | cases he
  | response reason =>
    refine ⟨rfl, rfl, ?_⟩
    have hd : reason.ofDistress = true := he
    rw [escalations, List.countP_singleton]
    simp [hd]
  | _ => exact ⟨rfl, rfl, rfl⟩

/-- Since a request, and before anything begins anew, no effect ends a rest a second time. -/
theorem PhaseStep.counts (hs : PhaseStep p e q) (he : e.startsOver = false) (h : p.Counts es) :
    q.Counts (es ++ [e]) := by
  apply Phase.Counts.concat
  cases hs with
  | besides hb =>
    obtain ⟨hc, hf, hx⟩ := uncounted_of_besidesRest hb
    rw [hc, hf, hx]
    exact h
  | crossed | started | frozen | crossedAgain | restarted => exact h
  | requested | quiet | startsOver | dropped => cases he
  | completed | failed =>
    obtain ⟨hc, hf, hx⟩ := h
    rw [hc, hf, hx]
    exact ⟨rfl, rfl, rfl⟩
  | answersFailure | answersCrossing =>
    obtain ⟨hc, hf, hx⟩ := h
    rw [hc, hf, hx]
    exact ⟨Nat.le_refl 1, rfl⟩
  | answersSilence hp =>
    cases p with
    | armed => exact h.elim
    | resting rest =>
      obtain ⟨hc, hf, hx⟩ := h
      rw [hc, hf, hx]
      exact ⟨Nat.zero_le 1, rfl⟩
    | fresh rest position again =>
      obtain ⟨hc, hf, hx⟩ := h
      rw [hc, hf, hx]
      exact ⟨Nat.le_refl 1, rfl⟩
    | _ => cases hp
  | unavailable => exact h.elim
  | rearmed hp => rcases hp with rfl | rfl <;> exact h.elim

theorem counts_of_run (h : Run PhaseStep (.resting rest) es p) (hno : NoStart es) :
    p.Counts es := by
  have hcounts : NoStart es → p.Counts es := by
    refine h.concat_induction (P := fun es p => NoStart es → p.Counts es) ?_ ?_
    · exact fun _ => ⟨rfl, rfl, rfl⟩
    · intro as q a r ih hs hno
      have hinit : NoStart as := fun x hx => hno x (by simp [hx])
      exact hs.counts (hno a (by simp)) (ih hinit)
  exact hcounts hno

/-- How a requested rest ends, by what follows its request up to the next beginning, what follows
that, and the phase at the end of all. -/
inductive RestEnd (newer after : List Effect) (p : Phase) : Prop where
  | outstanding (hafter : after = []) (hp : p.stage = some .resting) (hc : completions newer = 0)
      (hf : failures newer = 0) (hx : escalations newer = 0)
  | completed (hc : completions newer = 1) (hf : failures newer = 0) (hx : escalations newer ≤ 1)
  | escalated (hc : completions newer = 0) (hf : failures newer ≤ 1) (hx : escalations newer = 1)
  | dropped (hc : completions newer = 0) (hf : failures newer = 0) (hx : escalations newer = 0)
      (hafter : ∃ tail, after = .indicatorReset :: .record .rearmed :: tail)

/-- No escalation and no re-arm is half done. -/
def Phase.Settled (p : Phase) : Prop := p.stage.isSome ∨ ∃ reason, p = .answered reason

theorem RestEnd.of_answered {newer after : List Effect} {reason : CrossingReason}
    (h : (Phase.answered reason).Counts newer) : RestEnd newer after p := by
  obtain ⟨hle, hx⟩ := h
  by_cases hc : completions newer = 0
  · exact .escalated hc (by omega) hx
  · exact .completed (by omega) (by omega) (by omega)

theorem requested_inj {rest' : Rest} (h : rest.requested = rest'.requested) : rest = rest' := by
  cases rest
  cases rest'
  simp_all [Rest.requested]

theorem resting_of_requested (hs : PhaseStep p rest.requested q) : q = .resting rest := by
  generalize he : rest.requested = e at hs
  cases hs with
  | besides hb =>
    rw [← he] at hb
    cases hb
  | requested => rw [requested_inj he]
  | _ => cases he

/-- A re-arm that began is recorded before anything else. -/
theorem rearmed_of_run (h : Run PhaseStep .rearming es p) (hp : p.Settled) :
    ∃ tail, es = .record .rearmed :: tail := by
  cases h with
  | refl => rcases hp with hp | ⟨reason, hp⟩ <;> cases hp
  | head hs =>
    cases hs with
    | besides _ hne => exact absurd rfl hne
    | crossed _ _ hq => rcases hq with hq | ⟨rest, hq⟩ | ⟨reason, hq⟩ <;> cases hq
    | answersSilence hq | dropped hq => cases hq
    | rearmed => exact ⟨_, rfl⟩

/-- Exactly one of these ends comes to every rest, in whatever order things happen. -/
theorem restEnd_of_run {older newer after : List Effect}
    (h : Run PhaseStep .armed (older ++ rest.requested :: (newer ++ after)) p) (hp : p.Settled)
    (hno : NoStart newer)
    (hafter : after = [] ∨ ∃ e tail, after = e :: tail ∧ e.startsOver = true) :
    RestEnd newer after p := by
  obtain ⟨p₁, -, htail⟩ := h.split
  cases htail with
  | head hreq htail =>
    rw [resting_of_requested hreq] at htail
    obtain ⟨q, hnewer, hlast⟩ := htail.split
    have hcounts := counts_of_run hnewer hno
    rcases hafter with rfl | ⟨e, tail, rfl, he⟩
    · cases hlast
      rcases hp with hp | ⟨reason, rfl⟩
      · cases p with
        | armed => exact hcounts.elim
        | resting rest => exact .outstanding rfl rfl hcounts.1 hcounts.2.1 hcounts.2.2
        | fresh rest position again =>
          exact .completed hcounts.1 hcounts.2.1 (by rw [hcounts.2.2]; omega)
        | _ => cases hp
      · exact .of_answered hcounts
    · cases hlast with
      | head hs hend =>
        cases hs with
        | besides hb => exact absurd (startsOver_of_besidesRest hb) (by simp [he])
        | requested => exact hcounts.elim
        | quiet rest position again =>
          exact .completed hcounts.1 hcounts.2.1 (by rw [hcounts.2.2]; omega)
        | startsOver reason => exact .of_answered hcounts
        | dropped hq =>
          cases q with
          | armed => exact hcounts.elim
          | fresh rest position again =>
            exact .completed hcounts.1 hcounts.2.1 (by rw [hcounts.2.2]; omega)
          | resting rest =>
            obtain ⟨tail, rfl⟩ := rearmed_of_run hend hp
            exact .dropped hcounts.1 hcounts.2.1 hcounts.2.2 ⟨tail, rfl⟩
          | _ => cases hq
        | _ => cases he

/-- A freeze names an indicator only where it crossed over the spans since the end of a rest. -/
theorem crossedAfterRest_of_run {older newer : List Effect} {name : Indicator}
    {fallback : Option Fallback}
    (h : Run PhaseStep .armed (older ++ .freeze ⟨.indicator name, fallback⟩ :: newer) p) :
    CrossedAfterRest name older := by
  obtain ⟨q, holder, htail⟩ := h.split
  cases htail with
  | head hs =>
    cases hs with
    | besides he => cases he
    | frozen => exact past_of_run holder

theorem failedToRest_of_run {older newer : List Effect} {fallback : Option Fallback}
    (h : Run PhaseStep .armed (older ++ .freeze ⟨.restFailed, fallback⟩ :: newer) p) :
    FailedToRest older [.response .restFailed] := by
  obtain ⟨q, holder, htail⟩ := h.split
  cases htail with
  | head hs =>
    cases hs with
    | besides he => cases he
    | frozen => exact past_of_run holder

end Kaine.Welfare
