import Kaine.Cycle.IndicatorArm
import Kaine.Cycle.WelfareResponseSafety

/-! What the indicator arm can do, as the steps of a transition system: a poll of the arm takes only
these steps. -/
namespace Kaine.Welfare
open Py WelfareIndicators Routine Relation

variable {cfg : Config} {inputs : ℕ → ResponseInput} {input : ArmInput} {w w' t u : World}

/-- The effects that no stage and no latch depends on. -/
def Effect.isRemark : Effect → Bool
  | .notice _ => true
  | .record (.indicatorsUnavailable _) => true
  | _ => false

/-- The crossing that an evaluation just found, over spans that count from a position. -/
def JustCrossed (w : World) (indicators : List Indicator) (since : ℚ) : Prop :=
  ∃ remarks older, w.log = remarks ++ .crossed indicators since :: older ∧
    ∀ e ∈ remarks, e.isRemark = true

/-- A rest fails before it is requested, or it is the one that was. -/
def RestFails (arm : IndicatorArm) (failure : RestFailure) (indicators : List Indicator) : Prop :=
  (arm.stage = .armed ∧ (failure = .sleepModuleNotRunning ∨ failure = .requestNotSent)) ∨
    (arm.stage = .resting ∧
      ∃ request, arm.request = some request ∧ indicators = request.indicators)

/-- An escalation: the response, and the reset after one that was a notice. A raising read-back
leaves the arm as it was. -/
inductive Escalated (cfg : Config) (r : ResponseInput) (reason : CrossingReason) (w : World) :
    World → Prop where
  | held {t : World} (h : Responded cfg r reason w t) (ha : t.latch.acted = true) :
      Escalated cfg r reason w t
  | raised {t : World} (h : Responded cfg r reason w t)
      (hr : ∃ ok, r.freeze = .returns ok .raises) : Escalated cfg r reason w t
  | reset {t : World} (h : Responded cfg r reason w t) (hn : cfg.action = .notify)
      (arm : IndicatorArm) (hstage : arm.stage = .armed) (hrequest : arm.request = none) :
      Escalated cfg r reason w { t with arm, log := .indicatorReset :: t.log }

/-- The steps of the arm. All but the first three act, and none acts while the latch holds. -/
inductive ArmDoes (cfg : Config) (inputs : ℕ → ResponseInput) (w : World) : World → Prop where
  | tend (arm : IndicatorArm) (hstage : arm.stage = w.arm.stage)
      (hrequest : arm.request = w.arm.request)
      (hspans : arm.evaluator.restartPos = w.arm.evaluator.restartPos) :
      ArmDoes cfg inputs w { w with arm }
  | remark (e : Effect) (he : e.isRemark = true) :
      ArmDoes cfg inputs w { w with log := e :: w.log }
  | crossed (indicators : List Indicator) (since : ℚ)
      (hsince : w.arm.evaluator.restartPos ≤ since) :
      ArmDoes cfg inputs w { w with log := .crossed indicators since :: w.log }
  | request (ha : w.latch.acted = false) (hs : w.arm.stage = .armed) (request : RestRequest)
      (hr : request.started = false ∧ request.standing = false) :
      ArmDoes cfg inputs w { w with
        arm := { w.arm with request := some request, stage := .resting }
        log := .record (.restRequested request.requestId request.indicators) :: w.log }
  | begin (ha : w.latch.acted = false) (hs : w.arm.stage = .resting) (request : RestRequest)
      (hr : w.arm.request = some request) (standing : Bool) (restU boundS : ℚ) :
      ArmDoes cfg inputs w { w with
        arm := { w.arm with request := some (request.began standing restU boundS) }
        log := .record (.restStarted request.requestId request.indicators standing) :: w.log }
  | complete (ha : w.latch.acted = false) (hs : w.arm.stage = .resting) (request : RestRequest)
      (hr : w.arm.request = some request) :
      ArmDoes cfg inputs w { w with
        arm := { w.arm with
          evaluator := w.arm.evaluator.restart, stage := .fresh, request := none }
        log := .record (.restCompleted request.requestId request.indicators) ::
          .spansRestarted w.arm.evaluator.pos :: w.log }
  | quiet (ha : w.latch.acted = false) (hs : w.arm.stage = .fresh) :
      ArmDoes cfg inputs w { w with
        arm := { w.arm with stage := .armed }, log := .record .indicatorRearmed :: w.log }
  | unavailable {t : World} (ha : w.latch.acted = false)
      (h : Escalated cfg (inputs w.responses) .unavailable w t) : ArmDoes cfg inputs w t
  | restFailed {t : World} (ha : w.latch.acted = false) (failure : RestFailure)
      (indicators : List Indicator) (hf : RestFails w.arm failure indicators)
      (h : Escalated cfg (inputs w.responses) .restFailed
        { w with log := .record (.restFailed failure indicators) :: w.log } t) :
      ArmDoes cfg inputs w t
  | freshCrossing {t : World} (ha : w.latch.acted = false) (hs : w.arm.stage = .fresh)
      (name : Indicator) (indicators : List Indicator) (since : ℚ)
      (hx : JustCrossed w (name :: indicators) since)
      (hsince : w.arm.evaluator.restartPos ≤ since)
      (h : Escalated cfg (inputs w.responses) (.indicator name) w t) : ArmDoes cfg inputs w t

def ArmPath (cfg : Config) (inputs : ℕ → ResponseInput) : World → World → Prop :=
  ReflTransGen (ArmDoes cfg inputs)

/-- Changes of the arm that leave the stages and the start of the spans alone. -/
structure Tends (w t : World) : Prop where
  stage : t.arm.stage = w.arm.stage
  request : t.arm.request = w.arm.request
  spans : t.arm.evaluator.restartPos = w.arm.evaluator.restartPos
  rest : t = { w with arm := t.arm }

theorem Tends.refl (w : World) : Tends w w := ⟨rfl, rfl, rfl, rfl⟩

theorem Tends.trans (h : Tends w t) (h' : Tends t u) : Tends w u := by
  refine ⟨h'.stage.trans h.stage, h'.request.trans h.request, h'.spans.trans h.spans, ?_⟩
  have hu := h'.rest
  rw [h.rest] at hu
  exact hu

theorem Tends.path (h : Tends w t) : ArmPath cfg inputs w t := by
  rw [h.rest]
  exact ReflTransGen.single (.tend _ h.stage h.request h.spans)

theorem Tends.latch (h : Tends w t) : t.latch = w.latch := by rw [h.rest]

theorem Tends.log (h : Tends w t) : t.log = w.log := by rw [h.rest]

theorem keeps_modifyArm {f : IndicatorArm → IndicatorArm} (hs : ∀ arm, (f arm).stage = arm.stage)
    (hr : ∀ arm, (f arm).request = arm.request)
    (hp : ∀ arm, (f arm).evaluator.restartPos = arm.evaluator.restartPos) :
    Keeps (Tends w) (modifyArm f) := by
  intro t ht
  exact ht.trans ⟨hs _, hr _, hp _, rfl⟩

theorem keeps_awakeNow (reading : Reading) (uNow : ℚ) :
    Keeps (Tends w) (awakeNow reading uNow) := by
  cases reading with
  | absent => exact .pure _
  | raises => exact .throw _
  | reads value =>
    apply Keeps.get_bind
    intro s hs
    have hstore : Keeps (Tends w)
        (modifyArm fun arm => { arm with awakeHigh := some value }) :=
      keeps_modifyArm (fun _ => rfl) (fun _ => rfl) (fun _ => rfl)
    cases s.arm.awakeHigh with
    | none => exact (hstore.bind fun _ => .pure _) s hs
    | some high =>
      simp only [wp_ite]
      refine ⟨fun _ => (hstore.bind fun _ => .pure _) s hs, fun _ => ⟨fun _ => hs, fun _ => hs⟩⟩

theorem keeps_scaleNow (scale : Reading) : Keeps (Tends w) (scaleNow scale) := by
  cases scale with
  | absent => exact .pure _
  | raises => exact .throw _
  | reads value =>
    intro s hs
    simp [scaleNow, hs]

theorem keeps_tickRestClock (scale : Reading) (uNow : ℚ) :
    Keeps (Tends w) (tickRestClock scale uNow) := by
  have hlast : Keeps (Tends w) (modifyArm fun arm => { arm with restULast := some uNow }) :=
    keeps_modifyArm (fun _ => rfl) (fun _ => rfl) (fun _ => rfl)
  apply Keeps.get_bind
  intro s hs
  cases s.arm.restULast with
  | none => exact hlast s hs
  | some last =>
    have hrest : ∀ x : ℚ, Keeps (Tends w)
        (modifyArm fun arm => { arm with restU := arm.restU + max 0 (uNow - last) * x }) :=
      fun x => keeps_modifyArm (fun _ => rfl) (fun _ => rfl) (fun _ => rfl)
    exact ((keeps_scaleNow scale).bind fun x => (hrest x).bind fun _ => hlast) s hs

theorem keeps_seedCursors (seed : BusRead (Bus.EntryId × Bus.EntryId)) :
    Keeps (Tends w) (seedCursors seed) := by
  apply Keeps.get_bind
  intro s hs
  rw [wp_ite]
  refine ⟨fun _ => hs, fun _ => ?_⟩
  cases seed with
  | timeout | failed => exact hs
  | read tails =>
    have hstore : Keeps (Tends w) (modifyArm fun arm =>
        { arm with affectCursor := some tails.1, sleepCursor := some tails.2 }) :=
      keeps_modifyArm (fun _ => rfl) (fun _ => rfl) (fun _ => rfl)
    exact (hstore.bind fun _ => .pure _) s hs

theorem keeps_readStream (read : BusRead (List Bus.Event × Bus.EntryId))
    {store : Bus.EntryId → IndicatorArm → IndicatorArm}
    (hstore : ∀ c, Keeps (Tends w) (modifyArm (store c))) :
    Keeps (Tends w) (readStream read store) := by
  cases read with
  | timeout => exact .throw _
  | failed => exact .pure _
  | read found => exact (hstore _).bind fun _ => .pure _

theorem keeps_feed (time : ℚ) (stream : ArmStream) (event : Bus.Event) :
    Keeps (Tends w) (feed time stream event) := by
  intro s hs
  cases stream with
  | sleep =>
    have hstart : Keeps (Tends w) (modifyArm fun arm =>
        { arm with evaluator := arm.evaluator.excludeStart .sleep time }) :=
      keeps_modifyArm (fun _ => rfl) (fun _ => rfl) (fun _ => by simp)
    have hend : Keeps (Tends w) (modifyArm fun arm =>
        { arm with evaluator := arm.evaluator.excludeEnd .sleep time }) :=
      keeps_modifyArm (fun _ => rfl) (fun _ => rfl) (fun _ => by simp)
    simp only [feed, feedSleep, wp_ite]
    refine ⟨fun _ => (hstart.bind fun _ => .pure _) s hs, fun _ =>
      ⟨fun _ => (hend.bind fun _ => .pure _) s hs, fun _ => ⟨fun _ => hs, fun _ => hs⟩⟩⟩
  | affect =>
    simp only [feed, feedAffect, wp_bind, wp_ite, wp_pure, wp_get]
    refine ⟨fun _ => ?_, fun _ => hs⟩
    cases he : s.arm.evaluator.observeState time event.payload with
    | error e => exact hs
    | ok evaluator => exact hs.trans ⟨rfl, rfl, s.arm.evaluator.restartPos_observeState _ _ he, rfl⟩

theorem keeps_feedAll (time : Bus.Event → ℚ) (events : List (ArmStream × Bus.Event)) :
    Keeps (Tends w) (feedAll time events) := by
  induction events with
  | nil => exact .pure _
  | cons x rest ih =>
    exact (keeps_feed _ _ _).bind fun _ => ih.bind fun _ => .pure _

theorem keeps_readSignals (input : ArmInput) (aNow : ℚ) :
    Keeps (Tends w) (readSignals input aNow) := by
  have hsleep : ∀ c : Bus.EntryId, Keeps (Tends w)
      (modifyArm fun arm => { arm with sleepCursor := some c }) :=
    fun c => keeps_modifyArm (fun _ => rfl) (fun _ => rfl) (fun _ => rfl)
  have haffect : ∀ c : Bus.EntryId, Keeps (Tends w)
      (modifyArm fun arm => { arm with affectCursor := some c }) :=
    fun c => keeps_modifyArm (fun _ => rfl) (fun _ => rfl) (fun _ => rfl)
  refine (keeps_seedCursors _).bind fun seeded => ?_
  cases seeded with
  | false => exact .pure _
  | true =>
    refine (keeps_readStream _ hsleep).bind fun _ => (keeps_readStream _ haffect).bind fun _ => ?_
    exact Keeps.get_bind fun s hs => keeps_feedAll _ _ s hs

/-- Whatever a poll reads, taking it in moves no stage and restarts no span. -/
theorem keeps_ingest (input : ArmInput) : Keeps (Tends w) (ingest input) := by
  have hadvance : ∀ a : ℚ, Keeps (Tends w) (modifyArm fun arm =>
      { arm with evaluator := arm.evaluator.advance a, prev := some ⟨input.wNow, a⟩ }) :=
    fun a => keeps_modifyArm (fun _ => rfl) (fun _ => rfl) (fun _ => by simp)
  exact (keeps_awakeNow _ _).bind fun a => (keeps_readSignals _ _).bind fun _ =>
    (hadvance a).bind fun _ => .pure _

section
variable {s : World}

/-- From here on the program takes only steps of the arm. -/
def Reaches {α : Type} (cfg : Config) (inputs : ℕ → ResponseInput) (w : World) (x : Poll α)
    (s : World) : Prop :=
  wp x (fun _ => ArmPath cfg inputs w) (fun _ => ArmPath cfg inputs w) s

/-- An escalation is one step: the response, and where that was a notice the reset after it. -/
theorem reaches_escalate {reason : CrossingReason} {indicators : List Indicator}
    (hstep : ∀ t, Escalated cfg (inputs s.responses) reason s t → ArmPath cfg inputs w t) :
    Reaches cfg inputs w (indicatorEscalate cfg input inputs reason indicators) s := by
  simp only [Reaches, indicatorEscalate, wp_bind]
  refine wp_mono (wp_and (respond_does cfg inputs reason _ s)
    (respond_faults cfg inputs reason _ s)) ?_ fun _ t ht => hstep t (.raised ht.1 ht.2)
  rintro _ t ⟨⟨ht, hlatched⟩, -⟩
  simp only [wp_get, wp_ite, wp_pure]
  refine ⟨fun ha => ?_, fun ha => hstep t (.held ht (by simpa using ha))⟩
  have hn : cfg.action = .notify := by
    by_contra hne
    rw [hlatched hne] at ha
    cases ha
  exact hstep _ (.reset ht hn _ rfl rfl)

theorem reaches_restFailed {failure : RestFailure} {indicators : List Indicator}
    (hp : ArmPath cfg inputs w s) (ha : s.latch.acted = false)
    (hf : RestFails s.arm failure indicators) :
    Reaches cfg inputs w (indicatorRestFailed cfg input inputs failure indicators) s := by
  simp only [Reaches, indicatorRestFailed, emit, wp_bind, wp_modify]
  exact reaches_escalate fun t ht => hp.tail (.restFailed ha failure indicators hf ht)

theorem reaches_requestRest {crossed : List Indicator} (hp : ArmPath cfg inputs w s)
    (ha : s.latch.acted = false) (hs : s.arm.stage = .armed) :
    Reaches cfg inputs w (requestRest cfg input inputs crossed) s := by
  unfold Reaches requestRest
  simp only [wp_ite]
  refine ⟨fun _ => reaches_restFailed hp ha (.inl ⟨hs, .inl rfl⟩), fun _ =>
    ⟨fun _ => reaches_restFailed hp ha (.inl ⟨hs, .inr rfl⟩), fun _ => ?_⟩⟩
  simp only [modifyArm, emit, wp_bind, wp_modify]
  exact (hp.tail (.request ha hs _ ⟨rfl, rfl⟩)).tail (.remark _ rfl)

/-- The signals of the sleep module end the rest or leave it outstanding. -/
theorem reaches_restSignals {signals : List SleepSignal} {request : RestRequest}
    (hp : ArmPath cfg inputs w s) (ha : s.latch.acted = false) (hs : s.arm.stage = .resting)
    (hr : s.arm.request = some request) :
    wp (restSignals cfg input inputs signals request)
      (fun ended t => ArmPath cfg inputs w t ∧
        (ended = false → t.latch.acted = false ∧ t.arm.stage = .resting))
      (fun _ => ArmPath cfg inputs w) s := by
  induction signals generalizing request s with
  | nil => exact ⟨hp, fun _ => ⟨ha, hs⟩⟩
  | cons signal rest ih =>
    rw [restSignals]
    cases judgeSignal request signal with
    | ignored => exact ih hp ha hs hr
    | began standing =>
      simp only [modifyArm, emit, wp_bind, wp_get, wp_modify]
      exact ih (hp.tail (.begin ha hs request hr standing _ _)) ha hs rfl
    | failed failure =>
      simp only [wp_bind, wp_pure]
      have hf : RestFails s.arm failure request.indicators := .inr ⟨hs, request, hr, rfl⟩
      refine wp_mono (reaches_restFailed hp ha hf) ?_ fun _ _ ht => ht
      intro _ t ht
      exact ⟨ht, by simp⟩
    | completed =>
      simp only [completeRest, modifyArm, emit, wp_bind, wp_get, wp_modify, wp_pure]
      exact ⟨hp.tail (.complete ha hs request hr), by simp⟩

theorem reaches_checkRestBounds {request : RestRequest} (hp : ArmPath cfg inputs w s)
    (ha : s.latch.acted = false) (hs : s.arm.stage = .resting)
    (hr : s.arm.request = some request) :
    Reaches cfg inputs w (checkRestBounds cfg input inputs request) s := by
  simp only [Reaches, checkRestBounds, wp_bind, wp_get]
  cases overdue cfg input s.arm.restU request with
  | none => exact hp
  | some failure => exact reaches_restFailed hp ha (.inr ⟨hs, request, hr, rfl⟩)

/-- What an evaluation and its remarks leave of a world. -/
structure Judged (s t : World) : Prop where
  latch : t.latch = s.latch
  stage : t.arm.stage = s.arm.stage
  request : t.arm.request = s.arm.request
  spans : t.arm.evaluator.restartPos = s.arm.evaluator.restartPos

theorem reaches_evaluateIndicators (hp : ArmPath cfg inputs w s) :
    wp evaluateIndicators
      (fun ev t => ArmPath cfg inputs w t ∧ Judged s t ∧
        (ev.crossed ≠ [] → ∃ since, JustCrossed t ev.crossed since ∧
          t.arm.evaluator.restartPos ≤ since))
      (fun _ => ArmPath cfg inputs w) s := by
  simp only [evaluateIndicators, modifyArm, emit, wp_bind, wp_get, wp_modify, wp_ite, wp_pure]
  have htend : ArmPath cfg inputs w
      { s with arm := { s.arm with evaluator := s.arm.evaluator.evaluate.2 } } :=
    hp.tail (.tend _ rfl rfl (by simp))
  have hle := s.arm.evaluator.evaluate.2.restartPos_le_windowStart
  have hjudged : ∀ log, Judged s
      { s with arm := { s.arm with evaluator := s.arm.evaluator.evaluate.2 }, log } :=
    fun _ => ⟨rfl, rfl, rfl, by simp⟩
  refine ⟨fun _ => ⟨htend.tail (.crossed _ _ hle), hjudged _, fun _ => ?_⟩,
    fun hnone => ⟨htend, hjudged _, fun hsome => absurd hsome hnone⟩⟩
  exact ⟨_, ⟨[], s.log, rfl, by simp⟩, hle⟩

theorem JustCrossed.remark {indicators : List Indicator} {since : ℚ} {e : Effect}
    (h : JustCrossed s indicators since) (he : e.isRemark = true) (hlog : t.log = e :: s.log) :
    JustCrossed t indicators since := by
  obtain ⟨remarks, older, heq, hall⟩ := h
  refine ⟨e :: remarks, older, by rw [hlog, heq]; rfl, ?_⟩
  intro x hx
  rcases List.mem_cons.mp hx with rfl | hx
  · exact he
  · exact hall x hx

/-- A world that differs in remarks and in what no stage depends on. -/
structure Remarked (s t : World) : Prop extends Judged s t where
  crossed : ∀ indicators since, JustCrossed s indicators since → JustCrossed t indicators since

theorem reaches_noteUnavailable (hp : ArmPath cfg inputs w s) :
    wp noteUnavailable (fun _ t => ArmPath cfg inputs w t ∧ Remarked s t)
      (fun _ => ArmPath cfg inputs w) s := by
  simp only [noteUnavailable, modifyArm, emit, wp_bind, wp_get, wp_modify, wp_ite, wp_pure]
  refine ⟨fun _ => ⟨?_, ⟨rfl, rfl, rfl, rfl⟩, ?_⟩,
    fun _ => ⟨hp, ⟨rfl, rfl, rfl, rfl⟩, fun _ _ h => h⟩⟩
  · have htend := hp.tail (.tend { s.arm with unavailableNotified := true } rfl rfl rfl)
    exact (htend.tail (.remark (.record (.indicatorsUnavailable s.arm.evaluator.silentS)) rfl)).tail
      (.remark _ rfl)
  · intro indicators since h
    have hrecord : JustCrossed
        { s with log := .record (.indicatorsUnavailable s.arm.evaluator.silentS) :: s.log }
        indicators since := h.remark rfl rfl
    exact hrecord.remark rfl rfl

theorem reaches_indicatorAvailability {ev : Evaluation} (hp : ArmPath cfg inputs w s)
    (ha : s.latch.acted = false) :
    wp (indicatorAvailability cfg input inputs ev)
      (fun silent t => ArmPath cfg inputs w t ∧ (silent = false → Remarked s t))
      (fun _ => ArmPath cfg inputs w) s := by
  simp only [indicatorAvailability, wp_ite]
  refine ⟨fun _ => ?_, fun _ => ?_⟩
  · simp only [modifyArm, wp_bind, wp_modify, wp_pure]
    exact ⟨hp.tail (.tend _ rfl rfl rfl), fun _ => ⟨⟨rfl, rfl, rfl, rfl⟩, fun _ _ h => h⟩⟩
  · rw [wp_bind]
    refine wp_mono (reaches_noteUnavailable hp) ?_ fun _ _ ht => ht
    rintro - t ⟨ht, hremarked⟩
    simp only [wp_bind, wp_get, wp_ite, wp_pure]
    refine ⟨fun _ => ?_, fun _ => ⟨ht, fun _ => hremarked⟩⟩
    have hat : t.latch.acted = false := by rw [hremarked.latch, ha]
    refine wp_mono (reaches_escalate fun u hu => ht.tail (.unavailable hat hu)) ?_ fun _ _ hu => hu
    exact fun _ u hu => ⟨hu, by simp⟩

theorem reaches_judgeStage {ev : Evaluation} (hp : ArmPath cfg inputs w s)
    (ha : s.latch.acted = false)
    (hx : ev.crossed ≠ [] →
      ∃ since, JustCrossed s ev.crossed since ∧ s.arm.evaluator.restartPos ≤ since) :
    Reaches cfg inputs w (judgeStage cfg input inputs ev) s := by
  simp only [Reaches, judgeStage, wp_bind, wp_get]
  cases hs : s.arm.stage with
  | resting => exact hp
  | armed =>
    cases hc : ev.crossed with
    | nil => exact hp
    | cons name rest => exact reaches_requestRest hp ha hs
  | fresh =>
    cases hc : ev.crossed with
    | nil =>
      simp only [modifyArm, emit, wp_bind, wp_modify, wp_ite, wp_pure]
      exact ⟨fun _ => hp.tail (.quiet ha hs), fun _ => hp⟩
    | cons name rest =>
      obtain ⟨since, hcross, hsince⟩ := hx (by simp [hc])
      rw [hc] at hcross
      exact reaches_escalate fun t ht =>
        hp.tail (.freshCrossing ha hs name rest since hcross hsince ht)

theorem reaches_judge (hp : ArmPath cfg inputs w s) (ha : s.latch.acted = false) :
    Reaches cfg inputs w (judge cfg input inputs) s := by
  rw [Reaches, judge, wp_bind]
  refine wp_mono (reaches_evaluateIndicators hp) ?_ fun _ _ ht => ht
  rintro ev t ⟨ht, hjudged, hcrossed⟩
  have hat : t.latch.acted = false := by rw [hjudged.latch, ha]
  rw [wp_bind]
  refine wp_mono (reaches_indicatorAvailability ht hat) ?_ fun _ _ hu => hu
  rintro silent u ⟨hu, hremarked⟩
  cases silent with
  | true => exact hu
  | false =>
    have hr := hremarked rfl
    have hau : u.latch.acted = false := by rw [hr.latch, hat]
    refine reaches_judgeStage hu hau fun hc => ?_
    obtain ⟨since, hjust, hsince⟩ := hcrossed hc
    exact ⟨since, hr.crossed _ since hjust, hr.spans ▸ hsince⟩

theorem reaches_awaitRest {signals : List SleepSignal} {request : RestRequest}
    (hp : ArmPath cfg inputs w s) (ha : s.latch.acted = false) (hs : s.arm.stage = .resting)
    (hr : s.arm.request = some request) :
    Reaches cfg inputs w (awaitRest cfg input inputs signals request) s := by
  rw [Reaches, awaitRest, wp_bind]
  refine wp_mono (reaches_restSignals hp ha hs hr) ?_ fun _ _ ht => ht
  rintro ended t ⟨ht, hopen⟩
  simp only [wp_bind, wp_get, wp_ite, wp_pure]
  refine ⟨fun _ => ht, fun hat => ⟨fun _ => reaches_judge ht (by simpa using hat),
    fun hended => ?_⟩⟩
  obtain ⟨hat, hst⟩ := hopen (by simpa using hended)
  refine wp_mono (reaches_evaluateIndicators ht) ?_ fun _ _ hu => hu
  rintro ev u ⟨hu, hjudged, -⟩
  cases hrt : t.arm.request with
  | none => exact hu
  | some request =>
    exact reaches_checkRestBounds hu (by rw [hjudged.latch, hat]) (by rw [hjudged.stage, hst])
      (by rw [hjudged.request, hrt])

theorem reaches_indicatorPollInner (hp : ArmPath cfg inputs w s) (ha : s.latch.acted = false) :
    Reaches cfg inputs w (indicatorPollInner cfg input inputs) s := by
  simp only [Reaches, indicatorPollInner, wp_bind]
  refine wp_mono (keeps_tickRestClock _ _ s (.refl s)) ?_ fun _ t ht => hp.trans ht.path
  intro _ t ht
  refine wp_mono (keeps_ingest input t ht) ?_ fun _ u hu => hp.trans hu.path
  intro signals u hu
  have hpu : ArmPath cfg inputs w u := hp.trans hu.path
  have hau : u.latch.acted = false := by rw [hu.latch, ha]
  rw [wp_get]
  cases hs : u.arm.stage with
  | armed | fresh => exact reaches_judge hpu hau
  | resting =>
    cases hr : u.arm.request with
    | some request => exact reaches_awaitRest hpu hau hs hr
    | none =>
      rw [wp_bind]
      exact wp_mono (reaches_evaluateIndicators hpu) (fun _ _ hv => hv.1) fun _ _ hv => hv

/-- A poll of the arm, begun while the latch is free, takes only steps of the arm. -/
theorem reaches_indicatorPoll (hp : ArmPath cfg inputs w s) (ha : s.latch.acted = false) :
    Reaches cfg inputs w (indicatorPoll cfg input inputs) s := by
  have hclear : ∀ {t}, ArmPath cfg inputs w t → ∀ since,
      ArmPath cfg inputs w { t with arm := { t.arm with errorSinceU := since } } :=
    fun ht _ => ht.tail (.tend _ rfl rfl rfl)
  simp only [Reaches, indicatorPoll, wp_tryCatch, wp_bind]
  refine wp_mono (reaches_indicatorPollInner hp ha) (fun _ t ht => hclear ht none) ?_
  intro fault t ht
  simp only [wp_ite, wp_throw]
  refine ⟨fun _ => ht, fun _ => ?_⟩
  simp only [indicatorPollFailed, modifyArm, wp_bind, wp_get]
  cases t.arm.errorSinceU with
  | none => exact hclear ht (some _)
  | some since =>
    simp only [wp_ite, wp_bind, wp_modify, wp_pure]
    refine ⟨?_, fun _ => ht⟩
    rintro ⟨_, hat⟩
    exact reaches_escalate fun u hu => (hclear ht none).tail (.unavailable hat hu)

/-- In warm-up the arm only tends. -/
theorem keeps_indicatorAccrue (input : ArmInput) : Keeps (Tends w) (indicatorAccrue input) := by
  intro s hs
  simp only [indicatorAccrue, wp_tryCatch]
  have hfeed : Keeps (Tends w) (do
      tickRestClock input.scale input.uNow
      let _ ← ingest input) :=
    (keeps_tickRestClock _ _).bind fun _ => (keeps_ingest input).bind fun _ => .pure _
  refine wp_mono (hfeed s hs) (fun _ _ ht => ht) ?_
  intro fault t ht
  simp [ht]

end
end Kaine.Welfare
