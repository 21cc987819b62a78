import Kaine.Cycle.RestPhases
import Kaine.Cycle.WelfareLatchSafety

/-! Every run of the welfare monitor goes through the phases of its response to the indicators. -/
namespace Kaine.Welfare
open Py Control WelfareIndicators Routine Relation Transition

variable {cfg : Config} {inputs : ℕ → ResponseInput} {ofText : String → Option PyFloat}
  {w t : World} {es : List Effect} {e : Effect} {p q : Phase} {reason : CrossingReason}
  {r : ResponseInput}

/-- What the monitor holds in a phase between two steps. -/
def Phase.Stands : Phase → World → Prop
  | .armed, w => w.arm.stage = .armed
  | .resting rest, w => w.arm.stage = .resting ∧
      ∃ request, w.arm.request = some request ∧ rest = ⟨request.requestId, request.indicators⟩
  | .fresh _ position _, w =>
      w.arm.stage = .fresh ∧ w.arm.evaluator.restartPos = position
  | .answered _, w => w.latch.acted = true
  | _, _ => False

/-- The effects so far lead to the phase in which the monitor stands. -/
structure InPhase (cfg : Config) (w : World) (p : Phase) : Prop where
  follows : Follows w.log p
  stands : p.Stands w
  pending : ∀ pending, w.latch.pendingFreeze = some pending →
    pending.freezeReason.crossing.ofDistress = true ∨ p = .answered pending.freezeReason.crossing
  off : cfg.indicatorsOn = false → p = .armed

theorem Phase.Stands.settled (h : p.Stands w) : p.Settled := by
  cases p with
  | armed | resting | fresh => exact .inl rfl
  | answered reason => exact .inr ⟨reason, rfl⟩
  | _ => exact h.elim

theorem Phase.Stands.ne_rearming (h : p.Stands w) : p ≠ .rearming := by
  rintro rfl
  exact h

/-- While the latch is free, the stage of the arm is that of the phase. -/
theorem Phase.Stands.stage (h : p.Stands w) (ha : w.latch.acted = false) :
    p.stage = some w.arm.stage := by
  cases p with
  | armed => rw [show w.arm.stage = .armed from h]; rfl
  | resting rest => rw [h.1]; rfl
  | fresh rest position again => rw [h.1]; rfl
  | answered reason =>
    rw [show w.latch.acted = true from h] at ha
    cases ha
  | _ => exact h.elim

theorem Phase.Stands.armed (h : p.Stands w) (ha : w.latch.acted = false)
    (hs : w.arm.stage = .armed) : p = .armed := by
  have hstage := h.stage ha
  rw [hs] at hstage
  cases p with
  | armed => rfl
  | _ => cases hstage

theorem Phase.Stands.resting (h : p.Stands w) (ha : w.latch.acted = false)
    (hs : w.arm.stage = .resting) {request : RestRequest} (hr : w.arm.request = some request) :
    p = .resting ⟨request.requestId, request.indicators⟩ := by
  have hstage := h.stage ha
  rw [hs] at hstage
  cases p with
  | resting rest =>
    obtain ⟨-, request', hr', rfl⟩ := h
    rw [hr, Option.some.injEq] at hr'
    rw [hr']
  | _ => cases hstage

theorem Phase.Stands.fresh (h : p.Stands w) (ha : w.latch.acted = false)
    (hs : w.arm.stage = .fresh) :
    ∃ rest again, p = .fresh rest w.arm.evaluator.restartPos again := by
  have hstage := h.stage ha
  rw [hs] at hstage
  cases p with
  | fresh rest position again => exact ⟨rest, again, by rw [h.2]⟩
  | _ => cases hstage

/-- A step that leaves the latch, the stage and the spans alone. -/
theorem InPhase.besides (es : List Effect) (h : InPhase cfg w p) (hlatch : t.latch = w.latch)
    (hstage : t.arm.stage = w.arm.stage) (hrequest : t.arm.request = w.arm.request)
    (hspans : t.arm.evaluator.restartPos = w.arm.evaluator.restartPos)
    (hlog : t.log = es ++ w.log) (he : ∀ e ∈ es, e.besidesRest = true) : InPhase cfg t p where
  follows := by
    rw [hlog]
    exact h.follows.besides _ h.stands.ne_rearming he
  stands := by
    have hstands := h.stands
    cases p with
    | restarted | failed | rearming => exact hstands.elim
    | _ => simpa only [Phase.Stands, hlatch, hstage, hrequest, hspans] using hstands
  pending := by
    rw [hlatch]
    exact h.pending
  off := h.off

theorem besidesRest_of_isRemark (he : e.isRemark = true) : e.besidesRest = true := by
  cases e with
  | notice kind => rfl
  | record r => cases r <;> first | rfl | cases he
  | _ => cases he

/-- A response of the arm leads to the phase in which it is answered, with whatever it does
after. -/
theorem Responded.follows (h : Responded cfg r reason w t) (hf : Follows w.log p)
    (hs : PhaseStep p (.response reason) (.answered reason)) :
    Follows t.log (.answered reason) := by
  have hresponse := hf.cons hs
  have hne : Phase.answered reason ≠ .rearming := by simp
  have hfrozen : ∀ fallback hook, (hook = [] ∨ hook = [Effect.onEnd true]) →
      Follows (.freeze ⟨reason, fallback⟩ ::
        (hook ++ .preserveLive r.saved :: .response reason :: w.log)) (.answered reason) := by
    intro fallback hook hh
    have hsaved : Follows (.preserveLive r.saved :: .response reason :: w.log) (.answered reason) :=
      hresponse.cons (.besides rfl hne)
    have hhook : ∀ e ∈ hook, e.besidesRest = true := by
      rcases hh with rfl | rfl <;> simp [Effect.besidesRest]
    exact (hsaved.besides hook hne hhook).cons (.frozen reason fallback)
  cases h with
  | suppressed => exact hresponse
  | noticed _ file endFailed kind =>
    exact hresponse.besides [.notice kind,
      .record (.protectiveAction reason .notify r.saved endFailed false false),
      .preserveLive r.saved] hne (by simp [Effect.besidesRest])
  | raised _ _ file fallback hook hh => exact hfrozen fallback hook hh
  | paused _ file fallback hook hh placed taken endFailed unreadable kind =>
    exact (hfrozen fallback hook hh).besides [.notice kind,
      .record (.protectiveAction reason taken r.saved endFailed (!placed) unreadable)] hne
      (by simp [Effect.besidesRest])
  | ended _ file endFailed kind =>
    exact hresponse.besides [.notice kind,
      .record (.protectiveAction reason .endRun r.saved endFailed false false), .onEnd false,
      .preserveLive r.saved] hne (by simp [Effect.besidesRest])

/-- A freeze that is pending after a response has its reason. -/
theorem Responded.pending (h : Responded cfg r reason w t) (hn : w.latch.pendingFreeze = none)
    {pending : PendingFreeze} (hp : t.latch.pendingFreeze = some pending) :
    pending.freezeReason.crossing = reason := by
  cases h with
  | paused _ _ fallback _ _ placed =>
    cases placed with
    | true => simp [hn] at hp
    | false =>
      simp only [Bool.false_eq_true, if_false, Option.some.injEq] at hp
      rw [← hp]
  | suppressed | noticed | raised | ended =>
    rw [show _ = _ from hn] at hp
    cases hp

theorem Responded.notice_pending (h : Responded cfg r reason w t) (ha : cfg.action = .notify) :
    t.latch.pendingFreeze = w.latch.pendingFreeze := by
  cases h with
  | suppressed | noticed => rfl
  | raised hne | paused hne => exact absurd ha hne
  | ended hend => exact absurd ha (by simp [hend])

/-- An escalation of the arm is answered, or has put it back to armed. -/
theorem Escalated.inPhase (h : Escalated cfg r reason w t) (hf : Follows w.log p)
    (hs : PhaseStep p (.response reason) (.answered reason)) (hon : cfg.indicatorsOn = true)
    (hn : w.latch.pendingFreeze = none) (hr : ∀ ok, r.freeze ≠ .returns ok .raises) :
    ∃ q, InPhase cfg t q := by
  have hoff : ∀ {q : Phase}, cfg.indicatorsOn = false → q = .armed := by
    intro q hoff
    rw [hon] at hoff
    cases hoff
  cases h with
  | held h ha =>
    exact ⟨.answered reason, h.follows hf hs, ha, fun pending hp => .inr (by rw [h.pending hn hp]),
      hoff⟩
  | raised h hraises =>
    obtain ⟨ok, hraises⟩ := hraises
    exact absurd hraises (hr ok)
  | reset h hnotify arm hstage hrequest =>
    refine ⟨.armed, (h.follows hf hs).cons (.startsOver reason), hstage, fun pending hp => ?_, hoff⟩
    dsimp only at hp
    rw [h.notice_pending hnotify, hn] at hp
    cases hp

/-- The crossing that was just found is the latest in the phase. -/
theorem Follows.again {rest : Rest} {position since : ℚ} {indicators again : List Indicator}
    (h : Follows w.log (.fresh rest position again)) (hx : JustCrossed w indicators since) :
    again = indicators := by
  obtain ⟨remarks, older, hlog, hall⟩ := hx
  rw [hlog] at h
  clear hlog
  induction remarks with
  | nil =>
    obtain ⟨q, -, hs⟩ := h.last
    cases hs with
    | besides he => cases he
    | crossed _ _ hq => rcases hq with hq | ⟨rest, hq⟩ | ⟨reason, hq⟩ <;> cases hq
    | crossedAgain => rfl
  | cons e remarks ih =>
    obtain ⟨q, hq, hs⟩ := h.last
    have he := besidesRest_of_isRemark (hall e (by simp))
    obtain rfl := hs.of_besidesRest he
    exact ih hq fun x hx => hall x (by simp [hx])

theorem InPhase.armDoes (h : InPhase cfg w p) (hl : Latched cfg w) (hi : ReadsBack inputs)
    (hon : cfg.indicatorsOn = true) (ht : ArmDoes cfg inputs w t) : ∃ q, InPhase cfg t q := by
  have hoff : ∀ {q : Phase}, cfg.indicatorsOn = false → q = .armed := by
    intro q hoff
    rw [hon] at hoff
    cases hoff
  have hnone : w.latch.acted = false → w.latch.pendingFreeze = none := by
    intro ha
    by_contra hne
    rw [hl.pending hne] at ha
    cases ha
  have hpending : ∀ {q : Phase} pending, w.latch.acted = false →
      w.latch.pendingFreeze = some pending →
      pending.freezeReason.crossing.ofDistress = true ∨
        q = .answered pending.freezeReason.crossing := by
    intro q pending ha hp
    rw [hnone ha] at hp
    cases hp
  cases ht with
  | tend arm hstage hrequest hspans =>
    exact ⟨p, h.besides [] rfl hstage hrequest hspans rfl (by simp)⟩
  | remark e he =>
    exact ⟨p, h.besides [e] rfl rfl rfl rfl rfl (by simp [besidesRest_of_isRemark he])⟩
  | crossed indicators since hsince =>
    have hstands := h.stands
    cases p with
    | fresh rest position again =>
      have hle : position ≤ since := by
        rw [← hstands.2]
        exact hsince
      exact ⟨.fresh rest position indicators,
        h.follows.cons (.crossedAgain rest position again indicators since hle), hstands,
        fun pending hp => (h.pending pending hp).imp_right (by simp), hoff⟩
    | armed => exact ⟨_, h.follows.cons (.crossed _ _ (.inl rfl)), hstands, h.pending, hoff⟩
    | resting rest =>
      exact ⟨_, h.follows.cons (.crossed _ _ (.inr (.inl ⟨rest, rfl⟩))), hstands, h.pending, hoff⟩
    | answered reason =>
      exact ⟨_, h.follows.cons (.crossed _ _ (.inr (.inr ⟨reason, rfl⟩))), hstands, h.pending, hoff⟩
    | _ => exact hstands.elim
  | request ha hs request hr =>
    obtain rfl := h.stands.armed ha hs
    exact ⟨.resting ⟨request.requestId, request.indicators⟩,
      h.follows.cons (.requested ⟨request.requestId, request.indicators⟩),
      ⟨rfl, request, rfl, rfl⟩, fun pending hp => hpending pending ha hp, hoff⟩
  | begin ha hs request hr standing restU boundS =>
    obtain rfl := h.stands.resting ha hs hr
    exact ⟨_, h.follows.cons (.started _ standing), ⟨hs, _, rfl, rfl⟩,
      fun pending hp => hpending pending ha hp, hoff⟩
  | complete ha hs request hr =>
    obtain rfl := h.stands.resting ha hs hr
    exact ⟨.fresh _ w.arm.evaluator.pos [],
      (h.follows.cons (.restarted _ w.arm.evaluator.pos)).cons (.completed _ _), ⟨rfl, rfl⟩,
      fun pending hp => hpending pending ha hp, hoff⟩
  | quiet ha hs =>
    obtain ⟨rest, again, rfl⟩ := h.stands.fresh ha hs
    exact ⟨.armed, h.follows.cons (.quiet _ _ _), rfl, fun pending hp => hpending pending ha hp,
      hoff⟩
  | unavailable ha hr =>
    have hstage := h.stands.stage ha
    exact hr.inPhase h.follows (.answersSilence (by rw [hstage]; rfl)) hon (hnone ha) (hi _)
  | restFailed ha failure indicators hf hr =>
    have hfailed : Follows (.record (.restFailed failure indicators) :: w.log) .failed := by
      rcases hf with ⟨hs, hf⟩ | ⟨hs, request, hrequest, rfl⟩
      · obtain rfl := h.stands.armed ha hs
        exact h.follows.cons (.unavailable failure indicators hf)
      · obtain rfl := h.stands.resting ha hs hrequest
        exact h.follows.cons (.failed _ failure)
    exact hr.inPhase hfailed .answersFailure hon (hnone ha) (hi _)
  | freshCrossing ha hs name indicators since hx hsince hr =>
    obtain ⟨rest, again, rfl⟩ := h.stands.fresh ha hs
    obtain rfl := h.follows.again hx
    exact hr.inPhase h.follows (.answersCrossing _ _ name indicators) hon (hnone ha) (hi _)

theorem Responded.besidesRest (h : Responded cfg r reason w t) (hd : reason.ofDistress = true) :
    t.arm = w.arm ∧ ∃ es, t.log = es ++ w.log ∧ ∀ e ∈ es, e.besidesRest = true := by
  cases h with
  | suppressed => exact ⟨rfl, [.response reason], rfl, by simp [Effect.besidesRest, hd]⟩
  | noticed _ file endFailed kind =>
    exact ⟨rfl, [_, _, _, _], rfl, by simp [Effect.besidesRest, hd]⟩
  | raised _ _ file fallback hook hh =>
    refine ⟨rfl, .freeze ⟨reason, fallback⟩ :: (hook ++ [.preserveLive r.saved, .response reason]),
      by simp, ?_⟩
    rcases hh with rfl | rfl <;> simp [Effect.besidesRest, hd]
  | paused _ file fallback hook hh placed taken endFailed unreadable kind =>
    refine ⟨rfl, .notice kind ::
      .record (.protectiveAction reason taken r.saved endFailed (!placed) unreadable) ::
      .freeze ⟨reason, fallback⟩ :: (hook ++ [.preserveLive r.saved, .response reason]),
      by simp, ?_⟩
    rcases hh with rfl | rfl <;> simp [Effect.besidesRest, hd]
  | ended _ file endFailed kind =>
    exact ⟨rfl, [_, _, _, _, _], rfl, by simp [Effect.besidesRest, hd]⟩

/-- A response to distress moves no phase. -/
theorem InPhase.answer (h : InPhase cfg w p) (hn : w.latch.pendingFreeze = none)
    (ha : w.latch.acted = false) (hd : reason.ofDistress = true)
    (ht : Responded cfg r reason w t) : InPhase cfg t p := by
  obtain ⟨harm, es, hlog, he⟩ := ht.besidesRest hd
  have hstage := h.stands.stage ha
  exact {
    follows := by
      rw [hlog]
      exact h.follows.besides _ h.stands.ne_rearming he
    stands := by
      have hstands := h.stands
      cases p with
      | answered reason => cases hstage
      | restarted | failed | rearming => exact hstands.elim
      | _ => simpa only [Phase.Stands, harm] using hstands
    pending := by
      intro pending hp
      rw [ht.pending hn hp]
      exact .inl hd
    off := h.off }

theorem Follows.freeze {log : List Effect} {pending : PendingFreeze} (h : Follows log p)
    (hp : p ≠ .rearming)
    (hr : pending.freezeReason.crossing.ofDistress = true ∨
      p = .answered pending.freezeReason.crossing) :
    Follows (.freeze pending.freezeReason :: log) p := by
  rcases hr with hd | rfl
  · exact h.cons (.besides hd hp)
  · exact h.cons (.frozen _ pending.freezeReason.fallback)

theorem InPhase.retried {pending : PendingFreeze} (h : InPhase cfg w p)
    (hp : w.latch.pendingFreeze = some pending) (ht : Retried pending w t) : InPhase cfg t p := by
  have hne := h.stands.ne_rearming
  have hreason := h.pending pending hp
  have hstands : ∀ {u : World}, u.arm = w.arm → u.latch.acted = w.latch.acted → p.Stands u := by
    intro u harm hacted
    have hstands := h.stands
    cases p with
    | restarted | failed | rearming => exact hstands.elim
    | _ => simpa only [Phase.Stands, harm, hacted] using hstands
  cases ht with
  | found kind =>
    exact {
      follows := h.follows.besides [_, _] hne (by simp [Effect.besidesRest])
      stands := hstands rfl rfl
      pending := by simp
      off := h.off }
  | placed file unreadable kind =>
    exact {
      follows := (h.follows.freeze hne hreason).besides [_, _] hne
        (by simp [Effect.besidesRest])
      stands := hstands rfl rfl
      pending := by simp
      off := h.off }
  | failed file =>
    exact {
      follows := h.follows.freeze hne hreason
      stands := hstands rfl rfl
      pending := by
        intro pending' hp'
        obtain rfl := Option.some.inj hp'
        exact hreason
      off := h.off }

/-- A re-arm puts the arm back to armed, whatever the phase. -/
theorem InPhase.rearm (h : InPhase cfg w p) (hn : w.latch.pendingFreeze = none) {arm : IndicatorArm}
    {hook : List Effect}
    (harm : hook = [] ∧ arm = w.arm ∧ cfg.indicatorsOn = false ∨
      hook = [.indicatorReset] ∧ arm.stage = .armed ∧ arm.request = none)
    (hlog : t.log = .record .rearmed :: (hook ++ w.log)) (ht : t.arm = arm)
    (hlatch : t.latch.pendingFreeze = w.latch.pendingFreeze) : InPhase cfg t .armed := by
  exact {
    follows := by
      rw [hlog]
      rcases harm with ⟨rfl, -, hoff⟩ | ⟨rfl, -, -⟩
      · obtain rfl := h.off hoff
        exact h.follows.cons (.rearmed (.inr rfl))
      · rcases h.stands.settled with hstage | ⟨reason, rfl⟩
        · exact (h.follows.cons (.dropped hstage)).cons (.rearmed (.inl rfl))
        · exact (h.follows.cons (.startsOver reason)).cons (.rearmed (.inr rfl))
    stands := by
      rcases harm with ⟨-, rfl, hoff⟩ | ⟨-, harmed, -⟩
      · obtain rfl := h.off hoff
        have hstands : w.arm.stage = .armed := h.stands
        rwa [← ht] at hstands
      · rwa [← ht] at harmed
    pending := by
      intro pending hp
      rw [hlatch, hn] at hp
      cases hp
    off := fun _ => rfl }

theorem InPhase.does (h : InPhase cfg w p) (hl : Latched cfg w) (hi : ReadsBack inputs)
    (ht : Does cfg inputs w t) : ∃ q, InPhase cfg t q := by
  cases ht with
  | arm hon ht => exact h.armDoes hl hi hon ht
  | tend distress startedAt => exact ⟨p, h.besides [] rfl rfl rfl rfl rfl (by simp)⟩
  | report reason hd => exact ⟨p, h.besides [_] rfl rfl rfl rfl rfl (by simp [Effect.besidesRest])⟩
  | warmingUp n lived => exact ⟨p, h.besides [_] rfl rfl rfl rfl rfl (by simp [Effect.besidesRest])⟩
  | answer ha reason hd hr =>
    have hn : w.latch.pendingFreeze = none := by
      by_contra hne
      rw [hl.pending hne] at ha
      cases ha
    exact ⟨p, h.answer hn ha hd hr⟩
  | retry ha pending hp hr => exact ⟨p, h.retried hp hr⟩
  | rearm hp hn hh tails arm hook harm => exact ⟨.armed, h.rearm hn harm rfl rfl rfl⟩

theorem InPhase.path (h : InPhase cfg w p) (hl : Latched cfg w) (hi : ReadsBack inputs)
    (ht : Path cfg inputs w t) : ∃ q, InPhase cfg t q := by
  induction ht with
  | refl => exact ⟨p, h⟩
  | tail hpath hstep ih =>
    obtain ⟨q, hq⟩ := ih
    exact hq.does (hl.path hi hpath) hi hstep

theorem InPhase.check (h : InPhase cfg w p) (input : PollInput) :
    InPhase cfg (w.check input) p := by
  have hacted : ∀ {u : World}, u.arm = w.arm → (w.latch.acted = true → u.latch.acted = true) →
      p.Stands u := by
    intro u harm hacted
    have hstands := h.stands
    cases p with
    | restarted | failed | rearming => exact hstands.elim
    | answered reason => exact hacted hstands
    | _ => simpa only [Phase.Stands, harm] using hstands
  unfold World.check World.adoptStandingWelfareFreeze
  split
  · exact h
  · split
    · exact ⟨h.follows, hacted rfl fun _ => rfl, h.pending, h.off⟩
    · exact ⟨h.follows, hacted rfl id, h.pending, h.off⟩

/-- The invariant of a run. -/
def Staged (cfg : Config) (s : System) : Prop := Sound cfg s ∧ ∃ p, InPhase cfg s.world p

theorem staged_initial (cfg : Config) (file : ControlFile) (interoception welfare : Bus.Stream) :
    Staged cfg (.initial cfg file interoception welfare) := by
  refine ⟨sound_initial cfg file interoception welfare, .armed, ?_⟩
  exact {
    follows := .refl _
    stands := rfl
    pending := by simp [System.initial, World.initial]
    off := fun _ => rfl }

theorem staged_step {s : System} {move : Move} (h : Staged cfg s) (hm : move.ReadsBack) :
    Staged cfg (step cfg ofText s move) := by
  obtain ⟨hsound, p, hp⟩ := h
  refine ⟨sound_step hsound hm, ?_⟩
  cases move with
  | poll m =>
    have hpath := path_pollOnce cfg ofText (s.pollInput m) s.world
    exact (hp.check (s.pollInput m)).path (hsound.1.check hsound.2 _) hm hpath
  | control change => exact ⟨p, hp.besides [] rfl rfl rfl rfl rfl (by simp)⟩
  | publishInteroception entry | publishWelfare entry => exact ⟨p, hp⟩

/-- What the effects of a run say of the response to the indicators. -/
structure StagesKept (w : World) : Prop where
  /-- The effects go through the phases to the one in which the monitor stands, and every requested
  rest on the way has exactly one end. -/
  phases : ∃ p, Follows w.log p ∧ p.Stands w ∧ ∀ older (rest : Rest) newer after,
    w.log.reverse = older ++ rest.requested :: (newer ++ after) → NoStart newer →
      (after = [] ∨ ∃ e tail, after = e :: tail ∧ e.startsOver = true) → RestEnd newer after p
  named : ∀ older newer name fallback,
    w.log.reverse = older ++ .freeze ⟨.indicator name, fallback⟩ :: newer →
      CrossedAfterRest name older
  failed : ∀ older newer fallback,
    w.log.reverse = older ++ .freeze ⟨.restFailed, fallback⟩ :: newer →
      FailedToRest older [.response .restFailed]

theorem InPhase.stagesKept (h : InPhase cfg w p) : StagesKept w where
  phases := by
    refine ⟨p, h.follows, h.stands, ?_⟩
    intro older rest newer after hlog hno hafter
    have hrun := h.follows
    rw [Follows, hlog] at hrun
    exact restEnd_of_run hrun h.stands.settled hno hafter
  named older newer name fallback hlog := by
    have hrun := h.follows
    rw [Follows, hlog] at hrun
    exact crossedAfterRest_of_run hrun
  failed older newer fallback hlog := by
    have hrun := h.follows
    rw [Follows, hlog] at hrun
    exact failedToRest_of_run hrun

/-- Wherever a run leads in which no call that reads a freeze back raises, the response has kept to
its phases. -/
theorem stages_kept (cfg : Config) (ofText : String → Option PyFloat) (file : ControlFile)
    (interoception welfare : Bus.Stream) {moves : List Move} {s : System}
    (h : Run (Guarded (fun _ move => move.ReadsBack) fun s move t => t = step cfg ofText s move)
      (.initial cfg file interoception welfare) moves s) : StagesKept s.world := by
  have hstaged : Staged cfg s := by
    refine h.invariant ?_ (staged_initial cfg file interoception welfare)
    rintro s move t ⟨hm, rfl⟩ hs
    exact staged_step hs hm
  obtain ⟨-, p, hp⟩ := hstaged
  exact hp.stagesKept

section
-- spans of two seconds, evaluated from one second on
theorem one_le_span : (1 : ℚ) ≤ 2 := by norm_num

def briefParams : IndicatorParams :=
  { defaultParams with
    spanS := 2, minSpanS := 1, minSpan_pos := defaultParams.publishInterval_pos
    minSpan_le := one_le_span }

def briefConfig : Config := { plainConfig with indicatorsOn := true, params := briefParams }

theorem affectSource_valid : Bus.validName 64 "affect" = true := by decide
theorem affectType_valid : Bus.validName 128 "affect.state" = true := by decide
theorem sleepSource_valid : Bus.validName 64 "sleep" = true := by decide
theorem started_valid : Bus.validName 128 "sleep.sleep.started" = true := by decide
theorem completed_valid : Bus.validName 128 "sleep.sleep.completed" = true := by decide

def affectState (n : ℕ) (valence : ℚ) (bored : Bool) : Bus.Event where
  source := "affect"
  type := "affect.state"
  payload := [("state", .obj [("valence", .float (.fin valence))]),
    ("drive_above", .obj [("boredom", .bool bored)])]
  salience := 0
  timestamp := n * 10 ^ 6
  source_valid := affectSource_valid
  type_valid := affectType_valid
  salience_valid := Bus.zero_salience

def sleepEvent (n : ℕ) (type : String) (h : Bus.validName 128 type = true) : Bus.Event where
  source := "sleep"
  type := type
  payload := [("trigger", .str "welfare_rest")]
  salience := 0
  timestamp := n * 10 ^ 6
  source_valid := sleepSource_valid
  type_valid := h
  salience_valid := Bus.zero_salience

def pollArmAt (n : ℕ) (sleep affect : List Bus.Event) : Move :=
  .poll { pollAt n (.reads true) with
    arm := {
      uNow := n
      wNow := n
      awake := .absent
      scale := .absent
      seed := .read (⟨0, 0⟩, ⟨0, 0⟩)
      sleep := .read (sleep, ⟨n, 0⟩)
      affect := .read (affect, ⟨n, 0⟩)
      developing := false
      developmentalRestS := 0
      sleepModuleReady := true
      requestId := "rest"
      requestSent := true } }

def bootedArm : System := .initial briefConfig .missing emptyStream emptyStream

/-- A rest for a negative valence, and boredom over the span since. -/
def restThenBoredom : List Move :=
  [pollArmAt 0 [] [affectState 0 (-1) false], pollArmAt 1 [] [affectState 1 (-1) false],
    pollArmAt 2 [] [affectState 2 0 false],
    pollArmAt 3 [sleepEvent 2 "sleep.sleep.started" started_valid] [],
    pollArmAt 4 [sleepEvent 4 "sleep.sleep.completed" completed_valid] [],
    pollArmAt 5 [] [affectState 5 0 true], pollArmAt 6 [] [affectState 6 0 true]]

/-- A rest is requested, distress pauses the run, and the pause is lifted. -/
def distressAtRest : List Move :=
  [.publishInteroception (report 1 (.float (.fin (9 / 10)))),
    pollArmAt 0 [] [affectState 0 (-1) false], pollArmAt 1 [] [affectState 1 (-1) false],
    pollArmAt 30 [] [], .control fun _ => .missing, pollArmAt 31 [] []]

def boredomFreeze : Effect := .freeze ⟨.indicator (.deprived .boredom), none⟩

theorem stages_kept_boredom :
    boredomFreeze ∈ (run briefConfig noText bootedArm restThenBoredom).world.log ∧
    StagesKept (run briefConfig noText bootedArm restThenBoredom).world := by
  refine ⟨by decide +kernel, ?_⟩
  apply stages_kept briefConfig noText .missing emptyStream emptyStream
  refine Run.foldl _ bootedArm fun s move hmove => ⟨?_, rfl⟩
  simp only [restThenBoredom, List.mem_cons, List.not_mem_nil, or_false] at hmove
  rcases hmove with rfl | rfl | rfl | rfl | rfl | rfl | rfl <;>
    simp [pollArmAt, Move.ReadsBack, ReadsBack, pollAt]

/-- A rest was requested for the indicator, or one has failed. -/
def Effect.restsFor (name : Indicator) : Effect → Bool
  | .record (.restRequested _ indicators) => indicators.contains name
  | .record (.restFailed _ _) => true
  | _ => false

/-- A freeze can name an indicator for which no rest was ever requested, and a rest can end in
neither a completion nor an escalation. -/
theorem rests_shared_and_dropped :
    (boredomFreeze ∈ (run briefConfig noText bootedArm restThenBoredom).world.log ∧
      ∀ e ∈ (run briefConfig noText bootedArm restThenBoredom).world.log,
        e.restsFor (.deprived .boredom) = false) ∧
    (Rest.requested ⟨"rest", [.negativeValence]⟩ ∈
        (run briefConfig noText bootedArm distressAtRest).world.log ∧
      completions (run briefConfig noText bootedArm distressAtRest).world.log = 0 ∧
      escalations (run briefConfig noText bootedArm distressAtRest).world.log = 0 ∧
      (run briefConfig noText bootedArm distressAtRest).world.arm.stage = .armed) := by
  decide +kernel

end
end Kaine.Welfare
