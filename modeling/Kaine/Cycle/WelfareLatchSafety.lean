import Kaine.Cycle.WelfareStreamsSafety

/-! The latch of the protective response over whole runs: one response between two re-arms, a pause
that is placed or pending, and a release that only a readable control file brings. -/
namespace Kaine.Welfare
open Py Control WelfareIndicators Routine Relation Transition

variable {cfg : Config} {inputs : ℕ → ResponseInput} {ofText : String → Option PyFloat}
  {w t : World} {es log : List Effect}

/-- The preservations since the last re-arm, the log being newest first. -/
def preservations : List Effect → ℕ
  | [] => 0
  | .record .rearmed :: _ => 0
  | .preserveLive _ :: log => preservations log + 1
  | _ :: log => preservations log

/-- The effects that the latch does not depend on. -/
def Effect.besidesLatch : Effect → Bool
  | .preserveLive _ => false
  | .onEnd raised => raised
  | .record .rearmed => false
  | _ => true

/-- No re-arm comes after an end of the run. -/
def EndIsFinal (log : List Effect) : Prop :=
  log.Pairwise fun newer older => older = .onEnd false → newer ≠ .record .rearmed

/-- What holds of the latch in every state of a run. -/
structure Latched (cfg : Config) (w : World) : Prop where
  placed : w.latch.pausePlaced = true → w.latch.acted = true ∧ w.latch.pendingFreeze = none
  pending : w.latch.pendingFreeze ≠ none → w.latch.acted = true
  once : cfg.action ≠ .notify → preservations w.log ≤ if w.latch.acted then 1 else 0
  held : w.latch.acted = true →
    w.latch.pausePlaced = true ∨ w.latch.pendingFreeze ≠ none ∨ .onEnd false ∈ w.log
  ended : .onEnd false ∈ w.log →
    w.latch.acted = true ∧ w.latch.pausePlaced = false ∧ w.latch.pendingFreeze = none
  final : EndIsFinal w.log

theorem preservations_cons {e : Effect} (he : e.besidesLatch = true) :
    preservations (e :: log) = preservations log := by
  cases e with
  | preserveLive saved => cases he
  | record r => cases r <;> first | rfl | cases he
  | _ => rfl

theorem preservations_append (he : ∀ e ∈ es, e.besidesLatch = true) :
    preservations (es ++ log) = preservations log := by
  induction es with
  | nil => rfl
  | cons e es ih =>
    rw [List.cons_append, preservations_cons (he e (by simp)), ih fun x hx => he x (by simp [hx])]

theorem onEnd_mem_append (he : ∀ e ∈ es, e.besidesLatch = true) :
    Effect.onEnd false ∈ es ++ log ↔ Effect.onEnd false ∈ log := by
  refine ⟨fun h => ?_, fun h => List.mem_append_right es h⟩
  rcases List.mem_append.mp h with h | h
  · cases he _ h
  · exact h

theorem endIsFinal_append (he : ∀ e ∈ es, e ≠ .record .rearmed) (h : EndIsFinal log) :
    EndIsFinal (es ++ log) := by
  induction es with
  | nil => exact h
  | cons e es ih =>
    have hrest := ih fun x hx => he x (by simp [hx])
    exact List.pairwise_cons.mpr ⟨fun _ _ _ => he e (by simp), hrest⟩

theorem ne_rearmed {e : Effect} (he : e.besidesLatch = true) : e ≠ .record .rearmed := by
  rintro rfl
  cases he

/-- A step that leaves the latch alone, and adds nothing that it depends on. -/
theorem Latched.besides (h : Latched cfg w) (hl : t.latch = w.latch) (hlog : t.log = es ++ w.log)
    (he : ∀ e ∈ es, e.besidesLatch = true) : Latched cfg t where
  placed := by
    rw [hl]
    exact h.placed
  pending := by
    rw [hl]
    exact h.pending
  once ha := by
    rw [hlog, preservations_append he, hl]
    exact h.once ha
  held := by
    rw [hl, hlog, onEnd_mem_append he]
    exact h.held
  ended := by
    rw [hl, hlog, onEnd_mem_append he]
    exact h.ended
  final := by
    rw [hlog]
    exact endIsFinal_append (fun e h => ne_rearmed (he e h)) h.final

/-- No call that reads a freeze back raises. -/
def ReadsBack (inputs : ℕ → ResponseInput) : Prop := ∀ n ok, (inputs n).freeze ≠ .returns ok .raises

theorem Latched.responded {r : ResponseInput} {reason : CrossingReason} (h : Latched cfg w)
    (ha : w.latch.acted = false) (hr : ∀ ok, r.freeze ≠ .returns ok .raises)
    (ht : Responded cfg r reason w t) : Latched cfg t := by
  have hpend : w.latch.pendingFreeze = none := by
    by_contra hne
    rw [h.pending hne] at ha
    cases ha
  have hend : Effect.onEnd false ∉ w.log := by
    intro hmem
    rw [(h.ended hmem).1] at ha
    cases ha
  have honce : cfg.action ≠ .notify → preservations w.log = 0 := by
    intro hne
    simpa [ha] using h.once hne
  cases ht with
  | suppressed hn =>
    exact @Latched.besides cfg w _ [.response reason] h rfl rfl (by simp [Effect.besidesLatch])
  | raised hn hraise =>
    obtain ⟨ok, hraise⟩ := hraise
    exact absurd hraise (hr ok)
  | noticed hn file endFailed kind =>
    exact {
      placed := by simp
      pending := by simp [hpend]
      once := fun hne => absurd hn hne
      held := by simp
      ended := by simp [hend]
      final := by
        have hes : ∀ e ∈ [Effect.notice kind,
            .record (.protectiveAction reason .notify r.saved endFailed
            false false), .preserveLive r.saved, .response reason], e ≠ .record .rearmed := by simp
        exact endIsFinal_append hes h.final }
  | paused hn file fallback hook hh placed taken endFailed unreadable kind =>
    exact {
      placed := by
        rintro rfl
        simp [hpend]
      pending := by simp
      once := by
        intro hne
        rcases hh with rfl | rfl <;> simp [preservations, honce hne]
      held := by cases placed <;> simp
      ended := by rcases hh with rfl | rfl <;> simp [hend]
      final := by
        have hes : ∀ e ∈ [Effect.notice kind,
            .record (.protectiveAction reason taken r.saved endFailed (!placed) unreadable),
              .freeze ⟨reason, fallback⟩] ++ hook ++
            [.preserveLive r.saved, .response reason], e ≠ .record .rearmed := by
          rcases hh with rfl | rfl <;> simp
        simpa using endIsFinal_append hes h.final }
  | ended hn file endFailed kind =>
    exact {
      placed := by simp
      pending := by simp [hpend]
      once := by
        intro hne
        simp [preservations, honce hne]
      held := by simp
      ended := by simp [hpend]
      final := by
        have hes : ∀ e ∈ [Effect.notice kind,
            .record (.protectiveAction reason .endRun r.saved endFailed
            false false), .onEnd false, .preserveLive r.saved, .response reason],
            e ≠ .record .rearmed := by simp
        exact endIsFinal_append hes h.final }

theorem Latched.escalated {r : ResponseInput} {reason : CrossingReason} (h : Latched cfg w)
    (ha : w.latch.acted = false) (hr : ∀ ok, r.freeze ≠ .returns ok .raises)
    (ht : Escalated cfg r reason w t) : Latched cfg t := by
  cases ht with
  | held ht | raised ht => exact h.responded ha hr ht
  | reset ht hn arm =>
    exact @Latched.besides cfg _ _ [.indicatorReset] (h.responded ha hr ht) rfl rfl
      (by simp [Effect.besidesLatch])

theorem besidesLatch_of_isRemark {e : Effect} (he : e.isRemark = true) : e.besidesLatch = true := by
  cases e with
  | notice kind => rfl
  | record r => cases r <;> first | rfl | cases he
  | _ => cases he

theorem Latched.arm (h : Latched cfg w) (hi : ReadsBack inputs) (ht : ArmDoes cfg inputs w t) :
    Latched cfg t := by
  cases ht with
  | tend arm => exact @Latched.besides cfg w _ [] h rfl rfl (by simp)
  | remark e he =>
    exact @Latched.besides cfg w _ [e] h rfl rfl (by simp [besidesLatch_of_isRemark he])
  | crossed indicators since =>
    exact @Latched.besides cfg w _ [.crossed indicators since] h rfl rfl
      (by simp [Effect.besidesLatch])
  | request ha hs request hr =>
    exact @Latched.besides cfg w _ [.record (.restRequested request.requestId request.indicators)] h
      rfl rfl (by simp [Effect.besidesLatch])
  | begin ha hs request hr standing restU boundS =>
    exact @Latched.besides cfg w _
      [.record (.restStarted request.requestId request.indicators standing)] h rfl rfl
      (by simp [Effect.besidesLatch])
  | complete ha hs request hr =>
    exact @Latched.besides cfg w _
      [.record (.restCompleted request.requestId request.indicators),
        .spansRestarted w.arm.evaluator.pos] h rfl rfl (by simp [Effect.besidesLatch])
  | quiet ha hs =>
    exact @Latched.besides cfg w _ [.record .indicatorRearmed] h rfl rfl
      (by simp [Effect.besidesLatch])
  | unavailable ha hr => exact h.escalated ha (hi _) hr
  | freshCrossing ha hs name indicators since hx hsince hr => exact h.escalated ha (hi _) hr
  | restFailed ha failure indicators hf hr =>
    have hrecord : Latched cfg
        { w with log := .record (.restFailed failure indicators) :: w.log } :=
      @Latched.besides cfg w _ [.record (.restFailed failure indicators)] h rfl rfl
        (by simp [Effect.besidesLatch])
    exact hrecord.escalated ha (hi _) hr

theorem Latched.retried {pending : PendingFreeze} (h : Latched cfg w) (ha : w.latch.acted = true)
    (hp : w.latch.pendingFreeze = some pending) (ht : Retried pending w t) : Latched cfg t := by
  have hend : Effect.onEnd false ∉ w.log := by
    intro hmem
    rw [(h.ended hmem).2.2] at hp
    cases hp
  have hfinal : ∀ {es}, (∀ e ∈ es, e ≠ .record .rearmed) → EndIsFinal (es ++ w.log) :=
    fun hes => endIsFinal_append hes h.final
  cases ht with
  | found kind =>
    exact {
      placed := by simp [ha]
      pending := by simp
      once := by simpa [preservations, ha] using h.once
      held := by simp
      ended := by simp [hend]
      final := @hfinal [_, _] (by simp) }
  | placed file unreadable kind =>
    exact {
      placed := by simp [ha]
      pending := by simp
      once := by simpa [preservations, ha] using h.once
      held := by simp
      ended := by simp [hend]
      final := @hfinal [_, _, _] (by simp) }
  | failed file =>
    have hplaced : w.latch.pausePlaced = false := by
      by_contra hne
      rw [(h.placed (by simpa using hne)).2] at hp
      cases hp
    exact {
      placed := by simp [hplaced]
      pending := by simp [ha]
      once := by simpa [preservations, ha] using h.once
      held := by simp
      ended := by simp [hend]
      final := @hfinal [_] (by simp) }

theorem Latched.does (h : Latched cfg w) (hi : ReadsBack inputs) (ht : Does cfg inputs w t) :
    Latched cfg t := by
  cases ht with
  | arm hon ht => exact h.arm hi ht
  | tend distress startedAt => exact @Latched.besides cfg w _ [] h rfl rfl (by simp)
  | report reason hd =>
    exact @Latched.besides cfg w _ [.crossing reason] h rfl rfl (by simp [Effect.besidesLatch])
  | warmingUp n lived =>
    exact @Latched.besides cfg w _ [.record (.warmingUp n lived)] h rfl rfl
      (by simp [Effect.besidesLatch])
  | answer ha reason hd hr => exact h.responded ha (hi _) hr
  | retry ha pending hp hr => exact h.retried ha hp hr
  | rearm hp hn hh tails arm hook harm =>
    have hend : Effect.onEnd false ∉ w.log := by
      intro hmem
      rw [(h.ended hmem).2.1] at hp
      cases hp
    have hhook : ∀ e ∈ hook, e = .indicatorReset := by
      rcases harm with ⟨rfl, -⟩ | ⟨rfl, -⟩ <;> simp
    have hnot : Effect.onEnd false ∉ .record .rearmed :: (hook ++ w.log) := by
      simp only [List.mem_cons, List.mem_append, not_or]
      exact ⟨by simp, fun hx => absurd (hhook _ hx) (by simp), hend⟩
    exact {
      placed := by simp
      pending := by simp [hn]
      once := by simp [preservations]
      held := by simp
      ended := fun hmem => absurd hmem hnot
      final := by
        have hrest : EndIsFinal (hook ++ w.log) := by
          refine endIsFinal_append (fun e he => ?_) h.final
          rw [hhook e he]
          simp
        refine List.pairwise_cons.mpr ⟨fun older hmem heq => ?_, hrest⟩
        rw [heq] at hmem
        exact absurd (List.mem_cons_of_mem _ hmem) hnot }

theorem Latched.path (h : Latched cfg w) (hi : ReadsBack inputs) (ht : Path cfg inputs w t) :
    Latched cfg t := by
  induction ht with
  | refl => exact h
  | tail _ hstep ih => exact ih.does hi hstep

/-- Before its first poll a monitor has done nothing. -/
def Untouched (w : World) : Prop :=
  w.holdersChecked = false → w.latch = {} ∧ w.log = []

theorem Latched.check (h : Latched cfg w) (hu : Untouched w) (input : PollInput) :
    Latched cfg (w.check input) := by
  unfold World.check
  split
  · exact h
  · rename_i hc
    obtain ⟨hlatch, hlog⟩ := hu (by simpa using hc)
    unfold World.adoptStandingWelfareFreeze
    split
    · exact {
        placed := by simp [hlatch]
        pending := by simp [hlatch]
        once := by simp [hlog, preservations]
        held := by simp
        ended := by simp [hlog]
        final := by simp [hlog, EndIsFinal] }
    · exact @Latched.besides cfg w _ [] h rfl rfl (by simp)

theorem Does.holdersChecked (h : Does cfg inputs w t) : t.holdersChecked = w.holdersChecked := by
  have hresponded : ∀ {r : ResponseInput} {reason : CrossingReason} {w t : World},
      Responded cfg r reason w t → t.holdersChecked = w.holdersChecked := by
    intro r reason w t h
    cases h <;> rfl
  have hescalated : ∀ {r : ResponseInput} {reason : CrossingReason} {w t : World},
      Escalated cfg r reason w t → t.holdersChecked = w.holdersChecked := by
    intro r reason w t h
    cases h with
    | held h | raised h => exact hresponded h
    | reset h => exact (hresponded h).trans rfl
  cases h with
  | arm _ h =>
    cases h with
    | unavailable _ hr | restFailed _ _ _ _ hr | freshCrossing _ _ _ _ _ _ _ hr =>
      exact (hescalated hr).trans rfl
    | _ => rfl
  | answer _ _ _ hr => exact hresponded hr
  | retry _ _ _ hr => cases hr <;> rfl
  | _ => rfl

theorem Path.holdersChecked (h : Path cfg inputs w t) : t.holdersChecked = w.holdersChecked := by
  induction h with
  | refl => rfl
  | tail _ hstep ih => rw [hstep.holdersChecked, ih]

theorem holdersChecked_check (w : World) (input : PollInput) :
    (w.check input).holdersChecked = true := by
  unfold World.check World.adoptStandingWelfareFreeze
  split
  · assumption
  · split <;> rfl

/-- The moves in which no call that reads a freeze back raises. -/
def Move.ReadsBack : Move → Prop
  | .poll p => Welfare.ReadsBack p.responses
  | _ => True

/-- The invariant of a run. -/
def Sound (cfg : Config) (s : System) : Prop := Latched cfg s.world ∧ Untouched s.world

theorem sound_initial (cfg : Config) (file : ControlFile) (interoception welfare : Bus.Stream) :
    Sound cfg (.initial cfg file interoception welfare) := by
  refine ⟨?_, fun _ => ⟨rfl, rfl⟩⟩
  exact {
    placed := by simp [System.initial, World.initial]
    pending := by simp [System.initial, World.initial]
    once := by simp [System.initial, World.initial, preservations]
    held := by simp [System.initial, World.initial]
    ended := by simp [System.initial, World.initial]
    final := by simp [System.initial, World.initial, EndIsFinal] }

theorem sound_step {s : System} {move : Move} (h : Sound cfg s) (hm : move.ReadsBack) :
    Sound cfg (step cfg ofText s move) := by
  cases move with
  | poll p =>
    have hpath := path_pollOnce cfg ofText (s.pollInput p) s.world
    have hchecked : (step cfg ofText s (.poll p)).world.holdersChecked = true :=
      hpath.holdersChecked.trans (holdersChecked_check s.world (s.pollInput p))
    refine ⟨(h.1.check h.2 _).path hm hpath, fun hc => ?_⟩
    rw [hchecked] at hc
    cases hc
  | control change =>
    exact ⟨@Latched.besides cfg s.world _ [] h.1 rfl rfl (by simp), h.2⟩
  | publishInteroception entry | publishWelfare entry => exact h

theorem check_of_checked {input : PollInput} (h : w.holdersChecked = true) : w.check input = w := by
  simp [World.check, h]

theorem Retried.acted {pending : PendingFreeze} (h : Retried pending w t) :
    t.latch.acted = w.latch.acted := by
  cases h <;> rfl

/-- A latched poll with a freeze to place does nothing else. -/
theorem pollOnce_pending {input : PollInput} {pending : PendingFreeze}
    (hc : w.holdersChecked = true) (ha : w.latch.acted = true)
    (hp : w.latch.pendingFreeze = some pending) :
    Retried pending w (final (pollOnce ofText cfg input) w) := by
  apply wp_iff_final.mp
  simp only [pollOnce, wp_bind, wp_modify, wp_get, wp_ite, check_of_checked hc, hp]
  exact ⟨fun _ => retryPendingFreeze_does input.retry pending w, fun h => absurd ha h⟩

/-- A latched poll with none to place stays as it is or re-arms. -/
theorem pollOnce_placed {input : PollInput} (hc : w.holdersChecked = true)
    (ha : w.latch.acted = true) (hp : w.latch.pendingFreeze = none) :
    final (pollOnce ofText cfg input) w = w ∨
      Rearmed cfg input.rearm w (final (pollOnce ofText cfg input) w) := by
  refine wp_iff_final (K := fun t => t = w ∨ Rearmed cfg input.rearm w t) |>.mp ?_
  simp only [pollOnce, wp_bind, wp_modify, wp_get, wp_ite, check_of_checked hc, hp]
  refine ⟨fun _ => ?_, fun h => absurd ha h⟩
  exact wp_mono (maybeRearm_does cfg input.rearm w) (fun _ _ ht => ht) fun _ _ ht => .inl ht

theorem Sound.checked {s : System} (h : Sound cfg s) (ha : s.world.latch.acted = true) :
    s.world.holdersChecked = true := by
  by_contra hne
  rw [(h.2 (by simpa using hne)).1] at ha
  cases ha

/-- A latch that a poll frees was freed by a re-arm. -/
theorem rearmed_of_freed {s : System} {p : PollMove} (h : Sound cfg s)
    (ha : s.world.latch.acted = true)
    (hfree : (step cfg ofText s (.poll p)).world.latch.acted = false) :
    Rearmed cfg (s.pollInput p).rearm s.world (step cfg ofText s (.poll p)).world := by
  have hc := h.checked ha
  cases hp : s.world.latch.pendingFreeze with
  | some pending =>
    have hacted : (step cfg ofText s (.poll p)).world.latch.acted = s.world.latch.acted :=
      (@pollOnce_pending cfg ofText _ (s.pollInput p) _ hc ha hp).acted
    rw [hacted, ha] at hfree
    cases hfree
  | none =>
    rcases @pollOnce_placed cfg ofText _ (s.pollInput p) hc ha hp with heq | hr
    · have hsame : (step cfg ofText s (.poll p)).world = s.world := heq
      rw [hsame, ha] at hfree
      cases hfree
    · exact hr

/-- The rules of the latch, in one state of a run and for the next poll from it. -/
structure LatchRules (cfg : Config) (ofText : String → Option PyFloat) (s : System) : Prop where
  /-- One preservation at most since the last re-arm. -/
  once : cfg.action ≠ .notify → preservations s.world.log ≤ 1
  /-- A pause is placed or pending, and not both. -/
  exactlyOne : s.world.latch.acted = true → .onEnd false ∉ s.world.log →
    (s.world.latch.pausePlaced = true ↔ s.world.latch.pendingFreeze = none)
  retried : ∀ p pending, s.world.latch.pendingFreeze = some pending →
    Retried pending s.world (step cfg ofText s (.poll p)).world
  /-- Only a readable file without a welfare entry frees the latch. -/
  released : ∀ move, s.world.latch.acted = true →
    (step cfg ofText s move).world.latch.acted = false →
      ∃ c, control s.world.file = some c ∧ c.stack.any isWelfare = false
  endIsFinal : .onEnd false ∈ s.world.log →
    s.world.latch.acted = true ∧ EndIsFinal s.world.log
  /-- After a re-arm both detectors are empty, and whatever the streams hold up to the tails at
  that time makes no difference to any later world. -/
  fresh : ∀ p, s.world.latch.acted = true →
    (step cfg ofText s (.poll p)).world.latch.acted = false →
      (step cfg ofText s (.poll p)).world.distress.tracker = (DistressArm.initial cfg).tracker ∧
      (step cfg ofText s (.poll p)).world.distress.repeats = (DistressArm.initial cfg).repeats ∧
      (step cfg ofText s (.poll p)).world.distress.distressOnsetTs = none ∧
      ∀ interoception welfare, SameAfter s.interoception.lastEntryId s.interoception interoception →
        SameAfter s.welfare.lastEntryId s.welfare welfare → ∀ moves,
          (run cfg ofText ⟨(step cfg ofText s (.poll p)).world, interoception,
            welfare⟩ moves).world = (run cfg ofText (step cfg ofText s (.poll p)) moves).world

theorem Rearmed.control {input : RearmInput} (h : Rearmed cfg input w t) :
    ∃ c, Control.control w.file = some c ∧ c.stack.any isWelfare = false := by
  have hread := h.holders
  unfold readHolders at hread
  split at hread
  · cases hread
  · simpa only [Option.map_eq_some_iff] using hread

theorem Rearmed.agree {s : System} {p : PollMove} {interoception welfare : Bus.Stream}
    (h : Rearmed cfg (s.pollInput p).rearm s.world t)
    (hi : SameAfter s.interoception.lastEntryId s.interoception interoception)
    (hw : SameAfter s.welfare.lastEntryId s.welfare welfare) :
    Agree s.interoception.lastEntryId s.welfare.lastEntryId
      ⟨t, s.interoception, s.welfare⟩ ⟨t, interoception, welfare⟩ := by
  obtain ⟨tails, hread, hdistress⟩ := h.cursors
  obtain ⟨_, -, rfl⟩ := BusRead.map_eq_read hread
  refine ⟨rfl, hi, hw, ?_⟩
  rw [Past]
  dsimp only
  rw [hdistress]
  exact ⟨le_rfl, le_rfl⟩

theorem Sound.rules {s : System} (h : Sound cfg s) : LatchRules cfg ofText s where
  once hne := by
    have honce := h.1.once hne
    split at honce <;> omega
  exactlyOne ha hend := by
    refine ⟨fun hp => (h.1.placed hp).2, fun hnone => ?_⟩
    rcases h.1.held ha with hp | hp | hp
    · exact hp
    · exact absurd hnone hp
    · exact absurd hp hend
  retried p pending hp := by
    have ha := h.1.pending (by simp [hp])
    exact pollOnce_pending (h.checked ha) ha hp
  released move ha hfree := by
    cases move with
    | poll p => exact (rearmed_of_freed h ha hfree).control
    | control change =>
      rw [show (step cfg ofText s (.control change)).world.latch = s.world.latch from rfl,
        ha] at hfree
      cases hfree
    | publishInteroception entry | publishWelfare entry =>
      simp only [step] at hfree
      rw [ha] at hfree
      cases hfree
  endIsFinal hmem := ⟨(h.1.ended hmem).1, h.1.final⟩
  fresh p ha hfree := by
    have hrearmed := rearmed_of_freed h ha hfree
    obtain ⟨tails, -, hdistress⟩ := hrearmed.cursors
    refine ⟨by rw [hdistress]; rfl, by rw [hdistress]; rfl, by rw [hdistress]; rfl, ?_⟩
    intro interoception welfare hi hw moves
    exact ((hrearmed.agree hi hw).run moves).world

/-- Wherever a run leads in which no call that reads a freeze back raises, the latch keeps its
rules. -/
theorem latch_keeps_rules (cfg : Config) (ofText : String → Option PyFloat) (file : ControlFile)
    (interoception welfare : Bus.Stream) {moves : List Move} {s : System}
    (h : Run (Guarded (fun _ move => move.ReadsBack) fun s move t => t = step cfg ofText s move)
      (.initial cfg file interoception welfare) moves s) : LatchRules cfg ofText s := by
  have hsound : Sound cfg s := by
    refine h.invariant ?_ (sound_initial cfg file interoception welfare)
    rintro s move t ⟨hm, rfl⟩ hs
    exact sound_step hs hm
  exact hsound.rules

section
-- a pause after thirty seconds of distress or three gray-zone events, with no warm-up
def plainParams : IndicatorParams := defaultParams

def plainConfig : Config where
  action := .pause
  distressThreshold := .fin (4 / 5)
  distressDurationS := 30
  repeatWindowS := 300
  repeatThreshold := 3
  warmupS := 0
  warmupCeilingS := 0
  minIntervalS := 1800
  hasOnEnd := true
  indicatorsOn := false
  restStartTimeoutS := 30
  restCompleteDevelopmentalS := none
  restCompleteMaturedS := 3600
  unavailableEscalateS := 660
  params := plainParams

def noText (_ : String) : Option PyFloat := none

def report (n : ℕ) (error : Json) : Bus.StreamEntry :=
  ⟨⟨n, 0⟩, some { source := "interoception", type := "interoception.report"
                  payload := [("prediction_error", error)], salience := 0, timestamp := n
                  salience_valid := Bus.zero_salience }⟩

def grayZone (n : ℕ) : Bus.StreamEntry :=
  ⟨⟨n, 0⟩, some { source := "welfare", type := "welfare.gray_zone"
                  payload := [("gray_zone_event", .str "replay_overload")], salience := 0
                  timestamp := n, salience_valid := Bus.zero_salience }⟩

def calmArm : ArmInput :=
  ⟨0, 0, .absent, .absent, .failed, .failed, .failed, false, 0, true, "", true⟩

/-- A poll at a time at which every read is answered. -/
def pollAt (t : ℚ) (readBack : ReadBack) : PollMove where
  clocks := ⟨t, t⟩
  holdersRaise := false
  retry := ⟨false, .returns true (.reads true), ""⟩
  rearmHoldersRaise := false
  tails := .read (⟨0, 0⟩, ⟨0, 0⟩)
  interoception := .read fun _ => ⟨t, t⟩
  welfare := .read fun _ => ⟨t, t⟩
  timer := ⟨t, t⟩
  responses := fun _ => ⟨t, true, id, false, .returns true readBack, ""⟩
  arm := calmArm

/-- Distress for thirty seconds, the response to it, and then three gray-zone events. -/
def distressThenGray (readBack : ReadBack) : List Move :=
  [.publishInteroception (report 1 (.float (.fin (9 / 10)))), .poll (pollAt 0 (.reads true)),
    .poll (pollAt 30 readBack), .publishWelfare (grayZone 1), .publishWelfare (grayZone 2),
    .publishWelfare (grayZone 3), .poll (pollAt 31 (.reads true))]

def emptyStream : Bus.Stream := ⟨[], by decide⟩

def bootedWelfare : System := .initial plainConfig .missing emptyStream emptyStream

theorem latch_keeps_rules_pausing :
    (run plainConfig noText bootedWelfare (distressThenGray (.reads true))).world.latch.acted =
      true ∧
    LatchRules plainConfig noText
      (run plainConfig noText bootedWelfare (distressThenGray (.reads true))) := by
  refine ⟨by decide +kernel, ?_⟩
  apply latch_keeps_rules plainConfig noText .missing emptyStream emptyStream
  refine Run.foldl _ bootedWelfare fun s move hmove => ⟨?_, rfl⟩
  simp only [distressThenGray, List.mem_cons, List.not_mem_nil, or_false] at hmove
  rcases hmove with rfl | rfl | rfl | rfl | rfl | rfl | rfl <;>
    simp [Move.ReadsBack, ReadsBack, pollAt]

/-- Where the read-back raises, the response is not latched: the next crossing preserves and freezes
once more, with no re-arm between. -/
theorem raised_read_back_preserves_twice :
    ((run plainConfig noText bootedWelfare (distressThenGray .raises)).world.log.filter fun e =>
        match e with
        | .preserveLive _ | .freeze _ | .record .rearmed => true
        | _ => false) =
      [.freeze ⟨.repeatedGrayZone, none⟩, .preserveLive true,
        .freeze ⟨.sustainedDistress, none⟩, .preserveLive true] := by
  decide +kernel

end
end Kaine.Welfare
