import Kaine.Cycle.WelfareResponse
import Kaine.Lib.Routine

/-! What a protective response can do, whatever it meets. -/
namespace Kaine.Welfare
open Py Control WelfareIndicators Routine

variable {cfg : Config} {r : ResponseInput} {inputs : ℕ → ResponseInput} {w w' : World}
  {reason : CrossingReason}

/-- What one response can do. A raising read-back leaves the latch as it was. -/
inductive Responded (cfg : Config) (r : ResponseInput) (reason : CrossingReason) (w : World) :
    World → Prop where
  | suppressed (ha : cfg.action = .notify) :
      Responded cfg r reason w
        { w with responses := w.responses + 1, log := .response reason :: w.log }
  | noticed (ha : cfg.action = .notify) (file : ControlFile) (endFailed : Bool) (kind : String) :
      Responded cfg r reason w { w with
        responses := w.responses + 1, file
        latch := { w.latch with
          acted := false, pausePlaced := false, lastNotifyAt := some r.monotonic }
        log := .notice kind ::
          .record (.protectiveAction reason .notify r.saved endFailed false false) ::
          .preserveLive r.saved :: .response reason :: w.log }
  | raised (ha : cfg.action ≠ .notify) (hr : ∃ ok, r.freeze = .returns ok .raises)
      (file : ControlFile) (fallback : Option Fallback) (hook : List Effect)
      (hh : hook = [] ∨ hook = [.onEnd true]) :
      Responded cfg r reason w { w with
        responses := w.responses + 1, file
        log := .freeze ⟨reason, fallback⟩ ::
          (hook ++ .preserveLive r.saved :: .response reason :: w.log) }
  | paused (ha : cfg.action ≠ .notify) (file : ControlFile) (fallback : Option Fallback)
      (hook : List Effect) (hh : hook = [] ∨ hook = [.onEnd true]) (placed : Bool)
      (taken : ActionTaken) (endFailed unreadable : Bool) (kind : String) :
      Responded cfg r reason w { w with
        responses := w.responses + 1, file
        latch := { w.latch with
          acted := true, pausePlaced := placed
          pendingFreeze :=
            if placed then w.latch.pendingFreeze else some ⟨⟨reason, fallback⟩, reason, taken, 1⟩ }
        log := .notice kind ::
          .record (.protectiveAction reason taken r.saved endFailed (!placed) unreadable) ::
          .freeze ⟨reason, fallback⟩ ::
          (hook ++ .preserveLive r.saved :: .response reason :: w.log) }
  | ended (ha : cfg.action = .endRun) (file : ControlFile) (endFailed : Bool) (kind : String) :
      Responded cfg r reason w { w with
        responses := w.responses + 1, file
        latch := { w.latch with acted := true, pausePlaced := false }
        log := .notice kind ::
          .record (.protectiveAction reason .endRun r.saved endFailed false false) ::
          .onEnd false :: .preserveLive r.saved :: .response reason :: w.log }

/-- A response that returns has latched the monitor, unless it was a notice. -/
def Returned (cfg : Config) (r : ResponseInput) (reason : CrossingReason) (w t : World) : Prop :=
  Responded cfg r reason w t ∧ (cfg.action ≠ .notify → t.latch.acted = true)

/-- Placing a freeze writes the file or not, and enters the log in any case. -/
theorem wp_placeWelfareFreeze {call : FreezeCall} {now : String} {freezeReason : FreezeReason}
    {Q : FreezeOutcome → World → Prop} {R : Fault → World → Prop}
    (hfailed : ∀ file, Q ⟨false, false⟩ { w with file, log := .freeze freezeReason :: w.log })
    (hplaced : ∀ file unreadable,
      Q ⟨true, unreadable⟩ { w with file, log := .freeze freezeReason :: w.log })
    (hraised : ∀ file, (∃ ok, call = .returns ok .raises) →
      R (.raised .osError) { w with file, log := .freeze freezeReason :: w.log }) :
    wp (placeWelfareFreeze call now freezeReason) Q R w := by
  cases call with
  | raises landed =>
    cases landed
    · simpa [placeWelfareFreeze, emit] using hfailed w.file
    · simpa [placeWelfareFreeze, emit, World.freezeFile] using hfailed _
  | returns readable readBack =>
    cases readBack with
    | raises =>
      cases readable
      · simpa [placeWelfareFreeze, emit] using hraised w.file ⟨_, rfl⟩
      · simpa [placeWelfareFreeze, emit, World.freezeFile] using hraised _ ⟨_, rfl⟩
    | reads ok =>
      cases readable
      · simpa [placeWelfareFreeze, emit] using hplaced w.file _
      · simpa [placeWelfareFreeze, emit, World.freezeFile] using hplaced _ _

section
variable {detail : Option IndicatorDetail}

/-- The world in which the action is taken: the state is saved, and others went on meanwhile. -/
def World.preserved (w : World) (r : ResponseInput) (reason : CrossingReason) : World :=
  { w with
    responses := w.responses + 1, file := r.meanwhile w.file
    log := .preserveLive r.saved :: .response reason :: w.log }

theorem carryOut_freezes {taken : ActionTaken} (fallback : Option Fallback) {hook : List Effect}
    (ha : cfg.action ≠ .notify) (ht : taken = .pause ∨ taken = .pauseFallback)
    (hh : hook = [] ∨ hook = [.onEnd true]) :
    wp (carryOut cfg r reason detail taken (some ⟨reason, fallback⟩))
      (fun _ => Returned cfg r reason w) (fun _ => Responded cfg r reason w)
      { w.preserved r reason with log := hook ++ (w.preserved r reason).log } := by
  rw [carryOut, wp_bind]
  apply wp_placeWelfareFreeze
  · intro file
    simpa [emit, Latch.settle, World.preserved, Returned, ha] using
      Responded.paused (w := w) (r := r) ha file fallback hook hh false taken _ _ _
  · intro file unreadable
    simpa [emit, Latch.settle, World.preserved, Returned, ha, ht] using
      Responded.paused (w := w) (r := r) ha file fallback hook hh true taken _ unreadable _
  · intro file hraises
    exact .raised ha hraises file fallback hook hh

theorem carryOut_ends (ha : cfg.action = .endRun) :
    wp (carryOut cfg r reason detail .endRun none)
      (fun _ => Returned cfg r reason w) (fun _ => Responded cfg r reason w)
      { w.preserved r reason with log := .onEnd false :: (w.preserved r reason).log } := by
  simpa [carryOut, emit, Latch.settle, World.preserved, Returned, ha] using
    Responded.ended (w := w) (r := r) ha (r.meanwhile w.file) _ _

theorem carryOut_notifies (ha : cfg.action = .notify) :
    wp (carryOut cfg r reason detail .notify none)
      (fun _ => Returned cfg r reason w) (fun _ => Responded cfg r reason w)
      { w.preserved r reason with
        latch := { w.latch with lastNotifyAt := some r.monotonic } } := by
  simpa [carryOut, emit, Latch.settle, World.preserved, Returned, ha] using
    Responded.noticed (w := w) (r := r) ha (r.meanwhile w.file) _ _

theorem takeAction_does (ha : cfg.action ≠ .notify) :
    wp (takeAction cfg r reason detail)
      (fun _ => Returned cfg r reason w) (fun _ => Responded cfg r reason w)
      (w.preserved r reason) := by
  cases hact : cfg.action with
  | notify => exact absurd hact ha
  | pause =>
    have h := @carryOut_freezes cfg r w reason detail _ none [] ha (.inl rfl) (.inl rfl)
    simpa [takeAction, enact, hact] using h
  | endRun =>
    cases hon : cfg.hasOnEnd with
    | false =>
      have h := @carryOut_freezes cfg r w reason detail _ (some .endUnavailable) [] ha (.inr rfl)
        (.inl rfl)
      simpa [takeAction, enact, hact, hon] using h
    | true =>
      cases hr : r.onEndRaises with
      | false => simpa [takeAction, enact, emit, hact, hon, hr] using carryOut_ends hact
      | true =>
        have h := @carryOut_freezes cfg r w reason detail _ (some .endFailed) [.onEnd true] ha
          (.inr rfl) (.inr rfl)
        simpa [takeAction, enact, emit, hact, hon, hr] using h

theorem respond_does (cfg : Config) (inputs : ℕ → ResponseInput) (reason : CrossingReason)
    (detail : Option IndicatorDetail) (w : World) :
    wp (respond cfg inputs reason detail) (fun _ => Returned cfg (inputs w.responses) reason w)
      (fun _ => Responded cfg (inputs w.responses) reason w) w := by
  by_cases ha : cfg.action = .notify
  · cases hn : notifyAllowed w.latch.lastNotifyAt (inputs w.responses).monotonic cfg.minIntervalS
    · simpa [respond, preserveFirst, emit, Returned, ha, hn] using Responded.suppressed ha
    · have h := @carryOut_notifies cfg (inputs w.responses) w reason detail ha
      simpa [respond, preserveFirst, takeAction, enact, emit, ha, hn, World.preserved] using h
  · simpa [respond, preserveFirst, emit, ha, World.preserved] using takeAction_does (w := w) ha

/-- The response freezes, as a pause or in place of an end, and its call that reads the freeze back
raises. -/
def Breaks (cfg : Config) (r : ResponseInput) : Prop :=
  cfg.action ≠ .notify ∧ (cfg.action = .endRun → cfg.hasOnEnd = true → r.onEndRaises = true) ∧
    ∃ ok, r.freeze = .returns ok .raises

/-- The call returns where no freeze is placed or its read-back does not raise. -/
theorem carryOut_returns {taken : ActionTaken} {freezeReason : Option FreezeReason}
    (h : freezeReason = none ∨ ∀ ok, r.freeze ≠ .returns ok .raises) :
    wp (carryOut cfg r reason detail taken freezeReason) (fun _ _ => True)
      (fun _ _ => False) w := by
  cases freezeReason with
  | none => simp [carryOut, emit]
  | some freezeReason =>
    have hno : ∀ ok, r.freeze ≠ .returns ok .raises := h.resolve_left (by simp)
    simp only [carryOut, emit, wp_bind, wp_modify]
    apply wp_placeWelfareFreeze
    · intro _; trivial
    · intro _ _; trivial
    · rintro _ ⟨ok, hcall⟩
      exact hno ok hcall

theorem respond_returns (h : ¬ Breaks cfg (inputs w.responses)) :
    wp (respond cfg inputs reason detail) (fun _ _ => True) (fun _ _ => False) w := by
  have htake : ∀ t, cfg.action ≠ .notify →
      wp (takeAction cfg (inputs w.responses) reason detail) (fun _ _ => True) (fun _ _ => False)
        t := by
    intro t hne
    simp only [takeAction, emit, wp_bind, wp_ite, wp_modify]
    refine ⟨fun _ => carryOut_returns ?_, fun _ => carryOut_returns ?_⟩ <;>
    · by_contra hno
      push Not at hno
      refine h ⟨hne, fun hact hon => ?_, hno.2⟩
      by_contra hends
      exact hno.1 (by simp [enact, hact, hon, hends])
  by_cases ha : cfg.action = .notify
  · simp [respond, preserveFirst, takeAction, enact, carryOut, emit, ha]
  · simp only [respond, preserveFirst, emit, ha, wp_bind, wp_get, wp_modify, wp_ite, wp_pure,
      false_and, if_false]
    exact ⟨fun _ => htake _ ha, fun hfalse => (hfalse trivial).elim⟩

/-- Only the read-back of a freeze raises. -/
theorem respond_faults (cfg : Config) (inputs : ℕ → ResponseInput) (reason : CrossingReason)
    (detail : Option IndicatorDetail) (w : World) :
    wp (respond cfg inputs reason detail) (fun _ _ => True)
      (fun _ _ => ∃ ok, (inputs w.responses).freeze = .returns ok .raises) w := by
  by_cases hraises : ∃ ok, (inputs w.responses).freeze = .returns ok .raises
  · exact wp_mono (respond_does cfg inputs reason detail w) (fun _ _ _ => trivial)
      fun _ _ _ => hraises
  · have hbreaks : ¬ Breaks cfg (inputs w.responses) := fun h => hraises h.2.2
    exact wp_mono (respond_returns hbreaks) (fun _ _ h => h) fun _ _ h => h.elim

end
end Kaine.Welfare
