import Kaine.Cycle.IndicatorArmSafety
import Kaine.Cycle.WelfareMonitor

/-! What a poll of the welfare monitor can do, as the steps of a transition system: after its first
look for a standing freeze, every poll takes only these steps. -/
namespace Kaine.Welfare
open Py Control WelfareIndicators Routine Relation

variable {cfg : Config} {inputs : ℕ → ResponseInput} {ofText : String → Option PyFloat}
  {w s t u : World}

/-- The crossings of the two distress detectors. -/
def CrossingReason.ofDistress : CrossingReason → Bool
  | .sustainedDistress | .repeatedDistress | .repeatedGrayZone => true
  | _ => false

/-- One retry of a pending freeze. -/
inductive Retried (pending : PendingFreeze) (w : World) : World → Prop where
  | found (kind : String) :
      Retried pending w { w with
        latch := { w.latch with pendingFreeze := none, pausePlaced := true }
        log := .notice kind :: .record (.freezePlaced pending.crossingReason pending.action
          pending.attempts false true) :: w.log }
  | placed (file : ControlFile) (unreadable : Bool) (kind : String) :
      Retried pending w { w with
        file, latch := { w.latch with pendingFreeze := none, pausePlaced := true }
        log := .notice kind :: .record (.freezePlaced pending.crossingReason pending.action
          (pending.attempts + 1) unreadable false) :: .freeze pending.freezeReason :: w.log }
  | failed (file : ControlFile) :
      Retried pending w { w with
        file
        latch := { w.latch with
          pendingFreeze := some { pending with attempts := pending.attempts + 1 } }
        log := .freeze pending.freezeReason :: w.log }

/-- The steps of the monitor. -/
inductive Does (cfg : Config) (inputs : ℕ → ResponseInput) (w : World) : World → Prop where
  | arm {t : World} (hon : cfg.indicatorsOn = true) (h : ArmDoes cfg inputs w t) :
      Does cfg inputs w t
  | tend (distress : DistressArm) (startedAt : Option Clocks) :
      Does cfg inputs w { w with distress, startedAt }
  | report (reason : CrossingReason) (hd : reason.ofDistress = true) :
      Does cfg inputs w { w with log := .crossing reason :: w.log }
  | warmingUp (n : ℕ) (lived : ℚ) :
      Does cfg inputs w { w with log := .record (.warmingUp n lived) :: w.log }
  | answer {t : World} (ha : w.latch.acted = false) (reason : CrossingReason)
      (hd : reason.ofDistress = true) (h : Responded cfg (inputs w.responses) reason w t) :
      Does cfg inputs w t
  | retry {t : World} (ha : w.latch.acted = true) (pending : PendingFreeze)
      (hp : w.latch.pendingFreeze = some pending) (h : Retried pending w t) : Does cfg inputs w t
  | rearm (hp : w.latch.pausePlaced = true) (hn : w.latch.pendingFreeze = none)
      (hh : readHolders false w.file = some false) (tails : Tails) (arm : IndicatorArm)
      (hook : List Effect)
      (harm : hook = [] ∧ arm = w.arm ∧ cfg.indicatorsOn = false ∨
        hook = [.indicatorReset] ∧ arm.stage = .armed ∧ arm.request = none) :
      Does cfg inputs w { w with
        distress := w.distress.rearm cfg tails, arm
        latch := { w.latch with acted := false, pausePlaced := false }
        log := .record .rearmed :: (hook ++ w.log) }

def Path (cfg : Config) (inputs : ℕ → ResponseInput) : World → World → Prop :=
  ReflTransGen (Does cfg inputs)

/-- From here on the program takes only steps of the monitor. -/
def Takes {α : Type} (cfg : Config) (inputs : ℕ → ResponseInput) (w : World) (x : Poll α)
    (s : World) : Prop :=
  wp x (fun _ => Path cfg inputs w) (fun _ => Path cfg inputs w) s

theorem ArmPath.path (hon : cfg.indicatorsOn = true) (h : ArmPath cfg inputs w t) :
    Path cfg inputs w t := by
  induction h with
  | refl => exact .refl
  | tail _ hstep ih => exact ih.tail (.arm hon hstep)

theorem retryPendingFreeze_does (input : RetryInput) (pending : PendingFreeze) (w : World) :
    wp (retryPendingFreeze input pending) (fun _ => Retried pending w) (fun _ => Retried pending w)
      w := by
  simp only [retryPendingFreeze, wp_bind, wp_get, wp_ite]
  refine ⟨fun _ => .found _, fun _ => ?_⟩
  rw [wp_modify]
  apply wp_placeWelfareFreeze
  · intro file
    simpa using Retried.failed (w := w) file
  · intro file unreadable
    simpa [freezeNowPlaced, emit] using @Retried.placed pending w file unreadable _
  · exact fun file _ => .failed file

/-- What a re-arm found and what it leaves. -/
structure Rearmed (cfg : Config) (input : RearmInput) (w t : World) : Prop where
  placed : w.latch.pausePlaced = true
  holders : readHolders input.holdersRaise w.file = some false
  freed : t.latch = { w.latch with acted := false, pausePlaced := false }
  cursors : ∃ tails, input.tails = .read tails ∧ t.distress = w.distress.rearm cfg tails

theorem maybeRearm_does (cfg : Config) (input : RearmInput) (w : World) :
    wp (maybeRearm cfg input) (fun _ t => t = w ∨ Rearmed cfg input w t) (fun _ t => t = w) w := by
  simp only [maybeRearm, wp_bind, wp_get, wp_ite]
  refine ⟨?_, fun _ => .inl rfl⟩
  rintro ⟨hplaced, hholders⟩
  cases ht : input.tails with
  | timeout => exact rfl
  | failed => exact .inl rfl
  | read tails =>
    have hrearmed : ∀ arm log, Rearmed cfg input w { w with
        distress := w.distress.rearm cfg tails, arm, log
        latch := { w.latch with acted := false, pausePlaced := false } } :=
      fun _ _ => ⟨hplaced, hholders, rfl, tails, ht, rfl⟩
    cases hon : cfg.indicatorsOn with
    | false => exact .inr (hrearmed _ _)
    | true => exact .inr (hrearmed _ _)

theorem takes_maybeRearm {input : RearmInput} (hp : Path cfg inputs w s)
    (hn : s.latch.pendingFreeze = none) :
    Takes cfg inputs w (maybeRearm cfg input) s := by
  simp only [Takes, maybeRearm, wp_bind, wp_get, wp_ite]
  refine ⟨?_, fun _ => hp⟩
  rintro ⟨hplaced, hholders⟩
  have hread : readHolders false s.file = some false := by
    cases hr : input.holdersRaise <;> simp_all [readHolders]
  cases input.tails with
  | timeout | failed => exact hp
  | read tails =>
    cases hon : cfg.indicatorsOn with
    | false =>
      exact hp.tail (.rearm hplaced hn hread tails s.arm [] (.inl ⟨rfl, rfl, hon⟩))
    | true =>
      exact hp.tail (.rearm hplaced hn hread tails _ [.indicatorReset] (.inr ⟨rfl, rfl, rfl⟩))

/-- Crossings of the distress detectors alone. -/
def Distressed (reasons : List CrossingReason) : Prop :=
  ∀ reason ∈ reasons, reason.ofDistress = true

theorem Distressed.append {xs ys : List CrossingReason} (hx : Distressed xs) (hy : Distressed ys) :
    Distressed (xs ++ ys) := by
  intro reason h
  rcases List.mem_append.mp h with h | h
  · exact hx reason h
  · exact hy reason h

theorem sustained_ofDistress (a : DistressArm) (now : ℚ) :
    (a.sustained now).1.ofDistress = true := by
  unfold DistressArm.sustained
  dsimp only
  split <;> rfl

theorem observe_ofDistress (a : DistressArm) (d : Delivery) (magnitude : PyFloat)
    {reason : CrossingReason} (h : (a.observe d magnitude).1 = some reason) :
    reason.ofDistress = true := by
  unfold DistressArm.observe at h
  dsimp only at h
  split at h
  · cases h
    exact sustained_ofDistress _ _
  · cases h

theorem timeout_ofDistress (a : DistressArm) (clocks : Clocks) {reason : CrossingReason}
    (h : (a.timeout clocks).1 = some reason) : reason.ofDistress = true := by
  unfold DistressArm.timeout at h
  dsimp only at h
  split at h
  · cases h
    exact sustained_ofDistress _ _
  · cases h

theorem grayZone_ofDistress (a : DistressArm) (onset : Option PyFloat) (ofEpisode : Bool) (now : ℚ)
    {reason : CrossingReason} (h : (a.grayZone onset ofEpisode now).1 = some reason) :
    reason.ofDistress = true := by
  simp only [DistressArm.grayZone, Option.ite_none_right_eq_some, Option.some.injEq] at h
  rw [← h.2]
  rfl

theorem takes_modifyDistress {f : DistressArm → DistressArm} (hp : Path cfg inputs w s) :
    Takes cfg inputs w (modifyDistress f) s :=
  hp.tail (.tend (f s.distress) s.startedAt)

theorem takes_detect {f : DistressArm → Option CrossingReason × DistressArm}
    (hp : Path cfg inputs w s) (hf : ∀ a reason, (f a).1 = some reason → reason.ofDistress = true) :
    wp (detect f) (fun reasons t => Path cfg inputs w t ∧ Distressed reasons)
      (fun _ => Path cfg inputs w) s := by
  have htend : Path cfg inputs w { s with distress := (f s.distress).2 } :=
    hp.tail (.tend _ s.startedAt)
  simp only [detect, modifyDistress, emit, wp_bind, wp_get, wp_modify]
  cases hr : (f s.distress).1 with
  | none => exact ⟨htend, by simp [Distressed]⟩
  | some reason =>
    have hd := hf _ _ hr
    exact ⟨htend.tail (.report reason hd), by simp [Distressed, hd]⟩

theorem takes_takeInteroception {ds : List Delivery} (hp : Path cfg inputs w s) :
    wp (takeInteroception ofText ds) (fun reasons t => Path cfg inputs w t ∧ Distressed reasons)
      (fun _ => Path cfg inputs w) s := by
  induction ds generalizing s with
  | nil => exact ⟨hp, by simp [Distressed]⟩
  | cons d rest ih =>
    rw [takeInteroception, wp_bind]
    refine wp_mono (takes_modifyDistress hp) ?_ fun _ _ ht => ht
    intro _ t ht
    cases predictionError ofText d.event with
    | none => exact ih ht
    | some magnitude =>
      cases magnitude with
      | error e => exact ht
      | ok magnitude =>
        dsimp only
        rw [wp_bind]
        refine wp_mono (takes_detect ht fun a reason => observe_ofDistress a d magnitude) ?_
          fun _ _ hu => hu
        rintro here u ⟨hu, hhere⟩
        rw [wp_bind]
        refine wp_mono (ih hu) ?_ fun _ _ hv => hv
        rintro later v ⟨hv, hlater⟩
        exact ⟨hv, hhere.append hlater⟩

theorem takes_takeGrayZone {ds : List Delivery} (hp : Path cfg inputs w s) :
    wp (takeGrayZone ds) (fun reasons t => Path cfg inputs w t ∧ Distressed reasons)
      (fun _ => Path cfg inputs w) s := by
  induction ds generalizing s with
  | nil => exact ⟨hp, by simp [Distressed]⟩
  | cons d rest ih =>
    rw [takeGrayZone, wp_bind]
    refine wp_mono (takes_modifyDistress hp) ?_ fun _ _ ht => ht
    intro _ t ht
    rw [wp_ite]
    refine ⟨fun _ => ?_, fun _ => ih ht⟩
    cases grayZoneOnset d.event.payload with
    | error e => exact ht
    | ok onset =>
      dsimp only
      rw [wp_bind]
      refine wp_mono (takes_detect ht fun a reason => grayZone_ofDistress a _ _ _) ?_
        fun _ _ hu => hu
      rintro here u ⟨hu, hhere⟩
      rw [wp_bind]
      refine wp_mono (ih hu) ?_ fun _ _ hv => hv
      rintro later v ⟨hv, hlater⟩
      exact ⟨hv, hhere.append hlater⟩

theorem takes_distressReadOk {stream : String} (hp : Path cfg inputs w s) :
    Takes cfg inputs w (distressReadOk stream) s := by
  simp only [Takes, distressReadOk, wp_bind, wp_get, wp_ite]
  exact ⟨fun _ => takes_modifyDistress hp, fun _ => hp⟩

theorem takes_distressReadFailed {stream : String} (hp : Path cfg inputs w s) :
    Takes cfg inputs w (distressReadFailed stream) s := by
  simp only [Takes, distressReadFailed, wp_bind, wp_get]
  refine wp_mono (takes_modifyDistress hp) ?_ fun _ _ ht => ht
  intro _ t ht
  simp [ht]

theorem takes_readInteroception {read : BusRead Batch} (hp : Path cfg inputs w s) :
    Takes cfg inputs w (readInteroception read) s := by
  cases read with
  | timeout => exact hp
  | failed =>
    simp only [Takes, readInteroception, wp_tryCatch, wp_bind, wp_pure]
    exact wp_mono (takes_distressReadFailed hp) (fun _ _ ht => ht) fun _ _ ht => ht
  | read batch =>
    simp only [Takes, readInteroception, wp_bind, wp_pure]
    exact wp_mono (takes_distressReadOk hp) (fun _ _ ht => ht) fun _ _ ht => ht

theorem takes_skipTo {last : Option Bus.EntryId} {f : Bus.EntryId → DistressArm → DistressArm}
    (hp : Path cfg inputs w s) : Takes cfg inputs w (skipTo last f) s := by
  cases last with
  | none => exact hp
  | some last => exact takes_modifyDistress hp

theorem takes_drainGrayZone {read : BusRead Batch} (hp : Path cfg inputs w s) :
    wp (drainGrayZone read) (fun reasons t => Path cfg inputs w t ∧ Distressed reasons)
      (fun _ => Path cfg inputs w) s := by
  cases read with
  | timeout => exact hp
  | failed =>
    simp only [drainGrayZone, wp_bind, wp_pure]
    exact wp_mono (takes_distressReadFailed hp) (fun _ _ ht => ⟨ht, by simp [Distressed]⟩)
      fun _ _ ht => ht
  | read batch =>
    simp only [drainGrayZone, wp_bind, wp_pure]
    refine wp_mono (takes_distressReadOk hp) ?_ fun _ _ ht => ht
    intro _ t ht
    refine wp_mono (takes_takeGrayZone ht) ?_ fun _ _ hu => hu
    rintro reasons u ⟨hu, hd⟩
    exact wp_mono (takes_skipTo hu) (fun _ _ hv => ⟨hv, hd⟩) fun _ _ hv => hv

theorem takes_collect {input : PollInput} (hp : Path cfg inputs w s) :
    wp (collect ofText input) (fun found t => Path cfg inputs w t ∧ Distressed found.1)
      (fun _ => Path cfg inputs w) s := by
  simp only [collect, hear, wp_bind, wp_pure]
  refine wp_mono (takes_readInteroception hp) ?_ fun _ _ ht => ht
  rintro ⟨batch, deferred⟩ t ht
  dsimp only
  refine wp_mono (takes_takeInteroception ht) ?_ fun _ _ hu => hu
  rintro heard u ⟨hu, hheard⟩
  refine wp_mono (takes_skipTo hu) ?_ fun _ _ hv => hv
  intro _ v hv
  have htimer : wp (checkTimer input.timer heard)
      (fun reasons t => Path cfg inputs w t ∧ Distressed reasons)
      (fun _ => Path cfg inputs w) v := by
    rw [checkTimer, wp_ite]
    exact ⟨fun _ => takes_detect hv fun a reason => timeout_ofDistress a _,
      fun _ => ⟨hv, hheard⟩⟩
  refine wp_mono htimer ?_ fun _ _ hx => hx
  rintro reasons x ⟨hx, hreasons⟩
  rw [wp_tryCatch, wp_bind]
  refine wp_mono (takes_drainGrayZone hx) ?_ ?_
  · rintro gray y ⟨hy, hgray⟩
    exact ⟨hy, hreasons.append hgray⟩
  · intro fault y hy
    cases fault with
    | raised e => exact hy
    | busTimeout | busReadFailing => exact ⟨hy, hreasons⟩

theorem takes_respondAll {reasons : List CrossingReason} (hp : Path cfg inputs w s)
    (hd : Distressed reasons) : Takes cfg inputs w (respondAll cfg inputs reasons) s := by
  induction reasons generalizing s with
  | nil => exact hp
  | cons reason rest ih =>
    simp only [Takes, respondAll, wp_bind, wp_get, wp_ite, wp_pure]
    refine ⟨fun _ => hp, fun ha => ?_⟩
    have hreason := hd reason (by simp)
    have hstep : ∀ t, Responded cfg (inputs s.responses) reason s t → Path cfg inputs w t :=
      fun t ht => hp.tail (.answer (by simpa using ha) reason hreason ht)
    refine wp_mono (respond_does cfg inputs reason none s) ?_ fun _ t ht => hstep t ht
    exact fun _ t ht => ih (hstep t ht.1) fun r hr => hd r (by simp [hr])

theorem takes_pollArm {input : PollInput} {deferred : Option Fault}
    (hp : Path cfg input.responses w s) :
    Takes cfg input.responses w (pollArm cfg input deferred) s := by
  simp only [Takes, pollArm, wp_bind, wp_get, wp_ite, wp_pure, wp_tryCatch]
  refine ⟨?_, fun _ => hp⟩
  rintro ⟨hon, ha⟩
  refine wp_mono (reaches_indicatorPoll .refl ha) (fun _ t ht => hp.trans (ht.path hon)) ?_
  intro fault t ht
  have hpt : Path cfg input.responses w t := hp.trans (ht.path hon)
  simp [hpt]

theorem takes_listen {input : PollInput} (hp : Path cfg input.responses w s) :
    Takes cfg input.responses w (listen ofText cfg input) s := by
  simp only [Takes, listen, wp_bind]
  refine wp_mono (takes_collect hp) ?_ fun _ _ ht => ht
  rintro ⟨reasons, deferred⟩ t ⟨ht, hd⟩
  refine wp_mono (takes_respondAll ht hd) ?_ fun _ _ hu => hu
  intro _ u hu
  refine wp_mono (takes_pollArm hu) ?_ fun _ _ hv => hv
  intro kept v hv
  cases kept with
  | none => exact hv
  | some fault => exact hv

theorem takes_drainStream {stream : String} {read : BusRead Batch}
    {note : Delivery → DistressArm → DistressArm} {skip : Bus.EntryId → DistressArm → DistressArm}
    (hp : Path cfg inputs w s) : Takes cfg inputs w (drainStream stream read note skip) s := by
  cases read with
  | timeout => exact hp
  | failed =>
    simp only [Takes, drainStream, wp_bind, wp_pure]
    exact wp_mono (takes_distressReadFailed hp) (fun _ _ ht => ht) fun _ _ ht => ht
  | read batch =>
    simp only [Takes, drainStream, wp_bind, wp_pure]
    refine wp_mono (takes_distressReadOk hp) ?_ fun _ _ ht => ht
    intro _ t ht
    refine wp_mono (takes_modifyDistress ht) ?_ fun _ _ hu => hu
    intro _ u hu
    exact wp_mono (takes_skipTo hu) (fun _ _ hv => hv) fun _ _ hv => hv

theorem takes_drainDuringWarmup {input : PollInput} (hp : Path cfg input.responses w s) :
    Takes cfg input.responses w (drainDuringWarmup cfg input) s := by
  simp only [Takes, drainDuringWarmup, noteWarmup, emit, wp_bind, wp_get, wp_ite, wp_pure]
  refine wp_mono (takes_drainStream hp) ?_ fun _ _ ht => ht
  intro reports t ht
  refine wp_mono (takes_drainStream ht) ?_ fun _ _ hu => hu
  intro grays u hu
  refine wp_mono (takes_modifyDistress hu) ?_ fun _ _ hv => hv
  intro _ v hv
  have haccrue : ∀ x, cfg.indicatorsOn = true → Path cfg input.responses w x →
      wp (indicatorAccrue input.arm) (fun _ => Path cfg input.responses w)
        (fun _ => Path cfg input.responses w) x := by
    intro x hon hx
    refine wp_mono (keeps_indicatorAccrue input.arm x (.refl x)) ?_ ?_ <;>
      exact fun _ _ hy => hx.trans (hy.path.path hon)
  refine ⟨fun _ => ?_, fun _ => ⟨fun hon => haccrue v hon hv, fun _ => hv⟩⟩
  have hrecord : ∀ lived, Path cfg input.responses w
      { v with log := .record (.warmingUp (reports + grays) lived) :: v.log } :=
    fun lived => hv.tail (.warmingUp _ lived)
  exact ⟨fun hon => haccrue _ hon (hrecord _), fun _ => hrecord _⟩

/-- A poll takes only steps of the monitor, from the world as its first look left it. -/
theorem takes_pollOnce (input : PollInput) (w : World) :
    wp (pollOnce ofText cfg input) (fun _ => Path cfg input.responses (w.check input))
      (fun _ => Path cfg input.responses (w.check input)) w := by
  simp only [pollOnce, wp_bind, wp_modify, wp_get, wp_ite]
  refine ⟨fun ha => ?_, fun _ => ?_⟩
  · cases hpend : (w.check input).latch.pendingFreeze with
    | none => exact takes_maybeRearm .refl hpend
    | some pending =>
      refine wp_mono (retryPendingFreeze_does input.retry pending (w.check input)) ?_ ?_ <;>
        exact fun _ t ht => .single (.retry ha pending hpend ht)
  · have hstart : Path cfg input.responses (w.check input) ((w.check input).start input.clocks) :=
      .single (.tend (w.check input).distress _)
    exact ⟨fun _ => takes_drainDuringWarmup hstart, fun _ => takes_listen hstart⟩

theorem path_pollOnce (cfg : Config) (ofText : String → Option PyFloat) (input : PollInput)
    (w : World) :
    Path cfg input.responses (w.check input) (final (pollOnce ofText cfg input) w) :=
  wp_iff_final.mp (takes_pollOnce input w)

end Kaine.Welfare
