import Kaine.Affect.Drives
import Kaine.Lib.Relaxation
import Mathlib.Analysis.Complex.ExponentialBounds

/-! Every crossing of a run of the drives, and how each of them ended. -/
namespace Kaine.Drives
open Py Relaxation

section Drive

variable {K : Type} [Field K] [LinearOrder K] {exp : K → K} {x dt v : K} {d d' : Drive K}
  {own : Bool}

theorem clamp01_of_mem (h : 0 ≤ x ∧ x ≤ 1) : clamp01 x = x := by
  rw [clamp01, if_neg (not_lt.mpr h.1), if_neg (not_lt.mpr h.2)]

/-- The ends that were counted, and the crossing that is still open. -/
def Drive.accounted (d : Drive K) : ℕ := d.ownEnds + d.otherEnds + d.resetEnds + d.hasFired.toNat

/-- What any call can do to a drive: the latch is only cleared below the band, and only a drive with
no latch fires. -/
structure Moves (d d' : Drive K) (fired : Bool) : Prop where
  cfg : d'.cfg = d.cfg
  heterostatic : d'.heterostatic = d.heterostatic
  value_mem : 0 ≤ d'.value ∧ d'.value ≤ 1
  interest : d.heterostatic = true → d'.resetEnds = d.resetEnds
  released : d.hasFired = true → d'.hasFired = false → d'.value < d.band
  fired : fired = true → d.hasFired = false ∧ d'.hasFired = true

/-- A call that counts how each crossing ends. -/
def Balances (d d' : Drive K) (fired : Bool) : Prop :=
  d.heterostatic = false → d'.accounted = d.accounted + fired.toNat

theorem moves_refl (hv : 0 ≤ d.value ∧ d.value ≤ 1) : Moves d d false where
  cfg := rfl
  heterostatic := rfl
  value_mem := hv
  interest _ := rfl
  released h h' := by rw [h] at h'; cases h'
  fired h := by cases h

theorem balances_refl : Balances d d false := fun _ => rfl

theorem checkHysteresis_of_latched (own : Bool) (hfired : d.hasFired = true)
    (hbelow : d.value < d.band) : d.checkHysteresis own =
      if d.heterostatic then { d with hasFired := false }
      else if own then { d with hasFired := false, ownEnds := d.ownEnds + 1 }
      else { d with hasFired := false, otherEnds := d.otherEnds + 1 } :=
  if_pos ⟨hfired, hbelow⟩

/-- A new value, and the latch that it may release. -/
theorem checkHysteresis_moves (hv : 0 ≤ v ∧ v ≤ 1) :
    Moves d ({ d with value := v }.checkHysteresis own) false ∧
      Balances d ({ d with value := v }.checkHysteresis own) false := by
  by_cases hrelease : d.hasFired = true ∧ v < d.band
  · have hreleased := checkHysteresis_of_latched (d := { d with value := v }) own hrelease.1
      hrelease.2
    rw [hreleased]
    dsimp only
    split_ifs with hhet hown
    · exact ⟨⟨rfl, rfl, hv, fun _ => rfl, fun _ _ => hrelease.2, fun h => by cases h⟩,
        fun h => by simp [hhet] at h⟩
    · refine ⟨⟨rfl, rfl, hv, fun _ => rfl, fun _ _ => hrelease.2, fun h => by cases h⟩, fun _ => ?_⟩
      simp only [Drive.accounted, hrelease.1, Bool.toNat_false, Bool.toNat_true]
      omega
    · refine ⟨⟨rfl, rfl, hv, fun _ => rfl, fun _ _ => hrelease.2, fun h => by cases h⟩, fun _ => ?_⟩
      simp only [Drive.accounted, hrelease.1, Bool.toNat_false, Bool.toNat_true]
      omega
  · have hkept : { d with value := v }.checkHysteresis own = { d with value := v } :=
      if_neg hrelease
    rw [hkept]
    refine ⟨⟨rfl, rfl, hv, fun _ => rfl, fun h h' => ?_, fun h => by cases h⟩, fun _ => rfl⟩
    rw [h] at h'
    cases h'

theorem checkHysteresis_value : (d.checkHysteresis own).value = d.value := by
  rw [Drive.checkHysteresis]
  split_ifs <;> rfl

theorem reset_balances (h : d.hasFired = false) : Balances d d.reset false := by
  intro _
  rw [Drive.accounted, Drive.accounted, h]
  rfl

variable [IsStrictOrderedRing K]

theorem clamp01_mem (x : K) : 0 ≤ clamp01 x ∧ clamp01 x ≤ 1 := by
  unfold clamp01
  split_ifs with hneg hone
  · exact ⟨le_rfl, zero_le_one⟩
  · exact ⟨zero_le_one, le_rfl⟩
  · exact ⟨not_lt.mp hneg, not_lt.mp hone⟩

theorem hysteresisFraction_eq : (hysteresisFraction : K) = 9 / 10 := by
  rw [hysteresisFraction]
  norm_num

theorem Drive.band_pos (d : Drive K) : 0 < d.band := by
  rw [Drive.band, hysteresisFraction_eq]
  exact mul_pos d.cfg.threshold_mem.1 (by norm_num)

theorem Drive.band_lt (d : Drive K) : d.band < d.cfg.threshold := by
  have hpos := d.cfg.threshold_mem.1
  rw [Drive.band, hysteresisFraction_eq]
  linarith

/-- The equilibrium of a build input lies in the range of the drive. -/
theorem equilibrium_mem (d : Drive K) {u : K} (hu : 0 ≤ u)
    (hr : 0 < d.cfg.buildRate * u + d.cfg.decayRate) :
    0 ≤ d.cfg.buildRate * u / (d.cfg.buildRate * u + d.cfg.decayRate) ∧
      d.cfg.buildRate * u / (d.cfg.buildRate * u + d.cfg.decayRate) ≤ 1 := by
  refine ⟨div_nonneg (mul_nonneg d.cfg.buildRate_nonneg hu) hr.le, (div_le_one hr).mpr ?_⟩
  linarith [d.cfg.decayRate_nonneg]

theorem Drive.step_eq (hexp : IsExp exp) (d : Drive K) {u : K} (hu : 0 ≤ u) (hdt : 0 ≤ dt)
    (hx : 0 ≤ x ∧ x ≤ 1) :
    d.step exp x u dt =
      if 0 < d.cfg.buildRate * u + d.cfg.decayRate then
        relax exp (d.cfg.buildRate * u / (d.cfg.buildRate * u + d.cfg.decayRate))
          (d.cfg.buildRate * u + d.cfg.decayRate) x dt
      else x := by
  rw [Drive.step]
  split_ifs with hr
  · exact clamp01_of_mem (relax_mem hexp hr.le hdt (equilibrium_mem d hu hr) hx)
  · rfl

theorem Drive.step_mem (hexp : IsExp exp) (d : Drive K) {u : K} (hu : 0 ≤ u) (hdt : 0 ≤ dt)
    (hx : 0 ≤ x ∧ x ≤ 1) :
    0 ≤ d.step exp x u dt ∧ d.step exp x u dt ≤ 1 := by
  rw [d.step_eq hexp hu hdt hx]
  split_ifs with hr
  · exact relax_mem hexp hr.le hdt (equilibrium_mem d hu hr) hx
  · exact hx

theorem tick_moves (hexp : IsExp exp) (hv : 0 ≤ d.value ∧ d.value ≤ 1) (dt signal : K)
    (noResponse : Option K) : Moves d (d.tick exp dt signal noResponse) false ∧
      Balances d (d.tick exp dt signal noResponse) false := by
  rw [Drive.tick]
  split_ifs with hdt
  · exact ⟨moves_refl hv, balances_refl⟩
  · exact checkHysteresis_moves (d.step_mem hexp (clamp01_mem signal).1 (not_le.mp hdt).le hv)

/-- A tick reports a crossing where it leaves the drive at the threshold with its latch clear. -/
theorem consumeCrossing_moves (hmoves : Moves d d' false) (hbalances : Balances d d' false) :
    Moves d d'.consumeCrossing.2 d'.consumeCrossing.1 ∧
      Balances d d'.consumeCrossing.2 d'.consumeCrossing.1 := by
  rw [Drive.consumeCrossing]
  split_ifs with hcross
  · have hclear : d'.hasFired = false := by simpa using hcross.2
    have hband : d.band = d'.band := by rw [Drive.band, Drive.band, hmoves.cfg]
    refine ⟨⟨hmoves.cfg, hmoves.heterostatic, hmoves.value_mem, hmoves.interest,
      fun _ h => (by cases h), fun _ => ⟨?_, rfl⟩⟩,
      fun h => ?_⟩
    · by_contra hlatched
      have hbelow := hmoves.released (by simpa using hlatched) hclear
      rw [hband] at hbelow
      exact absurd hcross.1 (not_le.mpr (hbelow.trans d'.band_lt))
    · have hsame := hbalances h
      simp only [Drive.accounted, hclear, Bool.toNat_false, Bool.toNat_true] at hsame ⊢
      omega
  · exact ⟨hmoves, hbalances⟩

theorem reset_moves : Moves d d.reset false :=
  ⟨rfl, rfl, ⟨le_rfl, zero_le_one⟩, fun _ => rfl, fun _ _ => d.band_pos, fun h => by cases h⟩

theorem sleepReset_moves : Moves d d.sleepReset false ∧ Balances d d.sleepReset false := by
  rw [Drive.sleepReset]
  split_ifs with hopen
  · refine ⟨⟨rfl, rfl, ⟨le_rfl, zero_le_one⟩, fun h => absurd h hopen.2, fun _ _ => d.band_pos,
      fun h => by cases h⟩,
      fun _ => ?_⟩
    simp only [Drive.accounted, Drive.reset, hopen.1, Bool.toNat_false, Bool.toNat_true]
    omega
  · refine ⟨reset_moves, fun h => ?_⟩
    have hclear : d.hasFired = false := by
      by_contra hlatched
      exact hopen ⟨by simpa using hlatched, by simp [h]⟩
    exact reset_balances hclear h

theorem relieve_moves (strength : K) :
    Moves d (d.relieve strength own) false ∧ Balances d (d.relieve strength own) false :=
  checkHysteresis_moves (clamp01_mem _)

theorem relieveFraction_moves (fraction : K) :
    Moves d (d.relieveFraction fraction own) false ∧
      Balances d (d.relieveFraction fraction own) false :=
  checkHysteresis_moves (clamp01_mem _)

theorem relieveRate_moves (hv : 0 ≤ d.value ∧ d.value ≤ 1) (strength dt : K) :
    Moves d (d.relieveRate exp strength dt own) false ∧
      Balances d (d.relieveRate exp strength dt own) false := by
  rw [Drive.relieveRate]
  split_ifs
  · exact checkHysteresis_moves (clamp01_mem _)
  · exact checkHysteresis_moves hv

theorem tick_value (hexp : IsExp exp) (hv : 0 ≤ d.value ∧ d.value ≤ 1) (hdt : 0 ≤ dt) (signal : K)
    (noResponse : Option K) : (d.tick exp dt signal noResponse).value =
      d.step exp d.value (clamp01 signal) dt := by
  rw [Drive.tick]
  split_ifs with hle
  · have hzero : dt = 0 := le_antisymm hle hdt
    rw [d.step_eq hexp (clamp01_mem signal).1 hdt hv, hzero, relax_zero hexp, ite_self]
  · exact checkHysteresis_value

/-- Two ticks under one signal are a tick of the time that both take. -/
theorem tick_tick (hexp : IsExp exp) (hv : 0 ≤ d.value ∧ d.value ≤ 1) {dt₁ dt₂ : K} (h₁ : 0 ≤ dt₁)
    (h₂ : 0 ≤ dt₂)
    (signal : K) (n₁ n₂ n : Option K) :
    ((d.tick exp dt₁ signal n₁).tick exp dt₂ signal n₂).value =
      (d.tick exp (dt₁ + dt₂) signal n).value := by
  have hu := (clamp01_mem signal).1
  have hmoves := (tick_moves hexp hv dt₁ signal n₁).1
  have hfirst := tick_value hexp hv h₁ signal n₁
  have hmem := hmoves.value_mem
  rw [tick_value hexp hmem h₂, tick_value hexp hv (add_nonneg h₁ h₂),
    Drive.step_eq hexp _ hu h₂ hmem, Drive.step_eq hexp _ hu (add_nonneg h₁ h₂) hv, hmoves.cfg,
    hfirst, Drive.step_eq hexp _ hu h₁ hv]
  split_ifs
  · exact relax_relax hexp
  · rfl

end Drive

theorem find_text (n : DriveName) : DriveName.find n.text = some n := by
  cases n <;> rfl

theorem mem_all (n : DriveName) : n ∈ DriveName.all := by
  cases n <;> decide

theorem mem_deficits (n : DriveName) : n ∈ DriveName.deficits ↔ n.heterostatic = false := by
  cases n <;> decide

section Saved

variable {K : Type} [Field K] [LinearOrder K] (s t : DriveSet K) (n : DriveName)

theorem loadValues_toDict :
    t.loadValues s.toDict n = { t n with value := max 0 (min 1 (s n).value) } := by
  simp only [DriveSet.loadValues, DriveSet.toDict, DriveName.all, List.map_cons, List.map_nil,
    List.foldl_cons, List.foldl_nil, find_text]
  cases n <;> rfl

theorem lookup_map_text {V : Type} (f : DriveName → V) (names : List DriveName) (hn : n ∈ names) :
    (names.map fun n => (n.text, f n)).lookup n.text = some (f n) := by
  induction names with
  | nil => cases hn
  | cons m rest ih =>
    by_cases hm : n.text = m.text
    · have heq : n = m := by simpa [find_text] using congrArg DriveName.find hm
      simp [heq]
    · rcases List.mem_cons.mp hn with rfl | hn
      · exact absurd rfl hm
      · rw [List.map_cons, Assoc.lookup_cons_of_ne hm, ih hn]

theorem loadFired_firedToDict :
    t.loadFired (.obj s.firedToDict) n = { t n with hasFired := (s n).hasFired } := by
  have hlookup : (DriveSet.firedToDict s).lookup n.text = some (.bool (s n).hasFired) :=
    lookup_map_text n (fun n => Json.bool (s n).hasFired) _ (mem_all n)
  rw [DriveSet.loadFired, DriveSet.latch, hlookup]
  rfl

theorem count_ofNat (ends : ℕ) : DriveSet.count (some (.int ends)) = some ends := by
  rw [DriveSet.count, if_pos (Int.natCast_nonneg ends), Int.toNat_natCast]

theorem loadOutcomes_outcomesToDict :
    t.loadOutcomes (.obj s.outcomesToDict) n =
      { t n with ownEnds := (s n).ownEnds, otherEnds := (s n).otherEnds } := by
  have hown : ∀ m, ([("own", Json.int (s m).ownEnds),
      ("other", .int (s m).otherEnds)].lookup "own") = some (.int (s m).ownEnds) := fun m => rfl
  have hother : ∀ m, ([("own", Json.int (s m).ownEnds),
      ("other", .int (s m).otherEnds)].lookup "other") = some (.int (s m).otherEnds) := fun m => rfl
  simp only [DriveSet.loadOutcomes, DriveSet.outcomesToDict, DriveName.all, List.map_cons,
    List.map_nil, List.foldl_cons, List.foldl_nil, find_text, hown, hother, count_ofNat,
    Option.getD_some]
  cases n <;> rfl

theorem loadResetEnds_resetEndsToDict :
    t.loadResetEnds (.obj s.resetEndsToDict) n =
      if n ∈ DriveName.deficits then { t n with resetEnds := (s n).resetEnds } else t n := by
  rw [DriveSet.loadResetEnds]
  dsimp only
  split_ifs with hn
  · have hlookup : (DriveSet.resetEndsToDict s).lookup n.text = some (.int (s n).resetEnds) :=
      lookup_map_text n (fun n => Json.int (s n).resetEnds) _ hn
    rw [hlookup, count_ofNat]
    rfl
  · rfl

/-- What a saved state restores of a drive. -/
theorem restore_save :
    restore t (save s) n =
      { t n with
        value := max 0 (min 1 (s n).value)
        hasFired := (s n).hasFired
        ownEnds := (s n).ownEnds
        otherEnds := (s n).otherEnds
        resetEnds := if n ∈ DriveName.deficits then (s n).resetEnds else (t n).resetEnds } := by
  simp only [restore, save, loadResetEnds_resetEndsToDict, loadOutcomes_outcomesToDict,
    loadFired_firedToDict, loadValues_toDict]
  split_ifs <;> rfl

theorem modify_getD (name : String) (f : Drive K → Drive K) :
    ((s.modify name f).getD s) n = if DriveName.find name = some n then f (s n) else s n := by
  rw [DriveSet.modify]
  cases hfind : DriveName.find name with
  | none => rfl
  | some m =>
    by_cases hm : n = m
    · subst hm
      simp
    · simp [hm, Ne.symm hm]

/-- The drives of an accepted configuration: at rest, nothing counted. -/
def Built (fresh : DriveSet K) : Prop :=
  ∀ n, ∃ cfg, fresh n = { cfg, heterostatic := n.heterostatic }

theorem fromConfig_drive {conf : Section K} {d : Drive K} (h : Drive.fromConfig conf n = .ok d) :
    ∃ cfg, d = { cfg, heterostatic := n.heterostatic } := by
  rw [Drive.fromConfig] at h
  split at h
  · cases h
  · rename_i hknown
    revert h
    generalize DriveConfig.make (K := K) _ = made
    intro h
    cases made with
    | error e => cases h
    | ok cfg =>
      cases h
      exact ⟨cfg, rfl⟩

theorem fromConfig_built {conf : Section K} {fresh : DriveSet K}
    (h : DriveSet.fromConfig conf = .ok fresh) : Built fresh := by
  rw [DriveSet.fromConfig] at h
  split at h
  · cases h
  · simp only [bind, Except.bind, pure, Except.pure] at h
    cases hcuriosity : Drive.fromConfig conf .curiosity with
    | error e => simp [hcuriosity] at h
    | ok curiosity =>
      cases hboredom : Drive.fromConfig conf .boredom with
      | error e => simp [hcuriosity, hboredom] at h
      | ok boredom =>
        cases hsocial : Drive.fromConfig conf .socialDrive with
        | error e => simp [hcuriosity, hboredom, hsocial] at h
        | ok socialDrive =>
          cases hrestless : Drive.fromConfig conf .restlessness with
          | error e => simp [hcuriosity, hboredom, hsocial, hrestless] at h
          | ok restlessness =>
            simp only [hcuriosity, hboredom, hsocial, hrestless, Except.ok.injEq] at h
            subst h
            intro n
            cases n with
            | curiosity => exact fromConfig_drive _ hcuriosity
            | boredom => exact fromConfig_drive _ hboredom
            | socialDrive => exact fromConfig_drive _ hsocial
            | restlessness => exact fromConfig_drive _ hrestless

variable {n} {fresh d d' : Drive K} {fired : Bool}

/-- The drives of a run, against those that it started with. -/
structure Stands (n : DriveName) (fresh d : Drive K) : Prop where
  cfg : d.cfg = fresh.cfg
  heterostatic : d.heterostatic = n.heterostatic
  value_mem : 0 ≤ d.value ∧ d.value ≤ 1
  interest : n.heterostatic = true → d.resetEnds = fresh.resetEnds

theorem Stands.moves (h : Stands n fresh d) (hmoves : Moves d d' fired) :
    Stands n fresh d' where
  cfg := hmoves.cfg.trans h.cfg
  heterostatic := hmoves.heterostatic.trans h.heterostatic
  value_mem := hmoves.value_mem
  interest hint := (hmoves.interest (h.heterostatic.trans hint)).trans (h.interest hint)

end Saved

section Names

variable {K : Type} {n : DriveName}

/-- The crossings of a drive. -/
def tally (crossings : List (DriveCrossing K)) (n : DriveName) : ℕ :=
  crossings.countP fun c => c.name = n

def fires (crossings : List (DriveCrossing K)) (n : DriveName) : Bool :=
  crossings.any fun c => c.name = n

theorem tally_names (p : DriveName → Bool) (value : DriveName → K) :
    tally ((DriveName.all.filter p).map fun m => ⟨m, value m⟩) n = (p n).toNat := by
  have hcount : tally ((DriveName.all.filter p).map fun m => ⟨m, value m⟩) n =
      DriveName.all.countP fun m => decide (m = n) && p m := by
    rw [tally, List.countP_map, List.countP_filter]
    rfl
  rw [hcount]
  cases n <;> simp [DriveName.all, Bool.toNat, List.countP_cons]

theorem fires_names (p : DriveName → Bool) (value : DriveName → K) :
    fires ((DriveName.all.filter p).map fun m => ⟨m, value m⟩) n = p n := by
  have hany : fires ((DriveName.all.filter p).map fun m => ⟨m, value m⟩) n =
      DriveName.all.any fun m => p m && decide (m = n) := by
    rw [fires, List.any_map, List.any_filter]
    rfl
  rw [hany]
  cases n <;> simp [DriveName.all]

end Names

section Run

variable {K : Type} [Field K] [LinearOrder K] {exp : K → K} {fresh s : DriveSet K}
  {ops : List (Op K)} {n : DriveName}

theorem tally_eq_fires (op : Op K) :
    tally (perform exp fresh s op).1 n = (fires (perform exp fresh s op).1 n).toNat := by
  cases op with
  | tick dt signals =>
    rw [perform, DriveSet.tick, tally_names, fires_names]
  | _ => rfl

/-- A save and a restore change nothing. -/
theorem restore_save_eq (hfresh : Built fresh) (h : Stands n (fresh n) (s n)) :
    restore fresh (save s) n = s n := by
  rw [restore_save]
  obtain ⟨cfg, heq⟩ := hfresh n
  have hvalue : max 0 (min 1 (s n).value) = (s n).value := by
    rw [min_eq_right h.value_mem.2, max_eq_right h.value_mem.1]
  have hreset : (if n ∈ DriveName.deficits then (s n).resetEnds else (fresh n).resetEnds) =
    (s n).resetEnds := by
    split_ifs with hn
    · rfl
    · rw [mem_deficits] at hn
      exact (h.interest (by simpa using hn)).symm
  have hcfg : (s n).cfg = cfg := by rw [h.cfg, heq]
  rw [hvalue, hreset, heq, ← hcfg, ← h.heterostatic]

/-- The drives after a sequence of calls. -/
def after (exp : K → K) (fresh : DriveSet K) (ops : List (Op K)) : DriveSet K :=
  (run exp fresh ops).2

theorem run_concat (ops : List (Op K)) (op : Op K) :
    run exp fresh (ops ++ [op]) =
      ((run exp fresh ops).1 ++ (perform exp fresh (after exp fresh ops) op).1,
        (perform exp fresh (after exp fresh ops) op).2) := by
  rw [run, List.foldl_append]
  rfl

theorem after_concat (ops : List (Op K)) (op : Op K) :
    after exp fresh (ops ++ [op]) = (perform exp fresh (after exp fresh ops) op).2 := by
  rw [after, run_concat]

variable [IsStrictOrderedRing K]

/-- Only `reset_all` can clear a latch and count nothing. -/
theorem perform_moves (hexp : IsExp exp) (hfresh : Built fresh) (h : Stands n (fresh n) (s n))
    (op : Op K) : Moves (s n) ((perform exp fresh s op).2 n) (fires (perform exp fresh s op).1 n) ∧
      ((op = .resetAll → (s n).hasFired = false) →
        Balances (s n) ((perform exp fresh s op).2 n) (fires (perform exp fresh s op).1 n)) := by
  have hsame : Moves (s n) (s n) false ∧ Balances (s n) (s n) false :=
    ⟨moves_refl h.value_mem, balances_refl⟩
  have hmodify : ∀ (name : String) (f : Drive K → Drive K),
      Moves (s n) (f (s n)) false ∧ Balances (s n) (f (s n)) false →
      Moves (s n) (((s.modify name f).getD s) n) false ∧
        Balances (s n) (((s.modify name f).getD s) n) false := by
    intro name f hf
    rw [modify_getD]
    split_ifs
    · exact hf
    · exact hsame
  cases op with
  | tick dt signals =>
    obtain ⟨hmoves, hbalances⟩ :=
      tick_moves hexp h.value_mem dt (signals.of n) (signals.noResponse n)
    obtain ⟨hmoves, hbalances⟩ := consumeCrossing_moves hmoves hbalances
    rw [perform, DriveSet.tick, fires_names]
    exact ⟨hmoves, fun _ => hbalances⟩
  | relieve name strength own =>
    have h' := hmodify name (fun d => d.relieve strength own) (relieve_moves strength)
    exact ⟨h'.1, fun _ => h'.2⟩
  | relieveRate name strength dt own =>
    have h' :=
      hmodify name (fun d => d.relieveRate exp strength dt own)
        (relieveRate_moves h.value_mem strength dt)
    exact ⟨h'.1, fun _ => h'.2⟩
  | relieveFraction name fraction own =>
    have h' := hmodify name (fun d => d.relieveFraction fraction own)
      (relieveFraction_moves fraction)
    exact ⟨h'.1, fun _ => h'.2⟩
  | resetAll => exact ⟨reset_moves, fun hclear => reset_balances (hclear rfl)⟩
  | resetDeficits =>
    by_cases hn : n ∈ DriveName.deficits
    · have hreset : s.resetDeficits n = (s n).sleepReset := if_pos hn
      rw [perform]
      dsimp only
      rw [hreset]
      exact ⟨sleepReset_moves.1, fun _ => sleepReset_moves.2⟩
    · have hkept : s.resetDeficits n = s n := if_neg hn
      rw [perform]
      dsimp only
      rw [hkept]
      exact ⟨hsame.1, fun _ => hsame.2⟩
  | saveRestore =>
    rw [perform]
    dsimp only
    rw [restore_save_eq hfresh h]
    exact ⟨hsame.1, fun _ => hsame.2⟩

theorem stands_after (hexp : IsExp exp) (hfresh : Built fresh) (ops : List (Op K)) (n : DriveName) :
    Stands n (fresh n) (after exp fresh ops n) := by
  induction ops using List.reverseRecOn with
  | nil =>
    obtain ⟨cfg, heq⟩ := hfresh n
    refine ⟨rfl, ?_, ?_, fun _ => rfl⟩
    · exact congrArg Drive.heterostatic heq
    · have hzero : (after exp fresh [] n).value = 0 := congrArg Drive.value heq
      rw [hzero]
      exact ⟨le_rfl, zero_le_one⟩
  | append_singleton ops op ih =>
    rw [after_concat]
    exact ih.moves (perform_moves hexp hfresh ih op).1

/-- No `reset_all` comes while a crossing of a deficit is open. -/
def NoOpenReset (exp : K → K) (fresh : DriveSet K) (ops : List (Op K)) : Prop :=
  ∀ before, before ++ [.resetAll] <+: ops →
    ∀ n ∈ DriveName.deficits, (after exp fresh before n).hasFired = false

theorem tally_after (hexp : IsExp exp) (hfresh : Built fresh) (hn : n ∈ DriveName.deficits)
    (hopen : NoOpenReset exp fresh ops) :
    tally (run exp fresh ops).1 n = (after exp fresh ops n).accounted := by
  induction ops using List.reverseRecOn with
  | nil =>
    obtain ⟨cfg, heq⟩ := hfresh n
    have hzero : (after exp fresh [] n).accounted = 0 := congrArg Drive.accounted heq
    rw [hzero]
    rfl
  | append_singleton ops op ih =>
    have hstands := stands_after hexp hfresh ops n
    have hhet : (after exp fresh ops n).heterostatic = false :=
        hstands.heterostatic.trans ((mem_deficits n).mp hn)
    have hclear : op = .resetAll → (after exp fresh ops n).hasFired = false := by
      rintro rfl
      exact hopen ops (List.prefix_refl _) n hn
    have hbalance := (perform_moves hexp hfresh hstands op).2 hclear hhet
    have hcount : tally (run exp fresh ops).1 n = (after exp fresh ops n).accounted :=
      ih fun before hbefore => hopen before (hbefore.trans (List.prefix_append _ _))
    rw [run_concat, after_concat, hbalance, ← hcount, ← tally_eq_fires]
    exact List.countP_append

/-- A latch that is clear again was released below the band. -/
theorem released_between (hexp : IsExp exp) (hfresh : Built fresh) {before : List (Op K)}
    (hfired : (after exp fresh before n).hasFired = true) :
    ∀ {between : List (Op K)}, (after exp fresh (before ++ between) n).hasFired = false →
      ∃ b, b <+: between ∧ (after exp fresh (before ++ b) n).value < (fresh n).band := by
  intro between
  induction between using List.reverseRecOn with
  | nil =>
    intro hclear
    rw [List.append_nil, hfired] at hclear
    cases hclear
  | append_singleton between op ih =>
    intro hclear
    cases hlatch : (after exp fresh (before ++ between) n).hasFired with
    | false =>
      obtain ⟨b, hb, hbelow⟩ := ih hlatch
      exact ⟨b, hb.trans (List.prefix_append _ _), hbelow⟩
    | true =>
      refine ⟨between ++ [op], List.prefix_refl _, ?_⟩
      have hstands := stands_after hexp hfresh (before ++ between) n
      have hmoves := (perform_moves hexp hfresh hstands op).1
      rw [← List.append_assoc, after_concat] at hclear ⊢
      have hbelow := hmoves.released hlatch hclear
      rw [Drive.band, hstands.cfg] at hbelow
      exact hbelow

/-- What every run should keep. -/
structure Accounted (exp : K → K) (fresh : DriveSet K) (ops : List (Op K)) : Prop where
  value_mem : ∀ before, before <+: ops → ∀ n,
    0 ≤ (after exp fresh before n).value ∧ (after exp fresh before n).value ≤ 1
  ends : ∀ before, before <+: ops → ∀ n ∈ DriveName.deficits,
    tally (run exp fresh before).1 n =
      (after exp fresh before n).ownEnds + (after exp fresh before n).otherEnds +
        (after exp fresh before n).resetEnds + (after exp fresh before n).hasFired.toNat
  rearmed : ∀ before op between op', before ++ op :: between ++ [op'] <+: ops → ∀ n,
    fires (perform exp fresh (after exp fresh before) op).1 n = true →
    fires (perform exp fresh (after exp fresh (before ++ op :: between)) op').1 n = true →
    ∃ b, b <+: between ∧ (after exp fresh (before ++ op :: b) n).value < (fresh n).band
  additive : ∀ before, before <+: ops → ∀ n signal n₁ n₂ n₃ dt₁ dt₂, 0 ≤ dt₁ → 0 ≤ dt₂ →
    (((after exp fresh before n).tick exp dt₁ signal n₁).tick exp dt₂ signal n₂).value =
      ((after exp fresh before n).tick exp (dt₁ + dt₂) signal n₃).value

theorem rearmed_between (hexp : IsExp exp) (hfresh : Built fresh) {before between : List (Op K)}
    {op op' : Op K} (hfirst : fires (perform exp fresh (after exp fresh before) op).1 n = true)
    (hsecond : fires (perform exp fresh (after exp fresh (before ++ op :: between)) op').1 n =
      true) :
    ∃ b, b <+: between ∧ (after exp fresh (before ++ op :: b) n).value < (fresh n).band := by
  have hlatched :=
    ((perform_moves hexp hfresh (stands_after hexp hfresh before n) op).1.fired hfirst).2
  have hclear := ((perform_moves hexp hfresh (stands_after hexp hfresh (before ++
      op :: between) n) op').1.fired hsecond).1
  rw [← after_concat] at hlatched
  have hsplit : ∀ b, before ++ op :: b = before ++ [op] ++ b := fun b => by simp
  rw [hsplit] at hclear
  obtain ⟨b, hb, hbelow⟩ := released_between hexp hfresh hlatched hclear
  exact ⟨b, hb, by rwa [hsplit]⟩

theorem accounted_of_noOpenReset (hexp : IsExp exp) (hfresh : Built fresh) :
    Accounted exp fresh ops ↔ NoOpenReset exp fresh ops := by
  constructor
  · intro h before hbefore n hn
    have hhet := (stands_after hexp hfresh before n).heterostatic.trans ((mem_deficits n).mp hn)
    have hreset := h.ends _ hbefore n hn
    have hkept := h.ends _ ((List.prefix_append _ _).trans hbefore) n hn
    rw [run_concat, after_concat] at hreset
    by_contra hlatched
    rw [Bool.not_eq_false] at hlatched
    -- the reset keeps the tally and the counts, and drops the latch
    have htally : tally ((run exp fresh before).1 ++
        (perform exp fresh (after exp fresh before) .resetAll).1) n =
        tally (run exp fresh before).1 n := by rw [perform, List.append_nil]
    rw [htally, hkept, hlatched] at hreset
    simp only [perform, DriveSet.resetAll, Drive.reset, Bool.toNat_true, Bool.toNat_false] at hreset
    omega
  · intro h
    have hbegins : ∀ before, before <+: ops → NoOpenReset exp fresh before :=
      fun before hbefore b hb => h b (hb.trans hbefore)
    exact
      { value_mem := fun before _ n => (stands_after hexp hfresh before n).value_mem
        ends := fun before hbefore n hn => tally_after hexp hfresh hn (hbegins before hbefore)
        rearmed := fun before op between op' _ n => rearmed_between hexp hfresh
        additive := fun before _ n signal n₁ n₂ n₃ dt₁ dt₂ h₁ h₂ =>
          tick_tick hexp (stands_after hexp hfresh before n).value_mem h₁ h₂ signal n₁ n₂ n₃ }

end Run

/-- In a run of the drives of an accepted configuration every crossing is accounted for exactly
where no `reset_all` comes while a crossing of a deficit is open. -/
theorem accounted_iff {conf : Section ℝ} {fresh : DriveSet ℝ}
    (h : DriveSet.fromConfig conf = .ok fresh) (ops : List (Op ℝ)) : Accounted Real.exp fresh ops ↔
      NoOpenReset Real.exp fresh ops :=
  accounted_of_noOpenReset isExp_real (fromConfig_built h)

section Brisk

theorem ten_atLeastTwo : Nat.AtLeastTwo 10 := ⟨by decide⟩

section

attribute [local instance] ten_atLeastTwo

/-- A boredom drive that reaches its threshold within a second. -/
noncomputable def brisk : Section ℝ :=
  [("boredom", [("build_rate", 1), ("decay_rate", 0), ("threshold", 1 / 10)])]

noncomputable def standard (n : DriveName) : DriveConfig ℝ where
  toDriveParams := driveDefaults n
  reliefGain_mem := by cases n <;> norm_num [driveDefaults]
  buildRate_nonneg := by cases n <;> norm_num [driveDefaults]
  decayRate_nonneg := by cases n <;> norm_num [driveDefaults]
  threshold_mem := by cases n <;> norm_num [driveDefaults]

noncomputable def briskConfig : DriveConfig ℝ where
  toDriveParams := ⟨1, 0, 1 / 10, (3 / 10 : ℚ)⟩
  reliefGain_mem := by norm_num
  buildRate_nonneg := by norm_num
  decayRate_nonneg := by norm_num
  threshold_mem := by norm_num

end

noncomputable def briskDrives (n : DriveName) : Drive ℝ :=
  { cfg := if n = .boredom then briskConfig else standard n, heterostatic := n.heterostatic }

theorem make_eq (cfg : DriveConfig ℝ) : DriveConfig.make cfg.toDriveParams = .ok cfg := by
  rw [DriveConfig.make, dif_pos cfg.reliefGain_mem, dif_pos cfg.buildRate_nonneg,
    dif_pos cfg.decayRate_nonneg, dif_pos cfg.threshold_mem]

theorem brisk_drive (n : DriveName) : Drive.fromConfig brisk n = .ok (briskDrives n) := by
  have hmade : Drive.fromConfig brisk n =
      (DriveConfig.make (briskDrives n).cfg.toDriveParams).map fun cfg =>
        { cfg, heterostatic := n.heterostatic } := by
    cases n <;> rfl
  rw [hmade, make_eq]
  rfl

theorem brisk_built : DriveSet.fromConfig brisk = .ok briskDrives := by
  have hknown : brisk.find? (fun entry => (DriveName.find entry.1).isNone) = none := by
    simp [brisk, DriveName.find, DriveName.all, DriveName.text]
  rw [DriveSet.fromConfig, hknown]
  simp only [brisk_drive, bind, Except.bind, pure, Except.pure]
  congr 1
  funext n
  cases n <;> rfl

/-- A second in which nothing goes on. -/
noncomputable def idleSecond : Op ℝ := .tick 1 ⟨0, 1, 0, 0, none⟩

theorem accounted_iff_brisk : Accounted Real.exp briskDrives [idleSecond, .resetDeficits] := by
  refine (accounted_iff brisk_built _).mpr fun before hbefore => ?_
  have hmem : Op.resetAll ∈ [idleSecond, .resetDeficits] := hbefore.subset (by simp)
  simp [idleSecond] at hmem

theorem brisk_value : ((briskDrives .boredom).tick Real.exp 1 1 none).value =
    1 - Real.exp (-1) := by
  have hone : clamp01 (1 : ℝ) = 1 := clamp01_of_mem ⟨zero_le_one, le_rfl⟩
  have hrest : (0 : ℝ) ≤ (briskDrives .boredom).value ∧ (briskDrives .boredom).value ≤ 1 :=
      ⟨le_rfl, zero_le_one⟩
  have hbuild : (briskDrives .boredom).cfg.buildRate = 1 := rfl
  have hdecay : (briskDrives .boredom).cfg.decayRate = 0 := rfl
  have hstart : (briskDrives .boredom).value = 0 := rfl
  rw [tick_value isExp_real hrest zero_le_one, hone,
    Drive.step_eq isExp_real _ zero_le_one zero_le_one hrest, hbuild,
    hdecay, hstart, if_pos (by norm_num), relax]
  norm_num
  ring

theorem consumeCrossing_hasFired {d : Drive ℝ} (h : d.cfg.threshold ≤ d.value) :
    d.consumeCrossing.2.hasFired = true := by
  rw [Drive.consumeCrossing]
  split_ifs with hcross
  · rfl
  · by_contra hclear
    exact hcross ⟨h, hclear⟩

theorem brisk_fires : (after Real.exp briskDrives [idleSecond] .boredom).hasFired = true := by
  have hreached : (1 : ℝ) / 10 ≤ 1 - Real.exp (-1) := by linarith [Real.exp_neg_one_lt_half]
  refine consumeCrossing_hasFired (d := (briskDrives .boredom).tick Real.exp 1 1 none) ?_
  rw [brisk_value, (tick_moves isExp_real ⟨le_rfl, zero_le_one⟩ 1 1 none).1.cfg]
  exact hreached

/-- A `reset_all` while boredom's crossing is open loses it. -/
theorem resetAll_loses :
    ¬ ∀ (conf : Section ℝ) (fresh : DriveSet ℝ), DriveSet.fromConfig conf = .ok fresh →
      ∀ ops : List (Op ℝ), Accounted Real.exp fresh ops := by
  intro hall
  have hopen := (accounted_of_noOpenReset isExp_real (fromConfig_built brisk_built)).mp
    (hall brisk briskDrives brisk_built [idleSecond, .resetAll])
  have hclear := hopen [idleSecond] (List.prefix_refl _) .boredom (by decide)
  rw [brisk_fires] at hclear
  cases hclear

end Brisk

end Kaine.Drives
