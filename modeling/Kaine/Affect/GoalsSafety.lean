import Kaine.Affect.GoalLoadSafety

/-! Every run of the goal ledger. -/
namespace Kaine.Goals
open Py GoalTable GoalLedger

variable {goals : GoalTable} {goal old : Goal} {goalId : String} {kv kv' : String × Goal}
  {ofText : String → Option PyFloat} {ledger : GoalLedger} {ever : List Goal}

theorem finished_iff : goal.finished = true ↔ goal.state ≠ .active := decide_eq_true_iff

/-- What pruning does: the latest finished goals stay, as many as may, and every active one. -/
theorem pruneFinished_spec (goals : GoalTable) :
    ∃ dropped, goals.finished.Perm (dropped ++ (pruneFinished goals).finished) ∧
      dropped.length = goals.finished.length - maxFinished ∧
      (∀ d ∈ dropped, ∀ k ∈ (pruneFinished goals).finished, d.2.age ≤ k.2.age) ∧
      ∀ kv, kv ∈ (pruneFinished goals).entries ↔ kv ∈ goals.entries ∧ kv ∉ dropped := by
  unfold pruneFinished
  split_ifs with hfew
  · refine ⟨[], .refl _, by rw [List.length_nil]; omega, fun d hd => (by cases hd), fun kv => ?_⟩
    simp
  · dsimp only
    let sorted := SortBy.sortBy (fun kv : String × Goal => kv.2.age) goals.finished
    let count := goals.finished.length - maxFinished
    have hperm : sorted.Perm goals.finished := SortBy.sortBy_perm _ _
    have hsorted : sorted.Pairwise fun d k => d.2.age ≤ k.2.age := SortBy.pairwise_sortBy _ _
    have hsplit : sorted = sorted.take count ++ sorted.drop count :=
      (List.take_append_drop _ _).symm
    have hnodup : (sorted.take count ++ sorted.drop count).Nodup :=
      hsplit ▸ hperm.nodup_iff.mpr finished_nodup
    have hin : ∀ d ∈ sorted.take count, d ∈ goals.entries := fun d hd =>
      (mem_finished.mp (hperm.mem_iff.mp (List.mem_of_mem_take hd))).1
    have hmem : ∀ kv, kv ∈ (goals.keep fun kv => kv.1 ∉ (sorted.take count).map Prod.fst).entries ↔
        kv ∈ goals.entries ∧ kv ∉ sorted.take count := by
      intro kv
      rw [mem_keep, decide_eq_true_iff]
      refine and_congr_right fun hkv => not_congr ?_
      constructor
      · intro h
        obtain ⟨d, hd, hid⟩ := List.mem_map.mp h
        exact eq_of_fst (hin d hd) hkv hid ▸ hd
      · exact List.mem_map_of_mem
    have hkept : ∀ kv, kv ∈ (goals.keep fun kv =>
        kv.1 ∉ (sorted.take count).map Prod.fst).finished ↔ kv ∈ sorted.drop count := by
      intro kv
      rw [mem_finished, hmem, and_right_comm, ← mem_finished, ← hperm.mem_iff]
      constructor
      · rintro ⟨hs, hnot⟩
        rw [hsplit] at hs
        exact (List.mem_append.mp hs).resolve_left hnot
      · intro hdrop
        refine ⟨List.mem_of_mem_drop hdrop, fun htake => ?_⟩
        exact (List.nodup_append.mp hnodup).2.2 kv htake kv hdrop rfl
    have hpermKept :=
      (List.perm_ext_iff_of_nodup finished_nodup (List.nodup_append.mp hnodup).2.1).mpr hkept
    refine ⟨sorted.take count, ?_, ?_, fun d hd k hk => ?_, hmem⟩
    · refine hperm.symm.trans ?_
      nth_rewrite 1 [hsplit]
      exact List.Perm.append_left _ hpermKept.symm
    · rw [List.length_take, hperm.length_eq]
      omega
    · rw [hsplit] at hsorted
      exact (List.pairwise_append.mp hsorted).2.2 d hd k ((hkept k).mp hk)


/-- The goal that a step finishes. -/
def made (ledger : GoalLedger) : GoalStep → Option Goal
  | .complete goalId now =>
    ((ledger.goals.get goalId).filter (!·.finished)).map (·.finish .completed now)
  | .abandon goalId now =>
    ((ledger.goals.get goalId).filter (!·.finished)).map (·.finish .abandoned now)
  | _ => none

/-- The goals that the steps finish, each as its transition left it. -/
def everFinished (ofText : String → Option PyFloat) : GoalLedger → List GoalStep → List Goal
  | _, [] => []
  | ledger, step :: steps =>
    (made ledger step).toList ++ everFinished ofText (step.perform ofText ledger) steps

/-- The totals count what was finished, and the ledger keeps no more of it than it may. -/
structure Accounted (ever : List Goal) (ledger : GoalLedger) : Prop where
  completed : ledger.completedTotal = ever.countP (·.state = .completed)
  abandoned : ledger.abandonedTotal = ever.countP (·.state = .abandoned)
  few : ledger.goals.finished.length ≤ maxFinished

theorem perform_restore (ofText : String → Option PyFloat) (ledger : GoalLedger) :
    GoalStep.restore.perform ofText ledger = ledger := by
  have hload := loadDict_toDict ofText ledger {}
  simp only [GoalStep.perform, fromDict, hload]

/-- The ledger after a goal that was active is finished. -/
def finishAs (ledger : GoalLedger) (new : Goal) : GoalLedger where
  goals := pruneFinished (ledger.goals.put new)
  completedTotal := ledger.completedTotal + if new.state = .completed then 1 else 0
  abandonedTotal := ledger.abandonedTotal + if new.state = .abandoned then 1 else 0

theorem transition_cases (ledger : GoalLedger) (goalId : String) (state : GoalState)
    (now : FiniteFloat) : (∃ old, ledger.goals.get goalId = some old ∧ old.state = .active ∧
      ledger.orKeep (ledger.transition goalId state now) = finishAs ledger (old.finish state now)) ∨
    ((∀ old, ledger.goals.get goalId = some old → old.state ≠ .active) ∧
      ledger.orKeep (ledger.transition goalId state now) = ledger) := by
  unfold GoalLedger.transition
  cases hget : ledger.goals.get goalId with
  | none => exact .inr ⟨fun old hold => (by cases hold), rfl⟩
  | some old =>
    by_cases hactive : old.state = .active
    · refine .inl ⟨old, rfl, hactive, ?_⟩
      dsimp only
      rw [if_neg (not_not.mpr hactive)]
      rfl
    · refine .inr ⟨fun old' hold => Option.some.inj hold ▸ hactive, ?_⟩
      dsimp only
      rw [if_pos hactive]
      rfl

/-- A goal that is put in active leaves the finished ones, but for one that it replaces. -/
theorem finished_put_active (goals : GoalTable) (hactive : goal.state = .active) :
    (goals.put goal).finished ⊆ goals.finished ∧
      ((∀ kv ∈ goals.finished, kv.1 ≠ goal.id.val) →
        goals.finished ⊆ (goals.put goal).finished) := by
  constructor
  · intro kv hkv
    obtain ⟨hmem, hfinished⟩ := mem_finished.mp hkv
    rcases mem_put.mp hmem with rfl | ⟨hmem, -⟩
    · exact absurd hactive (finished_iff.mp hfinished)
    · exact mem_finished.mpr ⟨hmem, hfinished⟩
  · intro hne kv hkv
    obtain ⟨hmem, hfinished⟩ := mem_finished.mp hkv
    exact mem_finished.mpr ⟨mem_put.mpr (.inr ⟨hmem, hne kv hkv⟩), hfinished⟩

/-- What clearing keeps includes every finished goal. -/
theorem finished_keep (goals : GoalTable) {p : String × Goal → Bool}
    (hp : ∀ kv, kv.2.finished = true → p kv = true) :
    (goals.keep p).finished ⊆ goals.finished ∧ goals.finished ⊆ (goals.keep p).finished := by
  constructor
  · intro kv hkv
    obtain ⟨hmem, hfinished⟩ := mem_finished.mp hkv
    exact mem_finished.mpr ⟨(mem_keep.mp hmem).1, hfinished⟩
  · intro kv hkv
    obtain ⟨hmem, hfinished⟩ := mem_finished.mp hkv
    exact mem_finished.mpr ⟨mem_keep.mpr ⟨hmem, hp kv hfinished⟩, hfinished⟩

theorem add_cases (ledger : GoalLedger) (gid : Name) (description : String) (priority : PyFloat)
    (drive : Option String) (likelihood : Option PyFloat) (now : FiniteFloat) :
    ledger.orKeep (ledger.add gid description priority drive likelihood now) = ledger ∨
    ∃ goal : Goal, goal.id = gid ∧ goal.state = .active ∧
      ledger.orKeep (ledger.add gid description priority drive likelihood now) =
        { ledger with goals := ledger.goals.put goal } := by
  unfold GoalLedger.add
  split
  · exact .inr ⟨_, rfl, rfl, rfl⟩
  · exact .inl rfl

theorem setLikelihood_cases (ledger : GoalLedger) (goalId : String) (likelihood : PyFloat) :
    ledger.orKeep (ledger.setLikelihood goalId likelihood) = ledger ∨
    ∃ old new : Goal, ledger.goals.get goalId = some old ∧ old.state = .active ∧
      new.state = .active ∧ new.id = old.id ∧
      ledger.orKeep (ledger.setLikelihood goalId likelihood) =
        { ledger with goals := ledger.goals.put new } := by
  unfold GoalLedger.setLikelihood
  cases hget : ledger.goals.get goalId with
  | none => exact .inl rfl
  | some old =>
    cases UnitFloat.ofFloat likelihood with
    | none => exact .inl rfl
    | some x =>
      by_cases hactive : old.state = .active
      · refine .inr ⟨old, { old with likelihood := some x }, rfl, hactive, hactive, rfl, ?_⟩
        dsimp only
        rw [if_neg (not_not.mpr hactive)]
        rfl
      · refine .inl ?_
        dsimp only
        rw [if_pos hactive]
        rfl

/-- A step adds its goal under a new id. -/
def Fresh (ledger : GoalLedger) : GoalStep → Prop
  | .add gid _ _ _ _ _ => ledger.goals.get gid.val = none
  | _ => True

/-- A step either finishes one goal or makes no difference to the finished ones. -/
theorem step_cases (ofText : String → Option PyFloat) (ledger : GoalLedger) (step : GoalStep) :
    (∃ old state now, ledger.goals.get old.id.val = some old ∧ old.state = .active ∧
      state ≠ .active ∧ made ledger step = some (old.finish state now) ∧
      step.perform ofText ledger = finishAs ledger (old.finish state now)) ∨
    (made ledger step = none ∧
      (step.perform ofText ledger).completedTotal = ledger.completedTotal ∧
      (step.perform ofText ledger).abandonedTotal = ledger.abandonedTotal ∧
      (step.perform ofText ledger).goals.finished ⊆ ledger.goals.finished ∧
      (Fresh ledger step →
        ledger.goals.finished ⊆ (step.perform ofText ledger).goals.finished)) := by
  have hsame : ∀ {after : GoalLedger}, after = ledger →
      after.completedTotal = ledger.completedTotal ∧ after.abandonedTotal = ledger.abandonedTotal ∧
        after.goals.finished ⊆ ledger.goals.finished ∧
      (Fresh ledger step → ledger.goals.finished ⊆ after.goals.finished) := by
    rintro after rfl
    exact ⟨rfl, rfl, List.Subset.refl _, fun _ => List.Subset.refl _⟩
  have htransition : ∀ goalId state now, state ≠ .active →
      made ledger step = ((ledger.goals.get goalId).filter (!·.finished)).map (·.finish state now) →
      step.perform ofText ledger = ledger.orKeep (ledger.transition goalId state now) →
      (∃ old state now, ledger.goals.get old.id.val = some old ∧ old.state = .active ∧
        state ≠ .active ∧ made ledger step = some (old.finish state now) ∧
        step.perform ofText ledger = finishAs ledger (old.finish state now)) ∨
      (made ledger step = none ∧ step.perform ofText ledger = ledger) := by
    intro goalId state now hstate hmade hperform
    rcases transition_cases ledger goalId state now with ⟨old, hget, hactive, heq⟩ | ⟨hnone, heq⟩
    · refine .inl ⟨old, state, now, (id_of_get hget).symm ▸ hget, hactive, hstate, ?_,
        hperform.trans heq⟩
      rw [hmade, hget]
      simp [Goal.finished, hactive]
    · refine .inr ⟨?_, hperform.trans heq⟩
      rw [hmade]
      cases hget : ledger.goals.get goalId with
      | none => rfl
      | some old => simp [Goal.finished, hnone old hget]
  cases step with
  | complete goalId now =>
    rcases htransition goalId .completed now (by simp) rfl rfl with h | ⟨hmade, hkeep⟩
    · exact .inl h
    · exact .inr ⟨hmade, hsame hkeep⟩
  | abandon goalId now =>
    rcases htransition goalId .abandoned now (by simp) rfl rfl with h | ⟨hmade, hkeep⟩
    · exact .inl h
    · exact .inr ⟨hmade, hsame hkeep⟩
  | restore => exact .inr ⟨rfl, hsame (perform_restore ofText ledger)⟩
  | clearActive =>
    obtain ⟨hless, hmore⟩ := finished_keep ledger.goals (p := (·.2.finished)) fun kv h => h
    exact .inr ⟨rfl, rfl, rfl, hless, fun _ => hmore⟩
  | clearActiveForDrive drive =>
    obtain ⟨hless, hmore⟩ := finished_keep ledger.goals
      (p := fun kv => kv.2.finished || kv.2.drive.map Subtype.val ≠ some drive) fun kv h => by
        simp [h]
    exact .inr ⟨rfl, rfl, rfl, hless, fun _ => hmore⟩
  | setLikelihood goalId likelihood =>
    refine .inr ⟨rfl, ?_⟩
    rcases setLikelihood_cases ledger goalId likelihood with h | ⟨old, new, hget, hold,
      hnew, hid, h⟩
    · exact hsame h
    · have hperform : (GoalStep.setLikelihood goalId likelihood).perform ofText ledger =
          { ledger with goals := ledger.goals.put new } := h
      obtain ⟨hless, hmore⟩ := finished_put_active ledger.goals hnew
      rw [hperform]
      refine ⟨rfl, rfl, hless, fun _ => hmore fun kv hkv heq => ?_⟩
      obtain ⟨hmem, hfinished⟩ := mem_finished.mp hkv
      have hsame := eq_of_fst hmem (get_iff.mp hget) (heq.trans (by rw [hid, id_of_get hget]))
      rw [hsame] at hfinished
      exact finished_iff.mp hfinished hold
  | add gid description priority drive likelihood now =>
    refine .inr ⟨rfl, ?_⟩
    rcases add_cases ledger gid description priority drive likelihood now with h | ⟨goal, rfl,
      hactive, h⟩
    · exact hsame h
    · have hperform : (GoalStep.add goal.id description priority drive likelihood now).perform
          ofText ledger = { ledger with goals := ledger.goals.put goal } := h
      obtain ⟨hless, hmore⟩ := finished_put_active ledger.goals hactive
      rw [hperform]
      refine ⟨rfl, rfl, hless, fun hfresh => hmore fun kv hkv heq => ?_⟩
      have hget : ledger.goals.get goal.id.val = some kv.2 :=
        get_iff.mpr (heq ▸ (mem_finished.mp hkv).1)
      cases hget.symm.trans hfresh

theorem Accounted.step (h : Accounted ever ledger) (step : GoalStep) :
    Accounted (ever ++ (made ledger step).toList) (step.perform ofText ledger) := by
  rcases step_cases ofText ledger step with ⟨old, state, now, -, -, -, hmade,
    hperform⟩ | ⟨hmade, hc, ha, hless, -⟩
  · rw [hmade, hperform]
    refine ⟨?_, ?_, ?_⟩
    · simp [finishAs, h.completed, List.countP_append, List.countP_singleton]
    · simp [finishAs, h.abandoned, List.countP_append, List.countP_singleton]
    · obtain ⟨dropped, hperm, hcount, -⟩ :=
        pruneFinished_spec (ledger.goals.put (old.finish state now))
      have hlength := hperm.length_eq
      rw [List.length_append] at hlength
      change (pruneFinished (ledger.goals.put (old.finish state now))).finished.length ≤ maxFinished
      omega
  · rw [hmade, Option.toList_none, List.append_nil]
    have hfewer := (finished_nodup.subperm hless).length_le
    exact ⟨hc.trans h.completed, ha.trans h.abandoned, hfewer.trans h.few⟩

theorem Accounted.run (h : Accounted ever ledger) (steps : List GoalStep) :
    Accounted (ever ++ everFinished ofText ledger steps)
      (steps.foldl (GoalStep.perform ofText) ledger) := by
  induction steps generalizing ever ledger with
  | nil =>
    rw [everFinished, List.append_nil]
    exact h
  | cons step steps ih =>
    rw [everFinished, ← List.append_assoc]
    exact ih (h.step step)

/-- What was finished and is gone went for as many later ones as the ledger may keep. -/
structure Latest (ever : List Goal) (ledger : GoalLedger) : Prop where
  mem : ∀ kv ∈ ledger.goals.finished, kv.2 ∈ ever
  later : ∀ e ∈ ever, (e.id.val, e) ∈ ledger.goals.finished ∨
    (ledger.goals.finished.length = maxFinished ∧ ∀ k ∈ ledger.goals.finished, e.age ≤ k.2.age)

/-- Putting a finished goal in the place of an active one. -/
theorem finished_put (hold : goals.get goal.id.val = some old) (hactive : old.state = .active)
    (hgoal : goal.finished = true) :
    (goals.put goal).finished.Perm ((goal.id.val, goal) :: goals.finished) := by
  have hne : ∀ kv ∈ goals.finished, kv.1 ≠ goal.id.val := by
    intro kv hkv heq
    obtain ⟨hmem, hfinished⟩ := mem_finished.mp hkv
    rw [eq_of_fst hmem (get_iff.mp hold) heq] at hfinished
    exact finished_iff.mp hfinished hactive
  refine (List.perm_ext_iff_of_nodup finished_nodup (List.nodup_cons.mpr ⟨fun h => hne _ h rfl,
    finished_nodup⟩)).mpr
    fun kv => ?_
  rw [mem_finished, mem_put, List.mem_cons, mem_finished]
  constructor
  · rintro ⟨rfl | ⟨hmem, -⟩, hfinished⟩
    · exact .inl rfl
    · exact .inr ⟨hmem, hfinished⟩
  · rintro (rfl | ⟨hmem, hfinished⟩)
    · exact ⟨.inl rfl, hgoal⟩
    · exact ⟨.inr ⟨hmem, hne kv (mem_finished.mpr ⟨hmem, hfinished⟩)⟩, hfinished⟩

theorem Latest.step (h : Latest ever ledger) (hfew : ledger.goals.finished.length ≤ maxFinished)
    {step : GoalStep}
    (hfresh : Fresh ledger step) :
    Latest (ever ++ (made ledger step).toList) (step.perform ofText ledger) := by
  rcases step_cases ofText ledger step with ⟨old, state, now, hget, hactive, hstate, hmade,
    hperform⟩ | ⟨hmade, -, -, hless, hmore⟩
  · rw [hmade, hperform]
    have hnew : (old.finish state now).finished = true := finished_iff.mpr hstate
    have hput : (ledger.goals.put (old.finish state now)).finished.Perm
        (((old.finish state now).id.val, old.finish state now) :: ledger.goals.finished) :=
      finished_put hget hactive hnew
    obtain ⟨dropped, hperm, hcount, hage, -⟩ :=
      pruneFinished_spec (ledger.goals.put (old.finish state now))
    change Latest _ (finishAs ledger (old.finish state now))
    generalize hafter : finishAs ledger (old.finish state now) = after
    have hkept : (pruneFinished (ledger.goals.put (old.finish state now))).finished =
      after.goals.finished := by
      rw [← hafter]
      rfl
    rw [hkept] at hperm hage
    generalize old.finish state now = new at *
    have hall := hput.symm.trans hperm
    have hin : ∀ kv, kv ∈ dropped ++ after.goals.finished ↔ kv =
        (new.id.val, new) ∨ kv ∈ ledger.goals.finished :=
      fun kv => hall.mem_iff.symm.trans List.mem_cons
    have hlength := hall.length_eq
    rw [List.length_cons, List.length_append] at hlength
    rw [hput.length_eq, List.length_cons] at hcount
    have hapart := (List.nodup_append.mp (hperm.nodup_iff.mp finished_nodup)).2.2
    refine ⟨fun kv hkv => ?_, fun e he => ?_⟩
    · rcases (hin kv).mp (List.mem_append_right _ hkv) with rfl | hkv
      · exact List.mem_append_right _ (by simp)
      · exact List.mem_append_left _ (h.mem kv hkv)
    by_cases hstays : (e.id.val, e) ∈ after.goals.finished
    · exact .inl hstays
    -- a goal that is gone went now, or went before and is no later than the one that goes now
    refine .inr ?_
    by_cases hnow : (e.id.val, e) ∈ dropped ++ after.goals.finished
    · have hdropped := (List.mem_append.mp hnow).resolve_right hstays
      have hpos := List.length_pos_of_mem hdropped
      exact ⟨by omega, fun k hk => hage _ hdropped k hk⟩
    · have hever : e ∈ ever := by
        rcases List.mem_append.mp he with he | he
        · exact he
        · obtain rfl : e = new := by simpa using he
          exact absurd ((hin _).mpr (.inl rfl)) hnow
      have hgone : (e.id.val, e) ∉ ledger.goals.finished := fun hkv => hnow ((hin _).mpr (.inr hkv))
      obtain ⟨hfull, hlater⟩ := (h.later e hever).resolve_left hgone
      obtain ⟨d, hd⟩ := List.exists_mem_of_length_pos (by omega : 0 < dropped.length)
      refine ⟨by omega, fun k hk => ?_⟩
      rcases (hin k).mp (List.mem_append_right _ hk) with rfl | hold
      · rcases (hin d).mp (List.mem_append_left _ hd) with rfl | hold
        · exact absurd rfl (hapart _ hd _ hk)
        · exact (hlater d hold).trans (hage d hd _ hk)
      · exact hlater k hold
  · have hsame : ∀ kv, kv ∈ (step.perform ofText ledger).goals.finished ↔
      kv ∈ ledger.goals.finished :=
      fun kv =>
      ⟨fun hkv => hless hkv, fun hkv => hmore hfresh hkv⟩
    have hlength := ((List.perm_ext_iff_of_nodup finished_nodup finished_nodup).mpr hsame).length_eq
    rw [hmade, Option.toList_none, List.append_nil]
    refine ⟨fun kv hkv => h.mem kv (hless hkv), fun e he => ?_⟩
    rcases h.later e he with hkept | ⟨hfull, hlater⟩
    · exact .inl (hmore hfresh hkept)
    · exact .inr ⟨hlength.trans hfull, fun k hk => hlater k (hless hk)⟩

/-- Every goal is added under a new id. -/
def FreshIds (ofText : String → Option PyFloat) : GoalLedger → List GoalStep → Prop
  | _, [] => True
  | ledger, step :: steps => Fresh ledger step ∧ FreshIds ofText (step.perform ofText ledger) steps

theorem Latest.run (h : Latest ever ledger) (hacc : Accounted ever ledger) (steps : List GoalStep)
    (hfresh : FreshIds ofText ledger steps) :
    Latest (ever ++ everFinished ofText ledger steps)
      (steps.foldl (GoalStep.perform ofText) ledger) := by
  induction steps generalizing ever ledger with
  | nil =>
    rw [everFinished, List.append_nil]
    exact h
  | cons step steps ih =>
    rw [everFinished, ← List.append_assoc]
    exact ih (h.step hacc.few hfresh.1) (hacc.step step) hfresh.2

/-- A transition keeps every active goal but the one that it finishes. -/
theorem transition_keeps_active (ledger : GoalLedger) (goalId : String) (state : GoalState)
    (now : FiniteFloat) (hkv : kv ∈ ledger.goals.entries) (hactive : kv.2.state = .active)
    (hne : kv.1 ≠ goalId) :
    kv ∈ (ledger.orKeep (ledger.transition goalId state now)).goals.entries := by
  rcases transition_cases ledger goalId state now with ⟨old, hget, -, heq⟩ | ⟨-, heq⟩
  · obtain ⟨dropped, hperm, -, -, hmem⟩ :=
      pruneFinished_spec (ledger.goals.put (old.finish state now))
    have hid : old.id.val = goalId := id_of_get hget
    rw [heq]
    refine (hmem kv).mpr ⟨mem_put.mpr (.inr ⟨hkv, hid ▸ hne⟩), fun hdropped => ?_⟩
    have hfinished := (mem_finished.mp (hperm.mem_iff.mpr (List.mem_append_left _ hdropped))).2
    exact finished_iff.mp hfinished hactive
  · rw [heq]
    exact hkv

/-- What every run keeps: its saved form loads to it, its totals count the goals that were ever
finished, and no transition costs an active goal or leaves too many finished ones. -/
structure RunSound (ofText : String → Option PyFloat) (ever : List Goal)
    (ledger : GoalLedger) : Prop where
  restores : ∀ before : GoalLedger, before.loadDict ofText ledger.toDict = .ok ledger
  completed : ledger.completedTotal = ever.countP (·.state = .completed)
  abandoned : ledger.abandonedTotal = ever.countP (·.state = .abandoned)
  few : ledger.goals.finished.length ≤ maxFinished
  active : ∀ goalId state now, ∀ kv ∈ ledger.goals.entries, kv.2.state = .active → kv.1 ≠ goalId →
    kv ∈ (ledger.orKeep (ledger.transition goalId state now)).goals.entries

/-- Every run is sound, and where each goal has an id of its own it keeps the latest finished goals.
Loading meets its promise just where no number field that it reaches holds an integer beyond the
floats. -/
theorem ledger_sound_iff (ofText : String → Option PyFloat) :
    (∀ steps, RunSound ofText (everFinished ofText {} steps) (ledgerAfter ofText steps) ∧
      (FreshIds ofText {} steps → Latest (everFinished ofText {} steps)
        (ledgerAfter ofText steps))) ∧
    ∀ ledger data, LoadsWell ofText ledger data ↔
      ∀ d entries, data = .obj d → Dict.get d "goals" = .arr entries →
        ¬AnyOverflows ofText entries := by
  refine ⟨fun steps => ?_, loadDict_iff⟩
  have hstart : Accounted [] {} := ⟨rfl, rfl, Nat.zero_le _⟩
  have hacc : Accounted (everFinished ofText {} steps) (ledgerAfter ofText steps) :=
    hstart.run steps
  refine ⟨⟨loadDict_toDict ofText _, hacc.completed, hacc.abandoned, hacc.few,
    fun goalId state now kv hkv hactive hne =>
    transition_keeps_active _ goalId state now hkv hactive hne⟩, fun hfresh => ?_⟩
  have hlatest : Latest [] {} := ⟨fun kv hkv => (by cases hkv), fun e he => (by cases he)⟩
  exact hlatest.run hstart steps hfresh

def instant (q : ℚ) : FiniteFloat := ⟨Rounding.binary64 q, Rounding.isBinary64_binary64 q⟩

/-- Of two goals the first is completed, and the ledger is saved and loaded. -/
def oneFinished : List GoalStep :=
  [.add ⟨"a", by decide⟩ "rest" (.fin (1 / 2)) none none (instant 1),
    .add ⟨"b", by decide⟩ "play" (.fin (1 / 2)) none none (instant 2), .complete "a" (instant 3),
    .restore]

theorem ledger_sound_oneFinished :
    (ledgerAfter (fun _ => none) oneFinished).goals.finished.map Prod.fst = ["a"] ∧
    Latest (everFinished (fun _ => none) {} oneFinished)
      (ledgerAfter (fun _ => none) oneFinished) := by
  refine ⟨by decide +kernel, ((ledger_sound_iff fun _ => none).1 oneFinished).2 ⟨rfl, ?_, trivial,
    trivial, trivial⟩⟩
  unfold Fresh
  decide +kernel

/-- An entry whose priority is too large for a float. -/
def hugeEntry : Dict :=
  [("id", .str "g"), ("description", .str "d"), ("priority", .int (2 ^ 1024)),
    ("state", .str "active")]

/-- Loading raises on a list with one such entry. -/
theorem huge_priority_raises :
    ¬LoadsWell (fun _ => none) {} (.obj [("goals", .arr [.obj hugeEntry])]) := by
  rw [loadDict_iff]
  intro h
  refine h _ _ rfl rfl ⟨hugeEntry, List.mem_cons_self, ⟨⟨"g", by decide⟩, rfl⟩,
    ⟨"d", rfl, by decide⟩, .inl ⟨_, rfl, ?_⟩⟩
  exact ⟨2 ^ 1024, rfl, by unfold PyFloat.overflowBound; decide +kernel⟩

end Kaine.Goals
