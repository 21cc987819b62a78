import Mathlib.Data.List.Perm.Basic
import Kaine.Sleep.Steps

/-! One task holds the sleep lock, and one the pending flag. -/
namespace Kaine.Sleep

variable {s s' : Sleep} {i : ℕ} {task task' : Task} {pc : Pc} {outcome : Outcome} {new : List Event}
  {m : Move}

theorem countP_set_add {p : Task → Bool} (h : s.tasks[i]? = some task) (task' : Task) :
    (s.tasks.set i task').countP p + (p task).toNat = s.tasks.countP p + (p task').toNat := by
  obtain ⟨hi, hget⟩ := List.getElem?_eq_some_iff.1 h
  have hpos : p task = true → 0 < s.tasks.countP p := by
    intro hp
    exact List.countP_pos_iff.2 ⟨task, hget ▸ List.getElem_mem hi, hp⟩
  rw [List.countP_set hi, hget]
  cases hp : p task <;> cases hp' : p task' <;> simp_all

/-- An entry of a list that has grown by one. -/
theorem getElem?_concat_cases {α : Type*} {l : List α} {a b : α} {j : ℕ}
    (h : (l ++ [a])[j]? = some b) : l[j]? = some b ∨ j = l.length ∧ b = a := by
  rcases Nat.lt_trichotomy j l.length with hlt | rfl | hgt
  · rw [List.getElem?_append_left hlt] at h
    exact .inl h
  · right
    rw [List.getElem?_concat_length] at h
    exact ⟨rfl, (Option.some.inj h).symm⟩
  · rw [List.getElem?_eq_none (by simp; omega)] at h
    cases h

/-- An entry of the tasks of which one has moved. -/
theorem getElem?_set_cases {j : ℕ} {other : Task} (h : (s.tasks.set i task')[j]? = some other) :
    i ≠ j ∧ s.tasks[j]? = some other ∨ i = j ∧ other = task' := by
  by_cases hij : i = j
  · rw [hij, List.getElem?_set_self'] at h
    cases hj : s.tasks[j]? with
    | none => simp [hj] at h
    | some task =>
      rw [hj] at h
      exact .inr ⟨hij, (Option.some.inj h).symm⟩
  · rw [List.getElem?_set_ne hij] at h
    exact .inl ⟨hij, h⟩

/-- One pipeline holds the lock, and at most one coroutine the pending flag. -/
structure Exclusive (s : Sleep) : Prop where
  running : s.tasks.countP (·.pc.inPipeline) = s.sleepLock.toNat
  owing : s.tasks.countP Task.owes ≤ s.sleepPending.toNat

/-- The flag changes with the number of coroutines that are to clear it. -/
def Balanced (s s' : Sleep) : Prop :=
  s'.sleepPending.toNat + s.tasks.countP Task.owes =
    s.sleepPending.toNat + s'.tasks.countP Task.owes

theorem Balanced.refl (s : Sleep) : Balanced s s := rfl

/-- Where at most one task is counted, two that are counted are one. -/
theorem index_eq_of_countP {p : Task → Bool} (h : s.tasks.countP p ≤ 1) {j : ℕ}
    (hi : s.tasks[i]? = some task) (hj : s.tasks[j]? = some task') (hp : p task = true)
    (hp' : p task' = true) : i = j := by
  by_contra hne
  obtain ⟨hlt, hget⟩ := List.getElem?_eq_some_iff.1 hi
  -- Without the first, the second is still counted.
  have hrest : task' ∈ s.tasks.eraseIdx i := List.mem_eraseIdx_iff_getElem?.2 ⟨j, Ne.symm hne, hj⟩
  have hpos : 0 < (s.tasks.eraseIdx i).countP p := List.countP_pos_iff.2 ⟨task', hrest, hp'⟩
  have hsplit : s.tasks.countP p = (s.tasks.eraseIdx i).countP p + 1 := by
    rw [← (List.getElem_cons_eraseIdx_perm hlt).countP_eq p, List.countP_cons, hget, if_pos hp]
  omega

/-- The pipeline's holder is one task. -/
theorem Exclusive.unique (h : Exclusive s) {j : ℕ} (hi : s.tasks[i]? = some task)
    (hj : s.tasks[j]? = some task') (hin : task.pc.inPipeline = true)
    (hin' : task'.pc.inPipeline = true) : i = j :=
  index_eq_of_countP (h.running.trans_le (Bool.toNat_le _)) hi hj hin hin'

/-- So is the one that is to clear the flag. -/
theorem Exclusive.unique_owes (h : Exclusive s) {j : ℕ} (hi : s.tasks[i]? = some task)
    (hj : s.tasks[j]? = some task') (howes : task.owes = true)
    (howes' : task'.owes = true) : i = j :=
  index_eq_of_countP (h.owing.trans (Bool.toNat_le _)) hi hj howes howes'

theorem Exclusive.lock_of_inPipeline (h : Exclusive s) (hi : s.tasks[i]? = some task)
    (hpc : task.pc.inPipeline = true) : s.sleepLock = true := by
  have hpos : 0 < s.tasks.countP (·.pc.inPipeline) :=
    List.countP_pos_iff.2 ⟨task, List.mem_of_getElem? hi, hpc⟩
  rw [h.running] at hpos
  cases hlock : s.sleepLock
  · simp [hlock] at hpos
  · rfl

theorem Exclusive.pending_of_owes (h : Exclusive s) (hi : s.tasks[i]? = some task)
    (howes : task.owes = true) : s.sleepPending = true := by
  have hpos : 0 < s.tasks.countP Task.owes :=
    List.countP_pos_iff.2 ⟨task, List.mem_of_getElem? hi, howes⟩
  have hle := h.owing
  cases hpending : s.sleepPending
  · rw [hpending, Bool.toNat_false] at hle
    omega
  · rfl

/-- Both counts follow the one task that moved. -/
theorem Exclusive.set (h : Exclusive s) (hi : s.tasks[i]? = some task)
    (htasks : s'.tasks = s.tasks.set i task')
    (hlock : s'.sleepLock.toNat + task.pc.inPipeline.toNat =
      s.sleepLock.toNat + task'.pc.inPipeline.toNat)
    (hpending : s'.sleepPending.toNat + task.owes.toNat = s.sleepPending.toNat + task'.owes.toNat) :
    Exclusive s' ∧ Balanced s s' := by
  have hrunning := countP_set_add (p := (·.pc.inPipeline)) hi task'
  have howing := countP_set_add (p := Task.owes) hi task'
  have hle := h.owing
  rw [h.running, ← htasks] at hrunning
  rw [← htasks] at howing
  exact ⟨⟨by omega, by omega⟩, by unfold Balanced; omega⟩

/-- The pending flag goes down exactly when a coroutine that owes it ends. -/
theorem owes_balance {pending pending' : Bool}
    (hpending' : pending' = (if pc = .done ∧ task.site ≠ .direct then false else pending))
    (hawaits : pc = .done ∨ task.site ≠ .direct ∧
      ∃ request answer, pc = .answerPublish request answer)
    (hpc : task.pc ≠ .done) (hpending : task.owes = true → pending = true) :
    pending'.toNat + task.owes.toNat =
      pending.toNat + ({ task with pc := pc } : Task).owes.toNat := by
  rw [hpending']
  by_cases hdirect : task.site = .direct
  · simp [Task.owes, hdirect]
  · have howes : task.owes = true := by simp [Task.owes, hdirect, hpc]
    rcases hawaits with rfl | ⟨-, request, answer, rfl⟩
    · simp [Task.owes, hdirect, hpc, hpending howes]
    · simp [Task.owes, hdirect, hpc]

theorem not_inPipeline_of_awaits
    (h : pc = .done ∨ task.site ≠ .direct ∧ ∃ request answer, pc = .answerPublish request answer) :
    pc.inPipeline = false := by
  rcases h with rfl | ⟨-, request, answer, rfl⟩ <;> rfl

theorem ne_done_of_inPipeline (h : pc.inPipeline = true) : pc ≠ .done := by
  rintro rfl
  cases h

theorem Exclusive.settled (h : Exclusive s) (hi : s.tasks[i]? = some task)
    (hout : task.pc.inPipeline = false) (hpc : task.pc ≠ .done) (hs : Settled s s' i task pc) :
    Exclusive s' ∧ Balanced s s' := by
  refine h.set hi hs.tasks ?_ (owes_balance hs.sleepPending hs.awaits hpc (h.pending_of_owes hi))
  rw [hs.sleepLock, hout, not_inPipeline_of_awaits hs.awaits]

theorem Exclusive.left (h : Exclusive s) (hi : s.tasks[i]? = some task)
    (hpc : task.pc.inPipeline = true) (hl : Left s s' i task pc) :
    Exclusive s' ∧ Balanced s s' := by
  refine h.set hi hl.tasks ?_
    (owes_balance hl.sleepPending hl.awaits (ne_done_of_inPipeline hpc) (h.pending_of_owes hi))
  rw [hl.sleepLock, h.lock_of_inPipeline hi hpc, hpc, not_inPipeline_of_awaits hl.awaits]
  rfl

theorem Exclusive.within (h : Exclusive s) (hi : s.tasks[i]? = some task)
    (hpc : task.pc.inPipeline = true) (hpc' : pc.inPipeline = true)
    (hw : Within s s' i task pc new) : Exclusive s' ∧ Balanced s s' := by
  refine h.set hi hw.tasks ?_ ?_
  · rw [hw.sleepLock, hpc, hpc']
  · have howes : ({ task with pc := pc } : Task).owes = task.owes := by
      simp [Task.owes, ne_done_of_inPipeline hpc, ne_done_of_inPipeline hpc']
    rw [hw.sleepPending, howes]

theorem Exclusive.enters (h : Exclusive s) (hi : s.tasks[i]? = some task)
    (hpc : task.pc = .scheduled) (he : Enters s s' i task) : Exclusive s' ∧ Balanced s s' := by
  have hout : task.pc.inPipeline = false := by rw [hpc]; rfl
  have hdone : task.pc ≠ .done := by rw [hpc]; simp
  cases he with
  | busy _ hsettled => exact h.settled hi hout hdone hsettled
  | @entered task' hfree hentered =>
    refine h.set hi hentered.tasks ?_ ?_
    · rw [hentered.sleepLock, hfree, hout, hentered.pc]
      rfl
    · have howes : task'.owes = task.owes := by simp [Task.owes, hentered.site, hentered.pc, hdone]
      rw [hentered.sleepPending, howes]

theorem Exclusive.outside (h : Exclusive s) (ho : Outside s s') : Exclusive s' ∧ Balanced s s' := by
  have hsame (htasks : s'.tasks = s.tasks) (hpending : s'.sleepPending = s.sleepPending) :
      Exclusive s' ∧ Balanced s s' := by
    refine ⟨⟨by rw [htasks, ho.sleepLock, h.running], ?_⟩, by rw [Balanced, htasks, hpending]⟩
    rw [htasks, hpending]
    exact h.owing
  cases ho.does with
  | nothing htasks hpending => exact hsame htasks hpending
  | refuses _ _ _ htasks hpending => exact hsame htasks hpending
  | schedules site hasleep hsite htasks hpending =>
    obtain ⟨hlock, hfalse⟩ : s.sleepLock = false ∧ s.sleepPending = false := by
      simpa [asleep] using hasleep
    have hle := h.owing
    have howes : s'.tasks.countP Task.owes = s.tasks.countP Task.owes + 1 := by
      rw [htasks, List.countP_append]
      simp [Task.owes, hsite]
    rw [hfalse, Bool.toNat_false] at hle
    refine ⟨⟨?_, ?_⟩, ?_⟩
    · rw [htasks, ho.sleepLock, List.countP_append, h.running]
      rfl
    · rw [howes, hpending, Bool.toNat_true]
      omega
    · rw [Balanced, howes, hpending, hfalse, Bool.toNat_true, Bool.toNat_false]
      omega

theorem Exclusive.withDirect (h : Exclusive s) :
    Exclusive s.withDirect ∧ Balanced s s.withDirect := by
  have howes : s.withDirect.tasks.countP Task.owes = s.tasks.countP Task.owes :=
    List.countP_append ..
  refine ⟨⟨?_, ?_⟩, ?_⟩
  · exact (List.countP_append ..).trans (by rw [h.running]; rfl)
  · exact howes.le.trans h.owing
  · rw [Balanced, howes]
    rfl

theorem getElem?_withDirect (s : Sleep) :
    s.withDirect.tasks[s.tasks.length]? = some ⟨.direct, .scheduled, 0⟩ := by
      simp [Sleep.withDirect]

theorem written_eq (s : Sleep) (outcome : Outcome) (event : Event) :
    s.written outcome event = { s with log := s.log ++ said outcome event } := by
  unfold written said
  split
  · rfl
  · simp

theorem Balanced.trans {t : Sleep} (h : Balanced s t) (h' : Balanced t s') : Balanced s s' := by
  unfold Balanced at *
  omega

/-- Every move keeps the lock and the flag to one holder, and balances the flag unless it cancels a
task that never ran. -/
theorem Exclusive.moved (h : Exclusive s) (hm : Moved s s' m) :
    Exclusive s' ∧ (Balanced s s' ∨ ∃ i written task, m = .resume i (.cancelled written) ∧
      s.tasks[i]? = some task ∧ task.pc = .scheduled) := by
  have hbalanced {P : Prop} (hb : Exclusive s' ∧ Balanced s s') :
    Exclusive s' ∧ (Balanced s s' ∨ P) :=
    ⟨hb.1, .inl hb.2⟩
  cases hm with
  | outside ho _ => exact hbalanced (h.outside ho)
  | direct he =>
    obtain ⟨hdirect, hbefore⟩ := h.withDirect
    obtain ⟨hentered, hafter⟩ := hdirect.enters (getElem?_withDirect s) rfl he
    exact ⟨hentered, .inl (hbefore.trans hafter)⟩
  | @begun i task hi hpc he =>
    obtain ⟨pending, accepted, hnoted, -⟩ := noteRequest_eq s task
    rw [hnoted] at he
    have hstate : Exclusive { s with pendingRest := pending, requestedRestAccepted := accepted } :=
      ⟨h.running, h.owing⟩
    exact hbalanced (hstate.enters hi hpc he)
  | @dropped i task written hi hpc hdropped =>
    refine ⟨?_, .inr ⟨i, written, task, rfl, hi, hpc⟩⟩
    have hrunning := countP_set_add (p := (·.pc.inPipeline)) hi { task with pc := .done }
    have howing := countP_set_add (p := Task.owes) hi { task with pc := .done }
    have hdone : ({ task with pc := .done } : Task).owes = false := by simp [Task.owes]
    have hle := h.owing
    subst hdropped
    rw [h.running, hpc] at hrunning
    rw [hdone, Bool.toNat_false] at howing
    refine ⟨hrunning, ?_⟩
    change (s.tasks.set i _).countP Task.owes ≤ s.sleepPending.toNat
    omega
  | within hi hin hwithin hgoes => exact hbalanced (h.within hi hin hgoes.inPipeline hwithin)
  | @left i task outcome exn hi hin _ hleft =>
    obtain ⟨log, shielded, hpublished⟩ := published_eq s task outcome
    rw [hpublished] at hleft
    have hstate : Exclusive { s with log := log, shieldedPublishes := shielded } :=
      ⟨h.running, h.owing⟩
    exact hbalanced (hstate.left hi hin hleft)
  | @answered i task outcome request answer hi hpc hsettled =>
    rw [written_eq] at hsettled
    have hlogged :
        Exclusive { s with log := s.log ++ said outcome (.restRequest request answer) } :=
      ⟨h.running, h.owing⟩
    exact hbalanced (hlogged.settled hi (by rw [hpc]; rfl) (by simp [hpc]) hsettled)
  | @shielded written event rest hshielded hnext =>
    subst hnext
    split <;> exact ⟨⟨h.running, h.owing⟩, .inl rfl⟩

end Kaine.Sleep
