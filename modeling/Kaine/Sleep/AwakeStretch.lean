import Kaine.Sleep.RestInHand

/-! The awake stretch between two rests, and what a scheduled rest is to begin with. -/
namespace Kaine.Sleep
open PerceptionState

variable {config : Config} {s s' : Sleep} {w w' : Watched} {i : ℕ} {task task' : Task} {pc : Pc}
  {outcome : Outcome} {m : Move}

/-- The awake stretch: what the cycle counts has passed since the last rest, up to the last poll and
since. -/
structure Stretched (w : Watched) : Prop where
  counted : 0 ≤ w.counted.total
  since : 0 ≤ w.since.total
  nonneg : 0 ≤ w.sleep.cycle.awakeS
  awake : w.sleep.cycle.phase = .awake → w.sleep.cycle.awakeS ≤ w.counted.total
  tickPaused : w.sleep.cycle.tickPaused ≤ w.sleep.paused
  ticked : ∀ last, w.sleep.cycle.lastTick = some last →
    max 0 ((w.sleep.now - last) - max 0 (w.sleep.paused - w.sleep.cycle.tickPaused)) ≤ w.since.total

/-- A coroutine leaves the awake stretch as it is, or restarts it. -/
def Lasts (now : ℚ) (cycle cycle' : StateCycle) : Prop :=
  cycle'.tickPaused = cycle.tickPaused ∧
    (cycle'.awakeS = cycle.awakeS ∧ cycle'.lastTick = cycle.lastTick ∧
        (cycle'.phase = .awake → cycle.phase = .awake) ∨
      cycle'.awakeS = 0 ∧ cycle'.lastTick = some now)

theorem lasts_refl (now : ℚ) (cycle : StateCycle) : Lasts now cycle cycle :=
  ⟨rfl, .inl ⟨rfl, rfl, id⟩⟩

theorem lasts_cut (now paused : ℚ) (cycle : StateCycle) (exn : Exn) :
    Lasts now cycle (cycle.cut exn now paused) := by
  cases hphase : cycle.phase with
  | awake =>
    rw [StateCycle.cut_awake hphase]
    exact ⟨rfl, .inl ⟨rfl, rfl, id⟩⟩
  | resting =>
    cases exn with
    | failure =>
      rw [StateCycle.cut_failure hphase]
      exact ⟨rfl, .inr ⟨rfl, rfl⟩⟩
    | cancelled =>
      unfold StateCycle.cut
      split
      · exact ⟨rfl, .inl ⟨rfl, rfl, id⟩⟩
      · exact ⟨rfl, .inr ⟨rfl, rfl⟩⟩
      · exact ⟨rfl, .inl ⟨rfl, rfl, id⟩⟩

/-- What a coroutine's move does to the counts of the stretch. -/
theorem follow_stretch (w : Watched) (i : ℕ) (outcome : Outcome) (s' : Sleep) :
    (w.follow (.resume i outcome) s').sleep = s' ∧
      ((w.follow (.resume i outcome) s').counted = w.counted ∧
          (w.follow (.resume i outcome) s').since = w.since ∨
        w.sleep.cycle.phase = .resting ∧ s'.cycle.phase = .awake ∧
          (w.follow (.resume i outcome) s').counted = {} ∧
          (w.follow (.resume i outcome) s').since = {}) := by
  unfold Watched.follow
  dsimp only
  split
  · exact ⟨rfl, .inl ⟨rfl, rfl⟩⟩
  · split
    · rename_i hends
      exact ⟨rfl, .inr ⟨hends.1, hends.2, rfl, rfl⟩⟩
    · split <;> exact ⟨rfl, .inl ⟨rfl, rfl⟩⟩

theorem ticked_now (now paused tickPaused : ℚ) :
    max 0 ((now - now) - max 0 (paused - tickPaused)) = 0 := by
  rw [sub_self]
  exact max_eq_left (by linarith [le_max_left 0 (paused - tickPaused)])

theorem Stretched.resume (h : Stretched w) {i : ℕ} {outcome : Outcome} (hnow : s'.now = w.sleep.now)
    (hpaused : s'.paused = w.sleep.paused) (hlasts : Lasts w.sleep.now w.sleep.cycle s'.cycle) :
    Stretched (w.follow (.resume i outcome) s') := by
  obtain ⟨hsleep, hcounts⟩ := follow_stretch w i outcome s'
  obtain ⟨htickPaused, hstretch⟩ := hlasts
  have hzero : ({} : Stretch).total = 0 := by simp [Stretch.total]
  have hcounted : 0 ≤ (w.follow (.resume i outcome) s').counted.total := by
    rcases hcounts with ⟨hsame, -⟩ | ⟨-, -, hnil, -⟩
    · rw [hsame]
      exact h.counted
    · rw [hnil, hzero]
  have hsince : 0 ≤ (w.follow (.resume i outcome) s').since.total := by
    rcases hcounts with ⟨-, hsame⟩ | ⟨-, -, -, hnil⟩
    · rw [hsame]
      exact h.since
    · rw [hnil, hzero]
  constructor
  · exact hcounted
  · exact hsince
  · rw [hsleep]
    rcases hstretch with ⟨hawake, -⟩ | ⟨hawake, -⟩
    · rw [hawake]
      exact h.nonneg
    · rw [hawake]
  · rw [hsleep]
    intro hphase
    rcases hstretch with ⟨hawake, -, hback⟩ | ⟨hawake, -⟩
    · rw [hawake]
      rcases hcounts with ⟨hsame, -⟩ | ⟨hresting, -⟩
      · rw [hsame]
        exact h.awake (hback hphase)
      · rw [hback hphase] at hresting
        cases hresting
    · rw [hawake]
      exact hcounted
  · rw [hsleep, htickPaused, hpaused]
    exact h.tickPaused
  · rw [hsleep]
    intro last hlast
    rw [htickPaused, hnow, hpaused]
    rcases hstretch with ⟨hawake, htick, hback⟩ | ⟨-, htick⟩
    · rw [htick] at hlast
      rcases hcounts with ⟨-, hsame⟩ | ⟨hresting, hphase, -⟩
      · rw [hsame]
        exact h.ticked last hlast
      · rw [hback hphase] at hresting
        cases hresting
    · rw [htick] at hlast
      cases hlast
      rw [ticked_now]
      exact hsince

/-- A frame for what leaves the stretch alone. -/
theorem Stretched.frame (h : Stretched w) (hnow : w'.sleep.now = w.sleep.now)
    (hpaused : w'.sleep.paused = w.sleep.paused) (hcycle : w'.sleep.cycle = w.sleep.cycle)
    (hcounts : w'.counted = w.counted ∧ w'.since = w.since) : Stretched w' := by
  obtain ⟨hcounted, hsince⟩ := hcounts
  constructor
  · rw [hcounted]
    exact h.counted
  · rw [hsince]
    exact h.since
  · rw [hcycle]
    exact h.nonneg
  · rw [hcycle, hcounted]
    exact h.awake
  · rw [hcycle, hpaused]
    exact h.tickPaused
  · rw [hcycle, hnow, hpaused, hsince]
    exact h.ticked

theorem total_pass (a : Stretch) (asleep : Bool) (t : ℚ) :
    (a.pass asleep t).total = a.total + t := by
  unfold Stretch.pass Stretch.total
  split
  · exact (add_assoc ..).symm
  · exact add_right_comm ..

theorem total_add (a b : Stretch) : (a.add b).total = a.total + b.total := by
  exact add_add_add_comm ..

/-- Time that passes is counted, frozen or not, at least as far as the next tick will count it. -/
theorem Stretched.advance (h : Stretched w) {elapsed frozen : ℚ} (hfrozen : 0 ≤ frozen)
    (hw' : w'.sleep =
      { w.sleep with now := w.sleep.now + elapsed, paused := w.sleep.paused + frozen })
    (hcounted : w'.counted = w.counted)
    (hsince : w'.since = w.since.pass w.sleep.sleepLock (max 0 (elapsed - frozen))) : Stretched
      w' := by
  have hpass : 0 ≤ max 0 (elapsed - frozen) := le_max_left _ _
  have htotal : w'.since.total = w.since.total + max 0 (elapsed - frozen) := by
    rw [hsince, total_pass]
  have hcycle : w'.sleep.cycle = w.sleep.cycle := by rw [hw']
  constructor
  · rw [hcounted]
    exact h.counted
  · rw [htotal]
    exact add_nonneg h.since hpass
  · rw [hcycle]
    exact h.nonneg
  · rw [hcycle, hcounted]
    exact h.awake
  · have htick := h.tickPaused
    rw [hcycle, hw']
    dsimp only
    linarith
  · intro last hlast
    rw [hcycle] at hlast
    have hticked := h.ticked last hlast
    have htick := h.tickPaused
    rw [htotal, hcycle, hw']
    dsimp only
    rw [max_eq_right (show 0 ≤ w.sleep.paused - w.sleep.cycle.tickPaused by linarith)] at hticked
    rw [max_eq_right (show 0 ≤ w.sleep.paused + frozen - w.sleep.cycle.tickPaused by linarith)]
    have hdelta : elapsed - frozen ≤ max 0 (elapsed - frozen) := le_max_right _ _
    have hold := (le_max_right 0 _).trans hticked
    have hsum := h.since
    exact max_le (by linarith) (by linarith)

/-- A poll takes the time since the last one into the count, unless it finds a sleep. -/
theorem Stretched.poll (h : Stretched w) {due : Bool} (hpolls : Polls config w.sleep s')
    (hframe : PollFrame w.sleep s') : Stretched (w.follow (.poll (some true) due) s') := by
  obtain ⟨gain, hgain, htick, hticks⟩ :=
    tick_eq w.sleep.cycle w.sleep.asleep w.sleep.now w.sleep.paused
  have hcycle : s'.cycle.phase = w.sleep.cycle.phase ∧
      s'.cycle.awakeS = w.sleep.cycle.awakeS + gain ∧ s'.cycle.lastTick = some w.sleep.now ∧
        s'.cycle.tickPaused = w.sleep.paused := by
    cases hpolls with
    | quiet _ _ hcycle =>
      rw [hcycle, htick]
      exact ⟨rfl, rfl, rfl, rfl⟩
    | starts _ _ _ _ hcycle =>
      rw [hcycle, htick]
      exact ⟨rfl, rfl, rfl, rfl⟩
  obtain ⟨hphase, hawake, hlast, hpaused⟩ := hcycle
  have hsleep := (follow_poll w s' (some true) due).1
  have hsinceNil : (w.follow (.poll (some true) due) s').since.total = 0 := by
    unfold Watched.follow
    dsimp only
    split <;> simp [Stretch.total]
  have hcounted : w.sleep.cycle.awakeS ≤ w.counted.total →
      w.sleep.cycle.awakeS + gain ≤ (w.follow (.poll (some true) due) s').counted.total := by
    intro hle
    unfold Watched.follow
    dsimp only
    split
    · rename_i hlock
      have hasleep : w.sleep.asleep = true := by simp [asleep, hlock]
      rcases hticks with hnone | ⟨hfree, -⟩
      · rw [hnone, add_zero]
        exact hle
      · rw [hasleep] at hfree
        cases hfree
    · rw [total_add]
      rcases hticks with hnone | ⟨-, last, hlast', hgain'⟩
      · rw [hnone, add_zero]
        exact hle.trans (le_add_of_nonneg_right h.since)
      · rw [hgain']
        exact add_le_add hle (h.ticked last hlast')
  have hnonneg : 0 ≤ (w.follow (.poll (some true) due) s').counted.total := by
    unfold Watched.follow
    dsimp only
    split
    · exact h.counted
    · rw [total_add]
      exact add_nonneg h.counted h.since
  constructor
  · exact hnonneg
  · exact hsinceNil.ge
  · rw [hsleep, hawake]
    exact add_nonneg h.nonneg hgain
  · rw [hsleep, hphase, hawake]
    exact fun hphase => hcounted (h.awake hphase)
  · rw [hsleep, hpaused, hframe.paused]
  · rw [hsleep, hlast, hpaused, hsinceNil, hframe.now, hframe.paused]
    intro last hsome
    cases hsome
    rw [ticked_now]

theorem Stretched.moved (h : Stretched w) (hc : Clocked config w.sleep s' m)
    (hdevelops : Develops m) : Stretched (w.follow m s') := by
  cases hc with
  | advance _ hfrozen hnext => exact h.advance hfrozen hnext rfl rfl
  | @poll developing due hnext =>
    obtain rfl := hdevelops.1 developing due rfl
    obtain ⟨hpolls, hframe⟩ := polls_maintenancePollOnce config w.sleep due
    rw [← hnext] at hpolls hframe
    exact h.poll hpolls hframe
  | idle hm hsteady =>
    rw [follow_other hm]
    exact h.frame hsteady.now hsteady.paused hsteady.cycle ⟨rfl, rfl⟩
  | created hm hsteady =>
    rw [follow_other hm]
    exact h.frame hsteady.now hsteady.paused hsteady.cycle ⟨rfl, rfl⟩
  | @began i task started hi hpc hbegins =>
    refine h.resume hbegins.now hbegins.paused ?_
    cases hholds : w.sleep.holds task with
    | true =>
      rw [(hbegins.rests hholds).1]
      exact ⟨rfl, .inl ⟨rfl, rfl, nofun⟩⟩
    | false =>
      rw [hbegins.other hholds]
      exact lasts_refl _ _
  | stayed _ _ _ hstays =>
    refine h.resume hstays.steady.now hstays.steady.paused ?_
    rw [hstays.steady.cycle]
    exact lasts_refl _ _
  | @turned i task outcome pc _ _ _ _ _ _ _ _ hturns =>
    refine h.resume hturns.now hturns.paused ?_
    have hrecycles := hturns.cycle
    generalize s'.cycle = cycle at hrecycles
    cases hrecycles with
    | same => exact lasts_refl _ _
    | cut exn _ _ => exact lasts_cut _ _ _ exn
    | ended => exact ⟨rfl, .inr ⟨rfl, rfl⟩⟩
    | completed => exact ⟨rfl, .inr ⟨rfl, rfl⟩⟩
  | ended _ _ _ hends =>
    refine h.resume hends.now hends.paused ?_
    rw [hends.cycle]
    exact ⟨rfl, .inl ⟨rfl, rfl, id⟩⟩
  | called hbegins =>
    rw [follow_other rfl]
    exact h.frame hbegins.now hbegins.paused (hbegins.other rfl) ⟨rfl, rfl⟩
  | missed hstays =>
    rw [follow_other rfl]
    obtain ⟨hnow, hpaused, hcycle⟩ := hstays.steady
    exact h.frame hnow hpaused hcycle ⟨rfl, rfl⟩

/-- Where no sleep is under way, no coroutine is to clear the flag. -/
theorem Exclusive.owes_eq_false (hx : Exclusive s) (hasleep : s.asleep = false) {i : ℕ}
    (hi : s.tasks[i]? = some task) : task.owes = false := by
  obtain ⟨-, hpending⟩ : s.sleepLock = false ∧ s.sleepPending = false := by
    simpa [asleep] using hasleep
  cases howes : task.owes with
  | false => rfl
  | true =>
    rw [hx.pending_of_owes hi howes] at hpending
    cases hpending

theorem owes_of_scheduled (hsite : task.site = .stateCycle) (hpc : task.pc = .scheduled) :
    task.owes = true := by simp [Task.owes, hsite, hpc]

/-- Nothing about the starts has changed. -/
theorem Starting.frame (h : Starting config w)
    (htasks : ∀ (j : ℕ) other, w'.sleep.tasks[j]? = some other → other.owes = true →
      (w.sleep.tasks[j]? = some other ∨ w.sleep.cycle.resumeSpentS = 0 ∧ other.pc ≠ .scheduled))
    (hresume : w'.sleep.cycle.resumeSpentS = w.sleep.cycle.resumeSpentS)
    (hstarts : ∀ (j : ℕ) other, w'.sleep.tasks[j]? = some other → w.sleep.tasks[j]? = some other →
      other.site = .stateCycle → other.pc = .scheduled →
      w'.sleep.cycle.phase = w.sleep.cycle.phase ∧
        (w.sleep.cycle.phase = .resting → w'.sleep.cycle.restSpentS = w.sleep.cycle.restSpentS) ∧
        (w.sleep.cycle.phase = .awake → w.counted.total ≤ w'.counted.total))
    (hpending : w'.sleep.sleepPending = w.sleep.sleepPending ∨ w.sleep.cycle.resumeSpentS = 0) :
    Starting config w' := by
  constructor
  · intro j other hj howes
    rw [hresume]
    rcases htasks j other hj howes with hj | ⟨hzero, -⟩
    · exact h.owed j other hj howes
    · exact .inr hzero
  · intro hfree
    rw [hresume]
    rcases hpending with hsame | hzero
    · exact h.idle (hsame ▸ hfree)
    · exact hzero
  · intro j other hj hsite hpc
    rcases htasks j other hj (owes_of_scheduled hsite hpc) with hold | ⟨-, hne⟩
    · obtain ⟨hphase, hspent, hcounted⟩ := hstarts j other hj hold hsite hpc
      rw [hphase, hresume]
      rcases h.starts j other hold hsite hpc with ⟨hresting, hresume'⟩ | ⟨hawake, hzero, hle⟩
      · exact .inl ⟨hresting, by rw [hresume', hspent hresting]⟩
      · exact .inr ⟨hawake, hzero, hle.trans (hcounted hawake)⟩
    · exact absurd hpc hne

theorem getElem?_of_set (htasks : s'.tasks = s.tasks.set i task') {j : ℕ}
    {other : Task} (hj : s'.tasks[j]? = some other) :
    s.tasks[j]? = some other ∨ j = i ∧ other = task' := by
  rw [htasks] at hj
  rcases getElem?_set_cases hj with ⟨-, hj⟩ | ⟨hij, heq⟩
  · exact .inl hj
  · exact .inr ⟨hij.symm, heq⟩

/-- A rest has begun, and no start waits. -/
theorem Starting.zero (hresume : w.sleep.cycle.resumeSpentS = 0)
    (hnone : ∀ (j : ℕ) other, w.sleep.tasks[j]? = some other → other.site = .stateCycle →
      other.pc ≠ .scheduled) : Starting config w :=
  ⟨fun _ _ _ _ => .inr hresume, fun _ => hresume,
    fun j other hj hsite hpc => absurd hpc (hnone j other hj hsite)⟩

/-- The move of a coroutine that is not a scheduled start of a rest. -/
theorem Starting.resume (h : Starting config w) (hx : Exclusive w.sleep)
    (hi : w.sleep.tasks[i]? = some task) (hpc : task.pc ≠ .done)
    (htasks : s'.tasks = w.sleep.tasks.set i task')
    (hsite : task'.site = task.site) (hnew : task'.pc ≠ .scheduled)
    (hzero : task.owes = true → w.sleep.cycle.resumeSpentS = 0)
    (hpending : s'.sleepPending = w.sleep.sleepPending ∨ task.owes = true)
    (hresume : s'.cycle.resumeSpentS = w.sleep.cycle.resumeSpentS)
    (hkeeps : task.owes = false → s'.cycle.phase = w.sleep.cycle.phase ∧
      (w.sleep.cycle.phase = .resting → s'.cycle.restSpentS = w.sleep.cycle.restSpentS)) :
    Starting config (w.follow (.resume i outcome) s') := by
  obtain ⟨hsleep, hcounts⟩ := follow_stretch w i outcome s'
  have howes_eq (howes : task'.owes = true) : task.owes = true := by
    have hdirect : task.site ≠ .direct := by
      rintro heq
      simp [Task.owes, hsite, heq] at howes
    simp [Task.owes, hdirect, hpc]
  refine h.frame ?_ ?_ ?_ ?_
  · intro j other hj howes
    rw [hsleep] at hj
    rcases getElem?_of_set htasks hj with hj | ⟨rfl, rfl⟩
    · exact .inl hj
    · exact .inr ⟨hzero (howes_eq howes), hnew⟩
  · rw [hsleep, hresume]
  · intro j other hj' hj hother hpc'
    rw [hsleep] at hj' ⊢
    -- A start that waits leaves only a direct call to move.
    have howes : task.owes = false := by
      cases howes : task.owes with
      | false => rfl
      | true =>
        obtain rfl := hx.unique_owes hj hi (owes_of_scheduled hother hpc') howes
        rw [htasks, List.getElem?_set_self (List.getElem?_eq_some_iff.1 hi).1] at hj'
        cases hj'
        exact absurd hpc' hnew
    obtain ⟨hphase, hspent⟩ := hkeeps howes
    refine ⟨hphase, hspent, fun hawake => ?_⟩
    rcases hcounts with ⟨hsame, -⟩ | ⟨hresting, -⟩
    · rw [hsame]
    · rw [hawake] at hresting
      cases hresting
  · rw [hsleep]
    exact hpending.imp_right hzero

theorem resumeSpentS_cut (cycle : StateCycle) (exn : Exn) (now paused : ℚ) :
    (cycle.cut exn now paused).resumeSpentS = cycle.resumeSpentS := by
  unfold StateCycle.cut
  split <;> rfl

/-- A coroutine of a direct call joins the tasks, or ends at once. -/
theorem Starting.called (h : Starting config w) {task' : Task} (hsite : task'.site = .direct)
    (htasks : s'.tasks = w.sleep.withDirect.tasks.set w.sleep.tasks.length task')
    (hcycle : s'.cycle = w.sleep.cycle) (hpending : s'.sleepPending = w.sleep.sleepPending) :
    Starting config { w with sleep := s' } := by
  refine h.frame (fun j other hj howes => ?_) (congrArg StateCycle.resumeSpentS hcycle) ?_
    (.inl hpending)
  · rcases getElem?_of_set htasks hj with hj | ⟨-, rfl⟩
    · rcases getElem?_concat_cases hj with hj | ⟨-, rfl⟩
      · exact .inl hj
      · simp [Task.owes] at howes
    · simp [Task.owes, hsite] at howes
  · intro _ _ _ _ _ _
    dsimp only
    rw [hcycle]
    exact ⟨rfl, fun _ => rfl, fun _ => le_rfl⟩

theorem Starting.poll (h : Starting config w) (hx : Exclusive w.sleep) {due : Bool}
    (hstretched : Stretched (w.follow (.poll (some true) due) s')) (hsince : 0 ≤ w.since.total)
    (hpolls : Polls config w.sleep s') : Starting config (w.follow (.poll (some true) due) s') := by
  obtain ⟨gain, -, htick, -⟩ := tick_eq w.sleep.cycle w.sleep.asleep w.sleep.now w.sleep.paused
  have hsleep := (follow_poll w s' (some true) due).1
  cases hpolls with
  | quiet htasks hpending hcycle =>
    rw [htick] at hcycle
    refine h.frame (fun j other hj _ => .inl ?_) ?_ ?_ (.inl ?_)
    · rw [hsleep, htasks] at hj
      exact hj
    · rw [hsleep, hcycle]
    · intro j other _ _ _ _
      rw [hsleep, hcycle]
      refine ⟨rfl, fun _ => rfl, fun _ => ?_⟩
      unfold Watched.follow
      dsimp only
      split
      · exact le_rfl
      · rw [total_add]
        exact le_add_of_nonneg_right hsince
    · rw [hsleep, hpending]
  | starts resumeSpentS hasleep htasks hpending hcycle hwhy =>
    have hphase : s'.cycle.phase = w.sleep.cycle.phase := by
      rw [hcycle, htick]
    have hspent : s'.cycle.restSpentS = w.sleep.cycle.restSpentS := by
      rw [hcycle, htick]
    have hresume : s'.cycle.resumeSpentS = resumeSpentS := by
      rw [hcycle]
    have hcases {j : ℕ} {other : Task} (hj : s'.tasks[j]? = some other) :
        other.owes = false ∨ other = ⟨.stateCycle, .scheduled, 0⟩ := by
      rw [htasks] at hj
      rcases getElem?_concat_cases hj with hj | ⟨-, heq⟩
      · exact .inl (hx.owes_eq_false hasleep hj)
      · exact .inr heq
    constructor
    · intro j other hj howes
      rw [hsleep] at hj
      rcases hcases hj with hfree | rfl
      · rw [hfree] at howes
        cases howes
      · exact .inl ⟨rfl, rfl⟩
    · intro hfree
      rw [hsleep, hpending] at hfree
      cases hfree
    · intro j other _ _ _
      have hawake := hstretched.awake
      rw [hsleep] at hawake ⊢
      rw [hphase] at hawake ⊢
      rw [hresume, hspent]
      rcases hwhy with ⟨hresting, heq⟩ | ⟨hwaking, hzero, hle⟩
      · exact .inl ⟨hresting, heq⟩
      · exact .inr ⟨hwaking, hzero, hle.trans (hawake hwaking)⟩

theorem Starting.moved (h : Starting config w) (hx : Exclusive w.sleep) (hsited : Sited w.sleep)
    (hstretched : Stretched (w.follow m s')) (hsince : 0 ≤ w.since.total)
    (hc : Clocked config w.sleep s' m) (hdevelops : Develops m) (htimely : Timely w (.move m)) :
    Starting config (w.follow m s') := by
  have hsteady {s' : Sleep} (hs : Steady w.sleep s') : s'.cycle.phase = w.sleep.cycle.phase ∧
      (w.sleep.cycle.phase = .resting → s'.cycle.restSpentS = w.sleep.cycle.restSpentS) := by
    rw [hs.cycle]
    exact ⟨rfl, fun _ => rfl⟩
  -- A coroutine that has started finds no resume amount.
  have hzero {i : ℕ} {task : Task} (hi : w.sleep.tasks[i]? = some task) (hpc : task.pc ≠ .scheduled)
      (howes : task.owes = true) : w.sleep.cycle.resumeSpentS = 0 := by
    rcases h.owed i task hi howes with ⟨-, hscheduled⟩ | hzero
    · exact absurd hscheduled hpc
    · exact hzero
  cases hc with
  | @advance elapsed frozen _ _ hnext =>
    subst hnext
    exact h.frame (fun j other hj _ => .inl hj) rfl (fun _ _ _ _ _ _ => ⟨rfl, fun _ => rfl,
      fun _ => le_rfl⟩) (.inl rfl)
  | @poll developing due hnext =>
    obtain rfl := hdevelops.1 developing due rfl
    obtain ⟨hpolls, -⟩ := polls_maintenancePollOnce config w.sleep due
    rw [← hnext] at hpolls
    exact h.poll hx hstretched hsince hpolls
  | idle hm hs htasks _ hpending =>
    rw [follow_other hm]
    refine h.frame (fun j other hj _ => .inl (htasks ▸ hj)) ?_ ?_ (.inl hpending)
    · exact congrArg StateCycle.resumeSpentS hs.cycle
    · exact fun _ _ _ _ _ _ => ⟨(hsteady hs).1, (hsteady hs).2, fun _ => le_rfl⟩
  | @created m site hm hs hasleep hsite htasks =>
    rw [follow_other hm]
    obtain ⟨-, hpending⟩ : w.sleep.sleepLock = false ∧ w.sleep.sleepPending = false := by
      simpa [asleep] using hasleep
    refine .zero ?_ fun j other hj hother hpc => ?_
    · exact (congrArg StateCycle.resumeSpentS hs.cycle).trans (h.idle hpending)
    · dsimp only at hj
      rw [htasks] at hj
      rcases getElem?_concat_cases hj with hj | ⟨-, rfl⟩
      · have hfree := hx.owes_eq_false hasleep hj
        rw [owes_of_scheduled hother hpc] at hfree
        cases hfree
      · exact hsite.2 hother
  | @began i task started hi hpc hbegins =>
    have hdone : task.pc ≠ .done := by simp [hpc]
    have hholds := hsited.holds_eq hi hdone
    cases hrest : task.site.cycleRest with
    | true =>
      have howes : task.owes = true := by
        have hne : task.site ≠ .direct := by
          intro hdirect
          rw [hdirect] at hrest
          cases hrest
        simp [Task.owes, hne, hpc]
      obtain ⟨hcycle, -⟩ := hbegins.rests (hholds.trans hrest)
      obtain ⟨hsleep, -⟩ := follow_stretch w i .returned s'
      refine .zero ?_ fun j other hj hother hpc' => ?_
      · rw [hsleep, hcycle]
        rfl
      · rw [hsleep] at hj
        rw [hbegins.tasks] at hj
        rcases getElem?_set_cases hj with ⟨hij, hj⟩ | ⟨-, rfl⟩
        · exact hij (hx.unique_owes hi hj howes (owes_of_scheduled hother hpc'))
        · cases hpc'
    | false =>
      have hcycle := hbegins.other (hholds.trans hrest)
      refine h.resume hx hi hdone hbegins.tasks rfl (by simp) (fun howes => ?_)
        (.inl hbegins.sleepPending) (by rw [hcycle]) fun _ => by
          rw [hcycle]; exact ⟨rfl, fun _ => rfl⟩
      rcases h.owed i task hi howes with ⟨hsite, -⟩ | hzero
      · rw [hsite] at hrest
        cases hrest
      · exact hzero
  | @stayed i task outcome pc hi hpc hlost hstays =>
    have hkept := hsteady hstays.steady
    have hresume := congrArg StateCycle.resumeSpentS hstays.steady.cycle
    by_cases hdropped : task.pc = .scheduled ∧ pc = .done ∧ s'.sleepPending = w.sleep.sleepPending
    · obtain ⟨-, rfl, hpending⟩ := hdropped
      rw [follow_resume (.inl (by rw [hstays.steady.cycle])) hkept.1]
      refine h.frame (fun j other hj howes => ?_) hresume
        (fun _ _ _ _ _ _ => ⟨hkept.1, hkept.2, fun _ => le_rfl⟩) (.inl hpending)
      rcases getElem?_of_set hstays.tasks hj with hj | ⟨-, rfl⟩
      · exact .inl hj
      · simp [Task.owes] at howes
    · refine h.resume hx hi hpc.2 hstays.tasks rfl hstays.awaits.2 (fun howes => ?_)
        hstays.yields.sleepPending hresume fun _ => hkept
      rcases h.owed i task hi howes with ⟨hsite, hscheduled⟩ | hzero
      · rcases hlost hscheduled with ⟨rfl, hlock⟩ | ⟨hdone, hpending⟩
        · exact htimely task hi hsite hscheduled hlock
        · exact absurd ⟨hscheduled, hdone, hpending⟩ hdropped
      · exact hzero
  | @turned i task outcome pc hi hin hpc _ _ _ hpending _ hturns =>
    have hstarted {pc : Pc} (hin : pc.inPipeline = true) : pc ≠ .scheduled := by
      rintro rfl
      cases hin
    have hrecycles := hturns.cycle
    refine h.resume hx hi (ne_done_of_inPipeline hin) hturns.tasks rfl (hstarted hpc)
      (hzero hi (hstarted hin)) (.inl hpending) ?_ fun howes => ?_
    · generalize s'.cycle = cycle at hrecycles
      cases hrecycles with
      | same => rfl
      | cut => exact resumeSpentS_cut _ _ _ _
      | ended | completed => rfl
    · have hdirect : task.site = .direct := by
        by_contra hne
        simp [Task.owes, hne, ne_done_of_inPipeline hin] at howes
      have hholds : w.sleep.holds task = false := by
        rw [hsited.holds_eq hi (ne_done_of_inPipeline hin), hdirect]
        rfl
      rcases hturns.cycle_other hsited hi hholds with hcycle | ⟨hawake, hcycle⟩
      · rw [hcycle]
        exact ⟨rfl, fun _ => rfl⟩
      · rw [hcycle, hawake]
        refine ⟨rfl, fun hresting => ?_⟩
        cases hresting
  | @ended i task outcome pc hi hin hlast hends =>
    have hstarted : task.pc ≠ .scheduled := by
      intro hscheduled
      rw [hscheduled] at hin
      cases hin
    refine h.resume hx hi (ne_done_of_inPipeline hin) hends.tasks rfl hends.awaits.2
      (hzero hi hstarted) hends.yields.sleepPending ?_ fun _ => ?_
    · rw [hends.cycle]
    · rw [hends.cycle]
      exact ⟨rfl, fun _ => rfl⟩
  | called hbegins =>
    rw [follow_other rfl]
    exact h.called rfl hbegins.tasks (hbegins.other rfl) hbegins.sleepPending
  | missed hstays =>
    rw [follow_other rfl]
    refine h.called rfl hstays.tasks hstays.steady.cycle ?_
    rcases hstays.yields.sleepPending with hsame | howes
    · exact hsame
    · simp [Task.owes] at howes

end Kaine.Sleep
