import Kaine.Sleep.AwakeStretch
import Kaine.Sleep.ModuleSafety

/-! Over any run in the developmental phase, with its restarts, the state cycle keeps its time. -/
namespace Kaine.Sleep
open PerceptionState Transition

variable {config : Config} {s s' : Sleep} {w w' : Watched} {i : ℕ} {task task' : Task} {pc : Pc}
  {outcome : Outcome} {m : Move}

/-- An entry claims no more than had passed when it was exported. -/
structure Sound (kept : Exported) : Prop where
  earlier : 0 ≤ kept.earlier
  counted : 0 ≤ kept.counted.total
  resting : kept.entry.phase = .resting →
    0 ≤ kept.entry.restSpentS ∧ kept.entry.restSpentS ≤ kept.earlier ∧ kept.entry.awakeS = 0
  awake : kept.entry.phase = .awake →
    0 ≤ kept.entry.awakeS ∧ kept.entry.awakeS ≤ kept.counted.total ∧ kept.entry.restSpentS = 0

theorem sound_exported (hr : Resting config w) (hs : Stretched w) : Sound w.exported := by
  have hpart : 0 ≤ max 0 w.part := le_max_left _ _
  have hcounted : 0 ≤ w.exported.counted.total := by
    unfold Watched.exported
    dsimp only
    split_ifs
    · simp [Stretch.total]
    · exact hs.counted
    · rw [total_add]
      exact add_nonneg hs.counted hs.since
  refine ⟨add_nonneg hr.nonneg hpart, hcounted, ?_, ?_⟩
  · intro hphase
    cases hcycle : w.sleep.cycle.phase with
    | awake => simp [Watched.exported, StateCycle.exportStateCycle, hcycle] at hphase
    | resting =>
      obtain ⟨hspent, hle⟩ := hr.spent hcycle
      simp only [Watched.exported, StateCycle.exportStateCycle, hcycle]
      cases hbegan : w.sleep.cycle.restBegan with
      | none => exact ⟨hspent, hle.trans (le_add_of_nonneg_right hpart), trivial⟩
      | some began => exact ⟨le_max_left _ _, hr.restElapsed_le hcycle hbegan, trivial⟩
  · intro hphase
    cases hcycle : w.sleep.cycle.phase with
    | resting => simp [Watched.exported, StateCycle.exportStateCycle, hcycle] at hphase
    | awake =>
      have hawake := hs.awake hcycle
      have hadded : w.sleep.cycle.awakeS ≤ (w.counted.add w.since).total := by
        rw [total_add]
        exact hawake.trans (le_add_of_nonneg_right hs.since)
      simp only [Watched.exported, StateCycle.exportStateCycle, hcycle]
      refine ⟨?_, ?_, trivial⟩
      · split
        · split
          · exact add_nonneg hs.nonneg (le_max_left _ _)
          · exact hs.nonneg
        · exact hs.nonneg
      · cases hasleep : w.sleep.asleep with
        | true =>
          simp only [Bool.true_eq_false, false_and, if_false, reduceCtorEq, if_true]
          split <;> exact hawake
        | false =>
          simp only [reduceCtorEq, if_false, true_and, if_true, Bool.false_eq_true]
          split
          · rename_i last hlast
            rw [total_add]
            exact add_le_add hawake (hs.ticked last hlast)
          · exact hadded

/-- What an entry is restored to: a rest in it that had run its length is over. -/
def StateCycle.restored (config : CycleConfig) (cycle : StateCycle) (entry : CycleEntry) :
    StateCycle :=
  match entry.phase with
  | .resting =>
    if entry.restSpentS < config.restS then
      { cycle with
        phase := .resting, restSpentS := entry.restSpentS, awakeS := 0, lastTick := none }
    else { cycle with phase := .awake, awakeS := 0, restSpentS := 0, lastTick := none }
  | .awake =>
    { cycle with phase := .awake, awakeS := entry.awakeS, restSpentS := 0, lastTick := none }

theorem restore_toJson (config : CycleConfig) (cycle : StateCycle) {entry : CycleEntry}
    (hawake : 0 ≤ entry.awakeS) (hspent : 0 ≤ entry.restSpentS) :
    cycle.restoreStateCycle config entry.toJson = .ok (cycle.restored config entry) := by
  have hgets : Py.Dict.get [("phase", .str entry.phase.name),
      ("awake_s", .float (.fin entry.awakeS)),
        ("rest_spent_s", .float (.fin entry.restSpentS))] "awake_s" = .float (.fin entry.awakeS) :=
          rfl
  have hgetr : Py.Dict.get [("phase", .str entry.phase.name),
      ("awake_s", .float (.fin entry.awakeS)),
        ("rest_spent_s", .float (.fin entry.restSpentS))] "rest_spent_s" =
          .float (.fin entry.restSpentS) := rfl
  have hgetp : Py.Dict.get [("phase", .str entry.phase.name),
      ("awake_s", .float (.fin entry.awakeS)),
        ("rest_spent_s", .float (.fin entry.restSpentS))] "phase" = .str entry.phase.name := rfl
  have hnum {q : ℚ} (h : 0 ≤ q) : StateCycle.num (.float (.fin q)) = .ok (some q) := by
    simp [StateCycle.num, h]
  unfold CycleEntry.toJson StateCycle.restoreStateCycle StateCycle.restored
  dsimp only
  rw [hgets, hgetr, hgetp, hnum hawake, hnum hspent]
  cases entry.phase with
  | resting =>
    simp only [CyclePhase.name, bind, Except.bind, if_true]
    split <;> rfl
  | awake => rfl

/-- Exported again, a restored entry is the same one, unless it is over. -/
theorem export_restored (config : CycleConfig) {cycle : StateCycle} {kept : Exported}
    (h : Sound kept) (hbegan : cycle.restBegan = none) (developing : Option Bool) (asleep : Bool)
    (now paused : ℚ) :
    (cycle.restored config kept.entry).exportStateCycle developing asleep now paused =
      if kept.entry.phase = .resting ∧ config.restS ≤ kept.entry.restSpentS then ⟨.awake, 0, 0⟩
      else kept.entry := by
  obtain ⟨⟨phase, awakeS, restSpentS⟩, earlier, counted⟩ := kept
  cases phase with
  | resting =>
    obtain ⟨-, -, hawake⟩ := h.resting rfl
    simp only at hawake
    subst hawake
    by_cases hlt : restSpentS < config.restS
    · simp [StateCycle.restored, StateCycle.exportStateCycle, hlt, hbegan]
    · simp [StateCycle.restored, StateCycle.exportStateCycle, hlt, not_lt.1 hlt]
  | awake =>
    obtain ⟨-, -, hspent⟩ := h.awake rfl
    simp only at hspent
    subst hspent
    simp [StateCycle.restored, StateCycle.exportStateCycle]

theorem Sound.nonneg {kept : Exported} (h : Sound kept) :
    0 ≤ kept.entry.awakeS ∧ 0 ≤ kept.entry.restSpentS := by
  cases hphase : kept.entry.phase with
  | resting =>
    obtain ⟨hspent, -, hawake⟩ := h.resting hphase
    exact ⟨hawake.ge, hspent⟩
  | awake =>
    obtain ⟨hawake, -, hspent⟩ := h.awake hphase
    exact ⟨hawake, hspent.ge⟩

/-- What every state of a run keeps. -/
structure Timed (config : Config) (w : Watched) : Prop where
  exclusive : Exclusive w.sleep
  sited : Sited w.sleep
  resting : Resting config w
  starting : Starting config w
  stretched : Stretched w
  exports : ∀ kept ∈ w.exports, Sound kept

/-- A process in which nothing has happened, with what it knows of the cycle before. -/
theorem timed_fresh (hfresh : Fresh w.sleep) (hbegan : w.sleep.cycle.restBegan = none)
    (hresume : w.sleep.cycle.resumeSpentS = 0) (htick : w.sleep.cycle.lastTick = none)
    (htickPaused : w.sleep.cycle.tickPaused ≤ w.sleep.paused)
    (hresting : w.sleep.cycle.phase = .resting →
      (0 ≤ w.sleep.cycle.restSpentS ∧ w.sleep.cycle.restSpentS ≤ w.earlier) ∧ w.part = 0)
    (hnonneg : 0 ≤ w.earlier) (hawakeS : 0 ≤ w.sleep.cycle.awakeS)
    (hawake : w.sleep.cycle.phase = .awake → w.sleep.cycle.awakeS ≤ w.counted.total)
    (hcounted : 0 ≤ w.counted.total) (hsince : w.since = {})
    (hexports : ∀ kept ∈ w.exports, Sound kept) :
    Timed config w := by
  have hnil {i : ℕ} {task : Task} : w.sleep.tasks[i]? ≠ some task := by simp [hfresh.tasks]
  refine ⟨hfresh.exclusive, ⟨?_, ?_⟩, ?_, ⟨?_, fun _ => hresume, ?_⟩,
    ⟨hcounted, ?_, hawakeS, hawake, htickPaused, ?_⟩, hexports⟩
  · exact fun i task _ hi => absurd hi hnil
  · exact fun i task hi => absurd hi hnil
  · exact .unheld (fun i task hi => absurd hi hnil) hbegan hresting hnonneg
  · exact fun i task hi => absurd hi hnil
  · exact fun i task hi => absurd hi hnil
  · rw [hsince]
    simp [Stretch.total]
  · intro last hlast
    rw [htick] at hlast
    cases hlast

theorem timed_initial (config : Config) (now : ℚ) {paused : ℚ} (hpaused : 0 ≤ paused)
    (desired : Desired) (driveScales : List (Option ℚ)) (awaits : Bool) :
    Timed config { sleep := initial config now paused desired driveScales awaits } := by
  refine timed_fresh (fresh_initial ..) rfl rfl rfl hpaused nofun le_rfl le_rfl (fun _ =>
    ?_) ?_ rfl (by simp)
  · simp [initial, StateCycle.initial, Stretch.total]
  · simp [Stretch.total]

/-- A new process restores what it is given. -/
theorem restarted_eq (config : Config) (w : Watched) {kept : Exported} (hkept : Sound kept)
    (now paused : ℚ) (desired : Desired) (driveScales : List (Option ℚ)) (awaits : Bool) :
    restarted config w kept now paused desired driveScales awaits = some
      { sleep :=
          { initial config now paused desired driveScales awaits with
            cycle := (StateCycle.initial config.toCycleConfig).restored config.toCycleConfig
              kept.entry }
        earlier := kept.earlier
        counted := kept.counted
        exports := w.exports } := by
  obtain ⟨hawake, hspent⟩ := hkept.nonneg
  have hrestore := restore_toJson config.toCycleConfig (StateCycle.initial config.toCycleConfig)
    hawake hspent
  unfold restarted
  dsimp only [initial]
  rw [hrestore]

/-- What a restored cycle counts has passed before. -/
theorem restored_cases (config : CycleConfig) {kept : Exported} (hkept : Sound kept)
    (cycle : StateCycle) : ∃ phase awakeS restSpentS, cycle.restored config kept.entry =
        { cycle with
          phase := phase, awakeS := awakeS, restSpentS := restSpentS, lastTick := none } ∧
      0 ≤ awakeS ∧ (phase = .resting → 0 ≤ restSpentS ∧ restSpentS ≤ kept.earlier) ∧
      (phase = .awake → awakeS ≤ kept.counted.total) := by
  unfold StateCycle.restored
  cases hphase : kept.entry.phase with
  | resting =>
    obtain ⟨hspent, hle, -⟩ := hkept.resting hphase
    dsimp only
    split
    · exact ⟨.resting, 0, kept.entry.restSpentS, rfl, le_rfl, fun _ => ⟨hspent, hle⟩, nofun⟩
    · exact ⟨.awake, 0, 0, rfl, le_rfl, nofun, fun _ => hkept.counted⟩
  | awake =>
    obtain ⟨hawake, hle, -⟩ := hkept.awake hphase
    exact ⟨.awake, kept.entry.awakeS, 0, rfl, hawake, nofun, fun _ => hle⟩

theorem Timed.restart (h : Timed config w) {kept : Exported} (hkept : kept ∈ w.exports)
    {now paused : ℚ} (hpaused : 0 ≤ paused) {desired : Desired} {driveScales : List (Option ℚ)}
    {awaits : Bool}
    (hw' : restarted config w kept now paused desired driveScales awaits = some w') :
    Timed config w' := by
  have hsound := h.exports kept hkept
  rw [restarted_eq config w hsound] at hw'
  cases hw'
  obtain ⟨phase, awakeS, restSpentS, hcycle, hawakeS, hresting, hawake⟩ := restored_cases
    config.toCycleConfig hsound (StateCycle.initial config.toCycleConfig)
  rw [hcycle]
  refine timed_fresh ⟨rfl, rfl, rfl, rfl, rfl,
    rfl⟩ rfl rfl rfl hpaused ?_ hsound.earlier hawakeS hawake hsound.counted rfl h.exports
  exact fun hphase => ⟨hresting hphase, rfl⟩

theorem develops_of_timely (h : Timely w (.move m)) : Develops m := by
  constructor
  · rintro developing due rfl
    exact h
  · rintro id developing rfl
    exact h

theorem follow_exports (w : Watched) (m : Move) (s' : Sleep) :
    (w.follow m s').exports = w.exports := by
  unfold Watched.follow
  dsimp only
  split
  · rfl
  · split <;> rfl
  · split
    · rfl
    · split
      · rfl
      · split <;> rfl
  · rfl

theorem follow_sleep (w : Watched) (m : Move) (s' : Sleep) : (w.follow m s').sleep = s' := by
  unfold Watched.follow
  dsimp only
  split
  · rfl
  · split <;> rfl
  · split
    · rfl
    · split
      · rfl
      · split <;> rfl
  · rfl

/-- Acts as the steps of a run. -/
def Acts (config : Config) (w : Watched) (a : Act) (w' : Watched) : Prop := act config w a = some w'

theorem Timed.step {a : Act} (h : Timed config w) (hstep : Guarded Timely (Acts config) w a w') :
    Timed config w' := by
  obtain ⟨htimely, hact⟩ := hstep
  unfold Acts at hact
  cases a with
  | move m =>
    simp only [act, Option.map_eq_some_iff] at hact
    obtain ⟨s', hs', rfl⟩ := hact
    have hclocked := clocked_of_step hs'
    have hdevelops := develops_of_timely htimely
    have hstretched := h.stretched.moved hclocked hdevelops
    refine ⟨?_, ?_, h.resting.moved h.exclusive h.sited h.starting hclocked hdevelops, ?_,
      hstretched, ?_⟩
    · rw [follow_sleep]
      exact (h.exclusive.moved (moved_of_step hs')).1
    · rw [follow_sleep]
      exact h.sited.moved h.exclusive hclocked hdevelops
    · exact h.starting.moved h.exclusive h.sited hstretched h.stretched.since hclocked
        hdevelops htimely
    · rw [follow_exports]
      exact h.exports
  | snapshot =>
    cases hact
    obtain ⟨hexclusive, hsited, hresting, hstarting, hstretched, hexports⟩ := h
    refine ⟨hexclusive, hsited, ?_, ?_, ?_, fun kept hkept => ?_⟩
    · exact hresting.frame (fun _ _ _ => Iff.rfl) rfl rfl rfl rfl (fun _ => ⟨rfl, rfl, rfl⟩)
        ⟨rfl, rfl⟩
    · exact ⟨hstarting.owed, hstarting.idle, hstarting.starts⟩
    · exact hstretched.frame rfl rfl rfl ⟨rfl, rfl⟩
    · rcases List.mem_append.1 hkept with hkept | hkept
      · exact hexports kept hkept
      · rw [List.mem_singleton.1 hkept]
        exact sound_exported hresting hstretched
  | restart k now paused desired driveScales awaits =>
    simp only [act] at hact
    split_ifs at hact with hpaused
    cases hget : w.exports[k]? with
    | none => simp [hget] at hact
    | some kept =>
      rw [hget] at hact
      exact h.restart (List.mem_of_getElem? hget) hpaused hact

/-- A scheduled rest starts its clock as far back as what it resumes has run. -/
theorem begins_of_step (hi : s.tasks[i]? = some task) (hpc : task.pc = .scheduled)
    (hlock : s.sleepLock = false) (hrest : s.holds task = true)
    (hstep : step config s (.resume i .returned) = some s') :
    s'.cycle = s.cycle.beginRest config.toCycleConfig s.now s.paused := by
  simp only [step, hi, resume, hpc] at hstep
  cases hstep
  obtain ⟨pending, accepted, hnoted, -⟩ := noteRequest_eq s task
  rw [hnoted]
  rcases begins_or_stays config
    { s with pendingRest := pending, requestedRestAccepted := accepted } i
    (show task.pc ≠ .done by simp [hpc]) with ⟨started,
      hbegins⟩ | ⟨hlocked, -⟩
  · exact (hbegins.rests hrest).1
  · rw [show s.sleepLock = true from hlocked] at hlock
    cases hlock

/-- Where the hold of a rest is looked at: after the last phase, and at each turn of its loop. -/
def Task.checks (task : Task) : Prop := task.pc = .holding ∨ task.pc = .phase .voiceMeasures

theorem checks_step (hi : s.tasks[i]? = some task) (hpc : task.checks)
    (hholds : s.holds task = true) (hstep : step config s (.resume i .returned) = some s') :
    s' = holdDevelopmentalRest config s i task := by
  simp only [step, hi, resume] at hstep
  rcases hpc with hpc | hpc
  · rw [hpc] at hstep
    cases hstep
    rfl
  · rw [hpc] at hstep
    cases hstep
    unfold afterPhase
    dsimp only [Phase.next]
    rw [if_pos hholds]

theorem Timed.checked (h : Timed config w) (hi : w.sleep.tasks[i]? = some task)
    (hrest : task.site.cycleRest = true) (hpc : task.checks) (hstopped : w.sleep.stopped = false)
    (hstep : Sleep.step config w.sleep (.resume i .returned) = some s') :
    w.sleep.cycle.restSeconds = config.restS - w.sleep.cycle.restSpentS ∧
      (s'.tasks[i]?.map (·.pc) = some .holding ↔ w.part < w.sleep.cycle.restSeconds) := by
  have hin : task.pc.inPipeline = true ∧ task.pc.unspent = true ∧
      ∀ exn resumable, task.pc ≠ .abortPublish exn resumable := by
    rcases hpc with hpc | hpc <;> simp [hpc, Pc.inPipeline, Pc.unspent]
  obtain ⟨hinPipeline, hunspent, hlive⟩ := hin
  have hrests : Rests task := ⟨hinPipeline, hrest, hlive⟩
  have hphase := h.resting.unspent i task hi hrests hunspent
  have hbegan := h.resting.began i task hi hrests
  obtain ⟨-, -, hseconds⟩ := h.resting.reading hphase _ hbegan
  have helapsed := h.resting.restElapsed hphase hbegan
  have hholds := (h.sited.holds_eq hi (ne_done_of_inPipeline hinPipeline)).trans hrest
  have hlt := (List.getElem?_eq_some_iff.1 hi).1
  have hpos := config.restS_pos
  refine ⟨hseconds, ?_⟩
  rw [checks_step hi hpc hholds hstep, hseconds]
  unfold holdDevelopmentalRest
  rw [if_neg (by simp [hstopped]), helapsed]
  split
  · rename_i hfull
    obtain ⟨pc, hrested, -, -, htasks, -⟩ := runHousekeeping_eq config
      { w.sleep with cycle := w.sleep.cycle.reset w.sleep.now } i task
    rw [htasks, List.getElem?_set_self hlt]
    have hne : pc ≠ .holding := by
      rintro rfl
      cases hrested
    have hge : config.restS ≤ w.sleep.cycle.restSpentS + w.part := by
      rcases le_total 0 (w.sleep.cycle.restSpentS + w.part) with hnonneg | hneg
      · rw [max_eq_right hnonneg] at hfull
        linarith
      · rw [max_eq_left hneg] at hfull
        linarith
    simp only [Option.map_some, Option.some.injEq, hne, false_iff, not_lt]
    linarith
  · rename_i hpartial
    have hle := le_max_right 0 (w.sleep.cycle.restSpentS + w.part)
    simp only [setTask, List.getElem?_set_self hlt, Option.map_some, true_iff]
    linarith

theorem Timed.begins (h : Timed config w) (hi : w.sleep.tasks[i]? = some task)
    (hrest : task.site.cycleRest = true) (hpc : task.pc = .scheduled)
    (hlock : w.sleep.sleepLock = false)
    (hstep : Sleep.step config w.sleep (.resume i .returned) = some s') :
    s'.cycle.restSpentS = (if w.resumes i then min w.sleep.cycle.restSpentS config.restS else 0) ∧
      s'.cycle.restSeconds = config.restS - s'.cycle.restSpentS ∧
      (task.site = .stateCycle → w.resumes i = false → config.awakeS ≤ w.counted.total) := by
  have hdone : task.pc ≠ .done := by simp [hpc]
  have hcycle := begins_of_step hi hpc hlock ((h.sited.holds_eq hi hdone).trans hrest) hstep
  have hpos := config.restS_pos
  rw [hcycle]
  refine ⟨?_, rfl, ?_⟩
  · change min w.sleep.cycle.resumeSpentS config.restS = _
    cases hresumes : w.resumes i with
    | true =>
      obtain ⟨hsite, hresting⟩ : task.site = .stateCycle ∧ w.sleep.cycle.phase = .resting := by
        simpa [Watched.resumes, hi] using hresumes
      rcases h.starting.starts i task hi hsite hpc with ⟨-, hresume⟩ | ⟨hawake, -⟩
      · rw [hresume, if_pos rfl]
      · rw [hresting] at hawake
        cases hawake
    | false =>
      have hzero : w.sleep.cycle.resumeSpentS = 0 := by
        by_cases hsite : task.site = .stateCycle
        · rcases h.starting.starts i task hi hsite hpc with ⟨hresting, -⟩ | ⟨-, hzero, -⟩
          · simp [Watched.resumes, hi, hsite, hresting] at hresumes
          · exact hzero
        · have howes : task.owes = true := by
            have hdirect : task.site ≠ .direct := by
              intro hdirect
              rw [hdirect] at hrest
              cases hrest
            simp [Task.owes, hdirect, hpc]
          rcases h.starting.owed i task hi howes with ⟨hother, -⟩ | hzero
          · exact absurd hother hsite
          · exact hzero
      rw [hzero, min_eq_left hpos.le, if_neg Bool.false_ne_true]
  · intro hsite hresumes
    rcases h.starting.starts i task hi hsite hpc with ⟨hresting, -⟩ | ⟨-, -, hcounted⟩
    · simp [Watched.resumes, hi, hsite, hresting] at hresumes
    · exact hcounted

/-- A rest that ends normally has held its length over the parts that were cut; one that begins
holds what is left of the rest that it resumes, or the whole length; a fresh one begins after the
awake time; and an exported entry is restored to itself, unless it is over. -/
theorem state_cycle_keeps_time {config : Config} {now paused : ℚ} (hpaused : 0 ≤ paused)
    {desired : Desired} {driveScales : List (Option ℚ)} {awaits : Bool} {as : List Act}
    {w : Watched}
    (hrun : Run (Guarded Timely (Acts config))
      { sleep := initial config now paused desired driveScales awaits } as w) :
    (∀ (i : ℕ) task, w.sleep.tasks[i]? = some task → task.site.cycleRest = true →
      task.pc = .completedPublish → config.restS ≤ w.earlier + max 0 w.part) ∧
    (∀ (i : ℕ) task s', w.sleep.tasks[i]? = some task → task.site.cycleRest = true → task.checks →
      w.sleep.stopped = false → step config w.sleep (.resume i .returned) = some s' →
      w.sleep.cycle.restSeconds = config.restS - w.sleep.cycle.restSpentS ∧
        (s'.tasks[i]?.map (·.pc) = some .holding ↔ w.part < w.sleep.cycle.restSeconds)) ∧
    (∀ (i : ℕ) task s', w.sleep.tasks[i]? = some task → task.site.cycleRest = true →
      task.pc = .scheduled → w.sleep.sleepLock = false →
      step config w.sleep (.resume i .returned) = some s' →
      s'.cycle.restSpentS = (if w.resumes i then min w.sleep.cycle.restSpentS config.restS else 0) ∧
        s'.cycle.restSeconds = config.restS - s'.cycle.restSpentS ∧
        (task.site = .stateCycle → w.resumes i = false → config.awakeS ≤ w.counted.total)) ∧
    ∀ now' paused' desired' driveScales' awaits', ∃ w',
        restarted config w w.exported now' paused' desired' driveScales' awaits' = some w' ∧
      ∀ developing asleep, w'.sleep.cycle.exportStateCycle developing asleep now' paused' =
        if w.exported.entry.phase = .resting ∧ config.restS ≤ w.exported.entry.restSpentS
          then ⟨.awake, 0, 0⟩
        else w.exported.entry := by
  have htimed : Timed config w :=
    hrun.invariant (fun hstep h => h.step hstep)
      (timed_initial config now hpaused desired driveScales awaits)
  refine ⟨?_, ?_, ?_, ?_⟩
  · intro i task hi hrest hpc
    have hrests : Rests task := by
      refine ⟨?_, hrest, ?_⟩
      · rw [hpc]
        rfl
      · simp [hpc]
    exact (htimed.resting.rested i task hi hrests (by rw [hpc]; rfl)).2
  · intro i task s' hi hrest hpc hstopped hstep
    exact htimed.checked hi hrest hpc hstopped hstep
  · intro i task s' hi hrest hpc hlock hstep
    exact htimed.begins hi hrest hpc hlock hstep
  · intro now' paused' desired' driveScales' awaits'
    have hsound := sound_exported htimed.resting htimed.stretched
    refine ⟨_, restarted_eq config w hsound now' paused' desired' driveScales' awaits', ?_⟩
    intro developing asleep
    exact export_restored config.toCycleConfig hsound rfl developing asleep now' paused'

def evenWatch : Watched := { sleep := evenStart ⟨.physical, false⟩ [] }

/-- All acts in turn. -/
def runActs (config : Config) (w : Watched) (as : List Act) : Option Watched :=
  as.foldlM (act config) w

theorem run_of_runActs {as : List Act} (h : runActs config w as = some w')
    (hok : ∀ a ∈ as, ∀ w, Timely w a) : Run (Guarded Timely (Acts config)) w as w' := by
  induction as generalizing w with
  | nil =>
    cases h
    exact .refl _
  | cons a as ih =>
    simp only [runActs, List.foldlM_cons, Option.bind_eq_bind, Option.bind_eq_some_iff] at h
    obtain ⟨next, hact, hrest⟩ := h
    exact .head ⟨hok a (by simp) w, hact⟩ (ih hrest fun b hb => hok b (by simp [hb]))

/-- The rest that follows ten seconds awake holds its whole length. -/
theorem state_cycle_keeps_time_fresh : ∃ w s',
    runActs evenConfig evenWatch [.move (.poll (some true) false), .move (.advance 10 0),
      .move (.poll (some true) false)] = some w ∧
    step evenConfig w.sleep (.resume 0 .returned) = some s' ∧ s'.cycle.restSeconds = 10 := by
  have hdone : ((runActs evenConfig evenWatch [.move (.poll (some true) false),
      .move (.advance 10 0), .move (.poll (some true) false)]).bind fun w =>
        (step evenConfig w.sleep (.resume 0 .returned)).map fun _ =>
          (w.sleep.tasks[0]?.map (·.site), w.sleep.tasks[0]?.map (·.pc), w.sleep.sleepLock,
          w.resumes 0)) = some (some .stateCycle, some .scheduled, false, false) := by
    decide +kernel
  simp only [Option.bind_eq_some_iff, Option.map_eq_some_iff, Prod.mk.injEq] at hdone
  obtain ⟨w, hw, s', hstep, ⟨task, htask, hsite⟩, ⟨task', htask', hpc⟩, hlock, hresumes⟩ := hdone
  obtain rfl : task = task' := Option.some.inj (htask.symm.trans htask')
  refine ⟨w, s', hw, hstep, ?_⟩
  have hrun := run_of_runActs hw (by simp [Timely])
  obtain ⟨hspent, hseconds, -⟩ := (state_cycle_keeps_time (le_refl 0) hrun).2.2.1 0 task s' htask
    (by rw [hsite]; rfl) hpc hlock hstep
  rw [hseconds, hspent, hresumes]
  norm_num [evenConfig]

/-- A rest that is exported at its whole length is over when it is restored. -/
theorem full_rest_restored :
    (runActs evenConfig evenWatch [.move (.poll (some true) false), .move (.advance 10 0),
        .move (.poll (some true) false), .move (.resume 0 .returned), .move (.advance 10 0),
          .snapshot,
        .restart 0 0 0 ⟨.physical, false⟩ [] false,
          .snapshot]).map (fun w => w.exports.map (·.entry)) =
      some [⟨.resting, 0, 10⟩, ⟨.awake, 0, 0⟩] := by
  decide +kernel

end Kaine.Sleep
