import Kaine.Lifecycle.Stage

/-! That the embodied stage is not left again, and that maturation hands over once. -/
namespace Kaine.StageFile
open Py LivedHistory
open SleepCount (Stage)

variable {isDecimal : Char → Bool} {ofText : String → Option PyFloat} {s t : System isDecimal}
  {a : Attempt} {state : StageState isDecimal} {file : RecordFile} {now : String} {prior : Bool}
  {e : Effect}

/-- The stage file reads as the developmental stage. -/
def ReadsDevelopment (isDecimal : Char → Bool) (ofText : String → Option PyFloat)
    (file : RecordFile) : Prop :=
  ∃ state, readStage isDecimal ofText file = .ok (some state) ∧ state.stage = .development

/-- The effects of a transition that is under way. -/
def Effect.isHandover : Effect → Bool
  | .vocalActivated | .embodimentActivated | .readyPublished => false
  | .stageWritten | .requestCleared | .ackCleared | .locusUnlocked | .hookRun
  | .maturationPublished => true

/-- What may happen to the file of an entity once an embodied stage was written: it is not made to
read as the developmental stage, and where it is lost, the lived records are not lost too. -/
def Allowed (ofText : String → Option PyFloat) (s : System isDecimal) : Action isDecimal → Prop
  | .corrupt file => s.persisted = true → ¬ ReadsDevelopment isDecimal ofText file
  | .boot stagingEnabled hasPriorLivedHistory _ =>
    s.persisted = true → s.file = .absent → stagingEnabled = true → hasPriorLivedHistory = true
  | _ => True

def Step (ofText : String → Option PyFloat) (s : System isDecimal) (a : Action isDecimal)
    (t : System isDecimal) : Prop := step ofText s a = t

/-- No process runs yet. An embodied stage may have been written before. -/
def Initial (ofText : String → Option PyFloat) (s : System isDecimal) : Prop :=
  s.process = none ∧ s.log = [] ∧
    (s.persisted = true → ¬ ReadsDevelopment isDecimal ofText s.file)

/-- What is promised of every state of a run. -/
structure OneWay (s : System isDecimal) : Prop where
  embodied : s.persisted = true → ∀ state on, s.process = some (state, on) →
    state.stage = .embodied
  once : ∀ e, e.isHandover = true → s.log.count e ≤ 1

section Record

theorem checked_val {p : String → Bool} (x : {s : String // p s = true}) :
    checked p x.val = some x := by
  simp [checked, x.2]

theorem coerceSeconds_coe (t : Seconds) :
    coerceSeconds ofText (secondsJson t) = .ok (some t) := by
  have hdouble : (Json.float (.fin t)).toDouble ofText = PyNumber.toFloat (.float (.fin t)) := rfl
  simp [coerceSeconds, secondsJson, hdouble]

theorem coerceSeconds_orNull (t : Option Seconds) :
    coerceSeconds ofText (orNull secondsJson t) = .ok t := by
  cases t with
  | none => rfl
  | some t => exact coerceSeconds_coe t

theorem coerceStage_name (stage : Stage) :
    coerceStage (.str (stageName stage)) = .ok stage := by
  cases stage <;> rfl

/-- No field of a record has an old name. -/
theorem mapStageRecord_toDict (state : StageState isDecimal) :
    mapStageRecord state.toDict = state.toDict := by
  cases h : state.stage <;> simp only [StageState.toDict, h] <;> rfl

/-- A stage is read back as it was written. -/
theorem fromDict_toDict (state : StageState isDecimal) :
    StageState.fromDict isDecimal ofText state.toDict = .ok state := by
  have hstage : state.toDict.lookup "stage" = some (.str (stageName state.stage)) := rfl
  have hlived : Dict.getD state.toDict "lived_seconds" (.float (.fin 0)) =
      secondsJson state.livedSeconds := rfl
  have hat : Dict.get state.toDict "stimulus_source_t_at_maturation" =
      orNull secondsJson state.stimulusSourceTAtMaturation := rfl
  have hseconds : Dict.get state.toDict "stimulus_source_seconds" =
      orNull secondsJson state.stimulusSourceSeconds := rfl
  have hcursor : (coerceText (Dict.get state.toDict "sleep_cursor")).bind
      (checked (isCursor isDecimal)) = state.sleepCursor := by
    have hget : Dict.get state.toDict "sleep_cursor" =
        orNull (fun c => .str c.val) state.sleepCursor := rfl
    rw [hget]
    cases state.sleepCursor with
    | none => rfl
    | some cursor => exact checked_val cursor
  have hdigest : (coerceText (Dict.get state.toDict "stimulus_source_params_digest")).bind
      (checked isDigest) = state.stimulusSourceParamsDigest := by
    have hget : Dict.get state.toDict "stimulus_source_params_digest" =
        orNull (fun d => .str d.val) state.stimulusSourceParamsDigest := rfl
    rw [hget]
    cases state.stimulusSourceParamsDigest with
    | none => rfl
    | some digest => exact checked_val digest
  have hseed : coerceSeed (Dict.get state.toDict "stimulus_source_seed") =
      state.stimulusSourceSeed := by
    have hget : Dict.get state.toDict "stimulus_source_seed" =
        orNull .int state.stimulusSourceSeed := rfl
    rw [hget]
    cases state.stimulusSourceSeed <;> rfl
  have hbloom : coerceText (Dict.get state.toDict "maturation_bloom_ends_at") =
      state.maturationBloomEndsAt := by
    have hget : Dict.get state.toDict "maturation_bloom_ends_at" =
        orNull .str state.maturationBloomEndsAt := rfl
    rw [hget]
    cases state.maturationBloomEndsAt <;> rfl
  simp only [StageState.fromDict, mapStageRecord_toDict, hstage, coerceStage_name, hlived,
    coerceSeconds_coe, hat, hseconds, coerceSeconds_orNull, hcursor, hdigest, hseed, hbloom, bind,
    Except.bind, pure, Except.pure, Option.getD_some]
  rfl

end Record

/-- A written stage is the one that is read. -/
theorem readStage_write (state : StageState isDecimal) (file : RecordFile) :
    readStage isDecimal ofText (writeStage state true file) = .ok (some state) := by
  simp [writeStage, readStage, fromDict_toDict, Except.map]

theorem not_readsDevelopment_write (h : state.stage = .embodied) :
    ¬ ReadsDevelopment isDecimal ofText (writeStage state true file) := by
  rintro ⟨state', hread, hdev⟩
  rw [readStage_write] at hread
  obtain rfl : state = state' := by simpa using hread
  rw [h] at hdev
  cases hdev

/-- The hook touches an embodied stage only, and leaves it embodied. -/
theorem not_readsDevelopment_hook {r : Option Recording}
    (h : ¬ ReadsDevelopment isDecimal ofText file) :
    ¬ ReadsDevelopment isDecimal ofText (maturationHook isDecimal ofText r file) := by
  unfold maturationHook
  split
  · rename_i state r _
    split
    · rename_i hstage
      exact not_readsDevelopment_write hstage
    · exact h
  · exact h

/-- Once an embodied stage is in the file, or is written on the way, the effects of an attempt leave
no stage of development in it. -/
theorem not_readsDevelopment_effects {effects : List Effect} (hstate : state.stage = .embodied)
    (h : ¬ ReadsDevelopment isDecimal ofText file ∨ .stageWritten ∈ effects) :
    ¬ ReadsDevelopment isDecimal ofText (effects.foldl (applyEffect ofText a state) file) := by
  induction effects generalizing file with
  | nil =>
    rcases h with h | h
    · exact h
    · cases h
  | cons e effects ih =>
    apply ih
    by_cases he : e = .stageWritten
    · subst he
      exact .inl (not_readsDevelopment_write hstate)
    · rcases h with h | h
      · left
        cases e with
        | hookRun => exact not_readsDevelopment_hook h
        | stageWritten => exact (he rfl).elim
        | vocalActivated | embodimentActivated | readyPublished | requestCleared | ackCleared
        | locusUnlocked | maturationPublished => exact h
      · right
        rcases List.mem_cons.mp h with heq | hmem
        · exact (he heq.symm).elim
        · exact hmem

theorem isHandover_activations (h : e ∈ a.activations) : e.isHandover = false := by
  rcases List.mem_append.mp h with h | h <;> split_ifs at h <;> simp_all [Effect.isHandover]

/-- What an attempt does before it writes the stage is no part of the handover, and each part of the
handover comes once. -/
theorem effects_cases (a : Attempt) :
    ∃ before after : List Effect, (∀ e ∈ before, e.isHandover = false) ∧
      (a.effects = before ∨ a.effects = before ++ .stageWritten :: after) ∧
      (.stageWritten :: after).Nodup := by
  have hnodup : (.stageWritten :: a.handover).Nodup := by
    cases hc : a.clears <;> cases hh : a.hook <;> simp [Attempt.handover, hc, hh]
  by_cases hfails : a.embodiment = some false
  · refine ⟨a.effects, a.handover, ?_, .inl rfl, hnodup⟩
    intro e he
    simp only [Attempt.effects, hfails, if_true] at he
    rcases List.mem_append.mp he with h | h
    · exact isHandover_activations h
    · obtain rfl : e = .readyPublished := by simpa using h
      rfl
  · refine ⟨a.activations, a.handover, fun e he => isHandover_activations he, ?_, hnodup⟩
    cases hw : a.writes
    · left
      simp [Attempt.effects, hfails, hw]
    · right
      simp [Attempt.effects, hfails, hw]

theorem performed_prefix (a : Attempt) : a.performed <+: a.effects := by
  unfold Attempt.performed
  split
  · exact List.take_prefix _ _
  · exact List.prefix_rfl

/-- An attempt does each part of the handover once at most, and only if it wrote the stage. -/
theorem performed_handover (h : e.isHandover = true) :
    a.performed.count e ≤ 1 ∧ (e ∈ a.performed → .stageWritten ∈ a.performed) := by
  obtain ⟨before, after, hbefore, heffects, hnodup⟩ := effects_cases a
  have hnot : e ∉ before := by
    intro hmem
    rw [hbefore e hmem] at h
    cases h
  have hfront := performed_prefix a
  rcases heffects with heq | heq
  · rw [heq] at hfront
    have habsent : e ∉ a.performed := fun hmem => hnot (hfront.subset hmem)
    refine ⟨?_, fun hmem => (habsent hmem).elim⟩
    rw [List.count_eq_zero_of_not_mem habsent]
    omega
  · rw [heq] at hfront
    constructor
    · have hle := hfront.sublist.count_le e
      have hzero := List.count_eq_zero_of_not_mem hnot
      have hone := List.nodup_iff_count_le_one.mp hnodup e
      rw [List.count_append] at hle
      omega
    · intro hmem
      obtain ⟨rest, hrest⟩ := hfront
      rcases List.append_eq_append_iff.mp hrest with ⟨c, hc, -⟩ | ⟨c, hc, hw⟩
      · have hin : e ∈ before := by
          rw [hc]
          exact List.mem_append_left c hmem
        exact (hnot hin).elim
      · cases c with
        | nil =>
          rw [hc, List.append_nil] at hmem
          exact (hnot hmem).elim
        | cons w c =>
          obtain ⟨rfl, -⟩ := List.cons.inj hw
          rw [hc]
          simp

/-- A boot takes up the developmental stage only from a stage file that reads so, or where there is
neither a file nor a lived history. -/
theorem resolveBootStage_development
    (h : resolveBootStage isDecimal ofText prior now file = .ok state)
    (hstage : state.stage = .development) :
    readStage isDecimal ofText file = .ok (some state) ∨ (file = .absent ∧ prior = false) := by
  obtain ⟨existing, hread, h⟩ := bind_eq_ok.mp h
  cases existing with
  | some existing =>
    left
    have heq : existing = state := by simpa [pure, Except.pure] using h
    rw [hread, heq]
  | none =>
    right
    have habsent : file = .absent := by
      cases file with
      | absent => rfl
      | statFails | special | unreadable => simp [readStage] at hread
      | contents p =>
        cases p with
        | value v =>
          cases v <;> simp [readStage, Except.map] at hread; split at hread <;> simp at hread
        | undecodable | notJson | hugeInteger | tooDeep => simp [readStage] at hread
    cases prior with
    | false => exact ⟨habsent, rfl⟩
    | true =>
      have heq : ({ stage := .embodied } : StageState isDecimal) = state := by
        simpa [pure, Except.pure] using h
      rw [← heq] at hstage
      cases hstage

/-- What every allowed step keeps. -/
structure Inv (ofText : String → Option PyFloat) (s : System isDecimal) : Prop where
  oneWay : OneWay s
  file : s.persisted = true → ¬ ReadsDevelopment isDecimal ofText s.file
  fresh : s.persisted = false → ∀ e, e.isHandover = true → e ∉ s.log

theorem inv_initial (h : Initial ofText s) : Inv ofText s := by
  obtain ⟨hprocess, hlog, hfile⟩ := h
  refine ⟨⟨?_, ?_⟩, hfile, ?_⟩
  · intro _ state on hsome
    rw [hprocess] at hsome
    cases hsome
  · intro e _
    rw [hlog]
    exact Nat.zero_le 1
  · intro _ e _ hmem
    rw [hlog] at hmem
    cases hmem

theorem inv_boot {stagingEnabled : Bool} (h : Inv ofText s)
    (hallowed : Allowed ofText s (.boot stagingEnabled prior now)) :
    Inv ofText (step ofText s (.boot stagingEnabled prior now)) := by
  simp only [step]
  split
  · rename_i state hboot
    refine ⟨⟨?_, h.oneWay.once⟩, h.file, h.fresh⟩
    intro hpersisted state' on hsome
    obtain ⟨rfl, rfl⟩ : state = state' ∧ stagingEnabled = on := by simpa using hsome
    cases hstage : state.stage with
    | embodied => rfl
    | development =>
      have hnot := h.file hpersisted
      unfold bootStage at hboot
      split_ifs at hboot with hon
      · rcases resolveBootStage_development hboot hstage with hread | ⟨habsent, hprior⟩
        · exact (hnot ⟨state, hread, hstage⟩).elim
        · rw [hallowed hpersisted habsent hon] at hprior
          cases hprior
      · cases hread : readStage isDecimal ofText s.file with
        | error e => simp [hread, Except.map] at hboot
        | ok existing =>
          cases existing with
          | none =>
            have heq : ({ stage := .embodied } : StageState isDecimal) = state := by
              simpa [hread, Except.map] using hboot
            rw [← heq] at hstage
            cases hstage
          | some existing =>
            have heq : existing = state := by simpa [hread, Except.map] using hboot
            exact (hnot ⟨state, heq ▸ hread, hstage⟩).elim
  · refine ⟨⟨?_, h.oneWay.once⟩, h.file, h.fresh⟩
    intro _ state on hsome
    cases hsome

/-- A process in the developmental stage has not seen an embodied one written. -/
theorem not_persisted (h : Inv ofText s) {on : Bool} (hprocess : s.process = some (state, on))
    (hstage : state.stage = .development) : s.persisted = false := by
  cases hpersisted : s.persisted with
  | false => rfl
  | true =>
    have hembodied := h.oneWay.embodied hpersisted state on hprocess
    rw [hstage] at hembodied
    cases hembodied

theorem inv_doMaturation (h : Inv ofText s) (hpersisted : s.persisted = false)
    (hstage : state.stage = .development) : Inv ofText (doMaturation ofText s state a) := by
  have hafter : (advanceToEmbodied state a.now).stage = .embodied := by
    simp [advanceToEmbodied, hstage]
  have hwritten : (doMaturation ofText s state a).persisted = true →
      .stageWritten ∈ a.performed := by
    simp [doMaturation, hpersisted]
  refine ⟨⟨?_, ?_⟩, ?_, ?_⟩
  · intro hnow state' on hsome
    have hmem := List.contains_iff_mem.mpr (hwritten hnow)
    simp only [doMaturation, hmem, if_true] at hsome
    obtain ⟨rfl, -⟩ : advanceToEmbodied state a.now = state' ∧ true = on := by simpa using hsome
    exact hafter
  · intro e he
    have hzero := List.count_eq_zero_of_not_mem (h.fresh hpersisted e he)
    have hone := (@performed_handover a e he).1
    simp only [doMaturation, List.count_append]
    omega
  · intro hnow
    exact not_readsDevelopment_effects hafter (.inr (hwritten hnow))
  · intro hnow e he hmem
    rcases List.mem_append.mp hmem with hmem | hmem
    · exact h.fresh hpersisted e he hmem
    · have hin := (performed_handover he).2 hmem
      simp only [doMaturation, hpersisted, Bool.false_or] at hnow
      rw [List.contains_iff_mem.mpr hin] at hnow
      cases hnow

theorem inv_step {action : Action isDecimal} (h : Inv ofText s)
    (hallowed : Allowed ofText s action) (hstep : Step ofText s action t) : Inv ofText t := by
  subst hstep
  cases action with
  | boot stagingEnabled prior now => exact inv_boot h hallowed
  | persist evidence ok =>
    simp only [step]
    split
    · rename_i state hprocess
      split_ifs with hstage
      · have hpersisted := not_persisted h hprocess hstage
        refine ⟨⟨?_, h.oneWay.once⟩, ?_, h.fresh⟩
        · intro hnow
          rw [hpersisted] at hnow
          cases hnow
        · intro hnow
          rw [hpersisted] at hnow
          cases hnow
      · exact h
    · exact h
  | mature a =>
    simp only [step]
    split
    · rename_i before hprocess
      split_ifs with hstage
      · exact inv_doMaturation h (not_persisted h hprocess hstage) hstage
      · exact h
    · exact h
  | die =>
    refine ⟨⟨?_, h.oneWay.once⟩, h.file, h.fresh⟩
    intro _ state on hsome
    cases hsome
  | corrupt file => exact ⟨⟨h.oneWay.embodied, h.oneWay.once⟩, hallowed, h.fresh⟩

/-- The embodied stage is not left in any allowed run and its handover happens once, a boot takes up
the developmental stage for no other reason than the two, and a stage is read as it was written. -/
theorem stage_is_one_way (isDecimal : Char → Bool) (ofText : String → Option PyFloat) :
    (∀ s : System isDecimal, Transition.Reachable (Initial ofText)
      (Transition.Guarded (Allowed ofText) (Step ofText)) s → OneWay s) ∧
    (∀ prior now file state, resolveBootStage isDecimal ofText prior now file = .ok state →
      state.stage = .development →
      readStage isDecimal ofText file = .ok (some state) ∨ (file = .absent ∧ prior = false)) ∧
    ∀ state : StageState isDecimal, StageState.fromDict isDecimal ofText state.toDict =
      .ok state := by
  refine ⟨?_, fun _ _ _ _ => resolveBootStage_development, fromDict_toDict⟩
  intro s h
  have hinv : Inv ofText s := by
    refine h.invariant inv_initial ?_
    rintro s action t ⟨hallowed, hstep⟩ hs
    exact inv_step hs hallowed hstep
  exact hinv.oneWay

abbrev isAsciiDigit (c : Char) : Bool := c.isDigit

def noText (_ : String) : Option PyFloat := none

/-- An entity without a stage file. -/
def unborn : System isAsciiDigit := ⟨.absent, none, false, []⟩

theorem initial_unborn : Initial noText unborn := ⟨rfl, rfl, nofun⟩

def attempt (embodiment : Bool) : Attempt := ⟨true, some embodiment, true, true, none, "t1", none⟩

/-- A first boot, an attempt that fails to activate, one that does not, and another boot. -/
def maturing : List (Action isAsciiDigit) :=
  [.boot true false "t0", .mature (attempt false), .mature (attempt true), .die,
   .boot true false "t2"]

theorem allowed_maturing :
    Transition.Run (Transition.Guarded (Allowed noText) (Step noText)) unborn maturing
      (maturing.foldl (step noText) unborn) := by
  refine .head ⟨?_, rfl⟩ (.head ⟨trivial, rfl⟩ (.head ⟨trivial, rfl⟩ (.head ⟨trivial, rfl⟩
    (.head ⟨?_, rfl⟩ (.refl _)))))
  · intro hpersisted
    cases hpersisted
  · intro _ habsent
    cases habsent

theorem stage_is_one_way_maturing :
    OneWay (maturing.foldl (step noText) unborn) ∧
      (maturing.foldl (step noText) unborn).persisted = true :=
  ⟨(stage_is_one_way isAsciiDigit noText).1 _ ⟨unborn, maturing, initial_unborn, allowed_maturing⟩,
    by decide⟩

/-- A stage file of the developmental stage is taken up whatever was lived; a file that is made to
hold an empty object reads as development after an embodied stage was written; and each attempt
activates the voice and the body again. -/
theorem development_comes_back :
    (resolveBootStage isAsciiDigit noText true "t2"
        (.contents (.value (.obj [("stage", .str "development")])))).toOption.map StageState.stage =
      some .development ∧
    (∃ s : System isAsciiDigit, Transition.Reachable (Initial noText) (Step noText) s ∧
      s.persisted = true ∧ s.process.map (fun p => p.1.stage) = some .development) ∧
    (∃ s : System isAsciiDigit, Transition.Reachable (Initial noText) (Step noText) s ∧
      s.log.count .vocalActivated = 2 ∧ s.log.count .embodimentActivated = 2) := by
  refine ⟨by decide, ?_, ?_⟩
  · refine ⟨_, ⟨unborn, maturing ++ [.corrupt (.contents (.value (.obj []))), .boot true true "t3"],
      initial_unborn, Transition.Run.foldl _ _ fun _ _ _ => rfl⟩, ?_, ?_⟩
    · decide
    · decide
  · refine ⟨_, ⟨unborn, maturing, initial_unborn, Transition.Run.foldl _ _ fun _ _ _ => rfl⟩, ?_,
      ?_⟩
    · decide
    · decide

end Kaine.StageFile
