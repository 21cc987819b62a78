import Kaine.Cycle.ControlStateSafety
import Kaine.Cycle.Supervisor

/-! What one poll of the supervisor can do, and the freezes that it leaves: each failed attempt
leaves one on the stack, and nothing takes it off. -/
namespace Kaine.Supervision
open Py Control Transition

variable {config : SupervisorConfig} {p : Poll} {s t : System} {m : Module}
  {result : AssessResult} {sup : Supervisor} {file : ControlFile} {under : Bool}

/-! ### One poll -/

/-- The incidents of modules that were found alive are forgotten. -/
def Supervisor.forget (sup : Supervisor) (names : List String) : Supervisor :=
  { sup with incidents := fun name => if name ∈ names then none else sup.incidents name }

theorem forget_nil (sup : Supervisor) : sup.forget [] = sup := by
  simp [Supervisor.forget]

theorem forget_cons (sup : Supervisor) (name : String) (names : List String) :
    Supervisor.forget { sup with incidents := Function.update sup.incidents name none } names =
      sup.forget (name :: names) := by
  simp only [Supervisor.forget, Supervisor.mk.injEq, and_true]
  funext other
  by_cases hname : other = name
  · simp [hname]
  · simp [hname]

/-- A poll passes over modules that are alive, or hung under development, and acts on one fault at
most. -/
inductive PollDoes (config : SupervisorConfig) (p : Poll) (under : Bool) (sup : Supervisor)
    (file : ControlFile) : List Effect × Supervisor × ControlFile → Prop where
  | quiet (names : List String) : PollDoes config p under sup file
      (names.map .alive, sup.forget names, file)
  | acts (names : List String) (m : Module) (hm : m ∈ p.modules)
      (hfault : (assess config p.sleeping m).state ≠ .alive)
      (hhung : under = true → (assess config p.sleeping m).state ≠ .hung) :
      PollDoes config p under sup file
        (names.map .alive ++
            (handle config p m (assess config p.sleeping m) (sup.forget names) file).1,
          (handle config p m (assess config p.sleeping m) (sup.forget names) file).2)

theorem PollDoes.alive {name : String} {r : List Effect × Supervisor × ControlFile}
    (h : PollDoes config p under
      { sup with incidents := Function.update sup.incidents name none } file r) :
    PollDoes config p under sup file (.alive name :: r.1, r.2) := by
  cases h with
  | quiet names =>
    rw [forget_cons]
    exact .quiet (name :: names)
  | acts names m hm hfault hhung =>
    rw [forget_cons]
    exact .acts (name :: names) m hm hfault hhung

theorem pollModules_does (config : SupervisorConfig) (under : Bool) (file : ControlFile)
    (modules : List Module) (hsub : modules ⊆ p.modules) (sup : Supervisor) :
    PollDoes config p under sup file (pollModules config p under file modules sup) := by
  induction modules generalizing sup with
  | nil =>
    have h : PollDoes config p under sup file _ := .quiet []
    rwa [forget_nil] at h
  | cons m rest ih =>
    obtain ⟨hm, hrest⟩ := List.cons_subset.mp hsub
    rw [pollModules]
    by_cases halive : (assess config p.sleeping m).state = .alive
    · rw [if_pos halive]
      exact (ih hrest _).alive
    · rw [if_neg halive]
      by_cases hskip : (under && (assess config p.sleeping m).state = .hung) = true
      · rw [if_pos hskip]
        exact ih hrest sup
      · rw [if_neg hskip]
        have h : PollDoes config p under sup file _ := .acts [] m hm halive (by simpa using hskip)
        rwa [forget_nil] at h

/-- What a poll can do from a file: nothing where it stays out. -/
inductive PollActs (config : SupervisorConfig) (p : Poll) (sup : Supervisor) (file : ControlFile) :
    List Effect × Supervisor × ControlFile → Prop where
  | quiet (names : List String) : PollActs config p sup file
      (names.map .alive, sup.forget names, file)
  | acts (names : List String) (m : Module) (c : CycleControl) (hm : m ∈ p.modules)
      (hfault : (assess config p.sleeping m).state ≠ .alive)
      (hhung : (stackOf file).any isDevelopment = true →
        (assess config p.sleeping m).state ≠ .hung)
      (hfile : control file = some c) (hout : staysOut (stateOf (stackOf file)) = false) :
      PollActs config p sup file
        (names.map .alive ++
            (handle config p m (assess config p.sleeping m) (sup.forget names) file).1,
          (handle config p m (assess config p.sleeping m) (sup.forget names) file).2)

theorem staysOut_failClosed (mtime : String) : staysOut (failClosedState mtime) = true := by
  rfl

theorem frozen_stateOf (stack : List Entry) : (stateOf stack).frozen = !stack.isEmpty := by
  cases stack using List.reverseRecOn with
  | nil => rfl
  | append_singleton front e => simp [stateOf, topView]

theorem pollOnce_acts (config : SupervisorConfig) (p : Poll) (sup : Supervisor)
    (file : ControlFile) : PollActs config p sup file (pollOnce config p sup file) := by
  have hquiet : PollActs config p sup file ([], sup, file) := by
    have h : PollActs config p sup file _ := .quiet []
    rwa [forget_nil] at h
  rw [pollOnce]
  by_cases hstay : (!config.enabled || staysOut (readControl p.mtime file)) = true
  · rw [if_pos hstay]
    exact hquiet
  · rw [if_neg hstay]
    have hout : staysOut (readControl p.mtime file) = false := by
      rw [Bool.or_eq_true, not_or] at hstay
      exact Bool.eq_false_iff.mpr hstay.2
    cases hc : control file with
    | none =>
      have hclosed : readControl p.mtime file = failClosedState p.mtime := by
        cases file with
        | missing => cases hc
        | unreadable => rfl
        | json v => simp [readControl, hc]
      rw [hclosed, staysOut_failClosed] at hout
      cases hout
    | some c =>
      rw [readControl_eq hc] at hout ⊢
      have hunder : (stackOf file).any isDevelopment = true →
          underDevelopment (stateOf (stackOf file)) = true := by
        intro hany
        rw [underDevelopment, frozen_stateOf, Bool.and_eq_true]
        refine ⟨?_, hany⟩
        cases hstack : stackOf file with
        | nil => simp [hstack] at hany
        | cons e rest => rfl
      have hdoes := pollModules_does config (underDevelopment (stateOf (stackOf file))) file
        p.modules (List.Subset.refl _) sup
      generalize pollModules config p _ file p.modules sup = r at hdoes ⊢
      cases hdoes with
      | quiet names => exact .quiet names
      | acts names m hm hfault hhung =>
        exact .acts names m c hm hfault (fun hany => hhung (hunder hany)) hc hout

/-! ### One fault -/

/-- Whether the attempt that starts now ends with the module alive. -/
def recovers (config : SupervisorConfig) (p : Poll) (sup : Supervisor) (m : Module) : Bool :=
  (restartModule m (sup.attempt config p m.name).lastGood p.rebuilt p.restored).ok &&
    (assess config p.sleepingAfter p.restarted).state = .alive

/-- What goes on record of the attempt. -/
def restartRecord (config : SupervisorConfig) (p : Poll) (sup : Supervisor) (m : Module) : Record :=
  ⟨(sup.attempt config p m.name).incidentId, m.name,
    .restart (sup.attempt config p m.name).attempts
      (restartModule m (sup.attempt config p m.name).lastGood p.rebuilt p.restored)
      (recovers config p sup m) (assess config p.sleepingAfter p.restarted).state⟩

/-- What is done up to the end of the attempt. -/
def attempted (config : SupervisorConfig) (p : Poll) (sup : Supervisor) (m : Module)
    (result : AssessResult) : List Effect :=
  detected config p sup m result ++ [.restartModule m.name, .record (restartRecord config p sup m)]

theorem handle_recovered (h : recovers config p sup m = true) :
    (handle config p m result sup file).1 = attempted config p sup m result ∧
    (handle config p m result sup file).2.1 =
      { sup with incidents := Function.update sup.incidents m.name none,
                 minted := sup.mint m.name } := by
  unfold recovers at h
  simp [handle, attempted, restartRecord, recovers, h]

theorem handle_escalated (h : recovers config p sup m = false)
    (hlast : config.maxRestartAttempts ≤ (sup.attempt config p m.name).attempts) :
    (handle config p m result sup file).1 =
      attempted config p sup m result ++ escalate p (sup.attempt config p m.name) m.name ∧
    (handle config p m result sup file).2.1 =
      ⟨Function.update sup.incidents m.name (some (sup.attempt config p m.name)),
        sup.mint m.name, true⟩ := by
  unfold recovers at h
  simp [handle, attempted, restartRecord, recovers, h, hlast]

theorem handle_failed (h : recovers config p sup m = false)
    (hlast : ¬ config.maxRestartAttempts ≤ (sup.attempt config p m.name).attempts) :
    (handle config p m result sup file).1 = attempted config p sup m result ∧
    (handle config p m result sup file).2.1 =
      { sup with
        incidents := Function.update sup.incidents m.name (some (sup.attempt config p m.name))
        minted := sup.mint m.name } := by
  unfold recovers at h
  simp [handle, attempted, restartRecord, recovers, h, hlast]

/-- An attempt freezes the cycle, and lifts that freeze if the module is alive after it. -/
theorem stackOf_handle (config : SupervisorConfig) (p : Poll) (m : Module) (result : AssessResult)
    (sup : Supervisor) {c : CycleControl} (hc : control file = some c) :
    ∃ e, isSupervisor e = true ∧ stackOf (handle config p m result sup file).2.2 =
      if recovers config p sup m then stackOf file else stackOf file ++ [e] := by
  let reason : Json := .str s!"supervisor: {m.name} {result.state.text}"
  let e := normalizeEntry (freezeEntry reason "supervisor" p.now)
  have he : isSupervisor e = true := rfl
  have hpush : stackOf (pushFreeze p.mtime reason "supervisor" p.now file).2 =
      stackOf file ++ [e] := stackOf_pushFreeze hc reason "supervisor" p.now
  obtain ⟨c', hc'⟩ : ∃ c', control (pushFreeze p.mtime reason "supervisor" p.now file).2 =
      some c' := by
    rw [← Option.isSome_iff_exists, pushFreeze, isSome_updateStack, hc]
    rfl
  have hany : (readControl p.mtime
      (pushFreeze p.mtime reason "supervisor" p.now file).2).stack.any isSupervisor = true := by
    rw [readControl_eq hc', hpush]
    simp [stateOf, he]
  have hpop : popSource "supervisor" (stackOf file ++ [e]) = stackOf file := by
    have hsource : decide (Dict.get e "source" = .str "supervisor") = true := he
    simp [popSource, hsource]
  refine ⟨e, he, ?_⟩
  cases hr : recovers config p sup m with
  | true =>
    have hr' := hr
    unfold recovers at hr'
    have hfile : (handle config p m result sup file).2.2 = (popFreeze p.mtime (some "supervisor")
        (pushFreeze p.mtime reason "supervisor" p.now file).2).2 := by
      simp only [handle, hr', if_true]
      rw [if_pos hany]
    rw [hfile, stackOf_popFreeze, hpush, hpop, if_pos rfl]
  | false =>
    have hr' := hr
    unfold recovers at hr'
    have hfile : (handle config p m result sup file).2.2 =
        (pushFreeze p.mtime reason "supervisor" p.now file).2 := by
      by_cases hlast : config.maxRestartAttempts ≤ (sup.attempt config p m.name).attempts
      · simp [handle, hr', hlast, reason]
      · simp [handle, hr', hlast, reason]
    rw [hfile, hpush, if_neg (by simp)]

/-! ### The freezes of a run -/

def isFailedAttempt : Effect → Bool
  | .record r =>
    match r.detail with
    | .restart _ _ recovered _ => !recovered
    | _ => false
  | _ => false

/-- How many attempts to restart a module have failed. -/
def failedAttempts (log : List Effect) : ℕ := log.countP isFailedAttempt

theorem failedAttempts_append (xs ys : List Effect) :
    failedAttempts (xs ++ ys) = failedAttempts xs + failedAttempts ys := List.countP_append

theorem failedAttempts_attempted (config : SupervisorConfig) (p : Poll) (sup : Supervisor)
    (m : Module) (result : AssessResult) :
    failedAttempts (attempted config p sup m result) = if recovers config p sup m then 0
      else 1 := by
  have hbefore : failedAttempts (detected config p sup m result) = 0 := by
    simp only [detected]
    split <;> rfl
  rw [attempted, failedAttempts_append, hbefore]
  cases hr : recovers config p sup m <;> simp [failedAttempts, isFailedAttempt, restartRecord, hr]

theorem failedAttempts_escalate (p : Poll) (incident : Incident) (name : String) :
    failedAttempts (escalate p incident name) = 0 := by
  have hshutdown : failedAttempts ((shutdownOrder p.modules).map fun m => .shutdown m.name) =
    0 := by
    rw [failedAttempts, List.countP_eq_zero]
    intro effect heffect
    obtain ⟨m, -, rfl⟩ := List.mem_map.mp heffect
    simp [isFailedAttempt]
  unfold failedAttempts at hshutdown
  simp [failedAttempts, escalate, hshutdown, isFailedAttempt]

theorem failedAttempts_alive (names : List String) :
    failedAttempts (names.map Effect.alive) = 0 := by
  rw [failedAttempts, List.countP_eq_zero]
  intro effect heffect
  obtain ⟨name, -, rfl⟩ := List.mem_map.mp heffect
  simp [isFailedAttempt]

theorem failedAttempts_handle : failedAttempts (handle config p m result sup file).1 =
    if recovers config p sup m then 0 else 1 := by
  cases hr : recovers config p sup m with
  | true => rw [(handle_recovered hr).1, failedAttempts_attempted, hr]
  | false =>
    by_cases hlast : config.maxRestartAttempts ≤ (sup.attempt config p m.name).attempts
    · rw [(handle_escalated hr hlast).1, failedAttempts_append, failedAttempts_attempted, hr,
        failedAttempts_escalate, Nat.add_zero]
    · rw [(handle_failed hr hlast).1, failedAttempts_attempted, hr]

/-! ### What other sources do between polls -/

def othersEntries (file : ControlFile) : List Entry := (stackOf file).filter (!isSupervisor ·)

def supervisorEntries (file : ControlFile) : List Entry := (stackOf file).filter isSupervisor

theorem isSupervisor_iff {e : Entry} :
    isSupervisor e = true ↔ Dict.get e "source" = .str "supervisor" := decide_eq_true_iff

theorem filter_keep {keep : Entry → Bool} (stack : List Entry)
    (h : ∀ e, isSupervisor e = true → keep e = true) :
    (stack.filter keep).filter isSupervisor = stack.filter isSupervisor := by
  rw [List.filter_filter]
  apply List.filter_congr
  intro e _
  cases he : isSupervisor e with
  | false => rfl
  | true => simp [h e he]

/-- A call of another source pushes a freeze that is not the supervisor's, or takes freezes off, none
of them the supervisor's. -/
theorem stackOf_other (mtime : String) (file : ControlFile) {op : ControlOp} (h : OtherSource op) :
    (∃ e, isSupervisor e = false ∧ stackOf (perform mtime op file) = stackOf file ++ [e]) ∨
    ((stackOf (perform mtime op file)).Sublist (stackOf file) ∧
      (stackOf (perform mtime op file)).filter isSupervisor =
        (stackOf file).filter isSupervisor) := by
  cases op with
  | pushFreeze reason source now =>
    cases hc : control file with
    | none =>
      have hsame : perform mtime (.pushFreeze reason source now) file = file :=
        control_updateStack hc
      rw [hsame]
      exact .inr ⟨.refl _, rfl⟩
    | some c =>
      refine .inl ⟨normalizeEntry (freezeEntry reason source now), ?_,
        stackOf_pushFreeze hc reason source now⟩
      rw [Bool.eq_false_iff, ne_eq, isSupervisor_iff]
      exact h
  | popFreeze source =>
    obtain ⟨name, rfl, hname⟩ := h
    have hstack : stackOf (perform mtime (.popFreeze (some name)) file) = _ :=
      stackOf_popFreeze name
    have hother : ∀ e : Entry, decide (Dict.get e "source" = .str name) = true →
        isSupervisor e = false := by
      intro e he
      rw [Bool.eq_false_iff, ne_eq, isSupervisor_iff, of_decide_eq_true he]
      simpa using hname
    rw [hstack]
    refine .inr ⟨popSource_sublist _ _, ?_⟩
    rw [popSource, List.filter_reverse, filter_eraseP hother, ← List.filter_reverse,
      List.reverse_reverse]
  | standDown source =>
    have hstack : stackOf (perform mtime (.standDown source) file) = _ := stackOf_standDown source
    rw [hstack]
    refine .inr ⟨List.filter_sublist, filter_keep _ fun e he => ?_⟩
    rw [isSupervisor_iff.mp he]
    simpa using Ne.symm h
  | override sources =>
    rcases override_cases mtime sources file with hsame | ⟨hlift, hstack⟩
    · rw [hsame]
      exact .inr ⟨.refl _, rfl⟩
    · rw [hstack]
      refine .inr ⟨List.filter_sublist, filter_keep _ fun e he => ?_⟩
      rw [isSupervisor_iff.mp he]
      have hnot : "supervisor" ∉ sources := fun hmem => absurd (hlift _ hmem) (by decide)
      simpa using hnot
  | unfreezeForBoot => exact h.elim
  | unfreeze => exact h.elim
  | readControl => exact .inr ⟨.refl _, rfl⟩

/-- A call of another source leaves the supervisor's freezes on the stack. -/
theorem supervisorEntries_perform (mtime : String) (file : ControlFile) {op : ControlOp}
    (h : OtherSource op) :
    supervisorEntries (perform mtime op file) = supervisorEntries file := by
  rcases stackOf_other mtime file h with ⟨e, hnot, hstack⟩ | ⟨-, hsame⟩
  · rw [supervisorEntries, hstack, List.filter_append, List.filter_singleton, hnot]
    exact List.append_nil _
  · exact hsame

/-- What a run without interference leaves on the stack. -/
structure Own (s : System) : Prop where
  entries : (supervisorEntries s.file).length = failedAttempts s.log
  incidents : ∀ name, (s.supervisor.incidents name).isSome = true → 0 < failedAttempts s.log

theorem isSome_forget {names : List String} {name : String}
    (h : ((sup.forget names).incidents name).isSome = true) :
    (sup.incidents name).isSome = true := by
  unfold Supervisor.forget at h
  by_cases hmem : name ∈ names
  · simp [hmem] at h
  · simpa [hmem] using h

/-- A fault concerns the incident of its own module. -/
theorem incidents_handle_ne {name : String} (hname : name ≠ m.name) :
    (handle config p m result sup file).2.1.incidents name = sup.incidents name := by
  cases hr : recovers config p sup m with
  | true => simp [(handle_recovered hr).2, hname]
  | false =>
    by_cases hlast : config.maxRestartAttempts ≤ (sup.attempt config p m.name).attempts
    · simp [(handle_escalated hr hlast).2, hname]
    · simp [(handle_failed hr hlast).2, hname]

/-- The incidents after a fault: none for the module if it is alive again, and the failed attempt
among the effects if it is not. -/
theorem isSome_handle {name : String}
    (h : ((handle config p m result sup file).2.1.incidents name).isSome = true) :
    (sup.incidents name).isSome = true ∨ recovers config p sup m = false := by
  cases hr : recovers config p sup m with
  | false => exact .inr rfl
  | true =>
    rw [(handle_recovered hr).2] at h
    by_cases hname : name = m.name
    · simp [hname] at h
    · exact .inl (by simpa [hname] using h)

/-- A poll opens incidents for modules of the registry only. -/
theorem incidents_poll {name : String} (hname : ∀ m ∈ p.modules, name ≠ m.name)
    (h : s.supervisor.incidents name = none) :
    (s.poll config p).supervisor.incidents name = none := by
  have hforget : ∀ names, (s.supervisor.forget names).incidents name = none := by
    intro names
    simp [Supervisor.forget, h]
  have hacts := pollOnce_acts config p s.supervisor s.file
  simp only [System.poll]
  generalize pollOnce config p s.supervisor s.file = r at hacts
  cases hacts with
  | quiet names => exact hforget names
  | acts names m c hm hfault hhung hfile hout =>
    rw [incidents_handle_ne (hname m hm)]
    exact hforget names

theorem own_poll (hs : Own s) (p : Poll) : Own (s.poll config p) := by
  have hacts := pollOnce_acts config p s.supervisor s.file
  simp only [System.poll]
  generalize pollOnce config p s.supervisor s.file = r at hacts
  cases hacts with
  | quiet names =>
    have hlog : failedAttempts (s.log ++ names.map .alive) = failedAttempts s.log := by
      rw [failedAttempts_append, failedAttempts_alive, Nat.add_zero]
    exact ⟨hs.entries.trans hlog.symm, fun name h => hlog ▸ hs.incidents name (isSome_forget h)⟩
  | acts names m c hm hfault hhung hfile hout =>
    obtain ⟨e, he, hstack⟩ := stackOf_handle config p m (assess config p.sleeping m)
      (s.supervisor.forget names) hfile
    have hlog : failedAttempts (s.log ++ (names.map .alive ++
        (handle config p m (assess config p.sleeping m) (s.supervisor.forget names) s.file).1)) =
        failedAttempts s.log + if recovers config p (s.supervisor.forget names) m then 0
          else 1 := by
      rw [failedAttempts_append, failedAttempts_append, failedAttempts_alive, Nat.zero_add,
        failedAttempts_handle]
    constructor
    · rw [hlog, supervisorEntries, hstack]
      have hentries := hs.entries
      unfold supervisorEntries at hentries
      split
      · exact hentries
      · simp [he, hentries]
    · intro name hname
      rw [hlog]
      rcases isSome_handle hname with hold | hfailed
      · exact Nat.add_pos_left (hs.incidents name (isSome_forget hold)) _
      · simp [hfailed]

/-- A poll takes no entry of another source off the stack, and adds none. -/
theorem othersEntries_poll (config : SupervisorConfig) (s : System) (p : Poll) :
    othersEntries (s.poll config p).file = othersEntries s.file := by
  have hacts := pollOnce_acts config p s.supervisor s.file
  simp only [System.poll]
  generalize pollOnce config p s.supervisor s.file = r at hacts
  cases hacts with
  | quiet names => rfl
  | acts names m c hm hfault hhung hfile hout =>
    obtain ⟨e, he, hstack⟩ := stackOf_handle config p m (assess config p.sleeping m)
      (s.supervisor.forget names) hfile
    rw [othersEntries, hstack]
    split
    · rfl
    · simp [he, othersEntries]

theorem own_step {move : Move} (h : Guarded Tame (Step config) s move t) (hs : Own s) : Own t := by
  obtain ⟨htame, -, rfl⟩ := h
  cases move with
  | poll p => exact own_poll hs p
  | call mtime op =>
    refine ⟨?_, hs.incidents⟩
    have hsame := supervisorEntries_perform mtime s.file htame
    exact (congrArg List.length hsame).trans hs.entries
  | rewrite file => exact htame.elim

/-- Over every run of polls between the pushes and releases of other sources: a poll leaves their
entries as they are; an open incident has an entry of the supervisor; and the supervisor's entries
are all lifted just where no attempt to restart a module has failed, incidents or not. -/
theorem freezes_lifted_iff {file : ControlFile} (hfile : supervisorEntries file = [])
    {moves : List Move} (h : Run (Guarded Tame (Step config)) (System.initial file) moves s) :
    (∀ p, othersEntries (s.poll config p).file = othersEntries s.file) ∧
    ((∃ name, (s.supervisor.incidents name).isSome = true) → supervisorEntries s.file ≠ []) ∧
    (supervisorEntries s.file = [] ↔ failedAttempts s.log = 0) := by
  have hown : Own s := by
    refine h.invariant own_step ⟨?_, ?_⟩
    · rw [System.initial, hfile]
      rfl
    · intro name hname
      cases hname
  have hempty : supervisorEntries s.file = [] ↔ failedAttempts s.log = 0 := by
    rw [← hown.entries, List.length_eq_zero_iff]
  refine ⟨othersEntries_poll config s, ?_, hempty⟩
  rintro ⟨name, hname⟩ hnone
  exact (hown.incidents name hname).ne' (hempty.mp hnone)

section
/-- A module whose one task has crashed, and the same module after a restart. -/
def crashedAffect : Module := ⟨"affect", [.finished (some "ValueError()")], false, .fin 0, false⟩

def mendedAffect : Module := ⟨"affect", [.running], false, .fin 0, false⟩

def ladder : SupervisorConfig :=
  ⟨true, .fin 60, [], 5, fun n => String.ofList (List.replicate n '0')⟩

/-- A poll of a module whose restart goes through or fails. -/
def affectPoll (found : Module) (rebuilt : Bool) : Poll where
  modules := [found]
  sleeping := false
  mtime := "then"
  now := "now"
  scrub := id
  snapshot := some "good"
  rebuilt := rebuilt
  restored := true
  restarted := if rebuilt then mendedAffect else crashedAffect
  sleepingAfter := false
  finalSnapshot := some "last"

theorem poll_step (config : SupervisorConfig) (p : Poll) (h : s.supervisor.stopped = false) :
    Guarded Tame (Step config) s (.poll p) (s.poll config p) :=
  ⟨trivial, fun _ _ => h, rfl⟩

/-- A restart that goes through at once leaves no freeze. -/
theorem freezes_lifted_iff_mended : supervisorEntries
    ((System.initial .missing).poll ladder (affectPoll crashedAffect true)).file = [] := by
  have hrun :=
    Run.single (poll_step (s := .initial .missing) ladder (affectPoll crashedAffect true) rfl)
  exact (freezes_lifted_iff rfl hrun).2.2.mpr (by decide)

/-- The first restart fails and the second goes through; the module is alive, no incident is open,
and the cycle stays frozen by the supervisor. -/
theorem freeze_outlives_incident : ∃ (s : System) (p : Poll),
    Run (Guarded Tame (Step ladder)) (System.initial .missing)
      [.poll (affectPoll crashedAffect false), .poll (affectPoll crashedAffect true), .poll p] s ∧
    (∀ m ∈ p.modules, (assess ladder p.sleeping m).state = .alive) ∧
    (∀ name, s.supervisor.incidents name = none) ∧ supervisorEntries s.file ≠ [] := by
  refine ⟨_, affectPoll mendedAffect true, .head (poll_step _ _ rfl) (.head (poll_step _ _ rfl)
    (.head (poll_step _ _ rfl) (.refl _))), by decide, ?_, by decide⟩
  intro name
  by_cases hname : name = "affect"
  · subst hname
    rfl
  · have hother : ∀ found rebuilt, found.name = "affect" →
        ∀ m ∈ (affectPoll found rebuilt).modules, name ≠ m.name := by
      rintro found rebuilt hfound m hm
      rw [List.mem_singleton.mp hm, hfound]
      exact hname
    refine incidents_poll (hother _ _ rfl) (incidents_poll (hother _ _ rfl)
      (incidents_poll (hother _ _ rfl) rfl))

end

end Kaine.Supervision
