import Kaine.Cycle.SupervisorSafety

/-! The restart ladder over whole runs: the fault windows that the records of the supervisor tell
of, the attempts in each, and the freezes under which it works. -/
namespace Kaine.Supervision
open Py Control Transition

/-! ### Fault windows -/

/-- The windows opened so far, counted, and the one that is open for each module. -/
structure Windows where
  opened : ℕ
  current : String → Option ℕ

namespace Windows

def initial : Windows := ⟨0, fun _ => none⟩

/-- A fault opens a window for its module unless one is open. -/
def detect (w : Windows) (name : String) : Windows :=
  if (w.current name).isSome then w
  else ⟨w.opened + 1, Function.update w.current name (some w.opened)⟩

def close (w : Windows) (name : String) : Windows := ⟨w.opened, Function.update w.current name none⟩

/-- A window lasts from a detection until the module is alive again or is escalated. -/
def step (w : Windows) : Effect → Windows
  | .alive name => w.close name
  | .record r =>
    match r.detail with
    | .detect _ _ => w.detect r.module
    | .restart _ _ recovered _ => if recovered then w.close r.module else w
    | .escalate _ _ => w.close r.module
    | .freeze _ _ | .snapshot _ _ => w
  | .restartModule _ | .shutdown _ | .escalation _ | .halt => w

/-- A record with the window of its module that it falls in. -/
def stamp (w : Windows) : Effect → List (Option ℕ × Record)
  | .record r =>
    match r.detail with
    | .detect _ _ => [((w.detect r.module).current r.module, r)]
    | _ => [(w.current r.module, r)]
  | _ => []

def after (w : Windows) (log : List Effect) : Windows := log.foldl step w

def stamped (w : Windows) : List Effect → List (Option ℕ × Record)
  | [] => []
  | e :: log => w.stamp e ++ stamped (w.step e) log

theorem after_append (w : Windows) (xs ys : List Effect) :
    w.after (xs ++ ys) = (w.after xs).after ys := List.foldl_append

end Windows

def Record.isRestart (r : Record) : Bool :=
  match r.detail with
  | .restart _ _ _ _ => true
  | _ => false

/-- How many restarts of its module a window has seen. -/
def attemptsIn (records : List (Option ℕ × Record)) (k : ℕ) : ℕ :=
  records.countP fun x => x.1 = some k && x.2.isRestart

variable {config : SupervisorConfig} {p : Poll} {s t : System} {m : Module}
  {result : AssessResult} {sup : Supervisor} {file : ControlFile} {w : Windows}

/-- The window that a fault of a module falls in. -/
def Windows.faultWindow (w : Windows) (name : String) : ℕ := (w.current name).getD w.opened

/-- The window that a fault opens or falls in, after what is done about it. -/
def Windows.handled (config : SupervisorConfig) (p : Poll) (sup : Supervisor) (m : Module)
    (w : Windows) : Windows :=
  if recovers config p sup m ∨ config.maxRestartAttempts ≤ (sup.attempt config p m.name).attempts
  then (w.detect m.name).close m.name else w.detect m.name

/-- The last attempt that a window allows. -/
def lastAttempt (config : SupervisorConfig) : ℕ := max 1 config.maxRestartAttempts.toNat

/-- What the log says of an open incident. -/
structure Tracked (config : SupervisorConfig) (w : Windows) (log : List (Option ℕ × Record))
    (name : String) (incident : Incident) (k : ℕ) : Prop where
  current : w.current name = some k
  id : incident.incidentId = config.uuid k
  attempts : incident.attempts = attemptsIn log k
  bound : incident.attempts < lastAttempt config

/-- How the incidents of a supervisor that still polls agree with its log. -/
structure Polling (config : SupervisorConfig) (sup : Supervisor) (w : Windows)
    (log : List (Option ℕ × Record)) : Prop where
  opened : ∀ name k, w.current name = some k → k < w.opened
  apart : ∀ name other k, w.current name = some k → w.current other = some k → name = other
  closed : ∀ name, sup.incidents name = none → w.current name = none
  tracked : ∀ name incident, sup.incidents name = some incident →
    ∃ k, Tracked config w log name incident k

variable {log : List (Option ℕ × Record)}

theorem Polling.forget (h : Polling config sup w log) (names : List String) :
    Polling config (sup.forget names)
      ⟨w.opened, fun name => if name ∈ names then none else w.current name⟩ log := by
  constructor
  · intro name k hk
    by_cases hname : name ∈ names
    · simp [hname] at hk
    · exact h.opened name k (by simpa [hname] using hk)
  · intro name other k hk hk'
    by_cases hname : name ∈ names
    · simp [hname] at hk
    · by_cases hother : other ∈ names
      · simp [hother] at hk'
      · exact h.apart name other k (by simpa [hname] using hk) (by simpa [hother] using hk')
  · intro name hnone
    by_cases hname : name ∈ names
    · simp [hname]
    · have hold : sup.incidents name = none := by simpa [Supervisor.forget, hname] using hnone
      simpa [hname] using h.closed name hold
  · intro name incident hsome
    by_cases hname : name ∈ names
    · simp [Supervisor.forget, hname] at hsome
    · have hold : sup.incidents name = some incident := by
        simpa [Supervisor.forget, hname] using hsome
      obtain ⟨k, hk⟩ := h.tracked name incident hold
      exact ⟨k, by simpa [hname] using hk.current, hk.id, hk.attempts, hk.bound⟩

/-- What is known of the incident that a fault opens or finds. -/
structure Faulted (config : SupervisorConfig) (sup : Supervisor) (w : Windows)
    (log : List (Option ℕ × Record)) (name : String) : Prop where
  current : (w.detect name).current name = some (w.faultWindow name)
  minted : (w.detect name).opened = sup.mint name
  opened : w.faultWindow name < (w.detect name).opened
  id : (sup.incident config name).incidentId = config.uuid (w.faultWindow name)
  attempts : (sup.incident config name).attempts = attemptsIn log (w.faultWindow name)
  bound : (sup.incident config name).attempts < lastAttempt config
  others : ∀ other, other ≠ name → w.current other ≠ some (w.faultWindow name)

/-- A fault changes what is known of its own module only. -/
theorem Polling.frame {sup' : Supervisor} {w' : Windows} {log' : List (Option ℕ × Record)}
    {name : String} (hp : Polling config sup w log) (h : Faulted config sup w log name)
    (hcurrent : ∀ other, other ≠ name → w'.current other = w.current other)
    (hopened : w.opened ≤ w'.opened)
    (hincidents : ∀ other, other ≠ name → sup'.incidents other = sup.incidents other)
    (hcount : ∀ k, k ≠ w.faultWindow name → attemptsIn log' k = attemptsIn log k)
    (hown : (sup'.incidents name = none ∧ w'.current name = none) ∨
      ∃ incident, sup'.incidents name = some incident ∧ w.faultWindow name < w'.opened ∧
        Tracked config w' log' name incident (w.faultWindow name)) :
    Polling config sup' w' log' := by
  -- the window of the module, if it has one, is the window of the fault
  have hwindow : ∀ k, w'.current name = some k → k = w.faultWindow name ∧ k < w'.opened := by
    intro k hk
    rcases hown with ⟨-, hnone⟩ | ⟨_, -, hlt, htracked⟩
    · exact absurd (hk.symm.trans hnone) (by simp)
    · obtain rfl := Option.some.inj (hk.symm.trans htracked.current)
      exact ⟨rfl, hlt⟩
  constructor
  · intro other k hk
    by_cases hother : other = name
    · exact (hwindow k (hother ▸ hk)).2
    · rw [hcurrent other hother] at hk
      exact (hp.opened other k hk).trans_le hopened
  · intro one other k hone hother
    by_cases h1 : one = name
    · by_cases h2 : other = name
      · exact h1.trans h2.symm
      · rw [hcurrent other h2, (hwindow k (h1 ▸ hone)).1] at hother
        exact absurd hother (h.others other h2)
    · by_cases h2 : other = name
      · rw [hcurrent one h1, (hwindow k (h2 ▸ hother)).1] at hone
        exact absurd hone (h.others one h1)
      · rw [hcurrent one h1] at hone
        rw [hcurrent other h2] at hother
        exact hp.apart one other k hone hother
  · intro other hnone
    by_cases hother : other = name
    · subst hother
      rcases hown with ⟨-, hclosed⟩ | ⟨_, hsome, -⟩
      · exact hclosed
      · exact absurd (hnone.symm.trans hsome) (by simp)
    · rw [hcurrent other hother]
      exact hp.closed other (hincidents other hother ▸ hnone)
  · intro other incident hsome
    by_cases hother : other = name
    · subst hother
      rcases hown with ⟨hnone, -⟩ | ⟨incident', hsome', -, htracked⟩
      · exact absurd (hsome.symm.trans hnone) (by simp)
      · obtain rfl := Option.some.inj (hsome.symm.trans hsome')
        exact ⟨_, htracked⟩
    · rw [hincidents other hother] at hsome
      obtain ⟨k, hk⟩ := hp.tracked other incident hsome
      have hne : k ≠ w.faultWindow name := fun he => h.others other hother (he ▸ hk.current)
      exact ⟨k, (hcurrent other hother).trans hk.current, hk.id,
        hk.attempts.trans (hcount k hne).symm, hk.bound⟩

section
end

end Kaine.Supervision
