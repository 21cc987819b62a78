import Kaine.Cycle.ControlState

/-! The supervisor of the cycle's modules (`kaine/cycle/supervisor.py`): liveness, the restart
ladder of one poll, and the runs of its polls between the calls of other freeze sources. -/
namespace Kaine.Supervision
open Py Control

structure SupervisorConfig where
  enabled : Bool
  heartbeatTimeoutS : PyFloat
  perModuleTimeoutS : List (String × PyFloat)
  maxRestartAttempts : ℤ
  /-- The identifiers that `uuid4` hands out, in their order. -/
  uuid : ℕ → String

inductive Liveness where
  | alive
  | dead
  | hung
  deriving DecidableEq

def Liveness.text : Liveness → String
  | .alive => "alive"
  | .dead => "dead"
  | .hung => "hung"

/-- A task of a module, as `done`, `cancelled` and `exception` find it. -/
inductive TaskState where
  | running
  | cancelled
  | finished (exceptionRepr : Option String)
  /-- Asking for its exception raises. -/
  | unreadable
  deriving DecidableEq

structure Module where
  name : String
  tasks : List TaskState
  isStopping : Bool
  heartbeatAge : PyFloat
  holdsExternalResources : Bool
  deriving DecidableEq

structure AssessResult where
  state : Liveness
  exceptionRepr : Option String
  deriving DecidableEq

def timeoutFor (config : SupervisorConfig) (m : Module) : PyFloat :=
  (config.perModuleTimeoutS.lookup m.name).getD config.heartbeatTimeoutS

/-- A task that finished with an exception, or at all while the module is not stopping. -/
def crash (isStopping : Bool) : TaskState → Option (Option String)
  | .finished (some repr) => some (some repr)
  | .finished none => if isStopping then none else some none
  | .running | .cancelled | .unreadable => none

def assess (config : SupervisorConfig) (sleeping : Bool) (m : Module) : AssessResult :=
  match m.tasks.findSome? (crash m.isStopping) with
  | some repr => ⟨.dead, repr⟩
  | none =>
    if !sleeping && (timeoutFor config m).lt m.heartbeatAge && m.tasks.contains .running then
      ⟨.hung, none⟩
    else ⟨.alive, none⟩

structure Incident where
  attempts : ℕ
  lastGood : Option String
  incidentId : String
  deriving DecidableEq

inductive RestartPath where
  | light
  | heavy
  deriving DecidableEq

structure RestartResult where
  ok : Bool
  path : RestartPath
  lastGoodRestored : Bool
  deriving DecidableEq

/-- `_restart_module`: whether the restart or the rebuild went through, and whether a last good
snapshot could be restored after it. -/
def restartModule (m : Module) (lastGood : Option String) (rebuilt restored : Bool) :
    RestartResult :=
  if m.holdsExternalResources then
    if rebuilt then
      if lastGood.any (· ≠ "") then ⟨restored, .heavy, restored⟩ else ⟨true, .heavy, false⟩
    else ⟨false, .heavy, false⟩
  else ⟨rebuilt, .light, false⟩

/-- What one incident record tells besides its incident and its module. -/
inductive Detail where
  | detect (faultClass : Liveness) (exceptionRepr : Option String)
  | freeze (reason : String) (faultType : Liveness)
  | snapshot (label : String) (snapshotId : Option String)
  | restart (attempt : ℕ) (result : RestartResult) (recovered : Bool) (postAssess : Liveness)
  | escalate (attempts : ℕ) (finalSnapshotId : Option String)
  deriving DecidableEq

structure Record where
  incidentId : String
  module : String
  detail : Detail
  deriving DecidableEq

structure EscalationRecord where
  module : String
  attempts : ℕ
  snapshotId : Option String
  deriving DecidableEq

/-- What a poll does, in its order. -/
inductive Effect where
  /-- The module is found alive, and an incident of it forgotten. -/
  | alive (name : String)
  | record (r : Record)
  | restartModule (name : String)
  | shutdown (name : String)
  | escalation (e : EscalationRecord)
  | halt
  deriving DecidableEq

/-- The sleep module first, the rest as given. -/
def shutdownOrder (modules : List Module) : List Module :=
  modules.filter (·.name = "sleep") ++ modules.filter (·.name ≠ "sleep")

/-- What a poll finds: the registry in its order, and how each call that it may make ends. -/
structure Poll where
  modules : List Module
  sleeping : Bool
  mtime : String
  now : String
  scrub : String → String
  /-- The ID of the snapshot before the first attempt, none where it fails. -/
  snapshot : Option String
  rebuilt : Bool
  restored : Bool
  /-- The module in the registry after the restart. -/
  restarted : Module
  sleepingAfter : Bool
  finalSnapshot : Option String

structure Supervisor where
  incidents : String → Option Incident
  /-- How many identifiers have been handed out. -/
  minted : ℕ
  /-- Set once the supervisor has escalated; its loop polls no more. -/
  stopped : Bool

def Supervisor.initial : Supervisor := ⟨fun _ => none, 0, false⟩

def isDevelopment (entry : Entry) : Bool := Dict.get entry "source" = .str "development"

def isSupervisor (entry : Entry) : Bool := Dict.get entry "source" = .str "supervisor"

def developmentOnly (control : CycleControl) : Bool :=
  control.frozen && !control.stack.isEmpty && control.stack.all isDevelopment

def underDevelopment (control : CycleControl) : Bool :=
  control.frozen && control.stack.any isDevelopment

/-- A freeze that the supervisor leaves to its source. -/
def staysOut (control : CycleControl) : Bool :=
  control.frozen && control.source ≠ .str "supervisor" && !developmentOnly control

section
variable (config : SupervisorConfig) (p : Poll)

/-- The incident of a module, a new one under a fresh identifier where none is open. -/
def Supervisor.incident (s : Supervisor) (name : String) : Incident :=
  (s.incidents name).getD ⟨0, none, config.uuid s.minted⟩

def Supervisor.mint (s : Supervisor) (name : String) : ℕ :=
  if (s.incidents name).isSome then s.minted else s.minted + 1

/-- The incident with the attempt that starts now, after a snapshot before the first one. -/
def Supervisor.attempt (s : Supervisor) (name : String) : Incident :=
  let incident := s.incident config name
  { incident with
    attempts := incident.attempts + 1
    lastGood := if incident.attempts = 0 then p.snapshot else incident.lastGood }

/-- What is put on record before the attempt. -/
def detected (s : Supervisor) (m : Module) (result : AssessResult) : List Effect :=
  let incident := s.incident config m.name
  let record (detail : Detail) : Effect := .record ⟨incident.incidentId, m.name, detail⟩
  [record (.detect result.state (result.exceptionRepr.map p.scrub)),
   record (.freeze s!"supervisor: {m.name} {result.state.text}" result.state)] ++
  if incident.attempts = 0 then
    [record (.snapshot s!"supervisor-pre-restart:{m.name}" p.snapshot)]
  else []

def escalate (incident : Incident) (name : String) : List Effect :=
  let record (detail : Detail) : Effect := .record ⟨incident.incidentId, name, detail⟩
  let snapshotId := if p.finalSnapshot.any (· ≠ "") then p.finalSnapshot else incident.lastGood
  [record (.snapshot s!"supervisor-escalation:{name}" p.finalSnapshot)] ++
  (shutdownOrder p.modules).map (fun m => .shutdown m.name) ++
  [.escalation ⟨name, incident.attempts, snapshotId⟩,
   record (.escalate incident.attempts snapshotId), .halt]

/-- One fault: freeze, snapshot, restart, and what follows from how it went. -/
def handle (m : Module) (result : AssessResult) (s : Supervisor) (file : ControlFile) :
    List Effect × Supervisor × ControlFile :=
  let incident := s.attempt config p m.name
  let minted := s.mint m.name
  let file := (pushFreeze p.mtime (.str s!"supervisor: {m.name} {result.state.text}") "supervisor"
    p.now file).2
  let restart := restartModule m incident.lastGood p.rebuilt p.restored
  let post := (assess config p.sleepingAfter p.restarted).state
  let recovered := restart.ok && post = .alive
  let effects := detected config p s m result ++ [.restartModule m.name,
    .record ⟨incident.incidentId, m.name, .restart incident.attempts restart recovered post⟩]
  let opened := Function.update s.incidents m.name (some incident)
  if recovered then
    let file :=
      if (readControl p.mtime file).stack.any isSupervisor then
        (popFreeze p.mtime (some "supervisor") file).2
      else file
    (effects, { s with incidents := Function.update s.incidents m.name none, minted }, file)
  else if config.maxRestartAttempts ≤ incident.attempts then
    (effects ++ escalate p incident m.name, ⟨opened, minted, true⟩, file)
  else (effects, { s with incidents := opened, minted }, file)

/-- The modules one after the other, as far as the first fault that is acted on. -/
def pollModules (under : Bool) (file : ControlFile) :
    List Module → Supervisor → List Effect × Supervisor × ControlFile
  | [], s => ([], s, file)
  | m :: rest, s =>
    let result := assess config p.sleeping m
    if result.state = .alive then
      let (effects, after) := pollModules under file rest
        { s with incidents := Function.update s.incidents m.name none }
      (.alive m.name :: effects, after)
    else if under && result.state = .hung then pollModules under file rest s
    else handle config p m result s file

def pollOnce (s : Supervisor) (file : ControlFile) : List Effect × Supervisor × ControlFile :=
  let control := readControl p.mtime file
  if !config.enabled || staysOut control then ([], s, file)
  else pollModules config p (underDevelopment control) file p.modules s

end

/-- The supervisor beside its control file, with all that its polls have done. -/
structure System where
  supervisor : Supervisor
  file : ControlFile
  log : List Effect

inductive Move where
  | poll (p : Poll)
  /-- A call of another freeze source. -/
  | call (mtime : String) (op : ControlOp)
  /-- Anything else that can happen to the control file. -/
  | rewrite (file : ControlFile)

namespace System

def initial (file : ControlFile) : System := ⟨.initial, file, []⟩

def effects (config : SupervisorConfig) (s : System) (p : Poll) : List Effect :=
  (pollOnce config p s.supervisor s.file).1

def poll (config : SupervisorConfig) (s : System) (p : Poll) : System :=
  let polled := pollOnce config p s.supervisor s.file
  ⟨polled.2.1, polled.2.2, s.log ++ polled.1⟩

def step (config : SupervisorConfig) (s : System) : Move → System
  | .poll p => s.poll config p
  | .call mtime op => { s with file := perform mtime op s.file }
  | .rewrite file => { s with file }

end System

/-- The loop polls until the supervisor has escalated. -/
def Step (config : SupervisorConfig) (s : System) (move : Move) (t : System) : Prop :=
  (∀ p, move = .poll p → s.supervisor.stopped = false) ∧ t = s.step config move

/-- Freezes of other sources, and the releases of what they froze. -/
def OtherSource : ControlOp → Prop
  | .pushFreeze _ source _ => mapFreezeSource (.str source) ≠ .str "supervisor"
  | .popFreeze source => ∃ name, source = some name ∧ name ≠ "supervisor"
  | .standDown source => source ≠ "supervisor"
  | .override _ | .readControl => True
  | .unfreezeForBoot | .unfreeze => False

/-- Between polls, the other sources push and release their own freezes. -/
def Tame (_ : System) : Move → Prop
  | .poll _ => True
  | .call _ op => OtherSource op
  | .rewrite _ => False

end Kaine.Supervision
