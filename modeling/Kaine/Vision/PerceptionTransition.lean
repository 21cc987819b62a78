import Kaine.Vision.PlaylistClock

/-! The crossfade that opens a viewing (`TransitionController` of
`kaine/modules/perception_transition.py`) and the threads that meet in it. Times are rational
seconds. -/
namespace Kaine.PerceptionTransition

open Kaine.Vision

def transitionHolder : String := "transition"

def tickSeconds : ℚ := 1 / 4

inductive Phase
  | started
  | completed
  | abandoned (reason : String)
deriving DecidableEq

def Phase.isFinal : Phase → Bool
  | .started => false
  | .completed => true
  | .abandoned _ => true

/-- The payload given to `on_event`. -/
structure Event where
  phase : Phase
  transitionSeconds : ℚ
deriving DecidableEq

structure Config where
  transitionSeconds : ℚ
  tickSeconds : ℚ
  positive : 0 < transitionSeconds

/-- The fields of the controller. An armed timer is the delay it was started with. -/
structure Controller where
  videoPresent : Bool
  started : Bool := false
  released : Bool := false
  announced : Bool := false
  perceived : Bool := true
  progress : ℚ := 0
  segmentStart : Option ℚ := none
  timer : Option ℚ := none
  pending : List Phase := []

def others (holders : Finset String) : Finset String := holders.erase transitionHolder

namespace Controller

/-- `progress()`: the seconds of perceived crossfade so far. -/
def progressAt (c : Controller) (now : ℚ) : ℚ :=
  match c.segmentStart with
  | some began => c.progress + max 0 (now - began)
  | none => c.progress

def closeSegment (c : Controller) (now : ℚ) : Controller :=
  { c with progress := c.progressAt now, segmentStart := none }

/-- `_update_locked`, with the holder set already read. A sample that raised keeps the last one. -/
def update (c : Controller) (perceived : Option Bool) (holders : Finset String) (now : ℚ) :
    Controller :=
  let c := { c.closeSegment now with perceived := perceived.getD c.perceived }
  if c.started ∧ ¬c.released ∧ c.perceived ∧ others holders = ∅ then
    { c with
      segmentStart := some now
      announced := true
      pending := if c.announced then c.pending else c.pending ++ [.started] }
  else c

/-- `_finish_locked`. -/
def finish (c : Controller) (phase : Phase) : Controller :=
  { c with released := true, segmentStart := none, timer := none, pending := c.pending ++ [phase] }

/-- `_arm_locked`. -/
def arm (config : Config) (c : Controller) (now : ℚ) : Controller :=
  if c.released then c
  else
    { c with
      timer := some (match c.segmentStart with
        | some _ =>
          min config.tickSeconds (max (config.transitionSeconds - c.progressAt now) (1 / 1000))
        | none => config.tickSeconds) }

end Controller

/-- The two methods that leave the lock to sample `perceiving`. -/
inductive Sampling
  | start
  | poll
deriving DecidableEq

/-- What a thread has left to do. Each action is one section under a lock, one sample or one call of
`on_event`. -/
inductive Action
  | sample (method : Sampling)
  | apply (method : Sampling) (perceived : Option Bool)
  | release
  | deliver (holders : Finset String)
  | flush
  | emit (phase : Phase)
  | rearm
deriving DecidableEq

def Action.emits? : Action → Option Phase
  | .emit phase => some phase
  | _ => none

/-- A thread enters the controller, the timer's thread among them, or, for another holder, the
clock. -/
inductive Call
  | start (surface : String)
  | poll
  | timer
  | abort (reason : String)
  | setVideoPresent (present : Bool)
  | pause (holder : String) (other : holder ≠ transitionHolder)
  | resume (holder : String) (other : holder ≠ transitionHolder)

/-- The clock, the controller, the threads and what `on_event` has received. The last fields are
read by no code: the true perceived time, the last sample that was taken, the holder set last taken
in and the calls of `resume(TRANSITION_HOLDER)`. -/
structure System where
  clock : PlaylistClock
  controller : Controller
  now : ℚ
  threads : List (List Action) := []
  emitted : List Event := []
  perceivedTime : ℚ := 0
  lastSample : Bool := true
  takenIn : Finset String := ∅
  releases : ℕ := 0

namespace System

/-- The controller is built on a clock in any state and pauses it. -/
def init (clock : PlaylistClock) (videoPresent : Bool) (now : ℚ) : System :=
  { clock := clock.pause transitionHolder now
    controller := { videoPresent := videoPresent }
    now := now }

/-- `_update_locked` on a sample and on the set that was delivered, or on the clock's own. -/
def takeIn (s : System) (perceived : Option Bool) (holders : Finset String) : System :=
  { s with controller := s.controller.update perceived holders s.now, takenIn := holders }

def pauseClock (s : System) (holder : String) : System × List Action :=
  if holder ∈ s.clock.holders then (s, [])
  else
    let clock := s.clock.pause holder s.now
    ({ s with clock := clock }, [.deliver clock.holders])

def resumeClock (s : System) (holder : String) : System × List Action :=
  if holder ∈ s.clock.holders then
    let clock := s.clock.resume holder s.now
    ({ s with clock := clock }, [.deliver clock.holders])
  else (s, [])

/-- The first section of `poll`. -/
def enterPoll (s : System) : List Action :=
  if s.controller.released then [] else if s.controller.started then [.sample .poll] else []

/-- A call's first section under a lock, and what its thread then has left. -/
def enter (s : System) : Call → System × List Action
  | .start surface =>
    if s.controller.started ∨ s.controller.released then (s, [])
    else if surface ≠ "video" ∧ s.controller.videoPresent then (s, [])
    else (s, [.sample .start])
  | .poll => (s, s.enterPoll)
  | .timer => (s, s.enterPoll ++ [.rearm])
  | .abort reason =>
    if s.controller.released then (s, [])
    else
      ({ s with controller := (s.controller.closeSegment s.now).finish (.abandoned reason) },
        [.release, .flush])
  | .setVideoPresent present => ({ s with controller.videoPresent := present }, [])
  | .pause holder _ => s.pauseClock holder
  | .resume holder _ => s.resumeClock holder

/-- The second section of `start`. -/
def applyStart (config : Config) (s : System) (perceived : Option Bool) : System × List Action :=
  if s.controller.started ∨ s.controller.released then (s, [])
  else
    let s := { s with controller.started := true, clock := s.clock.start none s.now }
    let s := s.takeIn perceived s.clock.holders
    ({ s with controller := s.controller.arm config s.now }, [.flush])

/-- The second section of `poll`. -/
def applyPoll (config : Config) (s : System) (perceived : Option Bool) : System × List Action :=
  if s.controller.released then (s, [])
  else
    let s := s.takeIn perceived s.clock.holders
    if config.transitionSeconds ≤ s.controller.progress then
      ({ s with controller := s.controller.finish .completed }, [.release, .flush])
    else (s, [.flush])

/-- `_on_holders`. -/
def onHolders (s : System) (holders : Finset String) : System × List Action :=
  if ¬s.controller.started ∨ s.controller.released then (s, [])
    else (s.takeIn none holders, [.flush])

/-- One action of a thread, and what it puts before the rest of that thread. `perceiving` answers a
sample. -/
def act (config : Config) (s : System) (perceiving : Option Bool) : Action → System × List Action
  | .sample method => ({ s with lastSample := perceiving.getD s.lastSample },
    [.apply method perceiving])
  | .apply .start perceived => s.applyStart config perceived
  | .apply .poll perceived => s.applyPoll config perceived
  | .release => { s with releases := s.releases + 1 }.resumeClock transitionHolder
  | .deliver holders => s.onHolders holders
  | .flush => ({ s with controller.pending := [] }, s.controller.pending.map .emit)
  | .emit phase => ({ s with emitted := s.emitted ++ [⟨phase, config.transitionSeconds⟩] }, [])
  | .rearm => ({ s with controller := s.controller.arm config s.now }, [])

/-- The crossfade is under way and perceived: nobody else holds the clock and the last sample was
true. -/
def IsPerceived (s : System) : Prop :=
  s.controller.started ∧ ¬s.controller.released ∧ others s.clock.holders = ∅ ∧ s.lastSample

instance instDecidableIsPerceived (s : System) : Decidable s.IsPerceived :=
  inferInstanceAs (Decidable (_ ∧ _ ∧ _ ∧ _))

end System

/-- Time passes, a thread enters, or the thread at an index takes its next action. -/
inductive Step
  | wait (seconds : ℚ) (nonneg : 0 ≤ seconds)
  | call (entry : Call)
  | run (thread : ℕ) (perceiving : Option Bool)

namespace System

def step (config : Config) (s : System) : Step → System
  | .wait seconds _ =>
    { s with
      now := s.now + seconds
      perceivedTime := if s.IsPerceived then s.perceivedTime + seconds else s.perceivedTime }
  | .call entry => { (s.enter entry).1 with threads := s.threads ++ [(s.enter entry).2] }
  | .run thread perceiving =>
    match s.threads[thread]? with
    | some (action :: rest) =>
      { (s.act config perceiving action).1 with
        threads := s.threads.set thread ((s.act config perceiving action).2 ++ rest) }
    | _ => s

def after (config : Config) (s : System) (run : List Step) : System := run.foldl (step config) s

/-- The events that were emitted or taken to be emitted, those that a thread has yet to emit given
by its actions. -/
def sent (s : System) (todo : List Action) : List Phase :=
  s.emitted.map Event.phase ++ todo.filterMap Action.emits?

/-- The events of the boot, in whichever thread or queue they are. -/
def phases (s : System) : List Phase := s.sent s.threads.flatten ++ s.controller.pending

end System

end Kaine.PerceptionTransition
