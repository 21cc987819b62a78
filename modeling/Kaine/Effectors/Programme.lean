import Kaine.Vision.PlaylistClock
import Mathlib.Data.Rat.Floor

/-! The programme under stimulus control: the playlist clock with channels, seeks and an end in
perceived time. What the feeds present is read through an anchor that a seek or a switch of channel
moves. -/
namespace Kaine.Effectors
open Kaine.Vision

inductive StimulusControlError where
  | message (text : String)
deriving DecidableEq, Repr

/-- The end of runs of items that are contiguous from `expected` and none of which is empty. -/
def runsEnd : ℕ → List (ℕ × ℕ) → Option ℕ
  | expected, [] => some expected
  | expected, (first, count) :: runs =>
    if first ≠ expected ∨ count < 1 then none else runsEnd (first + count) runs

/-- A playlist clock whose items are divided into channels: contiguous runs that cover every
item. -/
structure ProgrammeClock extends PlaylistClock where
  segments : List (ℕ × ℕ)
  channel : ℕ := 0
  anchorPerceived : ℚ := 0
  anchorPresented : ℚ := 0
  repositions : ℕ := 0
  covers : runsEnd 0 segments = some durations.length
  channel_lt : channel < segments.length

/-- The total of durations, when all are known. -/
def lengthOf (total : ℚ) : List (Option ℚ) → Option ℚ
  | [] => some total
  | none :: _ => none
  | some d :: ds => lengthOf (total + d) ds

/-- The item that an offset into a channel falls in, and the offset in that item. -/
def walkChannel (position : ℚ) : List (Option ℚ) → ℕ → ℚ → Option (ℕ × ℚ)
  | [], _, _ => none
  | d :: ds, idx, acc =>
    if position < acc + d.getD 0 then some (idx, position - acc)
    else walkChannel position ds (idx + 1) (acc + d.getD 0)

/-- What is presented: how often the channel has wrapped, the item and the offset in it. -/
structure Presented where
  lap : ℤ
  item : ℕ
  offset : ℚ
deriving DecidableEq, Repr

namespace ProgrammeClock

variable {c : ProgrammeClock} {now : ℚ} {k : ℕ}

/-- A clock of unmeasured items; with no channels named, all of them are one. -/
def new (itemCount : ℕ) (segments : Option (List (ℕ × ℕ))) : Except String ProgrammeClock :=
  let segs :=
    match segments with
    | some (s :: ss) => s :: ss
    | _ => [(0, itemCount)]
  if h : runsEnd 0 segs = some itemCount ∧ 0 < segs.length then
    .ok
      { PlaylistClock.new itemCount with
        segments := segs
        covers := by simpa [PlaylistClock.new] using h.1
        channel_lt := h.2 }
  else if (runsEnd 0 segs).isNone then
    .error "programme channels must be contiguous, non-empty runs of items"
  else .error "programme channels must cover every item"

/-- The plain clock's operations leave the durations' number and the channels alone. -/
def withClock (c : ProgrammeClock) (p : PlaylistClock)
    (h : p.durations.length = c.durations.length) : ProgrammeClock :=
  { c with toPlaylistClock := p, covers := by rw [h]; exact c.covers }

def start (c : ProgrammeClock) (now : ℚ) : ProgrammeClock :=
  c.withClock (c.toPlaylistClock.start none now) (by simp)

def pause (c : ProgrammeClock) (holder : String) (now : ℚ) : ProgrammeClock :=
  c.withClock (c.toPlaylistClock.pause holder now) (by simp)

def resume (c : ProgrammeClock) (holder : String) (now : ℚ) : ProgrammeClock :=
  c.withClock (c.toPlaylistClock.resume holder now) (by simp)

def setDuration (c : ProgrammeClock) (idx : ℕ) (seconds : ℚ) : ProgrammeClock :=
  c.withClock (c.toPlaylistClock.setDuration idx seconds) (by simp)

/-- Register every item's duration before playback. -/
def probeDurations (c : ProgrammeClock) (idx : ℕ) : List ℚ → ProgrammeClock
  | [] => c
  | seconds :: rest => (c.setDuration idx seconds).probeDurations (idx + 1) rest

def segment (c : ProgrammeClock) (channel : ℕ) : ℕ × ℕ := c.segments.getD channel (0, 0)

/-- The durations of a channel's items. -/
def channelDurations (c : ProgrammeClock) (channel : ℕ) : List (Option ℚ) :=
  (c.durations.drop (c.segment channel).1).take (c.segment channel).2

def channelLength (c : ProgrammeClock) (channel : ℕ) : Option ℚ :=
  lengthOf 0 (c.channelDurations channel)

def itemStart (c : ProgrammeClock) (channel localIdx : ℕ) : ℚ :=
  (((c.channelDurations channel).take localIdx).map (·.getD 0)).foldl (· + ·) 0

/-- Seconds into the channel, laps included: the anchor's place and the time perceived since. -/
def channelTime (c : ProgrammeClock) (perceived : ℚ) : ℚ :=
  max 0 (c.anchorPresented + (perceived - c.anchorPerceived))

/-- What is presented at a perceived time; nothing where the channel is not measured. -/
def presented (c : ProgrammeClock) (perceived : ℚ) : Option Presented :=
  match c.channelLength c.channel with
  | none => none
  | some length =>
    if length ≤ 0 then none
    else
      let t := c.channelTime perceived
      let lap := ⌊t / length⌋
      let first := (c.segment c.channel).1
      match walkChannel (t - lap * length) (c.channelDurations c.channel) first 0 with
      | some (idx, offset) => some ⟨lap, idx, offset⟩
      | none => some ⟨lap + 1, first, 0⟩

/-- The viewing ends when perceived time reaches the length of channel 0. -/
def endedAt (c : ProgrammeClock) (perceived : ℚ) : Bool :=
  match c.channelLength 0 with
  | some length => decide (length ≤ perceived)
  | none => false

def ended (c : ProgrammeClock) (now : ℚ) : Bool := c.endedAt (c.elapsed now)

def locate (c : ProgrammeClock) (elapsed? : Option ℚ) (now : ℚ) : ℕ × ℚ :=
  let perceived := elapsed?.getD (c.elapsed now)
  if c.endedAt perceived then (c.durations.length, 0)
  else
    match c.presented perceived with
    | some pos => (pos.item, pos.offset)
    | none => c.toPlaylistClock.locate (some perceived) now

def positionEpoch (c : ProgrammeClock) (now : ℚ) : ℕ × ℤ :=
  (c.repositions, match c.presented (c.elapsed now) with | some pos => pos.lap | none => 0)

def anchor (c : ProgrammeClock) (channel localIdx : ℕ) (h : channel < c.segments.length) (now : ℚ) :
    ProgrammeClock :=
  { c with
    channel := channel
    anchorPerceived := c.elapsed now
    anchorPresented := c.itemStart channel localIdx
    repositions := c.repositions + 1
    channel_lt := h }

/-- Move to the start of the item `step` items away, wrapping at both ends. -/
def seek (c : ProgrammeClock) (step : ℤ) (now : ℚ) :
    Except StimulusControlError (ProgrammeClock × ℕ) :=
  match c.presented (c.elapsed now) with
  | none => .error (.message "programme durations are not all known")
  | some pos =>
    let first := (c.segment c.channel).1
    let localIdx := (((pos.item : ℤ) - first + step) % (c.segment c.channel).2).toNat
    .ok (c.anchor c.channel localIdx c.channel_lt now, first + localIdx)

/-- Move to the start of a channel. -/
def switchChannel (c : ProgrammeClock) (channel : ℤ) (now : ℚ) :
    Except StimulusControlError (ProgrammeClock × ℕ) :=
  if h : 0 ≤ channel ∧ channel < c.segments.length then
    match c.channelLength channel.toNat with
    | none => .error (.message "programme durations are not all known")
    | some _ =>
      .ok (c.anchor channel.toNat 0 (by omega) now, (c.segment channel.toNat).1)
  else .error (.message s!"no programme channel {channel}")

end ProgrammeClock

/-- The clock of a programme whose items have all been probed. -/
def measuredProgramme (durations : List ℚ) (segments : Option (List (ℕ × ℕ))) :
    Except String ProgrammeClock :=
  match ProgrammeClock.new durations.length segments with
  | .ok c => .ok (c.probeDurations 0 durations)
  | .error e => .error e

end Kaine.Effectors
