import Mathlib.Tactic.Linarith
import Mathlib.Tactic.Ring

/-! The times that the video decoder of a playlist item gives to its frames, in rational seconds.
How the times of the frames go on over outliers and resets of their timestamps, and over frames that
have none. -/
namespace Kaine.Vision

def ptsDiscontinuity : ℚ := 1
def fallbackFrameInterval : ℚ := 1 / 25

/-- A frame's presentation timestamp, where it has one. -/
abbrev Pts := Option ℤ

/-- An opened stream: `rates` are those that are asked for the frame interval, none where one is
missing or no number. -/
structure VideoStream where
  timeBase : ℚ
  origin : ℚ
  rates : List (Option ℚ)

namespace VideoStream

def frameIntervalOf : List (Option ℚ) → ℚ
  | [] => fallbackFrameInterval
  | rate :: rates => if 0 < rate.getD 0 then 1 / rate.getD 0 else frameIntervalOf rates

def frameInterval (v : VideoStream) : ℚ := frameIntervalOf v.rates

/-- The time of a timestamp on the item's timeline. -/
def stamp (v : VideoStream) (pts : ℤ) : ℚ := pts * v.timeBase - v.origin

end VideoStream

/-- Where decoding has come to: `suspect` is a lone frame far behind, until the next one says what
it was. -/
structure Timeline where
  baseT : ℚ
  lastT : Option ℚ := none
  shift : ℚ := 0
  suspect : Option ℚ := none
  discontinuities : ℕ := 0

/-- A packet of the stream. -/
inductive Packet
  | decoded (frames : List Pts)
  | undecodable

structure VideoDecoder where
  stream : VideoStream
  packets : List Packet
  ready : List Pts := []
  skippedPackets : ℕ := 0
  timeline : Timeline

namespace VideoDecoder

def startDecoding (d : VideoDecoder) (packets : List Packet) (baseT : ℚ) : VideoDecoder :=
  { d with
    packets := packets
    ready := []
    timeline := { baseT := max 0 baseT, discontinuities := d.timeline.discontinuities } }

def opened (v : VideoStream) (packets : List Packet) : VideoDecoder :=
  startDecoding { stream := v, packets := [], timeline := { baseT := 0 } } packets 0

/-- Go on from `seconds`, with what the container demuxes from there. -/
def seek (d : VideoDecoder) (packets : List Packet) (seconds : ℚ) : VideoDecoder :=
  d.startDecoding packets seconds

/-- The first frame of the packets, what is left of its packet and of the others, and the packets
skipped. -/
def pull : ℕ → List Packet → Option Pts × List Pts × List Packet × ℕ
  | skipped, [] => (none, [], [], skipped)
  | skipped, .undecodable :: packets => pull (skipped + 1) packets
  | skipped, .decoded [] :: packets => pull skipped packets
  | skipped, .decoded (frame :: ready) :: packets => (some frame, ready, packets, skipped)

def nextFrame (d : VideoDecoder) : Option Pts × VideoDecoder :=
  match d.ready with
  | frame :: ready => (some frame, { d with ready := ready })
  | [] =>
    let r := pull d.skippedPackets d.packets
    (r.1, { d with ready := r.2.1, packets := r.2.2.1, skippedPackets := r.2.2.2 })

end VideoDecoder

namespace Timeline

def raw (v : VideoStream) (s : Timeline) (pts : ℤ) : ℚ := v.stamp pts + s.shift

/-- A frame's time, and the timeline after it. -/
def place (v : VideoStream) (s : Timeline) : Pts → ℚ × Timeline
  | none =>
    let t := match s.lastT with
      | none => s.baseT
      | some last => last + v.frameInterval
    (t, { s with lastT := some t })
  | some pts =>
    let raw := s.raw v pts
    match s.lastT with
    | none => (raw, { s with lastT := some raw, suspect := none })
    | some last =>
      if last ≤ raw then (raw, { s with lastT := some raw, suspect := none })
      else if last - raw ≤ ptsDiscontinuity then (last,
        { s with lastT := some last, suspect := none })
      else if s.suspect.any (· ≤ raw) then
        let resumed := last + v.frameInterval
        (resumed, { s with
          lastT := some resumed
          shift := s.shift + (resumed - raw)
          suspect := none
          discontinuities := s.discontinuities + 1 })
      else
        (last + v.frameInterval,
          { s with lastT := some (last + v.frameInterval), suspect := some raw })

end Timeline

namespace VideoDecoder

def next (d : VideoDecoder) : Option (ℚ × Pts) × VideoDecoder :=
  match d.nextFrame with
  | (none, d') => (none, d')
  | (some frame, d') =>
    let r := d'.timeline.place d'.stream frame
    (some (r.1, frame), { d' with timeline := r.2 })

end VideoDecoder

theorem ptsDiscontinuity_pos : 0 < ptsDiscontinuity := by
  rw [ptsDiscontinuity]
  norm_num

namespace VideoStream

/-- The times of frames that follow one at `t`, by themselves: a frame without a timestamp is one
interval after the frame before it. -/
def ownTimes (v : VideoStream) : ℚ → List Pts → List ℚ
  | _, [] => []
  | t, frame :: frames =>
    let own := (frame.map v.stamp).getD (t + v.frameInterval)
    own :: ownTimes v own frames

/-- None of the frames that follow one at `t` is by itself behind one before it. -/
def InOrder (v : VideoStream) (t : ℚ) (frames : List Pts) : Prop :=
  (t :: v.ownTimes t frames).Pairwise (· ≤ ·)

/-- The first timestamp is not before `last`, and frames in order follow on its frame. -/
def FollowsOn (v : VideoStream) (shift last : ℚ) : List Pts → Prop
  | [] => True
  | none :: frames => FollowsOn v shift last frames
  | some pts :: frames => last ≤ v.stamp pts + shift ∧ v.InOrder (v.stamp pts) frames

/-- The first timestamp is no more than a jitter behind `t` and one interval for each frame before
it that has none. -/
def NearBy (v : VideoStream) (shift t : ℚ) : List Pts → Prop
  | [] => True
  | none :: frames => NearBy v shift (t + v.frameInterval) frames
  | some pts :: _ => t - (v.stamp pts + shift) ≤ ptsDiscontinuity

theorem frameInterval_pos (v : VideoStream) : 0 < v.frameInterval := by
  unfold frameInterval
  induction v.rates with
  | nil =>
    rw [frameIntervalOf, fallbackFrameInterval]
    norm_num
  | cons rate rates ih =>
    rw [frameIntervalOf]
    split_ifs with h
    · exact one_div_pos.mpr h
    · exact ih

variable {v : VideoStream} {t : ℚ} {frame : Pts} {frames : List Pts}

theorem InOrder.cons (h : v.InOrder t (frame :: frames)) :
    t ≤ (frame.map v.stamp).getD (t + v.frameInterval) ∧
      v.InOrder ((frame.map v.stamp).getD (t + v.frameInterval)) frames := by
  obtain ⟨hall, htail⟩ := List.pairwise_cons.mp h
  exact ⟨hall _ List.mem_cons_self, htail⟩

end VideoStream

namespace Timeline

variable {v : VideoStream} {s : Timeline} {pts : ℤ} {t last : ℚ} {frame : Pts} {frames : List Pts}

theorem place_untimed (hlast : s.lastT = some last) :
    s.place v none = (last + v.frameInterval,
      { s with lastT := some (last + v.frameInterval) }) := by
  unfold place
  rw [hlast]

/-- A frame in order, or the first, keeps its own time. -/
theorem place_forward (h : ∀ last ∈ s.lastT, last ≤ s.raw v pts) :
    s.place v (some pts) =
      (s.raw v pts, { s with lastT := some (s.raw v pts), suspect := none }) := by
  unfold place
  cases hlast : s.lastT with
  | none => rfl
  | some last =>
    dsimp only
    rw [if_pos (h last hlast)]

theorem place_held (hlast : s.lastT = some last) (hback : ¬ last ≤ s.raw v pts)
    (h : last - s.raw v pts ≤ ptsDiscontinuity) :
    s.place v (some pts) = (last, { s with lastT := some last, suspect := none }) := by
  unfold place
  rw [hlast]
  dsimp only
  rw [if_neg hback, if_pos h]

/-- A frame that far behind is in the rules of a backward jump. -/
theorem not_le_of_behind (h : ptsDiscontinuity < last - s.raw v pts) : ¬ last ≤ s.raw v pts := by
  have hpos := ptsDiscontinuity_pos
  intro hle
  linarith

theorem place_reset {held : ℚ} (hlast : s.lastT = some last)
    (h : ptsDiscontinuity < last - s.raw v pts) (hheld : s.suspect = some held)
    (horder : held ≤ s.raw v pts) :
    s.place v (some pts) = (last + v.frameInterval, { s with
      lastT := some (last + v.frameInterval)
      shift := s.shift + (last + v.frameInterval - s.raw v pts)
      suspect := none
      discontinuities := s.discontinuities + 1 }) := by
  unfold place
  rw [hlast]
  dsimp only
  rw [if_neg (not_le_of_behind h), if_neg (not_le.mpr h), hheld, if_pos (by simpa using horder)]

theorem place_lone (hlast : s.lastT = some last) (h : ptsDiscontinuity < last - s.raw v pts)
    (hlone : ∀ held ∈ s.suspect, s.raw v pts < held) :
    s.place v (some pts) = (last + v.frameInterval, { s with
      lastT := some (last + v.frameInterval)
      suspect := some (s.raw v pts) }) := by
  unfold place
  rw [hlast]
  dsimp only
  have hno : ¬ s.suspect.any (fun x => decide (x ≤ s.raw v pts)) = true := by
    cases hheld : s.suspect with
    | none => exact Bool.false_ne_true
    | some held => simpa using hlone held hheld
  rw [if_neg (not_le_of_behind h), if_neg (not_le.mpr h), if_neg hno]

/-- The last time is the one that was given, and none before it is later. -/
theorem place_spec (v : VideoStream) (s : Timeline) (frame : Pts) :
    (s.place v frame).2.lastT = some (s.place v frame).1 ∧
      ∀ last ∈ s.lastT, last ≤ (s.place v frame).1 := by
  have hpos := v.frameInterval_pos
  cases frame with
  | none =>
    refine ⟨rfl, fun last hlast => ?_⟩
    rw [Option.mem_def] at hlast
    simp only [place, hlast]
    linarith
  | some pts =>
    cases hlast : s.lastT with
    | none =>
      rw [place_forward (by simp [hlast])]
      exact ⟨rfl, fun last h => by cases h⟩
    | some last =>
      have hbound (t : ℚ) (h : last ≤ t) : ∀ l ∈ some last, l ≤ t := fun l hl => by
        cases hl
        exact h
      by_cases hforward : last ≤ s.raw v pts
      · rw [place_forward (hlast ▸ hbound _ hforward)]
        exact ⟨rfl, hbound _ hforward⟩
      · rcases le_or_gt (last - s.raw v pts) ptsDiscontinuity with hnear | hfar
        · rw [place_held hlast hforward hnear]
          exact ⟨rfl, hbound _ le_rfl⟩
        · by_cases hlone : ∀ held ∈ s.suspect, s.raw v pts < held
          · rw [place_lone hlast hfar hlone]
            exact ⟨rfl, hbound _ (by linarith)⟩
          · push Not at hlone
            obtain ⟨held, hheld, horder⟩ := hlone
            rw [place_reset hlast hfar hheld horder]
            exact ⟨rfl, hbound _ (by linarith)⟩

/-- The times of frames in turn. -/
def times (v : VideoStream) : Timeline → List Pts → List ℚ
  | _, [] => []
  | s, frame :: frames => (s.place v frame).1 :: times v (s.place v frame).2 frames

/-- The timeline after frames in turn. -/
def through (v : VideoStream) (s : Timeline) (frames : List Pts) : Timeline :=
  frames.foldl (fun s frame => (s.place v frame).2) s

theorem through_cons (v : VideoStream) (s : Timeline) (frame : Pts) (frames : List Pts) :
    s.through v (frame :: frames) = ((s.place v frame).2).through v frames := rfl

theorem times_sorted (v : VideoStream) (s : Timeline) (frames : List Pts) :
    (∀ t ∈ s.times v frames, ∀ last ∈ s.lastT, last ≤ t) ∧ (s.times v frames).Pairwise (· ≤ ·) := by
  induction frames generalizing s with
  | nil => exact ⟨fun t ht => absurd ht List.not_mem_nil, List.Pairwise.nil⟩
  | cons frame frames ih =>
    obtain ⟨hlast, hle⟩ := place_spec v s frame
    obtain ⟨hlater, hsorted⟩ := ih (s.place v frame).2
    have hnext : ∀ t ∈ times v (s.place v frame).2 frames, (s.place v frame).1 ≤ t := fun t ht =>
      hlater t ht _ hlast
    refine ⟨?_, List.pairwise_cons.mpr ⟨hnext, hsorted⟩⟩
    intro t ht last hmem
    rcases List.mem_cons.mp ht with rfl | ht
    · exact hle last hmem
    · exact (hle last hmem).trans (hnext t ht)

theorem times_take (v : VideoStream) (s : Timeline) (frames : List Pts) (n : ℕ) :
    s.times v (frames.take n) = (s.times v frames).take n := by
  induction frames generalizing s n with
  | nil => simp [times]
  | cons frame frames ih =>
    cases n with
    | zero => rfl
    | succ n => rw [List.take_succ_cons, times, times, List.take_succ_cons, ih]

/-- The first frame has its own time, or that at which decoding starts. -/
theorem times_first (v : VideoStream) (frame : Pts) (frames : List Pts) (hlast : s.lastT = none)
    (hshift : s.shift = 0) :
    ∃ s' : Timeline, s'.lastT = some ((frame.map v.stamp).getD s.baseT) ∧ s'.shift = 0 ∧
      s.times v (frame :: frames) = (frame.map v.stamp).getD s.baseT :: s'.times v frames := by
  have hplace : (s.place v frame).1 = (frame.map v.stamp).getD s.baseT := by
    cases frame with
    | none => simp [place, hlast]
    | some pts => simp [place, hlast, raw, hshift]
  refine ⟨(s.place v frame).2, ?_, ?_, ?_⟩
  · rw [(place_spec v s frame).1, hplace]
  · rw [← hshift]
    cases frame <;> simp [place, hlast]
  · rw [times, hplace]

/-- Frames in order keep their own times. -/
theorem times_inOrder (h : v.InOrder t frames) (hlast : s.lastT = some (t + s.shift)) :
    s.times v frames = (v.ownTimes t frames).map (· + s.shift) := by
  induction frames generalizing s t with
  | nil => rfl
  | cons frame frames ih =>
    obtain ⟨hle, htail⟩ := h.cons
    rw [times, VideoStream.ownTimes, List.map_cons]
    cases frame with
    | none =>
      have htime : t + s.shift + v.frameInterval = t + v.frameInterval + s.shift := by ring
      rw [place_untimed hlast]
      exact congrArg₂ _ htime (ih htail (congrArg some htime))
    | some pts =>
      have hforward : ∀ last ∈ s.lastT, last ≤ s.raw v pts := by
        intro last hmem
        cases hlast.symm.trans hmem
        exact add_le_add hle le_rfl
      rw [place_forward hforward]
      exact congrArg _ (ih htail rfl)

/-- Frames in order leave the offset while their own times are no more than a jitter behind. -/
theorem shift_through (h : v.InOrder t frames) (hlast : s.lastT = some last)
    (hnear : last - (t + s.shift) ≤ ptsDiscontinuity) (n : ℕ) :
    (s.through v (frames.take n)).shift = s.shift := by
  induction frames generalizing s t last n with
  | nil =>
    rw [List.take_nil]
    rfl
  | cons frame frames ih =>
    obtain ⟨hle, htail⟩ := h.cons
    cases n with
    | zero => rfl
    | succ n =>
      rw [List.take_succ_cons, through_cons]
      cases frame with
      | none =>
        rw [place_untimed hlast]
        refine ih htail rfl ?_ n
        change last + v.frameInterval - (t + v.frameInterval + s.shift) ≤ ptsDiscontinuity
        linarith
      | some pts =>
        have hraw : t + s.shift ≤ s.raw v pts := add_le_add hle le_rfl
        rcases le_or_gt last (s.raw v pts) with hforward | hback
        · rw [place_forward (by simpa [hlast] using hforward)]
          refine ih (s := { s with lastT := some (s.raw v pts), suspect := none }) htail rfl ?_ n
          change s.raw v pts - s.raw v pts ≤ ptsDiscontinuity
          rw [sub_self]
          exact ptsDiscontinuity_pos.le
        · have hheld : last - s.raw v pts ≤ ptsDiscontinuity := by linarith
          rw [place_held hlast (not_le.mpr hback) hheld]
          exact ih (s := { s with lastT := some last, suspect := none }) htail rfl hheld n

/-- From a confirmed reset on, frames in order go on one interval after the last time. -/
theorem times_reset {held : ℚ} (hlast : s.lastT = some last) (hheld : s.suspect = some held)
    (hbehind : ptsDiscontinuity < last - s.raw v pts) (hconfirmed : held ≤ s.raw v pts)
    (h : v.InOrder (v.stamp pts) frames) :
    s.times v (some pts :: frames) = (v.stamp pts :: v.ownTimes (v.stamp pts) frames).map
      fun own => last + v.frameInterval + (own - v.stamp pts) := by
  have hrebased (own : ℚ) : own + (s.shift + (last + v.frameInterval - s.raw v pts)) =
      last + v.frameInterval + (own - v.stamp pts) := by
    rw [raw]
    ring
  have hresumed : last + v.frameInterval =
      v.stamp pts + (s.shift + (last + v.frameInterval - s.raw v pts)) := by
    rw [hrebased, sub_self, add_zero]
  rw [times, place_reset hlast hbehind hheld hconfirmed, times_inOrder h (congrArg some hresumed),
    List.map_cons, sub_self, add_zero]
  exact congrArg _ (List.map_congr_left fun own _ => hrebased own)

/-- While a frame is suspected, those that follow it in order leave the offset just where the first
timestamp is no more than a jitter behind. -/
theorem shift_suspect {held : ℚ} (hlast : s.lastT = some t) (hheld : s.suspect = some held)
    (hle : held ≤ last) (h : v.FollowsOn s.shift last frames) :
    (∀ n, (s.through v (frames.take n)).shift = s.shift) ↔ v.NearBy s.shift t frames := by
  induction frames generalizing s t with
  | nil =>
    refine iff_of_true (fun n => ?_) trivial
    rw [List.take_nil]
    rfl
  | cons frame frames ih =>
    cases frame with
    | none =>
      have hnext := ih (s := { s with lastT := some (t + v.frameInterval) }) rfl hheld h
      have hstep (n : ℕ) : s.through v ((none :: frames).take (n + 1)) =
          { s with lastT := some (t + v.frameInterval) }.through v (frames.take n) := by
        rw [List.take_succ_cons, through_cons, place_untimed hlast]
      constructor
      · intro hall
        exact hnext.mp fun n => hstep n ▸ hall (n + 1)
      · intro hall n
        cases n with
        | zero => rfl
        | succ n =>
          rw [hstep]
          exact hnext.mpr hall n
    | some pts =>
      obtain ⟨hfirst, horder⟩ := h
      constructor
      · intro hall
        by_contra hfar
        have hbehind : ptsDiscontinuity < t - s.raw v pts := not_le.mp hfar
        have hshift := hall 1
        rw [List.take_succ_cons, through_cons,
          place_reset hlast hbehind hheld (hle.trans hfirst)] at hshift
        change s.shift + (t + v.frameInterval - s.raw v pts) = s.shift at hshift
        have hpos := v.frameInterval_pos
        have hone := ptsDiscontinuity_pos
        linarith
      · intro hnear n
        cases n with
        | zero => rfl
        | succ n =>
          rw [List.take_succ_cons, through_cons]
          rcases le_or_gt t (s.raw v pts) with hforward | hback
          · rw [place_forward (by simpa [hlast] using hforward)]
            refine shift_through (s := { s with lastT := some (s.raw v pts), suspect := none })
              horder rfl ?_ n
            change s.raw v pts - s.raw v pts ≤ ptsDiscontinuity
            rw [sub_self]
            exact ptsDiscontinuity_pos.le
          · rw [place_held hlast (not_le.mpr hback) hnear]
            exact shift_through (s := { s with lastT := some t, suspect := none }) horder
              rfl hnear n

/-- Behind a lone frame, frames in order leave the offset unless the first timestamp is that far
behind the time that the lone frame was given. -/
theorem shift_lone {lone : ℤ} (hlast : s.lastT = some last)
    (hbehind : ptsDiscontinuity < last - s.raw v lone)
    (hlone : ∀ held ∈ s.suspect, s.raw v lone < held) (h : v.FollowsOn s.shift last frames) :
    (∀ n, (s.through v ((some lone :: frames).take n)).shift = s.shift) ↔
      v.NearBy s.shift (last + v.frameInterval) frames := by
  have hheld : s.raw v lone ≤ last := (not_le.mp (not_le_of_behind hbehind)).le
  have hnext := shift_suspect (s := { s with
    lastT := some (last + v.frameInterval)
    suspect := some (s.raw v lone) }) rfl rfl hheld h
  rw [← hnext]
  have hstep (n : ℕ) : s.through v ((some lone :: frames).take (n + 1)) = { s with
      lastT := some (last + v.frameInterval)
      suspect := some (s.raw v lone) }.through v (frames.take n) := by
    rw [List.take_succ_cons, through_cons, place_lone hlast hbehind hlone]
  constructor
  · intro hall n
    exact hstep n ▸ hall (n + 1)
  · intro hall n
    cases n with
    | zero => rfl
    | succ n =>
      rw [hstep]
      exact hall n

end Timeline

namespace Packet

/-- The frames of packets, none of one that does not decode. -/
def framesOf : List Packet → List Pts
  | [] => []
  | .undecodable :: packets => framesOf packets
  | .decoded frames :: packets => frames ++ framesOf packets

end Packet

namespace VideoDecoder

variable {d : VideoDecoder}

/-- The frames that are still to come. -/
def frames (d : VideoDecoder) : List Pts := d.ready ++ Packet.framesOf d.packets

theorem pull_frames (skipped : ℕ) (packets : List Packet) :
    (pull skipped packets).1 = (Packet.framesOf packets).head? ∧
      (pull skipped packets).2.1 ++ Packet.framesOf (pull skipped packets).2.2.1 =
        (Packet.framesOf packets).tail := by
  induction packets generalizing skipped with
  | nil => exact ⟨rfl, rfl⟩
  | cons packet packets ih =>
    cases packet with
    | undecodable => exact ih (skipped + 1)
    | decoded frames =>
      cases frames with
      | nil => exact ih skipped
      | cons frame ready => exact ⟨rfl, rfl⟩

theorem nextFrame_frames (d : VideoDecoder) :
    d.nextFrame.1 = d.frames.head? ∧ d.nextFrame.2.frames = d.frames.tail ∧
    d.nextFrame.2.timeline = d.timeline ∧ d.nextFrame.2.stream = d.stream := by
  unfold nextFrame frames
  cases d.ready with
  | nil =>
    obtain ⟨hframe, hrest⟩ := pull_frames d.skippedPackets d.packets
    exact ⟨hframe, hrest, rfl, rfl⟩
  | cons frame ready => exact ⟨rfl, rfl, rfl, rfl⟩

/-- A call places the next frame; at the end of the stream nothing changes. -/
theorem next_frames (d : VideoDecoder) :
    d.next.2.frames = d.frames.tail ∧ d.next.2.stream = d.stream ∧
      d.next.2.timeline = d.timeline.through d.stream (d.frames.take 1) ∧
    d.next.1.map Prod.fst = (d.timeline.times d.stream (d.frames.take 1)).head? := by
  obtain ⟨hframe, hrest, htimeline, hstream⟩ := d.nextFrame_frames
  unfold next
  cases hfetch : d.nextFrame with
  | mk fetched d' =>
    rw [hfetch] at hframe hrest htimeline hstream
    dsimp only at hframe hrest htimeline hstream
    cases hall : d.frames with
    | nil =>
      rw [hall] at hframe hrest
      rw [hframe]
      exact ⟨hrest, hstream, htimeline, rfl⟩
    | cons frame rest =>
      rw [hall] at hframe hrest
      rw [hframe]
      refine ⟨hrest, hstream, ?_, ?_⟩
      · simp only [List.head?_cons, htimeline, hstream]
        rfl
      · simp only [List.head?_cons, htimeline, hstream]
        rfl

/-- The times that a number of calls return. -/
def returned : ℕ → VideoDecoder → List ℚ
  | 0, _ => []
  | n + 1, d => (d.next.1.map Prod.fst).toList ++ returned n d.next.2

/-- The decoder after a number of calls. -/
def after : ℕ → VideoDecoder → VideoDecoder
  | 0, d => d
  | n + 1, d => after n d.next.2

theorem returned_eq (n : ℕ) (d : VideoDecoder) :
    d.returned n = d.timeline.times d.stream (d.frames.take n) ∧
      (d.after n).timeline = d.timeline.through d.stream (d.frames.take n) := by
  induction n generalizing d with
  | zero => exact ⟨rfl, rfl⟩
  | succ n ih =>
    obtain ⟨hframes, hstream, htimeline, htime⟩ := d.next_frames
    obtain ⟨htimes, hafter⟩ := ih d.next.2
    rw [hframes, hstream, htimeline] at htimes hafter
    rw [returned, after, htimes, hafter, htime]
    cases d.frames with
    | nil => exact ⟨by simp [Timeline.times], by simp [Timeline.through]⟩
    | cons frame rest => exact ⟨rfl, rfl⟩

/-- The times of the frames are in order; a stream keeps its own times just where they are; a
confirmed reset goes on behind the last time; and a lone frame far behind leaves the offset of those
that follow it in order just where the first timestamp of these is not that far behind the lone
frame's time, one interval on for each frame between that has none. -/
theorem next_times (d : VideoDecoder) :
    (∀ n, (d.returned n).Pairwise (· ≤ ·)) ∧
      (∀ packets baseT frame frames, Packet.framesOf packets = frame :: frames →
        let t := (frame.map d.stream.stamp).getD (max 0 baseT)
        ((∀ n, (d.startDecoding packets baseT).returned n =
            (t :: d.stream.ownTimes t frames).take n) ↔
          d.stream.InOrder t frames)) ∧
      (∀ last held first frames more, d.timeline.lastT = some last →
        d.timeline.suspect = some held → d.frames = some first :: frames ++ more →
        ptsDiscontinuity < last - d.timeline.raw d.stream first →
        held ≤ d.timeline.raw d.stream first → d.stream.InOrder (d.stream.stamp first) frames →
        ∀ n ≤ frames.length + 1, d.returned n =
          ((d.stream.stamp first :: d.stream.ownTimes (d.stream.stamp first) frames).map fun own =>
            last + d.stream.frameInterval + (own - d.stream.stamp first)).take n) ∧
      ∀ last lone frames more, d.timeline.lastT = some last →
        d.frames = some lone :: frames ++ more →
        ptsDiscontinuity < last - d.timeline.raw d.stream lone →
        (∀ held ∈ d.timeline.suspect, d.timeline.raw d.stream lone < held) →
        d.stream.FollowsOn d.timeline.shift last frames →
        ((∀ n ≤ frames.length + 1, (d.after n).timeline.shift = d.timeline.shift) ↔
          d.stream.NearBy d.timeline.shift (last + d.stream.frameInterval) frames) := by
  have hsorted (d : VideoDecoder) (n : ℕ) : (d.returned n).Pairwise (· ≤ ·) := by
    rw [(returned_eq n d).1]
    exact (Timeline.times_sorted ..).2
  refine ⟨hsorted d, ?_, ?_, ?_⟩
  · intro packets baseT frame frames hframes t
    have hstart : (d.startDecoding packets baseT).frames = frame :: frames := hframes
    obtain ⟨s, hlast, hshift, htimes⟩ : ∃ s : Timeline, s.lastT = some t ∧ s.shift = 0 ∧
        (d.startDecoding packets baseT).timeline.times d.stream (frame :: frames) =
          t :: s.times d.stream frames :=
      Timeline.times_first (s := (d.startDecoding packets baseT).timeline) d.stream frame frames
        rfl rfl
    have hreturned (n : ℕ) : (d.startDecoding packets baseT).returned n =
        (t :: s.times d.stream frames).take n := by
      rw [(returned_eq n _).1, hstart, Timeline.times_take]
      exact congrArg (List.take n) htimes
    constructor
    · intro hall
      have hkept := hsorted (d.startDecoding packets baseT) (t :: d.stream.ownTimes t frames).length
      rwa [hall, List.take_length] at hkept
    · intro horder n
      rw [hreturned, Timeline.times_inOrder horder (by rw [hlast, hshift, add_zero]), hshift]
      simp
  · intro last held first frames more hlast hheld hframes hbehind hconfirmed horder n hn
    rw [(returned_eq n d).1, hframes, List.take_append_of_le_length hn, Timeline.times_take,
      Timeline.times_reset hlast hheld hbehind hconfirmed horder]
  · intro last lone frames more hlast hframes hbehind hlone horder
    rw [← Timeline.shift_lone hlast hbehind hlone horder]
    have hafter (n : ℕ) (hn : n ≤ frames.length + 1) : (d.after n).timeline =
        d.timeline.through d.stream ((some lone :: frames).take n) := by
      rw [(returned_eq n d).2, hframes, List.take_append_of_le_length hn]
    constructor
    · intro hall n
      rcases le_or_gt n (frames.length + 1) with hn | hn
      · rw [← hafter n hn, hall n hn]
      · have hwhole (n : ℕ) (hn : frames.length + 1 ≤ n) :
            (some lone :: frames).take n = some lone :: frames := List.take_of_length_le hn
        rw [hwhole n hn.le, ← hwhole _ le_rfl, ← hafter _ le_rfl, hall _ le_rfl]
    · intro hall n hn
      rw [hafter n hn, hall n]

/-- A stream of one frame in two seconds on average, with a lone frame of half a second between two
that are half a second apart. -/
def slideshow : VideoDecoder :=
  opened ⟨1 / 1000, 0, [some (1 / 2)]⟩ [.decoded [some 0, some 10000, some 500, some 10500]]

/-- The frame at 10.5 s, in order from that at 10 s, is put at 14 s, and so are all later ones
behind by 3.5 s. -/
theorem slideshow_rebased : (slideshow.after 2).timeline.lastT = some 10 ∧
    (slideshow.after 2).timeline.suspect = none ∧ (slideshow.after 2).timeline.shift = 0 ∧
    (slideshow.after 4).timeline.shift = 7 / 2 ∧ slideshow.returned 4 = [0, 10, 12, 14] := by
  decide +kernel

end VideoDecoder

end Kaine.Vision
