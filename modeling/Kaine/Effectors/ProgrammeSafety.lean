import Kaine.Effectors.Programme
import Mathlib.Algebra.Order.BigOperators.Group.List
import Mathlib.Data.Prod.Lex

/-! Playback of a measured programme: the clock reads perceived time, ends by it, and every position
it presents is one of its channel's. -/
namespace Kaine.Effectors
open Kaine.Vision

variable {ds cs : List ℚ} {position acc : ℚ} {first k : ℕ}

theorem lengthOf_some (cs : List ℚ) (total : ℚ) :
    lengthOf total (cs.map some) = some (total + cs.sum) := by
  induction cs generalizing total with
  | nil => simp [lengthOf]
  | cons d ds ih => simp [lengthOf, ih, add_assoc]

/-- An offset short of the channel's end falls inside one of its items. -/
theorem walkChannel_found (first : ℕ) (hlow : acc ≤ position) (hhigh : position < acc + cs.sum) :
    ∃ k d, cs[k]? = some d ∧ acc + (cs.take k).sum ≤ position ∧
      position < acc + (cs.take k).sum + d ∧
      walkChannel position (cs.map some) first acc =
        some (first + k, position - (acc + (cs.take k).sum)) := by
  induction cs generalizing first acc with
  | nil => simp only [List.sum_nil, add_zero] at hhigh; exact absurd hhigh (not_lt.mpr hlow)
  | cons d ds ih =>
    by_cases hhere : position < acc + d
    · exact ⟨0, d, by simp, by simpa using hlow, by simpa using hhere, by simp [walkChannel, hhere]⟩
    · have hhigh : position < acc + d + ds.sum := by simpa [add_assoc] using hhigh
      obtain ⟨k, e, hk, hge, hlt, hwalk⟩ := ih (first + 1) (not_lt.mp hhere) hhigh
      refine ⟨k + 1, e, by simpa using hk, by simpa [add_assoc] using hge,
        by simpa [add_assoc] using hlt, ?_⟩
      simp only [List.map_cons, walkChannel, Option.getD_some, if_neg hhere, hwalk,
        List.take_succ_cons, List.sum_cons]
      rw [add_assoc acc d, add_assoc first 1, add_comm 1 k]

/-- The start of an item is found at offset zero in it. -/
theorem walkChannel_start (first : ℕ) (hpos : ∀ d ∈ cs, 0 < d) (hk : k < cs.length)
    (hstart : position = acc + (cs.take k).sum) :
    walkChannel position (cs.map some) first acc = some (first + k, 0) := by
  induction k generalizing first acc cs with
  | zero =>
    cases cs with
    | nil => simp at hk
    | cons d ds =>
      have hd := hpos d (by simp)
      simp only [List.take_zero, List.sum_nil, add_zero] at hstart
      subst hstart
      simp [walkChannel, hd]
  | succ k ih =>
    cases cs with
    | nil => simp at hk
    | cons d ds =>
      have hrest : ∀ e ∈ ds, 0 < e := fun e he => hpos e (by simp [he])
      have hpast : ¬position < acc + d := by
        have hsum : 0 ≤ (ds.take k).sum :=
          List.sum_nonneg fun e he => (hrest e (List.mem_of_mem_take he)).le
        rw [hstart]
        simp only [List.take_succ_cons, List.sum_cons, not_lt]
        linarith
      have hnext := ih (first + 1) hrest (by simpa using hk)
        (show position = acc + d + (ds.take k).sum by rw [hstart]; simp [add_assoc])
      simp only [List.map_cons, walkChannel, Option.getD_some, if_neg hpast, hnext]
      rw [add_assoc, add_comm 1 k]

/-- The plain clock's walk and the programme's agree short of the channel's end. -/
theorem walk_eq {itemCount : ℕ} :
    PlaylistClock.walk itemCount position (cs.map some) first acc =
      ((walkChannel position (cs.map some) first acc).getD (itemCount, 0)) := by
  induction cs generalizing first acc with
  | nil => rfl
  | cons d ds ih =>
    by_cases hhere : position < acc + d
    · simp [PlaylistClock.walk, walkChannel, hhere]
    · simp only [List.map_cons, PlaylistClock.walk, walkChannel, Option.getD_some, if_neg hhere]
      exact ih

/-- The walk runs past the end of a channel whose length has been reached. -/
theorem walkChannel_past (hpos : ∀ d ∈ cs, 0 < d) (hend : acc + cs.sum ≤ position) :
    walkChannel position (cs.map some) first acc = none := by
  induction cs generalizing first acc with
  | nil => rfl
  | cons d ds ih =>
    have hrest : ∀ e ∈ ds, 0 < e := fun e he => hpos e (by simp [he])
    have hsum : 0 ≤ ds.sum := List.sum_nonneg fun e he => (hrest e he).le
    simp only [List.sum_cons] at hend
    have hpast : ¬position < acc + d := by linarith
    simp only [List.map_cons, walkChannel, Option.getD_some, if_neg hpast]
    exact ih hrest (by linarith)

/-- Laps differ exactly when a multiple of the length lies between the two times. -/
theorem floor_div_ne_iff {length t t' : ℚ} (hpos : 0 < length) (hle : t ≤ t') :
    ⌊t / length⌋ ≠ ⌊t' / length⌋ ↔ ∃ n : ℤ, t < n * length ∧ n * length ≤ t' := by
  have hmono : ⌊t / length⌋ ≤ ⌊t' / length⌋ := Int.floor_le_floor (by gcongr)
  constructor
  · intro hne
    have hlt : ⌊t / length⌋ < ⌊t' / length⌋ := lt_of_le_of_ne hmono hne
    refine ⟨⌊t' / length⌋, ?_, ?_⟩
    · have hfloor : t / length < ⌊t' / length⌋ := Int.floor_lt.mp hlt
      rwa [div_lt_iff₀ hpos] at hfloor
    · have hfloor := Int.floor_le (t' / length)
      rwa [le_div_iff₀ hpos] at hfloor
  · rintro ⟨n, hlow, hhigh⟩ heq
    have hlow : ⌊t / length⌋ < n := Int.floor_lt.mpr (by rwa [div_lt_iff₀ hpos])
    have hhigh : n ≤ ⌊t' / length⌋ := Int.le_floor.mpr (by rwa [le_div_iff₀ hpos])
    omega

theorem runsEnd_mem {runs : List (ℕ × ℕ)} {expected last count : ℕ}
    (h : runsEnd expected runs = some last) (hmem : (first, count) ∈ runs) :
    1 ≤ count ∧ first + count ≤ last := by
  have hle : ∀ {runs : List (ℕ × ℕ)} {expected : ℕ}, runsEnd expected runs = some last →
      expected ≤ last := by
    intro runs
    induction runs with
    | nil =>
      intro expected h
      cases h
      exact le_rfl
    | cons run runs ih =>
      intro expected h
      obtain ⟨first, count⟩ := run
      simp only [runsEnd] at h
      split_ifs at h with hbad
      have := ih h
      omega
  induction runs generalizing expected with
  | nil => cases hmem
  | cons run runs ih =>
    obtain ⟨f, n⟩ := run
    simp only [runsEnd] at h
    split_ifs at h with hbad
    rcases List.mem_cons.mp hmem with heq | hmem
    · cases heq
      have := hle h
      omega
    · exact ih h hmem

namespace ProgrammeClock

variable {c : ProgrammeClock} {now perceived : ℚ} {channel : ℕ}

/-- Every item's duration is known and positive. -/
structure Measured (ds : List ℚ) (c : ProgrammeClock) : Prop where
  durations : c.durations = ds.map some
  pos : ∀ d ∈ ds, 0 < d

/-- The durations of a channel's items, out of all of them. -/
def items (c : ProgrammeClock) (ds : List ℚ) (channel : ℕ) : List ℚ :=
  (ds.drop (c.segment channel).1).take (c.segment channel).2

theorem segment_mem (h : channel < c.segments.length) : c.segment channel ∈ c.segments := by
  have hget : c.segment channel = c.segments[channel] := by simp [segment, h]
  rw [hget]
  exact List.getElem_mem h

namespace Measured

variable (h : c.Measured ds)
include h

theorem channelDurations_eq (channel : ℕ) :
    c.channelDurations channel = (c.items ds channel).map some := by
  rw [channelDurations, h.durations, items, List.map_take, List.map_drop]

theorem items_pos (channel : ℕ) : ∀ d ∈ c.items ds channel, 0 < d := fun d hd =>
  h.pos d (List.mem_of_mem_drop (List.mem_of_mem_take hd))

theorem items_length (hch : channel < c.segments.length) :
    (c.items ds channel).length = (c.segment channel).2 ∧ 1 ≤ (c.segment channel).2 := by
  obtain ⟨hcount, hend⟩ := runsEnd_mem c.covers (segment_mem hch)
  have hlen : c.durations.length = ds.length := by rw [h.durations, List.length_map]
  have hfit : (c.segment channel).1 + (c.segment channel).2 ≤ ds.length := by
    rw [← hlen]
    exact hend
  refine ⟨?_, hcount⟩
  rw [items, List.length_take, List.length_drop]
  omega

theorem channelLength_eq (channel : ℕ) :
    c.channelLength channel = some (c.items ds channel).sum := by
  rw [channelLength, h.channelDurations_eq, lengthOf_some, zero_add]

theorem sum_pos (hch : channel < c.segments.length) : 0 < (c.items ds channel).sum := by
  obtain ⟨hlen, hcount⟩ := h.items_length hch
  refine List.sum_pos _ (h.items_pos channel) ?_
  intro hnil
  rw [hnil] at hlen
  simp at hlen
  omega

omit h in
theorem getElem?_items {localIdx : ℕ} {d : ℚ} (hd : (c.items ds channel)[localIdx]? = some d) :
    localIdx < (c.segment channel).2 ∧ ds[(c.segment channel).1 + localIdx]? = some d := by
  have hlt : localIdx < (c.segment channel).2 := by
    obtain ⟨hlt, _⟩ := List.getElem?_eq_some_iff.mp hd
    rw [items, List.length_take] at hlt
    omega
  refine ⟨hlt, ?_⟩
  rw [items, List.getElem?_take_of_lt hlt, List.getElem?_drop] at hd
  exact hd

theorem itemStart_eq (channel localIdx : ℕ) :
    c.itemStart channel localIdx = ((c.items ds channel).take localIdx).sum := by
  rw [itemStart, h.channelDurations_eq, ← List.map_take, List.map_map]
  have hid : ((fun d => Option.getD d 0) ∘ some : ℚ → ℚ) = id := rfl
  rw [hid, List.map_id, List.sum_eq_foldl]

/-- What is presented lies inside an item of the channel, as far into it as the lap has got. -/
theorem presented_eq (perceived : ℚ) :
    ∃ localIdx d offset, (c.items ds c.channel)[localIdx]? = some d ∧ 0 ≤ offset ∧ offset < d ∧
      c.presented perceived = some
        ⟨⌊c.channelTime perceived / (c.items ds c.channel).sum⌋,
          (c.segment c.channel).1 + localIdx, offset⟩ := by
  have hlength := h.sum_pos c.channel_lt
  set length := (c.items ds c.channel).sum with hdef
  set t := c.channelTime perceived with ht
  have hlow : 0 ≤ t - ⌊t / length⌋ * length := by
    have := Int.floor_le (t / length)
    rw [le_div_iff₀ hlength] at this
    linarith
  have hhigh : t - ⌊t / length⌋ * length < 0 + length := by
    have := Int.lt_floor_add_one (t / length)
    rw [div_lt_iff₀ hlength] at this
    linarith
  obtain ⟨localIdx, d, hd, hge, hlt, hwalk⟩ :=
    walkChannel_found (c.segment c.channel).1 hlow hhigh
  refine ⟨localIdx, d, t - ⌊t / length⌋ * length -
    (0 + ((c.items ds c.channel).take localIdx).sum), hd, ?_, ?_, ?_⟩
  · linarith
  · linarith
  · simp only [presented, h.channelLength_eq, ← hdef, if_neg (not_le.mpr hlength), ← ht,
      h.channelDurations_eq, hwalk]

/-- At the anchor the presented position is the start of the anchored item. -/
theorem presented_anchor {localIdx : ℕ} (now : ℚ) (hch : channel < c.segments.length)
    (hlocal : localIdx < (c.segment channel).2) :
    (c.anchor channel localIdx hch now).presented (c.elapsed now) =
      some ⟨0, (c.segment channel).1 + localIdx, 0⟩ := by
  obtain ⟨hlen, _⟩ := h.items_length hch
  have hlength := h.sum_pos hch
  have hstart := h.itemStart_eq channel localIdx
  have hnonneg : 0 ≤ ((c.items ds channel).take localIdx).sum :=
    List.sum_nonneg fun d hd => (h.items_pos channel d (List.mem_of_mem_take hd)).le
  have hshort : ((c.items ds channel).take localIdx).sum < (c.items ds channel).sum := by
    have hsplit := congrArg List.sum (List.take_append_drop localIdx (c.items ds channel))
    have hrest : 0 < ((c.items ds channel).drop localIdx).sum := by
      refine List.sum_pos _ (fun d hd => h.items_pos channel d (List.mem_of_mem_drop hd)) ?_
      intro hnil
      have := List.drop_eq_nil_iff.mp hnil
      omega
    rw [List.sum_append] at hsplit
    linarith
  have hlap : ⌊((c.items ds channel).take localIdx).sum / (c.items ds channel).sum⌋ = 0 := by
    rw [Int.floor_eq_zero_iff]
    exact ⟨div_nonneg hnonneg hlength.le, (div_lt_one hlength).mpr hshort⟩
  have hwalk : walkChannel ((c.items ds channel).take localIdx).sum
      ((c.items ds channel).map some) (c.segment channel).1 0 =
        some ((c.segment channel).1 + localIdx, 0) :=
    walkChannel_start _ (h.items_pos channel) (by omega) (by rw [zero_add])
  have hlen' : (c.anchor channel localIdx hch now).channelLength channel =
      some (c.items ds channel).sum := h.channelLength_eq channel
  have hdur' : (c.anchor channel localIdx hch now).channelDurations channel =
      (c.items ds channel).map some := h.channelDurations_eq channel
  have htime : (c.anchor channel localIdx hch now).channelTime (c.elapsed now) =
      ((c.items ds channel).take localIdx).sum := by
    simp only [channelTime, anchor, hstart, sub_self, add_zero, max_eq_right hnonneg]
  have hchannel : (c.anchor channel localIdx hch now).channel = channel := rfl
  simp only [presented, hchannel, hlen', if_neg (not_le.mpr hlength), htime, hlap, Int.cast_zero,
    zero_mul, sub_zero, hdur']
  have hseg : (c.anchor channel localIdx hch now).segment channel = c.segment channel := rfl
  rw [hseg, hwalk]

theorem endedAt_iff (perceived : ℚ) :
    c.endedAt perceived = true ↔ (c.items ds 0).sum ≤ perceived := by
  simp [endedAt, h.channelLength_eq]

end Measured

theorem anchor_measured {localIdx : ℕ} (h : c.Measured ds) (hch : channel < c.segments.length) :
    (c.anchor channel localIdx hch now).Measured ds := ⟨h.durations, h.pos⟩

/-- A seek never fails on a measured programme: it goes to an item of the same channel. -/
theorem Measured.seek_eq (h : c.Measured ds) (step : ℤ) (now : ℚ) :
    ∃ pos localIdx, c.presented (c.elapsed now) = some pos ∧
      (c.segment c.channel).1 ≤ pos.item ∧ localIdx < (c.segment c.channel).2 ∧
      (localIdx : ℤ) = ((pos.item : ℤ) - (c.segment c.channel).1 + step) % (c.segment c.channel).2 ∧
      c.seek step now =
        .ok (c.anchor c.channel localIdx c.channel_lt now, (c.segment c.channel).1 + localIdx) := by
  obtain ⟨at?, d, offset, hd, _, _, hpos⟩ := h.presented_eq (c.elapsed now)
  obtain ⟨_, hcount⟩ := h.items_length c.channel_lt
  have hcount' : (0 : ℤ) < (c.segment c.channel).2 := by exact_mod_cast hcount
  have hlow :=
    Int.emod_nonneg (((c.segment c.channel).1 + at? : ℕ) - (c.segment c.channel).1 + step : ℤ)
    hcount'.ne'
  have hhigh :=
    Int.emod_lt_of_pos (((c.segment c.channel).1 + at? : ℕ) - (c.segment c.channel).1 + step : ℤ)
    hcount'
  refine ⟨_, _, hpos, Nat.le_add_right _ _, ?_, (Int.toNat_of_nonneg hlow), ?_⟩
  · exact (Int.toNat_lt hlow).mpr hhigh
  · simp only [seek, hpos]

theorem Measured.switchChannel_eq (h : c.Measured ds) {channel : ℤ} (now : ℚ)
    (hch : 0 ≤ channel ∧ channel < c.segments.length) :
    ∃ hlt, c.switchChannel channel now =
      .ok (c.anchor channel.toNat 0 hlt now, (c.segment channel.toNat).1) := by
  refine ⟨by omega, ?_⟩
  simp only [switchChannel, dif_pos hch, h.channelLength_eq]

end ProgrammeClock

/-- What is done to the clock, and the time that passes between. -/
inductive Op where
  | wait (d : ℚ≥0)
  | start
  | pause (holder : String)
  | resume (holder : String)
  | seek (step : ℤ)
  | switchChannel (channel : ℤ)

/-- A clock, its reading of the time, and how long nobody has held it since its start. -/
structure Viewing where
  clock : ProgrammeClock
  now : ℚ
  perceived : ℚ

namespace Viewing

variable {v w : Viewing}

/-- An operation that raises leaves the clock as it was. -/
def step (v : Viewing) : Op → Viewing
  | .wait d =>
    { v with
      now := v.now + d
      perceived := v.perceived + if v.clock.started ∧ v.clock.holders = ∅ then (d : ℚ) else 0 }
  | .start => { v with clock := v.clock.start v.now }
  | .pause holder => { v with clock := v.clock.pause holder v.now }
  | .resume holder => { v with clock := v.clock.resume holder v.now }
  | .seek k =>
    match v.clock.seek k v.now with
    | .ok (c, _) => { v with clock := c }
    | .error _ => v
  | .switchChannel channel =>
    match v.clock.switchChannel channel v.now with
    | .ok (c, _) => { v with clock := c }
    | .error _ => v

def run (v : Viewing) (ops : List Op) : Viewing := ops.foldl step v

def epoch (v : Viewing) : ℕ × ℤ := v.clock.positionEpoch v.now

/-- The position jumps: a seek, a switch to a channel there is, or time that runs past the end of
the channel, which lies at every multiple of its length. -/
def Jumps (ds : List ℚ) (v : Viewing) : Op → Prop
  | .seek _ => True
  | .switchChannel channel => 0 ≤ channel ∧ channel < v.clock.segments.length
  | .wait d =>
    ∃ n : ℤ, v.clock.channelTime v.perceived < n * (v.clock.items ds v.clock.channel).sum ∧
      n * (v.clock.items ds v.clock.channel).sum ≤
        v.clock.channelTime (v.step (.wait d)).perceived
  | _ => False

/-- No step of a run jumps. -/
def JumpFree (ds : List ℚ) : Viewing → List Op → Prop
  | _, [] => True
  | v, op :: ops => ¬v.Jumps ds op ∧ JumpFree ds (v.step op) ops

/-- What every run of a measured programme keeps. -/
structure Playing (ds : List ℚ) (v : Viewing) : Prop where
  measured : v.clock.Measured ds
  reads : v.clock.toPlaylistClock.Reads v.now v.perceived

variable {ds : List ℚ} {op : Op} {ops : List Op}

theorem Playing.step (h : v.Playing ds) (op : Op) : (v.step op).Playing ds := by
  cases op with
  | wait d => exact ⟨h.measured, h.reads.later d.2⟩
  | start => exact ⟨⟨by simpa [Viewing.step, ProgrammeClock.start, ProgrammeClock.withClock] using
      h.measured.durations, h.measured.pos⟩, h.reads.start⟩
  | pause holder =>
      exact ⟨⟨by simpa [Viewing.step, ProgrammeClock.pause, ProgrammeClock.withClock] using
      h.measured.durations, h.measured.pos⟩, h.reads.pause holder⟩
  | resume holder =>
      exact ⟨⟨by simpa [Viewing.step, ProgrammeClock.resume, ProgrammeClock.withClock] using
      h.measured.durations, h.measured.pos⟩, h.reads.resume holder⟩
  | seek k =>
    obtain ⟨pos, localIdx, _, _, _, _, hseek⟩ := h.measured.seek_eq k v.now
    simp only [Viewing.step, hseek]
    exact ⟨ProgrammeClock.anchor_measured h.measured _, h.reads⟩
  | switchChannel channel =>
    by_cases hch : 0 ≤ channel ∧ channel < v.clock.segments.length
    · obtain ⟨hlt, hswitch⟩ := h.measured.switchChannel_eq v.now hch
      simp only [Viewing.step, hswitch]
      exact ⟨ProgrammeClock.anchor_measured h.measured hlt, h.reads⟩
    · have hfail : ∃ e, v.clock.switchChannel channel v.now = .error e :=
        ⟨_, dif_neg hch⟩
      obtain ⟨e, he⟩ := hfail
      simpa only [Viewing.step, he] using h

theorem Playing.run (h : v.Playing ds) (ops : List Op) : (v.run ops).Playing ds := by
  induction ops generalizing v with
  | nil => exact h
  | cons op ops ih => exact ih (h.step op)

theorem Playing.epoch_eq (h : v.Playing ds) : v.epoch =
    (v.clock.repositions,
      ⌊v.clock.channelTime v.perceived / (v.clock.items ds v.clock.channel).sum⌋) := by
  obtain ⟨_, _, _, _, _, _, hpos⟩ := h.measured.presented_eq (v.clock.elapsed v.now)
  simp only [epoch, ProgrammeClock.positionEpoch, hpos]
  rw [h.reads.elapsed]

theorem channelTime_mono (c : ProgrammeClock) {p q : ℚ} (h : p ≤ q) :
    c.channelTime p ≤ c.channelTime q := by
  unfold ProgrammeClock.channelTime
  gcongr

theorem switchChannel_error {channel : ℤ}
    (h : ¬(0 ≤ channel ∧ channel < v.clock.segments.length)) :
    v.step (.switchChannel channel) = v := by
  have hfail : v.clock.switchChannel channel v.now =
      .error (.message s!"no programme channel {channel}") := dif_neg h
  simp only [step, hfail]

/-- The epoch moves on at a jump and stays as it is otherwise. -/
theorem Playing.step_epoch (h : v.Playing ds) (op : Op) :
    (v.Jumps ds op → toLex v.epoch < toLex (v.step op).epoch) ∧
      (¬v.Jumps ds op → (v.step op).epoch = v.epoch) := by
  have hnext := h.step op
  rw [hnext.epoch_eq, h.epoch_eq]
  cases op with
  | wait d =>
    have hd : (0 : ℚ) ≤ d := d.2
    have hle : v.perceived ≤ (v.step (.wait d)).perceived := by
      simp only [Viewing.step]
      split_ifs <;> linarith
    have hlength := h.measured.sum_pos v.clock.channel_lt
    have htime := channelTime_mono v.clock hle
    have hlaps := floor_div_ne_iff hlength htime
    have hfloor : ⌊v.clock.channelTime v.perceived / (v.clock.items ds v.clock.channel).sum⌋ ≤
        ⌊v.clock.channelTime (v.step (.wait d)).perceived /
          (v.clock.items ds v.clock.channel).sum⌋ := Int.floor_le_floor (by gcongr)
    constructor
    · intro hjump
      exact Prod.Lex.toLex_lt_toLex.mpr (.inr ⟨rfl, lt_of_le_of_ne hfloor (hlaps.mpr hjump)⟩)
    · intro hstay
      have heq := not_not.mp (mt hlaps.mp hstay)
      exact Prod.ext rfl heq.symm
  | start => exact ⟨False.elim, fun _ => rfl⟩
  | pause holder => exact ⟨False.elim, fun _ => rfl⟩
  | resume holder => exact ⟨False.elim, fun _ => rfl⟩
  | seek k =>
    obtain ⟨pos, localIdx, _, _, _, _, hseek⟩ := h.measured.seek_eq k v.now
    refine ⟨fun _ => Prod.Lex.toLex_lt_toLex.mpr (.inl ?_), fun hno => absurd trivial hno⟩
    simp only [Viewing.step, hseek]
    exact Nat.lt_succ_self _
  | switchChannel channel =>
    by_cases hch : 0 ≤ channel ∧ channel < v.clock.segments.length
    · obtain ⟨hlt, hswitch⟩ := h.measured.switchChannel_eq v.now hch
      refine ⟨fun _ => Prod.Lex.toLex_lt_toLex.mpr (.inl ?_), fun hno => absurd hch hno⟩
      simp only [Viewing.step, hswitch]
      exact Nat.lt_succ_self _
    · refine ⟨fun hjump => absurd hjump hch, fun _ => ?_⟩
      rw [switchChannel_error hch]

/-- Two epochs of a run agree exactly when no step between them jumps. -/
theorem Playing.run_epoch (h : v.Playing ds) (ops : List Op) :
    toLex v.epoch ≤ toLex (v.run ops).epoch ∧
      ((v.run ops).epoch = v.epoch ↔ v.JumpFree ds ops) := by
  induction ops generalizing v with
  | nil => exact ⟨le_rfl, fun _ => trivial, fun _ => rfl⟩
  | cons op ops ih =>
    obtain ⟨hjump, hstay⟩ := h.step_epoch op
    obtain ⟨hle, hiff⟩ := ih (h.step op)
    by_cases hj : v.Jumps ds op
    · have hlt := (hjump hj).trans_le hle
      refine ⟨hlt.le, ?_⟩
      constructor
      · intro heq
        have heq : ((v.step op).run ops).epoch = v.epoch := heq
        rw [heq] at hlt
        exact absurd hlt (lt_irrefl _)
      · exact fun hfree => absurd hj hfree.1
    · have hsame := hstay hj
      rw [hsame] at hle hiff
      refine ⟨hle, ?_⟩
      constructor
      · exact fun heq => ⟨hj, hiff.mp heq⟩
      · exact fun hfree => hiff.mpr hfree.2

theorem Playing.ended_iff (h : v.Playing ds) :
    v.clock.ended v.now = true ↔ (v.clock.items ds 0).sum ≤ v.perceived := by
  rw [ProgrammeClock.ended, h.reads.elapsed]
  exact h.measured.endedAt_iff v.perceived

/-- Before the end the clock gives an item of its channel and an offset inside it. -/
theorem Playing.locate_mem (h : v.Playing ds) (hend : v.clock.ended v.now = false) :
    ∃ localIdx d, localIdx < (v.clock.segment v.clock.channel).2 ∧
      (v.clock.locate none v.now).1 = (v.clock.segment v.clock.channel).1 + localIdx ∧
      ds[(v.clock.locate none v.now).1]? = some d ∧
      0 ≤ (v.clock.locate none v.now).2 ∧ (v.clock.locate none v.now).2 < d := by
  obtain ⟨localIdx, d, offset, hd, hlow, hhigh, hpos⟩ :=
    h.measured.presented_eq (v.clock.elapsed v.now)
  obtain ⟨hlt, hget⟩ := ProgrammeClock.Measured.getElem?_items hd
  have hlocate : v.clock.locate none v.now =
      ((v.clock.segment v.clock.channel).1 + localIdx, offset) := by
    have hnot : v.clock.endedAt (v.clock.elapsed v.now) = false := hend
    simp [ProgrammeClock.locate, hnot, hpos]
  rw [hlocate]
  exact ⟨localIdx, d, hlt, rfl, hget, hlow, hhigh⟩

/-- A seek lands at the start of the item so many places away in its channel, laps around. -/
theorem Playing.seek_lands (h : v.Playing ds) (k : ℤ) :
    ∃ pos localIdx c, v.clock.presented v.perceived = some pos ∧
      localIdx < (v.clock.segment v.clock.channel).2 ∧
      (localIdx : ℤ) = ((pos.item : ℤ) - (v.clock.segment v.clock.channel).1 + k) %
        (v.clock.segment v.clock.channel).2 ∧
      v.clock.seek k v.now = .ok (c, (v.clock.segment v.clock.channel).1 + localIdx) ∧
      c.channel = v.clock.channel ∧
      c.presented v.perceived = some ⟨0, (v.clock.segment v.clock.channel).1 + localIdx, 0⟩ := by
  obtain ⟨pos, localIdx, hpos, _, hlt, hmod, hseek⟩ := h.measured.seek_eq k v.now
  rw [h.reads.elapsed] at hpos
  refine ⟨pos, localIdx, _, hpos, hlt, hmod, hseek, rfl, ?_⟩
  have hanchor := h.measured.presented_anchor v.now v.clock.channel_lt hlt
  rwa [h.reads.elapsed] at hanchor

/-- No operation changes what the channels are. -/
theorem run_segments (v : Viewing) (ops : List Op) :
    (v.run ops).clock.segments = v.clock.segments := by
  induction ops generalizing v with
  | nil => rfl
  | cons op ops ih =>
    have hstep : (v.step op).clock.segments = v.clock.segments := by
      cases op with
      | wait d => rfl
      | start => rfl
      | pause holder => rfl
      | resume holder => rfl
      | seek k =>
        simp only [Viewing.step, ProgrammeClock.seek]
        cases v.clock.presented (v.clock.elapsed v.now) <;> rfl
      | switchChannel channel =>
        by_cases hch : 0 ≤ channel ∧ channel < v.clock.segments.length
        · simp only [Viewing.step, ProgrammeClock.switchChannel, dif_pos hch]
          cases v.clock.channelLength channel.toNat <;> rfl
        · rw [switchChannel_error hch]
    exact (ih (v.step op)).trans hstep

/-- An operation that neither seeks nor switches. -/
def StaysPut : Op → Prop
  | .seek _ => False
  | .switchChannel _ => False
  | _ => True

/-- The clock stands where it was made: on channel 0, presenting perceived time. -/
structure Unmoved (c : ProgrammeClock) (segments : List (ℕ × ℕ)) : Prop where
  segments : c.segments = segments
  channel : c.channel = 0
  anchorPerceived : c.anchorPerceived = 0
  anchorPresented : c.anchorPresented = 0

theorem unmoved_run {segments : List (ℕ × ℕ)} (h : Unmoved v.clock segments) (ops : List Op)
    (hput : ∀ op ∈ ops, StaysPut op) : Unmoved (v.run ops).clock segments := by
  induction ops generalizing v with
  | nil => exact h
  | cons op ops ih =>
    have hstep : Unmoved (v.step op).clock segments := by
      have hop := hput op (by simp)
      cases op with
      | wait d => exact h
      | start => exact ⟨h.segments, h.channel, h.anchorPerceived, h.anchorPresented⟩
      | pause holder => exact ⟨h.segments, h.channel, h.anchorPerceived, h.anchorPresented⟩
      | resume holder => exact ⟨h.segments, h.channel, h.anchorPerceived, h.anchorPresented⟩
      | seek k => exact hop.elim
      | switchChannel channel => exact hop.elim
    exact ih hstep fun op hop => hput op (by simp [hop])

/-- On one channel that has not been moved the clock is the plain one. -/
theorem Playing.locate_plain {n : ℕ × ℕ} (h : v.Playing ds) (hun : Unmoved v.clock [n]) {e : ℚ}
    (he : 0 ≤ e) : v.clock.locate (some e) v.now =
      v.clock.toPlaylistClock.locate (some e) v.now := by
  obtain ⟨first, count⟩ := n
  have hcovers := v.clock.covers
  rw [hun.segments, h.measured.durations, List.length_map] at hcovers
  simp only [runsEnd] at hcovers
  split_ifs at hcovers with hbad
  obtain ⟨hfirst, _⟩ := not_or.mp hbad
  have hfirst : first = 0 := not_not.mp hfirst
  have hcount : first + count = ds.length := by simpa [runsEnd] using hcovers
  have hseg : v.clock.segment 0 = (0, ds.length) := by
    simp [ProgrammeClock.segment, hun.segments, hfirst, ← hcount]
  have hitems : v.clock.items ds 0 = ds := by simp [ProgrammeClock.items, hseg]
  have hplain : v.clock.toPlaylistClock.locate (some e) v.now =
      (walkChannel e (ds.map some) 0 0).getD (ds.length, 0) := by
    simp only [PlaylistClock.locate, Option.getD_some, h.measured.durations, List.length_map]
    exact walk_eq
  rw [hplain]
  simp only [ProgrammeClock.locate, Option.getD_some, h.measured.durations, List.length_map]
  by_cases hend : ds.sum ≤ e
  · rw [if_pos ((h.measured.endedAt_iff e).mpr (by rwa [hitems])),
      walkChannel_past h.measured.pos (by rwa [zero_add])]
    rfl
  · have hnot : ¬v.clock.endedAt e = true :=
      fun hended => hend (by rw [← hitems]; exact (h.measured.endedAt_iff e).mp hended)
    have hlength : 0 < ds.sum := he.trans_lt (not_le.mp hend)
    have htime : v.clock.channelTime e = e := by
      simp [ProgrammeClock.channelTime, hun.anchorPerceived, hun.anchorPresented, he]
    have hlap : ⌊e / ds.sum⌋ = 0 := by
      rw [Int.floor_eq_zero_iff]
      exact ⟨div_nonneg he hlength.le, (div_lt_one hlength).mpr (not_le.mp hend)⟩
    obtain ⟨localIdx, d, _, _, _, hwalk⟩ := walkChannel_found 0 he
      (show e < 0 + ds.sum by rw [zero_add]; exact not_le.mp hend)
    have hpos : v.clock.presented e =
        some ⟨0, 0 + localIdx, e - (0 + (ds.take localIdx).sum)⟩ := by
      simp only [ProgrammeClock.presented, hun.channel, h.measured.channelLength_eq, hitems,
        if_neg (not_le.mpr hlength), htime, hlap, h.measured.channelDurations_eq, hseg,
        Int.cast_zero, zero_mul, sub_zero, hwalk]
    rw [if_neg hnot, hpos, hwalk]
    rfl

/-- A viewing about to begin. -/
def begin (c : ProgrammeClock) (now : ℚ) : Viewing := ⟨c, now, 0⟩

end Viewing

namespace ProgrammeClock

variable {c c' : ProgrammeClock} {segments : Option (List (ℕ × ℕ))} {runs : List (ℕ × ℕ)}

/-- A clock nobody has started, held or moved. -/
structure Fresh (c : ProgrammeClock) (runs : List (ℕ × ℕ)) : Prop where
  origin : c.origin = none
  pauseStarted : c.pauseStarted = none
  pausedTotal : c.pausedTotal = 0
  unmoved : Viewing.Unmoved c runs

theorem Fresh.setDuration (h : c.Fresh runs) (idx : ℕ) (seconds : ℚ) :
    (c.setDuration idx seconds).Fresh runs := by
  have hsame : ∃ ds, c.toPlaylistClock.setDuration idx seconds =
      { c.toPlaylistClock with durations := ds } := by
    unfold PlaylistClock.setDuration
    split
    · split_ifs
      · exact ⟨_, rfl⟩
      · exact ⟨_, rfl⟩
    · exact ⟨_, rfl⟩
  obtain ⟨ds, hds⟩ := hsame
  refine ⟨?_, ?_, ?_, ⟨h.unmoved.segments, h.unmoved.channel, h.unmoved.anchorPerceived,
    h.unmoved.anchorPresented⟩⟩
  · exact (congrArg PlaylistClock.origin hds).trans h.origin
  · exact (congrArg PlaylistClock.pauseStarted hds).trans h.pauseStarted
  · exact (congrArg PlaylistClock.pausedTotal hds).trans h.pausedTotal

/-- Probing fills the durations in from the first that is not known. -/
theorem probeDurations_fresh {pre rest : List ℚ} (h : c.Fresh runs) (hpos : ∀ d ∈ rest, 0 < d)
    (hdur : c.durations = pre.map some ++ List.replicate rest.length none) :
    (c.probeDurations pre.length rest).durations = (pre ++ rest).map some ∧
      (c.probeDurations pre.length rest).Fresh runs := by
  induction rest generalizing c pre with
  | nil => exact ⟨by simpa [probeDurations] using hdur, h⟩
  | cons d ds ih =>
    have hd := hpos d (by simp)
    have hget : c.durations[pre.length]? = some none := by
      rw [hdur, List.getElem?_append_right (by simp)]
      simp [List.replicate_succ]
    have hset : (c.setDuration pre.length d).durations =
        (pre ++ [d]).map some ++ List.replicate ds.length none := by
      simp only [setDuration, withClock, PlaylistClock.setDuration, hget, if_pos hd]
      rw [hdur, List.set_append_right _ _ (by simp)]
      simp [List.replicate_succ]
    have hlen : pre.length + 1 = (pre ++ [d]).length := by simp
    have hnext := ih (h.setDuration pre.length d) (fun e he => hpos e (by simp [he])) hset
    simp only [probeDurations, hlen]
    simpa using hnext

theorem new_fresh {n : ℕ} (h : new n segments = .ok c) :
    c.durations = List.replicate n none ∧ c.Fresh c.segments := by
  unfold new at h
  dsimp only at h
  split_ifs at h
  cases h
  exact ⟨rfl, rfl, rfl, rfl, rfl, rfl, rfl, rfl⟩

theorem measuredProgramme_playing (hpos : ∀ d ∈ ds, 0 < d) (now : ℚ)
    (h : measuredProgramme ds segments = .ok c) :
    (Viewing.begin c now).Playing ds ∧ Viewing.Unmoved c c.segments := by
  unfold measuredProgramme at h
  cases hnew : new ds.length segments with
  | error e => rw [hnew] at h; cases h
  | ok c₀ =>
    rw [hnew] at h
    cases h
    obtain ⟨hdur, hfresh⟩ := new_fresh hnew
    obtain ⟨hall, hprobed⟩ := probeDurations_fresh hfresh hpos
      (show c₀.durations = ([] : List ℚ).map some ++ List.replicate ds.length none from hdur)
    have hreads : (c₀.probeDurations 0 ds).toPlaylistClock.Reads now 0 := by
      refine ⟨le_rfl, fun _ => ⟨rfl, hprobed.pausedTotal, hprobed.pauseStarted⟩, ?_, ?_⟩
      · intro o ho
        exact absurd (hprobed.origin.symm.trans ho) (by simp)
      · intro o ho
        exact absurd (hprobed.origin.symm.trans ho) (by simp)
    exact ⟨⟨⟨hall, hpos⟩, hreads⟩, rfl, hprobed.unmoved.channel, hprobed.unmoved.anchorPerceived,
      hprobed.unmoved.anchorPresented⟩

end ProgrammeClock

variable {segments : Option (List (ℕ × ℕ))} {c : ProgrammeClock}

/-- In every run of a measured programme the clock reads the time nobody held it and ends by that
time alone; positions lie in the current channel, seeks land on item starts, the epoch tells every
jump apart, and a single channel that was never moved is the plain playlist. -/
theorem programme_clock (hpos : ∀ d ∈ ds, 0 < d)
    (hc : measuredProgramme ds segments = .ok c) (now : ℚ) (ops : List Op) :
    let v := (Viewing.begin c now).run ops
    v.clock.elapsed v.now = v.perceived ∧
      (v.clock.ended v.now = true ↔ (c.items ds 0).sum ≤ v.perceived) ∧
      (v.clock.ended v.now = false →
        ∃ localIdx d, localIdx < (v.clock.segment v.clock.channel).2 ∧
          (v.clock.locate none v.now).1 = (v.clock.segment v.clock.channel).1 + localIdx ∧
          ds[(v.clock.locate none v.now).1]? = some d ∧
          0 ≤ (v.clock.locate none v.now).2 ∧ (v.clock.locate none v.now).2 < d) ∧
      (c.segments.length = 1 → (∀ op ∈ ops, Viewing.StaysPut op) → ∀ e, 0 ≤ e →
        v.clock.locate (some e) v.now = v.clock.toPlaylistClock.locate (some e) v.now) ∧
      (∀ k, ∃ pos localIdx c', v.clock.presented v.perceived = some pos ∧
        localIdx < (v.clock.segment v.clock.channel).2 ∧
        (localIdx : ℤ) = ((pos.item : ℤ) - (v.clock.segment v.clock.channel).1 + k) %
          (v.clock.segment v.clock.channel).2 ∧
        v.clock.seek k v.now = .ok (c', (v.clock.segment v.clock.channel).1 + localIdx) ∧
        c'.channel = v.clock.channel ∧
        c'.presented v.perceived = some ⟨0, (v.clock.segment v.clock.channel).1 + localIdx, 0⟩) ∧
      ∀ more, (v.run more).epoch = v.epoch ↔ v.JumpFree ds more := by
  obtain ⟨hbegin, hunmoved⟩ := ProgrammeClock.measuredProgramme_playing hpos now hc
  have hplay := hbegin.run ops
  have hitems : (((Viewing.begin c now).run ops).clock.items ds 0) = c.items ds 0 := by
    have hsegments := Viewing.run_segments (Viewing.begin c now) ops
    simp only [ProgrammeClock.items, ProgrammeClock.segment, hsegments]
    rfl
  have hended := hplay.ended_iff
  rw [hitems] at hended
  refine ⟨hplay.reads.elapsed, hended, hplay.locate_mem, ?_, hplay.seek_lands,
    fun more => (hplay.run_epoch more).2⟩
  intro hone hput e he
  obtain ⟨n, hn⟩ := List.length_eq_one_iff.mp hone
  exact hplay.locate_plain (Viewing.unmoved_run (hn ▸ hunmoved) ops hput) he

/-- Twelve seconds into a programme of a ten and a twenty second item. -/
theorem programme_clock_pair : ∃ c, measuredProgramme [10, 20] none = .ok c ∧
    let v := (Viewing.begin c 0).run [.start, .wait 12]
    v.clock.elapsed v.now = v.perceived ∧
      (v.clock.ended v.now = true ↔ (c.items [10, 20] 0).sum ≤ v.perceived) := by
  have hpos : ∀ d ∈ ([10, 20] : List ℚ), 0 < d := by simp
  have hok : (measuredProgramme [10, 20] none).isOk = true := by decide
  cases hc : measuredProgramme [10, 20] none with
  | error e => rw [hc] at hok; cases hok
  | ok c =>
    obtain ⟨hreads, hended, _⟩ := programme_clock hpos hc 0 [.start, .wait 12]
    exact ⟨c, rfl, hreads, hended⟩

/-- On a single channel a switch to that channel is taken: it returns to the first item's start,
though nothing sought. -/
theorem switch_restarts_single_channel :
    ((measuredProgramme [10] none).toOption.map fun c =>
      let v := (Viewing.begin c 0).run [.start, .wait 3, .switchChannel 0]
      (c.segments.length, v.clock.locate (some 3) v.now,
        v.clock.toPlaylistClock.locate (some 3) v.now)) = some (1, (0, 0), (0, 3)) := by
  decide +kernel

end Kaine.Effectors
