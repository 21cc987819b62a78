import Kaine.Lifecycle.LivedTime
import Kaine.Lib.Transition
import Mathlib.Algebra.Order.Group.Basic
import Mathlib.Algebra.Order.Group.Int
import Mathlib.Tactic.Abel

/-! Lived time against unpaused time: a span is counted without its pauses where one source is read
at both of its ends, and with them where the source was replaced between. -/
namespace Kaine.LivedTime
open Transition LivedTimeAccumulator

variable {T : Type} [AddCommGroup T] [LinearOrder T] {s t : System T} {w v : World T}
  {clock paused : Outcome}

theorem positive_of_nonneg {d : T} (h : 0 ≤ d) : positive (some d) = d := by
  by_cases hpos : 0 < d
  · simp [positive, hpos]
  · simp [positive, le_antisymm h (not_lt.mp hpos)]

theorem positive_nonneg (d : Option T) : 0 ≤ positive d := by
  cases d with
  | none => exact le_rfl
  | some d =>
    by_cases hpos : 0 < d
    · simp [positive, hpos, hpos.le]
    · simp [positive, hpos]

/-- No step counts backwards. -/
theorem step_nonneg (a : LivedTimeAccumulator T) (clock paused : Reading T) :
    0 ≤ (a.step clock paused).1 := by
  unfold step
  split
  · split
    · exact le_rfl
    · split
      · exact le_rfl
      · split
        · exact le_rfl
        · exact positive_nonneg _
  · exact le_rfl

section
variable {a : LivedTimeAccumulator T} {c p : Reading T} {now : Option T} {read : Option T}

theorem step_no_number (h : a.hasClock = false ∨ c.number = none) : a.step c p = (0, a) := by
  rcases h with h | h
  · simp [step, h]
  · simp [step, h]

theorem step_no_paused (hc : a.hasClock = true) (hn : c.number = some now)
    (hp : a.readPaused p = none) :
    a.step c p = (0, { a with clockBaseline := none, pausedBaseline := none }) := by
  simp [step, hc, hn, hp]

theorem step_first (hc : a.hasClock = true) (hn : c.number = some now)
    (hp : a.readPaused p = some read) (hb : a.clockBaseline = none) :
    a.step c p =
      (0, { a with clockBaseline := some now, pausedBaseline := some (read.getD 0) }) := by
  simp [step, hc, hn, hp, hb]

theorem step_span {baseline : Option T} (hc : a.hasClock = true) (hn : c.number = some now)
    (hp : a.readPaused p = some read) (hb : a.clockBaseline = some baseline) :
    a.step c p = (positive (a.delta now baseline read),
      { a with clockBaseline := some now, pausedBaseline := read.or a.pausedBaseline }) := by
  simp [step, hc, hn, hp, hb]

end

theorem World.Later.refl (w : World T) : w.Later w := ⟨le_rfl, le_rfl, le_rfl⟩

theorem World.Later.trans {u : World T} (h : w.Later v) (h' : v.Later u) : w.Later u :=
  ⟨h.now.trans h'.now, h.paused.trans h'.paused, h.unpaused.trans h'.unpaused⟩

/-- The anchors of an accumulator are those of the world that its last good step saw. -/
structure AnchoredAt (s : System T) (b : World T) : Prop where
  clock : s.acc.clockBaseline = some (some b.now)
  paused : ∀ o, s.source = some o →
    s.acc.pausedBaseline = if s.replaced then none else some (b.paused + o)
  later : b.Later s.world

/-- What a run has counted so far. -/
structure Sound (s : System T) : Prop where
  wired : s.acc.hasPausedSource = s.source.isSome
  unanchored : s.first = none → s.base = none ∧ s.acc.clockBaseline = none ∧ s.total = 0 ∧
    s.unmeasured = 0
  baseless : s.base = none → s.acc.clockBaseline = none ∨ s.acc.clockBaseline = some none
  anchored : ∀ b, s.base = some b → AnchoredAt s b
  within : ∀ f, s.first = some f →
    s.total ≤ (s.base.getD s.world).unpaused - f.unpaused + s.unmeasured
  exact : s.failed = false → (s.first = none ∨ s.base = some s.world) ∧
    ∀ f, s.first = some f → s.total = s.world.unpaused - f.unpaused + s.unmeasured

/-! ### What a step reads -/

omit [AddCommGroup T] [LinearOrder T] in
theorem number_reading (h : clock ≠ .fails) (value : T) :
    (clock.reading value).number = some (if clock = .ok then some value else none) := by
  cases clock with
  | fails => exact absurd rfl h
  | nonFinite | ok => rfl

omit [AddCommGroup T] [LinearOrder T] in
theorem anchors_iff : s.anchors clock paused = true ↔
    s.acc.hasClock = true ∧ clock ≠ .fails ∧ (s.source = none ∨ paused = .ok) := by
  simp [System.anchors, and_assoc]

omit [LinearOrder T] in
theorem readPaused_anchors (hw : s.acc.hasPausedSource = s.source.isSome)
    (h : s.anchors clock paused = true) (world : World T) :
    s.acc.readPaused (paused.reading (world.paused + s.source.getD 0)) =
      some (s.source.map (world.paused + ·)) := by
  obtain ⟨-, -, hp⟩ := anchors_iff.mp h
  cases hs : s.source with
  | none => cases paused <;> simp [readPaused, Outcome.reading, hw, hs]
  | some o =>
    obtain rfl : paused = .ok := by simpa [hs] using hp
    simp [readPaused, Outcome.reading, hw, hs]

/-- Without a number from its sources a step counts nothing, and drops its anchors unless it is the
clock that failed. -/
theorem step_unread (hw : s.acc.hasPausedSource = s.source.isSome)
    (h : s.anchors clock paused = false) (world : World T) :
    s.acc.step (clock.reading world.now) (paused.reading (world.paused + s.source.getD 0)) =
      (0, if s.acc.hasClock && clock ≠ .fails then
        { s.acc with clockBaseline := none, pausedBaseline := none } else s.acc) := by
  by_cases hread : s.acc.hasClock = true ∧ clock ≠ .fails
  · obtain ⟨hc, hf⟩ := hread
    have hp : s.source.isSome = true ∧ paused ≠ .ok := by
      simpa [System.anchors, hc, hf, Option.isSome_iff_ne_none] using h
    have hpaused : s.acc.readPaused (paused.reading (world.paused + s.source.getD 0)) = none := by
      cases paused with
      | ok => exact absurd rfl hp.2
      | fails | nonFinite => simp [readPaused, Outcome.reading, hw, hp.1]
    rw [step_no_paused hc (number_reading hf _) hpaused, if_pos (by simp [hc, hf])]
  · rw [step_no_number, if_neg (by simpa using hread)]
    by_cases hc : s.acc.hasClock = true
    · obtain rfl : clock = .fails := by simpa [hc] using hread
      exact .inr rfl
    · exact .inl (by simpa using hc)

/-- The paused time at an anchor, as the source wired there counts it. -/
def pausedAnchor (s : System T) (world : World T) : Option T :=
  s.source.map (world.paused + ·)

theorem step_anchors (hw : s.acc.hasPausedSource = s.source.isSome)
    (h : s.anchors clock paused = true) (world : World T) :
    ∃ value anchor, s.acc.step (clock.reading world.now)
        (paused.reading (world.paused + s.source.getD 0)) =
      (value, { s.acc with
        clockBaseline := some (if clock = .ok then some world.now else none)
        pausedBaseline := (pausedAnchor s world).or anchor }) := by
  obtain ⟨hc, hf, -⟩ := anchors_iff.mp h
  have hp := readPaused_anchors hw h world
  cases hb : s.acc.clockBaseline with
  | none =>
    refine ⟨0, some 0, ?_⟩
    rw [step_first hc (number_reading hf _) hp hb]
    cases hs : s.source <;> simp [pausedAnchor, hs]
  | some baseline =>
    exact ⟨_, s.acc.pausedBaseline, step_span hc (number_reading hf _) hp hb⟩

/-- What a step counts. -/
def counted (s : System T) (world : World T) (clock paused : Outcome) : T :=
  (s.acc.step (clock.reading world.now) (paused.reading (world.paused + s.source.getD 0))).1

omit [LinearOrder T] in
theorem delta_none {a : LivedTimeAccumulator T} {now baseline read : Option T}
    (h : now = none ∨ baseline = none) : a.delta now baseline read = none := by
  rcases h with rfl | rfl
  · rfl
  · cases now <;> rfl

/-- Nothing is counted of a span without a finite reading of the clock at both ends. -/
theorem counted_zero (hw : s.acc.hasPausedSource = s.source.isSome)
    (h : clock ≠ .ok ∨ s.anchors clock paused = false ∨ s.acc.clockBaseline = none ∨
      s.acc.clockBaseline = some none) (world : World T) :
    counted s world clock paused = 0 := by
  cases ha : s.anchors clock paused with
  | false => rw [counted, step_unread hw ha]
  | true =>
    obtain ⟨hc, hf, -⟩ := anchors_iff.mp ha
    have hp := readPaused_anchors hw ha world
    cases hb : s.acc.clockBaseline with
    | none => rw [counted, step_first hc (number_reading hf _) hp hb]
    | some baseline =>
      rw [counted, step_span hc (number_reading hf _) hp hb, delta_none]
      · rfl
      · rcases h with hok | h | h | h
        · exact .inl (if_neg hok)
        · exact absurd (ha.symm.trans h) (by simp)
        · exact absurd (hb.symm.trans h) (by simp)
        · exact .inr (Option.some.inj (hb.symm.trans h))

section
variable [IsOrderedAddMonoid T]

/-- Of a span with both, the unpaused time is counted, and the paused time too where no one source
was read at both ends. -/
theorem counted_span {b : World T} (hs : Sound s) (hb : s.base = some b)
    (ha : s.anchors .ok paused = true) (hl : s.world.Later w) :
    counted s w .ok paused = w.unpaused - b.unpaused + s.unmeasuredSpan w := by
  obtain ⟨hc, hf, -⟩ := anchors_iff.mp ha
  have hp := readPaused_anchors hs.wired ha w
  have hat := hs.anchored b hb
  have hlater : b.Later w := hat.later.trans hl
  rw [counted, step_span hc (number_reading hf _) hp hat.clock]
  have hspan : 0 ≤ w.unpaused - b.unpaused := sub_nonneg.mpr hlater.unpaused
  have hpause : 0 ≤ w.paused - b.paused := sub_nonneg.mpr hlater.paused
  have hplain : w.now - b.now = w.unpaused - b.unpaused + (w.paused - b.paused) := by
    unfold World.unpaused
    abel
  have hpositive : 0 ≤ s.unmeasuredSpan w := by
    unfold System.unmeasuredSpan
    rw [hb]
    by_cases hmeasured : (s.source.isNone || s.replaced) = true
    · simpa [hmeasured] using hpause
    · simp [hmeasured]
  have hdelta : s.acc.delta (some w.now) (some b.now) (s.source.map (w.paused + ·)) =
      some (w.unpaused - b.unpaused + s.unmeasuredSpan w) := by
    cases hsource : s.source with
    | none => simp [delta, System.unmeasuredSpan, hb, hsource, hplain]
    | some o =>
      have hpaused := hat.paused o hsource
      cases hr : s.replaced with
      | true =>
        rw [hr] at hpaused
        simp [delta, System.unmeasuredSpan, hb, hr, hpaused, hplain]
      | false =>
        rw [hr] at hpaused
        simp [delta, System.unmeasuredSpan, hb, hsource, hr, hpaused, hplain]
  rw [if_pos rfl, hdelta, positive_of_nonneg (add_nonneg hspan hpositive)]

/-! ### What every run keeps -/

omit [IsOrderedAddMonoid T] in
theorem base_unpaused_le (hs : Sound s) (hl : s.world.Later w) :
    (s.base.getD s.world).unpaused ≤ w.unpaused := by
  cases hb : s.base with
  | none => exact hl.unpaused
  | some b => exact (hs.anchored b hb).later.unpaused.trans hl.unpaused

/-- The bound of a span whose end is no anchor. -/
theorem within_later (hs : Sound s) (hl : s.world.Later w) {f : World T} (hf : s.first = some f) :
    s.total ≤ w.unpaused - f.unpaused + s.unmeasured :=
  (hs.within f hf).trans (by gcongr; exact base_unpaused_le hs hl)

theorem sound_unread (hs : Sound s) (hl : s.world.Later w) (ha : s.anchors clock paused = false) :
    Sound (s.read w clock paused) := by
  have hvalue : counted s w clock paused = 0 := counted_zero hs.wired (.inr (.inl ha)) w
  unfold counted at hvalue
  have hacc := congrArg Prod.snd (step_unread hs.wired ha w)
  by_cases hdrop : (s.acc.hasClock && clock ≠ .fails) = true
  · rw [if_pos hdrop] at hacc
    simp only [System.read, ha, hvalue, hacc, hdrop]
    constructor
    · exact hs.wired
    · intro hf
      obtain ⟨-, -, ht, hu⟩ := hs.unanchored hf
      simpa using ⟨ht, hu⟩
    · exact fun _ => .inl rfl
    · intro b hb
      simp at hb
    · intro f hf
      simpa using within_later hs hl hf
    · simp
  · rw [if_neg hdrop] at hacc
    simp only [System.read, ha, hvalue, hacc, hdrop]
    constructor
    · exact hs.wired
    · intro hf
      simpa using hs.unanchored hf
    · intro hb
      exact hs.baseless (by simpa using hb)
    · intro b hb
      have hat := hs.anchored b (by simpa using hb)
      exact ⟨hat.clock, fun o ho => by simpa using hat.paused o ho, hat.later.trans hl⟩
    · intro f hf
      have hwithin := within_later hs hl hf
      cases hb : s.base with
      | none => simpa using hwithin
      | some b => simpa [hb] using hs.within f hf
    · simp

theorem sound_nonFinite (hs : Sound s) (hl : s.world.Later w)
    (ha : s.anchors clock paused = true) (hok : clock ≠ .ok) :
    Sound (s.read w clock paused) := by
  have hvalue : counted s w clock paused = 0 := counted_zero hs.wired (.inl hok) w
  unfold counted at hvalue
  obtain ⟨value, anchor, hstep⟩ := step_anchors hs.wired ha w
  have hacc := congrArg Prod.snd hstep
  obtain ⟨hc, hf, -⟩ := anchors_iff.mp ha
  simp only [System.read, ha, hvalue, hacc, hok]
  constructor
  · exact hs.wired
  · intro hfirst
    simp at hfirst
  · exact fun _ => .inr (by simp)
  · intro b hb
    simp [hc, hf] at hb
  · intro f hfirst
    cases hold : s.first with
    | none =>
      obtain rfl : w = f := by simpa [hold] using hfirst
      obtain ⟨-, -, ht, hu⟩ := hs.unanchored hold
      simp [hc, hf, ht, hu]
    | some f' =>
      obtain rfl : f' = f := by simpa [hold] using hfirst
      simpa [hc, hf] using within_later hs hl hold
  · simp

theorem sound_good (hs : Sound s) (hl : s.world.Later w) (ha : s.anchors .ok paused = true) :
    Sound (s.read w .ok paused) := by
  obtain ⟨value, anchor, hstep⟩ := step_anchors hs.wired ha w
  have hacc := congrArg Prod.snd hstep
  -- the sum at an anchor, from the sum at the one before
  have hsum : ∀ f, s.first.or (some w) = some f →
      s.total + counted s w .ok paused ≤
        w.unpaused - f.unpaused + (s.unmeasured + s.unmeasuredSpan w) ∧
      (s.failed = false → s.total + counted s w .ok paused =
        w.unpaused - f.unpaused + (s.unmeasured + s.unmeasuredSpan w)) := by
    intro f hfirst
    cases hb : s.base with
    | some b =>
      have hfirst' : s.first = some f := by
        cases hold : s.first with
        | none => exact absurd (hb.symm.trans (hs.unanchored hold).1) (by simp)
        | some f' => simpa [hold] using hfirst
      rw [counted_span hs hb ha hl]
      constructor
      · have hwithin := hs.within f hfirst'
        rw [hb, Option.getD_some] at hwithin
        calc s.total + (w.unpaused - b.unpaused + s.unmeasuredSpan w)
            ≤ b.unpaused - f.unpaused + s.unmeasured +
              (w.unpaused - b.unpaused + s.unmeasuredSpan w) := by gcongr
          _ = w.unpaused - f.unpaused + (s.unmeasured + s.unmeasuredSpan w) := by abel
      · intro hfailed
        obtain ⟨hbase, htotal⟩ := hs.exact hfailed
        obtain rfl : b = s.world := by
          rcases hbase with hnone | hbase
          · exact absurd (hnone.symm.trans hfirst') (by simp)
          · exact Option.some.inj (hb.symm.trans hbase)
        rw [htotal f hfirst']
        abel
    | none =>
      have hzero : counted s w .ok paused = 0 :=
        counted_zero hs.wired (.inr (.inr (hs.baseless hb))) w
      have hspan : s.unmeasuredSpan w = 0 := by rw [System.unmeasuredSpan, hb]
      rw [hzero, hspan, add_zero, add_zero]
      cases hold : s.first with
      | none =>
        obtain rfl : w = f := by simpa [hold] using hfirst
        obtain ⟨-, -, ht, hu⟩ := hs.unanchored hold
        simp [ht, hu]
      | some f' =>
        obtain rfl : f' = f := by simpa [hold] using hfirst
        refine ⟨within_later hs hl hold, fun hfailed => ?_⟩
        obtain ⟨hbase, -⟩ := hs.exact hfailed
        simp [hold, hb] at hbase
  unfold counted at hsum
  simp only [System.read, ha, hacc]
  constructor
  · exact hs.wired
  · intro hfirst
    simp at hfirst
  · intro hb
    simp at hb
  · intro b hb
    obtain rfl : w = b := by simpa using hb
    refine ⟨rfl, fun o ho => ?_, .refl w⟩
    have ho' : s.source = some o := ho
    simp [pausedAnchor, ho']
  · intro f hfirst
    simpa using (hsum f (by simpa using hfirst)).1
  · intro hfailed
    refine ⟨.inr rfl, fun f hfirst => ?_⟩
    simpa using (hsum f (by simpa using hfirst)).2 (by simpa using hfailed)

theorem sound_step {move : Move T} (hs : Sound s) (h : move.Allowed s) : Sound (s.step move) := by
  cases move with
  | read world clock paused =>
    cases ha : s.anchors clock paused with
    | false => exact sound_unread hs h ha
    | true =>
      by_cases hok : clock = .ok
      · subst hok
        exact sound_good hs h ha
      · exact sound_nonFinite hs h ha hok
  | setPausedSource source =>
    refine ⟨rfl, hs.unanchored, hs.baseless, fun b hb => ?_, hs.within, hs.exact⟩
    exact ⟨(hs.anchored b hb).clock, fun _ _ => rfl, (hs.anchored b hb).later⟩

omit [IsOrderedAddMonoid T] in
theorem sound_initial (hasClock : Bool) (source : Option T) (world : World T) :
    Sound (System.initial hasClock source world) := by
  constructor
  · rfl
  · exact fun _ => ⟨rfl, rfl, rfl, rfl⟩
  · exact fun _ => .inl rfl
  · intro b hb
    cases hb
  · intro f hf
    cases hf
  · exact fun _ => ⟨.inl rfl, fun f hf => by cases hf⟩

omit [IsOrderedAddMonoid T] in
/-- A source that is never replaced leaves no span unmeasured. -/
theorem measured_read (h : s.source.isSome = true ∧ s.replaced = false ∧ s.unmeasured = 0) :
    (s.read w clock paused).source.isSome = true ∧ (s.read w clock paused).replaced = false ∧
      (s.read w clock paused).unmeasured = 0 := by
  obtain ⟨hsource, hreplaced, hunmeasured⟩ := h
  have hspan : s.unmeasuredSpan w = 0 := by
    unfold System.unmeasuredSpan
    cases s.base with
    | none => rfl
    | some b => simp [hreplaced, Option.isSome_iff_ne_none.mp hsource]
  refine ⟨hsource, ?_, ?_⟩
  · simp [System.read, hreplaced]
  · simp [System.read, hspan, hunmeasured]

theorem sound_run {hasClock : Bool} {source : Option T} {world : World T} {moves : List (Move T)}
    (h : Run Step (System.initial hasClock source world) moves s) : Sound s := by
  refine h.invariant (fun hstep hs => ?_) (sound_initial hasClock source world)
  obtain ⟨hallowed, rfl⟩ := hstep
  exact sound_step hs hallowed

omit [IsOrderedAddMonoid T] in
theorem unmeasured_run {moves : List (Move T)} (h : Run Step s moves t)
    (hmoves : ∀ move ∈ moves, move.isRead = true)
    (hs : s.source.isSome = true ∧ s.replaced = false ∧ s.unmeasured = 0) :
    t.unmeasured = 0 := by
  induction h with
  | refl => exact hs.2.2
  | @head s s' t move moves hstep _ ih =>
    obtain ⟨hmove, hrest⟩ := List.forall_mem_cons.mp hmoves
    cases move with
    | read world clock paused => exact ih hrest (hstep.2 ▸ measured_read hs)
    | setPausedSource source => cases hmove

/-- No step counts backwards. Since the first anchor a run counts at most the unpaused time and the
paused time of the spans over which no one source was read at both ends, and just that where no
source has failed; no such span there is while the first source stays wired. -/
theorem lived_le_unpaused {hasClock : Bool} {source : Option T} {world : World T}
    {moves : List (Move T)} (h : Run Step (System.initial hasClock source world) moves s) :
    (∀ clock paused, 0 ≤ (s.acc.step clock paused).1) ∧
    (s.first = none → s.total = 0) ∧
    (∀ f, s.first = some f → s.total ≤ s.world.unpaused - f.unpaused + s.unmeasured) ∧
    (s.failed = false →
      ∀ f, s.first = some f → s.total = s.world.unpaused - f.unpaused + s.unmeasured) ∧
    (source.isSome = true → (∀ move ∈ moves, move.isRead = true) → s.unmeasured = 0) := by
  have hs := sound_run h
  refine ⟨step_nonneg s.acc, fun hf => (hs.unanchored hf).2.2.1, ?_, ?_, ?_⟩
  · exact fun f hf => within_later hs (.refl _) hf
  · exact fun hfailed => (hs.exact hfailed).2
  · exact fun hsource hmoves => unmeasured_run h hmoves ⟨hsource, rfl, rfl⟩

end

section
/-- The clock and the cycle's paused seconds are read, the cycle is frozen for ten seconds, and its
paused seconds are wired anew before the next tick. -/
def rewired : List (Move ℤ) :=
  [.read ⟨0, 0⟩ .ok .ok, .setPausedSource (some 0), .read ⟨10, 10⟩ .ok .ok]

/-- What the accumulator has come to by the second tick. -/
def rewiredEnd : System ℤ := rewired.foldl System.step (.initial true (some 0) ⟨0, 0⟩)

theorem rewired_run : Run Step (System.initial true (some 0) ⟨0, 0⟩) rewired rewiredEnd := by
  refine .head ⟨.refl _, rfl⟩ (.head ⟨trivial, rfl⟩ (.head ⟨?_, rfl⟩ (.refl _)))
  constructor <;> decide

theorem lived_le_unpaused_rewired :
    rewiredEnd.total = rewiredEnd.world.unpaused - 0 + rewiredEnd.unmeasured :=
  (lived_le_unpaused rewired_run).2.2.2.1 (by decide) ⟨0, 0⟩ (by decide)

/-- No source fails, and all of the freeze is counted as lived. -/
theorem rewired_counts_freeze : ∃ s : System ℤ,
    Run Step (System.initial true (some 0) ⟨0, 0⟩) rewired s ∧ s.failed = false ∧
      ∃ f, s.first = some f ∧ s.world.unpaused - f.unpaused = 0 ∧ s.total = 10 :=
  ⟨rewiredEnd, rewired_run, by decide, ⟨0, 0⟩, by decide, by decide, by decide⟩

end

end Kaine.LivedTime
