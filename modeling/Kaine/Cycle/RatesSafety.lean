import Kaine.Cycle.Rates
import Mathlib.Tactic.Linarith

/-! When a `cycle.set_rates` command is atomic, and which runs keep the rates sound. -/
namespace Kaine.RateControl
open Py Transition

variable {ofText : String → Option PyFloat} {payload : Dict} {key : String} {s t : Rates}
  {updated : Bool}

/-- What one key of a payload asks for. -/
inductive Reading where
  | absent
  /-- Not a number, or a number that is not positive. -/
  | refused
  /-- An integer too large for a float, whose `OverflowError` nothing catches. -/
  | raises
  /-- A NaN or an infinity, which the test for a positive rate lets through. -/
  | undefined (x : PyFloat)
  | rate (q : ℚ)
  deriving DecidableEq

def reading (ofText : String → Option PyFloat) (payload : Dict) (key : String) : Reading :=
  match requestedRate ofText payload key with
  | .error .typeError | .error .valueError => .refused
  | .error _ => .raises
  | .ok none => .absent
  | .ok (some x) =>
    if x.le (.fin 0) then .refused
    else
      match x with
      | .fin q => .rate q
      | x => .undefined x

/-- A named rate holds the requested finite positive value. -/
def Granted (ofText : String → Option PyFloat) (payload : Dict) (key : String) (held : PyFloat) :
    Prop :=
  payload.lookup key ≠ none →
    ∃ q, 0 < q ∧ requestedRate ofText payload key = .ok (some (.fin q)) ∧ held = .fin q

/-- The command returns true and grants every rate it names, or returns false and changes
nothing. -/
def Atomic (ofText : String → Option PyFloat) (payload : Dict) (s : Rates) : Prop :=
  let r := applyRateControlEvent ofText payload s
  (r.1 = .ok true ∧ Granted ofText payload "processing_rate_hz" r.2.processingRate ∧
    Granted ofText payload "experiential_rate_hz" r.2.experientialRate) ∨
  (r.1 = .ok false ∧ r.2 = s)

/-- A request for the processing rate in force. -/
def InForce (hz : PyFloat) (s : Rates) : Prop :=
  s.processingRate = hz ∧ s.targetTickPeriod = hz.recip

/-- The payloads that a state takes atomically. A processing rate in front of a refused
experiential rate must be the one in force. -/
def AtomicWhen (ofText : String → Option PyFloat) (payload : Dict) (s : Rates) : Prop :=
  match reading ofText payload "processing_rate_hz",
    reading ofText payload "experiential_rate_hz" with
  | .refused, _ => True
  | .absent, .absent | .absent, .refused | .absent, .rate _ => True
  | .rate _, .absent | .rate _, .rate _ => True
  | .rate p, .refused => InForce (.fin p) s
  | .undefined x, .refused => InForce x s
  | _, _ => False

/-- Both rates are finite and positive, and the period is the inverse of the first. -/
def Sound (s : Rates) : Prop :=
  ∃ p e : ℚ, 0 < p ∧ 0 < e ∧ s.processingRate = .fin p ∧ s.targetTickPeriod = .fin (1 / p) ∧
    s.experientialRate = .fin e

/-- The calls that keep the rates sound: payloads that are taken atomically, and setters
whose argument is neither a NaN nor the positive infinity. -/
def StepOk (ofText : String → Option PyFloat) (s : Rates) : RateOp → Prop
  | .setRates payload => AtomicWhen ofText payload s
  | .setProcessingRate hz | .setExperientialRate hz => hz ≠ .nan ∧ hz ≠ .posInf
  | .reduceRate | .updateAccessRate _ => True

/-- The rates that a constructor call leaves, with neither argument a NaN or an infinity. -/
def Initial (s : Rates) : Prop :=
  ∃ p e accessRate, init p e accessRate = .ok s ∧ p.isFinite = true ∧
    e.all PyFloat.isFinite = true

theorem pos_of_not_le {x : PyFloat} (h : ¬ x.le (.fin 0) = true) :
    x = .nan ∨ x = .posInf ∨ ∃ q, 0 < q ∧ x = .fin q := by
  cases x with
  | nan => exact Or.inl rfl
  | negInf => exact absurd rfl h
  | posInf => exact Or.inr (Or.inl rfl)
  | fin q => exact Or.inr (Or.inr ⟨q, by simpa using h, rfl⟩)

/-- What a reading says of the conversion behind it. -/
theorem reading_spec (ofText : String → Option PyFloat) (payload : Dict) (key : String) :
    match reading ofText payload key with
    | .absent => requestedRate ofText payload key = .ok none
    | .refused => (∃ e, requestedRate ofText payload key = .error e ∧ handle e = .ok false) ∨
        ∃ x, requestedRate ofText payload key = .ok (some x) ∧ x.le (.fin 0) = true
    | .raises => ∃ e, requestedRate ofText payload key = .error e ∧ handle e = .error e
    | .undefined x => requestedRate ofText payload key = .ok (some x) ∧
        x.le (.fin 0) = false ∧ ∀ q, x ≠ .fin q
    | .rate q => requestedRate ofText payload key = .ok (some (.fin q)) ∧ 0 < q := by
  unfold reading
  cases h : requestedRate ofText payload key with
  | error e => cases e <;> simp [handle]
  | ok r =>
    cases r with
    | none => simp
    | some x =>
      by_cases hx : x.le (.fin 0) = true
      · simp [hx]
      · simp only [hx]
        rcases pos_of_not_le hx with rfl | rfl | ⟨q, hq, rfl⟩ <;> simp_all

theorem applyProcessingRate_eq_self {hz : PyFloat} :
    applyProcessingRate hz s = s ↔ InForce hz s := by
  constructor
  · intro h
    have hp := congrArg Rates.processingRate h
    have ht := congrArg Rates.targetTickPeriod h
    exact ⟨hp.symm, ht.symm⟩
  · rintro ⟨hp, ht⟩
    cases s
    simp_all [applyProcessingRate]

theorem requestedRate_none :
    requestedRate ofText payload key = .ok none ↔ payload.lookup key = none := by
  cases h : payload.lookup key with
  | none => simp [requestedRate, h]
  | some value => cases hv : value.toFloat ofText <;> simp [requestedRate, h, hv, Except.map]

/-- A key that was left out grants any rate. -/
theorem granted_of_none {held : PyFloat} (h : requestedRate ofText payload key = .ok none) :
    Granted ofText payload key held :=
  fun hne => absurd (requestedRate_none.mp h) hne

theorem granted_of_rate {q : ℚ} (h : requestedRate ofText payload key = .ok (some (.fin q)))
    (hq : 0 < q) : Granted ofText payload key (.fin q) :=
  fun _ => ⟨q, hq, h, rfl⟩

/-- A key that asks for a NaN or an infinity grants nothing. -/
theorem not_granted {x held : PyFloat} (h : requestedRate ofText payload key = .ok (some x))
    (hx : ∀ q, x ≠ .fin q) : ¬ Granted ofText payload key held := by
  intro hg
  have hne : payload.lookup key ≠ none := by
    intro hn
    rw [requestedRate_none.mpr hn] at h
    simp at h
  obtain ⟨q, _, hr, _⟩ := hg hne
  rw [h] at hr
  simp at hr
  exact hx q hr

/-- The second half by what its key asks for. -/
theorem applyExperientialPart_spec (ofText : String → Option PyFloat) (payload : Dict)
    (updated : Bool) (s : Rates) :
    match reading ofText payload "experiential_rate_hz" with
    | .absent => applyExperientialPart ofText payload updated s = (.ok updated, s)
    | .refused => applyExperientialPart ofText payload updated s = (.ok false, s)
    | .raises => ∃ e, applyExperientialPart ofText payload updated s = (.error e, s)
    | .undefined x => applyExperientialPart ofText payload updated s =
        (.ok true, applyExperientialRate x s)
    | .rate q => applyExperientialPart ofText payload updated s =
        (.ok true, applyExperientialRate (.fin q) s) := by
  have h := reading_spec ofText payload "experiential_rate_hz"
  cases hr : reading ofText payload "experiential_rate_hz" with
  | absent => simp_all [applyExperientialPart]
  | refused =>
    rw [hr] at h
    rcases h with ⟨e, he, hh⟩ | ⟨x, hx, hle⟩
    · simp [applyExperientialPart, he, hh]
    · simp [applyExperientialPart, hx, hle]
  | raises =>
    rw [hr] at h
    obtain ⟨e, he, hh⟩ := h
    exact ⟨e, by simp [applyExperientialPart, he, hh]⟩
  | undefined x => simp_all [applyExperientialPart]
  | rate q =>
    rw [hr] at h
    obtain ⟨hq, hpos⟩ := h
    simp [applyExperientialPart, hq, hpos]

/-- The whole command by what its processing key asks for. -/
theorem applyRateControlEvent_spec (ofText : String → Option PyFloat) (payload : Dict)
    (s : Rates) :
    match reading ofText payload "processing_rate_hz" with
    | .absent => applyRateControlEvent ofText payload s =
        applyExperientialPart ofText payload false s
    | .refused => applyRateControlEvent ofText payload s = (.ok false, s)
    | .raises => ∃ e, applyRateControlEvent ofText payload s = (.error e, s)
    | .undefined x => applyRateControlEvent ofText payload s =
        applyExperientialPart ofText payload true (applyProcessingRate x s)
    | .rate q => applyRateControlEvent ofText payload s =
        applyExperientialPart ofText payload true (applyProcessingRate (.fin q) s) := by
  have h := reading_spec ofText payload "processing_rate_hz"
  cases hr : reading ofText payload "processing_rate_hz" with
  | absent => simp_all [applyRateControlEvent]
  | refused =>
    rw [hr] at h
    rcases h with ⟨e, he, hh⟩ | ⟨x, hx, hle⟩
    · simp [applyRateControlEvent, he, hh]
    · simp [applyRateControlEvent, hx, hle]
  | raises =>
    rw [hr] at h
    obtain ⟨e, he, hh⟩ := h
    exact ⟨e, by simp [applyRateControlEvent, he, hh]⟩
  | undefined x => simp_all [applyRateControlEvent]
  | rate q =>
    rw [hr] at h
    obtain ⟨hq, hpos⟩ := h
    simp [applyRateControlEvent, hq, hpos]

theorem atomic_iff (ofText : String → Option PyFloat) (payload : Dict) (s : Rates) :
    Atomic ofText payload s ↔ AtomicWhen ofText payload s := by
  have hp := reading_spec ofText payload "processing_rate_hz"
  have he := reading_spec ofText payload "experiential_rate_hz"
  have hc := applyRateControlEvent_spec ofText payload s
  cases hr : reading ofText payload "processing_rate_hz" with
  | refused =>
    rw [hr] at hc
    simp [Atomic, AtomicWhen, hr, hc]
  | raises =>
    rw [hr] at hc
    obtain ⟨e, hc⟩ := hc
    simp [Atomic, AtomicWhen, hr, hc]
  | absent =>
    have hx := applyExperientialPart_spec ofText payload false s
    rw [hr] at hp hc
    cases hr' : reading ofText payload "experiential_rate_hz" with
    | absent => simp_all [Atomic, AtomicWhen]
    | refused => simp_all [Atomic, AtomicWhen]
    | raises =>
      rw [hr'] at hx
      obtain ⟨e, hx⟩ := hx
      simp [Atomic, AtomicWhen, hr, hr', hc, hx]
    | undefined x =>
      rw [hr'] at hx he
      simp [Atomic, AtomicWhen, hr, hr', hc, hx, not_granted he.1 he.2.2]
    | rate q =>
      rw [hr'] at hx he
      simpa [Atomic, AtomicWhen, hr, hr', hc, hx] using
        ⟨granted_of_none hp, granted_of_rate he.1 he.2⟩
  | undefined x =>
    have hx := applyExperientialPart_spec ofText payload true (applyProcessingRate x s)
    rw [hr] at hp hc
    have hno : ∀ held, ¬ Granted ofText payload "processing_rate_hz" held :=
      fun _ => not_granted hp.1 hp.2.2
    cases hr' : reading ofText payload "experiential_rate_hz" with
    | absent => simp_all [Atomic, AtomicWhen]
    | refused => simp_all [Atomic, AtomicWhen, applyProcessingRate_eq_self]
    | raises =>
      rw [hr'] at hx
      obtain ⟨e, hx⟩ := hx
      simp [Atomic, AtomicWhen, hr, hr', hc, hx]
    | undefined y => simp_all [Atomic, AtomicWhen]
    | rate q =>
      rw [hr'] at hx
      simp [Atomic, AtomicWhen, hr, hr', hc, hx, hno]
  | rate p =>
    have hx := applyExperientialPart_spec ofText payload true (applyProcessingRate (.fin p) s)
    rw [hr] at hp hc
    have hg := granted_of_rate hp.1 hp.2
    cases hr' : reading ofText payload "experiential_rate_hz" with
    | absent =>
      rw [hr'] at hx he
      simpa [Atomic, AtomicWhen, hr, hr', hc, hx] using ⟨hg, granted_of_none he⟩
    | refused =>
      rw [hr'] at hx
      simp [Atomic, AtomicWhen, hr, hr', hc, hx, applyProcessingRate_eq_self]
    | raises =>
      rw [hr'] at hx
      obtain ⟨e, hx⟩ := hx
      simp [Atomic, AtomicWhen, hr, hr', hc, hx]
    | undefined x =>
      rw [hr'] at hx he
      simp [Atomic, AtomicWhen, hr, hr', hc, hx, not_granted he.1 he.2.2]
    | rate q =>
      rw [hr'] at hx he
      simpa [Atomic, AtomicWhen, hr, hr', hc, hx] using ⟨hg, granted_of_rate he.1 he.2⟩

theorem sound_applyProcessingRate {q : ℚ} (hq : 0 < q) (hs : Sound s) :
    Sound (applyProcessingRate (.fin q) s) := by
  obtain ⟨p, e, _, he, _, _, hexp⟩ := hs
  exact ⟨q, e, hq, he, rfl, rfl, hexp⟩

theorem sound_applyExperientialRate {q : ℚ} (hq : 0 < q) (hs : Sound s) :
    Sound (applyExperientialRate (.fin q) s) := by
  obtain ⟨p, e, hp, _, hproc, htick, _⟩ := hs
  exact ⟨p, q, hp, hq, hproc, htick, rfl⟩

/-- The second half keeps sound rates unless it lets an undefined number through. -/
theorem sound_applyExperientialPart (hs : Sound s)
    (hx : ∀ x, reading ofText payload "experiential_rate_hz" ≠ .undefined x) :
    Sound (applyExperientialPart ofText payload updated s).2 := by
  have h := applyExperientialPart_spec ofText payload updated s
  have hr := reading_spec ofText payload "experiential_rate_hz"
  cases hc : reading ofText payload "experiential_rate_hz" with
  | absent => simp_all
  | refused => simp_all
  | raises =>
    rw [hc] at h
    obtain ⟨e, he⟩ := h
    simpa [he] using hs
  | undefined x => exact absurd hc (hx x)
  | rate q =>
    rw [hc] at h hr
    rw [h]
    exact sound_applyExperientialRate hr.2 hs

theorem sound_applyRateControlEvent (hok : AtomicWhen ofText payload s) (hs : Sound s) :
    Sound (applyRateControlEvent ofText payload s).2 := by
  have h := applyRateControlEvent_spec ofText payload s
  have hr := reading_spec ofText payload "processing_rate_hz"
  cases hc : reading ofText payload "processing_rate_hz" with
  | absent =>
    rw [hc] at h
    rw [h]
    refine sound_applyExperientialPart hs ?_
    intro x hx
    simp [AtomicWhen, hc, hx] at hok
  | refused => simp_all
  | raises => simp_all [AtomicWhen]
  | undefined x =>
    rw [hc] at h
    -- a payload taken atomically here asks for the rate in force, so nothing is written
    cases hc' : reading ofText payload "experiential_rate_hz" with
    | refused =>
      have hforce : InForce x s := by simpa [AtomicWhen, hc, hc'] using hok
      rw [h, applyProcessingRate_eq_self.mpr hforce]
      exact sound_applyExperientialPart hs (by simp [hc'])
    | _ => simp [AtomicWhen, hc, hc'] at hok
  | rate q =>
    rw [hc] at h hr
    rw [h]
    refine sound_applyExperientialPart (sound_applyProcessingRate hr.2 hs) ?_
    intro x hx
    simp [AtomicWhen, hc, hx] at hok

theorem sound_reduceRate (hs : Sound s) : Sound (reduceRate s) := by
  have hs' := hs
  obtain ⟨p, e, hp, _, hproc, _, _⟩ := hs'
  have hclamp : ∃ q, 0 < q ∧ PyFloat.pyMax minProcessingRateHz
      (PyFloat.pyMin maxProcessingRateHz (s.processingRate.scale reduceRateFactor)) = .fin q := by
    simp only [hproc, PyFloat.scale, PyFloat.pyMin, PyFloat.pyMax, minProcessingRateHz,
      maxProcessingRateHz, reduceRateFactor, PyFloat.lt_fin]
    split <;> split <;> (simp_all; try linarith)
  obtain ⟨q, hq, he⟩ := hclamp
  rw [reduceRate, he]
  exact sound_applyProcessingRate hq hs

theorem sound_initial (h : Initial s) : Sound s := by
  obtain ⟨p, e, accessRate, hinit, hp, he⟩ := h
  obtain ⟨p, rfl⟩ := PyFloat.isFinite_iff.mp hp
  cases e with
  | none =>
    simp only [init] at hinit
    split at hinit
    · cases hinit
    · rename_i hpos
      have hpos : 0 < p := by simpa using hpos
      cases hinit
      exact ⟨p, p, hpos, hpos, rfl, rfl, rfl⟩
  | some e =>
    obtain ⟨e, rfl⟩ := PyFloat.isFinite_iff.mp (by simpa using he)
    simp only [init] at hinit
    split at hinit
    · cases hinit
    · rename_i hpos
      split at hinit
      · cases hinit
      · rename_i hpos'
        have hpos : 0 < p := by simpa using hpos
        have hpos' : 0 < e := by simpa using hpos'
        cases hinit
        exact ⟨p, e, hpos, hpos', rfl, rfl, rfl⟩

theorem sound_step {op : RateOp} (h : Guarded (StepOk ofText) (Step ofText) s op t)
    (hs : Sound s) : Sound t := by
  obtain ⟨hok, rfl⟩ := h
  cases op with
  | setRates payload => exact sound_applyRateControlEvent hok hs
  | setProcessingRate hz =>
    by_cases hle : hz.le (.fin 0) = true
    · simpa [perform, setProcessingRate, hle, Except.toOption] using hs
    · rcases pos_of_not_le hle with rfl | rfl | ⟨q, hq, rfl⟩
      · exact absurd rfl hok.1
      · exact absurd rfl hok.2
      · simpa [perform, setProcessingRate, not_le.mpr hq, Except.toOption] using
          sound_applyProcessingRate hq hs
  | setExperientialRate hz =>
    by_cases hle : hz.le (.fin 0) = true
    · simpa [perform, setExperientialRate, hle, Except.toOption] using hs
    · rcases pos_of_not_le hle with rfl | rfl | ⟨q, hq, rfl⟩
      · exact absurd rfl hok.1
      · exact absurd rfl hok.2
      · simpa [perform, setExperientialRate, not_le.mpr hq, Except.toOption] using
          sound_applyExperientialRate hq hs
  | reduceRate => exact sound_reduceRate hs
  | updateAccessRate effective => exact hs

/-- A payload is taken atomically exactly when neither half goes wrong, and the rates stay
sound in every run of such payloads and defined setter arguments. -/
theorem set_rates_atomic (ofText : String → Option PyFloat) :
    (∀ payload s, Atomic ofText payload s ↔ AtomicWhen ofText payload s) ∧
    (∀ t, Reachable Initial (Guarded (StepOk ofText) (Step ofText)) t → Sound t) :=
  ⟨atomic_iff ofText, fun _ h => h.invariant sound_initial sound_step⟩

theorem set_rates_atomic_ten :
    Atomic (fun _ => none) [("processing_rate_hz", .int 20)]
      ⟨.fin 10, .fin (1 / 10), .fin 10, .fin 10, false⟩ ∧
    Sound ⟨.fin 10, .fin (1 / 10), .fin 10, .fin 10, false⟩ := by
  obtain ⟨hatomic, hsound⟩ := set_rates_atomic fun _ => none
  constructor
  · have hp : reading (fun _ => none) [("processing_rate_hz", .int 20)] "processing_rate_hz" =
        .rate 20 := by decide +kernel
    have he : reading (fun _ => none) [("processing_rate_hz", .int 20)] "experiential_rate_hz" =
        .absent := by decide
    rw [hatomic, AtomicWhen, hp, he]
    trivial
  · exact hsound _ (.start ⟨.fin 10, none, false, by decide +kernel, rfl, rfl⟩)

/-- A positive processing rate stays beside a refused experiential one, and a NaN is taken. -/
theorem set_rates_half_applied :
    ¬ Atomic (fun _ => none) [("processing_rate_hz", .int 20), ("experiential_rate_hz", .int (-1))]
      ⟨.fin 10, .fin (1 / 10), .fin 10, .fin 10, false⟩ ∧
    ∃ t, Reachable Initial (Step fun _ => none) t ∧ ¬ Sound t := by
  constructor
  · have hp : reading (fun _ => none) [("processing_rate_hz", .int 20),
        ("experiential_rate_hz", .int (-1))] "processing_rate_hz" = .rate 20 := by decide +kernel
    have he : reading (fun _ => none) [("processing_rate_hz", .int 20),
        ("experiential_rate_hz", .int (-1))] "experiential_rate_hz" = .refused := by decide +kernel
    rw [atomic_iff, AtomicWhen, hp, he]
    simp [InForce]
  · have hstart : Reachable Initial (Step fun _ => none)
        ⟨.fin 10, .fin (1 / 10), .fin 10, .fin 10, false⟩ :=
      .start ⟨.fin 10, none, false, by decide +kernel, rfl, rfl⟩
    refine ⟨_, hstart.tail (a := .setRates [("processing_rate_hz", .float .nan)]) rfl, ?_⟩
    rintro ⟨p, _, _, _, hproc, _⟩
    have hnan : (perform (fun _ => none) ⟨.fin 10, .fin (1 / 10), .fin 10, .fin 10, false⟩
        (.setRates [("processing_rate_hz", .float .nan)])).processingRate = .nan := by
      decide
    rw [hnan] at hproc
    cases hproc

end Kaine.RateControl
