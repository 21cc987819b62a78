import Kaine.Workspace.Feedback

/-! The processor gains under every call: their bounds always hold, their total while restores
are balanced. -/
namespace Kaine.Feedback
open Py Bus Transition Function

variable {K ρ : Type} [Field K] [LinearOrder K] {settings : Settings} {c c' c'' : Controller K ρ}
  {seeded : Option ℤ → ρ} {sample : ρ → List Processor → (Processor × Processor) × ρ}
  {op : FeedbackOp K} {factor now x : K} {values : Processor → GainValue K} {g : Processor → K}
  {p : Processor} {ps : List Processor} {v : GainValue K}

def total (c : Controller K ρ) : K := ∑ p, c.gains p

/-- Every gain lies between bounds that surround one. -/
def InBounds (c : Controller K ρ) : Prop :=
  (c.settings.piMin : K) ≤ 1 ∧ 1 ≤ (c.settings.piMax : K) ∧
    ∀ p, (c.settings.piMin : K) ≤ c.gains p ∧ c.gains p ≤ (c.settings.piMax : K)

/-- A fresh controller of a settings object that a configuration section gives. -/
def Initial (seeded : Option ℤ → ρ) (c : Controller K ρ) : Prop :=
  ∃ sect settings seed, fromSection sect = .ok (some settings) ∧ init seeded settings seed = .ok c

/-- A value on which `math.isfinite` raises. -/
def tooLarge : GainValue K → Bool
  | .int n => (PyFloat.ofInt n).toOption.isNone
  | _ => false

/-- The number in a value, where it lies within the bounds. -/
def within (settings : Settings) : GainValue K → Option K
  | .int n => if settings.piMin ≤ n ∧ (n : ℚ) ≤ settings.piMax then some (n : K) else none
  | .float x => if (settings.piMin : K) ≤ x ∧ x ≤ (settings.piMax : K) then some x else none
  | .other => none

/-- What the values within bounds, up to the first that is too large, would add to the gains. -/
def surplus (settings : Settings) (values : Processor → GainValue K) (ps : List Processor)
    (g : Processor → K) : K :=
  (((ps.takeWhile fun p => !tooLarge (values p)).filterMap fun p =>
    (within settings (values p)).map fun x => x - g p)).sum

/-- The restores that put back the sum of the gains they replace. -/
def Balanced (c : Controller K ρ) : FeedbackOp K → Prop
  | .loadStateDict (some values) _ => surplus c.settings values processors c.gains = 0
  | _ => True

/-- A call that keeps the bounds, and within them the total of three. -/
def Keeps (c c' : Controller K ρ) : Prop :=
  InBounds c → InBounds c' ∧ (total c = 3 → total c' = 3)

theorem keeps_of_eq (hs : c'.settings = c.settings) (hg : c'.gains = c.gains) : Keeps c c' := by
  intro h
  constructor
  · simpa [InBounds, hs, hg] using h
  · simp [total, hg]

theorem Keeps.trans (h : Keeps c c') (h' : Keeps c' c'') : Keeps c c'' := by
  intro hc
  obtain ⟨hb, ht⟩ := h hc
  obtain ⟨hb', ht'⟩ := h' hb
  exact ⟨hb', fun h3 => ht' (ht h3)⟩

theorem constraints_of_check (h : checkConstraints settings = .ok ()) :
    ∀ k ∈ constraints settings, k.2 = true := by
  unfold checkConstraints at h
  split at h
  · cases h
  · rename_i hnone
    intro k hk
    simpa using List.find?_eq_none.mp hnone k hk

/-- A settings object that is built satisfies every constraint. -/
theorem fromSection_constraints {sect : Json} (h : fromSection sect = .ok (some settings)) :
    ∀ k ∈ constraints settings, k.2 = true := by
  cases sect with
  | obj sect =>
    simp only [fromSection, bind_eq_ok] at h
    obtain ⟨_, _, enabled, _, arm, _, numbers, _, _, hcheck, h⟩ := h
    cases h' : (!enabled || decide (arm = .off)) with
    | true => simp [h', pure, Except.pure] at h
    | false =>
      obtain rfl : numbers = settings := by simpa [h', pure, Except.pure] using h
      exact constraints_of_check hcheck
  | _ => cases h

theorem processors_nodup : processors.Nodup := by decide

theorem acceptGain_of_tooLarge (settings : Settings) (h : tooLarge v = true) :
    ∃ e, acceptGain settings v = .error e := by
  cases v with
  | int n => cases hn : PyFloat.ofInt n <;> simp_all [tooLarge, acceptGain, Except.toOption]
  | _ => cases h

theorem acceptGain_of_readable (settings : Settings) (h : tooLarge v = false) :
    acceptGain settings v = .ok (within settings v) := by
  cases v with
  | int n =>
    cases hn : PyFloat.ofInt n <;> simp_all [tooLarge, acceptGain, within, Except.toOption]
  | _ => rfl

/-- A gain that is put back changes the total by its difference from the old one. -/
theorem sum_update {L : Type} [Ring L] (g : Processor → L) (p : Processor) (x : L) :
    ∑ q, update g p x q = ∑ q, g q + (x - g p) := by
  have hsum : ∑ q, update g p x q = ∑ q, (g q + if q = p then x - g p else 0) := by
    apply Finset.sum_congr rfl
    intro q _
    by_cases hq : q = p <;> simp [hq]
  rw [hsum, Finset.sum_add_distrib, Finset.sum_ite_eq' Finset.univ p]
  simp

theorem surplus_update (hp : p ∉ ps) (g : Processor → K) (x : K) :
    surplus settings values ps (update g p x) = surplus settings values ps g := by
  unfold surplus
  congr 1
  apply List.filterMap_congr
  intro q hq
  have hne : q ≠ p := by
    rintro rfl
    exact hp ((List.takeWhile_prefix _).subset hq)
  simp [hne]

/-- A restore moves the total by the surplus of the values it accepts. -/
theorem sum_loadGains (values : Processor → GainValue K) (hps : ps.Nodup) (g : Processor → K) :
    ∑ q, (loadGains settings values ps g).2 q = ∑ q, g q + surplus settings values ps g := by
  induction ps generalizing g with
  | nil => simp [loadGains, surplus]
  | cons p ps ih =>
    obtain ⟨hp, hps⟩ := List.nodup_cons.mp hps
    cases ht : tooLarge (values p) with
    | true =>
      obtain ⟨e, he⟩ := acceptGain_of_tooLarge settings ht
      simp [loadGains, he, surplus, ht]
    | false =>
      have ha := acceptGain_of_readable settings ht
      cases hw : within settings (values p) with
      | none =>
        rw [hw] at ha
        simp only [loadGains, ha, ih hps g]
        simp [surplus, ht, hw]
      | some x =>
        rw [hw] at ha
        simp only [loadGains, ha, ih hps (update g p x), sum_update, surplus_update hp]
        simp [surplus, ht, hw, add_assoc]

theorem total_load (values : Processor → GainValue K) (content : Except PyError Unit)
    (c : Controller K ρ) :
    total (loadStateDict (some values) content c).2 =
      total c + surplus c.settings values processors c.gains :=
  sum_loadGains values processors_nodup c.gains

theorem keeps_observeCandidate (event : Event) (c : Controller K ρ) :
    Keeps c (observeCandidate event c).2 := by
  unfold observeCandidate
  generalize processors.find? _ = found
  dsimp only
  split
  · split
    · split
      · split <;> cases found <;> exact keeps_of_eq rfl rfl
      · cases found <;> exact keeps_of_eq rfl rfl
    · cases found <;> exact keeps_of_eq rfl rfl
  · cases found <;> exact keeps_of_eq rfl rfl

theorem keeps_observeCandidates (events : List (String × Event)) (c : Controller K ρ) :
    Keeps c (observeCandidates events c).2 := by
  induction events generalizing c with
  | nil => exact keeps_of_eq rfl rfl
  | cons head events ih =>
    obtain ⟨_, event⟩ := head
    have hk := keeps_observeCandidate event c
    simp only [observeCandidates]
    split
    · rename_i heq
      rw [heq] at hk
      exact hk
    · rename_i heq
      rw [heq] at hk
      exact hk.trans (ih _)

section
variable [IsStrictOrderedRing K]

theorem within_mem (h : within settings v = some x) :
    (settings.piMin : K) ≤ x ∧ x ≤ (settings.piMax : K) := by
  cases v with
  | int n =>
    simp only [within, Option.ite_none_right_eq_some, Option.some.injEq] at h
    obtain ⟨⟨hmin, hmax⟩, rfl⟩ := h
    constructor
    · exact_mod_cast hmin
    · exact_mod_cast hmax
  | float y =>
    simp only [within, Option.ite_none_right_eq_some, Option.some.injEq] at h
    obtain ⟨hb, rfl⟩ := h
    exact hb
  | other => cases h

theorem loadGains_mem (hg : ∀ p, (settings.piMin : K) ≤ g p ∧ g p ≤ (settings.piMax : K)) :
    (settings.piMin : K) ≤ (loadGains settings values ps g).2 p ∧
      (loadGains settings values ps g).2 p ≤ (settings.piMax : K) := by
  induction ps generalizing g with
  | nil => exact hg p
  | cons q ps ih =>
    cases ht : tooLarge (values q) with
    | true =>
      obtain ⟨e, he⟩ := acceptGain_of_tooLarge settings ht
      simpa [loadGains, he] using hg p
    | false =>
      have ha := acceptGain_of_readable settings ht
      cases hw : within settings (values q) with
      | none => simpa [loadGains, ha, hw] using ih hg
      | some x =>
        have hx := within_mem hw
        have hup : ∀ r, (settings.piMin : K) ≤ update g q x r ∧
            update g q x r ≤ (settings.piMax : K) := by
          intro r
          by_cases hr : r = q
          · simpa [hr] using hx
          · simpa [hr] using hg r
        simpa [loadGains, ha, hw] using ih hup

theorem inBounds_load {state : Option (Processor → GainValue K)} {content : Except PyError Unit}
    (h : InBounds c) : InBounds (loadStateDict state content c).2 := by
  cases state with
  | none => exact h
  | some values =>
    obtain ⟨hmin, hmax, hg⟩ := h
    exact ⟨hmin, hmax, fun p => loadGains_mem hg⟩

theorem card_mul_one {L : Type} [Ring L] : (Fintype.card Processor : L) * 1 = 3 := by
  rw [show Fintype.card Processor = 3 from rfl]
  norm_num

theorem keeps_relax (h0 : 0 < factor) (h1 : factor ≤ 1) (now : K) (c : Controller K ρ) :
    Keeps c (relax factor now c) := by
  unfold relax
  split
  · exact keeps_of_eq rfl rfl
  · split
    · exact keeps_of_eq rfl rfl
    · rintro ⟨hmin, hmax, hg⟩
      constructor
      · exact ⟨hmin, hmax, fun p => Balance.contract_mem hg hmin hmax h0.le h1 p⟩
      · intro h3
        rw [total, ← card_mul_one] at h3
        rw [total, ← card_mul_one]
        exact Balance.sum_contract h3

/-- A shift is a transfer within the room that both processors have. -/
theorem keeps_shift (up down : Processor) (c : Controller K ρ) :
    Keeps c (shift up down c).2 := by
  rintro ⟨hmin, hmax, hg⟩
  have hup : 0 ≤ (c.settings.piMax : K) - c.gains up := sub_nonneg.mpr (hg up).2
  have hdown : 0 ≤ c.gains down - (c.settings.piMin : K) := sub_nonneg.mpr (hg down).1
  constructor
  · refine ⟨hmin, hmax, Balance.transfer_mem hg (le_max_left 0 _) ?_ ?_⟩
    · exact max_le hup ((min_le_left _ _).trans (min_le_right _ _))
    · exact max_le hdown (min_le_right _ _)
  · intro h3
    exact (Balance.sum_transfer _ _ _ _).trans h3

theorem keeps_precisionMove (now : K) (rows : List (Processor × Info K)) (c : Controller K ρ) :
    Keeps c (precisionMove now rows c).2 := by
  unfold precisionMove
  split
  · exact keeps_of_eq rfl rfl
  · split
    · rename_i winner _ loser _ _ _
      split
      · exact (keeps_shift winner loser c).trans (keeps_of_eq rfl rfl)
      · exact keeps_of_eq rfl rfl
    · exact keeps_of_eq rfl rfl

theorem keeps_conflictMove (now : K) (rows : List (Processor × Info K)) (c : Controller K ρ)
    (j : Processor) : Keeps c (conflictMove sample now rows c j).2 := by
  have hstart : Keeps c (startRefractory now j c) := keeps_of_eq rfl rfl
  unfold conflictMove
  split
  · exact hstart
  · rename_i winner _ _
    dsimp only
    split
    · exact hstart.trans (keeps_shift winner j _)
    · exact hstart.trans (Keeps.trans (keeps_of_eq rfl rfl) (keeps_shift _ _ _))

theorem keeps_conflictMoves (now : K) (rows rest : List (Processor × Info K))
    (c : Controller K ρ) : Keeps c (conflictMoves sample now rows rest c).2 := by
  induction rest generalizing c with
  | nil => exact keeps_of_eq rfl rfl
  | cons row rest ih =>
    simp only [conflictMoves]
    split
    · exact (keeps_conflictMove now rows c row.1).trans (ih _)
    · exact ih c

theorem keeps_moves (now : K) (rows : List (Processor × Info K)) (c : Controller K ρ) :
    Keeps c (moves sample now rows c).2 := by
  unfold moves
  split
  · exact keeps_precisionMove now rows c
  · exact keeps_conflictMoves now rows rows c
  · exact keeps_conflictMoves now rows rows c
  · exact keeps_of_eq rfl rfl
  · exact keeps_of_eq rfl rfl

theorem keeps_onBroadcast {content : Except PyError Unit} {snapshot : WorkspaceSnapshot PyFloat}
    (h0 : 0 < factor) (h1 : factor ≤ 1) (now : K) (c : Controller K ρ) :
    Keeps c (onBroadcast sample factor content snapshot now c).2 := by
  have hrelax := keeps_relax h0 h1 now c
  simp only [onBroadcast]
  split
  · exact hrelax
  · split
    · exact hrelax
    · exact hrelax.trans (keeps_moves now _ _)

/-- Every call but a restore keeps the bounds and the total. -/
theorem step_cases (h : Step sample c op c') :
    Keeps c c' ∨ ∃ state content, op = .loadStateDict state content ∧
      c' = (loadStateDict state content c).2 := by
  obtain ⟨hfactor, rfl⟩ := h
  cases op with
  | observeCandidates events => exact Or.inl (keeps_observeCandidates events c)
  | relax factor now => exact Or.inl (keeps_relax hfactor.1 hfactor.2 now c)
  | onBroadcast factor content snapshot now =>
    exact Or.inl (keeps_onBroadcast hfactor.1 hfactor.2 now c)
  | loadStateDict state content => exact Or.inr ⟨state, content, rfl, rfl⟩

theorem inBounds_step (h : Step sample c op c') (hc : InBounds c) : InBounds c' := by
  rcases step_cases h with hk | ⟨state, content, rfl, rfl⟩
  · exact (hk hc).1
  · exact inBounds_load hc

/-- A step keeps the total of three exactly when it is no unbalanced restore. -/
theorem total_step_iff (h : Step sample c op c') (hc : InBounds c) (h3 : total c = 3) :
    total c' = 3 ↔ Balanced c op := by
  cases op with
  | loadStateDict state content =>
    obtain ⟨_, rfl⟩ := h
    cases state with
    | none => simpa [Balanced, perform, loadStateDict] using h3
    | some values => simp [perform, total_load, h3, Balanced]
  | _ =>
    rcases step_cases h with hk | ⟨_, _, hop, _⟩
    · simpa [Balanced] using (hk hc).2 h3
    · cases hop

theorem initial_fair (h : Initial seeded c) : InBounds c ∧ total c = 3 := by
  obtain ⟨sect, settings, seed, hsect, hinit⟩ := h
  have hk := fromSection_constraints hsect
  simp only [constraints, List.forall_mem_cons] at hk
  obtain ⟨hmin, hmax, _⟩ := hk
  have hmin : settings.piMin ≤ 1 := by
    simp only [Bool.and_eq_true, decide_eq_true_eq] at hmin
    exact hmin.2
  have hmax : 1 ≤ settings.piMax := by simpa using hmax
  unfold init at hinit
  split at hinit
  · cases hinit
  · cases hinit
    have hmin' : (settings.piMin : K) ≤ 1 := by exact_mod_cast hmin
    have hmax' : (1 : K) ≤ (settings.piMax : K) := by exact_mod_cast hmax
    constructor
    · exact ⟨hmin', hmax', fun _ => ⟨hmin', hmax'⟩⟩
    · simpa [total] using card_mul_one (L := K)

/-- Every gain stays within its bounds in every run. The total stays three in every run of
balanced restores, and a restore that is not balanced loses it. -/
theorem gains_conserved (seeded : Option ℤ → ρ)
    (sample : ρ → List Processor → (Processor × Processor) × ρ) :
    (∀ c : Controller K ρ, Reachable (Initial seeded) (Step sample) c → InBounds c) ∧
    (∀ c : Controller K ρ, Reachable (Initial seeded) (Guarded Balanced (Step sample)) c →
      total c = 3) ∧
    (∀ (c : Controller K ρ) op c', Reachable (Initial seeded) (Step sample) c →
      total c = 3 → Step sample c op c' → (total c' = 3 ↔ Balanced c op)) := by
  have hbounds : ∀ c : Controller K ρ, Reachable (Initial seeded) (Step sample) c → InBounds c :=
    fun c h => h.invariant (fun hi => (initial_fair hi).1) inBounds_step
  refine ⟨hbounds, ?_, ?_⟩
  · intro c h
    have hboth : InBounds c ∧ total c = 3 := by
      refine h.invariant initial_fair ?_
      rintro s op t ⟨hbal, hstep⟩ ⟨hb, h3⟩
      exact ⟨inBounds_step hstep hb, (total_step_iff hstep hb h3).mpr hbal⟩
    exact hboth.2
  · intro c op c' hr h3 hstep
    exact total_step_iff hstep (hbounds c hr) h3

end

/-- A processor's report with its error ratio and its disagreement. -/
def report (p : Processor) (ratio disagreement : ℚ) (h : validName 64 p.name = true)
    (h' : validName 128 (reportType p) = true) : String × Event :=
  (p.name, {
    source := p.name
    type := reportType p
    payload := [("workspace_feedback", .obj [("error_ratio", .float (.fin ratio)),
      ("disagreement", .float (.fin disagreement))])]
    salience := 0
    timestamp := 0
    source_valid := h
    type_valid := h'
    salience_valid := zero_salience })

/-- Vision conflicts with audition. -/
def conflicting : WorkspaceSnapshot PyFloat where
  tickIndex := 0
  selectedEvents := [report .vision 3 3 (by decide) (by decide),
    report .audition 1 0 (by decide) (by decide)]

/-- The gains of vision and of audition, exchanged. -/
def exchanged : Processor → GainValue ℚ
  | .vision => .float (21 / 20)
  | .audition => .float (19 / 20)
  | .interoception => .float 1

def fresh : Controller ℚ Unit := { settings := { arm := .full }, rng := (), gains := fun _ => 1 }

/-- A broadcast that moves gain, a relaxation of half of it, and a restore. -/
def calls : List (FeedbackOp ℚ) :=
  [.onBroadcast 1 (.ok ()) conflicting 0, .relax (1 / 2) 10,
    .loadStateDict (some exchanged) (.ok ())]

def called (n : ℕ) : Controller ℚ Unit :=
  (calls.take n).foldl (fun c op => perform (fun r _ => ((.vision, .audition), r)) op c) fresh

theorem fromSection_enabled :
    fromSection (.obj [("enabled", .bool true)]) = .ok (some { arm := .full }) := by
  decide +kernel

theorem reachable_called : Reachable (Initial fun _ => ())
    (Guarded Balanced (Step fun r _ => ((.vision, .audition), r))) (called 3) := by
  refine ⟨fresh, calls, ⟨_, _, none, fromSection_enabled, rfl⟩, ?_⟩
  refine .head ⟨trivial, ⟨by norm_num, le_refl 1⟩, rfl⟩ <|
    .head ⟨trivial, ⟨by norm_num, by norm_num⟩, rfl⟩ <| .head ⟨?_, trivial, rfl⟩ (.refl _)
  -- What is restored sums to three, like the gains that it replaces.
  change surplus _ _ _ _ = 0
  decide +kernel

theorem gains_conserved_called :
    (List.range 4).map (fun n => (called n).gains .vision) = [1, 9 / 10, 19 / 20, 21 / 20] ∧
      total (called 3) = 3 := by
  obtain ⟨_, htotal, _⟩ :=
    gains_conserved (K := ℚ) (fun _ => ()) fun r _ => ((.vision, .audition), r)
  exact ⟨by decide +kernel, htotal _ reachable_called⟩

/-- Gains that sum to three under wider bounds are restored in part and then sum to more. -/
theorem partial_restore_moves_total :
    ¬ ∀ c : Controller ℚ Unit, Reachable (Initial fun _ => ())
      (Step fun r _ => ((.vision, .audition), r)) c → total c = 3 := by
  intro h
  have hstart : Reachable (Initial fun _ => ()) (Step fun r _ => ((.vision, .audition), r)) fresh :=
    .start ⟨_, _, none, fromSection_enabled, rfl⟩
  have h3 := h _ (hstart.tail (a := .loadStateDict (some fun p =>
    if p = .interoception then .float (3 / 5) else .float (6 / 5)) (.ok ())) ⟨by trivial, rfl⟩)
  revert h3
  decide +kernel

end Kaine.Feedback
