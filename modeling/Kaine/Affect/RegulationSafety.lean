import Kaine.Affect.Regulation
import Mathlib.Algebra.Order.BigOperators.Group.List

/-! Every run of the episode rule against a history of what was observed. -/
namespace Kaine.Regulation
open Py

section Mass

variable {mass : Mass} {cs : List Contributions} {name source : String} {value : ℚ}

/-- What a contribution adds to a source. -/
def share (source : String) (c : String × PyFloat) : ℚ :=
  if c.1 = source then
    match c.2 with
    | .fin value => max value 0
    | _ => 0
  else 0

/-- What a sequence of coalitions adds to a source. -/
def total (cs : List Contributions) (source : String) : ℚ := (cs.flatten.map (share source)).sum

/-- The least-named source of the greatest positive total. -/
def Leads (total : String → ℚ) (name : String) : Prop :=
  0 < total name ∧ ∀ other, total other < total name ∨ (total other = total name ∧ name ≤ other)

/-- A dict that holds the totals of some coalitions. -/
structure Represents (mass : Mass) (cs : List Contributions) : Prop where
  nodup : (mass.map Prod.fst).Nodup
  total : ∀ source, (mass.lookup source).getD 0 = Regulation.total cs source

theorem represents_nil : Represents [] [] := ⟨List.nodup_nil, fun _ => rfl⟩

/-- A table that holds what every source had before, and a contribution on top. -/
theorem accumulate_total (contributions : Contributions) :
    ∀ {mass : Mass}, (mass.map Prod.fst).Nodup →
      ((accumulate mass contributions).map Prod.fst).Nodup ∧
      ∀ source, ((accumulate mass contributions).lookup source).getD 0 =
        (mass.lookup source).getD 0 + (contributions.map (share source)).sum := by
  induction contributions with
  | nil =>
    intro mass h
    exact ⟨h, fun source => (add_zero _).symm⟩
  | cons c rest ih =>
    intro mass h
    have hskip : (∀ source, share source c = 0) →
        accumulate mass (c :: rest) = accumulate mass rest →
          ((accumulate mass (c :: rest)).map Prod.fst).Nodup ∧
        ∀ source, ((accumulate mass (c :: rest)).lookup source).getD 0 =
          (mass.lookup source).getD 0 + ((c :: rest).map (share source)).sum := by
      intro hzero heq
      rw [heq]
      refine ⟨(ih h).1, fun source => ?_⟩
      rw [(ih h).2 source, List.map_cons, List.sum_cons, hzero, zero_add]
    obtain ⟨key, value⟩ := c
    cases value with
    | fin q =>
      by_cases hq : 0 ≤ q
      · have heq : accumulate mass ((key, .fin q) :: rest) =
            accumulate (Assoc.assign mass key ((mass.lookup key).getD 0 + q)) rest := by
          rw [accumulate, List.foldl_cons]
          dsimp only
          rw [if_pos hq]
          rfl
        obtain ⟨hnodup, htotal⟩ := ih (Assoc.nodup_assign h)
        rw [heq]
        refine ⟨hnodup, fun source => ?_⟩
        rw [htotal source, List.map_cons, List.sum_cons]
        by_cases hkey : key = source
        · subst hkey
          simp [share, hq]
          ring
        · rw [Assoc.lookup_assign_of_ne (Ne.symm hkey)]
          simp [share, hkey]
      · refine hskip (fun source => ?_) ?_
        · have hmax : max q 0 = 0 := max_eq_right (not_le.mp hq).le
          simp [share, hmax]
        · rw [accumulate, List.foldl_cons]
          dsimp only
          rw [if_neg hq]
          rfl
    | _ => exact hskip (fun source => by simp [share]) rfl

theorem Represents.accumulate (h : Represents mass cs) (contributions : Contributions) :
    Represents (accumulate mass contributions) (cs ++ [contributions]) := by
  obtain ⟨hnodup, htotal⟩ := accumulate_total contributions h.nodup
  refine ⟨hnodup, fun source => ?_⟩
  rw [htotal source, h.total source, Regulation.total, Regulation.total]
  simp

theorem Represents.eq_total (h : Represents mass cs) (hentry : (source, value) ∈ mass) :
    value = Regulation.total cs source := by
  rw [← h.total source, Assoc.lookup_of_mem h.nodup hentry, Option.getD_some]

/-- A source with a positive total has an entry. -/
theorem Represents.entry (h : Represents mass cs) (hpos : 0 < Regulation.total cs source) :
    (source, Regulation.total cs source) ∈ mass := by
  rw [← h.total source] at hpos ⊢
  cases hlookup : mass.lookup source with
  | none =>
    rw [hlookup] at hpos
    exact absurd hpos (lt_irrefl 0)
  | some value => exact Assoc.mem_of_lookup_eq_some hlookup

theorem targetSource_leads (h : Represents mass cs) :
    targetSource mass = some name ↔ Leads (total cs) name := by
  unfold targetSource
  cases hmax : (mass.map Prod.snd).max? with
  | none =>
    have hnil : mass = [] := by simpa using hmax
    refine ⟨fun hnone => (by cases hnone), fun hleads => ?_⟩
    have hentry := h.entry hleads.1
    rw [hnil] at hentry
    cases hentry
  | some top =>
    obtain ⟨hmem, hle⟩ := List.max?_eq_some_iff.mp hmax
    obtain ⟨⟨first, value⟩, hfirst, rfl⟩ := List.mem_map.mp hmem
    have hvalue : value = total cs first := h.eq_total hfirst
    have hbelow : ∀ source, 0 < total cs source → total cs source ≤ value := fun source hpos =>
      hle _ (List.mem_map_of_mem (h.entry hpos))
    change (if value ≤ 0 then none
      else ((mass.filter fun entry => entry.2 = value).map Prod.fst).min?) = some name ↔ _
    split_ifs with hzero
    · refine ⟨fun hnone => (by cases hnone), fun hleads => ?_⟩
      exact absurd ((hbelow name hleads.1).trans hzero) (not_le.mpr hleads.1)
    · have hpos : 0 < value := not_le.mp hzero
      have hholds : ∀ source,
          source ∈ (mass.filter fun entry => entry.2 = value).map Prod.fst ↔
            total cs source = value := by
        intro source
        constructor
        · intro hsource
          obtain ⟨⟨k, v⟩, hentry, rfl⟩ := List.mem_map.mp hsource
          obtain ⟨hin, hv⟩ := List.mem_filter.mp hentry
          rw [← h.eq_total hin]
          simpa using hv
        · intro htotal
          have hentry := h.entry (hpos.trans_eq htotal.symm)
          exact List.mem_map.mpr ⟨_, List.mem_filter.mpr ⟨hentry, by simpa using htotal⟩, rfl⟩
      rw [List.min?_eq_some_iff, hholds]
      constructor
      · rintro ⟨hname, hleast⟩
        refine ⟨hpos.trans_eq hname.symm, fun other => ?_⟩
        rw [hname]
        rcases lt_or_ge (total cs other) value with hlt | hge
        · exact .inl hlt
        · have heq : total cs other = value := le_antisymm (hbelow other (hpos.trans_le hge)) hge
          exact .inr ⟨heq, hleast other ((hholds other).mpr heq)⟩
      · rintro ⟨hname, hleads⟩
        -- the source of the largest entry cannot lie below the leader
        have heq : total cs name = value := by
          rcases hleads first with hlt | ⟨heq, -⟩
          · rw [← hvalue] at hlt
            exact absurd hlt (not_lt.mpr (hbelow name hname))
          · rw [← heq, hvalue]
        refine ⟨heq, fun other hother => ?_⟩
        rcases hleads other with hlt | ⟨-, hle⟩
        · rw [heq, (hholds other).mp hother] at hlt
          exact absurd hlt (lt_irrefl _)
        · exact hle

end Mass

/-- The number of the sustain window that a time of an episode falls in. -/
def windowOf (cfg : RegulationConfig) (elapsed : ℚ) : ℤ := ⌊elapsed / cfg.sustainWindowS⌋

/-- What happened in an episode: its sustained samples, the negative coalitions that count for it,
each activation with the coalitions so far, and the reappraisals. -/
structure Episode where
  start : ℚ
  samples : List ℚ
  coalitions : List Contributions
  activations : List (RegulationActivation × List Contributions)
  reappraisals : ℕ
  deriving DecidableEq

/-- The episode under way, and outside one the negative coalition that was observed last, if nothing
that ends an episode came after it. -/
structure History where
  pending : Option Contributions := none
  episode : Option Episode := none

/-- A sustained sample in an episode. -/
def Episode.sample (e : Episode) (now : ℚ) (activation : Option RegulationActivation) : Episode :=
  { e with
    samples := e.samples ++ [now]
    activations := e.activations ++ (activation.map fun a => (a, e.coalitions)).toList }

def History.record (cfg : RegulationConfig) (h : History) (op : Op)
    (out : Option RegulationActivation × Bool) : History :=
  match op with
  | .update (.fin now) (.fin intensity) negative =>
    if cfg.setPoint ≤ intensity ∧ negative then
      { pending := none
        episode := some ((h.episode.getD ⟨now, [], h.pending.toList, [], 0⟩).sample now out.1) }
    else {}
  | .update _ _ _ => h
  | .observeCoalition contributions negative =>
    match h.episode with
    | some e =>
      if negative then
        { h with episode := some { e with coalitions := e.coalitions ++ [contributions] } }
      else h
    | none => { h with pending := if negative then some contributions else none }
  | .takeReappraisal =>
    { h with
      episode := h.episode.map fun e => { e with reappraisals := e.reappraisals + out.2.toNat } }
  | .reset => {}

/-- The state and the history after a sequence of calls. -/
def observed (cfg : RegulationConfig) (ops : List Op) : ThreeTierRegulation × History :=
  ops.foldl (fun p op => ((perform cfg p.1 op).2, p.2.record cfg op (perform cfg p.1 op).1)) ({},
    {})

/-- The windows of the activations. -/
def Episode.windows (cfg : RegulationConfig) (e : Episode) : List ℤ :=
  e.activations.map fun a => windowOf cfg a.1.episodeS

/-- What every activation of an episode is. -/
def ActivationSound (cfg : RegulationConfig) (a : RegulationActivation × List Contributions) :
    Prop :=
  cfg.sustainWindowS ≤ a.1.episodeS ∧ a.1.tier = min (windowOf cfg a.1.episodeS) 3 ∧
    (a.1.tier = 1 → ∀ name, a.1.targetSource = some name ↔ Leads (total a.2) name) ∧
    (a.1.tier ≠ 1 → a.1.targetSource = none)

/-- An activation for each window after the first one that a sustained sample fell in, and no
other. -/
structure Episode.Sound (cfg : RegulationConfig) (e : Episode) : Prop where
  once : (e.windows cfg).Pairwise (· < ·)
  mem_windows : ∀ n, n ∈ e.windows cfg ↔ 0 < n ∧ ∃ t ∈ e.samples, windowOf cfg (t - e.start) = n
  activations : ∀ a ∈ e.activations, ActivationSound cfg a
  first : e.samples.head? = some e.start
  reappraisals : e.reappraisals ≤ 1

variable {cfg : RegulationConfig} {clock now intensity : ℚ} {negative : Bool}
  {s : ThreeTierRegulation} {e : Episode} {h : History}

/-- The state in an episode, against what happened in it. -/
structure Tracks (cfg : RegulationConfig) (clock : ℚ) (s : ThreeTierRegulation)
    (e : Episode) : Prop where
  start : s.episodeStart = some e.start
  pending : s.pending = []
  mass : Represents s.mass e.coalitions
  reappraised : s.reappraised = true ↔ e.reappraisals = 1
  last_nonneg : 0 ≤ s.lastWindow
  last_mem : s.lastWindow = 0 ∨ s.lastWindow ∈ e.windows cfg
  le_last : ∀ n ∈ e.windows cfg, n ≤ s.lastWindow
  samples_le : ∀ t ∈ e.samples, t ≤ clock
  sound : e.Sound cfg

/-- The state against the history. -/
def Agrees (cfg : RegulationConfig) (clock : ℚ) (s : ThreeTierRegulation) (h : History) : Prop :=
  match h.episode with
  | some e => h.pending = none ∧ Tracks cfg clock s e
  | none => s = { pending := s.pending } ∧ Represents s.pending h.pending.toList

theorem agrees_some (he : h.episode = some e) :
    Agrees cfg clock s h ↔ h.pending = none ∧ Tracks cfg clock s e := by
  unfold Agrees
  rw [he]

theorem agrees_none (he : h.episode = none) :
    Agrees cfg clock s h ↔ s = { pending := s.pending } ∧
      Represents s.pending h.pending.toList := by
  unfold Agrees
  rw [he]

theorem agrees_ended : Agrees cfg clock {} {} := (agrees_none rfl).mpr ⟨rfl, represents_nil⟩

theorem windowOf_mono {t : ℚ} (hle : t ≤ now) (start : ℚ) :
    windowOf cfg (t - start) ≤ windowOf cfg (now - start) := by
  have hpos := cfg.window_pos
  unfold windowOf
  gcongr

/-- The sample that starts an episode, in which nothing has happened yet. -/
theorem tracks_enter (hs : s = { pending := s.pending })
    (hmass : Represents s.pending h.pending.toList) :
    Tracks cfg now (s.enter now) (Episode.sample ⟨now, [], h.pending.toList, [], 0⟩ now none) := by
  have henter : s.enter now = { episodeStart := some now, mass := s.pending } := by rw [hs]; rfl
  rw [henter]
  constructor
  · rfl
  · rfl
  · exact hmass
  · simp [Episode.sample]
  · exact le_rfl
  · exact .inl rfl
  · intro n hn
    cases hn
  · intro t ht
    exact (List.mem_singleton.mp ht).le
  · constructor
    · exact List.Pairwise.nil
    · intro n
      have hzero : windowOf cfg (now - now) = 0 := by simp [windowOf]
      refine ⟨fun hn => (by cases hn), ?_⟩
      rintro ⟨hpos, t, ht, rfl⟩
      rw [List.mem_singleton.mp ht] at hpos
      exact absurd hzero hpos.ne'
    · intro a ha
      cases ha
    · rfl
    · exact Nat.zero_le 1

/-- A sample that falls in a window with an activation already, or in the first one. -/
theorem Tracks.silent (h : Tracks cfg clock s e) (hclock : clock ≤ now)
    (hk : ¬(1 ≤ windowOf cfg (now - e.start) ∧ s.lastWindow < windowOf cfg (now - e.start))) :
    Tracks cfg now s (e.sample now none) := by
  have hwindows : (e.sample now none).windows cfg = e.windows cfg := by
    simp [Episode.windows, Episode.sample]
  refine { h with last_mem := ?_, le_last := ?_, samples_le := ?_, sound := ?_ }
  · rw [hwindows]
    exact h.last_mem
  · rw [hwindows]
    exact h.le_last
  · intro t ht
    rcases List.mem_append.mp ht with ht | ht
    · exact (h.samples_le t ht).trans hclock
    · exact (List.mem_singleton.mp ht).le
  · refine ⟨by rw [hwindows]; exact h.sound.once, fun n => ?_, ?_, ?_, h.sound.reappraisals⟩
    · rw [hwindows, h.sound.mem_windows]
      constructor
      · rintro ⟨hpos, t, ht, hn⟩
        exact ⟨hpos, t, List.mem_append_left _ ht, hn⟩
      · rintro ⟨hpos, t, ht, hn⟩
        rcases List.mem_append.mp ht with ht | ht
        · exact ⟨hpos, t, ht, hn⟩
        · -- no later window than the last one, and no earlier: the last one itself
          rw [List.mem_singleton.mp ht] at hn
          change windowOf cfg (now - e.start) = n at hn
          have hle : n ≤ s.lastWindow := by
            by_contra hlt
            exact hk ⟨by omega, by omega⟩
          rcases h.last_mem with hzero | hmem
          · omega
          · obtain ⟨-, t', ht', hwindow⟩ := (h.sound.mem_windows _).mp hmem
            have hmono : windowOf cfg (t' - e.start) ≤ windowOf cfg (now - e.start) :=
              windowOf_mono ((h.samples_le t' ht').trans hclock) e.start
            exact ⟨hpos, t', ht', by omega⟩
    · simpa [Episode.sample] using h.sound.activations
    · rw [Episode.sample, List.head?_append, h.sound.first]
      rfl

/-- A sample in a new window emits the activation of that window. -/
theorem Tracks.emit (h : Tracks cfg clock s e) (hclock : clock ≤ now)
    (hk : 1 ≤ windowOf cfg (now - e.start) ∧ s.lastWindow < windowOf cfg (now - e.start))
    {activation : RegulationActivation} (hseconds : activation.episodeS = now - e.start)
    (htier : activation.tier = min (windowOf cfg (now - e.start)) 3)
    (htarget : activation.targetSource = if activation.tier = 1 then targetSource s.mass
      else none) :
    Tracks cfg now { s with lastWindow := windowOf cfg (now - e.start) }
      (e.sample now (some activation)) := by
  have hwindows : (e.sample now (some activation)).windows cfg = e.windows cfg ++
      [windowOf cfg (now - e.start)] := by
    simp [Episode.windows, Episode.sample, hseconds]
  have hsound : ActivationSound cfg (activation, e.coalitions) := by
    have hlong : cfg.sustainWindowS ≤ now - e.start := by
      have hfloor := Int.le_floor.mp hk.1
      rw [Int.cast_one, one_le_div cfg.window_pos] at hfloor
      exact hfloor
    refine ⟨hseconds ▸ hlong, hseconds ▸ htier, fun hone name => ?_, fun hother => ?_⟩
    · rw [htarget, if_pos hone]
      exact targetSource_leads h.mass
    · rw [htarget, if_neg hother]
  refine { h with last_nonneg := ?_, last_mem := ?_, le_last := ?_, samples_le := ?_, sound := ?_ }
  · exact (by omega : (0 : ℤ) ≤ windowOf cfg (now - e.start))
  · rw [hwindows]
    exact .inr (List.mem_append_right _ List.mem_cons_self)
  · rw [hwindows]
    intro n hn
    rcases List.mem_append.mp hn with hn | hn
    · exact (h.le_last n hn).trans hk.2.le
    · exact (List.mem_singleton.mp hn).le
  · intro t ht
    rcases List.mem_append.mp ht with ht | ht
    · exact (h.samples_le t ht).trans hclock
    · exact (List.mem_singleton.mp ht).le
  · refine ⟨?_, fun n => ?_, ?_, ?_, h.sound.reappraisals⟩
    · rw [hwindows]
      refine List.pairwise_append.mpr ⟨h.sound.once, List.pairwise_singleton _ _,
        fun n hn m hm => ?_⟩
      rw [List.mem_singleton.mp hm]
      exact (h.le_last n hn).trans_lt hk.2
    · rw [hwindows, List.mem_append, h.sound.mem_windows, List.mem_singleton]
      constructor
      · rintro (⟨hpos, t, ht, hn⟩ | rfl)
        · exact ⟨hpos, t, List.mem_append_left _ ht, hn⟩
        · exact ⟨by omega, now, List.mem_append_right _ List.mem_cons_self, rfl⟩
      · rintro ⟨hpos, t, ht, hn⟩
        rcases List.mem_append.mp ht with ht | ht
        · exact .inl ⟨hpos, t, ht, hn⟩
        · rw [List.mem_singleton.mp ht] at hn
          exact .inr hn.symm
    · intro a ha
      rcases List.mem_append.mp ha with ha | ha
      · exact h.sound.activations a ha
      · rw [List.mem_singleton.mp ha]
        exact hsound
    · rw [Episode.sample, List.head?_append, h.sound.first]
      rfl

/-- What a sustained sample does in an episode. -/
theorem update_within (hs : s.episodeStart = some e.start)
    (hsustained : cfg.setPoint ≤ intensity ∧ negative = true) :
    s.update cfg (.fin now) (.fin intensity) negative =
      if 1 ≤ windowOf cfg (now - e.start) ∧ s.lastWindow < windowOf cfg (now - e.start) then
        (some
          { tier := min (windowOf cfg (now - e.start)) 3
            episodeS := now - e.start
            intensity
            targetSource := if min (windowOf cfg (now - e.start)) 3 = 1 then targetSource s.mass
              else none },
          { s with lastWindow := windowOf cfg (now - e.start) })
      else (none, s) := by
  have henter : s.enter now = s := by rw [ThreeTierRegulation.enter, hs]
  rw [ThreeTierRegulation.update]
  dsimp only
  rw [if_pos hsustained, henter, hs]
  rfl

theorem Tracks.update (h : Tracks cfg clock s e) (hclock : clock ≤ now)
    (hsustained : cfg.setPoint ≤ intensity ∧ negative = true) :
    Tracks cfg now (s.update cfg (.fin now) (.fin intensity) negative).2
      (e.sample now (s.update cfg (.fin now) (.fin intensity) negative).1) := by
  rw [update_within h.start hsustained]
  by_cases hk : 1 ≤ windowOf cfg (now - e.start) ∧ s.lastWindow < windowOf cfg (now - e.start)
  · rw [if_pos hk]
    exact h.emit hclock hk rfl rfl rfl
  · rw [if_neg hk]
    exact h.silent hclock hk

/-- The first sample of an episode falls in no window that counts. -/
theorem update_enter (hs : s = { pending := s.pending })
    (hsustained : cfg.setPoint ≤ intensity ∧ negative = true) :
    s.update cfg (.fin now) (.fin intensity) negative = (none, s.enter now) := by
  have henter : s.enter now = { episodeStart := some now, mass := s.pending } := by rw [hs]; rfl
  rw [ThreeTierRegulation.update]
  dsimp only
  rw [if_pos hsustained, henter]
  simp

theorem Tracks.later (h : Tracks cfg clock s e) (hclock : clock ≤ now) : Tracks cfg now s e :=
  { h with samples_le := fun t ht => (h.samples_le t ht).trans hclock }

theorem Agrees.later (h' : Agrees cfg clock s h) (hclock : clock ≤ now) : Agrees cfg now s h := by
  cases he : h.episode with
  | none => exact (agrees_none he).mpr ((agrees_none he).mp h')
  | some e =>
    obtain ⟨hpending, htracks⟩ := (agrees_some he).mp h'
    exact (agrees_some he).mpr ⟨hpending, htracks.later hclock⟩

/-- The time that a sample reads, if it is a number. -/
def Op.time : Op → Option ℚ
  | .update (.fin now) _ _ => some now
  | _ => none

theorem agrees_update (h' : Agrees cfg clock s h) {t : PyFloat} (i : PyFloat) (negative : Bool)
    (hclock : ∀ now, t = .fin now → clock ≤ now) :
    ∃ clock', (clock' = clock ∨ t = .fin clock') ∧
      Agrees cfg clock' (perform cfg s (.update t i negative)).2
        (h.record cfg (.update t i negative) (perform cfg s (.update t i negative)).1) := by
  cases t with
  | fin now =>
    cases i with
    | fin intensity =>
      refine ⟨now, .inr rfl, ?_⟩
      rw [perform, History.record]
      by_cases hsustained : cfg.setPoint ≤ intensity ∧ negative = true
      · rw [if_pos hsustained]
        cases he : h.episode with
        | some e =>
          obtain ⟨-, htracks⟩ := (agrees_some he).mp h'
          exact (agrees_some rfl).mpr ⟨rfl, htracks.update (hclock now rfl) hsustained⟩
        | none =>
          obtain ⟨hs, hmass⟩ := (agrees_none he).mp h'
          rw [update_enter hs hsustained]
          exact (agrees_some rfl).mpr ⟨rfl, tracks_enter hs hmass⟩
      · have hended : s.update cfg (.fin now) (.fin intensity) negative = (none, {}) :=
          if_neg hsustained
        rw [if_neg hsustained, hended]
        exact agrees_ended
    | _ => exact ⟨clock, .inl rfl, h'⟩
  | _ => exact ⟨clock, .inl rfl, h'⟩

theorem agrees_observe (h' : Agrees cfg clock s h) (contributions : Contributions)
    (negative : Bool) : Agrees cfg clock (s.observeCoalition contributions negative)
      (h.record cfg (.observeCoalition contributions negative) (none, false)) := by
  rw [History.record]
  cases he : h.episode with
  | some e =>
    obtain ⟨hpending, htracks⟩ := (agrees_some he).mp h'
    have hin : s.inEpisode = true := by rw [ThreeTierRegulation.inEpisode, htracks.start]; rfl
    rw [ThreeTierRegulation.observeCoalition, if_pos hin]
    dsimp only
    cases negative with
    | false => exact h'
    | true =>
      refine (agrees_some rfl).mpr ⟨hpending, ?_⟩
      exact { htracks with
        mass := htracks.mass.accumulate contributions
        sound := ⟨htracks.sound.once, htracks.sound.mem_windows, htracks.sound.activations,
          htracks.sound.first, htracks.sound.reappraisals⟩ }
  | none =>
    obtain ⟨hs, -⟩ := (agrees_none he).mp h'
    have hout : ¬s.inEpisode = true := by rw [hs]; exact Bool.false_ne_true
    rw [ThreeTierRegulation.observeCoalition, if_neg hout]
    dsimp only
    refine (agrees_none rfl).mpr ?_
    cases negative with
    | false => exact ⟨by rw [hs]; rfl, represents_nil⟩
    | true => exact ⟨by rw [hs]; rfl, represents_nil.accumulate contributions⟩

theorem takeReappraisal_outside (h' : Agrees cfg clock s h) (he : h.episode = none) :
    s.takeReappraisal = (false, s) := by
  obtain ⟨hs, -⟩ := (agrees_none he).mp h'
  rw [hs]
  rfl

theorem agrees_takeReappraisal (h' : Agrees cfg clock s h) :
    Agrees cfg clock s.takeReappraisal.2 (h.record cfg .takeReappraisal (none,
      s.takeReappraisal.1)) := by
  rw [History.record]
  cases he : h.episode with
  | none =>
    rw [takeReappraisal_outside h' he]
    refine (agrees_none (by rfl)).mpr ((agrees_none he).mp h')
  | some e =>
    obtain ⟨hpending, htracks⟩ := (agrees_some he).mp h'
    have hin : s.inEpisode = true := by rw [ThreeTierRegulation.inEpisode, htracks.start]; rfl
    refine (agrees_some rfl).mpr ⟨hpending, ?_⟩
    rw [ThreeTierRegulation.takeReappraisal, hin]
    have hle := htracks.sound.reappraisals
    cases hre : s.reappraised with
    | true => exact htracks
    | false =>
      have hnone : e.reappraisals = 0 := by
        have hne : e.reappraisals ≠ 1 := fun hone => by simp [htracks.reappraised.mpr hone] at hre
        omega
      exact { htracks with
        reappraised := by simp [hnone]
        sound := ⟨htracks.sound.once, htracks.sound.mem_windows, htracks.sound.activations,
          htracks.sound.first, by simp [hnone]⟩ }

/-- The history that a call leaves. -/
theorem agrees_perform (h' : Agrees cfg clock s h) (op : Op)
    (hclock : ∀ now, op.time = some now → clock ≤ now) :
    ∃ clock', (clock' = clock ∨ op.time = some clock') ∧
      Agrees cfg clock' (perform cfg s op).2 (h.record cfg op (perform cfg s op).1) := by
  cases op with
  | update t i negative =>
    have htime : ∀ now, t = .fin now → (Op.update t i negative).time = some now := by
      intro now hnow
      rw [hnow]
      rfl
    obtain ⟨clock', hor, hagrees⟩ := agrees_update h' i negative fun now hnow =>
      hclock now (htime now hnow)
    exact ⟨clock', hor.imp_right (htime clock'), hagrees⟩
  | observeCoalition contributions negative =>
    exact ⟨clock, .inl rfl, agrees_observe h' contributions negative⟩
  | takeReappraisal => exact ⟨clock, .inl rfl, agrees_takeReappraisal h'⟩
  | reset => exact ⟨clock, .inl rfl, agrees_ended⟩

/-- The times of the samples do not go back. -/
def Chronological (ops : List Op) : Prop := (ops.filterMap Op.time).Pairwise (· ≤ ·)

/-- The state of a run agrees with its history: the induction is on the calls still to come, all of
them no earlier than the clock. -/
theorem agrees_run (ops : List Op) :
    ∀ {clock : ℚ} {s : ThreeTierRegulation} {h : History}, Agrees cfg clock s h →
      Chronological ops → (∀ now ∈ ops.filterMap Op.time, clock ≤ now) →
      ∃ clock', Agrees cfg clock'
        (ops.foldl (fun p op => ((perform cfg p.1 op).2, p.2.record cfg op (perform cfg p.1 op).1))
          (s, h)).1
        (ops.foldl (fun p op => ((perform cfg p.1 op).2, p.2.record cfg op (perform cfg p.1 op).1))
          (s, h)).2 := by
  induction ops with
  | nil =>
    intro clock s h h' _ _
    exact ⟨clock, h'⟩
  | cons op rest ih =>
    intro clock s h h' hchrono hle
    have hrest : Chronological rest := by
      rw [Chronological, List.filterMap_cons] at hchrono
      cases ht : op.time with
      | none => simpa [ht, Chronological] using hchrono
      | some t =>
        rw [ht] at hchrono
        exact (List.pairwise_cons.mp hchrono).2
    have hnow : ∀ now, op.time = some now → clock ≤ now := fun now ht =>
      hle now (List.mem_filterMap.mpr ⟨op, List.mem_cons_self, ht⟩)
    obtain ⟨clock', hor, hagrees⟩ := agrees_perform h' op hnow
    refine ih hagrees hrest fun now hmem => ?_
    rcases hor with rfl | ht
    · obtain ⟨later, hlater, htime⟩ := List.mem_filterMap.mp hmem
      exact hle now (List.mem_filterMap.mpr ⟨later, List.mem_cons_of_mem _ hlater, htime⟩)
    · rw [Chronological, List.filterMap_cons, ht] at hchrono
      exact (List.pairwise_cons.mp hchrono).1 now hmem

theorem agrees_observed (cfg : RegulationConfig) {ops : List Op} (hchrono : Chronological ops) :
    ∃ clock, Agrees cfg clock (observed cfg ops).1 (observed cfg ops).2 := by
  obtain ⟨clock, hclock⟩ : ∃ clock : ℚ, ∀ now ∈ ops.filterMap Op.time, clock ≤ now := by
    cases htimes : ops.filterMap Op.time with
    | nil => exact ⟨0, fun now hnow => by cases hnow⟩
    | cons first rest =>
      refine ⟨first, fun now hnow => ?_⟩
      rw [Chronological, htimes] at hchrono
      rcases List.mem_cons.mp hnow with rfl | hnow
      · exact le_rfl
      · exact (List.pairwise_cons.mp hchrono).1 now hnow
  exact agrees_run ops agrees_ended hchrono hclock

/-- In every run with times that do not go back: an episode emits for each sustain window after the
first that a sustained sample fell in, at the tier of that window, and grants at most one
reappraisal; outside an episode none is granted. -/
theorem regulation_sound (cfg : RegulationConfig) {ops : List Op} (hchrono : Chronological ops) :
    (∀ e, (observed cfg ops).2.episode = some e → e.Sound cfg) ∧
    ((observed cfg ops).2.episode = none → (observed cfg ops).1.takeReappraisal.1 = false) := by
  obtain ⟨clock, hagrees⟩ := agrees_observed cfg hchrono
  refine ⟨fun e he => ((agrees_some he).mp hagrees).2.sound, fun he => ?_⟩
  rw [takeReappraisal_outside hagrees he]

theorem half_nonneg : (0 : ℚ) ≤ 1 / 2 := by norm_num

theorem thirty_pos : (0 : ℚ) < 30 := by norm_num

def halfMinute : RegulationConfig := ⟨1 / 2, 30, half_nonneg, thirty_pos⟩

/-- Two samples more than two windows apart. -/
def sparse : List Op :=
  [.observeCoalition [("soma", .fin 1)] true, .update (.fin 0) (.fin 1) true,
    .update (.fin 65) (.fin 1) true]

theorem sparse_chronological : Chronological sparse := by
  have htimes : sparse.filterMap Op.time = [0, 65] := rfl
  rw [Chronological, htimes]
  decide

/-- No sample falls in the first full window. -/
theorem sparse_episode :
    (observed halfMinute sparse).2.episode =
      some ⟨0, [0, 65], [[("soma", .fin 1)]], [(⟨2, 65, 1, none⟩, [[("soma", .fin 1)]])], 0⟩ := by
  decide +kernel

theorem regulation_sound_sparse :
    ∃ e, (observed halfMinute sparse).2.episode = some e ∧ e.Sound halfMinute :=
  ⟨_, sparse_episode, (regulation_sound halfMinute sparse_chronological).1 _ sparse_episode⟩

/-- A second sample after two windows is the first activation, and it is at tier 2. -/
theorem tier_skipped :
    ¬ ∀ (cfg : RegulationConfig) (ops : List Op), Chronological ops →
      ∀ e, (observed cfg ops).2.episode = some e →
        ∀ k (hk : k < e.activations.length), (e.activations.get ⟨k, hk⟩).1.tier =
          min (k + 1) 3 := by
  intro hall
  have htier := hall halfMinute sparse sparse_chronological _ sparse_episode 0 (by decide)
  exact absurd htier (by decide)

end Kaine.Regulation
