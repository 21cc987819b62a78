import Kaine.EpisodicMemory.Recall

/-! What the windows of recall and of the band of neighbours settle. -/
namespace Kaine.EpisodicMemory
open Py Ranking

section
variable {B V : Type} [LinearOrder V]

/-- What one pass over descending hits finds. -/
theorem scanBand_fst {params : AssociationParams V} (wakeSleep : ℤ) {hits results : List (Hit B V)}
    (hranked : hits.Pairwise fun a b => b.score ≤ a.score) (hroom : results.length < params.nPair) :
    (scanBand params wakeSleep hits results).1 =
      (results ++ hits.filter (Hit.inBand params wakeSleep)).take params.nPair := by
  induction hits generalizing results with
  | nil =>
    rw [List.filter_nil, List.append_nil, List.take_of_length_le hroom.le]
    rfl
  | cons hit hits ih =>
    obtain ⟨hhead, htail⟩ := List.pairwise_cons.mp hranked
    unfold scanBand
    by_cases hmin : hit.score < params.simMin
    · -- The hits that follow are no more similar.
      have hnone : (hit :: hits).filter (Hit.inBand params wakeSleep) = [] := by
        rw [List.filter_eq_nil_iff]
        intro other hother hband
        have hle : other.score ≤ hit.score := by
          rcases List.mem_cons.mp hother with rfl | hmem
          · exact le_rfl
          · exact hhead other hmem
        simp only [Hit.inBand, Bool.and_eq_true, decide_eq_true_eq] at hband
        exact absurd hband.1.1 (not_le.mpr (hle.trans_lt hmin))
      rw [if_pos hmin, hnone, List.append_nil, List.take_of_length_le hroom.le]
    · rw [if_neg hmin]
      have hskip (hout : hit.inBand params wakeSleep = false) :
          (scanBand params wakeSleep hits results).1 =
            (results ++ (hit :: hits).filter (Hit.inBand params wakeSleep)).take params.nPair := by
        rw [List.filter_cons_of_neg (by simp [hout]), ih htail hroom]
      by_cases hdup : params.simDup ≤ hit.score
      · rw [if_pos hdup]
        exact hskip (by simp [Hit.inBand, not_lt.mpr hdup])
      rw [if_neg hdup]
      by_cases hborn : hit.point.payload.bornSleep.all (wakeSleep ≤ ·) = true
      · rw [if_pos hborn]
        refine hskip ?_
        cases hsleep : hit.point.payload.bornSleep with
        | none => simp [Hit.inBand, hsleep]
        | some born =>
          rw [hsleep] at hborn
          have hle : wakeSleep ≤ born := by simpa using hborn
          simp [Hit.inBand, hsleep, not_lt.mpr hle]
      rw [if_neg hborn]
      have hin : hit.inBand params wakeSleep = true := by
        cases hsleep : hit.point.payload.bornSleep with
        | none => simp [hsleep] at hborn
        | some born =>
          rw [hsleep] at hborn
          have hlt : born < wakeSleep := by simpa using hborn
          simp [Hit.inBand, hsleep, hlt, not_lt.mp hmin, not_le.mp hdup]
      rw [List.filter_cons_of_pos hin, List.append_cons results hit (hits.filter _)]
      by_cases hfull : params.nPair ≤ (results ++ [hit]).length
      · have hexact : (results ++ [hit]).length = params.nPair := by
          rw [List.length_append, List.length_singleton] at hfull ⊢
          omega
        rw [if_pos hfull, List.take_left' hexact]
      · rw [if_neg hfull]
        exact ih htail (not_le.mp hfull)

/-- A pass that returns within its window does so whatever follows. -/
theorem scanBand_append {params : AssociationParams V} {wakeSleep : ℤ}
    {hits results : List (Hit B V)} (rest : List (Hit B V))
    (h : (scanBand params wakeSleep hits results).2 = true) :
    scanBand params wakeSleep (hits ++ rest) results = scanBand params wakeSleep hits results := by
  induction hits generalizing results with
  | nil => simp [scanBand] at h
  | cons hit hits ih =>
    rw [List.cons_append]
    unfold scanBand at h ⊢
    split_ifs at h ⊢ with hmin hdup hborn hfull
    · rfl
    · exact ih h
    · exact ih h
    · rfl
    · exact ih h

end

section
variable {B V : Type} [Field V] [LinearOrder V] {backend : Backend B V} {kind : Kind}
  {query : List V} {k m : ℕ}

theorem length_search (backend : Backend B V) (storage : Storage B V) (kind : Kind)
    (query : List V) (m : ℕ) : (backend.search storage kind query m).length =
      min m (storage.points kind).length := by
  have hvisit := (backend.visit_perm kind query (storage.points kind)).length_eq
  simp [Backend.search, Backend.ranking, hvisit]

theorem search_all {storage : Storage B V} (h : (storage.points kind).length ≤ m) :
    backend.search storage kind query m = backend.ranking storage kind query := by
  have hvisit := (backend.visit_perm kind query (storage.points kind)).length_eq
  refine List.take_of_length_le ?_
  simpa [Backend.ranking, hvisit] using h

theorem pairwise_ranking (backend : Backend B V) (storage : Storage B V) (kind : Kind)
    (query : List V) : (backend.ranking storage kind query).Pairwise fun a b => b.score ≤ a.score :=
  pairwise_rankBy _ _

theorem points_ranking (backend : Backend B V) (storage : Storage B V) (kind : Kind)
    (query : List V) : ((backend.ranking storage kind query).map Hit.point).Perm
      (storage.points kind) := by
  refine ((rankBy_perm Hit.score _).map Hit.point).trans ?_
  rw [List.map_map]
  simpa [Function.comp_def] using backend.visit_perm kind query (storage.points kind)

/-- What a window leaves out is no more similar than anything in it. -/
theorem le_floor {ranking : List (Hit B V)}
    (hranked : ranking.Pairwise fun a b => b.score ≤ a.score) (hhits : ranking.take m ≠ [])
    {hit : Hit B V} (hrest : hit ∈ ranking.drop m) :
    hit.score ≤ (((ranking.take m).map (·.score)).min?).getD 0 := by
  cases hmin : ((ranking.take m).map (·.score)).min? with
  | none =>
    rw [List.min?_eq_none_iff, List.map_eq_nil_iff] at hmin
    exact absurd hmin hhits
  | some floor =>
    obtain ⟨least, hleast, rfl⟩ := List.mem_map.mp (List.min?_mem hmin)
    exact le_of_mem_drop hranked hleast hrest

/-- A window that may widen does. -/
theorem lt_widened {count : ℕ} (hm : 0 < m) (hcount : m < count) (hcap : m < recallSearchCap) :
    m < min (m * 8) (min count recallSearchCap) := lt_min (by omega) (lt_min hcount hcap)

theorem bandWindow_spec (backend : Backend B V) (core : Core B V) (kind : Kind) (query : List V)
    (wakeSleep : ℤ) (params : AssociationParams V) {fuel : ℕ} (hm : 0 < m)
    (hcap : m ≤ recallSearchCap) (hfuel : recallSearchCap < fuel + m) :
    ∃ n, core.bandWindow backend kind query wakeSleep params fuel m =
        some (scanBand params wakeSleep (backend.search core.storage kind query n) []).1 ∧
      ((scanBand params wakeSleep (backend.search core.storage kind query n) []).2 = true ∨
        (core.storage.points kind).length ≤ n ∨ recallSearchCap ≤ n) := by
  induction fuel generalizing m with
  | zero => omega
  | succ fuel ih =>
    unfold Core.bandWindow
    dsimp only
    have hlength := length_search backend core.storage kind query m
    split_ifs with hstop
    · refine ⟨m, rfl, ?_⟩
      simp only [Bool.or_eq_true, decide_eq_true_eq] at hstop
      rcases hstop with ((hdone | hshort) | hall) | hcapped
      · exact .inl hdone
      · rw [hlength] at hshort
        exact .inr (.inl (by omega))
      · exact .inr (.inl hall)
      · exact .inr (.inr hcapped)
    · simp only [Bool.or_eq_true, decide_eq_true_eq, not_or, not_le] at hstop
      have hlt := lt_widened hm hstop.1.2 hstop.2
      exact ih (by omega) (by omega) (by omega)

/-- What `_band_neighbours` returns is the first of some window, and below the scan limit the first
of all. -/
theorem bandNeighbours_spec (backend : Backend B V) (core : Core B V) (kind : Kind) (query : List V)
    (wakeSleep : ℤ) {params : AssociationParams V} (hpair : 0 < params.nPair) :
    ∃ hits, core.bandNeighbours backend kind query wakeSleep params =
        some (hits.map fun hit => (traceRef kind hit.point.id, hit.score)) ∧
      hits.Sublist (backend.ranking core.storage kind query) ∧
      (kind ∈ traceKinds → (core.storage.points kind).length ≤ recallSearchCap →
        hits = ((backend.ranking core.storage kind query).filter (Hit.inBand params wakeSleep)).take
          params.nPair) := by
  have hranked := pairwise_ranking backend core.storage kind query
  unfold Core.bandNeighbours
  by_cases hempty : kind ∉ traceKinds ∨ (core.storage.points kind).length = 0
  · refine ⟨[], if_pos hempty, List.nil_sublist _, ?_⟩
    intro hkind _
    have hnone : (core.storage.points kind).length = 0 := hempty.resolve_left (not_not_intro hkind)
    have hlength := (points_ranking backend core.storage kind query).length_eq
    rw [List.length_map, hnone] at hlength
    rw [List.length_eq_zero_iff.mp hlength, List.filter_nil, List.take_nil]
  · have hcount : 0 < (core.storage.points kind).length := by
      rw [not_or] at hempty
      omega
    have hcap : 0 < recallSearchCap := by decide
    have hfirst : 0 < min (max (4 * params.nPair) 32)
      (min (core.storage.points kind).length recallSearchCap) := by
      omega
    obtain ⟨n, hwindow, hstop⟩ :=
      bandWindow_spec backend core kind query wakeSleep params hfirst (by omega)
      (Nat.lt_add_of_pos_right hfirst)
    have hroom : ([] : List (Hit B V)).length < params.nPair := hpair
    have hfound := scanBand_fst wakeSleep (hranked.sublist (List.take_sublist n _)) hroom
    refine ⟨(scanBand params wakeSleep (backend.search core.storage kind query n) []).1, ?_, ?_, ?_⟩
    · rw [if_neg hempty]
      dsimp only
      rw [hwindow, Option.map_some]
    · rw [Backend.search, hfound]
      exact (List.take_sublist _ _).trans (List.filter_sublist.trans (List.take_sublist n _))
    · intro _ hlimit
      have hall : (scanBand params wakeSleep (backend.search core.storage kind query n) []).1 =
          (scanBand params wakeSleep (backend.ranking core.storage kind query) []).1 := by
        rcases hstop with hdone | hfull
        · have happend := scanBand_append ((backend.ranking core.storage kind query).drop n) hdone
          rw [Backend.search, List.take_append_drop] at happend
          rw [happend]
          rfl
        · rw [search_all (by omega)]
      rw [hall, scanBand_fst wakeSleep hranked hroom, List.nil_append]

end

variable {B V : Type} [AddCommGroup B] [LinearOrder B] [Field V] [LinearOrder V]
  {config : Config B V} {backend : Backend B V} {core : Core B V} {kind : Kind}
  {query : List V} {k m : ℕ}

theorem strengthOf_le_one (core : Core B V) (payload : Payload B) :
    core.strengthOf config payload ≤ 1 := by
  unfold Core.strengthOf
  cases payload.logBase with
  | none => exact le_refl 1
  | some logBase => exact config.scale.exp_le_one.mpr (min_le_left 0 _)

/-- The product of each hit that is similar at all. -/
def Core.products (config : Config B V) (core : Core B V) (hits : List (Hit B V)) : List V :=
  (hits.filter (0 < ·.score)).map fun hit => core.strengthOf config hit.point.payload * hit.score

theorem products_append (hits rest : List (Hit B V)) :
    core.products config (hits ++ rest) = core.products config hits ++
      core.products config rest := by
  simp [Core.products]

/-- A hit as a result. -/
def Core.resultOf (config : Config B V) (core : Core B V) (kind : Kind) (hit : Hit B V) :
    RecalledMemory B V :=
  ⟨.trace kind hit.point, core.strengthOf config hit.point.payload * hit.score, hit.score,
    core.strengthOf config hit.point.payload⟩

theorem scored_perm (core : Core B V) (kind : Kind) (hits : List (Hit B V)) :
    (core.scored config kind hits).Perm ((hits.filter (0 < ·.score)).map
      (core.resultOf config kind)) :=
  rankBy_perm _ _

theorem scored_pairwise (core : Core B V) (kind : Kind) (hits : List (Hit B V)) :
    (core.scored config kind hits).Pairwise fun a b => b.score ≤ a.score :=
  pairwise_rankBy_lex RecalledMemory.score _ _

theorem scored_scores (core : Core B V) (kind : Kind) (hits : List (Hit B V)) (k : ℕ) :
    ((core.scored config kind hits).take k).map RecalledMemory.score =
      best k (core.products config hits) := by
  refine map_take_ranked (scored_pairwise core kind hits) ?_ k
  refine ((scored_perm core kind hits).map _).trans (List.Perm.of_eq ?_)
  rw [List.map_map]
  rfl

/-- The loop ends, with the ranking of some window. -/
theorem rankTraces_spec (config : Config B V) (backend : Backend B V) (core : Core B V)
    (kind : Kind) (query : List V) {fuel : ℕ} (hm : 0 < m) (hcap : m ≤ recallSearchCap)
    (hfuel : recallSearchCap < fuel + m) :
    ∃ n, 0 < n ∧ core.rankTraces config backend kind query k fuel m =
        some (core.scored config kind (backend.search core.storage kind query n)) ∧
      (Core.settled k (core.storage.points kind).length n (backend.search core.storage kind query n)
          (core.scored config kind (backend.search core.storage kind query n)) = true ∨
        recallSearchCap ≤ n) := by
  induction fuel generalizing m with
  | zero => omega
  | succ fuel ih =>
    unfold Core.rankTraces
    dsimp only
    split_ifs with hstop
    · refine ⟨m, hm, rfl, ?_⟩
      simpa using hstop
    · simp only [Bool.or_eq_true, decide_eq_true_eq, not_or, not_le] at hstop
      have hcount : m < (core.storage.points kind).length := by
        have hopen := hstop.1
        simp only [Core.settled, Bool.or_eq_true, decide_eq_true_eq, not_or, not_le] at hopen
        exact hopen.2
      have hlt := lt_widened hm hcount hstop.2
      exact ih (by omega) (by omega) (by omega)

section
variable [IsStrictOrderedRing V]

/-- A settled window holds the first `k` of all. -/
theorem products_settled {ranking : List (Hit B V)} {count : ℕ}
    (hranked : ranking.Pairwise fun a b => b.score ≤ a.score) (hcount : ranking.length = count)
    (hk : 0 < k)
    (hm : 0 < m)
    (h : Core.settled k count m (ranking.take m) (core.scored config kind (ranking.take m)) =
      true) :
    best k (core.products config (ranking.take m)) = best k (core.products config ranking) := by
  have hsplit : core.products config ranking =
      core.products config (ranking.take m) ++ core.products config (ranking.drop m) := by
    rw [← products_append, List.take_append_drop]
  have hall : ranking.drop m = [] →
      best k (core.products config (ranking.take m)) = best k (core.products config ranking) := by
    intro hdrop
    rw [hsplit, hdrop]
    simp [Core.products]
  rcases Nat.lt_or_ge m count with hlt | hge
  swap
  · exact hall (List.drop_eq_nil_of_le (hcount.trans_le hge))
  have hlength : (ranking.take m).length = m := by
    rw [List.length_take]
    omega
  have hhits : ranking.take m ≠ [] := List.length_pos_iff.mp (hlength.symm ▸ hm)
  unfold Core.settled at h
  simp only [hlength, lt_irrefl, decide_false, Bool.false_or, Bool.or_eq_true, decide_eq_true_eq,
    not_le.mpr hlt, Bool.false_eq_true, or_false] at h
  rcases h with hfloor | hplace
  · -- Nothing outside the window is similar at all.
    have hnone : core.products config (ranking.drop m) = [] := by
      unfold Core.products
      rw [List.map_eq_nil_iff, List.filter_eq_nil_iff]
      intro hit hhit hpos
      have hle : hit.score ≤ 0 := (le_floor hranked hhits hhit).trans hfloor
      exact absurd (of_decide_eq_true hpos) (not_lt.mpr hle)
    rw [hsplit, hnone, List.append_nil]
  · obtain ⟨last, hlast, hbound⟩ := (Option.any_eq_true _ _).mp hplace
    rw [hsplit]
    refine (best_append ?_ ?_).symm
    · obtain ⟨hlt, -⟩ := List.getElem?_eq_some_iff.mp hlast
      have hscored : (core.scored config kind (ranking.take m)).length =
          (core.products config (ranking.take m)).length := by
        simp [Core.scored, Core.products]
      omega
    · intro v hv w hw
      obtain ⟨hit, hhit, rfl⟩ := List.mem_map.mp hv
      obtain ⟨hrest, hpos⟩ := List.mem_filter.mp hhit
      -- A strength is at most one, so the product is at most the similarity.
      have hproduct : core.strengthOf config hit.point.payload * hit.score ≤ hit.score :=
        mul_le_of_le_one_left (of_decide_eq_true hpos).le (strengthOf_le_one core _)
      rw [← scored_scores core kind] at hw
      obtain ⟨r, hr, rfl⟩ := List.mem_map.mp hw
      have hr' : r ∈ (core.scored config kind (ranking.take m)).take (k - 1 + 1) := by
        rwa [Nat.sub_add_cancel hk]
      have hle := le_of_mem_take (scored_pairwise core kind _) hlast (of_decide_eq_true hbound) hr'
      exact hproduct.trans ((le_floor hranked hhits hrest).trans hle)

end
end Kaine.EpisodicMemory
