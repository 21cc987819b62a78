import Kaine.EpisodicMemory.BufferSafety
import Kaine.EpisodicMemory.RecallWindow
import Mathlib.Data.List.ReduceOption
import Mathlib.Data.Rat.Sqrt

/-! Recall and the band of neighbours are exact below the scan limit, and return no trace twice. -/
namespace Kaine.EpisodicMemory
open Py Ranking

section
variable {B V : Type} {kind : Kind}

def RecalledMemory.point? (r : RecalledMemory B V) (kind : Kind) : Option (Point B V) :=
  match r.source with
  | .trace kind' point => if kind' = kind then some point else none
  | _ => none

/-- The traces of one collection among some results. -/
def tracesOf (kind : Kind) (results : List (RecalledMemory B V)) : List (Point B V) :=
  results.filterMap (·.point? kind)

theorem tracesOf_append (results more : List (RecalledMemory B V)) :
    tracesOf kind (results ++ more) = tracesOf kind results ++ tracesOf kind more :=
  List.filterMap_append

theorem tracesOf_perm {results more : List (RecalledMemory B V)} (h : results.Perm more) :
    (tracesOf kind results).Perm (tracesOf kind more) := h.filterMap _

theorem tracesOf_take (results : List (RecalledMemory B V)) (k : ℕ) :
    (tracesOf kind (results.take k)).Sublist (tracesOf kind results) :=
  (List.take_sublist k results).filterMap _

theorem tracesOf_eq_nil {results : List (RecalledMemory B V)}
    (h : ∀ r ∈ results, r.point? kind = none) : tracesOf kind results = [] :=
  List.filterMap_eq_nil_iff.mpr h

theorem point?_eq_some {r : RecalledMemory B V} {point : Point B V}
    (h : r.point? kind = some point) : r.source = .trace kind point ∧ r.pointId = point.id := by
  unfold RecalledMemory.point? at h
  unfold RecalledMemory.pointId
  cases hsource : r.source with
  | trace kind' point' =>
    rw [hsource] at h
    simp only [Option.ite_none_right_eq_some, Option.some.injEq] at h
    obtain ⟨rfl, rfl⟩ := h
    exact ⟨rfl, rfl⟩
  | node | shortTerm =>
    rw [hsource] at h
    cases h

/-- The keys of the traces are among the keys of the results. -/
theorem keys_tracesOf (results : List (RecalledMemory B V)) :
    ((tracesOf kind results).map fun point => pointKey point.id).Sublist
      (results.map fun r => pointKey r.pointId) := by
  induction results with
  | nil => exact .slnil
  | cons r results ih =>
    unfold tracesOf
    cases hpoint : r.point? kind with
    | none =>
      rw [List.filterMap_cons, hpoint]
      exact ih.cons _
    | some point =>
      rw [List.filterMap_cons, hpoint, List.map_cons, List.map_cons, (point?_eq_some hpoint).2]
      exact ih.cons_cons _

/-- Steps that keep what each result is of keep the traces. -/
theorem tracesOf_mapM {f : RecalledMemory B V → Option (RecalledMemory B V)}
    (hf : ∀ r r', f r = some r' → r'.point? kind = r.point? kind)
    {results more : List (RecalledMemory B V)}
    (h : results.mapM f = some more) : tracesOf kind more = tracesOf kind results := by
  induction results generalizing more with
  | nil =>
    cases h
    rfl
  | cons r results ih =>
    rw [List.mapM_cons] at h
    obtain ⟨r', hr, h⟩ := Option.bind_eq_some_iff.mp h
    obtain ⟨rest, hrest, h⟩ := Option.bind_eq_some_iff.mp h
    cases h
    have hrest' := ih hrest
    unfold tracesOf at hrest' ⊢
    rw [List.filterMap_cons, List.filterMap_cons, hf r r' hr, hrest']

/-- The traces that `get_points` returns are stored. -/
theorem getPoints_subset {storage : Storage B V} {name : String} {ids : List String}
    {points : List (Point B V)} (h : storage.getPoints name ids = some points)
    (hkind : traceKindNamed name = some kind) :
    points ⊆ storage.points kind := by
  unfold Storage.getPoints at h
  split_ifs at h
  · cases h
    exact List.nil_subset _
  · rw [hkind, Option.map_some] at h
    cases h
    exact fun point hpoint => List.mem_of_mem_filter (List.pwFilter_subset _ hpoint)

end

section
variable {B V : Type} [Field V] [LinearOrder V] {backend : Backend B V} {core : Core B V}
  {kind : Kind} {query : List V}

theorem shortTermCandidates_traces {core' : Core B V} {embedder : Embedder V} {now exclude : ℚ}
    {candidates : List (RecalledMemory B V)}
    (h : core.shortTermCandidates backend embedder query now exclude = some (candidates, core')) :
    tracesOf kind candidates = [] := by
  unfold Core.shortTermCandidates at h
  obtain ⟨slots, -, h⟩ := Option.bind_eq_some_iff.mp h
  obtain ⟨scores, -, h⟩ := Option.bind_eq_some_iff.mp h
  cases h
  refine tracesOf_eq_nil fun r hr => ?_
  obtain ⟨entry, -, hentry⟩ := List.mem_filterMap.mp hr
  obtain ⟨score, -, rfl⟩ := Option.map_eq_some_iff.mp hentry
  rfl

/-- Each stored trace is recalled at most as often as it is stored. -/
def Core.RecallsOnce (core : Core B V) (results : List (RecalledMemory B V)) : Prop :=
  ∀ kind, (tracesOf kind results).Subperm (core.storage.points kind)

theorem mergeShortTerm_once {core' : Core B V} {embedder : Embedder V} {now exclude : ℚ}
    {results merged : List (RecalledMemory B V)} (honce : core.RecallsOnce results)
    (h : core.mergeShortTerm backend embedder query k now exclude results = some (merged, core')) :
    core.RecallsOnce merged := by
  unfold Core.mergeShortTerm at h
  split_ifs at h
  · obtain ⟨⟨candidates, core''⟩, hcandidates, h⟩ := Option.map_eq_some_iff.mp h
    dsimp only at h
    split_ifs at h
    · cases h
      exact honce
    · cases h
      intro kind'
      refine (tracesOf_take _ k).subperm.trans ((tracesOf_perm (rankBy_perm _ _)).subperm.trans ?_)
      rw [tracesOf_append, shortTermCandidates_traces hcandidates, List.append_nil]
      exact honce kind'
  · cases h
    exact honce

end

section
variable {B V : Type} [AddCommGroup B] [LinearOrder B] {core : Core B V} {kind other : Kind}

/-- The queued partners have different keys, and no key of a kept trace. -/
theorem queuePartners_keys {kept : List (RecalledMemory B V)}
    {queue : List (String × String × String)} (h : core.queuePartners kind kept = some queue) :
    (queue.map (·.2.2)).Nodup ∧ (∀ e ∈ queue, e.2.2 ∉ kept.map fun r => pointKey r.pointId) ∧
      ∀ e ∈ queue, splitRef e.1 = some e.2 := by
  unfold Core.queuePartners at h
  refine Assoc.foldlM_keeps (P := fun queue => (queue.map (·.2.2)).Nodup ∧
    (∀ e ∈ queue, e.2.2 ∉ kept.map fun r => pointKey r.pointId) ∧
      ∀ e ∈ queue, splitRef e.1 = some e.2) ?_ h
    ⟨List.nodup_nil, by simp, by simp⟩
  rintro queue ref next - hnext ⟨hnodup, hkept, hsplit⟩
  obtain ⟨⟨name, key⟩, href, hnext⟩ := Option.bind_eq_some_iff.mp hnext
  cases hnext
  split_ifs with hmem
  · exact ⟨hnodup, hkept, hsplit⟩
  · rw [not_or] at hmem
    refine ⟨?_, ?_, ?_⟩
    · rw [List.map_append, List.nodup_append]
      refine ⟨hnodup, List.nodup_singleton _, ?_⟩
      intro key' hkey' last hlast
      rw [List.map_singleton, List.mem_singleton] at hlast
      subst hlast
      exact fun heq => hmem.2 (heq ▸ hkey')
    · intro e he
      rcases List.mem_append.mp he with he | he
      · exact hkept e he
      · rw [List.mem_singleton.mp he]
        exact hmem.1
    · intro e he
      rcases List.mem_append.mp he with he | he
      · exact hsplit e he
      · rw [List.mem_singleton.mp he]
        exact href

theorem describeNode_point? {r r' : RecalledMemory B V} (h : core.describeNode kind r = some r') :
    r'.point? other = r.point? other := by
  unfold Core.describeNode at h
  cases hsource : r.source with
  | node node text members =>
    rw [hsource] at h
    simp only [Option.bind_eq_bind, Option.bind_eq_some_iff] at h
    obtain ⟨_, _, _, _, _, _, h⟩ := h
    cases h
    simp [RecalledMemory.point?, hsource]
  | trace | shortTerm =>
    rw [hsource] at h
    cases h
    rfl

end

variable {B V : Type} [AddCommGroup B] [LinearOrder B] [Field V] [LinearOrder V]
  {config : Config B V} {backend : Backend B V} {core : Core B V} {kind kind' : Kind}
  {query : List V} {k : ℕ}

/-- A partner's result is a stored trace with the partner's key. -/
theorem recallPartner_spec {queue : List (String × String × String)} {e : String × String × String}
    {r : RecalledMemory B V} (hsplit : splitRef e.1 = some e.2)
    (h : core.recallPartner config backend query queue e = some (some r)) :
    pointKey r.pointId = e.2.2 ∧ ∀ kind point, r.point? kind = some point →
      point ∈ core.storage.points kind := by
  obtain ⟨ref, name, key⟩ := e
  unfold Core.recallPartner at h
  obtain ⟨points, hpoints, h⟩ := Option.bind_eq_some_iff.mp h
  cases hkind : traceKindNamed name with
  | none =>
    rw [hkind] at h
    cases h
  | some kind =>
    rw [hkind] at h
    dsimp only at h
    split at h
    · cases h
    · rename_i point hfind
      obtain ⟨similarity, _, h⟩ := Option.bind_eq_some_iff.mp h
      cases h
      have href : traceRef kind point.id = ref := by simpa using List.find?_some hfind
      rw [← href, splitRef_traceRef] at hsplit
      split_ifs at hsplit
      cases hsplit
      constructor
      · dsimp only [RecalledMemory.pointId]
      intro kind' point' hpoint
      obtain ⟨hsource, -⟩ := point?_eq_some hpoint
      cases hsource
      exact getPoints_subset hpoints hkind (List.mem_reverse.mp (List.mem_of_find?_eq_some hfind))

theorem recallPartners_keys {queue queue' : List (String × String × String)}
    {partners : List (Option (RecalledMemory B V))} (hsplit : ∀ e ∈ queue', splitRef e.1 = some e.2)
    (h : queue'.mapM (core.recallPartner config backend query queue) = some partners) :
    (partners.reduceOption.map fun r => pointKey r.pointId).Sublist (queue'.map (·.2.2)) ∧
      ∀ r ∈ partners.reduceOption, ∀ kind point, r.point? kind = some point →
        point ∈ core.storage.points kind := by
  induction queue' generalizing partners with
  | nil =>
    cases h
    exact ⟨.slnil, by simp [List.reduceOption]⟩
  | cons e queue' ih =>
    rw [List.mapM_cons] at h
    obtain ⟨partner, hpartner, h⟩ := Option.bind_eq_some_iff.mp h
    obtain ⟨rest, hrest, h⟩ := Option.bind_eq_some_iff.mp h
    cases h
    obtain ⟨hkeys, hstored⟩ := ih (fun e he => hsplit e (List.mem_cons_of_mem _ he)) hrest
    cases partner with
    | none =>
      rw [List.reduceOption_cons_of_none]
      exact ⟨hkeys.cons _, hstored⟩
    | some r =>
      obtain ⟨hkey, hmem⟩ := recallPartner_spec (hsplit e List.mem_cons_self) hpartner
      rw [List.reduceOption_cons_of_some, List.map_cons, List.map_cons, hkey]
      refine ⟨hkeys.cons_cons _, ?_⟩
      intro r' hr'
      rcases List.mem_cons.mp hr' with rfl | hr'
      · exact hmem
      · exact hstored r' hr'

theorem scored_once {n : ℕ} : core.RecallsOnce
    (core.scored config kind (backend.search core.storage kind query n)) := by
  intro kind'
  refine (tracesOf_perm (scored_perm core kind _)).subperm.trans ?_
  by_cases heq : kind = kind'
  · subst heq
    have htraces (hits : List (Hit B V)) :
        tracesOf kind (hits.map (core.resultOf config kind)) = hits.map Hit.point := by
      unfold tracesOf
      rw [List.filterMap_map, ← List.filterMap_eq_map]
      refine List.filterMap_congr fun hit _ => ?_
      simp [RecalledMemory.point?, Core.resultOf]
    rw [htraces]
    have hsub : ((backend.search core.storage kind query n).filter (0 < ·.score)).Sublist
        (backend.ranking core.storage kind query) :=
          List.filter_sublist.trans (List.take_sublist n _)
    exact (hsub.map Hit.point).subperm.trans
      (points_ranking backend core.storage kind query).subperm
  · rw [tracesOf_eq_nil]
    · exact List.nil_subperm
    · intro r hr
      obtain ⟨hit, -, rfl⟩ := List.mem_map.mp hr
      simp [RecalledMemory.point?, Core.resultOf, heq]

theorem nodeEntries_traces : tracesOf kind' (core.nodeEntries config backend kind query) = [] := by
  refine tracesOf_eq_nil fun r hr => ?_
  unfold Core.nodeEntries at hr
  dsimp only at hr
  split_ifs at hr
  · obtain ⟨hit, -, hnode⟩ := List.mem_filterMap.mp hr
    obtain ⟨node, -, rfl⟩ := Option.map_eq_some_iff.mp hnode
    rfl
  · simp at hr

theorem mergeNodes_perm (ranked : List (RecalledMemory B V)) :
    (core.mergeNodes config backend kind query ranked).Perm
      (ranked ++ core.nodeEntries config backend kind query) := rankBy_perm _ _

/-- The partners that are added are stored traces other than the kept ones. -/
theorem recallAssociations_once {ranked results : List (RecalledMemory B V)}
    (hranked : core.RecallsOnce ranked)
    (h : core.recallAssociations config backend kind query k ranked = some results) :
    core.RecallsOnce results := by
  unfold Core.recallAssociations at h
  obtain ⟨kept, hkept, h⟩ := Option.bind_eq_some_iff.mp h
  obtain ⟨queue, hqueue, h⟩ := Option.bind_eq_some_iff.mp h
  obtain ⟨partners, hpartners, h⟩ := Option.bind_eq_some_iff.mp h
  cases h
  intro kind'
  obtain ⟨hnodup, hfresh, hsplit⟩ := queuePartners_keys hqueue
  obtain ⟨hkeys, hstored⟩ := recallPartners_keys hsplit hpartners
  have hold : (tracesOf kind' kept).Subperm (core.storage.points kind') := by
    rw [tracesOf_mapM (fun _ _ hnode => describeNode_point? hnode) hkept]
    refine (tracesOf_take _ k).subperm.trans
      ((tracesOf_perm (mergeNodes_perm ranked)).subperm.trans ?_)
    rw [tracesOf_append, nodeEntries_traces, List.append_nil]
    exact hranked kind'
  have hnew : (tracesOf kind' partners.reduceOption).Nodup :=
    ((keys_tracesOf _).nodup (hkeys.nodup hnodup)).of_map _
  let known (point : Point B V) : Bool :=
    decide (pointKey point.id ∈ kept.map fun r => pointKey r.pointId)
  have hkeptKnown : (tracesOf kind' kept).filter known = tracesOf kind' kept := by
    refine List.filter_eq_self.mpr fun point hpoint => ?_
    exact decide_eq_true ((keys_tracesOf kept).subset (List.mem_map_of_mem hpoint))
  have hpartnersNew : tracesOf kind' partners.reduceOption ⊆
      (core.storage.points kind').filter fun point => !known point := by
    intro point hpoint
    obtain ⟨r, hr, hsource⟩ := List.mem_filterMap.mp hpoint
    refine List.mem_filter.mpr ⟨hstored r hr kind' point hsource, ?_⟩
    have hkey : pointKey point.id ∈ queue.map (·.2.2) :=
      hkeys.subset ((keys_tracesOf _).subset (List.mem_map_of_mem hpoint))
    obtain ⟨e, he, heq⟩ := List.mem_map.mp hkey
    have hnot := hfresh e he
    rw [heq] at hnot
    simpa [known] using hnot
  rw [tracesOf_append]
  refine List.Subperm.trans ?_ (List.filter_append_perm known (core.storage.points kind')).subperm
  refine List.Subperm.append ?_ (List.subperm_of_subset hnew hpartnersNew)
  rw [← hkeptKnown]
  exact hold.filter known

theorem rankedTraces_spec (config : Config B V) (backend : Backend B V) (core : Core B V)
    (kind : Kind) (query : List V) (hk : 0 < k) :
    ∃ n, 0 < n ∧ core.rankedTraces config backend kind query k =
        some (core.scored config kind (backend.search core.storage kind query n)) ∧
      (Core.settled k (core.storage.points kind).length n (backend.search core.storage kind query n)
          (core.scored config kind (backend.search core.storage kind query n)) = true ∨
        recallSearchCap ≤ n) := by
  have hcap : 0 < recallSearchCap := by decide
  exact rankTraces_spec config backend core kind query (by omega) (by omega) (by omega)

theorem recallStored_once {results : List (RecalledMemory B V)}
    (h : core.recallStored config backend kind query k = some results) :
    core.RecallsOnce results := by
  unfold Core.recallStored at h
  by_cases hk : k = 0
  · rw [if_pos hk] at h
    cases h
    exact fun _ => List.nil_subperm
  · obtain ⟨n, -, hranked, -⟩ :=
      rankedTraces_spec config backend core kind query (Nat.pos_of_ne_zero hk)
    rw [if_neg hk, hranked, Option.bind_some] at h
    have htop :
      core.RecallsOnce ((core.scored config kind (backend.search core.storage kind query n)).take
        k) :=
      fun kind' => (tracesOf_take _ k).subperm.trans (scored_once kind')
    split_ifs at h
    · exact recallAssociations_once htop h
    · cases h
      exact htop

/-- The products of strength and similarity of the traces that are similar to the query at all. -/
def Core.productsOf (config : Config B V) (backend : Backend B V) (core : Core B V) (kind : Kind)
    (query : List V) : List V :=
  core.products config ((core.storage.points kind).map fun point => ⟨point,
    backend.cosine query point.vector⟩)

theorem products_ranking (core : Core B V) (kind : Kind) (query : List V) :
    (core.products config (backend.ranking core.storage kind query)).Perm
      (core.productsOf config backend kind query) := by
  have hvisit := backend.visit_perm kind query (core.storage.points kind)
  have hranked := (rankBy_perm Hit.score _).trans
    (hvisit.map fun point => (⟨point, backend.cosine query point.vector⟩ : Hit B V))
  exact (hranked.filter _).map _

section
variable [IsStrictOrderedRing V]

/-- Below the scan limit the last window is as good as all. -/
theorem rankedTraces_exact (config : Config B V) (backend : Backend B V) (query : List V)
    (hk : 0 < k) (hcount : (core.storage.points kind).length ≤ recallSearchCap) :
    ∃ ranked, core.rankedTraces config backend kind query k = some ranked ∧
      (ranked.take k).map RecalledMemory.score =
        best k (core.productsOf config backend kind query) := by
  obtain ⟨n, hn, hranked, hstop⟩ := rankedTraces_spec config backend core kind query hk
  refine ⟨_, hranked, ?_⟩
  rw [scored_scores, ← best_congr (products_ranking core kind query)]
  have hlength : (backend.ranking core.storage kind query).length =
    (core.storage.points kind).length := by
    rw [← (points_ranking backend core.storage kind query).length_eq, List.length_map]
  rcases hstop with hsettled | hcapped
  · exact products_settled (pairwise_ranking backend core.storage kind query) hlength hk hn hsettled
  · rw [search_all (hcount.trans hcapped)]

/-- Both loops end. Below the scan limit the ranking of the traces has the scores of the first `k`
of all, and the band of neighbours is the first of the full ranking; where there are no
associations, and no entries of the buffer to merge, recall returns that ranking. No trace is
returned twice, whatever the size and what is added. -/
theorem recall_exact (config : Config B V) (backend : Backend B V) (core : Core B V) (kind : Kind) :
    (∀ query k, 0 < k → ∃ ranked, core.rankedTraces config backend kind query k = some ranked ∧
      ((core.storage.points kind).length ≤ recallSearchCap →
        (ranked.take k).map RecalledMemory.score =
          best k (core.productsOf config backend kind query))) ∧
    (∀ (embedder : Embedder V) text query k now exclude, embedder.encode text = some query →
      (core.storage.points kind).length ≤ recallSearchCap → core.assoc.active = false →
      exclude ≤ 0 ∨ core.shortTerm = [] →
      ∃ results, core.recall config backend embedder text k kind now exclude =
        some (results, core) ∧ results.map RecalledMemory.score =
          best k (core.productsOf config backend kind query)) ∧
    (∀ (embedder : Embedder V) text k now exclude results core',
      core.recall config backend embedder text k kind now exclude = some (results, core') →
      core.RecallsOnce results) ∧
    ∀ query wakeSleep (params : AssociationParams V), 0 < params.nPair →
      ∃ hits, core.bandNeighbours backend kind query wakeSleep params =
          some (hits.map fun hit => (traceRef kind hit.point.id, hit.score)) ∧
        (hits.map Hit.point).Subperm (core.storage.points kind) ∧
        (kind ∈ traceKinds → (core.storage.points kind).length ≤ recallSearchCap →
          hits = ((backend.ranking core.storage kind query).filter
            (Hit.inBand params wakeSleep)).take params.nPair) := by
  refine ⟨?_, ?_, ?_, ?_⟩
  · intro query k hk
    obtain ⟨n, -, hranked, -⟩ := rankedTraces_spec config backend core kind query hk
    refine ⟨_, hranked, fun hcount => ?_⟩
    obtain ⟨ranked, hranked', hexact⟩ := rankedTraces_exact config backend query hk hcount
    rw [hranked] at hranked'
    cases hranked'
    exact hexact
  · intro embedder text query k now exclude hencode hcount hassoc hmerge
    have hkeep (results : List (RecalledMemory B V)) :
        core.mergeShortTerm backend embedder query k now exclude results =
          some (results, core) := by
      unfold Core.mergeShortTerm
      rw [if_neg]
      rintro ⟨hexclude, hbuffered⟩
      rcases hmerge with hle | hnil
      · exact absurd hexclude (not_lt.mpr hle)
      · exact hbuffered hnil
    have hstored : ∃ results, core.recallStored config backend kind query k = some results ∧
        results.map RecalledMemory.score = best k (core.productsOf config backend kind query) := by
      unfold Core.recallStored
      by_cases hk : k = 0
      · subst hk
        exact ⟨[], rfl, rfl⟩
      · obtain ⟨ranked, hranked, hexact⟩ :=
          rankedTraces_exact config backend query (Nat.pos_of_ne_zero hk) hcount
        rw [if_neg hk, hranked, Option.bind_some, hassoc]
        exact ⟨_, rfl, hexact⟩
    obtain ⟨results, hresults, hexact⟩ := hstored
    refine ⟨results, ?_, hexact⟩
    unfold Core.recall
    rw [hencode]
    exact (congrArg (Option.bind · _) hresults).trans (hkeep results)
  · intro embedder text k now exclude results core' h
    unfold Core.recall at h
    obtain ⟨query, -, h⟩ := Option.bind_eq_some_iff.mp h
    obtain ⟨found, hfound, h⟩ := Option.bind_eq_some_iff.mp h
    exact mergeShortTerm_once (recallStored_once hfound) h
  · intro query wakeSleep params hpair
    obtain ⟨hits, hband, hsub, hexact⟩ :=
      bandNeighbours_spec backend core kind query wakeSleep hpair
    exact ⟨hits, hband, (hsub.map Hit.point).subperm.trans
      (points_ranking backend core.storage kind query).subperm, hexact⟩

/-- Two traces, at full strength and linked. -/
def linkedCore : Core (Additive {q : ℚ // 0 < q}) ℚ :=
  let payload : Payload (Additive {q : ℚ // 0 < q}) := ⟨some 0, some 0, 0, 1, []⟩
  { emptyCore with
    storage := emptyCore.storage.setPoints .episodic
      [⟨"x", [1, 0], "near", payload, none⟩, ⟨"y", [3 / 5, 4 / 5], "far", payload, none⟩]
    assoc := { links := [⟨"l", "l", "episodic:x", "episodic:y", 0, 0, 1⟩] } }

def rationalBackend : Backend (Additive {q : ℚ // 0 < q}) ℚ := .inMemory _ Rat.sqrt

def nearEmbedder : Embedder ℚ := ⟨fun _ => some [1, 0], []⟩

def unlinkedCore : Core (Additive {q : ℚ // 0 < q}) ℚ := { linkedCore with assoc := {} }

/-- Without the link, recall of one trace returns the nearer one, and the farther one is in the
band. -/
theorem recall_exact_unlinked :
    (∃ results, unlinkedCore.recall smallConfig rationalBackend nearEmbedder "near" 1
        .episodic 0 0 = some (results, unlinkedCore) ∧
      results.map RecalledMemory.score =
        best 1 (unlinkedCore.productsOf smallConfig rationalBackend .episodic [1, 0]) ∧
      unlinkedCore.RecallsOnce results) ∧
    ∃ hits, unlinkedCore.bandNeighbours rationalBackend .episodic [1, 0] 1 smallConfig.association =
        some (hits.map fun hit => (traceRef .episodic hit.point.id, hit.score)) ∧
      hits = ((rationalBackend.ranking unlinkedCore.storage .episodic [1, 0]).filter
        (Hit.inBand smallConfig.association 1)).take smallConfig.association.nPair := by
  obtain ⟨-, hrecall, honce, hband⟩ :=
    recall_exact smallConfig rationalBackend unlinkedCore .episodic
  have hsmall : (unlinkedCore.storage.points .episodic).length ≤ recallSearchCap := by decide
  obtain ⟨results, hresults, hscores⟩ :=
    hrecall nearEmbedder "near" [1, 0] 1 0 0 rfl hsmall rfl (.inl le_rfl)
  obtain ⟨hits, hhits, -, hexact⟩ := hband [1, 0] 1 smallConfig.association (by decide)
  exact ⟨⟨results, hresults, hscores, honce _ _ _ _ _ _ _ hresults⟩, hits, hhits,
    hexact (by decide) hsmall⟩

end

/-- The linked partner is returned beside the one trace that was asked for. -/
theorem linked_partner_recalled :
    (linkedCore.storage.points .episodic).length ≤ recallSearchCap ∧
      (linkedCore.recall smallConfig rationalBackend nearEmbedder "near" 1 .episodic 0 0).map
          (·.1.map RecalledMemory.score) = some [1, 3 / 5] ∧
      best 1 (linkedCore.productsOf smallConfig rationalBackend .episodic [1, 0]) = [1] := by
  decide +kernel

end Kaine.EpisodicMemory
