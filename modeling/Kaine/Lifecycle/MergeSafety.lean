import Kaine.Lifecycle.Merge
import Kaine.Lifecycle.WeightGroupsSafety

/-! Which parent each weight group of a merged snapshot comes from, and what a merge that raises
leaves on the snapshot root. -/
namespace Kaine.Merge
open Py

variable {B I : Type} {env : Env B I} {args : Args} {root base : Dir B} {p : Prepared I}
  {merged : ForkSnapshot} {name : String} {keys : List String}

/-- The state of a module in a parent, none where it has no such module. -/
def stateIn (snap : ForkSnapshot) (name : String) : Json :=
  withoutSerializeError (Dict.get snap.modules name)

/-- The parent and the reason that the metadata record for a module. -/
def recorded (merged : ForkSnapshot) (name : String) : Option (Json × Json) :=
  match merged.metadata.lookup "module_weights_from" with
  | some (.obj record) =>
    match record.lookup name with
    | some (.obj entry) => some (Dict.get entry "from", Dict.get entry "reason")
    | _ => none
  | _ => none

theorem get_stripped (snap : ForkSnapshot) (name : String) :
    Dict.get (stripped snap) name = stateIn snap name := by
  unfold Dict.get stripped stateIn
  induction snap.modules with
  | nil => rfl
  | cons kv modules ih =>
    obtain ⟨k, v⟩ := kv
    by_cases hk : name = k
    · simp [hk, Dict.get]
    · simpa [Assoc.lookup_cons_of_ne hk, Dict.get] using ih

theorem mem_sortedNames {names : List String} : name ∈ sortedNames names ↔ name ∈ names := by
  simp [sortedNames]

theorem sortedNames_nodup (names : List String) : (sortedNames names).Nodup :=
  (SortBy.sortBy_perm id names.dedup).nodup_iff.mpr names.nodup_dedup

/-- A module that no parent has is not among the merged names. -/
theorem stateIn_of_not_mem {a b : ForkSnapshot}
    (h : name ∉ sortedNames (a.modules.map Prod.fst ++ b.modules.map Prod.fst)) :
    stateIn a name = .null ∧ stateIn b name = .null := by
  rw [mem_sortedNames, List.mem_append, not_or] at h
  simp [stateIn, Dict.get, Assoc.lookup_of_not_mem h.1, Assoc.lookup_of_not_mem h.2,
    withoutSerializeError]

theorem load_ok {choice : WeightsChoice} {a b : ForkSnapshot} {aIdentity bIdentity : Option I}
    (h : load env args root = .ok (choice, a, b, aIdentity, bIdentity)) :
    normaliseWeightsChoice args.moduleWeightsFrom = .ok choice ∧
      loadSnapshot env root args.snapshotA = .ok a ∧
      loadSnapshot env root args.snapshotB = .ok b := by
  unfold load at h
  split at h
  · cases h
  · simp only [bind_eq_ok] at h
    obtain ⟨choice', hchoice, a', ha, b', hb, _, _, _, _, _, _, _, _, h⟩ := h
    cases h
    exact ⟨hchoice, ha, hb⟩

/-- What a merge has in hand before it writes: the loaded parents, a decision for every group,
and the modules that the loop merged. -/
theorem prepare_ok {calls : List Call} (h : prepare env args root = (calls, .ok p)) :
    ∃ choice worldModel names sources,
      normaliseWeightsChoice args.moduleWeightsFrom = .ok choice ∧
      loadSnapshot env root args.snapshotA = .ok p.a ∧
      loadSnapshot env root args.snapshotB = .ok p.b ∧
      names = sortedNames (p.a.modules.map Prod.fst ++ p.b.modules.map Prod.fst) ∧
      decideAll choice (stripped p.a) (stripped p.b) names = (sources, []) ∧
      mergeModules (strategyOf env args) worldModel sources (stripped p.a) (stripped p.b) names =
        (calls, .ok p.modules) ∧
      ∃ tail, p.weightRecord = (sources.map fun s => (s.1, s.2.parent, s.2.reason)) ++ tail ∧
        ∀ r ∈ tail, r.1 = worldModelName := by
  unfold prepare at h
  split at h
  · cases h
  · rename_i choice a b aIdentity bIdentity hload
    obtain ⟨hchoice, ha, hb⟩ := load_ok hload
    dsimp only at h
    split at h
    · cases h
    · obtain ⟨sources, needs, hdecide⟩ : ∃ sources needs, decideAll choice (stripped a)
          (stripped b) (sortedNames (a.modules.map Prod.fst ++ b.modules.map Prod.fst)) =
            (sources, needs) := ⟨_, _, rfl⟩
      rw [hdecide] at h
      dsimp only at h
      split at h
      · cases h
      · rename_i hneeds
        obtain rfl : needs = [] := by simpa using hneeds
        simp only [Prod.mk.injEq] at h
        obtain ⟨rfl, h⟩ := h
        cases hmerged : (mergeModules (strategyOf env args) (worldModelSource
            (findArtifactsDir root a.id "world_model").isSome
            (findArtifactsDir root b.id "world_model").isSome
            (args.worldModelFrom.bind parentOfText) (stripped a) (stripped b)).1 sources
            (stripped a) (stripped b)
            (sortedNames (a.modules.map Prod.fst ++ b.modules.map Prod.fst))).2 with
        | error e => simp [hmerged, Except.map] at h
        | ok modules =>
          simp only [hmerged, Except.map, Except.ok.injEq] at h
          subst h
          refine ⟨choice, _, _, sources, hchoice, ha, hb, rfl, hdecide, Prod.ext rfl hmerged, ?_⟩
          dsimp only
          split
          · exact ⟨_, rfl, by simp⟩
          · exact ⟨[], by simp, by simp⟩

/-- A merge that returns was prepared, and the adapter merger, the copies and the save went
through. -/
theorem merge_ok (h : (merge env args root).result = .ok merged) :
    ∃ p adapters adapterMeta sources, prepare env args root = ((merge env args root).calls, .ok p) ∧
      merged = mergedSnapshot env args p adapters adapterMeta sources := by
  unfold merge at h ⊢
  cases hprepare : prepare env args root with
  | mk calls prepared =>
    cases prepared with
    | error e => simp [hprepare] at h
    | ok p =>
      simp only [hprepare] at h ⊢
      obtain ⟨adapted, root', hadapt⟩ : ∃ adapted root',
          env.adapterMerger p.a.adapters p.b.adapters root = (adapted, root') := ⟨_, _, rfl⟩
      rw [hadapt] at h ⊢
      cases adapted with
      | error e => cases h
      | ok adapted =>
        obtain ⟨adapters, adapterMeta⟩ := adapted
        simp only at h ⊢
        refine ⟨p, adapters, adapterMeta, ?_⟩
        unfold finish at h
        split at h
        · cases h
        · split at h
          · cases h
          · rename_i sources root'' hcopy
            dsimp only at h
            split at h
            · cases h
            · split at h
              · cases h
                exact ⟨sources, rfl, rfl⟩
              · cases h
                exact ⟨sources, rfl, rfl⟩

theorem lookup_set_of_ne {d : Dict} {key other : String} {value : Json} (h : other ≠ key) :
    (Dict.set d key value).lookup other = d.lookup other := Assoc.lookup_assign_of_ne h

/-- The weight record is in the merged metadata, whatever else is. -/
theorem metadata_weightRecord (adapters : List String) (adapterMeta : Dict)
    (sources : List (String × Parent)) :
    (mergedSnapshot env args p adapters adapterMeta sources).metadata.lookup "module_weights_from" =
      some (.obj (p.weightRecord.map fun r =>
        (r.1, .obj [("from", parentJson r.2.1), ("reason", .str r.2.2)]))) := by
  have hbase : (combinedMetadata env args p adapterMeta).lookup "module_weights_from" =
      some (.obj (p.weightRecord.map fun r =>
        (r.1, .obj [("from", parentJson r.2.1), ("reason", .str r.2.2)]))) := by
    unfold combinedMetadata
    dsimp only
    split <;> split <;> (try split) <;> simp [lookup_set_of_ne]
  unfold mergedSnapshot
  dsimp only
  split
  · exact hbase
  · rw [lookup_set_of_ne (by decide), hbase]

theorem recorded_eq (adapters : List String) (adapterMeta : Dict)
    (sources : List (String × Parent)) (name : String) :
    recorded (mergedSnapshot env args p adapters adapterMeta sources) name =
      (p.weightRecord.lookup name).map fun r => (parentJson r.1, .str r.2) := by
  rw [recorded, metadata_weightRecord]
  dsimp only
  induction p.weightRecord with
  | nil => rfl
  | cons r record ih =>
    obtain ⟨k, parent, reason⟩ := r
    by_cases hk : name = k
    · simp [hk, Dict.get, List.lookup_cons]
    · simpa [Assoc.lookup_cons_of_ne hk] using ih

/-- A parent holds a key of a group, or one of its learned parameters. -/
def HoldsGroup (snap : ForkSnapshot) (name : String) (keys : List String) : Prop :=
  ∃ key ∈ keys, field (stateIn snap name) key ≠ none

def HoldsParameters (snap : ForkSnapshot) (name : String) (keys : List String) : Prop :=
  hasParams name (weightGroup (stateIn snap name) keys) = true

/-- Both parents hold the group, and Python finds the two unequal. -/
def GroupsDiffer (a b : ForkSnapshot) (name : String) (keys : List String) : Prop :=
  ∃ groupA groupB, weightGroup (stateIn a name) keys = some groupA ∧
    weightGroup (stateIn b name) keys = some groupB ∧
    Json.pyEq (.obj groupA) (.obj groupB) = false

/-- The merged state of a module holds under the group's keys what one parent holds there, the one
that is recorded, and the one that the caller named where there was a choice between learned
parameters. -/
def TakenWhole (choice : WeightsChoice) (a b merged : ForkSnapshot) (name : String)
    (keys : List String) : Prop :=
  ∃ parent reason state, recorded merged name = some (parentJson parent, .str reason) ∧
    merged.modules.lookup name = some state ∧
    (∀ key ∈ keys, field state key = field (stateIn (pick parent a b) name) key) ∧
    (GroupsDiffer a b name keys → HoldsParameters a name keys → HoldsParameters b name keys →
      choice.get name = some parent)

/-- No parent is recorded for a module, and what the merge has of it holds no key of the group. -/
def Ungrouped (merged : ForkSnapshot) (name : String) (keys : List String) : Prop :=
  recorded merged name = none ∧
    ∀ state key, merged.modules.lookup name = some state → key ∈ keys → field state key = none

theorem weightGroup_isSome {snap : ForkSnapshot} (hnodup : keys.Nodup) :
    weightGroup (stateIn snap name) keys ≠ none ↔ HoldsGroup snap name keys := by
  constructor
  · intro h
    obtain ⟨group, hgroup⟩ := Option.ne_none_iff_exists'.mp h
    exact (weightGroup_some hnodup hgroup).2.2
  · rintro ⟨key, hk, hfield⟩ hnone
    exact hfield (weightGroup_none hnodup hnone hk)

/-- The record of a module with a weight group is the decision for it. -/
theorem lookup_weightRecord {sources : List (String × Source)}
    {tail : List (String × Parent × String)} (hkeys : moduleWeightGroups.lookup name = some keys)
    (htail : ∀ r ∈ tail, r.1 = worldModelName) :
    ((sources.map fun s => (s.1, s.2.parent, s.2.reason)) ++ tail).lookup name =
      (sources.lookup name).map fun s => (s.parent, s.reason) := by
  have hname : name ≠ worldModelName := by
    rintro rfl
    simp [worldModel_no_group] at hkeys
  induction sources with
  | nil =>
    have hnot : name ∉ tail.map Prod.fst := by
      intro hmem
      obtain ⟨r, hr, hreq⟩ := List.mem_map.mp hmem
      exact hname (hreq.symm.trans (htail r hr))
    simpa using Assoc.lookup_of_not_mem hnot
  | cons s sources ih =>
    obtain ⟨k, source⟩ := s
    by_cases hk : name = k
    · simp [hk]
    · simpa [Assoc.lookup_cons_of_ne hk] using ih

/-- Every merge that returns takes each group whole where some parent holds one of its keys, and
leaves the group empty elsewhere. -/
theorem groups_of_merge (h : (merge env args root).result = .ok merged)
    (hkeys : moduleWeightGroups.lookup name = some keys) :
    ∃ choice a b, normaliseWeightsChoice args.moduleWeightsFrom = .ok choice ∧
      loadSnapshot env root args.snapshotA = .ok a ∧
      loadSnapshot env root args.snapshotB = .ok b ∧
      (HoldsGroup a name keys ∨ HoldsGroup b name keys → TakenWhole choice a b merged name keys) ∧
      (¬(HoldsGroup a name keys ∨ HoldsGroup b name keys) → Ungrouped merged name keys) := by
  obtain ⟨p, adapters, adapterMeta, copied, hprepare, rfl⟩ := merge_ok h
  obtain ⟨choice, worldModel, names, sources, hchoice, ha, hb, hnames, hdecide, hmerged, tail,
    hrecord, htail⟩ := prepare_ok hprepare
  have hnodup := nodup_of_lookup hkeys
  have hrec : recorded (mergedSnapshot env args p adapters adapterMeta copied) name =
      (sources.lookup name).map fun s => (parentJson s.parent, .str s.reason) := by
    rw [recorded_eq, hrecord, lookup_weightRecord hkeys htail, Option.map_map]
    rfl
  have hlookup := decideAll_lookup choice (stripped p.a) (stripped p.b) names name
  rw [hdecide, get_stripped, get_stripped] at hlookup
  obtain ⟨hunmerged, hstate⟩ := mergeModules_lookup name hmerged
  rw [get_stripped, get_stripped] at hstate
  refine ⟨choice, p.a, p.b, hchoice, ha, hb, ?_⟩
  by_cases hmem : name ∈ names
  · rw [if_pos hmem] at hlookup
    obtain ⟨calls, state, hstate, hmodule⟩ := hstate hmem
    cases hd : decideGroup choice name (stateIn p.a name) (stateIn p.b name) with
    | needsChoice holders =>
      have hempty : (decideAll choice (stripped p.a) (stripped p.b) names).2 = [] := by rw [hdecide]
      have hnone := decideAll_needs holders hempty hmem
      rw [get_stripped, get_stripped] at hnone
      exact absurd hd hnone
    | untouched =>
      rw [hd] at hlookup
      obtain ⟨hnoneA, hnoneB⟩ := decideGroup_untouched hkeys hd
      have hnot : ¬(HoldsGroup p.a name keys ∨ HoldsGroup p.b name keys) := by
        rw [← weightGroup_isSome hnodup, ← weightGroup_isSome hnodup]
        simp [hnoneA, hnoneB]
      refine ⟨fun hholds => absurd hholds hnot,
        fun _ => ⟨by simp [hrec, hlookup, Decision.toSource], ?_⟩⟩
      intro state' key hstate' hk
      obtain rfl : state = state' := Option.some.inj (hstate.symm.trans hstate')
      have hgroup := mergeModule_group hkeys (by simp [hlookup, Decision.toSource]) hmodule key hk
      simpa [hlookup, Decision.toSource] using hgroup
    | taken source =>
      rw [hd] at hlookup
      obtain ⟨⟨group, hgroup, hpick⟩, hchosen⟩ := decideGroup_taken hkeys hd
      obtain ⟨hfields, hsub, hholds⟩ := weightGroup_some hnodup hpick
      have hholds : HoldsGroup p.a name keys ∨ HoldsGroup p.b name keys := by
        cases hparent : source.parent with
        | a =>
          rw [hparent] at hholds
          exact .inl hholds
        | b =>
          rw [hparent] at hholds
          exact .inr hholds
      refine ⟨fun _ => ?_, fun hnot => absurd hholds hnot⟩
      have hmerge := mergeModule_group hkeys (by
        rintro s g hs hg
        rw [hlookup] at hs
        obtain rfl := Option.some.inj hs
        obtain rfl := Option.some.inj (hgroup.symm.trans hg)
        exact hsub) hmodule
      refine ⟨source.parent, source.reason, state, by simp [hrec, hlookup, Decision.toSource],
        hstate, ?_, ?_⟩
      · intro key hk
        rw [hmerge key hk, hlookup]
        simp only [Decision.toSource, Option.bind_some, hgroup]
        rw [hfields key hk]
        cases source.parent <;> rfl
      · rintro ⟨groupA, groupB, hA, hB, hne⟩ hpA hpB
        refine hchosen groupA groupB hA hB hne ?_ ?_
        · rwa [HoldsParameters, hA] at hpA
        · rwa [HoldsParameters, hB] at hpB
  · rw [if_neg hmem] at hlookup
    have hnull := stateIn_of_not_mem (hnames ▸ hmem)
    have hnot : ¬(HoldsGroup p.a name keys ∨ HoldsGroup p.b name keys) := by
      simp [HoldsGroup, hnull.1, hnull.2, field, Json.asDict]
    refine ⟨fun hholds => absurd hholds hnot, fun _ => ⟨by simp [hrec, hlookup], ?_⟩⟩
    intro state key hs _
    have hnone := hunmerged hmem
    simp [mergedSnapshot, hnone] at hs

theorem calls_eq (env : Env B I) (args : Args) (root : Dir B) :
    (merge env args root).calls = (prepare env args root).1 := by
  unfold merge
  split
  · rename_i hprepare
    rw [hprepare]
  · rename_i hprepare
    rw [hprepare]
    split <;> rfl

/-- No strategy is handed a key of its module's weight group, in any merge. -/
theorem calls_of_merge {call : Call} {key : String} (h : call ∈ (merge env args root).calls)
    (hkeys : moduleWeightGroups.lookup call.module = some keys) (hk : key ∈ keys) :
    field call.stateA key = none ∧ field call.stateB key = none := by
  rw [calls_eq, prepare] at h
  split at h
  · simp at h
  · dsimp only at h
    split at h
    · simp at h
    · split at h
      · simp at h
      · exact mergeModules_calls h hkeys hk

/-- In every merge that returns, each module's weight group comes whole from the recorded parent,
where some parent holds a key of it; elsewhere nothing is recorded and the group stays empty. No
strategy is called with a group key. -/
theorem weight_groups_whole :
    (∀ (env : Env B I) (args : Args) (root : Dir B) (merged : ForkSnapshot) (name : String)
      (keys : List String), (merge env args root).result = .ok merged →
      moduleWeightGroups.lookup name = some keys →
      ∃ choice a b, normaliseWeightsChoice args.moduleWeightsFrom = .ok choice ∧
        loadSnapshot env root args.snapshotA = .ok a ∧
        loadSnapshot env root args.snapshotB = .ok b ∧
        (HoldsGroup a name keys ∨ HoldsGroup b name keys →
          TakenWhole choice a b merged name keys) ∧
        (¬(HoldsGroup a name keys ∨ HoldsGroup b name keys) → Ungrouped merged name keys)) ∧
    ∀ (env : Env B I) (args : Args) (root : Dir B) (call : Call) (keys : List String)
      (key : String), call ∈ (merge env args root).calls →
      moduleWeightGroups.lookup call.module = some keys → key ∈ keys →
      field call.stateA key = none ∧ field call.stateB key = none :=
  ⟨fun _ _ _ _ _ _ h hkeys => groups_of_merge h hkeys,
    fun _ _ _ _ _ _ h hkeys hk => calls_of_merge h hkeys hk⟩

/-- Files that hold their snapshot as it is, no identities and no real adapter merger. -/
def plainEnv (fails : FsOp → Bool) : Env ForkSnapshot Unit where
  decode := .ok
  encode := id
  identityOf := fun _ => .ok none
  checkSidecar := fun _ _ => .ok ()
  identityDict := fun _ => []
  entityId := fun _ => ""
  sidecar := fun _ => { id := "", timestamp := .fin 0 }
  adapterMerger := fakeAdapterMerger
  strategies := []
  defaultStrategy := fun a _ => .ok (a.asDict.getD [])
  newId := "00000000000000cc"
  now := .fin 0
  fails := fails

/-- Two parents with the given modules and nothing else. -/
def twoParents (modulesA modulesB : Dict) : Dir ForkSnapshot :=
  [("00000000000000aa", .dir [("snapshot.json",
      .file { id := "00000000000000aa", timestamp := .fin 0, modules := modulesA })]),
   ("00000000000000bb", .dir [("snapshot.json",
      .file { id := "00000000000000bb", timestamp := .fin 0, modules := modulesB })])]

def plainArgs : Args where
  snapshotA := "00000000000000aa"
  snapshotB := "00000000000000bb"

/-- Two forks whose vision modules have learned apart. -/
def visionParents : Dir ForkSnapshot :=
  twoParents [("vision", .obj [("forward_model", .arr [.int 1]), ("frames", .int 4)])]
    [("vision", .obj [("forward_model", .arr [.int 2]), ("frames", .int 5)])]

def visionFromB : Args := { plainArgs with moduleWeightsFrom := .text "b" }

theorem ok_of_toOption {ε α : Type*} {x : Except ε α} {v : α} (h : x.toOption = some v) :
    x = .ok v := by
  cases x with
  | error e => cases h
  | ok u =>
    cases h
    rfl

/-- A named parent's group continues under its key, the rest comes from the strategy. -/
theorem weight_groups_whole_vision : ∃ merged choice a b,
    (merge (plainEnv fun _ => false) visionFromB visionParents).result = .ok merged ∧
    merged.modules = [("vision", .obj [("frames", .int 4), ("forward_model", .arr [.int 2])])] ∧
    loadSnapshot (plainEnv fun _ => false) visionParents visionFromB.snapshotA = .ok a ∧
    loadSnapshot (plainEnv fun _ => false) visionParents visionFromB.snapshotB = .ok b ∧
    TakenWhole choice a b merged "vision" ["forward_model", "encoder_model_id"] := by
  have hrun : ((merge (plainEnv fun _ => false) visionFromB visionParents).result.toOption.map
      (·.modules)) =
        some [("vision", .obj [("frames", .int 4), ("forward_model", .arr [.int 2])])] := by
    decide +kernel
  obtain ⟨merged, hmerged, hmodules⟩ := Option.map_eq_some_iff.mp hrun
  have hok := ok_of_toOption hmerged
  obtain ⟨choice, a, b, -, ha, hb, htaken, -⟩ :=
    weight_groups_whole.1 _ _ _ merged "vision" ["forward_model",
      "encoder_model_id"] hok (by decide)
  refine ⟨merged, choice, a, b, hok, hmodules, ha, hb, htaken (.inl ?_)⟩
  cases ha
  exact ⟨"forward_model", by decide, by decide⟩

/-- A merge of parents without modules returns and records no parent, so not every weight group
has a recorded one. -/
theorem group_without_record : ¬ ∀ (env : Env ForkSnapshot Unit) (args : Args)
    (root : Dir ForkSnapshot) (merged : ForkSnapshot) (name : String) (keys : List String),
    (merge env args root).result = .ok merged → moduleWeightGroups.lookup name = some keys →
    ∃ choice a b, normaliseWeightsChoice args.moduleWeightsFrom = .ok choice ∧
      loadSnapshot env root args.snapshotA = .ok a ∧ loadSnapshot env root args.snapshotB = .ok b ∧
      TakenWhole choice a b merged name keys := by
  intro h
  have hrun : ((merge (plainEnv fun _ => false) plainArgs (twoParents [] [])).result.toOption.map
      fun m => recorded m "vision") = some none := by decide +kernel
  obtain ⟨merged, hmerged, hnone⟩ := Option.map_eq_some_iff.mp hrun
  have hok := ok_of_toOption hmerged
  obtain ⟨_, _, _, _, _, _, parent, reason, state, hrec, _⟩ := h _ _ _ merged "vision"
    ["forward_model", "encoder_model_id"] hok (by decide)
  simp [hnone] at hrec

end Kaine.Merge
