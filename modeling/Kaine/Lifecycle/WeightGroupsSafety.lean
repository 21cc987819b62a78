import Kaine.Lifecycle.WeightGroups

/-! A merged module holds its weight group whole from one parent, and no strategy sees a group
key. -/
namespace Kaine.Merge
open Py

variable {state stateA stateB : Json} {keys names : List String} {key name : String}
  {choice : WeightsChoice} {a b : Dict} {parent worldModel : Parent} {source : Source}
  {sources : List (String × Source)} {strategy : String → Strategy}

/-- What a state holds under a key. -/
def field (state : Json) (key : String) : Option Json := state.asDict.bind (·.lookup key)

theorem lookup_filter {V : Type} (p : String → Bool) (d : List (String × V)) (key : String) :
    (d.filter fun kv => p kv.1).lookup key = if p key then d.lookup key else none := by
  induction d with
  | nil => simp
  | cons kv d ih =>
    obtain ⟨k, v⟩ := kv
    by_cases hk : key = k
    · subst hk
      by_cases hp : p key
      · simp [hp]
      · simp [hp, ih]
    · by_cases hp : p k
      · simp [hp, Assoc.lookup_cons_of_ne hk, ih]
      · simp [hp, Assoc.lookup_cons_of_ne hk, ih]

theorem lookup_erase (d : Dict) (k key : String) :
    (Dict.erase d k).lookup key = if key = k then none else d.lookup key := by
  have h := lookup_filter (fun x => x ≠ k) d key
  by_cases hk : key = k
  · simpa [Dict.erase, hk] using h
  · simpa [Dict.erase, hk] using h

theorem lookup_eraseAll (keys : List String) (d : Dict) (key : String) :
    (keys.foldl Dict.erase d).lookup key = if key ∈ keys then none else d.lookup key := by
  induction keys generalizing d with
  | nil => simp
  | cons k keys ih =>
    rw [List.foldl_cons, ih, lookup_erase]
    by_cases hk : key = k
    · simp [hk]
    · simp [hk]

theorem field_withoutGroup (h : key ∈ keys) : field (withoutGroup state keys) key = none := by
  cases state with
  | obj d =>
    have hl := lookup_filter (fun x => !keys.contains x) d key
    simpa [field, withoutGroup, Json.asDict, h] using hl
  | _ => rfl

/-- The pairs of a group have the group's keys, in order. -/
theorem lookup_pairs (hnodup : keys.Nodup) (d : Dict) (key : String) :
    (keys.filterMap fun k => (d.lookup k).map fun v => (k, v)).lookup key =
      if key ∈ keys then d.lookup key else none := by
  induction keys with
  | nil => simp
  | cons k keys ih =>
    obtain ⟨hk, hrest⟩ := List.nodup_cons.mp hnodup
    have hih := ih hrest
    cases hl : d.lookup k with
    | none =>
      rw [List.filterMap_cons, hl]
      by_cases he : key = k
      · subst he
        simp [hih, hk, hl]
      · simp [hih, he]
    | some v =>
      rw [List.filterMap_cons, hl]
      by_cases he : key = k
      · subst he
        simp [hl]
      · simp [Assoc.lookup_cons_of_ne he, hih, he]

theorem pairs_keys (d : Dict) (keys : List String) :
    ((keys.filterMap fun k => (d.lookup k).map fun v => (k, v)).map Prod.fst).Sublist keys := by
  induction keys with
  | nil => simp
  | cons k keys ih =>
    cases hl : d.lookup k with
    | none => simpa [List.filterMap_cons, hl] using ih.cons k
    | some v => simpa [List.filterMap_cons, hl] using ih.cons_cons k

theorem weightGroup_none (hnodup : keys.Nodup) (h : weightGroup state keys = none)
    (hk : key ∈ keys) : field state key = none := by
  cases state with
  | obj d =>
    have hl := lookup_pairs hnodup d key
    simp only [weightGroup] at h
    split at h
    · rename_i hempty
      rw [List.isEmpty_iff.mp hempty] at hl
      simpa [field, Json.asDict, hk] using hl.symm
    · cases h
  | _ => rfl

/-- A group holds just what its state holds under the group's keys. -/
theorem weightGroup_some {group : Dict} (hnodup : keys.Nodup)
    (h : weightGroup state keys = some group) :
    (∀ key ∈ keys, group.lookup key = field state key) ∧ (group.map Prod.fst).Sublist keys ∧
      ∃ key ∈ keys, field state key ≠ none := by
  cases state with
  | obj d =>
    simp only [weightGroup] at h
    split at h
    · cases h
    · rename_i hne
      cases h
      have hlookup : ∀ key ∈ keys, (keys.filterMap fun k => (d.lookup k).map fun v =>
          (k, v)).lookup key = field (.obj d) key := by
        intro key hk
        simpa [field, Json.asDict, hk] using lookup_pairs hnodup d key
      refine ⟨hlookup, pairs_keys d keys, ?_⟩
      obtain ⟨kv, hkv⟩ := List.exists_mem_of_ne_nil _ (fun hnil => hne (List.isEmpty_iff.mpr hnil))
      obtain ⟨k, hk, hv⟩ := List.mem_filterMap.mp hkv
      refine ⟨k, hk, ?_⟩
      intro hnone
      have hnone : d.lookup k = none := by simpa [field, Json.asDict] using hnone
      simp [hnone] at hv
  | _ => cases h

theorem groups_nodup : ∀ row ∈ moduleWeightGroups, row.2.Nodup := by decide

theorem nodup_of_lookup (h : moduleWeightGroups.lookup name = some keys) : keys.Nodup := by
  obtain ⟨front, back, hsplit, _⟩ := List.lookup_eq_some_iff.mp h
  exact groups_nodup (name, keys) (by simp [hsplit])

theorem worldModel_no_group : moduleWeightGroups.lookup worldModelName = none := by decide

/-- The parent that is taken holds the group, whether it was decided or chosen. -/
theorem weightSource_holds {groupA groupB : Option Dict} {decided : Option Parent} {reason : String}
    (h : weightSource name groupA groupB = (decided, reason))
    (hsome : ¬(groupA = none ∧ groupB = none))
    (hparent : decided.or (choice.get name) = some parent) :
    pick parent groupA groupB ≠ none := by
  cases groupA with
  | none =>
    cases groupB with
    | none => simp at hsome
    | some b =>
      cases h
      cases hparent
      nofun
  | some a =>
    cases groupB with
    | none =>
      cases h
      cases hparent
      nofun
    | some b => cases parent <;> nofun

/-- Two groups that differ and both hold learned parameters leave the choice to the caller. -/
theorem weightSource_chosen {groupA groupB : Dict}
    (hne : Json.pyEq (.obj groupA) (.obj groupB) = false)
    (ha : hasParams name (some groupA) = true) (hb : hasParams name (some groupB) = true) :
    weightSource name (some groupA) (some groupB) = (none, "chosen") := by
  simp [weightSource, holders, hne, ha, hb]

/-- A module's group is taken from a parent that holds it, and from the parent that the caller
names where both hold learned parameters and the groups differ. -/
theorem decideGroup_taken (hkeys : moduleWeightGroups.lookup name = some keys)
    (h : decideGroup choice name stateA stateB = .taken source) :
    (∃ group, source.group = some group ∧
      weightGroup (pick source.parent stateA stateB) keys = some group) ∧
    ∀ groupA groupB, weightGroup stateA keys = some groupA →
      weightGroup stateB keys = some groupB → Json.pyEq (.obj groupA) (.obj groupB) = false →
      hasParams name (some groupA) = true → hasParams name (some groupB) = true →
      choice.get name = some source.parent := by
  simp only [decideGroup, hkeys] at h
  split at h
  · cases h
  · rename_i hnone
    have hsome : ¬(weightGroup stateA keys = none ∧ weightGroup stateB keys = none) := by
      simpa using hnone
    have hpick : ∀ parent, pick parent (weightGroup stateA keys) (weightGroup stateB keys) =
        weightGroup (pick parent stateA stateB) keys := by
      intro parent
      cases parent <;> rfl
    obtain ⟨decided, reason, hsource⟩ : ∃ decided reason,
        weightSource name (weightGroup stateA keys) (weightGroup stateB keys) =
          (decided, reason) := ⟨_, _, rfl⟩
    rw [hsource] at h
    dsimp only at h
    split at h
    · cases h
    · rename_i parent hparent
      cases h
      dsimp only
      refine ⟨?_, ?_⟩
      · have hholds := weightSource_holds hsource hsome hparent
        obtain ⟨group, hgroup⟩ := Option.ne_none_iff_exists'.mp hholds
        exact ⟨group, hgroup, (hpick parent).symm.trans hgroup⟩
      · intro groupA groupB ha hb hne hpa hpb
        rw [ha, hb, weightSource_chosen hne hpa hpb] at hsource
        cases hsource
        simpa using hparent

theorem decideGroup_untouched (hkeys : moduleWeightGroups.lookup name = some keys)
    (h : decideGroup choice name stateA stateB = .untouched) :
    weightGroup stateA keys = none ∧ weightGroup stateB keys = none := by
  simp only [decideGroup, hkeys] at h
  split at h
  · rename_i hnone
    simpa using hnone
  · split at h <;> cases h

def Decision.toSource : Decision → Option Source
  | .taken source => some source
  | _ => none

/-- The loop records the decision for each name, and for no other. -/
theorem decideAll_lookup (choice : WeightsChoice) (a b : Dict) (names : List String)
    (name : String) : (decideAll choice a b names).1.lookup name =
      if name ∈ names then
        (decideGroup choice name (Dict.get a name) (Dict.get b name)).toSource
      else none := by
  induction names with
  | nil => simp [decideAll]
  | cons n names ih =>
    have hother : name ≠ n → (if name ∈ n :: names then
        (decideGroup choice name (Dict.get a name) (Dict.get b name)).toSource else none) =
        (decideAll choice a b names).1.lookup name := by
      intro hne
      rw [ih]
      simp [hne]
    by_cases he : name = n
    · subst he
      simp only [decideAll, List.mem_cons, true_or, if_true]
      cases hd : decideGroup choice name (Dict.get a name) (Dict.get b name) with
      | taken source => simp [Decision.toSource]
      | untouched =>
        rw [hd] at ih
        simpa [Decision.toSource] using ih
      | needsChoice holders =>
        rw [hd] at ih
        simpa [Decision.toSource] using ih
    · rw [hother he, decideAll]
      dsimp only
      split <;> simp [Assoc.lookup_cons_of_ne he]

theorem decideAll_needs (holders : List Parent) (h : (decideAll choice a b names).2 = [])
    (hname : name ∈ names) :
    decideGroup choice name (Dict.get a name) (Dict.get b name) ≠ .needsChoice holders := by
  induction names with
  | nil => simp at hname
  | cons n names ih =>
    intro hd
    simp only [decideAll] at h
    rcases List.mem_cons.mp hname with rfl | hmem
    · simp [hd] at h
    · split at h
      · exact ih h hmem hd
      · simp at h
      · exact ih h hmem hd

/-- What a merge of a weight-bearing module leaves: under its group's keys just the taken group. -/
theorem mergeModule_group {strategy : Strategy} {source : Option Source} {calls : List Call}
    (hkeys : moduleWeightGroups.lookup name = some keys)
    (hgroup : ∀ s group, source = some s → s.group = some group →
      (group.map Prod.fst).Sublist keys)
    (h : mergeModule strategy worldModel source name stateA stateB = (calls, .ok state)) :
    ∀ key ∈ keys, field state key = source.bind fun s => s.group.bind (·.lookup key) := by
  have hworld : name ≠ worldModelName := by
    rintro rfl
    simp [worldModel_no_group] at hkeys
  intro key hk
  simp only [mergeModule, if_neg hworld, hkeys, Prod.mk.injEq] at h
  obtain ⟨_, h⟩ := h
  split at h
  · cases h
  · rename_i merged hmerged
    have herased := lookup_eraseAll keys merged key
    rw [if_pos hk] at herased
    split at h
    · cases h
      simpa [field, Json.asDict] using herased
    · rename_i parent reason group
      cases h
      have hsub := hgroup _ group rfl rfl
      have hlookup := Assoc.lookup_assignAll key (d := keys.foldl Dict.erase merged)
        ((nodup_of_lookup hkeys).sublist hsub)
      rw [herased, Option.or_none] at hlookup
      simpa [field, Json.asDict, Dict.update] using hlookup
    · cases h

theorem mergeModule_calls {strategy : Strategy} {source : Option Source} {call : Call}
    (h : call ∈ (mergeModule strategy worldModel source name stateA stateB).1)
    (hkeys : moduleWeightGroups.lookup call.module = some keys) (hk : key ∈ keys) :
    field call.stateA key = none ∧ field call.stateB key = none := by
  unfold mergeModule at h
  split at h
  · simp at h
  · split at h
    · rename_i hnone
      simp only [List.mem_singleton] at h
      rw [h, hnone] at hkeys
      cases hkeys
    · rename_i keys' hsome
      simp only [List.mem_singleton] at h
      rw [h] at hkeys ⊢
      obtain rfl : keys' = keys := Option.some.inj (hsome.symm.trans hkeys)
      exact ⟨field_withoutGroup hk, field_withoutGroup hk⟩

theorem mergeModules_cons {calls : List Call} {modules : Dict}
    (h : mergeModules strategy worldModel sources a b (name :: names) = (calls, .ok modules)) :
    ∃ calls' calls'' state rest, modules = (name, state) :: rest ∧
      mergeModule (strategy name) worldModel (sources.lookup name) name (Dict.get a name)
        (Dict.get b name) = (calls', .ok state) ∧
      mergeModules strategy worldModel sources a b names = (calls'', .ok rest) := by
  simp only [mergeModules] at h
  split at h
  · cases h
  · rename_i calls' state hstate
    simp only [Prod.mk.injEq] at h
    obtain ⟨_, h⟩ := h
    cases hrest : mergeModules strategy worldModel sources a b names with
    | mk calls'' result =>
      cases result with
      | error e => simp [hrest, Except.map] at h
      | ok rest =>
        simp only [hrest, Except.map, Except.ok.injEq] at h
        exact ⟨calls', calls'', state, rest, h.symm, hstate, rfl⟩

/-- The loop leaves one merged state for each name. -/
theorem mergeModules_lookup {calls : List Call} {modules : Dict} (name : String)
    (h : mergeModules strategy worldModel sources a b names = (calls, .ok modules)) :
    (name ∉ names → modules.lookup name = none) ∧
    (name ∈ names → ∃ calls' state, modules.lookup name = some state ∧
      mergeModule (strategy name) worldModel (sources.lookup name) name (Dict.get a name)
        (Dict.get b name) = (calls', .ok state)) := by
  induction names generalizing calls modules with
  | nil =>
    cases h
    simp
  | cons n names ih =>
    obtain ⟨calls', calls'', state, rest, rfl, hstate, hrest⟩ := mergeModules_cons h
    obtain ⟨hnot, hmem⟩ := ih hrest
    by_cases he : name = n
    · subst he
      simpa using ⟨calls', hstate⟩
    · rw [Assoc.lookup_cons_of_ne he, List.mem_cons, or_iff_right he]
      exact ⟨hnot, hmem⟩

/-- No strategy sees a key of its module's group, whether the merge goes through or not. -/
theorem mergeModules_calls {call : Call}
    (h : call ∈ (mergeModules strategy worldModel sources a b names).1)
    (hkeys : moduleWeightGroups.lookup call.module = some keys) (hk : key ∈ keys) :
    field call.stateA key = none ∧ field call.stateB key = none := by
  induction names with
  | nil => simp [mergeModules] at h
  | cons n names ih =>
    simp only [mergeModules] at h
    split at h
    · rename_i calls e hstate
      have hcalls : call ∈ (mergeModule (strategy n) worldModel (sources.lookup n) n
          (Dict.get a n) (Dict.get b n)).1 := by
        rw [hstate]
        exact h
      exact mergeModule_calls hcalls hkeys hk
    · rename_i calls state hstate
      rcases List.mem_append.mp h with hcalls | hrest
      · have hcalls : call ∈ (mergeModule (strategy n) worldModel (sources.lookup n) n
            (Dict.get a n) (Dict.get b n)).1 := by
          rw [hstate]
          exact hcalls
        exact mergeModule_calls hcalls hkeys hk
      · exact ih hrest

end Kaine.Merge
