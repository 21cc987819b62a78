import Kaine.Lifecycle.MergeSafety

/-! What a merge that raises leaves on the snapshot root, for every set of failing steps. -/
namespace Kaine.Merge
open Py

variable {B I : Type} {env : Env B I} {args : Args} {root base : Dir B} {p : Prepared I}
  {name : String} {sources : List (String × Parent × Node B)}

/-- The steps of the copy of one artifact directory go through. -/
def copySucceeds (env : Env B I) (name : String) (src : Node B) : Bool :=
  !env.fails (.makeArtifacts name) &&
    (copyChildren (fun path => env.fails (.copy name path)) [] src.children).toOption.isSome

/-- An artifact source whose name is taken, and whose copy goes through where there is one. -/
def passes (env : Env B I) (source : String × Parent × Node B) : Bool :=
  validModuleName source.1 && (!source.2.2.isDir || copySucceeds env source.1 source.2.2)

def copied (source : String × Parent × Node B) : Bool := source.2.2.isDir

def saveSucceeds (env : Env B I) : Bool :=
  !env.fails .makeRoot && !env.fails .makeDir && !env.fails .encode && !env.fails .writeTemp &&
    !env.fails .replace

/-- The copies and the save go through, or the first step of them that fails leaves nothing: a copy,
which cleans up; or a refused name, or a directory that cannot be made, with nothing copied. -/
def WritesClean (env : Env B I) (sources : List (String × Parent × Node B)) : Prop :=
  match sources.dropWhile (passes env) with
  | [] => saveSucceeds env = true ∨
      (env.fails .makeRoot || env.fails .makeDir) = true ∧ sources.any copied = false
  | (name, _) :: _ => validModuleName name = true ∨
      (sources.takeWhile (passes env)).any copied = false

/-- The copies and the save go through. -/
def WritesSucceed (env : Env B I) (sources : List (String × Parent × Node B)) : Prop :=
  sources.dropWhile (passes env) = [] ∧ saveSucceeds env = true

/-- Nothing raises from the adapter merger on, or the adapter merger leaves the root as it is and
what raises is itself, the refusal of its result, or a step of the writes that leaves nothing. -/
def LeavesNothing (env : Env B I) (args : Args) (root : Dir B) : Prop :=
  ∀ calls p, prepare env args root = (calls, .ok p) →
    match env.adapterMerger p.a.adapters p.b.adapters root with
    | (.error _, root') => root' = root
    | (.ok (_, adapterMeta), root') =>
      if refusesAdapters args p adapterMeta then root' = root
      else WritesSucceed env (artifactSources root' p) ∨
        root' = root ∧ WritesClean env (artifactSources root' p)

/-- The root, or the root with a new entry at its end. -/
def Grown (root : Dir B) (id : String) (root' : Dir B) : Prop :=
  ∃ node, root' = root ++ [(id, node)]

theorem assign_grown {id : String} (node : Node B) (hfresh : base.lookup id = none)
    (h : root = base ∨ Grown base id root) : Grown base id (Assoc.assign root id node) := by
  rcases h with rfl | ⟨node', rfl⟩
  · exact ⟨node, Assoc.assign_of_lookup_eq_none hfresh⟩
  · have hkey := Assoc.not_mem_of_lookup_eq_none hfresh
    exact ⟨node, by rw [Assoc.assign_append hkey]; simp [Assoc.assign]⟩

/-- Removing the new snapshot directory leaves the root as it was. -/
theorem removeSnapshotDir_grown {id : String} (hfresh : base.lookup id = none)
    (h : root = base ∨ Grown base id root) : removeSnapshotDir root id = base := by
  have hbase : removeSnapshotDir base id = base := by
    rw [removeSnapshotDir, List.filter_eq_self]
    intro e he
    have hne := List.lookup_eq_none_iff.mp hfresh e he
    have hne : id ≠ e.1 := by simpa using hne
    simpa using hne.symm
  rcases h with rfl | ⟨node, rfl⟩
  · exact hbase
  · rw [removeSnapshotDir, List.filter_append] at *
    simpa using hbase

theorem artifactsOf_put (root : Dir B) (id name : String) (copy : Dir B) :
    artifactsOf (putArtifacts root id name copy) id =
      Assoc.assign (artifactsOf root id) name (.dir copy) := by
  simp [artifactsOf, putArtifacts, subdir, Node.children]

theorem artifactsOf_fresh {id : String} (h : root.lookup id = none) : artifactsOf root id = [] := by
  simp [artifactsOf, subdir, h]

/-- Whether a copy goes through does not depend on what was copied under other names. -/
theorem copyArtifacts_eq (src : Node B) (hnew : (artifactsOf root env.newId).lookup name = none) :
    (copySucceeds env name src = true ∧ ∃ copy, copyArtifacts env root name src = .ok copy) ∨
    (copySucceeds env name src = false ∧ ∃ e, copyArtifacts env root name src = .error e) := by
  unfold copySucceeds copyArtifacts
  cases hmake : env.fails (.makeArtifacts name) with
  | true => exact .inr ⟨rfl, .osError, by simp [hnew]⟩
  | false =>
    cases hcopy : copyChildren (fun path => env.fails (.copy name path)) [] src.children with
    | ok copy => exact .inl ⟨rfl, copy, by simp [hnew]⟩
    | error e => exact .inr ⟨rfl, e, by simp [hnew]⟩

/-- What the copies leave: all of them, nothing where one fails, and where a name is refused
what was copied before it. -/
theorem copyAll_spec (hfresh : base.lookup env.newId = none)
    (hnodup : (sources.map Prod.fst).Nodup) (hroot : root = base ∨ Grown base env.newId root)
    (hnew : ∀ s ∈ sources, (artifactsOf root env.newId).lookup s.1 = none) :
    match sources.dropWhile (passes env) with
    | [] => ∃ chosen root', copyAll env sources root = (.ok chosen, root') ∧
        (sources.any copied = false ∧ root' = root ∨
          sources.any copied = true ∧ Grown base env.newId root')
    | (name, _) :: _ => ∃ e root', copyAll env sources root = (.error e, root') ∧
        (validModuleName name = true ∧ root' = base ∨ validModuleName name = false ∧
          ((sources.takeWhile (passes env)).any copied = false ∧ root' = root ∨
            (sources.takeWhile (passes env)).any copied = true ∧ Grown base env.newId root')) := by
  induction sources generalizing root with
  | nil => exact ⟨[], root, rfl, .inl ⟨rfl, rfl⟩⟩
  | cons s sources ih =>
    obtain ⟨name, chosen, src⟩ := s
    obtain ⟨hname, hrest⟩ := List.nodup_cons.mp hnodup
    cases hvalid : validModuleName name with
    | false =>
      have hpass : passes env (name, chosen, src) = false := by simp [passes, hvalid]
      simp only [List.dropWhile_cons, List.takeWhile_cons, hpass]
      exact ⟨.raised .valueError, root, by simp [copyAll, hvalid], .inr ⟨hvalid, .inl ⟨rfl, rfl⟩⟩⟩
    | true =>
      cases hdir : src.isDir with
      | false =>
        have hpass : passes env (name, chosen, src) = true := by simp [passes, hvalid, hdir]
        have hih := ih hrest hroot fun s hs => hnew s (List.mem_cons_of_mem _ hs)
        have hstep : copyAll env ((name, chosen, src) :: sources) root =
            copyAll env sources root := by simp [copyAll, hvalid, hdir]
        simp only [List.dropWhile_cons, List.takeWhile_cons, hpass, hstep]
        simpa [copied, hdir] using hih
      | true =>
        rcases copyArtifacts_eq src (hnew _ List.mem_cons_self) with
          ⟨hok, copy, hcopy⟩ | ⟨hbad, e, hcopy⟩
        · have hpass : passes env (name, chosen, src) = true := by
            simp [passes, hvalid, hdir, hok]
          have hcopied : copied (name, chosen, src) = true := hdir
          have hgrown : Grown base env.newId (putArtifacts root env.newId name copy) :=
            assign_grown _ hfresh hroot
          have hih := ih hrest (.inr hgrown) (by
            intro s hs
            have hne : s.1 ≠ name := by
              rintro rfl
              exact hname (List.mem_map.mpr ⟨s, hs, rfl⟩)
            rw [artifactsOf_put, Assoc.lookup_assign_of_ne hne]
            exact hnew s (List.mem_cons_of_mem _ hs))
          simp only [List.dropWhile_cons, List.takeWhile_cons, hpass, if_true, List.any_cons,
            hcopied, Bool.true_or]
          cases hdrop : sources.dropWhile (passes env) with
          | nil =>
            rw [hdrop] at hih
            obtain ⟨chosens, root', hrun, hleft⟩ := hih
            refine ⟨(name, chosen) :: chosens, root', ?_, .inr ⟨trivial, ?_⟩⟩
            · simp [copyAll, hvalid, hdir, hcopy, hrun, Except.map]
            · rcases hleft with ⟨_, rfl⟩ | ⟨_, hg⟩
              · exact hgrown
              · exact hg
          | cons bad rest =>
            rw [hdrop] at hih
            obtain ⟨e, root', hrun, hleft⟩ := hih
            refine ⟨e, root', ?_, ?_⟩
            · simp [copyAll, hvalid, hdir, hcopy, hrun, Except.map]
            · rcases hleft with hclean | ⟨hbad, hleft⟩
              · exact .inl hclean
              · refine .inr ⟨hbad, .inr ⟨trivial, ?_⟩⟩
                rcases hleft with ⟨_, rfl⟩ | ⟨_, hg⟩
                · exact hgrown
                · exact hg
        · have hpass : passes env (name, chosen, src) = false := by
            simp [passes, hvalid, hdir, hbad]
          simp only [List.dropWhile_cons, List.takeWhile_cons, hpass]
          refine ⟨.raised e, removeSnapshotDir root env.newId, ?_, .inl ⟨hvalid, ?_⟩⟩
          · simp [copyAll, hvalid, hdir, hcopy]
          · exact removeSnapshotDir_grown hfresh hroot

theorem filterMap_fst_sublist {α : Type} {f : String → Option (String × α)}
    (hf : ∀ n x, f n = some x → x.1 = n) (names : List String) :
    ((names.filterMap f).map Prod.fst).Sublist names := by
  induction names with
  | nil => simp
  | cons n names ih =>
    cases hn : f n with
    | none => simpa [List.filterMap_cons, hn] using ih.cons n
    | some x =>
      have hx := hf n x hn
      simpa [List.filterMap_cons, hn, hx] using ih.cons_cons n

theorem artifactSources_nodup (root : Dir B) (p : Prepared I) :
    ((artifactSources root p).map Prod.fst).Nodup := by
  refine (sortedNames_nodup _).sublist (filterMap_fst_sublist ?_ _)
  intro n x hx
  split at hx
  · obtain ⟨node, _, rfl⟩ := Option.map_eq_some_iff.mp hx
    rfl
  · rcases Option.or_eq_some_iff.mp hx with h | ⟨_, h⟩
    · obtain ⟨node, _, rfl⟩ := Option.map_eq_some_iff.mp h
      rfl
    · obtain ⟨node, _, rfl⟩ := Option.map_eq_some_iff.mp h
      rfl

/-- What the save leaves where it fails: nothing before the snapshot directory is made. -/
theorem saveSnapshot_spec (snap : ForkSnapshot) (hid : snap.id = env.newId)
    (hfresh : base.lookup env.newId = none) (hroot : root = base ∨ Grown base env.newId root) :
    (saveSucceeds env = true ∧ ∃ root', saveSnapshot env root snap = (.ok (), root')) ∨
    (saveSucceeds env = false ∧ ∃ e root', saveSnapshot env root snap = (.error e, root') ∧
      ((env.fails .makeRoot || env.fails .makeDir) = true ∧ root' = root ∨
        (env.fails .makeRoot || env.fails .makeDir) = false ∧ Grown base env.newId root')) := by
  obtain ⟨made, hmade⟩ : ∃ made : Node B, Assoc.assign root snap.id (.dir (subdir root snap.id)) =
      Assoc.assign root env.newId made := ⟨_, by rw [hid]⟩
  have hgrown := assign_grown made hfresh hroot
  unfold saveSnapshot saveSucceeds
  cases hroot' : env.fails .makeRoot with
  | true => exact .inr ⟨rfl, _, root, rfl, .inl ⟨rfl, rfl⟩⟩
  | false =>
    cases hdir : env.fails .makeDir with
    | true => exact .inr ⟨rfl, _, root, rfl, .inl ⟨rfl, rfl⟩⟩
    | false =>
      simp only [hmade, Bool.or_self, Bool.false_eq_true, if_false]
      cases hencode : env.fails .encode with
      | true => exact .inr ⟨rfl, _, _, rfl, .inr ⟨trivial, hgrown⟩⟩
      | false =>
        cases hwrite : env.fails .writeTemp with
        | true => exact .inr ⟨rfl, _, _, rfl, .inr ⟨trivial, hgrown⟩⟩
        | false =>
          cases hreplace : env.fails .replace with
          | true =>
            refine .inr ⟨rfl, _, _, rfl, .inr ⟨trivial, ?_⟩⟩
            rw [hid]
            exact assign_grown _ hfresh (.inr hgrown)
          | false => exact .inl ⟨rfl, _, rfl⟩

/-- Where the result of the adapter merger is taken, the writes go through, or what they leave is
nothing just where they are clean. -/
theorem finish_spec (adapters : List String) {adapterMeta : Dict}
    (hfresh : root.lookup env.newId = none) (haccept : refusesAdapters args p adapterMeta = false) :
    (WritesSucceed env (artifactSources root p) ∧
      ∃ merged root', finish env args p adapters adapterMeta root = (.ok merged, root')) ∨
    (¬WritesSucceed env (artifactSources root p) ∧
      ∃ e root', finish env args p adapters adapterMeta root = (.error e, root') ∧
        (WritesClean env (artifactSources root p) ∧ root' = root ∨
          ¬WritesClean env (artifactSources root p) ∧ Grown root env.newId root')) := by
  have hcopy := copyAll_spec hfresh (artifactSources_nodup root p) (.inl rfl)
    (by simp [artifactsOf_fresh hfresh])
  unfold finish WritesSucceed WritesClean
  rw [haccept]
  cases hdrop : (artifactSources root p).dropWhile (passes env) with
  | cons bad rest =>
    rw [hdrop] at hcopy
    obtain ⟨e, root', hrun, hleft⟩ := hcopy
    refine .inr ⟨by simp, e, root', by simp [hrun], ?_⟩
    rcases hleft with ⟨hvalid, hbase⟩ | ⟨hvalid, ⟨hnone, hsame⟩ | ⟨hsome, hgrown⟩⟩
    · exact .inl ⟨.inl hvalid, hbase⟩
    · exact .inl ⟨.inr hnone, hsame⟩
    · exact .inr ⟨by simp [hvalid, hsome], hgrown⟩
  | nil =>
    rw [hdrop] at hcopy
    obtain ⟨chosen, root', hrun, hleft⟩ := hcopy
    have hroot : root' = root ∨ Grown root env.newId root' := by
      rcases hleft with ⟨_, hsame⟩ | ⟨_, hgrown⟩
      · exact .inl hsame
      · exact .inr hgrown
    rcases saveSnapshot_spec (mergedSnapshot env args p adapters adapterMeta chosen) rfl
      hfresh hroot with ⟨hok, root'', hsave⟩ | ⟨hbad, e, root'', hsave, hsaved⟩
    · refine .inl ⟨⟨rfl, hok⟩, ?_⟩
      simp only [hrun, hsave, Bool.false_eq_true, if_false]
      cases hidentity : p.aIdentity with
      | none => exact ⟨_, _, rfl⟩
      | some identity => exact ⟨_, _, rfl⟩
    · refine .inr ⟨by simp [hbad], e, root'', by simp [hrun, hsave], ?_⟩
      rcases hsaved with ⟨hmake, rfl⟩ | ⟨hmake, hgrown⟩
      · rcases hleft with ⟨hnone, hsame⟩ | ⟨hsome, hgrown⟩
        · exact .inl ⟨.inr ⟨hmake, hnone⟩, hsame⟩
        · exact .inr ⟨by simp [hbad, hsome], hgrown⟩
      · exact .inr ⟨by simp [hbad, hmake], hgrown⟩

/-- The id of the new snapshot names nothing on the root, before and behind the adapter merger. -/
def FreshId (env : Env B I) (root : Dir B) : Prop :=
  root.lookup env.newId = none ∧
    ∀ adaptersA adaptersB, (env.adapterMerger adaptersA adaptersB root).2.lookup env.newId = none

/-- A merge is all or nothing on the snapshot root just where what raises leaves nothing. -/
theorem merge_all_or_nothing (hfresh : FreshId env root) :
    (∀ e, (merge env args root).result = .error e → (merge env args root).root = root) ↔
      LeavesNothing env args root := by
  unfold merge LeavesNothing
  cases hprepare : prepare env args root with
  | mk calls prepared =>
    cases prepared with
    | error e => simp
    | ok p =>
      obtain ⟨adapted, root', hadapt⟩ : ∃ adapted root',
          env.adapterMerger p.a.adapters p.b.adapters root = (adapted, root') := ⟨_, _, rfl⟩
      have hid : root'.lookup env.newId = none := by
        simpa [hadapt] using hfresh.2 p.a.adapters p.b.adapters
      cases adapted with
      | error e => simp [hadapt]
      | ok adapted =>
        obtain ⟨adapters, adapterMeta⟩ := adapted
        cases hrefuse : refusesAdapters args p adapterMeta with
        | true => simp [hadapt, finish, hrefuse]
        | false =>
          rcases finish_spec adapters hid hrefuse with
            ⟨hok, merged, root'', hrun⟩ | ⟨hbad, e, root'', hrun, ⟨hclean, rfl⟩ | ⟨hdirty, hgrown⟩⟩
          · simp [hadapt, hrefuse, hrun, hok]
          · simp [hadapt, hrefuse, hrun, hbad, hclean]
          · have hne : root'' ≠ root := by
              rintro rfl
              obtain ⟨node, hnode⟩ := hgrown
              exact Assoc.not_mem_of_lookup_eq_none hfresh.1 (by rw [hnode]; simp)
            simp [hadapt, hrefuse, hrun, hbad, hdirty, hne]

theorem freshId_plain (fails : FsOp → Bool) : FreshId (plainEnv fails) (twoParents [] []) :=
  ⟨rfl, fun _ _ => rfl⟩

def failingReplace (op : FsOp) : Bool := op = .replace

theorem failedSave_run :
    (merge (plainEnv failingReplace) plainArgs (twoParents [] [])).result.toOption = none ∧
      (subdir (merge (plainEnv failingReplace) plainArgs (twoParents [] [])).root
        "00000000000000cc").map Prod.fst = ["snapshot.json.tmp"] := by
  decide +kernel

/-- The save of the merged snapshot fails at its last step, and its directory stays. -/
theorem failedSave_leaves : ∃ e,
    (merge (plainEnv failingReplace) plainArgs (twoParents [] [])).result = .error e ∧
      (merge (plainEnv failingReplace) plainArgs (twoParents [] [])).root ≠ twoParents [] [] := by
  obtain ⟨hfail, hleft⟩ := failedSave_run
  have hne : (merge (plainEnv failingReplace) plainArgs (twoParents [] [])).root ≠
      twoParents [] [] := by
    intro heq
    have hnone : (subdir (twoParents [] []) "00000000000000cc").map Prod.fst = [] := rfl
    rw [heq, hnone] at hleft
    cases hleft
  cases hr : (merge (plainEnv failingReplace) plainArgs (twoParents [] [])).result with
  | ok merged => simp [hr, Except.toOption] at hfail
  | error e => exact ⟨e, rfl, hne⟩

/-- A merge that raises does not always leave the snapshot root as it was. -/
theorem merge_leaves_directory : ¬ ∀ (env : Env ForkSnapshot Unit) (args : Args)
    (root : Dir ForkSnapshot), FreshId env root →
    ∀ e, (merge env args root).result = .error e → (merge env args root).root = root := by
  intro h
  obtain ⟨e, hfail, hne⟩ := failedSave_leaves
  exact hne (h _ _ _ (freshId_plain _) e hfail)

theorem merge_all_or_nothing_failed_save :
    ¬ LeavesNothing (plainEnv failingReplace) plainArgs (twoParents [] []) := by
  intro h
  obtain ⟨e, hfail, hne⟩ := failedSave_leaves
  exact hne ((merge_all_or_nothing (freshId_plain _)).mpr h e hfail)

end Kaine.Merge
