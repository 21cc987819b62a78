import Kaine.Cycle.ControlState

/-! The welfare hold: which calls keep every welfare entry on the freeze stack. What the calls do to
the freeze stack as it is read: a push adds its entry, and a release takes entries of its own
source. -/
namespace Kaine.Control
open Py Transition

def isWelfare (entry : Entry) : Bool := Dict.get entry "source" = .str "welfare"

/-- The entries that the file reads as, legacy slot promoted; empty while it is corrupt. -/
def stackOf (file : ControlFile) : List Entry := ((control file).map CycleControl.stack).getD []

def welfareEntries (file : ControlFile) : List Entry := (stackOf file).filter isWelfare

/-- Everything but `unfreeze` and the lifts that name welfare. -/
def Admitted : ControlOp → Prop
  | .standDown source => source ≠ "welfare"
  | .override sources => "welfare" ∉ sources
  | .unfreeze => False
  | _ => True

/-- The pops that take a welfare entry: one without a source that finds it on top, and one
that names welfare. -/
def liftsWelfare (file : ControlFile) : ControlOp → Bool
  | .popFreeze none => (stackOf file).getLast?.any isWelfare
  | .popFreeze (some source) => source = "welfare" && (stackOf file).any isWelfare
  | _ => false

/-- No welfare entry is gone at the end of the calls, and a pushed one is reported as frozen. -/
def Held (file : ControlFile) (ops : List ControlOp) (file' : ControlFile) : Prop :=
  (welfareEntries file).Sublist (welfareEntries file') ∧
  ∀ before reason now after mtime,
    ops = before ++ .pushFreeze reason "welfare" now :: after →
      (readControl mtime file').frozen = true

theorem isWelfare_iff {entry : Entry} :
    isWelfare entry = true ↔ entry.lookup "source" = some (.str "welfare") := by
  cases h : entry.lookup "source" <;> simp [isWelfare, Dict.get, h]

theorem normalizeEntry_of_welfare {entry : Entry} (h : isWelfare entry = true) :
    normalizeEntry entry = entry := by
  have hl := isWelfare_iff.mp h
  have hmap : mapFreezeSource (.str "welfare") = .str "welfare" :=
    mapFreezeSource_eq_welfare.mpr rfl
  simp [normalizeEntry, hl, hmap, Dict.set_lookup hl]

@[simp] theorem isWelfare_normalizeEntry (entry : Entry) :
    isWelfare (normalizeEntry entry) = isWelfare entry := by
  rw [Bool.eq_iff_iff, isWelfare_iff, isWelfare_iff]
  cases h : entry.lookup "source" with
  | none => simp [normalizeEntry, h]
  | some source => simp [normalizeEntry, h, mapFreezeSource_eq_welfare]

theorem filter_normalizeEntry (stack : List Entry) :
    (stack.map normalizeEntry).filter isWelfare = stack.filter isWelfare := by
  induction stack with
  | nil => rfl
  | cons entry rest ih =>
    by_cases h : isWelfare entry = true
    · simp [h, ih, normalizeEntry_of_welfare h]
    · simp [h, ih]

theorem iterStack_entries (stack : List Entry) :
    iterStack (.arr (stack.map .obj)) = some (stack.map .obj) := by
  cases stack <;> simp [iterStack, Json.truthy]

/-- What is written reads back as the same entries, sources under their current names. -/
theorem control_written (stack : List Entry) :
    control (.json (stateOf stack).toDict) = some (stateOf (stack.map normalizeEntry)) := by
  have hfrozen : (stack.map normalizeEntry).isEmpty = true → (topView stack).frozen = false := by
    intro h
    obtain rfl : stack = [] := by simpa using h
    rfl
  simp only [control, currentData, Json.asDict, CycleControl.toDict, stateOf, Option.bind_eq_bind,
    Option.bind_some, fromDict, Dict.get, List.lookup_cons, iterStack_entries, Option.getD_some,
    String.reduceBEq]
  by_cases h : (stack.map normalizeEntry).isEmpty = true
  · simp [h, hfrozen h, Json.truthy]
  · simp [h]

theorem stackOf_written (stack : List Entry) :
    stackOf (.json (stateOf stack).toDict) = stack.map normalizeEntry := by
  rw [stackOf, control_written]
  rfl

theorem welfareEntries_written (stack : List Entry) :
    welfareEntries (.json (stateOf stack).toDict) = stack.filter isWelfare := by
  rw [welfareEntries, stackOf_written, filter_normalizeEntry]

/-- The source of every written entry is decided by the function that the lock runs. -/
theorem welfareEntries_updateStack (mtime : String) (fn : List Entry → List Entry)
    (file : ControlFile) :
    welfareEntries (updateStack mtime fn file).2 =
      if (control file).isSome then (fn (stackOf file)).filter isWelfare else [] := by
  cases h : control file with
  | none => simp [updateStack, h, welfareEntries, stackOf]
  | some c => simpa [updateStack, h, stackOf] using welfareEntries_written (fn c.stack)

theorem control_updateStack {mtime : String} {fn : List Entry → List Entry}
    {file : ControlFile} (h : control file = none) :
    (updateStack mtime fn file).2 = file := by
  simp [updateStack, h]

/-- A corrupt file reads as no entry at all, so nothing can be lifted from it. -/
theorem welfareEntries_corrupt {file : ControlFile} (h : control file = none) :
    welfareEntries file = [] := by
  simp [welfareEntries, stackOf, h]

/-- A mutator keeps the welfare entries as soon as its function does. -/
theorem kept_updateStack {mtime : String} {fn : List Entry → List Entry} {file : ControlFile}
    (h : ((stackOf file).filter isWelfare).Sublist ((fn (stackOf file)).filter isWelfare)) :
    (welfareEntries file).Sublist (welfareEntries (updateStack mtime fn file).2) := by
  rw [welfareEntries_updateStack]
  cases hc : control file with
  | none => simp [welfareEntries_corrupt hc]
  | some c => simpa [welfareEntries] using h

theorem filter_dropLast {stack : List Entry}
    (h : stack.getLast?.any isWelfare = false) :
    stack.dropLast.filter isWelfare = stack.filter isWelfare := by
  induction stack using List.reverseRecOn with
  | nil => rfl
  | append_singleton front entry _ =>
    have he : isWelfare entry = false := by simpa using h
    simp [he]

theorem filter_eraseP {p q : Entry → Bool} (hpq : ∀ e, p e = true → q e = false)
    (stack : List Entry) : (stack.eraseP p).filter q = stack.filter q := by
  induction stack with
  | nil => rfl
  | cons entry rest ih =>
    by_cases h : p entry = true
    · simp [h, hpq entry h]
    · simp [h, List.filter_cons, ih]

/-- Dropping an entry of another source leaves the welfare entries alone. -/
theorem filter_popSource {source : String} (h : source ≠ "welfare") (stack : List Entry) :
    (popSource source stack).filter isWelfare = stack.filter isWelfare := by
  have hother : ∀ e : Entry, decide (Dict.get e "source" = .str source) = true →
      isWelfare e = false := by
    intro e he
    have he' : Dict.get e "source" = .str source := by simpa using he
    simpa [isWelfare, he'] using h
  rw [popSource, List.filter_reverse, filter_eraseP hother, List.filter_reverse,
    List.reverse_reverse]

theorem popSource_of_none {stack : List Entry} (h : stack.any isWelfare = false) :
    popSource "welfare" stack = stack := by
  have hno : ∀ e ∈ stack.reverse, ¬ (decide (Dict.get e "source" = .str "welfare") = true) := by
    intro e he
    have := List.any_eq_false.mp h e (List.mem_reverse.mp he)
    simpa [isWelfare] using this
  rw [popSource, List.eraseP_of_forall_not hno, List.reverse_reverse]

/-- A filter that keeps every welfare entry keeps them all. -/
theorem filter_filter_welfare {keep : Entry → Bool} (stack : List Entry)
    (h : ∀ e, isWelfare e = true → keep e = true) :
    (stack.filter keep).filter isWelfare = stack.filter isWelfare := by
  rw [List.filter_filter]
  apply List.filter_congr
  intro e _
  by_cases he : isWelfare e = true <;> simp [he, h]

theorem isWelfare_get {entry : Entry} (h : isWelfare entry = true) :
    Dict.get entry "source" = .str "welfare" := by
  simpa [isWelfare] using h

theorem kept_popFreeze {mtime : String} {source : Option String} {file : ControlFile}
    (h : liftsWelfare file (.popFreeze source) = false) :
    (welfareEntries file).Sublist (welfareEntries (popFreeze mtime source file).2) := by
  apply kept_updateStack
  cases source with
  | none =>
    simp only
    rw [filter_dropLast h]
  | some source =>
    by_cases hs : source = "welfare"
    · subst source
      simp only
      rw [popSource_of_none (by simpa [liftsWelfare] using h)]
    · simp only
      rw [filter_popSource hs]

theorem kept_override {sources : List String} {file : ControlFile} {state : CycleControl}
    (hs : "welfare" ∉ sources) (h : override sources file = .ok state) :
    (welfareEntries file).Sublist (welfareEntries (.json state.toDict)) := by
  unfold override at h
  split at h
  · cases h
  split at h
  · cases h
  cases hc : control file with
  | none => simp [hc] at h
  | some c =>
    simp only [hc] at h
    split at h
    · cases h
    split at h
    · cases h
    cases h
    rw [welfareEntries_written, filter_filter_welfare]
    · simp [welfareEntries, stackOf, hc]
    · intro e he
      simpa [isWelfare_get he] using hs

theorem kept_unfreezeForBoot (mtime : String) (file : ControlFile) :
    (welfareEntries file).Sublist (welfareEntries (unfreezeForBoot mtime file).2) := by
  unfold unfreezeForBoot
  split
  · exact kept_updateStack (by simp [show stackOf .missing = [] from rfl])
  · split
    · exact List.Sublist.refl _
    · apply kept_updateStack
      rw [filter_filter_welfare _ (by intro e he; simpa using isWelfare_get he)]

/-- One admitted call that pops no welfare entry keeps them all. -/
theorem kept_perform {mtime : String} {op : ControlOp} {file : ControlFile}
    (ha : Admitted op) (hl : liftsWelfare file op = false) :
    (welfareEntries file).Sublist (welfareEntries (perform mtime op file)) := by
  cases op with
  | pushFreeze reason source now => exact kept_updateStack (by simp)
  | popFreeze source => exact kept_popFreeze hl
  | standDown source =>
    apply kept_updateStack
    rw [filter_filter_welfare]
    intro e he
    simpa [isWelfare_get he] using Ne.symm ha
  | override sources =>
    simp only [perform]
    split
    · exact List.Sublist.refl _
    · rename_i state h
      exact kept_override ha h
  | unfreezeForBoot => exact kept_unfreezeForBoot mtime file
  | unfreeze => exact ha.elim
  | readControl => exact List.Sublist.refl _

theorem filter_eraseP_self {p : Entry → Bool} (stack : List Entry) :
    (stack.eraseP p).filter p = (stack.filter p).tail := by
  induction stack with
  | nil => rfl
  | cons entry rest ih =>
    by_cases h : p entry = true
    · simp [h]
    · simp [h, ih]

/-- A pop that lifts welfare takes exactly one entry of it. -/
theorem length_popFreeze (mtime : String) {source : Option String} {file : ControlFile}
    (h : liftsWelfare file (.popFreeze source) = true) :
    (welfareEntries (popFreeze mtime source file).2).length < (welfareEntries file).length := by
  have hc : (control file).isSome = true := by
    cases hc : control file with
    | none => cases source <;> simp [liftsWelfare, stackOf, hc] at h
    | some c => rfl
  rw [popFreeze, welfareEntries_updateStack, if_pos hc, welfareEntries]
  cases source with
  | none =>
    cases hs : stackOf file using List.reverseRecOn with
    | nil => simp [liftsWelfare, hs] at h
    | append_singleton front entry =>
      have he : isWelfare entry = true := by simpa [liftsWelfare, hs] using h
      simp [he]
  | some source =>
    obtain ⟨hs, hany⟩ : source = "welfare" ∧ (stackOf file).any isWelfare = true := by
      simpa [liftsWelfare] using h
    subst source
    have hpos : 0 < ((stackOf file).filter isWelfare).length := by
      obtain ⟨e, he, hw⟩ := List.any_eq_true.mp hany
      exact List.length_pos_of_mem (List.mem_filter.mpr ⟨he, hw⟩)
    have hpop : popSource "welfare" (stackOf file) =
        ((stackOf file).reverse.eraseP isWelfare).reverse := rfl
    simp only
    rw [hpop, List.filter_reverse, filter_eraseP_self, List.filter_reverse]
    simp only [List.length_reverse, List.length_tail]
    omega

/-- Whether an admitted call keeps every welfare entry is decided by `liftsWelfare` alone. -/
theorem kept_iff {mtime : String} {op : ControlOp} {file : ControlFile} (ha : Admitted op) :
    (welfareEntries file).Sublist (welfareEntries (perform mtime op file)) ↔
      liftsWelfare file op = false := by
  refine ⟨?_, kept_perform ha⟩
  intro hkept
  by_contra hl
  cases op with
  | popFreeze source =>
    have hlt := length_popFreeze mtime (Bool.eq_true_of_not_eq_false hl)
    exact absurd hkept.length_le (Nat.not_le.mpr hlt)
  | _ => exact hl rfl

/-- Only a lift that names welfare replaces a corrupt file. -/
theorem corrupt_perform {mtime : String} {op : ControlOp} {file : ControlFile}
    (ha : Admitted op) (h : control file = none) : perform mtime op file = file := by
  cases op with
  | pushFreeze reason source now => exact control_updateStack h
  | popFreeze source => exact control_updateStack h
  | standDown source => exact control_updateStack h
  | override sources =>
    have hs : "welfare" ∉ sources := ha
    simp only [perform, override, h, hs, if_false]
    split
    · rfl
    · rename_i state hstate
      split at hstate
      · cases hstate
      split at hstate <;> cases hstate
  | unfreezeForBoot =>
    cases file with
    | missing => cases h
    | unreadable => rfl
    | json v => simp [perform, unfreezeForBoot, h]
  | unfreeze => exact ha.elim
  | readControl => rfl

/-- What an admitted call that pops no welfare entry does to the file. -/
def Keeps (file file' : ControlFile) : Prop :=
  (welfareEntries file).Sublist (welfareEntries file') ∧
    (control file = none → control file' = none)

theorem keeps_step {file file' : ControlFile} {op : ControlOp}
    (h : Guarded (fun file op => Admitted op ∧ liftsWelfare file op = false) Step file op file') :
    Keeps file file' := by
  obtain ⟨⟨ha, hl⟩, mtime, rfl⟩ := h
  refine ⟨kept_perform ha hl, ?_⟩
  intro hc
  rw [corrupt_perform ha hc, hc]

theorem keeps_run {file file' : ControlFile} {ops : List ControlOp}
    (h : Run (Guarded (fun file op => Admitted op ∧ liftsWelfare file op = false) Step)
      file ops file') : Keeps file file' := by
  refine h.relates ?_ ?_ keeps_step
  · intro s
    exact ⟨List.Sublist.refl _, id⟩
  · rintro s t u ⟨hs, hc⟩ ⟨hs', hc'⟩
    exact ⟨hs.trans hs', hc' ∘ hc⟩

/-- A file that reads as thawed is readable and its stack is empty. -/
theorem readControl_frozen {mtime : String} {file : ControlFile}
    (h : control file = none ∨ welfareEntries file ≠ []) :
    (readControl mtime file).frozen = true := by
  have hfrozen : ∀ c, control file = some c → c.stack ≠ [] → c.frozen = true := by
    intro c hc hne
    obtain ⟨data, hdata, hc⟩ := Option.bind_eq_some_iff.mp hc
    obtain ⟨items, hitems, hc⟩ := Option.bind_eq_some_iff.mp hc
    have hstate : ∀ stack, stateOf stack = c → c.frozen = true := by
      rintro stack rfl
      have hlast : stack.getLast? = some (stack.getLast hne) := List.getLast?_eq_some_getLast hne
      simp [stateOf, topView, hlast]
    simp only at hc
    split at hc <;> exact hstate _ (Option.some.inj hc)
  cases hc : control file with
  | none =>
    cases file with
    | missing => cases hc
    | unreadable => rfl
    | json v => simp [readControl, hc, failClosedState]
  | some c =>
    have hne : c.stack ≠ [] := by
      rintro he
      simp [hc, welfareEntries, stackOf, he] at h
    cases file with
    | missing => exact absurd (by cases hc; rfl) hne
    | unreadable => cases hc
    | json v => simp [readControl, hc, hfrozen c hc hne]

theorem pushed_welfare (mtime now : String) (reason : Json) (file : ControlFile) :
    control (pushFreeze mtime reason "welfare" now file).2 = none ∨
      welfareEntries (pushFreeze mtime reason "welfare" now file).2 ≠ [] := by
  cases hc : control file with
  | none => simp [pushFreeze, updateStack, hc]
  | some c =>
    right
    rw [pushFreeze, welfareEntries_updateStack]
    simp [hc, isWelfare, freezeEntry, Dict.get]

/-- Admitted calls lift no welfare entry as long as none of them pops one. -/
theorem welfare_held {file file' : ControlFile} {ops : List ControlOp}
    (h : Run (Guarded (fun file op => Admitted op ∧ liftsWelfare file op = false) Step)
      file ops file') : Held file ops file' := by
  refine ⟨(keeps_run h).1, ?_⟩
  rintro before reason now after mtime rfl
  obtain ⟨f, _, hpush⟩ := h.split
  cases hpush with
  | head hstep hrest =>
    obtain ⟨_, mtime', rfl⟩ := hstep
    have hkeeps := keeps_run hrest
    apply readControl_frozen
    rcases pushed_welfare mtime' now reason f with hnone | hne
    · exact Or.inl (hkeeps.2 hnone)
    · right
      intro he
      apply hne
      exact List.sublist_nil.mp (he ▸ hkeeps.1)

/-- A protective freeze under a supervisor freeze that comes and goes. -/
theorem welfare_held_supervised :
    Held .missing [.pushFreeze (.str "distress") "welfare" "t0",
      .pushFreeze .null "supervisor" "t1", .popFreeze (some "supervisor"), .standDown "operator"]
      (.json (stateOf [freezeEntry (.str "distress") "welfare" "t0"]).toDict) := by
  apply welfare_held
  refine .head ⟨⟨trivial, rfl⟩, "", rfl⟩ (.head ⟨⟨trivial, rfl⟩, "", rfl⟩
    (.head ⟨⟨trivial, by decide⟩, "", rfl⟩ (.head ⟨⟨by simp [Admitted], rfl⟩, "", ?_⟩ (.refl _))))
  decide

/-- A plain pop lifts a welfare freeze that stands on top, and the file reads as thawed. -/
theorem pop_lifts_welfare : ∃ ops file,
    Run (Guarded (fun _ op => Admitted op) Step) .missing ops file ∧ ¬ Held .missing ops file := by
  refine ⟨[.pushFreeze (.str "distress") "welfare" "t0", .popFreeze none],
    .json (stateOf []).toDict, .head ⟨trivial, "", rfl⟩ (.head ⟨trivial, "", by decide⟩ (.refl _)),
      ?_⟩
  rintro ⟨_, hfrozen⟩
  have h := hfrozen [] (.str "distress") "t0" [.popFreeze none] "" rfl
  exact absurd h (by decide)

variable {mtime : String} {file : ControlFile} {fn : List Entry → List Entry} {e : Entry}

theorem normalizeEntry_normalizeEntry (e : Entry) :
    normalizeEntry (normalizeEntry e) = normalizeEntry e := by
  cases hl : e.lookup "source" with
  | none => simp [normalizeEntry, hl]
  | some source =>
    have hnormal : normalizeEntry e = Dict.set e "source" (mapFreezeSource source) := by
      simp [normalizeEntry, hl]
    have hsource : (normalizeEntry e).lookup "source" = some (mapFreezeSource source) := by
      rw [hnormal, Dict.lookup_set_self]
    calc normalizeEntry (normalizeEntry e)
        = Dict.set (normalizeEntry e) "source" (mapFreezeSource (mapFreezeSource source)) := by
          rw [normalizeEntry.eq_1 (normalizeEntry e), hsource]
      _ = normalizeEntry e := by
          rw [mapFreezeSource_mapFreezeSource, Dict.set_lookup hsource]

theorem fromDict_eq {data : Dict} {c : CycleControl} (h : fromDict data = some c) :
    c = stateOf c.stack ∧ ∀ e ∈ c.stack, normalizeEntry e = e := by
  obtain ⟨items, -, hc⟩ := Option.bind_eq_some_iff.mp h
  dsimp only at hc
  split at hc
  · obtain rfl : stateOf [promoted data] = c := Option.some.inj hc
    refine ⟨rfl, fun e he => ?_⟩
    obtain rfl : e = promoted data := List.mem_singleton.mp he
    simp [normalizeEntry, promoted, mapFreezeSource_mapFreezeSource, Dict.set, Assoc.assign]
  · obtain rfl : stateOf (items.filterMap fun item => item.asDict.map normalizeEntry) = c :=
      Option.some.inj hc
    refine ⟨rfl, fun e he => ?_⟩
    obtain ⟨item, -, hitem⟩ := List.mem_filterMap.mp he
    obtain ⟨dict, -, rfl⟩ := Option.map_eq_some_iff.mp hitem
    exact normalizeEntry_normalizeEntry dict

theorem control_eq {c : CycleControl} (h : control file = some c) :
    c = stateOf (stackOf file) ∧ ∀ e ∈ stackOf file, normalizeEntry e = e := by
  obtain ⟨data, -, hdata⟩ := Option.bind_eq_some_iff.mp h
  have hstack : stackOf file = c.stack := by rw [stackOf, h]; rfl
  rw [hstack]
  exact fromDict_eq hdata

/-- The entries that are read have their sources under current names. -/
theorem normalized_stackOf (h : e ∈ stackOf file) : normalizeEntry e = e := by
  cases hc : control file with
  | none => simp [stackOf, hc] at h
  | some c => exact (control_eq hc).2 e h

/-- A file that is not corrupt is read as the state of its stack. -/
theorem readControl_eq {c : CycleControl} (h : control file = some c) :
    readControl mtime file = stateOf (stackOf file) := by
  rw [← (control_eq h).1]
  cases file with
  | missing => exact Option.some.inj h
  | unreadable => cases h
  | json v => simp [readControl, h]

theorem stackOf_updateStack {c : CycleControl} (h : control file = some c) :
    stackOf (updateStack mtime fn file).2 = (fn (stackOf file)).map normalizeEntry := by
  have hstack : stackOf file = c.stack := by rw [stackOf, h]; rfl
  simp only [updateStack, h, stackOf_written, hstack]

theorem isSome_updateStack (mtime : String) (fn : List Entry → List Entry) (file : ControlFile) :
    (control (updateStack mtime fn file).2).isSome = (control file).isSome := by
  cases h : control file with
  | none => rw [control_updateStack h, h]
  | some c => simp [updateStack, h, control_written]

/-- A mutator that only takes entries leaves the others as they are. -/
theorem stackOf_release (hfn : ∀ stack, (fn stack).Sublist stack) :
    stackOf (updateStack mtime fn file).2 = fn (stackOf file) := by
  cases h : control file with
  | none =>
    have hnil : stackOf file = [] := by rw [stackOf, h]; rfl
    rw [control_updateStack h, hnil]
    exact (List.sublist_nil.mp (hfn [])).symm
  | some c =>
    rw [stackOf_updateStack h]
    refine (List.map_congr_left fun e he => ?_).trans (List.map_id _)
    exact normalized_stackOf ((hfn _).subset he)

theorem popSource_sublist (source : String) (stack : List Entry) :
    (popSource source stack).Sublist stack := by
  have h := (List.eraseP_sublist (p := fun e => decide (Dict.get e "source" = .str source))
    (l := stack.reverse)).reverse
  rwa [List.reverse_reverse] at h

theorem stackOf_pushFreeze {c : CycleControl} (h : control file = some c) (reason : Json)
    (source now : String) : stackOf (pushFreeze mtime reason source now file).2 =
      stackOf file ++ [normalizeEntry (freezeEntry reason source now)] := by
  rw [pushFreeze, stackOf_updateStack h, List.map_append, List.map_singleton]
  congr 1
  exact (List.map_congr_left fun e he => normalized_stackOf he).trans (List.map_id _)

theorem stackOf_popFreeze (source : String) : stackOf (popFreeze mtime (some source) file).2 =
    popSource source (stackOf file) :=
  stackOf_release (popSource_sublist source)

theorem stackOf_standDown (source : String) : stackOf (standDown mtime source file).2 =
    (stackOf file).filter fun e => Dict.get e "source" ≠ .str source :=
  stackOf_release fun _ => List.filter_sublist

theorem override_cases (mtime : String) (sources : List String) (file : ControlFile) :
    stackOf (perform mtime (.override sources) file) = stackOf file ∨
    (∀ source ∈ sources, source ∈ overridableSources) ∧
      stackOf (perform mtime (.override sources) file) =
        (stackOf file).filter fun e => Dict.get e "source" ∉ sources.map Json.str := by
  simp only [perform, override]
  by_cases hempty : sources = []
  · rw [if_pos hempty]
    exact .inl rfl
  · rw [if_neg hempty]
    by_cases hlift : (sources.any fun s => s ∉ overridableSources) = true
    · rw [if_pos hlift]
      exact .inl rfl
    · rw [if_neg hlift]
      cases hc : control file with
      | none =>
        have hnil : stackOf file = [] := by rw [stackOf, hc]; rfl
        dsimp only
        by_cases hwelfare : "welfare" ∈ sources
        · rw [if_pos hwelfare, hnil]
          exact .inl (stackOf_written [])
        · rw [if_neg hwelfare]
          exact .inl rfl
      | some c =>
        have hstack : stackOf file = c.stack := by rw [stackOf, hc]; rfl
        dsimp only
        split
        · next h => exact .inl rfl
        · next state h =>
          have hstate : state = stateOf (c.stack.filter fun e =>
              Dict.get e "source" ∉ sources.map Json.str) := by
            split at h
            · cases h
            · split at h
              · cases h
              · exact (Except.ok.inj h).symm
          refine .inr ⟨by simpa using hlift, ?_⟩
          rw [hstate, stackOf_written, hstack]
          refine (List.map_congr_left fun e he => ?_).trans (List.map_id _)
          exact normalized_stackOf (hstack ▸ List.mem_of_mem_filter he)

end Kaine.Control
