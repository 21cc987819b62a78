import Kaine.Lifecycle.IdentitySafety
import Kaine.Lifecycle.ResumeCheckpoint

/-! What a restore hands back of what a capture kept, and what a failed write leaves. -/
namespace Kaine.ResumeCheckpoint
open Py Identity

variable {isOther : Char → Bool} {env : ReadEnv} {file : CheckpointFile} {snap base : Snapshot}
  {name key : String} {d e state modules : Dict}

/-- A state without the bus cursors of its module. -/
def lessTransient (name : String) (state : Dict) : Dict :=
  state.filter fun kv => !((transientKeys.lookup name).getD []).contains kv.1

/-- The entries of a state under some keys, in the order of the keys. -/
def pick (keys : List String) (state : Dict) : Dict :=
  keys.filterMap fun k => (state.lookup k).map fun v => (k, v)

/-- An entry that an update in place can write. -/
def ValidEntry (e : Dict) : Prop :=
  e = restEntryDict "awake" (.fin 0) ∨
    ∃ spent, 0 ≤ spent ∧ e = restEntryDict "resting" (.fin spent)

def handedTo (calls : List (String × Dict)) (name : String) : List Dict :=
  (calls.filter fun c => c.1 = name).map Prod.snd

/-- What a module is handed for what it serialized. -/
structure Hands (m : Module) (handed : List Dict) : Prop where
  nothing : (∀ d, m.serialize ≠ .dict d) → handed = []
  own : m.name ∈ selfPersistingModules → carriedFields.lookup m.name = none → handed = []
  carried : ∀ d keys, m.serialize = .dict d → carriedFields.lookup m.name = some keys →
    handed = [pick keys d]
  sleep : ∀ d, m.serialize = .dict d → m.name = "sleep" →
    handed = [lessTransient m.name d] ∨
      ∃ e, ValidEntry e ∧
        handed = [Dict.set (lessTransient m.name d) "state_cycle" (.obj e)]
  ordinary : ∀ d, m.serialize = .dict d → m.name ∉ selfPersistingModules → m.name ≠ "sleep" →
    handed = [lessTransient m.name d]

/-- One call of `update_state_cycle_entry` with all that it meets. -/
structure UpdateCall (isOther : Char → Bool) where
  env : ReadEnv
  record : RecordFile
  identity : Option (EntityIdentity isOther)
  entry : Dict
  fault : Option WriteStep

def UpdateCall.run (u : UpdateCall isOther) (file : CheckpointFile) :
    Except PyError Bool × CheckpointFile :=
  updateStateCycleEntry u.env u.record u.identity u.entry file u.fault

def updateAll (file : CheckpointFile) (updates : List (UpdateCall isOther)) : CheckpointFile :=
  updates.foldl (fun file u => (u.run file).2) file

/-- The update comes to its write. -/
def UpdateCall.Reaches (u : UpdateCall isOther) (file : CheckpointFile) : Prop :=
  ∃ newEntry snap, restEntry u.entry = .ok (some newEntry) ∧
    (usableCheckpoint u.env u.record u.identity file).bind
      (fun snap => snap.withStateCycle newEntry) = some snap

/-- A capture with its write, updates in place after it, and a later start. -/
structure Scenario (isOther : Char → Bool) where
  registry : Registry
  identity : EntityIdentity isOther
  capture : CaptureEnv
  before : CheckpointFile
  fault : Option WriteStep
  updates : List (UpdateCall isOther)
  env : ReadEnv
  record : RecordFile

namespace Scenario

variable (s : Scenario isOther)

def captured : Snapshot := captureCheckpoint s.capture s.registry.modules s.identity

def written : WriteOutcome := writeCheckpoint s.before s.captured s.fault

def updated : CheckpointFile := updateAll s.written.file s.updates

/-- The file that an update of the scenario finds. -/
def atUpdate (earlier : List (UpdateCall isOther)) : CheckpointFile :=
  updateAll s.written.file earlier

def restored (raises : Raises) : List (String × Dict) × Option RestoreResult :=
  restoreCheckpoint s.env raises s.record (s.registry.modules.map Module.name) (some s.identity)
    s.updated

/-- The checkpoint that the start reads is no older than the readable revive record. -/
def NotStale : Prop :=
  ∀ snap started, readCheckpoint s.env s.updated = .ok (some snap) →
    readReviveStartedAt s.record = some started → snap.timestamp.lt started = false

/-- What is promised of a scenario. -/
structure Undoes : Prop where
  writeKeeps : s.fault ≠ none → s.written.replaced = false ∧ s.written.file = s.before
  updatesKeep : ∀ earlier u later, s.updates = earlier ++ u :: later → u.fault ≠ none →
    (u.run (s.atUpdate earlier)).2 = s.atUpdate earlier
  hands : s.fault = none → s.NotStale → ∀ raises, ∀ m ∈ s.registry.modules,
    Hands m (handedTo (s.restored raises).1 m.name)
  isolated : ∀ raises raises', (s.restored raises).1 = (s.restored raises').1
  refused : ∀ env raises record enabled (identity : Option (EntityIdentity isOther)) file,
    (∀ snap x y, readCheckpoint env file = .ok (some snap) → identity = some x →
      identityOfSnapshot isOther snap = .ok (some y) → x.entityId = y.entityId →
      ∃ started, readReviveStartedAt record = some started ∧
        snap.timestamp.lt started = true) →
    (restoreCheckpoint env raises record enabled identity file).1 = []

/-- No write that the scenario comes to is cut short by `os.write`. -/
def WritesWhole : Prop :=
  s.fault ≠ some .shortWrite ∧
    ∀ earlier u later, s.updates = earlier ++ u :: later → u.Reaches (s.atUpdate earlier) →
      u.fault ≠ some .shortWrite

end Scenario

theorem dropTransient_eq (name : String) (state : Dict) :
    dropTransient name state = lessTransient name state := by
  unfold dropTransient lessTransient
  generalize (transientKeys.lookup name).getD [] = keys
  induction keys generalizing state with
  | nil => simp
  | cons k keys ih =>
    rw [List.foldl_cons, ih, Dict.erase, List.filter_filter]
    apply List.filter_congr
    intro kv _
    by_cases h : kv.1 = k <;> simp [h]

theorem lessTransient_idem (name : String) (state : Dict) :
    lessTransient name (lessTransient name state) = lessTransient name state := by
  simp [lessTransient, List.filter_filter]

/-- The only module with carried fields has no cursors. -/
theorem carried_cases {keys : List String} (h : carriedFields.lookup name = some keys) :
    name = "self_model" ∧ keys = ["drift_count"] := by
  have hmem := Assoc.mem_of_lookup_eq_some h
  simpa [carriedFields] using hmem

theorem pick_drift_idem (state : Dict) :
    pick ["drift_count"] (pick ["drift_count"] state) = pick ["drift_count"] state := by
  cases h : state.lookup "drift_count" <;> simp [pick, h]

theorem excluded_iff :
    excluded name = true ↔ name ∈ selfPersistingModules ∧ carriedFields.lookup name = none := by
  by_cases h : name = "self_model"
  · subst h
    decide
  · have hlookup : carriedFields.lookup name = none := by
      simp [carriedFields, Assoc.lookup_cons_of_ne h]
    have hhas : Dict.has (carriedFields.map fun kv => (kv.1, Json.null)) name = false := by
      simp [carriedFields, Dict.has, Assoc.lookup_cons_of_ne h]
    simp [excluded, hlookup, hhas]

/-- The state that a restore makes of a captured one is the captured one again. -/
theorem restore_capture_state (name : String) (d : Dict) :
    dropTransient name (carry name (carry name (dropTransient name d))) =
      carry name (dropTransient name d) := by
  cases h : carriedFields.lookup name with
  | none => simp [carry, h, dropTransient_eq, lessTransient_idem]
  | some keys =>
    obtain ⟨rfl, rfl⟩ := carried_cases h
    exact pick_drift_idem d

/-- The keys of a capture are the names of the modules. -/
theorem captureModule_key {m : Module} {kv : String × Json} (h : captureModule m = some kv) :
    kv.1 = m.name := by
  unfold captureModule at h
  split at h
  · cases h
  · cases hs : m.serialize <;> simp_all
    rw [← h]

theorem keys_captured (modules : List Module) :
    ((modules.filterMap captureModule).map Prod.fst).Sublist (modules.map Module.name) := by
  induction modules with
  | nil => simp
  | cons m modules ih =>
    cases h : captureModule m with
    | none => simpa [h] using ih.cons m.name
    | some kv => simpa [h, captureModule_key h] using ih

/-- A table whose keys are all current is left as it is. -/
theorem mapModuleKeys_current (h : ∀ k ∈ d.map Prod.fst, mapModuleKey k = k) :
    mapModuleKeys d = d := by
  have hkv : ∀ kv ∈ d, mapModuleKey kv.1 = kv.1 := fun kv hkv => h kv.1 (List.mem_map_of_mem hkv)
  have hold : d.filter (fun kv => mapModuleKey kv.1 ≠ kv.1) = [] := by
    simpa [List.filter_eq_nil_iff] using hkv
  have hnew : d.filter (fun kv => mapModuleKey kv.1 = kv.1) = d := by
    simpa [List.filter_eq_self] using hkv
  rw [mapModuleKeys, hnew, hold]
  rfl

/-- What is written is read back, up to an empty id and a zero time. -/
theorem fromDict_toDict (env : ReadEnv)
    (h : ∀ k ∈ snap.modules.map Prod.fst, mapModuleKey k = k) :
    ∃ snap', Snapshot.fromDict env snap.toDict = .ok snap' ∧ snap'.modules = snap.modules ∧
      snap'.metadata = snap.metadata := by
  have htimestamp : ∃ t, (orElse (Dict.get snap.toDict "timestamp") (.float env.now)).toFloat
      env.ofText = .ok t := by
    have hget : Dict.get snap.toDict "timestamp" = .float snap.timestamp := rfl
    rw [hget, orElse]
    split
    · exact ⟨_, rfl⟩
    · exact ⟨_, rfl⟩
  obtain ⟨t, ht⟩ := htimestamp
  have hmodules : env.dict (Dict.get snap.toDict "modules") = .ok snap.modules := rfl
  have hadapters : listOf (Dict.get snap.toDict "adapters") = .ok snap.adapters := rfl
  have hmetadata : env.dict (Dict.get snap.toDict "metadata") = .ok snap.metadata := rfl
  simp only [Snapshot.fromDict, ht, hmodules, hadapters, hmetadata, bind, Except.bind, pure,
    Except.pure, mapModuleKeys_current h]
  exact ⟨_, rfl, rfl, rfl⟩

/-- The calls that one name gets are those of its own entry. -/
theorem handedTo_restoreModules (hnodup : (snap.modules.map Prod.fst).Nodup) (raises : Raises)
    (enabled : List String) (name : String) :
    handedTo (restoreModules raises enabled snap).1 name =
      match (snap.modules.lookup name).map (handling enabled name) with
      | some (.handed state) => [state]
      | _ => [] := by
  have hp : (restoreOrder snap.modules).Perm snap.modules := SortBy.sortBy_perm _ _
  have hnodup' : ((restoreOrder snap.modules).map Prod.fst).Nodup :=
    (hp.map Prod.fst).nodup_iff.mpr hnodup
  simp only [handedTo, restoreModules, List.filterMap_map]
  rw [Assoc.filter_filterMap _ hnodup' name, Assoc.lookup_eq_of_perm hp hnodup' name]
  · cases snap.modules.lookup name with
    | none => rfl
    | some v => cases h : handling enabled name v <;> simp [h]
  · intro kv kb h
    cases hh : handling enabled kv.1 kv.2 <;> simp [hh] at h
    rw [← h]

/-- A capture as the updates in place leave it. -/
structure Held (base snap : Snapshot) : Prop where
  metadata : snap.metadata = base.metadata
  modules : snap.modules = base.modules ∨ ∃ d e, base.modules.lookup "sleep" = some (.obj d) ∧
    ValidEntry e ∧
    snap.modules = Dict.set base.modules "sleep" (.obj (Dict.set d "state_cycle" (.obj e)))

/-- What makes a capture readable again. -/
structure Readable (base : Snapshot) : Prop where
  current : ∀ k ∈ base.modules.map Prod.fst, mapModuleKey k = k
  nodup : (base.modules.map Prod.fst).Nodup
  kind : (Dict.get base.metadata "kind").pyEq (.str checkpointKind) = true
  version : (Dict.get base.metadata "version").pyEq (.int checkpointVersion) = true

theorem readable_capture (r : Registry) (capture : CaptureEnv) (identity : EntityIdentity isOther) :
    Readable (captureCheckpoint capture r.modules identity) where
  current := by
    intro k hk
    have hmem := (keys_captured r.modules).subset hk
    obtain ⟨m, hm, rfl⟩ := List.mem_map.mp hmem
    exact r.current m hm
  nodup := r.distinct.sublist (keys_captured r.modules)
  kind := rfl
  version := rfl

def HeldFile (base : Snapshot) (file : CheckpointFile) : Prop :=
  ∃ snap, file = .json (.obj snap.toDict) ∧ Held base snap

theorem Held.keys (h : Held base snap) :
    snap.modules.map Prod.fst = base.modules.map Prod.fst := by
  rcases h.modules with hm | ⟨d, e, hlookup, -, hm⟩
  · rw [hm]
  · rw [hm, Dict.set]
    exact Assoc.assign_keys (List.mem_map_of_mem (Assoc.mem_of_lookup_eq_some hlookup)) _

theorem readCheckpoint_toDict (env : ReadEnv) (h : Readable snap) :
    ∃ snap', readCheckpoint env (.json (.obj snap.toDict)) = .ok (some snap') ∧
      snap'.modules = snap.modules ∧ snap'.metadata = snap.metadata := by
  obtain ⟨snap', hread, hmodules, hmetadata⟩ := fromDict_toDict env h.current
  refine ⟨snap', ?_, hmodules, hmetadata⟩
  simp [readCheckpoint, hread, hmetadata, h.kind, h.version]

theorem Held.readable (hbase : Readable base) (h : Held base snap) : Readable snap where
  current := by
    rw [h.keys]
    exact hbase.current
  nodup := by
    rw [h.keys]
    exact hbase.nodup
  kind := by
    rw [h.metadata]
    exact hbase.kind
  version := by
    rw [h.metadata]
    exact hbase.version

theorem readCheckpoint_held (env : ReadEnv) (hbase : Readable base) (h : Held base snap) :
    ∃ snap', readCheckpoint env (.json (.obj snap.toDict)) = .ok (some snap') ∧
      Held base snap' := by
  obtain ⟨snap', hread, hmodules, hmetadata⟩ := readCheckpoint_toDict env (h.readable hbase)
  refine ⟨snap', hread, hmetadata.trans h.metadata, ?_⟩
  rw [hmodules]
  exact h.modules

/-- The checks that a restore and an update in place share, spelled out. -/
theorem usableCheckpoint_eq_some {record : RecordFile}
    {identity : Option (EntityIdentity isOther)} :
    usableCheckpoint env record identity file = some snap ↔
      readCheckpoint env file = .ok (some snap) ∧ ∃ x y, identity = some x ∧
        identityOfSnapshot isOther snap = .ok (some y) ∧ x.entityId = y.entityId ∧
        ∀ started, readReviveStartedAt record = some started →
          snap.timestamp.lt started = false := by
  constructor
  · intro h
    unfold usableCheckpoint at h
    split at h
    · cases h
    · cases h
    · rename_i snap' hread
      split at h
      · rename_i x y hy
        split_ifs at h with hne hold
        obtain rfl := Option.some.inj h
        refine ⟨hread, x, y, rfl, hy, not_not.mp hne, ?_⟩
        intro started hstarted
        simpa [hstarted] using hold
      · cases h
  · rintro ⟨hread, x, y, rfl, hy, hsame, hfresh⟩
    simp only [usableCheckpoint, hread, hy, hsame, ne_eq, not_true_eq_false, if_false]
    cases hstarted : readReviveStartedAt record with
    | none => simp
    | some started => simp [hfresh started hstarted]

theorem held_of_usable (hbase : Readable base) (hfile : HeldFile base file)
    {record : RecordFile} {identity : Option (EntityIdentity isOther)}
    (h : usableCheckpoint env record identity file = some snap) : Held base snap := by
  obtain ⟨held, rfl, hheld⟩ := hfile
  obtain ⟨snap', hread, hheld'⟩ := readCheckpoint_held env hbase hheld
  have heq := (usableCheckpoint_eq_some.mp h).1.symm.trans hread
  obtain rfl : snap = snap' := by simpa using heq
  exact hheld'

/-- An entry put in place of another one leaves the rest of the capture as it was. -/
theorem held_withStateCycle (h : Held base snap) (he : ValidEntry e) {snap' : Snapshot}
    (hupdate : snap.withStateCycle e = some snap') : Held base snap' := by
  unfold Snapshot.withStateCycle at hupdate
  split at hupdate
  · rename_i sleepState hget
    obtain rfl := Option.some.inj hupdate
    refine ⟨h.metadata, .inr ?_⟩
    rcases h.modules with hm | ⟨d, e', hlookup, -, hm⟩
    · refine ⟨sleepState, e, ?_, he, by rw [hm]⟩
      rw [hm, Dict.get] at hget
      cases hl : base.modules.lookup "sleep" with
      | none => simp [hl] at hget
      | some v => simpa [hl] using hget
    · have hstate : sleepState = Dict.set d "state_cycle" (.obj e') := by
        have hd := hm ▸ hget
        simpa [Dict.get] using hd.symm
      refine ⟨d, e, hlookup, he, ?_⟩
      rw [hm, hstate, Dict.set, Dict.set, Dict.set, Dict.set, Assoc.assign_assign,
        Assoc.assign_assign]
      rfl
  · cases hupdate

theorem restSpent_nonneg {v : Json} {x : PyFloat} (h : restSpent v = .ok (some x)) :
    ∃ spent, 0 ≤ spent ∧ x = .fin spent := by
  unfold restSpent at h
  split at h
  · cases h
  · cases h
  · rename_i y _ _
    obtain ⟨finite, hfinite, h⟩ := bind_eq_ok.mp h
    split_ifs at h with hbad
    · cases h
    · simp only [Bool.or_eq_true, Bool.not_eq_true', not_or, Bool.not_eq_false,
        Bool.not_eq_true] at hbad
      obtain ⟨rfl, hneg⟩ := hbad
      obtain ⟨hfloat, q, hq, hdouble⟩ := PyNumber.toFloat_of_isFinite hfinite
      rw [hfloat] at h
      have hx : x = .fin y.double := by simpa [bind, Except.bind, pure, Except.pure] using h.symm
      refine ⟨y.double, ?_, hx⟩
      have hle : (0 : ℚ) ≤ q := by simpa [hq, PyFloat.lt] using hneg
      rw [hdouble]
      exact Rounding.binary64_nonneg hle

theorem restEntry_valid {entry : Dict} (h : restEntry entry = .ok (some e)) : ValidEntry e := by
  unfold restEntry at h
  split_ifs at h
  · obtain ⟨spent, hspent, h⟩ := bind_eq_ok.mp h
    cases spent with
    | none => simp [pure, Except.pure] at h
    | some x =>
      obtain ⟨q, hq, rfl⟩ := restSpent_nonneg hspent
      have he : restEntryDict "resting" (.fin q) = e := by simpa [pure, Except.pure] using h
      exact .inr ⟨q, hq, he.symm⟩
  · have he : restEntryDict "awake" (.fin 0) = e := by simpa using h
    exact .inl he.symm
  · simp at h

theorem writeCheckpoint_kept {fault : WriteStep} (h : fault ≠ .shortWrite) :
    (writeCheckpoint file snap (some fault)).replaced = false ∧
      (writeCheckpoint file snap (some fault)).file = file := by
  cases fault <;> simp_all [writeCheckpoint]

/-- An update that does not come to its write leaves the file. -/
theorem run_of_not_reaches {u : UpdateCall isOther} (h : ¬ u.Reaches file) :
    (u.run file).2 = file := by
  unfold UpdateCall.run updateStateCycleEntry
  split
  · rfl
  · rfl
  · rename_i newEntry hentry
    split
    · rfl
    · rename_i snap hsnap
      exact (h ⟨newEntry, snap, hentry, hsnap⟩).elim

theorem run_of_reaches {u : UpdateCall isOther} (h : u.Reaches file) :
    ∃ newEntry old snap, ValidEntry newEntry ∧
      usableCheckpoint u.env u.record u.identity file = some old ∧
      old.withStateCycle newEntry = some snap ∧
      (u.run file).2 = (writeCheckpoint file snap u.fault).file := by
  obtain ⟨newEntry, snap, hentry, hsnap⟩ := h
  obtain ⟨old, husable, hupdate⟩ := Option.bind_eq_some_iff.mp hsnap
  refine ⟨newEntry, old, snap, restEntry_valid hentry, husable, hupdate, ?_⟩
  simp only [UpdateCall.run, updateStateCycleEntry, hentry, hsnap]

/-- One update keeps the capture in the file, as long as its write is not cut short. -/
theorem held_run {u : UpdateCall isOther} (hbase : Readable base) (hfile : HeldFile base file)
    (hwhole : u.Reaches file → u.fault ≠ some .shortWrite) : HeldFile base (u.run file).2 := by
  by_cases hreach : u.Reaches file
  · obtain ⟨newEntry, old, snap, hvalid, husable, hupdate, hrun⟩ := run_of_reaches hreach
    have hold : Held base old := held_of_usable hbase hfile husable
    have hsnap : Held base snap := held_withStateCycle hold hvalid hupdate
    rw [hrun]
    cases hfault : u.fault with
    | none => exact ⟨snap, rfl, hsnap⟩
    | some fault =>
      have hne : fault ≠ .shortWrite := by
        rintro rfl
        exact hwhole hreach hfault
      rw [(writeCheckpoint_kept hne).2]
      exact hfile
  · rw [run_of_not_reaches hreach]
    exact hfile

/-- And so do all of them. -/
theorem held_updateAll {updates : List (UpdateCall isOther)} (hbase : Readable base)
    (hfile : HeldFile base file)
    (hwhole : ∀ earlier u later, updates = earlier ++ u :: later →
      u.Reaches (updateAll file earlier) → u.fault ≠ some .shortWrite) :
    HeldFile base (updateAll file updates) := by
  induction updates generalizing file with
  | nil => exact hfile
  | cons u updates ih =>
    have hrun : HeldFile base (u.run file).2 := held_run hbase hfile (hwhole [] u updates rfl)
    refine ih hrun ?_
    intro earlier u' later hsplit hreach
    exact hwhole (u :: earlier) u' later (by simp [hsplit]) hreach

/-- A module that the capture keeps is handed what the file holds of it. -/
theorem handedTo_of_lookup {m : Module} {modules : List Module} (hm : m ∈ modules)
    (hnodup : (snap.modules.map Prod.fst).Nodup) (hkeeps : excluded m.name = false)
    (hlookup : snap.modules.lookup m.name = some (.obj d)) (raises : Raises) :
    handedTo (restoreModules raises (modules.map Module.name) snap).1 m.name =
      [dropTransient m.name (carry m.name d)] := by
  have hmem : m.name ∈ modules.map Module.name := List.mem_map_of_mem hm
  rw [handedTo_restoreModules hnodup, hlookup]
  simp only [Option.map_some, handling, hkeeps, Bool.false_eq_true, if_false,
    List.contains_iff_mem.mpr hmem, Bool.not_true]

theorem handedTo_of_none (hnodup : (snap.modules.map Prod.fst).Nodup)
    (hlookup : snap.modules.lookup name = none) (raises : Raises) (enabled : List String) :
    handedTo (restoreModules raises enabled snap).1 name = [] := by
  rw [handedTo_restoreModules hnodup, hlookup]
  rfl

/-- What a held capture has under the name of a module. -/
theorem Held.lookup_eq (h : Held base snap) (hname : name ≠ "sleep") :
    snap.modules.lookup name = base.modules.lookup name := by
  rcases h.modules with hm | ⟨d, e, -, -, hm⟩
  · rw [hm]
  · rw [hm, Dict.set, Assoc.lookup_assign_of_ne hname]

theorem Held.lookup_none (h : Held base snap) (hnone : base.modules.lookup name = none) :
    snap.modules.lookup name = none := by
  apply Assoc.lookup_of_not_mem
  rw [h.keys]
  exact Assoc.not_mem_of_lookup_eq_none hnone

/-- A restore of a held capture hands each module what is promised. -/
theorem hands_of_held {r : Registry} {capture : CaptureEnv} {identity : EntityIdentity isOther}
    {m : Module} (hm : m ∈ r.modules)
    (h : Held (captureCheckpoint capture r.modules identity) snap) (raises : Raises) :
    Hands m (handedTo (restoreModules raises (r.modules.map Module.name) snap).1 m.name) := by
  have hnodup : (snap.modules.map Prod.fst).Nodup := by
    rw [h.keys]
    exact r.distinct.sublist (keys_captured r.modules)
  have hbase : (captureCheckpoint capture r.modules identity).modules.lookup m.name =
      (captureModule m).map Prod.snd :=
    Assoc.lookup_filterMap (fun _ _ => captureModule_key) r.distinct hm
  have hskipped : captureModule m = none →
      handedTo (restoreModules raises (r.modules.map Module.name) snap).1 m.name = [] := by
    intro hnone
    have hlookup : snap.modules.lookup m.name = none := h.lookup_none (by rw [hbase, hnone]; rfl)
    exact handedTo_of_none hnodup hlookup raises _
  have hkept : ∀ d, m.serialize = .dict d → excluded m.name = false → m.name ≠ "sleep" →
      handedTo (restoreModules raises (r.modules.map Module.name) snap).1 m.name =
        [carry m.name (dropTransient m.name d)] := by
    intro d hd hkeeps hname
    have hlookup : snap.modules.lookup m.name =
        some (.obj (carry m.name (dropTransient m.name d))) := by
      rw [h.lookup_eq hname, hbase]
      simp [captureModule, hkeeps, hd]
    rw [handedTo_of_lookup hm hnodup hkeeps hlookup, restore_capture_state]
  constructor
  case nothing =>
    intro hnot
    apply hskipped
    cases hs : m.serialize with
    | dict d => exact (hnot d hs).elim
    | raises | notDict => simp [captureModule, hs]
  case own =>
    intro hself hcarried
    apply hskipped
    simp [captureModule, excluded_iff.mpr ⟨hself, hcarried⟩]
  case carried =>
    intro d keys hd hkeys
    obtain ⟨hname, rfl⟩ := carried_cases hkeys
    have hkeeps : excluded m.name = false := by
      rw [hname]
      decide
    rw [hkept d hd hkeeps (by simp [hname]), hname]
    rfl
  case sleep =>
    intro d hd hname
    have hkeeps : excluded m.name = false := by
      rw [hname]
      decide
    have hstate : ∀ state, dropTransient m.name (carry m.name state) = state := by
      rw [hname]
      exact fun _ => rfl
    have hless : lessTransient m.name d = carry m.name (dropTransient m.name d) := by
      rw [← dropTransient_eq, hname]
      rfl
    have hown : (captureCheckpoint capture r.modules identity).modules.lookup m.name =
        some (.obj (lessTransient m.name d)) := by
      rw [hbase, hless]
      simp [captureModule, hkeeps, hd]
    rcases h.modules with hsame | ⟨d', e, hlookup, he, hset⟩
    · rw [← hsame] at hown
      left
      rw [handedTo_of_lookup hm hnodup hkeeps hown, hstate]
    · right
      refine ⟨e, he, ?_⟩
      have hd' : d' = lessTransient m.name d := by
        rw [hname] at hown ⊢
        rw [hlookup] at hown
        simpa using hown
      have hnow : snap.modules.lookup m.name =
        some (.obj (Dict.set d' "state_cycle" (.obj e))) := by
        rw [hset, hname]
        exact Dict.lookup_set_self _ _ _
      rw [handedTo_of_lookup hm hnodup hkeeps hnow, hstate, hd']
  case ordinary =>
    intro d hd hself hname
    have hkeeps : excluded m.name = false := by
      have hnot : ¬ excluded m.name = true := fun hex => hself (excluded_iff.mp hex).1
      simpa using hnot
    have hcarried : carriedFields.lookup m.name = none := by
      cases hk : carriedFields.lookup m.name with
      | none => rfl
      | some keys =>
        obtain ⟨hmodel, -⟩ := carried_cases hk
        rw [hmodel] at hself
        simp [selfPersistingModules] at hself
    rw [hkept d hd hkeeps hname, carry, hcarried, dropTransient_eq]

namespace Scenario

variable {s : Scenario isOther}

theorem readable_captured (s : Scenario isOther) : Readable s.captured :=
  readable_capture s.registry s.capture s.identity

/-- A whole write and whole updates leave the capture to be restored. -/
theorem usable_updated (hfault : s.fault = none) (hwhole : s.WritesWhole) (hfresh : s.NotStale) :
    ∃ snap, usableCheckpoint s.env s.record (some s.identity) s.updated = some snap ∧
      Held s.captured snap := by
  have hbase := s.readable_captured
  have hwritten : HeldFile s.captured s.written.file := by
    refine ⟨s.captured, ?_, rfl, .inl rfl⟩
    simp [written, hfault, writeCheckpoint]
  obtain ⟨snap, hfile, hheld⟩ := held_updateAll hbase hwritten hwhole.2
  obtain ⟨snap', hread, hheld'⟩ := readCheckpoint_held s.env hbase hheld
  rw [← hfile] at hread
  obtain ⟨y, hy, hfields⟩ := Identity.fromDict_toDict s.identity
  refine ⟨snap', usableCheckpoint_eq_some.mpr ⟨hread, s.identity, y, rfl, ?_, ?_, ?_⟩, hheld'⟩
  · have hget : Dict.get snap'.metadata "identity" = .obj s.identity.toDict := by
      rw [hheld'.metadata]
      rfl
    simp only [identityOfSnapshot, hget, hy]
    rfl
  · rw [hfields]
  · intro started hstarted
    exact hfresh snap' started hread hstarted

/-- A short write leaves a file that no longer reads where one that reads was. -/
theorem run_short {u : UpdateCall isOther} (hreach : u.Reaches file)
    (hshort : u.fault = some .shortWrite) : (u.run file).2 ≠ file := by
  obtain ⟨newEntry, old, snap, -, husable, -, hrun⟩ := run_of_reaches hreach
  have hread := (usableCheckpoint_eq_some.mp husable).1
  intro hsame
  have htorn : file = .torn (.obj snap.toDict) := by
    rw [← hsame, hrun, hshort]
    rfl
  rw [htorn] at hread
  simp [readCheckpoint] at hread

theorem writesWhole_of_undoes (h : s.Undoes) : s.WritesWhole := by
  constructor
  · intro hshort
    have hkept := (h.writeKeeps (by simp [hshort])).1
    simp [written, hshort, writeCheckpoint] at hkept
  · intro earlier u later hsplit hreach hshort
    exact run_short hreach hshort (h.updatesKeep earlier u later hsplit (by simp [hshort]))

theorem undoes_of_writesWhole (h : s.WritesWhole) : s.Undoes := by
  constructor
  case writeKeeps =>
    intro hfault
    obtain ⟨fault, hsome⟩ := Option.ne_none_iff_exists'.mp hfault
    have hne : fault ≠ .shortWrite := by
      rintro rfl
      exact h.1 hsome
    rw [written, hsome]
    exact writeCheckpoint_kept hne
  case updatesKeep =>
    intro earlier u later hsplit hfault
    by_cases hreach : u.Reaches (s.atUpdate earlier)
    · obtain ⟨fault, hsome⟩ := Option.ne_none_iff_exists'.mp hfault
      have hne : fault ≠ .shortWrite := by
        rintro rfl
        exact h.2 earlier u later hsplit hreach hsome
      obtain ⟨newEntry, old, snap, -, -, -, hrun⟩ := run_of_reaches hreach
      rw [hrun, hsome]
      exact (writeCheckpoint_kept hne).2
    · exact run_of_not_reaches hreach
  case hands =>
    intro hfault hfresh raises m hm
    obtain ⟨snap, husable, hheld⟩ := usable_updated hfault h hfresh
    simp only [restored, restoreCheckpoint, husable]
    exact hands_of_held hm hheld raises
  case isolated =>
    intro raises raises'
    unfold restored restoreCheckpoint
    split <;> rfl
  case refused =>
    intro env raises record enabled identity file hrefuse
    unfold restoreCheckpoint
    split
    · rfl
    · rename_i snap husable
      obtain ⟨hread, x, y, hx, hy, hsame, hfresh⟩ := usableCheckpoint_eq_some.mp husable
      obtain ⟨started, hstarted, hlt⟩ := hrefuse snap x y hread hx hy hsame
      rw [hfresh started hstarted] at hlt
      cases hlt

/-- A restore undoes a capture exactly where no write was cut short unnoticed. -/
theorem restore_undoes_capture (s : Scenario isOther) : s.Undoes ↔ s.WritesWhole :=
  ⟨writesWhole_of_undoes, undoes_of_writesWhole⟩

end Scenario

def minted : IdentityFields :=
  { entityId := "ent-00000000000000000000000000000000", mintedAt := .float (.fin 0) }

theorem minted_checked : check (fun _ => false) minted = .ok () := by decide

def affectOnly : Registry where
  modules := [{ name := "affect", serialize := .dict [("valence", .int 1)] }]
  distinct := by decide
  current := by decide

/-- A checkpoint is there, and the disk fills up under the write of the next one. -/
def fullDisk : Scenario (fun _ => false) where
  registry := affectOnly
  identity := ⟨minted, minted_checked⟩
  capture := { id := "b", timestamp := .fin 2, reason := "periodic", awakeSeconds := .null }
  before := .json (.obj (captureCheckpoint
    { id := "a", timestamp := .fin 1, reason := "periodic", awakeSeconds := .null }
    affectOnly.modules ⟨minted, minted_checked⟩).toDict)
  fault := some .shortWrite
  updates := []
  env :=
    { show_ := fun _ => "", ofText := fun _ => none, dictOfOther := fun _ => .error .typeError
      newId := "c", now := .fin 3 }
  record := .absent

/-- The write reports success and has put a text that does not read in the place of one that does,
so nothing is restored. -/
theorem full_disk_loses_checkpoint :
    ¬ fullDisk.Undoes ∧ fullDisk.written.result = .ok () ∧
      (fullDisk.restored fun _ _ => false) = ([], none) := by
  refine ⟨?_, rfl, rfl⟩
  intro h
  have hkept := (h.writeKeeps (by simp [fullDisk])).1
  simp [Scenario.written, fullDisk, writeCheckpoint] at hkept

end Kaine.ResumeCheckpoint
