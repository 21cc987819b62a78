import Kaine.Lib.Json
import Kaine.Lib.SortBy
import Mathlib.Data.List.Dedup
import Mathlib.Data.String.Basic

/-! The rename table of `kaine/legacy_names.py` and the readers of `kaine/legacy_aliases.py` that
apply it to stored names and to what old records hold. Every scope of the table is done. -/
namespace Kaine
open Py

/-- `MODULES`, old key to new key. -/
def modules : List (String × String) :=
  [("topos", "vision"), ("soma", "interoception"), ("chronos", "sequence"),
   ("thymos", "affect"), ("hypnos", "sleep"), ("mnemos", "episodic_memory"),
   ("phantasia", "world_model"), ("lingua", "language"), ("vox", "vocal"),
   ("nous", "planning"), ("volition", "action_selection"), ("eidolon", "self_model"),
   ("empatheia", "social_cognition"), ("syneidesis", "workspace"), ("praxis", "effectors"),
   ("mundus", "embodiment"), ("perception", "perceptual_locus"), ("spot", "supervisor"),
   ("nexus", "dashboard"), ("echo", "recorder")]

/-- `STAGE_VALUES`, then `STORED_TAGS`, in the order they are tried. -/
def storedValues : List (String × String) :=
  [("gestation", "development"),
   ("kaine-phantasia-rssm-npz-v1", "kaine-world-model-rssm-npz-v1"),
   ("phantasia-encoder-v1", "world-model-encoder-v1"),
   ("birth", "maturation"),
   ("failed:gestation_unviable", "failed:development_unviable"),
   ("eidolon_drift", "self_model_drift")]

/-- `STAGE_VALUES`. -/
def stageValues : List (String × String) := [("gestation", "development")]

/-- `STAGE_FIELDS`. -/
def stageFields : List (String × String) :=
  [("gestation_started_at", "development_started_at"),
   ("womb_t_at_birth", "stimulus_source_t_at_maturation"), ("womb_seed", "stimulus_source_seed"),
   ("womb_params_digest", "stimulus_source_params_digest"),
   ("birth_bloom_ends_at", "maturation_bloom_ends_at"), ("hypnos_cursor", "sleep_cursor")]

/-- `STATE_PATHS`. -/
def statePaths : List (String × String) :=
  [("mnemos/mnemos.db", "episodic_memory/episodic_memory.db"),
   ("mnemos/store_health.json", "episodic_memory/store_health.json"),
   ("lingua/intent_expression.jsonl", "language/intent_expression.jsonl"),
   ("lingua/utterance_outcomes.jsonl", "language/utterance_outcomes.jsonl"),
   ("eidolon/self_model.json", "self_model/self_model.json"),
   ("hypnos/consolidation_divergence.json", "sleep/consolidation_divergence.json"),
   ("hypnos/organ_window.json", "sleep/organ_window.json"),
   ("perception/desired.json", "perceptual_locus/desired.json"),
   ("perception/runtime.json", "perceptual_locus/runtime.json"),
   ("praxis/audit.log", "effectors/audit.log"),
   ("praxis/notifications.log", "effectors/notifications.log"),
   ("lifecycle/gestation_readout.json", "lifecycle/development_readout.json"),
   ("lifecycle/birth_request.json", "lifecycle/maturation_request.json"),
   ("lifecycle/birth_ack.json", "lifecycle/maturation_ack.json"),
   ("lifecycle/gestation_progress.json", "lifecycle/development_progress.json"),
   ("lifecycle/gestation_viability.json", "lifecycle/development_viability.json"),
   ("individuation/birth_adapter.gguf", "individuation/maturation_adapter.gguf"),
   ("individuation/birth_pending", "individuation/maturation_pending")]

def mapModuleKey (key : String) : String := (modules.lookup key).getD key

def mapStatePath (rel : String) : String := (statePaths.lookup rel).getD rel

/-- A bundle member's path, by its parts; `BUNDLE_MEMBERS` names a directory. -/
def mapBundleMember : List String → List String
  | "gestation" :: name :: rest => "development" :: name :: rest
  | first :: rest => mapModuleKey first :: rest
  | [] => []

/-- Every form of a module key, itself first. -/
def nameForms (name : String) : List String :=
  let forms := (modules.lookup name).toList ++ (modules.filter fun row => row.2 = name).map Prod.fst
  name :: SortBy.sortBy id (forms.filter fun form => form ≠ name).dedup

def mapStoredValue (value : String) : String := (storedValues.lookup value).getD value

def mapStageValue (value : String) : String := (stageValues.lookup value).getD value

/-- Rename the fields of a stage record, where the new name is not there too, and its stage. -/
def mapStageRecord (data : Dict) : Dict :=
  let result := (data.filter fun kv => (stageFields.lookup kv.1).isNone).map fun
    | ("stage", .str value) => ("stage", .str (mapStageValue value))
    | kv => kv
  data.foldl
    (fun result kv =>
      match stageFields.lookup kv.1 with
      | some new => if Dict.has result new then result else Dict.set result new kv.2
      | none => result)
    result

def mapFreezeSource : Json → Json
  | .str source => .str (mapStoredValue (mapModuleKey source))
  | source => source

/-- A renaming table reaches a name from another one only through one of its rows. -/
theorem lookup_getD_eq {table : List (String × String)} {name key : String}
    (hnew : ∀ row ∈ table, row.2 ≠ name) (h : (table.lookup key).getD key = name) :
    key = name := by
  cases hl : table.lookup key with
  | none => simpa [hl] using h
  | some new =>
    have hmem : (key, new) ∈ table := by
      rw [List.lookup_eq_some_iff] at hl
      obtain ⟨front, back, hsplit, _⟩ := hl
      simp [hsplit]
    exact absurd (by simpa [hl] using h) (hnew _ hmem)

/-- A renaming that reaches no old name can be repeated. -/
theorem lookup_getD_getD {table : List (String × String)}
    (hnew : ∀ row ∈ table, table.lookup row.2 = none) (key : String) :
    (table.lookup ((table.lookup key).getD key)).getD ((table.lookup key).getD key) =
      (table.lookup key).getD key := by
  cases hl : table.lookup key with
  | none => simp [hl]
  | some new =>
    have hmem : (key, new) ∈ table := by
      obtain ⟨front, back, hsplit, _⟩ := List.lookup_eq_some_iff.mp hl
      simp [hsplit]
    simp [hnew _ hmem]

theorem mapFreezeSource_mapFreezeSource (source : Json) :
    mapFreezeSource (mapFreezeSource source) = mapFreezeSource source := by
  cases source with
  | str s =>
    have hstored : mapStoredValue (mapStoredValue (mapModuleKey s)) =
        mapStoredValue (mapModuleKey s) := lookup_getD_getD (by decide) _
    have hkeys : mapModuleKey (mapStoredValue (mapModuleKey s)) =
        mapStoredValue (mapModuleKey s) := by
      cases hl : storedValues.lookup (mapModuleKey s) with
      | none =>
        have hsame : mapStoredValue (mapModuleKey s) = mapModuleKey s := by
          rw [mapStoredValue, hl, Option.getD_none]
        rw [hsame]
        exact lookup_getD_getD (by decide) s
      | some new =>
        have hmem : (mapModuleKey s, new) ∈ storedValues := by
          obtain ⟨front, back, hsplit, _⟩ := List.lookup_eq_some_iff.mp hl
          simp [hsplit]
        have hnew : ∀ row ∈ storedValues, mapModuleKey row.2 = row.2 := by decide
        rw [mapStoredValue, hl, Option.getD_some]
        exact hnew _ hmem
    simp only [mapFreezeSource, hkeys, hstored]
  | _ => rfl

/-- No old name was renamed to `welfare`, and `welfare` was not renamed. -/
theorem mapFreezeSource_eq_welfare {source : Json} :
    mapFreezeSource source = .str "welfare" ↔ source = .str "welfare" := by
  constructor
  · intro h
    cases source with
    | str s =>
      have h' : mapStoredValue (mapModuleKey s) = "welfare" := by simpa [mapFreezeSource] using h
      have hkey : mapModuleKey s = "welfare" := lookup_getD_eq (by decide) h'
      rw [lookup_getD_eq (by decide) hkey]
    | _ => simp [mapFreezeSource] at h
  · rintro rfl
    decide

/-- `DEVELOPMENTAL`, old key to new key. -/
def developmental : List (String × String) :=
  [("gestation", "development"), ("gestational", "developmental"), ("gestating", "developing"),
   ("womb", "stimulus_source"), ("birth", "maturation"), ("being", "entity")]

/-- `STREAM_NAMES`. -/
def streamNames : List (String × String) :=
  ((modules ++ developmental).map fun row => (row.1 ++ ".out", row.2 ++ ".out")) ++
    [("lingua.external", "language.external"), ("lingua.internal", "language.internal"),
     ("eidolon.self_model", "self_model.document"),
       ("volition_feedback.out", "action_selection_feedback.out"),
     ("intent.perception.switch", "intent.perceptual_locus.switch"),
     ("stage.gestation.womb_lost", "stage.development.stimulus_source_lost"),
     ("stage.birth.ready", "stage.maturation.ready"), ("nexus.snapshot", "dashboard.snapshot")]

/-- `RECORD_FIELDS`. -/
def recordFields : List (String × String) :=
  [("thymos_state", "affect_state"), ("gestation_started_at", "development_started_at"),
   ("hypnos_payload", "sleep_payload"), ("empatheia_deviation", "social_cognition_deviation"),
   ("nous_initiated", "planning_initiated"),
     ("nous_initiated_entry_ids", "planning_initiated_entry_ids"),
   ("nous_proposals_realized", "planning_proposals_realized"),
   ("nous_proposals_declined", "planning_proposals_declined"),
   ("nous_proposals_forwarded", "planning_proposals_forwarded"),
   ("unrealizable_nous_intents", "unrealizable_planning_intents"),
   ("eidolon_drift_count", "self_model_drift_count"),
     ("eidolon_drift_signal", "self_model_drift_signal"),
   ("eidolon_identity_history_len", "self_model_identity_history_len"),
   ("eidolon_self_model_found", "self_model_found"),
     ("hypnos_adapters_present", "sleep_adapters_present"),
   ("phantasia_cue", "world_model_cue"),
     ("womb_prediction_error", "stimulus_source_prediction_error")] ++ modules

def mapStream (name : String) : String :=
  match streamNames.lookup name with
  | some new => new
  | none =>
    if '.' ∈ name.toList then
      let first := String.ofList (name.toList.takeWhile (· ≠ '.'))
      let rest := String.ofList (name.toList.dropWhile (· ≠ '.'))
      if mapModuleKey first ≠ first then mapModuleKey first ++ rest else name
    else name

/-- The value of a field, where it is a text, mapped. -/
def mapField (map : String → String) (record : Dict) (field : String) : Dict :=
  match record.lookup field with
  | some (.str value) => record.set field (.str (map value))
  | _ => record

/-- The fields of a record that are renamed, where the new name is not there too. -/
def renameFields (record : Dict) : Dict :=
  record.foldl
    (fun result kv =>
      match recordFields.lookup kv.1 with
      | some new => if Dict.has result new then result else Dict.set result new kv.2
      | none => result)
    (record.filter fun kv => (recordFields.lookup kv.1).isNone)

def mapRecord (record : Dict) : Dict :=
  let result := ["event_type", "type", "stream"].foldl (mapField mapStream) (renameFields record)
  ["source", "processor", "trigger_module"].foldl (mapField mapModuleKey) result

variable {key field : String} {map : String → String} {record : Dict}

theorem lookup_mapField (h : key ≠ field) :
    (mapField map record field).lookup key = record.lookup key := by
  unfold mapField
  split
  · exact Assoc.lookup_assign_of_ne h
  · rfl

theorem lookup_renameFields (hold : recordFields.lookup key = none)
    (hnew : ∀ row ∈ recordFields, row.2 ≠ key) :
    (renameFields record).lookup key = record.lookup key := by
  have hfilter : (record.filter fun kv => (recordFields.lookup kv.1).isNone).lookup key =
    record.lookup key := by
    induction record with
    | nil => rfl
    | cons kv record ih =>
      obtain ⟨name, value⟩ := kv
      by_cases hname : key = name
      · subst hname
        rw [List.filter_cons_of_pos (by rw [hold]; rfl), List.lookup_cons, List.lookup_cons,
          beq_self_eq_true]
      · rw [Assoc.lookup_cons_of_ne hname, ← ih]
        by_cases hkept : (recordFields.lookup name).isNone = true
        · rw [List.filter_cons_of_pos (by exact hkept), Assoc.lookup_cons_of_ne hname]
        · rw [List.filter_cons_of_neg (by exact hkept)]
  have hfold : ∀ (rest result : Dict), (rest.foldl
      (fun result kv =>
        match recordFields.lookup kv.1 with
        | some new => if Dict.has result new then result else Dict.set result new kv.2
        | none => result) result).lookup key = result.lookup key := by
    intro rest
    induction rest with
    | nil => exact fun _ => rfl
    | cons kv rest ih =>
      intro result
      rw [List.foldl_cons, ih]
      split
      · next new hlookup =>
        split_ifs
        · rfl
        · exact Assoc.lookup_assign_of_ne (hnew _ (Assoc.mem_of_lookup_eq_some hlookup)).symm
      · rfl
  exact (hfold _ _).trans hfilter

/-- A field of no old or new name, whose value is not mapped either, stands as it was. -/
theorem lookup_mapRecord (hold : recordFields.lookup key = none)
    (hnew : ∀ row ∈ recordFields, row.2 ≠ key)
    (hvalue : key ∉ ["event_type", "type", "stream", "source", "processor", "trigger_module"]) :
    (mapRecord record).lookup key = record.lookup key := by
  simp only [List.mem_cons, List.not_mem_nil, or_false, not_or] at hvalue
  obtain ⟨h1, h2, h3, h4, h5, h6⟩ := hvalue
  unfold mapRecord
  simp only [List.foldl_cons, List.foldl_nil]
  rw [lookup_mapField h6, lookup_mapField h5, lookup_mapField h4, lookup_mapField h3,
    lookup_mapField h2, lookup_mapField h1, lookup_renameFields hold hnew]

end Kaine
