import Kaine.Lifecycle.BundleSafety
import Kaine.Lifecycle.ResumeCheckpointSafety

/-! A revival hands every module what was captured from it. -/
namespace Kaine.Preservation
open Py Security StateEncryptor Identity
open ResumeCheckpoint (Snapshot ReadEnv identityOfSnapshot)

section Identity

variable {isOther : Char → Bool} {d d' : Dict}

/-- An identity is read by what its record has under each key. -/
theorem fromDict_congr (hlookup : ∀ k, d'.lookup k = d.lookup k)
    (hkeys : ∀ k, k ∈ d'.map Prod.fst ↔ k ∈ d.map Prod.fst) (hfit : keysFit d = true) :
    fromDict isOther (.obj d') = fromDict isOther (.obj d) := by
  have hfit' : keysFit d' = true := by
    unfold keysFit at hfit ⊢
    rw [Bool.and_eq_true, List.all_eq_true, List.all_eq_true] at hfit ⊢
    obtain ⟨hrequired, hallowed⟩ := hfit
    refine ⟨fun k hk => ?_, fun kv hkv => ?_⟩
    · have hhas := hrequired k hk
      unfold Dict.has at hhas ⊢
      rwa [hlookup]
    · obtain ⟨kv', hkv', hkey⟩ := List.mem_map.mp ((hkeys kv.1).mp (List.mem_map_of_mem hkv))
      rw [← hkey]
      exact hallowed kv' hkv'
  have hget (k : String) : Dict.get d' k = Dict.get d k := by
    unfold Dict.get
    rw [hlookup]
  have hgetD (k : String) (v : Json) : Dict.getD d' k v = Dict.getD d k v := by
    unfold Dict.getD
    rw [hlookup]
  have hhas (k : String) : Dict.has d' k = Dict.has d k := by
    unfold Dict.has
    rw [hlookup]
  have hnames : readLineageNames d' = readLineageNames d := by
    unfold readLineageNames
    rw [hgetD, hhas]
  have hname : readName d' = readName d := by
    unfold readName
    rw [hlookup]
  have htext (key message : String) : Identity.readText d' key message =
    Identity.readText d key message := by
    unfold Identity.readText
    rw [hget]
  have hlineage : readLineage d' = readLineage d := by
    unfold readLineage
    rw [hget]
  have hminted : readMintedAt d' = readMintedAt d := by
    unfold readMintedAt
    rw [hget]
  have hsource : readLegacySource d' = readLegacySource d := by
    unfold readLegacySource
    rw [hget]
  have hhead : readHead d' = readHead d := by
    unfold readHead
    rw [hfit, hfit', hnames, hname, htext, htext, hlineage]
    rfl
  simp only [fromDict, hhead, hminted, hsource]

theorem sorted_strings (names : List String) :
    Json.sortedList (names.map .str) = names.map .str := by
  induction names with
  | nil => rfl
  | cons name names ih => rw [List.map_cons, Json.sortedList, ih]; rfl

theorem sorted_pairs (pairs : List (String × String)) :
    Json.sortedList (pairs.map pairJson) = pairs.map pairJson := by
  induction pairs with
  | nil => rfl
  | cons p pairs ih => rw [List.map_cons, Json.sortedList, ih]; rfl

theorem sorted_toDict (x : IdentityFields) : ∀ kv ∈ x.toDict, kv.2.sorted = kv.2 := by
  intro kv hkv
  obtain ⟨entityId, lineage, origin, mintedAt, legacySource, name, lineageNames⟩ := x
  have hminted : mintedAt.toJson.sorted = mintedAt.toJson := by
    cases mintedAt with
    | int n => cases n <;> rfl
    | float x => rfl
  have hsource : (optionalText legacySource).sorted = optionalText legacySource := by
    cases legacySource <;> rfl
  have hlineage := congrArg Json.arr (sorted_strings lineage)
  have hpairs := congrArg Json.arr (sorted_pairs lineageNames)
  rcases List.mem_append.mp hkv with hkv | hkv
  · rcases List.mem_append.mp hkv with hkv | hkv
    · simp only [List.mem_cons, List.not_mem_nil, or_false] at hkv
      rcases hkv with rfl | rfl | rfl | rfl | rfl
      · rfl
      · exact hlineage
      · rfl
      · exact hminted
      · exact hsource
    · cases name with
      | none => cases hkv
      | some name =>
        rw [List.mem_singleton.mp hkv]
        rfl
  · dsimp only at hkv
    split_ifs at hkv
    · cases hkv
    · rw [List.mem_singleton.mp hkv]
      exact hpairs

/-- The identity of a snapshot that was written is read back. -/
theorem fromDict_sorted (x : EntityIdentity isOther) :
    ∃ y, fromDict isOther (.obj x.toDict.sorted) = .ok y ∧ y.entityId = x.entityId ∧
      y.lineage = x.lineage := by
  obtain ⟨y, hy, hfields⟩ := fromDict_toDict x
  have hlookup (k : String) : (Dict.sorted x.toDict).lookup k = x.toDict.lookup k := by
    rw [Dict.lookup_sorted]
    cases hk : x.toDict.lookup k with
    | none => rfl
    | some v => rw [Option.map_some, sorted_toDict _ (k, v) (Assoc.mem_of_lookup_eq_some hk)]
  refine ⟨y, ?_, ?_, ?_⟩
  · rw [fromDict_congr hlookup (fun k => (Dict.keys_sorted _).mem_iff) (keysFit_toDict _), hy]
  · rw [hfields]
  · rw [hfields]

/-- The part of an identity that stands in the manifest passes the constructor. -/
theorem check_manifest (x : EntityIdentity isOther) :
    check isOther { entityId := x.entityId, lineage := x.lineage,
                    origin := if isLegacyId x.entityId then "legacy" else "minted",
                    legacySource := if isLegacyId x.entityId then some "manifest"
                      else none } = .ok () := by
  have hchecked := x.checked
  unfold check at hchecked
  split at hchecked
  · cases hchecked
  · next hid =>
    split at hchecked
    · cases hchecked
    · next hlineage =>
      unfold check
      rw [if_neg hid, if_neg hlineage]
      have hminted : checkMintedAt (.float (.fin 0)) = .ok () := rfl
      cases hlegacy : isLegacyId x.entityId <;>
        simp [checkOrigin, hlegacy, hminted, lineageNamesFit, bind, Except.bind]

variable {env : Env}

theorem readObject_dumps {d : Dict} {t : Text} {content : Bytes} (h : env.json.dumps d = some t)
    (hencode : Utf8.encode t = some content) : readObject env content = some d.sorted := by
  unfold readObject
  rw [Utf8.decode_encode hencode, Option.bind_some, env.json.loads_dumps h]
  rfl

/-- The manifest of a bundle names the identity of the request. -/
theorem manifestIdentity_written {request : Request isOther} {bundle : Dir} {manifest : Bytes}
    (h : (env.json.dumps (manifestOf request)).bind Utf8.encode = some manifest)
    (hbundle : bundle.lookup ["manifest.json"] = some manifest) :
    manifestIdentity env isOther bundle = some (request.identity.map fun x => (x.entityId,
      x.lineage)) := by
  obtain ⟨t, ht, hencode⟩ := Option.bind_eq_some_iff.mp h
  unfold manifestIdentity
  rw [hbundle]
  dsimp only
  rw [readObject_dumps ht hencode]
  have hget : Dict.get (manifestOf request).sorted "identity" =
      (((manifestOf request).lookup "identity").map Json.sorted).getD .null := by
    rw [Dict.get, Dict.lookup_sorted]
  have hlookup : (manifestOf request).lookup "identity" = request.identity.map fun x =>
      .obj [("entity_id", .str x.entityId), ("lineage", .arr (x.lineage.map .str))] := by
    unfold manifestOf
    rw [List.lookup_append, request.manifest_identity, Option.none_or]
    cases request.identity <;> rfl
  rw [hlookup] at hget
  cases hidentity : request.identity with
  | none =>
    rw [hidentity] at hget
    simp only [Option.bind_eq_bind, Option.bind_some, hget]
    rfl
  | some x =>
    rw [hidentity] at hget
    let d : Dict := [("entity_id", .str x.entityId), ("lineage", .arr (x.lineage.map .str))]
    have hentity : Dict.get d.sorted "entity_id" = .str x.entityId := by
      rw [Dict.get, Dict.lookup_sorted]
      rfl
    have hlineage : Dict.get d.sorted "lineage" = .arr (x.lineage.map .str) := by
      rw [Dict.get, Dict.lookup_sorted]
      exact congrArg Json.arr (sorted_strings x.lineage)
    have hlength : d.sorted.length = 2 := by
      have hkeys := (Dict.keys_sorted d).length_eq
      rwa [List.length_map, List.length_map] at hkeys
    have hstring : ∀ s, readString (.str s) = some s := fun _ => rfl
    have hread := mapM_map hstring x.lineage
    have hfound : Dict.get (manifestOf request).sorted "identity" = .obj d.sorted := hget
    simp only [Option.bind_eq_bind, Option.bind_some, hfound, hentity, hlineage]
    rw [hread, Option.bind_some, construct_of_check (check_manifest x)]
    show (if d.sorted.length = 2 then _ else _) = _
    rw [if_pos hlength]
    rfl

end Identity

section Restore

variable {isOther : Char → Bool} {env : Env} {src : Sources} {registry : Registry} {m : Module}
  {state record : Dict} {members : Members} {checkpoint : Option String} {path : String}

/-- Whether a revival goes by the module's importer. -/
def Module.importsBy (m : Module) (state : Dict) : Bool :=
  m.stateKey.any (fun key => key ≠ "" && state.has key) && m.importsState

/-- The weights in a checkpoint, and the pass count beside it. -/
def weightsAt (env : Env) (src : Sources) (path : String) : Option (Bytes × Option ℕ) :=
  (src.file path).bind fun content =>
    (maybeDecrypt env.lax env.encryptor content).toOption.map fun blob =>
      (blob, (src.file (path ++ passesSuffix)).bind (passCount env))

/-- What a module with weights is handed. -/
def handedWeights (m : Module) (state : Dict) (weights : Bytes × Option ℕ) : List Handed :=
  .weights m.name weights.1 ::
    ((if m.restoresPasses then weights.2.toList.map (.passes m.name) else []) ++
      [.deserialized m.name state.sorted])

/-- What was captured from a module, as a revival is to hand it over; none where weights are on
record and no checkpoint of theirs can be read. -/
def captured (env : Env) (src : Sources) (m : Module) (state : Dict) : Option (List Handed) :=
  if m.importsBy state then some [.imported m.name state.sorted]
  else
    match m.exportWeights with
    | some (some record) =>
      if (record.get "captured").truthy then
        ((checkpointOf record).join.bind (weightsAt env src)).map (handedWeights m state)
      else some [.deserialized m.name state.sorted]
    | _ => some [.deserialized m.name state.sorted]

/-- The weights and the pass count that a bundle has for a checkpoint: the file of its name, or else
the one that was copied. -/
def keptFor (env : Env) (src : Sources) (checkpoint : Option String) (path : String) :
    Option (Bytes × Option ℕ) :=
  let files := worldModelFiles src checkpoint
  ((files.lookup [memberDir worldModelMember, baseName path]).or
      (files.head?.map Prod.snd)).bind fun content =>
    (maybeDecrypt env.lax env.encryptor content).toOption.map fun blob =>
      (blob, (files.lookup [memberDir worldModelMember, baseName path ++ passesSuffix]).bind
        (passCount env))

/-- A record of captured weights names a checkpoint that can be read, the bundle has the same
weights for it, with the same pass count, and the module takes them. -/
structure Module.WeightsKept (env : Env) (src : Sources) (checkpoint : Option String) (m : Module)
    (record : Dict) : Prop where
  takes : m.importsWeights = true
  kept : ∃ path weights kept, checkpointOf record = some (some path) ∧
    weightsAt env src path = some weights ∧ keptFor env src checkpoint path = some kept ∧
    kept.1 = weights.1 ∧ (m.restoresPasses = true → kept.2 = weights.2)

/-- What a state says of captured weights where none were flushed: nothing, or nothing that the
module could take. -/
def Module.NoWeights (m : Module) (state : Dict) : Prop :=
  (state.get "world_model_capture").truthy = false ∨
    ∃ record : Dict, state.get "world_model_capture" = .obj record ∧
      ((record.get "captured").truthy = true → m.importsWeights = false)

/-- When a bundle can restore a module whole. -/
structure Module.Whole (env : Env) (src : Sources) (checkpoint : Option String) (m : Module)
    (state : Dict) : Prop where
  own : m.exportWeights = none → m.NoWeights state
  weights : ∀ record : Dict, m.exportWeights = some (some record) →
    (record.get "captured").truthy = true → m.WeightsKept env src checkpoint record

theorem handedWeights_eq_iff {weights weights' : Bytes × Option ℕ} :
    handedWeights m state weights = handedWeights m state weights' ↔
      weights.1 = weights'.1 ∧ (m.restoresPasses = true → weights.2 = weights'.2) := by
  obtain ⟨blob, passes⟩ := weights
  obtain ⟨blob', passes'⟩ := weights'
  cases hrestores : m.restoresPasses with
  | false => simp [handedWeights, hrestores]
  | true =>
    cases passes <;> cases passes' <;> simp [handedWeights, hrestores]

theorem importsBy_sorted (m : Module) (state : Dict) :
    m.importsBy state.sorted = m.importsBy state := by
  unfold Module.importsBy
  simp only [Dict.has_sorted]

theorem captureRecord_sorted (h : state.get "world_model_capture" = .obj record) :
    captureRecord state.sorted =
      some (if (record.get "captured").truthy then some record.sorted else none) := by
  have hget : Dict.get state.sorted "world_model_capture" = .obj record.sorted := by
    rw [Dict.get_sorted, h]
    rfl
  unfold captureRecord
  rw [hget]
  dsimp only
  rw [Dict.get_sorted, Dict.truthy_sorted]
  cases hcaptured : (record.get "captured").truthy with
  | false => simp
  | true =>
    have hnonempty : record.sorted.isEmpty = false := by
      have hlength := (Dict.sorted_perm record).length_eq
      cases hrecord : record with
      | nil =>
        rw [hrecord] at hcaptured
        cases hcaptured
      | cons kv rest =>
        cases hsorted : Dict.sorted (kv :: rest) with
        | nil =>
          rw [hrecord, hsorted] at hlength
          cases hlength
        | cons _ _ => rfl
    simp [hnonempty]

theorem captureRecord_other (h : ∀ record, state.get "world_model_capture" ≠ .obj record) :
    captureRecord state.sorted =
      if (state.get "world_model_capture").truthy then none else some none := by
  have hother : ∀ record, Dict.get state.sorted "world_model_capture" ≠ .obj record := by
    intro record
    rw [Dict.get_sorted]
    cases hv : state.get "world_model_capture" with
    | obj record => exact absurd hv (h record)
    | _ => nofun
  unfold captureRecord
  split
  · exact absurd ‹_› (hother _)
  · rw [Dict.get_sorted, Dict.truthy_sorted]

theorem checkpointOf_sorted (record : Dict) : checkpointOf record.sorted = checkpointOf record := by
  have htruthy := Dict.truthy_sorted (record.get "checkpoint_path")
  unfold checkpointOf
  rw [Dict.get_sorted, Dict.get_sorted, Dict.truthy_sorted]
  cases hv : record.get "checkpoint_path" with
  | arr xs =>
    rw [hv] at htruthy
    simp only [Json.sorted] at htruthy ⊢
    rw [htruthy]
  | obj kvs =>
    rw [hv] at htruthy
    simp only [Json.sorted] at htruthy ⊢
    rw [htruthy]
  | _ => rfl

theorem le_append (s t : String) : s ≤ s ++ t := by
  rw [String.le_iff_toList_le, String.toList_append]
  exact not_lt.mp (List.not_lt.mpr List.le_append_left)

/-- The checkpoint comes before its pass count. -/
theorem head_sorted (src : Sources) (checkpoint : Option String) :
    ((worldModelFiles src checkpoint).insertionSort fun a b =>
      "/".intercalate a.1 ≤ "/".intercalate b.1).head? =
        (worldModelFiles src checkpoint).head? := by
  unfold worldModelFiles
  cases checkpoint with
  | none => rfl
  | some path =>
    dsimp only
    cases src.file path with
    | none => rfl
    | some weights =>
      dsimp only
      cases src.file (path ++ passesSuffix) with
      | none => rfl
      | some passes =>
        have hle : "/".intercalate [memberDir worldModelMember, baseName path] ≤
            "/".intercalate [memberDir worldModelMember, baseName path ++ passesSuffix] := by
          have hjoin : ∀ a b, "/".intercalate [a, b] = a ++ "/" ++ b := fun _ _ => rfl
          rw [hjoin, hjoin, ← String.append_assoc]
          exact le_append _ _
        simp only [List.insertionSort_cons, List.insertionSort_nil, List.orderedInsert_nil,
          List.orderedInsert_cons, if_pos hle]

/-- The weights that a revival loads are those that the bundle has for the recorded checkpoint. -/
theorem loadWorldModelWeights_kept (hmembers : members.worldModel = worldModelFiles src checkpoint)
    (path : String) :
    (loadWorldModelWeights env members (some path)).map (fun blob =>
      (blob, (members.worldModel.lookup
        [memberDir worldModelMember, baseName path ++ passesSuffix]).bind (passCount env))) =
      keptFor env src checkpoint path := by
  unfold loadWorldModelWeights keptFor
  rw [hmembers]
  dsimp only
  rw [head_sorted, Option.bind_some]
  cases ((worldModelFiles src checkpoint).lookup [memberDir worldModelMember, baseName path]).or
      ((worldModelFiles src checkpoint).head?.map Prod.snd) with
  | none => rfl
  | some content => rfl

theorem path_of_checkpointOf (h : checkpointOf record = some (some path)) :
    record.get "checkpoint_path" = .str path := by
  unfold checkpointOf at h
  split at h
  · split at h
    · rename_i text htext
      split at h
      · cases h
      · cases h
        exact htext
    · split at h <;> cases h
  · cases h

theorem restoreModule_weights (hroute : m.importsBy state = false)
    (hrecord : state.get "world_model_capture" = .obj record)
    (hcaptured : (record.get "captured").truthy = true) (htakes : m.importsWeights = true)
    (hpath : checkpointOf record = some (some path))
    (hmembers : members.worldModel = worldModelFiles src checkpoint) :
    restoreModule env members m state.sorted =
      (keptFor env src checkpoint path).map (handedWeights m state) := by
  have hrecorded : recordedPath (Dict.sorted record) (.str "world_model.ckpt") = some path := by
    have hget : Dict.get (Dict.sorted record) "checkpoint_path" = .str path := by
      rw [Dict.get_sorted, path_of_checkpointOf hpath]
      rfl
    unfold recordedPath Dict.getD
    unfold Dict.get at hget
    cases hfound : (Dict.sorted record).lookup "checkpoint_path" with
    | none =>
      rw [hfound] at hget
      cases hget
    | some v =>
      rw [hfound] at hget
      cases hget
      rfl
  unfold restoreModule
  rw [← Module.importsBy, importsBy_sorted, hroute, if_neg Bool.false_ne_true,
    captureRecord_sorted hrecord, if_pos hcaptured, Option.bind_eq_bind, Option.bind_some]
  dsimp only
  rw [if_pos htakes, checkpointOf_sorted, hpath, Option.bind_eq_bind, Option.bind_some, hrecorded,
    ← loadWorldModelWeights_kept hmembers path]
  cases loadWorldModelWeights env members (some path) with
  | none => rfl
  | some blob => rfl

theorem restoreModule_plain (hroute : m.importsBy state = false) {entry : Option Dict}
    (hrecord : captureRecord state.sorted = some entry)
    (hplain : entry = none ∨ m.importsWeights = false) :
    restoreModule env members m state.sorted = some [.deserialized m.name state.sorted] := by
  unfold restoreModule
  rw [← Module.importsBy, importsBy_sorted, hroute, if_neg Bool.false_ne_true, hrecord,
    Option.bind_eq_bind, Option.bind_some]
  cases entry with
  | none => rfl
  | some record => exact if_neg (by simpa using hplain)

/-- A module that takes weights is not restored without any where its state records them. -/
theorem restoreModule_takes (hroute : m.importsBy state = false)
    (hrecord : state.get "world_model_capture" = .obj record)
    (hcaptured : (record.get "captured").truthy = true) (htakes : m.importsWeights = true) :
    restoreModule env members m state.sorted ≠ some [.deserialized m.name state.sorted] := by
  unfold restoreModule
  rw [← Module.importsBy, importsBy_sorted, hroute, if_neg Bool.false_ne_true,
    captureRecord_sorted hrecord, if_pos hcaptured, Option.bind_eq_bind, Option.bind_some]
  dsimp only
  rw [if_pos htakes]
  intro h
  obtain ⟨recorded, -, h⟩ := Option.bind_eq_some_iff.mp h
  obtain ⟨blob, -, h⟩ := Option.bind_eq_some_iff.mp h
  obtain ⟨path, -, h⟩ := Option.bind_eq_some_iff.mp h
  cases (List.cons.inj (Option.some.inj h)).1

/-- A module that flushes no weights. -/
theorem restoreModule_own_iff (hroute : m.importsBy state = false) :
    restoreModule env members m state.sorted = some [.deserialized m.name state.sorted] ↔
      m.NoWeights state := by
  by_cases hobj : ∃ record, state.get "world_model_capture" = .obj record
  · obtain ⟨record, hrecord⟩ := hobj
    have hsorted := captureRecord_sorted hrecord
    constructor
    · intro h
      refine .inr ⟨record, hrecord, fun hcaptured => ?_⟩
      by_contra htakes
      exact restoreModule_takes hroute hrecord hcaptured (Bool.eq_true_of_not_eq_false htakes) h
    · intro h
      refine restoreModule_plain hroute hsorted ?_
      cases hcaptured : (Dict.get record "captured").truthy with
      | false => exact .inl rfl
      | true =>
        rcases h with hfalsy | ⟨record', hrecord', hoff⟩
        · rw [hrecord] at hfalsy
          cases record with
          | nil => cases hcaptured
          | cons kv rest => simp [Json.truthy] at hfalsy
        · rw [hrecord] at hrecord'
          cases hrecord'
          exact .inr (hoff hcaptured)
  · have hother := captureRecord_other (not_exists.mp hobj)
    cases htruthy : (state.get "world_model_capture").truthy with
    | false =>
      rw [htruthy] at hother
      exact iff_of_true (restoreModule_plain hroute hother (.inl rfl)) (.inl htruthy)
    | true =>
      rw [htruthy, if_pos rfl] at hother
      refine iff_of_false ?_ ?_
      · unfold restoreModule
        rw [← Module.importsBy, importsBy_sorted, hroute, if_neg Bool.false_ne_true, hother]
        nofun
      · rintro (hfalsy | ⟨record, hrecord, -⟩)
        · exact absurd (htruthy.symm.trans hfalsy) (by decide)
        · exact hobj ⟨record, hrecord⟩

/-- A module whose record says that its weights are captured. -/
theorem restoreModule_weights_iff (hroute : m.importsBy state = false)
    (hrecord : state.get "world_model_capture" = .obj record)
    (hcaptured : (record.get "captured").truthy = true)
    (hmembers : members.worldModel = worldModelFiles src checkpoint) :
    (∃ handed, ((checkpointOf record).join.bind (weightsAt env src)).map (handedWeights m state) =
        some handed ∧ restoreModule env members m state.sorted = some handed) ↔
      m.WeightsKept env src checkpoint record := by
  constructor
  · rintro ⟨handed, hhanded, hrestore⟩
    obtain ⟨weights, hweights, rfl⟩ := Option.map_eq_some_iff.mp hhanded
    obtain ⟨path, hpath, hweights⟩ := Option.bind_eq_some_iff.mp hweights
    have hnamed : checkpointOf record = some (some path) := Option.join_eq_some_iff.mp hpath
    cases htakes : m.importsWeights with
    | false =>
      rw [restoreModule_plain hroute (captureRecord_sorted hrecord) (.inr htakes)] at hrestore
      cases (List.cons.inj (Option.some.inj hrestore)).1
    | true =>
      rw [restoreModule_weights hroute hrecord hcaptured htakes hnamed hmembers] at hrestore
      obtain ⟨kept, hkept, heq⟩ := Option.map_eq_some_iff.mp hrestore
      exact ⟨htakes, path, weights, kept, hnamed, hweights, hkept, handedWeights_eq_iff.mp heq⟩
  · rintro ⟨htakes, path, weights, kept, hnamed, hweights, hkept, hsame⟩
    refine ⟨handedWeights m state weights, ?_, ?_⟩
    · rw [hnamed, Option.join_some, Option.bind_some, hweights, Option.map_some]
    · rw [restoreModule_weights hroute hrecord hcaptured htakes hnamed hmembers, hkept,
        Option.map_some, handedWeights_eq_iff.mpr hsame]

/-- A module is handed what was captured from it just when the bundle can restore it whole. -/
theorem restoreModule_iff (hstate : moduleState m = some state)
    (hmembers : members.worldModel = worldModelFiles src checkpoint) :
    (∃ handed, captured env src m state = some handed ∧
      restoreModule env members m state.sorted = some handed) ↔
    (m.importsBy state = false → m.Whole env src checkpoint state) := by
  cases hroute : m.importsBy state with
  | true =>
    have hrestore : restoreModule env members m state.sorted =
        some [.imported m.name state.sorted] := by
      unfold restoreModule
      rw [← Module.importsBy, importsBy_sorted, hroute, if_pos rfl]
    simp [captured, hroute, hrestore]
  | false =>
    rw [forall_prop_of_true rfl, captured, hroute, if_neg Bool.false_ne_true]
    obtain ⟨own, -, hstate'⟩ := Option.bind_eq_some_iff.mp hstate
    cases hexport : m.exportWeights with
    | none =>
      have hwhole : m.Whole env src checkpoint state ↔ m.NoWeights state :=
        ⟨fun h => h.own hexport, fun h => ⟨fun _ => h, fun _ hother => by
          rw [hexport] at hother
          cases hother⟩⟩
      have hown : restoreModule env members m state.sorted =
          some [.deserialized m.name state.sorted] ↔ m.NoWeights state :=
            restoreModule_own_iff hroute
      rw [hwhole, ← hown]
      simp
    | some result =>
      rw [hexport] at hstate'
      obtain ⟨record, rfl, rfl⟩ := Option.map_eq_some_iff.mp hstate'
      have hrecord : Dict.get (own.set "world_model_capture" (.obj record)) "world_model_capture" =
          .obj record := by
        rw [Dict.get, Dict.lookup_set_self]
        rfl
      have hwhole : m.Whole env src checkpoint (own.set "world_model_capture" (.obj record)) ↔
          ((Dict.get record "captured").truthy = true →
            m.WeightsKept env src checkpoint record) := by
        constructor
        · exact fun h => h.weights record hexport
        · intro h
          refine ⟨fun hnone => ?_, fun record' hsame => ?_⟩
          · rw [hexport] at hnone
            cases hnone
          · rw [hexport] at hsame
            cases hsame
            exact h
      rw [hwhole]
      dsimp only
      cases hcaptured : (Dict.get record "captured").truthy with
      | false =>
        have hplain := captureRecord_sorted hrecord
        rw [hcaptured] at hplain
        have hrestore : restoreModule env members m
            (Dict.sorted (own.set "world_model_capture" (.obj record))) =
              some [.deserialized m.name (Dict.sorted
                (own.set "world_model_capture" (.obj record)))] :=
          restoreModule_plain hroute hplain (.inl rfl)
        rw [if_neg Bool.false_ne_true, hrestore]
        simp
      | true =>
        rw [if_pos rfl, forall_prop_of_true rfl]
        exact restoreModule_weights_iff hroute hrecord hcaptured hmembers

/-- What a module is handed is in its name. -/
theorem name_of_restored {handed : List Handed}
    (h : restoreModule env members m state = some handed) : ∀ x ∈ handed, x.name = m.name := by
  unfold restoreModule at h
  split at h
  · cases h
    simp [Handed.name]
  · obtain ⟨entry, -, h⟩ := Option.bind_eq_some_iff.mp h
    cases entry with
    | none =>
      cases h
      simp [Handed.name]
    | some record =>
      dsimp only at h
      split at h
      · obtain ⟨recorded, -, h⟩ := Option.bind_eq_some_iff.mp h
        obtain ⟨blob, -, h⟩ := Option.bind_eq_some_iff.mp h
        obtain ⟨path, -, h⟩ := Option.bind_eq_some_iff.mp h
        cases h
        intro x hx
        rcases List.mem_cons.mp hx with rfl | hx
        · rfl
        rcases List.mem_append.mp hx with hx | hx
        · split at hx
          · obtain ⟨count, -, rfl⟩ := List.mem_map.mp hx
            rfl
          · cases hx
        · rw [List.mem_singleton.mp hx]
          rfl
      · cases h
        simp [Handed.name]

/-- A snapshot that was written is read back, its dicts with their keys in order. -/
theorem fromDict_saved (read : ReadEnv) {snap : Snapshot}
    (hcurrent : ∀ k ∈ snap.modules.map Prod.fst, mapModuleKey k = k) :
    ∃ snap', Snapshot.fromDict read (Dict.sorted snap.toDict) = .ok snap' ∧
      snap'.modules = Dict.sorted snap.modules ∧ snap'.metadata = Dict.sorted snap.metadata := by
  have htimestamp : ∃ x, (ResumeCheckpoint.orElse (Dict.get (Dict.sorted snap.toDict) "timestamp")
      (.float read.now)).toFloat read.ofText = .ok x := by
    have hget : Dict.get (Dict.sorted snap.toDict) "timestamp" = .float snap.timestamp := by
      rw [Dict.get_sorted]
      rfl
    rw [hget, ResumeCheckpoint.orElse]
    split
    · exact ⟨_, rfl⟩
    · exact ⟨_, rfl⟩
  obtain ⟨x, hx⟩ := htimestamp
  have hmodules : read.dict (Dict.get (Dict.sorted snap.toDict) "modules") =
    .ok (Dict.sorted snap.modules) := by
    rw [Dict.get_sorted]
    rfl
  have hadapters : ResumeCheckpoint.listOf (Dict.get (Dict.sorted snap.toDict) "adapters") =
      .ok (Json.sortedList snap.adapters) := by
    rw [Dict.get_sorted]
    rfl
  have hmetadata : read.dict (Dict.get (Dict.sorted snap.toDict) "metadata") =
    .ok (Dict.sorted snap.metadata) := by
    rw [Dict.get_sorted]
    rfl
  have hkeys : ResumeCheckpoint.mapModuleKeys (Dict.sorted snap.modules) =
    Dict.sorted snap.modules :=
    ResumeCheckpoint.mapModuleKeys_current fun k hk =>
      hcurrent k ((Dict.keys_sorted _).mem_iff.mp hk)
  simp only [Snapshot.fromDict, hx, hmodules, hadapters, hmetadata, hkeys, bind, Except.bind, pure,
    Except.pure]
  exact ⟨_, rfl, rfl, rfl⟩

/-- The identity in a snapshot agrees with the one in the manifest. -/
theorem identity_agrees {request : Request isOther} {whole : Bool} {snap : Snapshot}
    (hmetadata : snap.metadata = Dict.sorted (request.metadata whole)) :
    ∃ identity, identityOfSnapshot isOther snap = .ok identity ∧
      sidecarAgrees (request.identity.map fun x => (x.entityId, x.lineage)) identity = true := by
  have hlookup : (request.metadata whole).lookup "identity" = request.identity.map fun x =>
    .obj x.toDict := by
    unfold Request.metadata
    cases request.identity <;> cases request.identityUnreadable <;> cases request.feedback <;> rfl
  have hget : Dict.get snap.metadata "identity" =
      ((request.identity.map fun x => Json.obj x.toDict).getD .null).sorted := by
    rw [hmetadata, Dict.get_sorted, Dict.get, hlookup]
  unfold identityOfSnapshot
  rw [hget]
  cases hidentity : request.identity with
  | none => exact ⟨none, rfl, rfl⟩
  | some x =>
    obtain ⟨y, hy, hid, hlineage⟩ := fromDict_sorted x
    refine ⟨some y, congrArg (Except.map some) hy, ?_⟩
    simp [sidecarAgrees, hid, hlineage]

/-- Each part of a list of results is found under its own name. -/
theorem filter_flatten {entries : Dict} {results : List (List Handed)}
    {P : String × Json → List Handed → Prop} (hall : List.Forall₂ P entries results)
    (hname : ∀ e ∈ entries, ∀ hs, P e hs → ∀ h ∈ hs, h.name = e.1)
    (hnodup : (entries.map Prod.fst).Nodup) {e : String × Json} (he : e ∈ entries) :
    ∃ hs, P e hs ∧ results.flatten.filter (·.name = e.1) = hs := by
  induction hall with
  | nil => cases he
  | @cons first hs entries results hP hall ih =>
    obtain ⟨hfirst, hnodup⟩ := List.nodup_cons.mp hnodup
    obtain ⟨hnames, htail⟩ := List.forall_mem_cons.mp hname
    rw [List.flatten_cons, List.filter_append]
    rcases List.mem_cons.mp he with rfl | he
    · refine ⟨hs, hP, ?_⟩
      have hown : hs.filter (·.name = e.1) = hs :=
        List.filter_eq_self.mpr fun h hh => decide_eq_true (hnames hs hP h hh)
      have hrest : results.flatten.filter (·.name = e.1) = [] := by
        rw [List.filter_eq_nil_iff]
        intro h hh
        obtain ⟨other, hother, hh⟩ := List.mem_flatten.mp hh
        obtain ⟨entry, hentry, hPother⟩ := Assoc.exists_of_forall₂ hall hother
        rw [decide_eq_true_eq, htail entry hentry other hPother h hh]
        intro heq
        exact hfirst (heq ▸ List.mem_map_of_mem hentry)
      rw [hown, hrest, List.append_nil]
    · obtain ⟨hs', hP', hfilter⟩ := ih htail hnodup he
      refine ⟨hs', hP', ?_⟩
      have hother : hs.filter (·.name = e.1) = [] := by
        rw [List.filter_eq_nil_iff]
        intro h hh
        rw [decide_eq_true_eq, hnames hs hP h hh]
        intro heq
        exact hfirst (heq ▸ List.mem_map_of_mem he)
      rw [hother, List.nil_append, hfilter]

/-- The states of a preservation, by module. -/
theorem states_keys {modules : List Module} {states : List (String × Dict)}
    (h : (modules.mapM fun m => (moduleState m).map fun state => (m.name, state)) = some states) :
    states.map Prod.fst = modules.map Module.name := by
  have hall := Assoc.forall₂_of_mapM h
  clear h
  induction hall with
  | nil => rfl
  | cons hstate hall ih =>
    obtain ⟨state, -, rfl⟩ := Option.map_eq_some_iff.mp hstate
    rw [List.map_cons, List.map_cons, ih]

theorem find_module (hm : m ∈ registry.modules) :
    registry.modules.find? (fun other => other.name = m.name) = some m := by
  have hdistinct := registry.distinct
  generalize registry.modules = modules at hm hdistinct
  induction modules with
  | nil => cases hm
  | cons first modules ih =>
    obtain ⟨hfirst, hdistinct⟩ := List.nodup_cons.mp hdistinct
    rcases List.mem_cons.mp hm with rfl | hm
    · simp
    · have hne : first.name ≠ m.name := by
        intro heq
        exact hfirst (heq ▸ List.mem_map_of_mem hm)
      rw [List.find?_cons_of_neg (by simpa using hne)]
      exact ih hm hdistinct

end Restore

section Revival

variable {isOther : Char → Bool} {env : Env} {request : Request isOther} {registry : Registry}
  {src : Sources} {bundle : Dir}

/-- What a preservation that returns has written, and what its readers make of it. -/
theorem read_preserved (hsound : env.Sound)
    (h : preserveLive env request registry src = some bundle) :
    ∃ states checkpoint snapshot payload,
      (registry.modules.mapM fun m => (moduleState m).map fun state => (m.name, state)) =
        some states ∧
      worldModelCheckpoint registry.modules = some checkpoint ∧
      env.json.dumps (snapshotOf request states (worldModelCaptured registry.modules)).toDict =
        some payload ∧
      openArchive env bundle = some (some (bundleMembers src snapshot checkpoint)) ∧
      readBundleMembers env bundle = some ⟨some payload, worldModelFiles src checkpoint⟩ ∧
      manifestIdentity env isOther bundle = some (request.identity.map fun x => (x.entityId,
        x.lineage)) := by
  unfold preserveLive at h
  split at h
  · cases h
  obtain ⟨states, hstates, h⟩ := Option.bind_eq_some_iff.mp h
  obtain ⟨checkpoint, hcheckpoint, h⟩ := Option.bind_eq_some_iff.mp h
  obtain ⟨snapshot, hsnapshot, h⟩ := Option.bind_eq_some_iff.mp h
  obtain ⟨manifest, hmanifest, h⟩ := Option.bind_eq_some_iff.mp h
  cases h
  obtain ⟨payload, hpayload, hread⟩ := readText_saved hsound hsnapshot
  have hopen : openArchive env [sealedArchive env (request.nonces 1)
      (bundleMembers src snapshot checkpoint),
        (["manifest.json"], manifest)] = some (some (bundleMembers src snapshot checkpoint)) :=
    openArchive_complete hsound _ _
  refine ⟨states, checkpoint, snapshot, payload, hstates, hcheckpoint, hpayload, hopen, ?_, ?_⟩
  · unfold readBundleMembers
    rw [hopen]
    exact foldlM_members hread
  · refine manifestIdentity_written hmanifest ?_
    have hne :
        (["manifest.json"] == (sealedArchive env (request.nonces 1)
          (bundleMembers src snapshot checkpoint)).1)
        = false := by
      unfold sealedArchive
      cases env.encryptor.enabled <;> rfl
    rw [List.lookup_cons, hne, List.lookup_cons, BEq.rfl]

/-- What a revival makes of one entry of the snapshot. -/
def Registry.restore (registry : Registry) (env : Env) (members : Members)
    (entry : String × Json) : Option (List Handed) := do
  let m ← registry.modules.find? fun m => m.name = entry.1
  restoreModule env members m (← entry.2.asDict)

theorem restore_entry {members : Members} {m : Module} (hm : m ∈ registry.modules)
    {entry : String × Json} {state : Dict} (hkey : m.name = entry.1)
    (hvalue : entry.2 = .obj state) :
    registry.restore env members entry = restoreModule env members m state := by
  rw [Registry.restore, ← hkey, find_module hm, hvalue]
  rfl

/-- A revival of a preservation that returned restores every module, each from its own state. -/
theorem revive_eq (read : ReadEnv) (hsound : env.Sound)
    (h : preserveLive env request registry src = some bundle) :
    ∃ (entries : Dict) (members : Members) (checkpoint : Option String),
      worldModelCheckpoint registry.modules = some checkpoint ∧
      members.worldModel = worldModelFiles src checkpoint ∧
      revive env read isOther bundle registry =
        (entries.mapM (registry.restore env members)).map List.flatten ∧
      (entries.map Prod.fst).Nodup ∧
      (∀ e ∈ entries, ∃ m ∈ registry.modules, ∃ state, m.name = e.1 ∧
        moduleState m = some state ∧ e.2 = .obj (Dict.sorted state)) ∧
      ∀ m ∈ registry.modules, ∃ e ∈ entries, e.1 = m.name := by
  obtain ⟨states, checkpoint, snapshot, payload, hstates, hcheckpoint, hpayload, -, hmembers,
    hmanifest⟩ := read_preserved hsound h
  let saved := snapshotOf request states (worldModelCaptured registry.modules)
  have hkeys : saved.modules.map Prod.fst = registry.modules.map Module.name := by
    rw [← states_keys hstates]
    exact List.map_map
  have hcurrent : ∀ k ∈ saved.modules.map Prod.fst, mapModuleKey k = k := by
    intro k hk
    rw [hkeys] at hk
    obtain ⟨m, hm, rfl⟩ := List.mem_map.mp hk
    exact registry.current m hm
  obtain ⟨snap, hsnap, hmodules, hmetadata⟩ := fromDict_saved read hcurrent
  obtain ⟨identity, hidentity, hagrees⟩ := identity_agrees hmetadata
  -- Each entry of the snapshot is of one module, and its state is the captured one with its keys in
  -- order.
  have hentry : ∀ e ∈ snap.modules, ∃ m ∈ registry.modules, ∃ state, m.name = e.1 ∧
      moduleState m = some state ∧ e.2 = .obj (Dict.sorted state) := by
    intro e he
    rw [hmodules] at he
    obtain ⟨kv, hkv, rfl⟩ := List.mem_map.mp ((Dict.sorted_perm saved.modules).mem_iff.mp he)
    obtain ⟨⟨name, state⟩, hstate, rfl⟩ := List.mem_map.mp hkv
    obtain ⟨m, hm, hcaptured⟩ := Assoc.exists_of_forall₂ (Assoc.forall₂_of_mapM hstates) hstate
    obtain ⟨state', hstate', heq⟩ := Option.map_eq_some_iff.mp hcaptured
    cases heq
    exact ⟨m, hm, state, rfl, hstate', rfl⟩
  refine ⟨snap.modules, ⟨some payload, worldModelFiles src checkpoint⟩, checkpoint,
    hcheckpoint, rfl, ?_, ?_, hentry, fun m hm => ?_⟩
  · have hknown : (snap.modules.any fun entry =>
        registry.modules.all fun m => m.name ≠ entry.1) = false := by
      rw [List.any_eq_false]
      intro e he
      obtain ⟨m, hm, -, hkey, -⟩ := hentry e he
      rw [List.all_eq_true]
      intro hall
      exact of_decide_eq_true (hall m hm) hkey
    have hloads : (env.json.loads payload).bind Json.asDict = some (Dict.sorted saved.toDict) := by
      rw [env.json.loads_dumps hpayload]
      rfl
    have hsnap' : (Snapshot.fromDict read (Dict.sorted saved.toDict)).toOption = some snap := by
      rw [hsnap]
      rfl
    have hidentity' : (identityOfSnapshot isOther snap).toOption = some identity := by
      rw [hidentity]
      rfl
    simp only [revive, hmembers, hloads, hsnap', hmanifest, hidentity', hagrees, hknown,
      Option.bind_eq_bind, Option.bind_some, Bool.not_true, Bool.false_eq_true, if_false]
    rw [Option.map_eq_bind]
    rfl
  · rw [hmodules, (Dict.keys_sorted saved.modules).nodup_iff, hkeys]
    exact registry.distinct
  · have hmem : m.name ∈ snap.modules.map Prod.fst := by
      rw [hmodules, (Dict.keys_sorted saved.modules).mem_iff, hkeys]
      exact List.mem_map_of_mem hm
    exact List.mem_map.mp hmem

/-- Every module that is not restored through its importer is restored whole from the checkpoint
that was copied. -/
def Registry.Whole (registry : Registry) (env : Env) (src : Sources) : Prop :=
  ∀ m ∈ registry.modules, ∀ state, moduleState m = some state → m.importsBy state = false →
    ∀ checkpoint, worldModelCheckpoint registry.modules = some checkpoint →
      m.Whole env src checkpoint state

/-- What a revival that does not raise hands a module is what its restoration makes of its state. -/
theorem restored_of_revive (read : ReadEnv) (hsound : env.Sound)
    (h : preserveLive env request registry src = some bundle) {handed : List Handed}
    (hrevive : revive env read isOther bundle registry = some handed) {m : Module}
    (hm : m ∈ registry.modules) :
    ∃ state members checkpoint, moduleState m = some state ∧
      worldModelCheckpoint registry.modules = some checkpoint ∧
      members.worldModel = worldModelFiles src checkpoint ∧
      restoreModule env members m state.sorted = some (handed.filter (·.name = m.name)) := by
  obtain ⟨entries, members, checkpoint, hcheckpoint, hmembers, heq, hnodup, hentry, hkeys⟩ :=
    revive_eq read hsound h
  rw [heq] at hrevive
  obtain ⟨results, hresults, rfl⟩ := Option.map_eq_some_iff.mp hrevive
  have hname : ∀ e ∈ entries, ∀ hs, registry.restore env members e = some hs →
      ∀ handed ∈ hs, handed.name = e.1 := by
    intro e he hs hhs
    obtain ⟨m, hm, state, hkey, -, hvalue⟩ := hentry e he
    rw [restore_entry hm hkey hvalue] at hhs
    rw [← hkey]
    exact name_of_restored hhs
  obtain ⟨e, he, hkey⟩ := hkeys m hm
  obtain ⟨hs, hhs, hfilter⟩ := filter_flatten (Assoc.forall₂_of_mapM hresults) hname hnodup he
  obtain ⟨m', hm', state, hkey', hstate, hvalue⟩ := hentry e he
  obtain rfl : m' = m := by
    have hfind := find_module hm'
    rw [hkey', hkey, find_module hm] at hfind
    exact (Option.some.inj hfind).symm
  rw [restore_entry hm' hkey' hvalue] at hhs
  rw [hkey] at hfilter
  exact ⟨state, members, checkpoint, hstate, hcheckpoint, hmembers, hfilter ▸ hhs⟩

/-- A revival hands every module what was captured from it just when the bundle can restore each
whole. -/
theorem revive_iff (read : ReadEnv) (hsound : env.Sound)
    (h : preserveLive env request registry src = some bundle) :
    (∃ handed, revive env read isOther bundle registry = some handed ∧
      ∀ m ∈ registry.modules, ∃ state, moduleState m = some state ∧
        captured env src m state = some (handed.filter (·.name = m.name))) ↔
      registry.Whole env src := by
  constructor
  · rintro ⟨handed, hrevive, hall⟩ m hm state hstate hroute checkpoint hcheckpoint
    obtain ⟨state', members, checkpoint', hstate', hcheckpoint', hmembers, hrestore⟩ :=
      restored_of_revive read hsound h hrevive hm
    obtain ⟨state'', hstate'', hcaptured⟩ := hall m hm
    cases hstate.symm.trans hstate'
    cases hstate.symm.trans hstate''
    cases hcheckpoint.symm.trans hcheckpoint'
    exact (restoreModule_iff hstate hmembers).mp ⟨_, hcaptured, hrestore⟩ hroute
  · intro hwhole
    obtain ⟨entries, members, checkpoint, hcheckpoint, hmembers, heq, -, hentry, -⟩ :=
      revive_eq read hsound h
    obtain ⟨results, hresults, -⟩ := Assoc.exists_mapM (l := entries)
      (f := registry.restore env members) (P := fun _ _ => True) (by
      intro e he
      obtain ⟨m, hm, state, hkey, hstate, hvalue⟩ := hentry e he
      obtain ⟨handed, -, hrestore⟩ := (restoreModule_iff hstate hmembers).mpr fun hroute =>
        hwhole m hm state hstate hroute checkpoint hcheckpoint
      exact ⟨handed, (restore_entry hm hkey hvalue).trans hrestore, trivial⟩)
    rw [hresults] at heq
    refine ⟨_, heq, fun m hm => ?_⟩
    obtain ⟨state, members', checkpoint', hstate, hcheckpoint', hmembers', hrestore⟩ :=
      restored_of_revive read hsound h heq hm
    cases hcheckpoint.symm.trans hcheckpoint'
    obtain ⟨handed, hcaptured, hrestore'⟩ := (restoreModule_iff hstate hmembers').mpr fun hroute =>
      hwhole m hm state hstate hroute checkpoint hcheckpoint
    rw [hrestore'] at hrestore
    cases hrestore
    exact ⟨state, hstate, hcaptured⟩

/-- Reviving a preservation that returned hands every module what was captured from it just when the
bundle can restore each whole; the stage, the development files and the individuation tree always
come back. -/
theorem revive_preserved (read : ReadEnv) (hsound : env.Sound)
    (h : preserveLive env request registry src = some bundle) :
    ((∃ handed, revive env read isOther bundle registry = some handed ∧
      ∀ m ∈ registry.modules, ∃ state, moduleState m = some state ∧
        captured env src m state = some (handed.filter (·.name = m.name))) ↔
      registry.Whole env src) ∧
    extractStage env bundle = some src.stage ∧
    readBundleStage env bundle = (match src.stage with
      | none => some none
      | some content => (readObject env content).map some) ∧
    extractDevelopment env bundle = some (SortBy.sortBy Prod.fst (capturedDevelopment src)) ∧
    extractIndividuation env bundle =
      some (if (capturedIndividuation src).isEmpty then none
        else some (capturedIndividuation src)) := by
  obtain ⟨states, checkpoint, snapshot, payload, -, -, -, hopen, hmembers, -⟩ :=
    read_preserved hsound h
  have hstage : extractStage env bundle = some src.stage := by
    unfold extractStage
    rw [hopen]
    exact congrArg some lookup_stage
  refine ⟨revive_iff read hsound h, hstage, ?_, ?_, ?_⟩
  · unfold readBundleStage
    rw [hmembers, hstage]
    rfl
  · unfold extractDevelopment
    rw [hopen]
    dsimp only
    rw [foldl_development]
  · unfold extractIndividuation
    rw [hopen]
    dsimp only
    rw [filterMap_individuation]
    have hsafe : ((src.individuation.map fun file => (file.1.1, file.2)).any
        fun file => file.1.head? = some "" || ".." ∈ file.1) = false := by
      rw [List.any_eq_false]
      intro file hfile
      obtain ⟨⟨⟨path, hne, hparts⟩, content⟩, -, rfl⟩ := List.mem_map.mp hfile
      have hhead : path.head? ≠ some "" := fun heq => (hparts _ (List.mem_of_head? heq)).1 rfl
      have hdots : ".." ∉ path := fun hmem => (hparts _ hmem).2 rfl
      simp [hhead, hdots]
    rw [hsafe, if_neg Bool.false_ne_true]
    unfold capturedIndividuation
    split_ifs <;> rfl

end Revival

section Example

/-- A preservation in plaintext returns where what it writes is JSON. -/
theorem exists_bundle {states : List (String × Dict)} {checkpoint : Option String}
    (hoff : env.encryptor = disabled) (hrequire : request.requireEncryption = false)
    (hstates : (registry.modules.mapM fun m => (moduleState m).map fun state => (m.name, state)) =
      some states)
    (hcheckpoint : worldModelCheckpoint registry.modules = some checkpoint)
    (hsnapshot : (env.json.dumps (snapshotOf request states
      (worldModelCaptured registry.modules)).toDict).isSome = true)
    (hmanifest : (env.json.dumps (manifestOf request)).isSome = true) :
    ∃ bundle, preserveLive env request registry src = some bundle := by
  obtain ⟨payload, hpayload⟩ := Option.isSome_iff_exists.mp hsnapshot
  obtain ⟨manifest, hmanifest⟩ := Option.isSome_iff_exists.mp hmanifest
  have hsaved : saveSnapshot env (request.nonces 0)
      (snapshotOf request states (worldModelCaptured registry.modules)) =
        some (payload.map fun c => Utf8.byte c.val) := by
    unfold saveSnapshot
    rw [hpayload, hoff]
    exact Utf8.encode_ascii (env.json.dumps_ascii hpayload)
  unfold preserveLive
  rw [hrequire, hstates, hcheckpoint, Option.bind_eq_bind, Option.bind_some, Option.bind_eq_bind,
    Option.bind_some, hsaved, Option.bind_eq_bind, Option.bind_some, hmanifest, Option.bind_some,
    Utf8.encode_ascii (env.json.dumps_ascii hmanifest)]
  exact ⟨_, rfl⟩

/-- A world model whose weights are in a checkpoint. -/
def worldModelIn (name path : String) : Module where
  name := name
  serialize := some []
  exportState := none
  exportWeights := some (some [("captured", .bool true), ("checkpoint_path", .str path)])
  stateKey := none
  importsState := false
  importsWeights := true
  restoresPasses := true

def oneWorldModel : Registry := ⟨[worldModelIn "world_model" "wm.npz"], by decide, by decide⟩

def checkRequest : Request (fun _ => false) where
  reason := "check"
  label := ""
  requireEncryption := false
  identity := none
  identityUnreadable := none
  preservationId := "p1"
  snapshotId := "s1"
  runId := none
  timestamp := .fin 0
  adapters := []
  feedback := none
  manifest := [("preservation_id", .str "p1")]
  manifest_identity := rfl
  nonces _ := zeroNonce

def checkSources : Sources where
  stage := some [Utf8.byte 123, Utf8.byte 125]
  development := fun _ => none
  individuation := []
  file
    | "wm.npz" => some [Utf8.byte 1, Utf8.byte 2]
    | _ => none

/-- The checkpoint is gone when it is to be copied. -/
def lostSources : Sources := { checkSources with file := fun _ => none }

def worldModelState (path : String) : Dict :=
  [("world_model_capture", .obj [("captured", .bool true), ("checkpoint_path", .str path)])]

def checkRow : Dict :=
  [("id", .str "s1"), ("parent_id", .null), ("label", .str "preservation:check"),
   ("timestamp", .float (.fin 0)),
     ("modules", .obj [("world_model", .obj (worldModelState "wm.npz"))]), ("adapters", .arr []),
   ("metadata", .obj [("kind", .str "preservation"), ("reason", .str "check"),
     ("preservation_id", .str "p1"), ("run_id", .null), ("world_model_captured", .bool true)])]

def checkText : Text := Text.ofLines
  ["\x7b", "  \"adapters\": [],", "  \"id\": \"s1\",", "  \"label\": \"preservation:check\",",
   "  \"metadata\": \x7b", "    \"kind\": \"preservation\",", "    \"preservation_id\": \"p1\",",
     "    \"reason\": \"check\",",
   "    \"run_id\": null,", "    \"world_model_captured\": true", "  \x7d,", "  \"modules\": \x7b",
   "    \"world_model\": \x7b", "      \"world_model_capture\": \x7b",
     "        \"captured\": true,",
   "        \"checkpoint_path\": \"wm.npz\"", "      \x7d",
   "    \x7d", "  \x7d,", "  \"parent_id\": null,", "  \"timestamp\": 0.0", "\x7d"]

def manifestText : Text := Text.ofLines ["\x7b", "  \"preservation_id\": \"p1\"", "\x7d"]

def checkTexts : List (Dict × Text) :=
  [([("preservation_id", .str "p1")], manifestText), (checkRow, checkText)]

theorem checkTexts_prefix : checkTexts.Pairwise fun row other => ¬ row.2 <+: other.2 ∧
    ¬ other.2 <+: row.2 := by
  decide +kernel

theorem checkTexts_ascii : ∀ row ∈ checkTexts, row.2.Ascii := by decide +kernel

theorem checkTexts_brace : ∀ row ∈ checkTexts, CodePoint.ofNat 123 ∈ row.2 := by decide

def checkEnv : Env where
  lax := false
  encryptor := disabled
  tar := plainTar
  json := JsonFile.ofTexts checkTexts checkTexts_prefix checkTexts_ascii checkTexts_brace

def checkRead : ReadEnv where
  show_ _ := ""
  ofText _ := none
  dictOfOther _ := .error .typeError
  newId := "n1"
  now := .fin 0

theorem oneWorldModel_whole : oneWorldModel.Whole checkEnv checkSources := by
  intro m hm state hstate hroute checkpoint hcheckpoint
  obtain rfl := List.mem_singleton.mp hm
  have hnamed : worldModelCheckpoint oneWorldModel.modules = some (some "wm.npz") := by decide
  obtain rfl : some "wm.npz" = checkpoint := Option.some.inj (hnamed.symm.trans hcheckpoint)
  refine ⟨nofun, fun record hrecord hcaptured => ?_⟩
  cases hrecord
  exact ⟨rfl, "wm.npz", ([Utf8.byte 1, Utf8.byte 2], none), ([Utf8.byte 1, Utf8.byte 2], none),
    by decide, by decide, by decide, rfl, fun _ => rfl⟩

theorem exists_bundle_one (src : Sources) :
    ∃ bundle, preserveLive checkEnv checkRequest oneWorldModel src = some bundle := by
  have hstates : (oneWorldModel.modules.mapM fun m => (moduleState m).map fun state =>
      (m.name, state)) = some [("world_model", worldModelState "wm.npz")] := by decide
  have hcheckpoint : worldModelCheckpoint oneWorldModel.modules = some (some "wm.npz") := by decide
  exact exists_bundle rfl rfl hstates hcheckpoint (by decide) (by decide)

theorem world_model_revived :
    ∃ bundle, preserveLive checkEnv checkRequest oneWorldModel checkSources = some bundle ∧
    extractStage checkEnv bundle = some (some [Utf8.byte 123, Utf8.byte 125]) ∧
    ∃ handed, revive checkEnv checkRead (fun _ => false) bundle oneWorldModel = some handed ∧
      handed.filter (·.name = "world_model") =
        [.weights "world_model" [Utf8.byte 1, Utf8.byte 2],
          .deserialized "world_model" (worldModelState "wm.npz")] := by
  obtain ⟨bundle, h⟩ := exists_bundle_one checkSources
  obtain ⟨hrestored, hstage, -⟩ := revive_preserved checkRead (.off rfl) h
  obtain ⟨handed, hrevive, hhanded⟩ := hrestored.mpr oneWorldModel_whole
  refine ⟨bundle, h, hstage, handed, hrevive, ?_⟩
  obtain ⟨state, hstate, hfilter⟩ :=
    hhanded (worldModelIn "world_model" "wm.npz") List.mem_cons_self
  cases hstate
  refine Option.some.inj (hfilter.symm.trans ?_)
  decide

/-- A checkpoint that is gone at the copy is skipped, and the bundle cannot be revived. -/
theorem lost_checkpoint_unrevived : ∃ bundle,
    preserveLive checkEnv checkRequest oneWorldModel lostSources = some bundle ∧
    revive checkEnv checkRead (fun _ => false) bundle oneWorldModel = none := by
  obtain ⟨bundle, h⟩ := exists_bundle_one lostSources
  refine ⟨bundle, h, Option.eq_none_iff_forall_ne_some.mpr fun handed hrevive => ?_⟩
  obtain ⟨state, members, checkpoint, hstate, hcheckpoint, hmembers, hrestore⟩ :=
    restored_of_revive checkRead (.off rfl) h hrevive List.mem_cons_self
  have hnamed : worldModelCheckpoint oneWorldModel.modules = some (some "wm.npz") := by decide
  obtain rfl : some "wm.npz" = checkpoint := Option.some.inj (hnamed.symm.trans hcheckpoint)
  cases hstate
  have hpath : checkpointOf [("captured", .bool true), ("checkpoint_path", .str "wm.npz")] =
      some (some "wm.npz") := by decide
  rw [restoreModule_weights rfl rfl rfl rfl hpath hmembers] at hrestore
  cases hrestore

end Example

end Kaine.Preservation
