import Kaine.Lifecycle.Preservation

/-! What the readers of a bundle find in a sealed one. -/
namespace Kaine.Preservation
open Py Security StateEncryptor

variable {env : Env} {src : Sources} {snapshot : Bytes} {checkpoint : Option String} {files : Dir}
  {file : Path × Bytes} {t : Text}

section Paths

theorem mapBundleMember_current {first : String} {rest : Path} (hkey : mapModuleKey first = first)
    (hold : first ≠ "gestation") : mapBundleMember (first :: rest) = first :: rest := by
  unfold mapBundleMember
  split
  · next heq => exact absurd (List.cons.inj heq).1 hold
  · next heq =>
    cases heq
    rw [hkey]
  · next heq => cases heq

theorem memberDir_worldModel : memberDir worldModelMember = "world_model" := by decide

theorem memberDir_development : memberDir developmentMember = "development" := by decide

theorem mem_worldModelFiles (h : file ∈ worldModelFiles src checkpoint) :
    ∃ name, file.1 = ["world_model", name] := by
  unfold worldModelFiles at h
  rw [memberDir_worldModel] at h
  split at h
  · cases h
  · split at h
    · cases h
    · rcases List.mem_cons.mp h with rfl | h
      · exact ⟨_, rfl⟩
      · split at h
        · cases h
        · rw [List.mem_singleton.mp h]
          exact ⟨_, rfl⟩

theorem mem_stageFiles (h : file ∈ stageFiles src) : file.1 = ["stage.json"] := by
  unfold stageFiles at h
  split at h
  · cases h
  · rw [List.mem_singleton.mp h]

theorem mem_developmentFiles (h : file ∈ developmentFiles src) :
    ∃ name ∈ bundledDevelopmentFiles, file.1 = ["development", name] := by
  obtain ⟨name, hname, hfile⟩ := List.mem_filterMap.mp h
  obtain ⟨content, -, rfl⟩ := Option.map_eq_some_iff.mp hfile
  exact ⟨name, hname, by rw [memberDir_development]⟩

theorem mem_individuationFiles (h : file ∈ individuationFiles src) :
    ∃ path : FilePath, file.1 = "individuation" :: path.1 := by
  obtain ⟨source, -, rfl⟩ := List.mem_map.mp h
  exact ⟨source.1, rfl⟩

/-- The members other than the snapshot and the world model's. -/
def otherFiles (src : Sources) : Dir :=
  stageFiles src ++ developmentFiles src ++ individuationFiles src

theorem bundleMembers_eq : bundleMembers src snapshot checkpoint =
    (["snapshot.json"], snapshot) :: (worldModelFiles src checkpoint ++ otherFiles src) := by
  unfold bundleMembers otherFiles
  rw [List.append_assoc, List.append_assoc, List.append_assoc]

/-- Their first part, and that none is the snapshot. -/
theorem mem_otherFiles (h : file ∈ otherFiles src) : ∃ first rest, file.1 = first :: rest ∧
    first ∈ ["stage.json", "development", "individuation"] := by
  rcases List.mem_append.mp h with h | h
  · rcases List.mem_append.mp h with h | h
    · exact ⟨_, [], mem_stageFiles h, by simp⟩
    · obtain ⟨name, -, hpath⟩ := mem_developmentFiles h
      exact ⟨_, [name], hpath, by simp⟩
  · obtain ⟨path, hpath⟩ := mem_individuationFiles h
    exact ⟨_, path.1, hpath, by simp⟩

theorem mapBundleMember_other (h : file ∈ otherFiles src) : mapBundleMember file.1 = file.1 := by
  obtain ⟨first, rest, hpath, hfirst⟩ := mem_otherFiles h
  have hcurrent : ∀ name ∈ ["stage.json", "development", "individuation"],
      mapModuleKey name = name ∧ name ≠ "gestation" := by decide
  rw [hpath, mapBundleMember_current (hcurrent first hfirst).1 (hcurrent first hfirst).2]

end Paths

section Members

theorem readMember_snapshot (members : Members) (hread : readText env snapshot = some t) :
    readMember env members (["snapshot.json"], snapshot) =
      some { members with snapshot := some t } := by
  have hname : mapBundleMember ["snapshot.json"] = ["snapshot.json"] :=
    mapBundleMember_current (by decide) (by decide)
  unfold readMember
  dsimp only
  rw [hname, if_pos rfl, hread, Option.map_some]

theorem readMember_worldModel {members : Members} {name : String} {content : Bytes}
    (hnew : members.worldModel.lookup ["world_model", name] = none) :
    readMember env members (["world_model", name], content) =
      some { members with
        worldModel := members.worldModel ++ [(["world_model", name], content)] } := by
  have hname : mapBundleMember ["world_model", name] = ["world_model", name] :=
    mapBundleMember_current (by decide) (by decide)
  unfold readMember
  dsimp only
  rw [hname, if_neg (by simp), memberDir_worldModel, if_pos ⟨rfl, le_refl 2⟩,
    if_neg (fun h => h.2 rfl), Members.put, hnew]
  rfl

theorem readMember_other (members : Members) (h : file ∈ otherFiles src) :
    readMember env members file = some members := by
  obtain ⟨first, rest, hpath, hfirst⟩ := mem_otherFiles h
  unfold readMember
  dsimp only
  rw [mapBundleMember_other h, hpath, memberDir_worldModel]
  have hne : ∀ name ∈ ["stage.json", "development", "individuation"],
      name ≠ "snapshot.json" ∧ name ≠ "world_model" := by decide
  rw [if_neg (fun heq => (hne first hfirst).1 (List.cons.inj heq).1),
    if_neg (fun heq => (hne first hfirst).2 (Option.some.inj heq.1))]

theorem foldlM_others (members : Members) (hall : ∀ file ∈ files, file ∈ otherFiles src) :
    files.foldlM (readMember env) members = some members := by
  induction files with
  | nil => rfl
  | cons file files ih =>
    rw [List.foldlM_cons, readMember_other members (hall file List.mem_cons_self)]
    exact ih fun other hother => hall other (List.mem_cons_of_mem _ hother)

theorem append_suffix_ne (name : String) : name ++ passesSuffix ≠ name := by
  intro h
  have hlength := congrArg String.length h
  rw [String.length_append] at hlength
  have hsuffix : passesSuffix.length = 12 := by decide
  omega

theorem foldlM_worldModel (t : Text) :
    (worldModelFiles src checkpoint).foldlM (readMember env) ⟨some t, []⟩ =
      some ⟨some t, worldModelFiles src checkpoint⟩ := by
  unfold worldModelFiles
  rw [memberDir_worldModel]
  cases checkpoint with
  | none => rfl
  | some path =>
    dsimp only
    cases src.file path with
    | none => rfl
    | some weights =>
      have hfirst : readMember env ⟨some t, []⟩ (["world_model", baseName path], weights) =
          some ⟨some t, [(["world_model", baseName path], weights)]⟩ := readMember_worldModel rfl
      cases src.file (path ++ passesSuffix) with
      | none =>
        dsimp only
        rw [List.foldlM_cons, hfirst]
        rfl
      | some passes =>
        dsimp only
        rw [List.foldlM_cons, hfirst]
        have hne : ["world_model", baseName path ++ passesSuffix] ≠ ["world_model",
          baseName path] := by
          intro h
          exact append_suffix_ne _ (List.cons.inj (List.cons.inj h).2).1
        have hnew : [(["world_model", baseName path], weights)].lookup
            ["world_model", baseName path ++ passesSuffix] = none := by
          rw [List.lookup_eq_none_iff]
          intro kv hkv
          rw [List.mem_singleton.mp hkv]
          simpa using append_suffix_ne (baseName path)
        show List.foldlM _ _ _ = _
        rw [List.foldlM_cons, readMember_worldModel hnew]
        rfl

/-- What is read of a bundle's members: the snapshot, and the world model's files. -/
theorem foldlM_members (hread : readText env snapshot = some t) :
    (bundleMembers src snapshot checkpoint).foldlM (readMember env) {} =
      some ⟨some t, worldModelFiles src checkpoint⟩ := by
  rw [bundleMembers_eq, List.foldlM_cons, readMember_snapshot {} hread]
  show List.foldlM _ _ _ = _
  rw [List.foldlM_append, foldlM_worldModel]
  exact foldlM_others _ fun file h => h

end Members

section Restored

theorem lookup_eq_none {path : Path} (h : ∀ file ∈ files, file.1 ≠ path) :
    files.lookup path = none := by
  rw [List.lookup_eq_none_iff]
  intro file hfile
  simpa using (h file hfile).symm

theorem lookup_stage :
    (bundleMembers src snapshot checkpoint).lookup ["stage.json"] = src.stage := by
  have hworld : (worldModelFiles src checkpoint).lookup ["stage.json"] = none := by
    refine lookup_eq_none fun file h => ?_
    obtain ⟨name, hpath⟩ := mem_worldModelFiles h
    rw [hpath]
    simp
  have hlater : (developmentFiles src ++ individuationFiles src).lookup ["stage.json"] = none := by
    refine lookup_eq_none fun file h => ?_
    rcases List.mem_append.mp h with h | h
    · obtain ⟨name, -, hpath⟩ := mem_developmentFiles h
      rw [hpath]
      simp
    · obtain ⟨path, hpath⟩ := mem_individuationFiles h
      rw [hpath]
      simp
  have hstage : (stageFiles src).lookup ["stage.json"] = src.stage := by
    unfold stageFiles
    cases src.stage with
    | none => rfl
    | some content => simp
  have hsnapshot : (["stage.json"] == ["snapshot.json"]) = false := by decide
  unfold bundleMembers
  rw [List.lookup_cons, hsnapshot, List.append_assoc, List.append_assoc, List.lookup_append, hworld,
    Option.none_or, List.lookup_append, hstage, hlater, Option.or_none]

theorem restoreDevelopment_other (restored : List (String × Bytes)) {first : String} {rest : Path}
    (hpath : mapBundleMember file.1 = first :: rest) (hfirst : first ≠ "development") :
    restoreDevelopment restored file = restored := by
  unfold restoreDevelopment
  rw [hpath, memberDir_development]
  exact if_pos (.inl hfirst)

theorem foldl_other (restored : List (String × Bytes))
    (h : ∀ file ∈ files, ∃ first rest, mapBundleMember file.1 = first :: rest ∧
      first ≠ "development") :
    files.foldl restoreDevelopment restored = restored := by
  induction files with
  | nil => rfl
  | cons file files ih =>
    obtain ⟨first, rest, hpath, hfirst⟩ := h file List.mem_cons_self
    rw [List.foldl_cons, restoreDevelopment_other restored hpath hfirst]
    exact ih fun other hother => h other (List.mem_cons_of_mem _ hother)

theorem restoreDevelopment_file {restored : List (String × Bytes)} {name : String} {content : Bytes}
    (hname : name ∈ bundledDevelopmentFiles) (hnew : restored.lookup name = none) :
    restoreDevelopment restored ([memberDir developmentMember, name], content) =
      Assoc.assign restored name content := by
  have hmap : mapBundleMember ["development", name] = ["development", name] :=
    mapBundleMember_current (by decide) (by decide)
  have hcurrent : ∀ name ∈ bundledDevelopmentFiles, developmentName [name] = name := by decide
  unfold restoreDevelopment
  dsimp only
  rw [memberDir_development, hmap]
  dsimp only
  rw [hcurrent name hname, if_neg, hnew, if_neg (fun h => Bool.false_ne_true h.1)]
  rintro (h | h | h)
  · exact h rfl
  · cases h
  · exact h hname

/-- The development files that are captured. -/
def capturedDevelopment (src : Sources) : List (String × Bytes) :=
  bundledDevelopmentFiles.filterMap fun name => (src.development name).map fun content =>
    (name, content)

theorem foldl_names {names : List String} (hnames : ∀ name ∈ names, name ∈ bundledDevelopmentFiles)
    (hnodup : names.Nodup) {restored : List (String × Bytes)}
    (hnew : ∀ name ∈ names, restored.lookup name = none) :
    (names.filterMap fun name =>
        (src.development name).map fun content =>
          ([memberDir developmentMember, name], content)).foldl
      restoreDevelopment restored =
    restored ++ names.filterMap fun name => (src.development name).map fun content =>
      (name, content) := by
  induction names generalizing restored with
  | nil => simp
  | cons name names ih =>
    obtain ⟨hname, hnodup⟩ := List.nodup_cons.mp hnodup
    have hrest : ∀ other ∈ names, other ∈ bundledDevelopmentFiles :=
      fun other hother => hnames other (List.mem_cons_of_mem _ hother)
    cases hfile : src.development name with
    | none =>
      rw [List.filterMap_cons_none (by rw [hfile]; rfl),
        List.filterMap_cons_none (by rw [hfile]; rfl)]
      exact ih hrest hnodup fun other hother => hnew other (List.mem_cons_of_mem _ hother)
    | some content =>
      have hfirst := hnew name List.mem_cons_self
      rw [List.filterMap_cons_some (by rw [hfile]; rfl),
        List.filterMap_cons_some (by rw [hfile]; rfl), List.foldl_cons,
        restoreDevelopment_file (hnames name List.mem_cons_self) hfirst,
        Assoc.assign_of_lookup_eq_none hfirst, ih hrest hnodup ?_, List.append_assoc,
        List.singleton_append]
      intro other hother
      have hne : other ≠ name := by
        rintro rfl
        exact hname hother
      rw [List.lookup_append, hnew other (List.mem_cons_of_mem _ hother), Option.none_or,
        Assoc.lookup_cons_of_ne hne, List.lookup_nil]

theorem foldl_development : (bundleMembers src snapshot checkpoint).foldl restoreDevelopment [] =
    capturedDevelopment src := by
  have hbefore : ((["snapshot.json"], snapshot) ::
      (worldModelFiles src checkpoint ++ stageFiles src)).foldl restoreDevelopment [] = [] := by
    refine foldl_other _ fun file h => ?_
    rcases List.mem_cons.mp h with rfl | h
    · exact ⟨_, _, mapBundleMember_current (by decide) (by decide), by decide⟩
    rcases List.mem_append.mp h with h | h
    · obtain ⟨name, hpath⟩ := mem_worldModelFiles h
      rw [hpath]
      exact ⟨_, _, mapBundleMember_current (by decide) (by decide), by decide⟩
    · rw [mem_stageFiles h]
      exact ⟨_, _, mapBundleMember_current (by decide) (by decide), by decide⟩
  have hafter (restored : List (String × Bytes)) :
      (individuationFiles src).foldl restoreDevelopment restored = restored := by
    refine foldl_other _ fun file h => ?_
    obtain ⟨path, hpath⟩ := mem_individuationFiles h
    rw [hpath]
    exact ⟨_, _, mapBundleMember_current (by decide) (by decide), by decide⟩
  have hfiles : (developmentFiles src).foldl restoreDevelopment [] = capturedDevelopment src :=
    foldl_names (fun _ h => h) (by decide) (by simp)
  unfold bundleMembers
  rw [← List.cons_append, ← List.cons_append, List.foldl_append, List.foldl_append, hbefore,
    hfiles, hafter]

/-- The individuation tree that is captured, without the capture stretch. -/
def capturedIndividuation (src : Sources) : Dir :=
  (src.individuation.map fun file => (file.1.1, file.2)).filter (·.1 ≠ [captureStretchName])

theorem filterMap_individuation :
    (bundleMembers src snapshot checkpoint).filterMap individuationPath =
    src.individuation.map fun file => (file.1.1, file.2) := by
  have hnone {files : Dir} (h : ∀ file ∈ files, ∃ first rest, file.1 = first :: rest ∧
      first ≠ "individuation") : files.filterMap individuationPath = [] := by
    rw [List.filterMap_eq_nil_iff]
    rintro ⟨path, content⟩ hfile
    obtain ⟨first, rest, hpath, hfirst⟩ := h _ hfile
    unfold individuationPath
    split
    · next heq => exact absurd (List.cons.inj (hpath.symm.trans heq)).1 hfirst
    · rfl
  have hbefore : ((["snapshot.json"], snapshot) ::
      (worldModelFiles src checkpoint ++ stageFiles src ++ developmentFiles src)).filterMap
        individuationPath = [] := by
    refine hnone fun file h => ?_
    rcases List.mem_cons.mp h with rfl | h
    · exact ⟨_, _, rfl, by decide⟩
    rcases List.mem_append.mp h with h | h
    · rcases List.mem_append.mp h with h | h
      · obtain ⟨name, hpath⟩ := mem_worldModelFiles h
        exact ⟨_, _, hpath, by decide⟩
      · exact ⟨_, _, mem_stageFiles h, by decide⟩
    · obtain ⟨name, -, hpath⟩ := mem_developmentFiles h
      exact ⟨_, _, hpath, by decide⟩
  have htree : (individuationFiles src).filterMap individuationPath =
      src.individuation.map fun file => (file.1.1, file.2) := by
    unfold individuationFiles
    rw [List.filterMap_map, ← List.filterMap_eq_map]
    congr 1
    funext ⟨⟨path, hpath, hparts⟩, content⟩
    cases path with
    | nil => exact absurd rfl hpath
    | cons part rest => rfl
  unfold bundleMembers
  rw [← List.cons_append, List.filterMap_append, hbefore, htree, List.nil_append]

end Restored

section Sealed

/-- Encryption is off, or of an ideal cipher. -/
inductive Env.Sound (env : Env) : Prop
  | off (h : env.encryptor = disabled)
  | on (aead : Aead) (ideal : aead.Ideal) (h : env.encryptor = keyed aead)

theorem decrypt_encrypt {aead : Aead} (lax : Bool) (ideal : aead.Ideal) (nonce : Nonce)
    (x : Bytes) : decrypt lax (keyed aead) ((keyed aead).encrypt nonce x) = .ok x := by
  have hread := maybeDecrypt_encrypt lax ideal nonce x
  rwa [encrypt_keyed, maybeDecrypt_envelope ⟨_, Base64.decode_encode lax _, isEncrypted_frame⟩]
    at hread

/-- A sealed archive that is in place is what the readers open. -/
theorem openArchive_sealed {bundle : Dir} (hsound : env.Sound) (nonce : Nonce)
    (harchive : bundle.lookup (sealedArchive env nonce files).1 =
      some (sealedArchive env nonce files).2)
    (hplain : env.encryptor.enabled = false → bundle.lookup ["bundle.tar.enc"] = none) :
    openArchive env bundle = some (some files) := by
  unfold sealedArchive at harchive
  unfold openArchive
  rcases hsound with h | ⟨aead, ideal, h⟩
  · have henabled : env.encryptor.enabled = false := by
      rw [h]
      rfl
    dsimp only at harchive
    rw [henabled, if_neg Bool.false_ne_true] at harchive
    rw [hplain henabled, harchive]
    dsimp only
    rw [env.tar.unpack_pack, Option.map_some]
  · have henabled : env.encryptor.enabled = true := by
      rw [h]
      rfl
    dsimp only at harchive
    rw [henabled, if_pos rfl, h] at harchive
    rw [harchive, h]
    dsimp only
    rw [decrypt_encrypt _ ideal]
    dsimp only
    rw [env.tar.unpack_pack, Option.map_some]

/-- A bundle that is complete. -/
theorem openArchive_complete (hsound : env.Sound) (nonce : Nonce) (manifest : Bytes) :
    openArchive env [sealedArchive env nonce files, (["manifest.json"], manifest)] =
      some (some files) := by
  refine openArchive_sealed hsound nonce ?_ ?_
  · rw [List.lookup_cons, BEq.rfl]
  · intro henabled
    refine lookup_eq_none fun file hfile => ?_
    unfold sealedArchive at hfile
    rw [henabled, if_neg Bool.false_ne_true] at hfile
    rcases List.mem_cons.mp hfile with rfl | hfile
    · simp
    · rw [List.mem_singleton.mp hfile]
      simp

theorem not_looksEncrypted_of_brace {lax : Bool} {content : Bytes} (h : Utf8.byte 123 ∈ content) :
    ¬ LooksEncrypted lax content := by
  rintro ⟨framed, hdecode, -⟩
  have hval := Base64.val_of_alphabet (Base64.decode_alphabet hdecode _ h)
  have hbrace : (Utf8.byte 123).val = 123 := rfl
  omega

/-- The saved snapshot is read back as the text it was saved from. -/
theorem readText_saved (hsound : env.Sound) {nonce : Nonce} {snap : ResumeCheckpoint.Snapshot}
    (h : saveSnapshot env nonce snap = some snapshot) :
    ∃ payload, env.json.dumps snap.toDict = some payload ∧
      readText env snapshot = some payload := by
  obtain ⟨payload, hpayload, h⟩ := Option.bind_eq_some_iff.mp h
  obtain ⟨written, hwritten, h⟩ := Option.bind_eq_some_iff.mp h
  refine ⟨payload, hpayload, ?_⟩
  have hencode := Utf8.encode_ascii (env.json.dumps_ascii hpayload)
  rcases hsound with hoff | ⟨aead, ideal, hon⟩
  · rw [hoff] at hwritten
    cases hwritten
    have hbrace : Utf8.byte 123 ∈ snapshot := by
      rw [hencode] at h
      cases h
      exact List.mem_map.mpr ⟨_, env.json.dumps_braces hpayload, rfl⟩
    unfold readText
    rw [hoff, maybeDecrypt_plain (not_looksEncrypted_of_brace hbrace)]
    exact Utf8.decode_encode h
  · obtain ⟨text, htext, hback⟩ :=
      decode_encrypt_keyed aead nonce (payload.map fun c => Utf8.byte c.val)
    have hsame : snapshot = (keyed aead).encrypt nonce (payload.map fun c => Utf8.byte c.val) := by
      have henabled : (keyed aead).enabled = true := rfl
      rw [hon] at hwritten
      simp only [encryptText, henabled, hencode, htext, if_true, Except.toOption, Option.some.injEq]
        at hwritten
      rw [← hwritten, hback] at h
      exact (Option.some.inj h).symm
    unfold readText
    rw [hon, hsame, maybeDecrypt_encrypt _ ideal]
    exact Utf8.decode_encode hencode

end Sealed

section Archive

/-- Numbers as so many threes each, and a two before the next. -/
def packNumbers (ns : List ℕ) : Bytes :=
  ns.flatMap (fun n => List.replicate n (Utf8.byte 3) ++ [Utf8.byte 2]) ++ [Utf8.byte 1]

def packFile (lists : List (List ℕ)) : Bytes := lists.flatMap packNumbers ++ [Utf8.byte 0]

def unpackByte (b : Fin 256) (files : List (List (List ℕ))) : List (List (List ℕ)) :=
  match b.val, files with
  | 0, files => [] :: files
  | 1, lists :: rest => ([] :: lists) :: rest
  | 2, (ns :: lists) :: rest => ((0 :: ns) :: lists) :: rest
  | 3, ((n :: ns) :: lists) :: rest => (((n + 1) :: ns) :: lists) :: rest
  | _, files => files

theorem unpack_number (n k : ℕ) (ns : List ℕ) (lists : List (List ℕ))
    (rest : List (List (List ℕ))) :
    (List.replicate n (Utf8.byte 3)).foldr unpackByte (((k :: ns) :: lists) :: rest) =
      (((n + k) :: ns) :: lists) :: rest := by
  induction n with
  | zero => rw [Nat.zero_add]; rfl
  | succ n ih =>
    rw [List.replicate_succ, List.foldr_cons, ih, Nat.succ_add]
    rfl

theorem unpack_numbers (ns : List ℕ) (lists : List (List ℕ)) (rest : List (List (List ℕ))) :
    (packNumbers ns).foldr unpackByte (lists :: rest) = (ns :: lists) :: rest := by
  induction ns with
  | nil => rfl
  | cons n ns ih =>
    have hsplit : packNumbers (n :: ns) = List.replicate n (Utf8.byte 3) ++
      ([Utf8.byte 2] ++ packNumbers ns) := by
      rw [packNumbers, List.flatMap_cons, packNumbers, List.append_assoc, List.append_assoc]
    rw [hsplit, List.foldr_append, List.foldr_append, ih]
    exact unpack_number n 0 ns lists rest

theorem unpack_file (lists : List (List ℕ)) (files : List (List (List ℕ))) :
    (packFile lists).foldr unpackByte files = lists :: files := by
  induction lists with
  | nil => rfl
  | cons ns lists ih =>
    have hsplit : packFile (ns :: lists) = packNumbers ns ++ packFile lists := by
      rw [packFile, List.flatMap_cons, packFile, List.append_assoc]
    rw [hsplit, List.foldr_append, ih, unpack_numbers]

theorem unpack_files (files : List (List (List ℕ))) :
    (files.flatMap packFile).foldr unpackByte [] = files := by
  induction files with
  | nil => rfl
  | cons lists files ih => rw [List.flatMap_cons, List.foldr_append, ih, unpack_file]

def fileLists (file : Path × Bytes) : List (List ℕ) :=
  file.2.map Fin.val :: file.1.map fun part => part.toList.map Char.toNat

def listsFile : List (List ℕ) → Path × Bytes
  | content :: path => (path.map fun codes => String.ofList (codes.map Char.ofNat),
    content.map Utf8.byte)
  | [] => ([], [])

theorem listsFile_fileLists (file : Path × Bytes) : listsFile (fileLists file) = file := by
  obtain ⟨path, content⟩ := file
  have hpath : (path.map fun part => part.toList.map Char.toNat).map
      (fun codes => String.ofList (codes.map Char.ofNat)) = path := by
    rw [List.map_map]
    refine (List.map_congr_left fun part _ => ?_).trans (List.map_id _)
    show String.ofList ((part.toList.map Char.toNat).map Char.ofNat) = part
    have hcodes : (part.toList.map Char.toNat).map Char.ofNat = part.toList := by
      rw [List.map_map]
      exact (List.map_congr_left fun c _ => Char.ofNat_toNat c).trans (List.map_id _)
    rw [hcodes, String.ofList_toList]
  have hcontent : (content.map Fin.val).map Utf8.byte = content := by
    rw [List.map_map]
    exact (List.map_congr_left fun b _ => Fin.ofNat_val_eq_self b).trans (List.map_id _)
  rw [fileLists, listsFile, hpath, hcontent]

/-- An archive of one file after the other. -/
def plainTar : Tar where
  pack files := (files.map fileLists).flatMap packFile
  unpack raw := some ((raw.foldr unpackByte []).map listsFile)
  unpack_pack files := by
    rw [unpack_files, List.map_map]
    exact congrArg some ((List.map_congr_left fun file _ => listsFile_fileLists file).trans
      (List.map_id _))

end Archive

end Kaine.Preservation
