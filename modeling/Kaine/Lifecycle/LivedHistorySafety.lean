import Kaine.Lifecycle.LivedHistory
import Mathlib.Data.List.TakeWhile

/-! When the lived-before readers resolve every ambiguity to lived. -/
namespace Kaine.LivedHistory
open Py Identity

variable {isOther : Char → Bool} {identity : EntityIdentity isOther} {d : Dict} {v : Json}

/-- One thing that the readers consult: an own artifact of the tree, a directory that cannot be
inspected or listed, the sidecar of a fork, or the manifest of a bundle. -/
inductive Evidence where
  | artifact (s : Stat)
  | unlistable
  | sidecar (f : RecordFile)
  | manifest (f : RecordFile)

variable {e : Evidence} {es : List Evidence}

def isLived (identity : EntityIdentity isOther) : Evidence → Except HistoryError Bool
  | .artifact s => .ok (s ≠ .absent)
  | .unlistable => .ok true
  | .sidecar f => forkIsLived identity f
  | .manifest f => manifestIsLived identity f

/-- The reader of this piece alone says lived. -/
def counts (identity : EntityIdentity isOther) (e : Evidence) : Bool :=
  match isLived identity e with
  | .ok lived => lived
  | .error _ => false

def listed (record : RecordFile → Evidence) : Listing RecordFile → List Evidence
  | .statFails | .listFails => [.unlistable]
  | .notDir => []
  | .entries es => es.map record

/-- Everything that is consulted for the lineage, in order. -/
def records (forks : Listing RecordFile) (bundles : List (Listing RecordFile)) : List Evidence :=
  listed .sidecar forks ++ bundles.flatMap (listed .manifest)

def ownArtifacts (stat : String → Stat) : List Evidence :=
  ownLivedArtifactPaths.map fun rel => .artifact (stat rel)

/-- The entity and ancestors that a manifest names, where it names them properly. -/
def manifestAttribution (raw : Json) : Option (String × List String) :=
  match raw with
  | .obj d =>
    match Dict.get d "identity" with
    | .obj o => do
      let entityId ← readEntityId (Dict.get o "entity_id")
      let lineage ← readList readEntityId (Dict.get o "lineage")
      return (entityId, lineage)
    | _ => none
  | _ => none

def attribution : Evidence → Option (String × List String)
  | .sidecar (.contents (.value v)) => (checkSidecar v).toOption
  | .manifest (.contents (.value v)) => manifestAttribution v
  | _ => none

/-- There is no record, or it was read and names an entity that is neither this one nor an
ancestor nor a descendant. -/
def Unrelated (identity : Option (EntityIdentity isOther)) (e : Evidence) : Prop :=
  ∃ i, identity = some i ∧ (e = .artifact .absent ∨ e = .manifest .absent ∨
    ∃ id lineage, attribution e = some (id, lineage) ∧ id ∉ targetIds i ∧ i.entityId ∉ lineage)

/-- What is promised of a reader that consults this evidence. -/
structure FailsSafe (identity : Option (EntityIdentity isOther)) (es : List Evidence)
    (result : Except HistoryError Bool) : Prop where
  returns : ∃ lived, result = .ok lived
  lived : (∃ e ∈ es, ¬ Unrelated identity e) → result = .ok true
  unrelated : result = .ok false → ∀ e ∈ es, Unrelated identity e

/-- The bytes are no text, or parsing them raises something else than `JSONDecodeError`. -/
def Broken (e : Evidence) : Prop :=
  ∃ p, (e = .sidecar (.contents p) ∨ e = .manifest (.contents p)) ∧
    (p = .undecodable ∨ p = .hugeInteger ∨ p = .tooDeep)

/-- A manifest that is no regular file, or whose identity is not an entity ID with a list of
them. -/
def Misread (e : Evidence) : Prop :=
  e = .manifest .special ∨
    ∃ v, e = .manifest (.contents (.value v)) ∧ manifestAttribution v = none

/-- No broken record comes before the first that counts as lived, and where none counts no
manifest is misread. -/
def Careful (identity : EntityIdentity isOther) (es : List Evidence) : Prop :=
  (∀ e ∈ es.takeWhile (fun e => !counts identity e), ¬ Broken e) ∧
    ((∃ e ∈ es, counts identity e = true) ∨ ∀ e ∈ es, ¬ Misread e)

theorem anyLived_append {E : Type} (f : E → Except HistoryError Bool) (as bs : List E) :
    anyLived f (as ++ bs) = (do if ← anyLived f as then return true else anyLived f bs) := by
  induction as with
  | nil => rfl
  | cons a as ih =>
    cases h : f a with
    | error err => simp [anyLived, h, bind, Except.bind]
    | ok lived =>
      cases lived with
      | true => simp [anyLived, h, bind, Except.bind, pure, Except.pure]
      | false =>
        simp only [List.cons_append, anyLived, h, ih]
        rfl

theorem anyLived_map {E E' : Type} (f : E' → Except HistoryError Bool) (g : E → E')
    (es : List E) : anyLived f (es.map g) = anyLived (fun e => f (g e)) es := by
  induction es with
  | nil => rfl
  | cons e es ih => simp only [List.map_cons, anyLived, ih]

theorem scan_eq (record : RecordFile → Evidence) (l : Listing RecordFile) :
    scan (fun f => isLived identity (record f)) l =
      anyLived (isLived identity) (listed record l) := by
  cases l with
  | statFails | listFails | notDir => rfl
  | entries es => exact (anyLived_map _ _ _).symm

theorem anyLived_scan (record : RecordFile → Evidence) (ls : List (Listing RecordFile)) :
    anyLived (scan fun f => isLived identity (record f)) ls =
      anyLived (isLived identity) (ls.flatMap (listed record)) := by
  induction ls with
  | nil => rfl
  | cons l ls ih => rw [List.flatMap_cons, anyLived_append, ← scan_eq, ← ih]; rfl

/-- The nested loops of the source are one walk over the evidence. -/
theorem hasPrior_eq (forks : Listing RecordFile) (bundles : List (Listing RecordFile)) :
    hasPriorLivedHistoryInLineage (some identity) forks bundles =
      anyLived (isLived identity) (records forks bundles) := by
  rw [records, anyLived_append, ← scan_eq, ← anyLived_scan]
  rfl

theorem livedBefore_eq (stat : String → Stat) (forks : Listing RecordFile)
    (bundles : List (Listing RecordFile)) :
    livedBefore (some identity) stat forks bundles =
      anyLived (isLived identity) (ownArtifacts stat ++ records forks bundles) := by
  have hown : anyLived (isLived identity) (ownArtifacts stat) =
      .ok (!(ownLivedArtifacts stat).isEmpty) := by
    unfold ownArtifacts ownLivedArtifacts
    induction ownLivedArtifactPaths with
    | nil => rfl
    | cons rel rest ih =>
      by_cases h : stat rel = .absent
      · simpa [anyLived, isLived, h, bind, Except.bind] using ih
      · simp [anyLived, isLived, h, bind, Except.bind, pure, Except.pure]
  rw [anyLived_append, hown, livedBefore]
  cases h : (ownLivedArtifacts stat).isEmpty with
  | true => exact hasPrior_eq forks bundles
  | false => rfl

theorem anyLived_of_not_broken
    (herr : ∀ e, (∃ err, isLived identity e = .error err) → Broken e)
    (h : ∀ e ∈ es.takeWhile (fun e => !counts identity e), ¬ Broken e) :
    anyLived (isLived identity) es = .ok (es.any (counts identity)) := by
  induction es with
  | nil => rfl
  | cons e es ih =>
    cases hl : isLived identity e with
    | error err =>
      have hcount : counts identity e = false := by simp [counts, hl]
      exact (h e (by simp [hcount]) (herr e ⟨err, hl⟩)).elim
    | ok lived =>
      have hcount : counts identity e = lived := by simp [counts, hl]
      cases lived with
      | true => simp [anyLived, hl, hcount, bind, Except.bind, pure, Except.pure]
      | false =>
        have hrest := ih fun e' he' => h e' (by simp [hcount, he'])
        simp [anyLived, hl, hcount, hrest, bind, Except.bind]

theorem anyLived_of_broken (herr : ∀ e, Broken e → ∃ err, isLived identity e = .error err)
    (h : ∃ e ∈ es.takeWhile (fun e => !counts identity e), Broken e) :
    ∃ err, anyLived (isLived identity) es = .error err := by
  induction es with
  | nil =>
    obtain ⟨e, he, -⟩ := h
    cases he
  | cons a es ih =>
    obtain ⟨e, he, hb⟩ := h
    cases hl : isLived identity a with
    | error err => exact ⟨err, by simp [anyLived, hl, bind, Except.bind]⟩
    | ok lived =>
      have hcount : counts identity a = lived := by simp [counts, hl]
      cases lived with
      | true => simp [hcount] at he
      | false =>
        rw [List.takeWhile_cons, hcount] at he
        rcases List.mem_cons.mp he with rfl | he
        · obtain ⟨err, herr⟩ := herr e hb
          rw [hl] at herr
          cases herr
        · obtain ⟨err, hrest⟩ := ih ⟨e, he, hb⟩
          exact ⟨err, by simp [anyLived, hl, hrest, bind, Except.bind]⟩

theorem mapM_readEntityId {xs : List Json} {lineage : List String}
    (h : xs.mapM readEntityId = some lineage) : xs = lineage.map .str := by
  induction xs generalizing lineage with
  | nil =>
    obtain rfl : [] = lineage := by simpa using h
    rfl
  | cons x xs ih =>
    rw [List.mapM_cons] at h
    obtain ⟨id, hid, h⟩ := Option.bind_eq_some_iff.mp h
    obtain ⟨rest, hrest, h⟩ := Option.bind_eq_some_iff.mp h
    obtain rfl : id :: rest = lineage := Option.some.inj h
    have hx : x = .str id := by
      unfold readEntityId at hid
      split at hid
      · split at hid
        · exact congrArg Json.str (Option.some.inj hid)
        · cases hid
      · cases hid
    rw [hx, ih hrest]
    rfl

theorem readEntityId_eq_some {id : String} (h : readEntityId v = some id) :
    v = .str id ∧ id ≠ "" := by
  unfold readEntityId at h
  split at h
  · split at h
    · rename_i hid
      obtain rfl := Option.some.inj h
      refine ⟨rfl, ?_⟩
      rintro rfl
      revert hid
      decide
    · cases h
  · cases h

theorem checkSidecar_error {err : HistoryError} (h : checkSidecar v = .error err) :
    ∃ message, err = .identity message := by
  unfold checkSidecar at h
  split at h
  · split at h
    · cases h
      exact ⟨_, rfl⟩
    · split at h
      · cases h
        exact ⟨_, rfl⟩
      · split at h
        · cases h
          exact ⟨_, rfl⟩
        · cases h
  · cases h
    exact ⟨_, rfl⟩

/-- A manifest that names its entity properly counts exactly where that entity is related. -/
theorem manifestRecordIsLived_of_attribution {id : String} {lineage : List String}
    (h : manifestAttribution v = some (id, lineage)) :
    manifestRecordIsLived identity v = true ↔
      id ∈ targetIds identity ∨ identity.entityId ∈ lineage := by
  unfold manifestAttribution at h
  split at h
  · rename_i d
    split at h
    · rename_i o ho
      obtain ⟨id', hid, h⟩ := Option.bind_eq_some_iff.mp h
      obtain ⟨lineage', hlineage, h⟩ := Option.bind_eq_some_iff.mp h
      obtain ⟨rfl, rfl⟩ : id' = id ∧ lineage' = lineage := by simpa using h
      obtain ⟨hid, hne⟩ := readEntityId_eq_some hid
      unfold readList at hlineage
      split at hlineage
      · rename_i xs hxs
        obtain rfl := mapM_readEntityId hlineage
        simp [manifestRecordIsLived, ho, hid, hne, hxs]
      · cases hlineage
    · cases h
  · cases h

/-- How the reader of one piece of evidence ends, and what the piece then is. -/
theorem isLived_cases (identity : EntityIdentity isOther) (e : Evidence) :
    (Broken e ∧ ¬ Unrelated (some identity) e ∧ ∃ err, isLived identity e = .error err) ∨
    (¬ Broken e ∧ ¬ Unrelated (some identity) e ∧ isLived identity e = .ok true) ∨
    (¬ Broken e ∧ (Unrelated (some identity) e ↔ ¬ Misread e) ∧
      isLived identity e = .ok false) := by
  cases e with
  | artifact s =>
    right
    cases s with
    | absent => exact .inr ⟨by simp [Broken], by simp [Unrelated, Misread], rfl⟩
    | present | fails => exact .inl ⟨by simp [Broken], by simp [Unrelated, attribution], rfl⟩
  | unlistable => exact .inr (.inl ⟨by simp [Broken], by simp [Unrelated, attribution], rfl⟩)
  | sidecar f =>
    cases f with
    | absent | statFails | special | unreadable =>
      exact .inr (.inl ⟨by simp [Broken], by simp [Unrelated, attribution], rfl⟩)
    | contents p =>
      cases p with
      | undecodable | hugeInteger | tooDeep =>
        exact .inl ⟨by simp [Broken], by simp [Unrelated, attribution], _, rfl⟩
      | notJson => exact .inr (.inl ⟨by simp [Broken], by simp [Unrelated, attribution], rfl⟩)
      | value v =>
        right
        cases hv : checkSidecar v with
        | error err =>
          obtain ⟨message, rfl⟩ := checkSidecar_error hv
          refine .inl ⟨by simp [Broken], by simp [Unrelated, attribution, hv, Except.toOption], ?_⟩
          simp [isLived, forkIsLived, readIdentitySidecar, readJson, hv, Except.map]
        | ok named =>
          obtain ⟨id, lineage⟩ := named
          have hread : isLived identity (.sidecar (.contents (.value v))) =
              .ok ((targetIds identity).contains id || lineage.contains identity.entityId) := by
            simp [isLived, forkIsLived, readIdentitySidecar, readJson, hv, Except.map]
          have hrelated : Unrelated (some identity) (.sidecar (.contents (.value v))) ↔
              id ∉ targetIds identity ∧ identity.entityId ∉ lineage := by
            simp [Unrelated, attribution, hv, Except.toOption]
          cases hc : (targetIds identity).contains id || lineage.contains identity.entityId with
          | true =>
            refine .inl ⟨by simp [Broken], ?_, hread.trans (congrArg _ hc)⟩
            rw [hrelated]
            intro h
            simp [h.1, h.2] at hc
          | false =>
            refine .inr ⟨by simp [Broken], ?_, hread.trans (congrArg _ hc)⟩
            rw [hrelated]
            simpa [Misread] using hc
  | manifest f =>
    cases f with
    | absent => exact .inr (.inr ⟨by simp [Broken], by simp [Unrelated, Misread], rfl⟩)
    | special =>
      exact .inr (.inr ⟨by simp [Broken], by simp [Unrelated, Misread, attribution], rfl⟩)
    | statFails | unreadable =>
      exact .inr (.inl ⟨by simp [Broken], by simp [Unrelated, attribution], rfl⟩)
    | contents p =>
      cases p with
      | undecodable | hugeInteger | tooDeep =>
        exact .inl ⟨by simp [Broken], by simp [Unrelated, attribution], _, rfl⟩
      | notJson => exact .inr (.inl ⟨by simp [Broken], by simp [Unrelated, attribution], rfl⟩)
      | value v =>
        right
        have hread : isLived identity (.manifest (.contents (.value v))) =
            .ok (manifestRecordIsLived identity v) := rfl
        cases hv : manifestAttribution v with
        | none =>
          have hrelated : ¬ Unrelated (some identity) (.manifest (.contents (.value v))) := by
            simp [Unrelated, attribution, hv]
          cases hc : manifestRecordIsLived identity v with
          | true => exact .inl ⟨by simp [Broken], hrelated, hread.trans (congrArg _ hc)⟩
          | false =>
            refine .inr ⟨by simp [Broken], ?_, hread.trans (congrArg _ hc)⟩
            simp [hrelated, Misread, hv]
        | some named =>
          obtain ⟨id, lineage⟩ := named
          have hlived : manifestRecordIsLived identity v = true ↔
              id ∈ targetIds identity ∨ identity.entityId ∈ lineage :=
            manifestRecordIsLived_of_attribution hv
          have hrelated : Unrelated (some identity) (.manifest (.contents (.value v))) ↔
              id ∉ targetIds identity ∧ identity.entityId ∉ lineage := by
            simp [Unrelated, attribution, hv]
          cases hc : manifestRecordIsLived identity v with
          | true =>
            refine .inl ⟨by simp [Broken], ?_, hread.trans (congrArg _ hc)⟩
            rw [hrelated, ← not_or]
            exact not_not_intro (hlived.mp hc)
          | false =>
            refine .inr ⟨by simp [Broken], ?_, hread.trans (congrArg _ hc)⟩
            have hnot : ¬ (id ∈ targetIds identity ∨ identity.entityId ∈ lineage) := by
              rw [← hlived, hc]
              simp
            rw [hrelated, ← not_or]
            simp [Misread, hv, hnot]

theorem broken_iff_error :
    Broken e ↔ ∃ err, isLived identity e = .error err := by
  rcases isLived_cases identity e with ⟨hb, -, hl⟩ | ⟨hb, -, hl⟩ | ⟨hb, -, hl⟩
  · exact ⟨fun _ => hl, fun _ => hb⟩
  · simp [hb, hl]
  · simp [hb, hl]

theorem unrelated_iff_of_not_counts (h : counts identity e = false) (hb : ¬ Broken e) :
    Unrelated (some identity) e ↔ ¬ Misread e := by
  rcases isLived_cases identity e with ⟨hb', -, -⟩ | ⟨-, -, hl⟩ | ⟨-, hu, -⟩
  · exact (hb hb').elim
  · simp [counts, hl] at h
  · exact hu

theorem takeWhile_of_none_counts (h : es.any (counts identity) = false) :
    es.takeWhile (fun e => !counts identity e) = es := by
  have hnone := List.any_eq_false.mp h
  rw [List.takeWhile_eq_self_iff]
  intro e he
  simpa using hnone e he

/-- The walk fails safe exactly where the evidence is careful. -/
theorem failsSafe_iff (identity : EntityIdentity isOther) (es : List Evidence) :
    FailsSafe (some identity) es (anyLived (isLived identity) es) ↔ Careful identity es := by
  constructor
  · intro h
    have hbroken : ∀ e ∈ es.takeWhile (fun e => !counts identity e), ¬ Broken e := by
      intro e he hb
      obtain ⟨err, herr⟩ := anyLived_of_broken (fun _ => broken_iff_error.mp) ⟨e, he, hb⟩
      obtain ⟨lived, hlived⟩ := h.returns
      rw [herr] at hlived
      cases hlived
    refine ⟨hbroken, ?_⟩
    have hwalk := anyLived_of_not_broken (fun _ => broken_iff_error.mpr) hbroken
    cases hany : es.any (counts identity) with
    | true => exact .inl (List.any_eq_true.mp hany)
    | false =>
      right
      have hnone := List.any_eq_false.mp hany
      rw [takeWhile_of_none_counts hany] at hbroken
      intro e he
      have hu := h.unrelated (by rw [hwalk, hany]) e he
      exact (unrelated_iff_of_not_counts (by simpa using hnone e he) (hbroken e he)).mp hu
  · rintro ⟨hbroken, hcareful⟩
    have hwalk := anyLived_of_not_broken (fun _ => broken_iff_error.mpr) hbroken
    have hfalse : es.any (counts identity) = false → ∀ e ∈ es, Unrelated (some identity) e := by
      intro hany e he
      have hnone := List.any_eq_false.mp hany
      rw [takeWhile_of_none_counts hany] at hbroken
      rcases hcareful with ⟨e', he', hc⟩ | hmisread
      · exact (hnone e' he' hc).elim
      · exact (unrelated_iff_of_not_counts (by simpa using hnone e he) (hbroken e he)).mpr
          (hmisread e he)
    refine ⟨⟨_, hwalk⟩, ?_, ?_⟩
    · rintro ⟨e, he, hu⟩
      cases hany : es.any (counts identity) with
      | true => rw [hwalk, hany]
      | false => exact (hu (hfalse hany e he)).elim
    · intro hres
      rw [hwalk] at hres
      exact hfalse (Except.ok.inj hres)

theorem failsSafe_none (es : List Evidence) :
    FailsSafe (none : Option (EntityIdentity isOther)) es (.ok true) :=
  ⟨⟨true, rfl⟩, fun _ => rfl, fun h => by cases h⟩

/-- The two readers fail safe exactly where the identity is unknown or what they consult is
careful. -/
theorem lived_readers_fail_safe (identity : Option (EntityIdentity isOther)) (stat : String → Stat)
    (forks : Listing RecordFile) (bundles : List (Listing RecordFile)) :
    (FailsSafe identity (records forks bundles)
      (hasPriorLivedHistoryInLineage identity forks bundles) ↔
        ∀ i, identity = some i → Careful i (records forks bundles)) ∧
    (FailsSafe identity (ownArtifacts stat ++ records forks bundles)
      (livedBefore identity stat forks bundles) ↔
        ∀ i, identity = some i → Careful i (ownArtifacts stat ++ records forks bundles)) := by
  cases identity with
  | none =>
    refine ⟨iff_of_true (failsSafe_none _) ?_, iff_of_true (failsSafe_none _) ?_⟩
    · intro i hi
      cases hi
    · intro i hi
      cases hi
  | some identity =>
    rw [hasPrior_eq, livedBefore_eq, failsSafe_iff, failsSafe_iff]
    simp

/-- The identity of a new entity. -/
def minted : EntityIdentity (fun _ => false) :=
  ⟨{ entityId := "ent-00000000000000000000000000000000" }, by decide⟩

def manifestOf (lineage : Json) : RecordFile :=
  .contents (.value (.obj [("identity", .obj
    [("entity_id", .str "ent-11111111111111111111111111111111"), ("lineage", lineage)])]))

/-- A descendant's manifest whose lineage is no list counts as unrelated, and one that is no text
ends the reader. -/
theorem lived_readers_fail :
    (hasPriorLivedHistoryInLineage (some minted) .notDir
      [.entries [manifestOf (.str minted.entityId)]] = .ok false ∧
    ¬ FailsSafe (some minted) (records .notDir [.entries [manifestOf (.str minted.entityId)]])
      (hasPriorLivedHistoryInLineage (some minted) .notDir
        [.entries [manifestOf (.str minted.entityId)]])) ∧
    (livedBefore (some minted) (fun _ => .absent) .notDir
      [.entries [.contents .undecodable]] = .error .unicodeDecode ∧
    ¬ FailsSafe (some minted)
      (ownArtifacts (fun _ => .absent) ++ records .notDir [.entries [.contents .undecodable]])
      (livedBefore (some minted) (fun _ => .absent) .notDir
        [.entries [.contents .undecodable]])) := by
  have hfalse : hasPriorLivedHistoryInLineage (some minted) .notDir
      [.entries [manifestOf (.str minted.entityId)]] = .ok false := by decide
  have herror : livedBefore (some minted) (fun _ => .absent) .notDir
      [.entries [.contents .undecodable]] = .error .unicodeDecode := by decide
  refine ⟨⟨hfalse, ?_⟩, herror, ?_⟩
  · intro h
    have hnone : attribution (.manifest (manifestOf (.str minted.entityId))) = none := by
      decide
    obtain ⟨i, -, hu⟩ := h.unrelated hfalse (.manifest (manifestOf (.str minted.entityId)))
      (by simp [records, listed])
    rcases hu with hu | hu | ⟨id, lineage, hu, -⟩
    · cases hu
    · cases hu
    · rw [hnone] at hu
      cases hu
  · intro h
    obtain ⟨lived, hlived⟩ := h.returns
    rw [herror] at hlived
    cases hlived

end Kaine.LivedHistory
