import Kaine.Bus.Schema
import Mathlib.Data.List.ReduceOption
import Mathlib.Logic.Equiv.Nat

/-! The broadcast: the payload that the cycle makes of a snapshot (`kaine/cycle/engine.py`), and the
snapshot that a module makes of the payload (`kaine/modules/base.py`). What the payload of a
broadcast gives back of its snapshot, and which malformed items cost the whole broadcast. -/
namespace Kaine.Broadcast
open Py Bus

structure WorkspaceSnapshot where
  tickIndex : ℤ
  selectedEvents : List (String × Event) := []
  inhibited : Bool := false
  isExperiential : Bool := false
  salienceScores : List (String × PyFloat) := []
  metadata : Dict := []
  publishedAt : Option PyFloat := none
deriving DecidableEq

/-- What a time stamp names: a moment, by its microseconds in UTC, or a time without a zone. -/
inductive Instant
  | aware (micros : ℤ)
  | naive
deriving DecidableEq

/-- The moments from the year 1 to the year 9999. -/
def Instant.inRange (micros : ℤ) : Prop := -62135596800000000 ≤ micros ∧ micros < 253402300800000000

instance (micros : ℤ) : Decidable (Instant.inRange micros) := inferInstanceAs (Decidable (_ ∧ _))

/-- The standard library and the validator around a payload; none where they raise. -/
structure Library where
  isoformat : ℤ → String
  fromisoformat : String → Option Instant
  /-- The time that the validator makes of what is no text. -/
  timeOf : Json → Option Instant
  str : Json → String
  ofText : String → Option PyFloat
  intOf : Json → Option ℤ
  dictOf : Json → Option Dict
  fromisoformat_isoformat {micros : ℤ} (h : Instant.inRange micros) :
    fromisoformat (isoformat micros) = some (.aware micros)
  str_str (s : String) : str (.str s) = s
  intOf_int (n : ℤ) : intOf (.int n) = some n
  dictOf_obj (d : Dict) : dictOf (.obj d) = some d

/-- A text or `None`. -/
def ofOptional : Option String → Json
  | none => .null
  | some s => .str s

def itemOf (lib : Library) (entryId : String) (ev : Event) : Json := .obj
  [("entry_id", .str entryId),
   ("source", .str ev.source),
   ("type", .str ev.type),
   ("salience", .float (.fin ev.salience)),
   ("payload", .obj ev.payload),
   ("timestamp", .str (lib.isoformat ev.timestamp)),
   ("causal_parent", ofOptional ev.causalParent)]

/-- `_snapshot_to_payload`, at the clock's scale and time. -/
def snapshotToPayload (lib : Library) (scale now : ℚ) (snapshot : WorkspaceSnapshot)
    (isExperiential : Bool) : Dict :=
  [("tick_index", .int snapshot.tickIndex),
   ("inhibited", .bool snapshot.inhibited),
   ("is_experiential", .bool isExperiential),
   ("time_scale", .float (.fin scale)),
   ("published_at", .float (.fin now)),
   ("salience_scores", .obj (snapshot.salienceScores.map fun (key, score) => (key, .float score))),
   ("metadata", .obj snapshot.metadata),
   ("selected", .arr (snapshot.selectedEvents.map fun (entryId, ev) => itemOf lib entryId ev))]

section
variable (lib : Library)

/-- `v or …`: none where the default takes its place. -/
def orEmpty (v : Json) : Option Json := if v.truthy then some v else none

/-- The items that a loop over a value takes, none where it raises. -/
def itemsOf : Json → Option (List Json)
  | .arr xs => some xs
  | .str s => some (s.toList.map fun c => .str (String.singleton c))
  | .obj kvs => some (kvs.map fun kv => .str kv.1)
  | _ => none

/-- The validated text of a name. -/
def nameOf (maxLength : ℕ) (v : Option Json) :
    Option {s : String // validName maxLength s = true} :=
  match v with
  | some (.str s) => if h : validName maxLength s = true then some ⟨s, h⟩ else none
  | _ => none

/-- The validated dict of `v or {}`. -/
def dictOrEmpty (v : Json) : Option Dict :=
  match orEmpty v with
  | none => some []
  | some v => v.asDict

/-- The validated text of `v or None`. -/
def parentOf (v : Json) : Option (Option String) :=
  match orEmpty v with
  | none => some none
  | some (.str parent) => some (some parent)
  | some _ => none

/-- The event that the constructor makes of an item's fields, none where it or a conversion
raises. -/
def eventOf (item : Dict) (time : Option Instant) : Option Event := do
  let source ← nameOf 64 (item.lookup "source")
  let type ← nameOf 128 (item.lookup "type")
  let payload ← dictOrEmpty (item.get "payload")
  let salience ← item.lookup "salience"
  let salience ← (salience.toFloat lib.ofText).toOption
  let causalParent ← parentOf (item.get "causal_parent")
  match time, salience with
  | some (.aware micros), .fin salience =>
    if h : (0 ≤ salience ∧ salience ≤ 1) ∧ Instant.inRange micros then
      some { source := source.1, type := type.1, payload := payload, salience := salience,
             timestamp := micros, causalParent := causalParent, source_valid :=
               source.2, type_valid := type.2,
             salience_valid := h.1 }
    else none
  | _, _ => none

/-- The guarded part of one pass of the loop. -/
def entryOf (item : Dict) (time : Option Instant) : Option (String × Event) :=
  (eventOf lib item time).map fun event => (lib.str (item.getD "entry_id" (.str "")), event)

/-- One pass of the loop over the selected items: the outer none where it raises, the inner where
the item is dropped. -/
def readItem (item : Json) : Option (Option (String × Event)) :=
  item.asDict.bind fun fields =>
    match fields.get "timestamp" with
    -- The time stamp is read outside the guard.
    | .str ts => (lib.fromisoformat ts).map fun time => entryOf lib fields (some time)
    | ts => some (entryOf lib fields (lib.timeOf ts))

/-- The items of `payload.get("selected", []) or []`. -/
def selectedItems (payload : Dict) : Option (List Json) :=
  match orEmpty (payload.getD "selected" (.arr [])) with
  | none => some []
  | some v => itemsOf v

def scoresOf (payload : Dict) : Option (List (String × PyFloat)) :=
  (dictOrEmpty (payload.get "salience_scores")).bind
    (·.mapM fun (key, v) => (v.toFloat lib.ofText).toOption.map (key, ·))

def metadataOf (payload : Dict) : Option Dict :=
  match orEmpty (payload.get "metadata") with
  | none => some []
  | some v => lib.dictOf v

/-- The finite number of the time of publishing. -/
def publishedAtOf : Json → Option (Option PyFloat)
  | .int n => (PyFloat.ofInt n).toOption.map some
  | .float x => some (if x.isFinite then some x else none)
  | _ => some none

/-- `_snapshot_from_payload`, none where it raises. -/
def snapshotFromPayload (payload : Dict) : Option WorkspaceSnapshot := do
  let items ← selectedItems payload
  let selected ← items.mapM (readItem lib)
  let publishedAt ← publishedAtOf (payload.get "published_at")
  let tickIndex ← lib.intOf (payload.getD "tick_index" (.int 0))
  let scores ← scoresOf lib payload
  let metadata ← metadataOf lib payload
  return {
    tickIndex := tickIndex
    selectedEvents := selected.reduceOption
    inhibited := (payload.getD "inhibited" (.bool false)).truthy
    isExperiential := (payload.getD "is_experiential" (.bool false)).truthy
    salienceScores := scores
    metadata := metadata
    publishedAt := publishedAt }

end

variable {lib : Library}

/-- An item that passes the conversions before the guard: a dict whose time stamp, where it is text,
reads. -/
def Readable (lib : Library) (item : Json) : Prop :=
  ∃ fields : Dict, item = .obj fields ∧ ∀ ts, fields.get "timestamp" = .str ts →
    (lib.fromisoformat ts).isSome = true

/-- The entry of a well-formed item: a dict with a time stamp that reads and the fields of an
event. -/
def wellFormed (lib : Library) : Json → Option (String × Event)
  | .obj fields =>
    match Dict.get fields "timestamp" with
    | .str ts => (lib.fromisoformat ts).bind fun time => entryOf lib fields (some time)
    | ts => entryOf lib fields (lib.timeOf ts)
  | _ => none

theorem readItem_isSome {item : Json} : (readItem lib item).isSome = true ↔ Readable lib item := by
  cases item with
  | obj fields =>
    unfold readItem Readable
    simp only [Json.asDict, Option.bind_some]
    constructor
    · intro hsome
      refine ⟨fields, rfl, fun ts hts => ?_⟩
      rw [hts] at hsome
      simpa using hsome
    · rintro ⟨fields', hfields, hread⟩
      cases hfields
      split
      · rename_i ts hts
        simpa using hread ts hts
      · rfl
  | null | bool | int | float | str | arr =>
    constructor
    · intro hsome
      cases hsome
    · rintro ⟨fields, hfields, -⟩
      cases hfields

/-- A readable item gives its entry where it is well formed, and is dropped where it is not. -/
theorem readItem_of_readable {item : Json} (h : Readable lib item) :
    readItem lib item = some (wellFormed lib item) := by
  obtain ⟨fields, rfl, hread⟩ := h
  unfold readItem wellFormed
  simp only [Json.asDict, Option.bind_some]
  cases hts : Dict.get fields "timestamp" with
  | str ts =>
    obtain ⟨time, htime⟩ := Option.isSome_iff_exists.mp (hread ts hts)
    simp [htime]
  | null | bool | int | float | arr | obj => rfl

theorem mapM_readItem {items : List Json} (h : ∀ item ∈ items, Readable lib item) :
    items.mapM (readItem lib) = some (items.map (wellFormed lib)) := by
  induction items with
  | nil => rfl
  | cons item items ih =>
    rw [List.mapM_cons, readItem_of_readable (h item List.mem_cons_self),
      ih fun other hother => h other (List.mem_cons_of_mem _ hother)]
    rfl

/-- One item that does not read costs the whole broadcast. -/
theorem readable_of_mapM {items : List Json} {read : List (Option (String × Event))}
    (h : items.mapM (readItem lib) = some read) : ∀ item ∈ items, Readable lib item := by
  induction items generalizing read with
  | nil => simp
  | cons item items ih =>
    rw [List.mapM_cons] at h
    obtain ⟨entry, hentry, h⟩ := Option.bind_eq_some_iff.mp h
    obtain ⟨rest, hrest, -⟩ := Option.bind_eq_some_iff.mp h
    intro other hother
    rcases List.mem_cons.mp hother with rfl | hother
    · exact readItem_isSome.mp (Option.isSome_of_eq_some hentry)
    · exact ih hrest other hother

/-- An event as its item gives it back: an empty parent is no parent. -/
def reread (ev : Event) : Event := { ev with causalParent := ev.causalParent.filter (· ≠ "") }

theorem reread_eq {ev : Event} : reread ev = ev ↔ ev.causalParent ≠ some "" := by
  unfold reread
  obtain ⟨source, type, payload, salience, timestamp, causalParent, _, _, _⟩ := ev
  cases causalParent with
  | none => simp
  | some parent => by_cases hparent : parent = "" <;> simp [hparent]

theorem parentOf_item (parent : Option String) :
    parentOf (ofOptional parent) = some (parent.filter (· ≠ "")) := by
  cases parent with
  | none => rfl
  | some parent =>
    by_cases hparent : parent = "" <;>
      simp [ofOptional, parentOf, orEmpty, Json.truthy, Option.filter, hparent]

theorem dictOrEmpty_obj (d : Dict) : dictOrEmpty (.obj d) = some d := by
  cases d <;> rfl

theorem nameOf_str {maxLength : ℕ} {s : String} (h : validName maxLength s = true) :
    nameOf maxLength (some (.str s)) = some ⟨s, h⟩ := dif_pos h

/-- The item of an event gives the event back. -/
theorem wellFormed_itemOf (entryId : String) {ev : Event} (h : Instant.inRange ev.timestamp) :
    Readable lib (itemOf lib entryId ev) ∧ wellFormed lib (itemOf lib entryId ev) = some (entryId,
      reread ev) := by
  have hiso := lib.fromisoformat_isoformat h
  constructor
  · refine ⟨_, rfl, fun ts hts => ?_⟩
    cases hts
    rw [hiso]
    rfl
  · unfold wellFormed itemOf entryOf eventOf
    simp only [Dict.get, Dict.getD, List.lookup_cons, String.reduceBEq, BEq.rfl, Option.getD_some,
      hiso, Option.bind_some, nameOf_str ev.source_valid, nameOf_str ev.type_valid, dictOrEmpty_obj,
      parentOf_item, Json.toFloat, Except.toOption, Option.bind_eq_bind,
      dif_pos (And.intro ev.salience_valid h), Option.map_some, lib.str_str, reread]

/-- A payload as the cycle writes it, with any items in place of the selected ones. -/
def withItems (payload : Dict) (items : List Json) : Dict := payload.set "selected" (.arr items)

theorem scores_toPayload (scores : List (String × PyFloat)) :
    (scores.map fun (key, score) => (key, Json.float score)).mapM
      (fun (key, v) => (v.toFloat lib.ofText).toOption.map (key, ·)) = some scores := by
  induction scores with
  | nil => rfl
  | cons entry scores ih =>
    rw [List.map_cons, List.mapM_cons, ih]
    rfl

/-- Beside the items, what the cycle writes reads back. -/
theorem snapshotFromPayload_withItems (scale now : ℚ) (snapshot : WorkspaceSnapshot)
    (isExperiential : Bool) (items : List Json) :
    snapshotFromPayload lib (withItems (snapshotToPayload lib scale now snapshot isExperiential)
      items) = (items.mapM (readItem lib)).map fun read =>
        { snapshot with
          selectedEvents := read.reduceOption
          isExperiential := isExperiential
          publishedAt := some (.fin now) } := by
  have hitems :
      selectedItems (withItems (snapshotToPayload lib scale now snapshot isExperiential) items) =
      some items := by
    cases items <;> rfl
  have hscores :
      scoresOf lib (withItems (snapshotToPayload lib scale now snapshot isExperiential) items) =
      some snapshot.salienceScores := by
    unfold scoresOf
    have hget : (withItems (snapshotToPayload lib scale now snapshot isExperiential) items).get
        "salience_scores" = .obj (snapshot.salienceScores.map fun (key, score) => (key,
          .float score)) := rfl
    rw [hget, dictOrEmpty_obj, Option.bind_some]
    exact scores_toPayload _
  have hmetadata :
      metadataOf lib (withItems (snapshotToPayload lib scale now snapshot isExperiential) items) =
      some snapshot.metadata := by
    unfold metadataOf
    have hget : (withItems (snapshotToPayload lib scale now snapshot isExperiential) items).get
        "metadata" = .obj snapshot.metadata := rfl
    rw [hget]
    cases hempty : snapshot.metadata with
    | nil => rfl
    | cons kv metadata =>
      exact lib.dictOf_obj _
  have htick :
      lib.intOf ((withItems (snapshotToPayload lib scale now snapshot isExperiential) items).getD
      "tick_index" (.int 0)) = some snapshot.tickIndex := lib.intOf_int _
  unfold snapshotFromPayload
  rw [hitems, hscores, hmetadata, htick, Option.bind_eq_bind, Option.bind_some]
  cases items.mapM (readItem lib) <;> rfl

theorem snapshotToPayload_eq (scale now : ℚ) (snapshot : WorkspaceSnapshot)
    (isExperiential : Bool) : snapshotToPayload lib scale now snapshot isExperiential =
      withItems (snapshotToPayload lib scale now snapshot isExperiential)
        (snapshot.selectedEvents.map fun (entryId, ev) => itemOf lib entryId ev) := rfl

/-- The events of a snapshot as its payload gives them back. -/
theorem mapM_itemOf {selected : List (String × Event)}
    (h : ∀ e ∈ selected, Instant.inRange e.2.timestamp) :
    (selected.map fun (entryId, ev) => itemOf lib entryId ev).mapM (readItem lib) =
      some (selected.map fun e => some (e.1, reread e.2)) := by
  have hread : ∀ item ∈ selected.map (fun (entryId, ev) => itemOf lib entryId ev),
    Readable lib item := by
    intro item hitem
    obtain ⟨e, he, rfl⟩ := List.mem_map.mp hitem
    exact (wellFormed_itemOf e.1 (h e he)).1
  rw [mapM_readItem hread, List.map_map]
  congr 1
  exact List.map_congr_left fun e he => (wellFormed_itemOf e.1 (h e he)).2

theorem map_reread {selected : List (String × Event)} :
    selected.map (fun e => (e.1, reread e.2)) = selected ↔
      ∀ e ∈ selected, e.2.causalParent ≠ some "" := by
  have hmap : selected.map (fun e => (e.1, reread e.2)) = selected.map id ↔
      ∀ e ∈ selected, (e.1, reread e.2) = id e := List.map_inj_left
  rw [List.map_id] at hmap
  rw [hmap]
  refine forall₂_congr fun e _ => ?_
  rw [← reread_eq]
  constructor
  · exact congrArg Prod.snd
  · exact fun heq => congrArg (Prod.mk e.1) heq

theorem reduceOption_map_some {α β : Type} (f : α → β) (l : List α) :
    (l.map fun a => some (f a)).reduceOption = l.map f := by
  unfold List.reduceOption
  rw [List.filterMap_map]
  exact congrFun (List.filterMap_eq_map' (f := f)) l

/-- The payload of a snapshot gives the snapshot back, at its flag and time of publishing, exactly
where no selected event has an empty parent. Whatever the items, the rebuilt snapshot has just the
well-formed ones exactly where each item is a dict, and its time stamp reads where it is text. -/
theorem broadcast_read_iff (lib : Library) (scale now : ℚ) (snapshot : WorkspaceSnapshot)
    (isExperiential : Bool) : ((∀ e ∈ snapshot.selectedEvents, Instant.inRange e.2.timestamp) →
      (snapshotFromPayload lib (snapshotToPayload lib scale now snapshot isExperiential) =
          some { snapshot with isExperiential := isExperiential, publishedAt := some (.fin now) } ↔
        ∀ e ∈ snapshot.selectedEvents, e.2.causalParent ≠ some "")) ∧
    ∀ items, (∃ rebuilt,
        snapshotFromPayload lib (withItems (snapshotToPayload lib scale now snapshot isExperiential)
          items) = some rebuilt ∧ rebuilt.selectedEvents = items.filterMap (wellFormed lib)) ↔
      ∀ item ∈ items, Readable lib item := by
  constructor
  · intro hrange
    rw [snapshotToPayload_eq, snapshotFromPayload_withItems, mapM_itemOf hrange, Option.map_some,
      reduceOption_map_some, ← map_reread]
    constructor
    · intro heq
      exact congrArg WorkspaceSnapshot.selectedEvents (Option.some.inj heq)
    · intro heq
      rw [heq]
  · intro items
    rw [snapshotFromPayload_withItems]
    constructor
    · rintro ⟨rebuilt, hrebuilt, -⟩
      obtain ⟨read, hread, -⟩ := Option.map_eq_some_iff.mp hrebuilt
      exact readable_of_mapM hread
    · intro hread
      rw [mapM_readItem hread, Option.map_some]
      refine ⟨_, rfl, ?_⟩
      simp [List.reduceOption, List.filterMap_map]

def epoch : String := "1970-01-01T00:00:00+00:00"

/-- A library that writes and reads the epoch as the standard library does. -/
def exampleLibrary : Library where
  isoformat micros :=
    if micros = 0 then epoch else String.ofList (List.replicate (Equiv.intEquivNat micros) 'x')
  fromisoformat s :=
    if s = epoch then some (.aware 0)
    else if s.toList.all (· = 'x') then some (.aware (Equiv.intEquivNat.symm s.toList.length))
    else none
  timeOf _ := none
  str
    | .str s => s
    | _ => ""
  ofText _ := none
  intOf
    | .int n => some n
    | _ => none
  dictOf := Json.asDict
  fromisoformat_isoformat {micros} _ := by
    by_cases hzero : micros = 0
    · rw [if_pos hzero, if_pos rfl, hzero]
    · rw [if_neg hzero, if_neg, if_pos]
      · simp
      · simp
      · intro heq
        have hmem :
          '1' ∈ (String.ofList (List.replicate (Equiv.intEquivNat micros) 'x')).toList := by
          rw [heq]
          decide
        rw [String.toList_ofList] at hmem
        exact absurd (List.eq_of_mem_replicate hmem) (by decide)
  str_str _ := rfl
  intOf_int _ := rfl
  dictOf_obj _ := rfl

def exampleEvent : Event where
  source := "perception"
  type := "percept"
  salience := 0
  salience_valid := zero_salience
  timestamp := 0

def exampleSnapshot : WorkspaceSnapshot where
  tickIndex := 7
  selectedEvents := [("1-0", exampleEvent)]

theorem broadcast_read_iff_example :
    snapshotFromPayload exampleLibrary (snapshotToPayload exampleLibrary 1 3 exampleSnapshot true) =
      some { exampleSnapshot with isExperiential := true, publishedAt := some (.fin 3) } :=
  ((broadcast_read_iff exampleLibrary 1 3 exampleSnapshot true).1 (by decide)).mpr (by decide)

/-- Beside a well-formed item, a text that is no time stamp, or an item that is no dict, costs
both. -/
theorem malformed_item_costs_broadcast :
    let item := itemOf exampleLibrary "1-0" exampleEvent
    let payload := snapshotToPayload exampleLibrary 1 3 exampleSnapshot true
    wellFormed exampleLibrary item = some ("1-0", exampleEvent) ∧
      snapshotFromPayload exampleLibrary (withItems payload [item,
        .obj [("timestamp", .str "yesterday")]]) = none ∧
      snapshotFromPayload exampleLibrary (withItems payload [item, .int 42]) = none := by
  decide

end Kaine.Broadcast
