import Kaine.Lib.JsonPath
import Mathlib.Data.List.Pairwise

/-! The default strategy of a merge of module states (`UnionMergeStrategy` in
`kaine/lifecycle/strategies.py`). The laws of the default merge strategy, and the lists on which it
keeps the last of them. -/
namespace Kaine.UnionMerge
open Py

/-- `repr(item)`. The value stands for its text, as no two have one text. The model's numbers do not
tell `-0.0` from `0.0`, whose texts differ. -/
def repr (item : Json) : Json := item

/-- The loop over `b`'s list: what is appended, with the texts seen so far. -/
def appendUnseen (merged seen : List Json) : List Json → List Json
  | [] => merged
  | item :: rest =>
    if repr item ∈ seen then appendUnseen merged seen rest
    else appendUnseen (merged ++ [item]) (seen ++ [repr item]) rest

def mergeLists (la lb : List Json) : List Json := appendUnseen la (la.map repr) lb

mutual

/-- What a key of `b` becomes, given what `out` has under it. -/
def mergeValue (old : Option Json) (valB : Json) : Json :=
  match old, valB with
  | some (.obj da), .obj db => .obj (mergeItems da db)
  | some (.arr la), .arr lb => .arr (mergeLists la lb)
  | _, valB => valB

/-- The loop over `b`'s items. -/
def mergeItems (out : Dict) : Dict → Dict
  | [] => out
  | (key, valB) :: rest => mergeItems (out.set key (mergeValue (out.lookup key) valB)) rest

end

def merge (stateA stateB : Option Dict) : Dict :=
  match stateA, stateB with
  | none, none => []
  | none, some b => b
  | some a, none => a
  | some a, some b => mergeItems a b

/-- A module's state, whose dicts have every key once. -/
structure State where
  items : Dict
  keyed : Json.Keyed (.obj items)

open Json

variable {a b d out : Dict} {key : String} {la lb merged seen : List Json} {x y : Json}

/-- A value with no text in the list yet is new. -/
theorem mem_appendUnseen (h : ∀ z, z ∈ merged ↔ repr z ∈ seen) :
    x ∈ appendUnseen merged seen lb ↔ x ∈ merged ∨ x ∈ lb := by
  induction lb generalizing merged seen with
  | nil => simp [appendUnseen]
  | cons item rest ih =>
    rw [appendUnseen]
    split_ifs with hseen
    · have hold : item ∈ merged := (h item).mpr hseen
      rw [ih h, List.mem_cons]
      constructor
      · rintro (hx | hx)
        · exact .inl hx
        · exact .inr (.inr hx)
      · rintro (hx | rfl | hx)
        · exact .inl hx
        · exact .inl hold
        · exact .inr hx
    · rw [ih fun z => by simp [h z, repr]]
      simp [or_assoc]

theorem appendUnseen_sublist : (appendUnseen merged seen lb).Sublist (merged ++ lb) := by
  induction lb generalizing merged seen with
  | nil => simp [appendUnseen]
  | cons item rest ih =>
    rw [appendUnseen]
    split_ifs with hseen
    · exact ih.trans (List.Sublist.append_left (List.sublist_cons_self item rest) merged)
    · have happended :
          (appendUnseen (merged ++ [item]) (seen ++ [repr item]) rest).Sublist
            (merged ++ [item] ++ rest) := ih
      rwa [List.append_assoc] at happended

theorem prefix_appendUnseen : merged <+: appendUnseen merged seen lb := by
  induction lb generalizing merged seen with
  | nil => exact List.prefix_refl _
  | cons item rest ih =>
    rw [appendUnseen]
    split_ifs with hseen
    · exact ih
    · exact (List.prefix_append merged [item]).trans ih

/-- Where equal values are one, what is appended leaves every value once. -/
theorem appendUnseen_pairwise {same : Json → Json → Prop} (h : ∀ z, z ∈ merged ↔ repr z ∈ seen)
    (hmerged : merged.Pairwise fun x y => ¬same x y)
    (hone : ∀ y ∈ lb, ∀ x ∈ merged ++ lb, same x y → x = y) :
    (appendUnseen merged seen lb).Pairwise fun x y => ¬same x y := by
  induction lb generalizing merged seen with
  | nil => exact hmerged
  | cons item rest ih =>
    have hrest : ∀ y ∈ rest, ∀ x ∈ merged ++ rest, same x y → x = y := by
      intro y hy x hx
      refine hone y (List.mem_cons_of_mem _ hy) x ?_
      exact (List.Sublist.append_left (List.sublist_cons_self item rest) merged).subset hx
    rw [appendUnseen]
    split_ifs with hseen
    · exact ih h hmerged hrest
    · have hnot : item ∉ merged := fun hmem => hseen ((h item).mp hmem)
      refine ih (fun z => by simp [h z, repr]) ?_ ?_
      · refine List.pairwise_append.mpr ⟨hmerged, List.pairwise_singleton _ _, ?_⟩
        intro x hx y hy hsame
        cases List.mem_singleton.mp hy
        have heq := hone item List.mem_cons_self x (List.mem_append_left _ hx) hsame
        exact hnot (heq ▸ hx)
      · intro y hy x hx hsame
        refine hone y (List.mem_cons_of_mem _ hy) x ?_ hsame
        simpa using hx

/-- What a merged list promises of two lists. -/
structure IsUnion (la lb merged : List Json) : Prop where
  complete : ∀ x ∈ la ++ lb, x ∈ merged
  ordered : merged.Sublist (la ++ lb)
  once : merged.Pairwise fun x y => ¬itemEq x y = true

/-- Two lists of which the first has no value twice, and the second none that is equal to another
without being the same. -/
structure Distinct (la lb : List Json) : Prop where
  once : la.Pairwise fun x y => ¬itemEq x y = true
  one : ∀ y ∈ lb, ∀ x ∈ la ++ lb, itemEq x y = true → x = y

theorem mem_mergeLists : x ∈ mergeLists la lb ↔ x ∈ la ∨ x ∈ lb :=
  mem_appendUnseen fun z => by simp [repr]

/-- A merged list keeps every value once just where the first list does and no value comes in two
forms. -/
theorem mergeLists_isUnion_iff (hla : ∀ x ∈ la, Keyed x) (hlb : ∀ x ∈ lb, Keyed x) :
    IsUnion la lb (mergeLists la lb) ↔ Distinct la lb := by
  constructor
  · intro h
    refine ⟨h.once.sublist prefix_appendUnseen.sublist, fun y hy x hx hsame => ?_⟩
    by_contra hne
    have hxm : x ∈ mergeLists la lb := h.complete x hx
    have hym : y ∈ mergeLists la lb := h.complete y (List.mem_append_right _ hy)
    have hkeyed : ∀ z ∈ la ++ lb, Keyed z := by
      intro z hz
      rcases List.mem_append.mp hz with hz | hz
      · exact hla z hz
      · exact hlb z hz
    have hback := (hkeyed x hx).itemEq_symm (hlb y hy) hsame
    have hboth : (mergeLists la lb).Pairwise fun x y => ¬(itemEq x y = true ∧ itemEq y x = true) :=
      h.once.imp fun hxy hboth => hxy hboth.1
    have hsymm : Std.Symm fun x y => ¬(itemEq x y = true ∧ itemEq y x = true) :=
        ⟨fun _ _ hxy hyx => hxy hyx.symm⟩
    exact hboth.forall hxm hym hne ⟨hsame, hback⟩
  · intro h
    refine ⟨fun x hx => mem_mergeLists.mpr (List.mem_append.mp hx), appendUnseen_sublist, ?_⟩
    exact appendUnseen_pairwise (fun z => by simp [repr]) h.once h.one

theorem lookup_mergeItems (hb : (b.map Prod.fst).Nodup) (key : String) :
    (mergeItems out b).lookup key =
      match b.lookup key with
      | some valB => some (mergeValue (out.lookup key) valB)
      | none => out.lookup key := by
  induction b generalizing out with
  | nil => rw [mergeItems, List.lookup_nil]
  | cons kv rest ih =>
    obtain ⟨k, v⟩ := kv
    obtain ⟨hk, hrest⟩ := List.nodup_cons.mp hb
    rw [mergeItems, ih hrest]
    by_cases heq : key = k
    · subst heq
      rw [Assoc.lookup_of_not_mem hk, List.lookup_cons_self, Dict.set, Assoc.lookup_assign_self]
    · rw [Assoc.lookup_cons_of_ne heq, Dict.set, Assoc.lookup_assign_of_ne heq]

theorem has_mergeItems (hb : (b.map Prod.fst).Nodup) (key : String) :
    (mergeItems a b).has key = (a.has key || b.has key) := by
  rw [Dict.has, lookup_mergeItems hb, Dict.has, Dict.has]
  cases b.lookup key <;> simp

/-- Under a path that both states have, the result has the merge of what they have there. -/
theorem follow_mergeValue {path : List String} :
    ∀ {u v : Json}, v.Keyed → u.follow path = some x → v.follow path = some y →
      (mergeValue (some u) v).follow path = some (mergeValue (some x) y) := by
  induction path with
  | nil =>
    intro u v _ hu hv
    cases hu
    cases hv
    rfl
  | cons key path ih =>
    intro u v hkeyed hu hv
    cases u with
    | obj da =>
      cases v with
      | obj db =>
        obtain ⟨ua, hua, hx⟩ := Option.bind_eq_some_iff.mp hu
        obtain ⟨vb, hvb, hy⟩ := Option.bind_eq_some_iff.mp hv
        rw [mergeValue, follow, lookup_mergeItems hkeyed.nodup, hvb, hua]
        exact ih (hkeyed.of_lookup hvb) hx hy
      | _ => cases hv
    | _ => cases hu

theorem mergeItems_eq_self (h : ∀ kv ∈ b, a.lookup kv.1 = some kv.2 ∧
      mergeValue (some kv.2) kv.2 = kv.2) :
    mergeItems a b = a := by
  induction b with
  | nil => rfl
  | cons kv rest ih =>
    obtain ⟨hlookup, hvalue⟩ := h kv List.mem_cons_self
    rw [mergeItems, hlookup, hvalue, Dict.set_lookup hlookup]
    exact ih fun kv' hkv' => h kv' (List.mem_cons_of_mem _ hkv')

theorem mergeLists_self (la : List Json) : mergeLists la la = la := by
  have hseen : ∀ lb seen : List Json, (∀ x ∈ lb, repr x ∈ seen) → appendUnseen la seen lb = la := by
    intro lb seen h
    induction lb with
    | nil => rfl
    | cons item rest ih =>
      rw [appendUnseen, if_pos (h item List.mem_cons_self)]
      exact ih fun x hx => h x (List.mem_cons_of_mem _ hx)
  exact hseen la (la.map repr) fun x hx => List.mem_map_of_mem hx

theorem mergeValue_self {v : Json} (h : v.Keyed) : mergeValue (some v) v = v := by
  induction h with
  | arr _ _ => rw [mergeValue, mergeLists_self]
  | obj nodup _ ih =>
    rw [mergeValue, mergeItems_eq_self fun kv hkv => ⟨Assoc.lookup_of_mem nodup hkv, ih kv hkv⟩]
  | _ => rfl

/-- The laws of the union: a state merged with itself, the keys, the nested dicts and the lists. -/
structure Lawful (a b : State) : Prop where
  self : merge (some a.items) (some a.items) = a.items
  keys : ∀ key, (merge (some a.items) (some b.items)).has key = (a.items.has key || b.items.has key)
  nested : ∀ path da db, (obj a.items).follow path = some (.obj da) → (obj b.items).follow path =
    some (.obj db) →
    (obj (merge (some a.items) (some b.items))).follow path =
      some (.obj (merge (some da) (some db)))
  lists : ∀ path la lb, (obj a.items).follow path = some (.arr la) → (obj b.items).follow path =
    some (.arr lb) →
    ∃ merged, (obj (merge (some a.items) (some b.items))).follow path = some (.arr merged) ∧
      IsUnion la lb merged

theorem follow_merge (a b : State) {path : List String} (hx : (obj a.items).follow path = some x)
    (hy : (obj b.items).follow path = some y) :
    (obj (merge (some a.items) (some b.items))).follow path = some (mergeValue (some x) y) :=
  follow_mergeValue b.keyed hx hy

theorem follow_lists (a b : State) {path : List String}
    (hla : (obj a.items).follow path = some (.arr la))
    (hlb : (obj b.items).follow path = some (.arr lb)) :
    (obj (merge (some a.items) (some b.items))).follow path = some (.arr (mergeLists la lb)) := by
  rw [follow_merge a b hla hlb, mergeValue]

theorem keyed_items (s : State) {path : List String}
    (h : (obj s.items).follow path = some (.arr la)) : ∀ x ∈ la, Keyed x := by
  cases s.keyed.follow h with
  | arr items => exact items

/-- The laws hold of two states just where every list of the first that meets one of the second has
no value twice, and no two equal values of the two lists differ in form. -/
theorem lawful_iff (a b : State) :
    Lawful a b ↔ ∀ path la lb, (obj a.items).follow path = some (.arr la) →
      (obj b.items).follow path = some (.arr lb) → Distinct la lb := by
  constructor
  · intro h path la lb hla hlb
    obtain ⟨merged, hmerged, hunion⟩ := h.lists path la lb hla hlb
    rw [follow_lists a b hla hlb] at hmerged
    cases hmerged
    exact (mergeLists_isUnion_iff (keyed_items a hla) (keyed_items b hlb)).mp hunion
  · intro h
    constructor
    · have hself := mergeValue_self a.keyed
      rw [mergeValue] at hself
      exact Json.obj.inj hself
    · exact has_mergeItems b.keyed.nodup
    · intro path da db hda hdb
      rw [follow_merge a b hda hdb, mergeValue]
      rfl
    · intro path la lb hla hlb
      refine ⟨_, follow_lists a b hla hlb, ?_⟩
      exact (mergeLists_isUnion_iff (keyed_items a hla) (keyed_items b hlb)).mpr
        (h path la lb hla hlb)

section Twice

/-- A state of one list of integers. -/
def listState (ns : List ℤ) : State :=
  ⟨[("l", .arr (ns.map .int))], .obj (List.nodup_singleton "l") (by
    intro kv hkv
    cases List.mem_singleton.mp hkv
    refine .arr fun x hx => ?_
    obtain ⟨n, -, rfl⟩ := List.mem_map.mp hx
    exact .int n)⟩

/-- A value that the first list holds twice stays twice. -/
theorem merge_keeps_twice : ¬∀ a b : State, Lawful a b := by
  intro h
  obtain ⟨merged, hmerged, hunion⟩ := (h (listState [1, 1]) (listState [2])).lists ["l"] _ _ rfl rfl
  have htwice : some (Json.arr merged) = some (.arr [.int 1, .int 1, .int 2]) := by
    rw [← hmerged]
    decide
  cases htwice
  have hdiffer := hunion.once
  revert hdiffer
  decide

end Twice

end Kaine.UnionMerge
