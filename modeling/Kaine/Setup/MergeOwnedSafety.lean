import Kaine.Setup.TomlWriterSafety

/-! A merge of owned keys keeps the rest, exactly where no update stands in the way of another or of
an unowned leaf. -/
namespace Kaine.TomlWriter
open Toml

variable {F : Type} {floats : FloatText F} {beyond : Char → Bool}

section Paths

variable {v w value : Value F} {d d' : Dict F} {P Q R : List String} {key : String}

/-- The value at a path of keys. -/
def follow : Value F → List String → Option (Value F)
  | v, [] => some v
  | .dict d, key :: path => (d.lookup key).bind fun v => follow v path
  | _, _ :: _ => none

def valueAt (d : Dict F) (path : List String) : Option (Value F) := follow (.dict d) path

theorem follow_append (v : Value F) (P R : List String) :
    follow v (P ++ R) = (follow v P).bind fun w => follow w R := by
  induction P generalizing v with
  | nil =>
    cases v <;> rfl
  | cons key P ih =>
    cases v with
    | dict d =>
      rw [List.cons_append, follow, follow]
      cases d.lookup key with
      | none => rfl
      | some w => exact ih w
    | _ => rfl

theorem follow_leaf (hw : isDict w = false) (hR : R ≠ []) : follow w R = none := by
  cases R with
  | nil => exact absurd rfl hR
  | cons key R =>
    cases w with
    | dict d => cases hw
    | _ => rfl

theorem follow_self (v : Value F) : follow v [] = some v := by
  cases v <;> rfl

theorem valueAt_cons (d : Dict F) (key : String) (P : List String) :
    valueAt d (key :: P) = (d.lookup key).bind fun v => follow v P := rfl

/-- Below a leaf there is nothing. -/
theorem valueAt_below (hw : isDict w = false) (h : valueAt d P = some w) (hunder : P <+: Q)
    (hne : P ≠ Q) : valueAt d Q = none := by
  obtain ⟨R, rfl⟩ := hunder
  have hR : R ≠ [] := by
    rintro rfl
    exact hne (List.append_nil P).symm
  rw [valueAt, follow_append, show follow (.dict d) P = some w from h, Option.bind_some,
    follow_leaf hw hR]

/-- Below what is absent there is nothing. -/
theorem valueAt_absent (h : valueAt d P = none) (hunder : P <+: Q) : valueAt d Q = none := by
  obtain ⟨R, rfl⟩ := hunder
  rw [valueAt, follow_append, show follow (.dict d) P = none from h]
  rfl

end Paths

section Set

variable {v w value : Value F} {d d' : Dict F} {P Q : List String} {key : String}

/-- One level of a set: the table that a part names, made where there is none. -/
theorem setDotted_cons {next : String} {more : List String}
    (h : setDotted value (key :: next :: more) d = .ok d') :
    ∃ sub sub', setDotted value (next :: more) sub = .ok sub' ∧
      d' = Assoc.assign d key (.dict sub') ∧
        (d.lookup key = some (.dict sub) ∨
          (sub = [] ∧ (d.lookup key = none ∨ d.lookup key = some .none))) := by
  have hmake : ∀ sub, (setDotted value (next :: more) sub).map (fun sub =>
      Assoc.assign d key (.dict sub)) = .ok d' →
      ∃ sub', setDotted value (next :: more) sub = .ok sub' ∧
        d' = Assoc.assign d key (.dict sub') := by
    intro sub hmap
    cases hset : setDotted value (next :: more) sub with
    | error part =>
      rw [hset] at hmap
      cases hmap
    | ok sub' =>
      rw [hset] at hmap
      cases hmap
      exact ⟨sub', rfl, rfl⟩
  simp only [setDotted] at h
  split at h
  · obtain ⟨sub', hset, hd⟩ := hmake [] h
    exact ⟨[], sub', hset, hd, .inr ⟨rfl, .inl ‹_›⟩⟩
  · obtain ⟨sub', hset, hd⟩ := hmake [] h
    exact ⟨[], sub', hset, hd, .inr ⟨rfl, .inr ‹_›⟩⟩
  · obtain ⟨sub', hset, hd⟩ := hmake _ h
    exact ⟨_, sub', hset, hd, .inl ‹_›⟩
  · cases h

/-- What a set does: the value stands at its path, tables above it, and elsewhere all is as it
was. -/
structure IsSet (value : Value F) (P : List String) (d d' : Dict F) : Prop where
  here : valueAt d' P = some value
  above {Q : List String} : Q <+: P → Q ≠ P → ∃ sub, valueAt d' Q = some (.dict sub)
  apart {Q : List String} : ¬P <+: Q → ¬Q <+: P → valueAt d' Q = valueAt d Q

theorem prefix_cons_iff {k k' : String} {P Q : List String} : k :: P <+: k' :: Q ↔
    k = k' ∧ P <+: Q :=
  List.cons_prefix_cons

theorem isSet_setDotted (hP : P ≠ []) (h : setDotted value P d = .ok d') : IsSet value P d d' := by
  induction P generalizing d d' with
  | nil => exact absurd rfl hP
  | cons key P ih =>
    cases P with
    | nil =>
      cases h
      refine ⟨?_, ?_, ?_⟩
      · rw [valueAt_cons, Assoc.lookup_assign_self, Option.bind_some, follow_self]
      · intro Q hunder hne
        cases Q with
        | nil => exact ⟨_, rfl⟩
        | cons k Q =>
          obtain ⟨rfl, hQ⟩ := prefix_cons_iff.mp hunder
          rw [List.prefix_nil.mp hQ] at hne
          exact absurd rfl hne
      · intro Q hbelow habove
        cases Q with
        | nil => exact absurd List.nil_prefix habove
        | cons k Q =>
          have hk : k ≠ key := by
            rintro rfl
            exact hbelow (prefix_cons_iff.mpr ⟨rfl, List.nil_prefix⟩)
          rw [valueAt_cons, valueAt_cons, Assoc.lookup_assign_of_ne hk]
    | cons next more =>
      obtain ⟨sub, sub', hset, rfl, hlookup⟩ := setDotted_cons h
      have hsub := ih (List.cons_ne_nil _ _) hset
      refine ⟨?_, ?_, ?_⟩
      · rw [valueAt_cons, Assoc.lookup_assign_self, Option.bind_some]
        exact hsub.here
      · intro Q hunder hne
        cases Q with
        | nil => exact ⟨_, rfl⟩
        | cons k Q =>
          obtain ⟨rfl, hQ⟩ := prefix_cons_iff.mp hunder
          rw [valueAt_cons, Assoc.lookup_assign_self, Option.bind_some]
          exact hsub.above hQ fun heq => hne (by rw [heq])
      · intro Q hbelow habove
        cases Q with
        | nil => exact absurd List.nil_prefix habove
        | cons k Q =>
          by_cases hk : k = key
          · subst hk
            have hbelow' : ¬next :: more <+: Q := fun hQ => hbelow (prefix_cons_iff.mpr ⟨rfl, hQ⟩)
            have habove' : ¬Q <+: next :: more := fun hQ => habove (prefix_cons_iff.mpr ⟨rfl, hQ⟩)
            have hQ : Q ≠ [] := by
              rintro rfl
              exact habove' List.nil_prefix
            have hsame : follow (.dict sub') Q = follow (.dict sub) Q := hsub.apart hbelow' habove'
            rw [valueAt_cons, valueAt_cons, Assoc.lookup_assign_self, Option.bind_some, hsame]
            rcases hlookup with hlookup | ⟨rfl, hlookup | hlookup⟩
            · rw [hlookup, Option.bind_some]
            -- In a table that was made nothing else stands, as nothing stood there before.
            · obtain ⟨k', Q', rfl⟩ := List.exists_cons_of_ne_nil hQ
              rw [hlookup]
              rfl
            · obtain ⟨k', Q', rfl⟩ := List.exists_cons_of_ne_nil hQ
              rw [hlookup]
              rfl
          · rw [valueAt_cons, valueAt_cons, Assoc.lookup_assign_of_ne hk]

/-- A value that stands already is set to no effect. -/
theorem setDotted_self (hP : P ≠ []) (h : valueAt d P = some value) :
    setDotted value P d = .ok d := by
  induction P generalizing d with
  | nil => exact absurd rfl hP
  | cons key P ih =>
    obtain ⟨v, hv, hfollow⟩ := Option.bind_eq_some_iff.mp h
    cases P with
    | nil =>
      rw [follow_self] at hfollow
      rw [← Option.some.inj hfollow, setDotted, Assoc.assign_lookup hv]
    | cons next more =>
      cases v with
      | dict sub =>
        have hsub := ih (List.cons_ne_nil _ _) hfollow
        simp only [setDotted, hv, hsub]
        exact congrArg Except.ok (Assoc.assign_lookup hv)
      | _ => cases hfollow

end Set

section Delete

variable {w : Value F} {d d' : Dict F} {P Q : List String} {key : String}

/-- Nothing is deleted exactly where nothing stands. -/
theorem deleteDotted_none (hP : P ≠ []) : deleteDotted P d = none ↔ valueAt d P = none := by
  induction P generalizing d with
  | nil => exact absurd rfl hP
  | cons key P ih =>
    cases P with
    | nil =>
      rw [deleteDotted, valueAt_cons]
      cases d.lookup key with
      | none => exact ⟨fun _ => rfl, fun _ => rfl⟩
      | some v => simp [follow_self]
    | cons next more =>
      simp only [deleteDotted, valueAt_cons]
      cases d.lookup key with
      | none => exact ⟨fun _ => rfl, fun _ => rfl⟩
      | some v =>
        cases v with
        | dict sub =>
          rw [Option.bind_some]
          refine Iff.trans ?_ (ih (List.cons_ne_nil _ _))
          exact Option.map_eq_none_iff
        | _ => exact ⟨fun _ => rfl, fun _ => rfl⟩

/-- What a deletion does: nothing stands at its path, a table or nothing above it, and elsewhere all
is as it was. -/
structure IsDelete (P : List String) (d d' : Dict F) : Prop where
  here : valueAt d' P = none
  above {Q : List String} : Q <+: P → Q ≠ P → valueAt d' Q = none ∨
    ∃ sub, valueAt d' Q = some (.dict sub)
  apart {Q : List String} : ¬P <+: Q → ¬Q <+: P → valueAt d' Q = valueAt d Q

theorem valueAt_remove_self (d : Dict F) (key : String) (P : List String) :
    valueAt (Assoc.remove d key) (key :: P) = none := by
  rw [valueAt_cons, Assoc.lookup_remove_self]
  rfl

theorem isDelete_deleteDotted (hP : P ≠ []) (h : deleteDotted P d = some d') : IsDelete P d d' := by
  induction P generalizing d d' with
  | nil => exact absurd rfl hP
  | cons key P ih =>
    have hother : ∀ {k : String} {Q : List String} {e : Dict F}, (d.lookup k = e.lookup k) →
        valueAt e (k :: Q) = valueAt d (k :: Q) := by
      intro k Q e hlookup
      rw [valueAt_cons, valueAt_cons, hlookup]
    cases P with
    | nil =>
      rw [deleteDotted] at h
      split_ifs at h
      cases h
      refine ⟨valueAt_remove_self d key [], ?_, ?_⟩
      · intro Q hunder hne
        cases Q with
        | nil => exact .inr ⟨_, rfl⟩
        | cons k Q =>
          obtain ⟨rfl, hQ⟩ := prefix_cons_iff.mp hunder
          rw [List.prefix_nil.mp hQ] at hne
          exact absurd rfl hne
      · intro Q hbelow habove
        cases Q with
        | nil => exact absurd List.nil_prefix habove
        | cons k Q =>
          have hk : k ≠ key := by
            rintro rfl
            exact hbelow (prefix_cons_iff.mpr ⟨rfl, List.nil_prefix⟩)
          exact hother (Assoc.lookup_remove_of_ne hk).symm
    | cons next more =>
      simp only [deleteDotted] at h
      split at h
      case h_2 => cases h
      case h_1 sub hlookup =>
        obtain ⟨sub', hdelete, hd⟩ := Option.map_eq_some_iff.mp h
        have hsub := ih (List.cons_ne_nil _ _) hdelete
        have hkeep : ∀ {k : String}, k ≠ key → d.lookup k = d'.lookup k := by
          intro k hk
          rw [← hd]
          split_ifs
          · exact (Assoc.lookup_remove_of_ne hk).symm
          · exact (Assoc.lookup_assign_of_ne hk).symm
        -- An emptied table goes, and with it nothing but itself.
        have hhere : ∀ Q, Q ≠ [] → valueAt d' (key :: Q) = valueAt sub' Q := by
          intro Q hQ
          rw [← hd]
          split_ifs with hempty
          · rw [List.isEmpty_iff.mp hempty, valueAt_remove_self]
            obtain ⟨k', Q', rfl⟩ := List.exists_cons_of_ne_nil hQ
            rfl
          · rw [valueAt_cons, Assoc.lookup_assign_self]
            rfl
        refine ⟨?_, ?_, ?_⟩
        · rw [hhere _ (List.cons_ne_nil _ _)]
          exact hsub.here
        · intro Q hunder hne
          cases Q with
          | nil => exact .inr ⟨_, rfl⟩
          | cons k Q =>
            obtain ⟨rfl, hQ⟩ := prefix_cons_iff.mp hunder
            cases Q with
            | nil =>
              rw [← hd]
              split_ifs
              · exact .inl (valueAt_remove_self d k [])
              · refine .inr ⟨sub', ?_⟩
                rw [valueAt_cons, Assoc.lookup_assign_self, Option.bind_some, follow_self]
            | cons k' Q =>
              rw [hhere _ (List.cons_ne_nil _ _)]
              exact hsub.above hQ fun heq => hne (by rw [heq])
        · intro Q hbelow habove
          cases Q with
          | nil => exact absurd List.nil_prefix habove
          | cons k Q =>
            by_cases hk : k = key
            · subst hk
              have hbelow' : ¬next :: more <+: Q := fun hQ => hbelow (prefix_cons_iff.mpr ⟨rfl, hQ⟩)
              have habove' : ¬Q <+: next :: more := fun hQ => habove (prefix_cons_iff.mpr ⟨rfl, hQ⟩)
              have hQ : Q ≠ [] := by
                rintro rfl
                exact habove' List.nil_prefix
              rw [hhere Q hQ, hsub.apart hbelow' habove', valueAt_cons, hlookup]
              rfl
            · exact hother (hkeep hk)

end Delete

section Names

variable {v : Value F} {d out : Dict F} {k key : String}

/-- The dotted name of a path, below another. -/
def nameFrom : String → List String → String
  | above, [] => above
  | above, key :: path => nameFrom (dottedName above key) path

/-- The dotted name that `_flatten` gives a leaf. -/
def nameOf (path : List String) : String := nameFrom "" path

/-- A leaf of a dict. -/
def IsLeafAt (d : Dict F) (Q : List String) (w : Value F) : Prop :=
  valueAt d Q = some w ∧ isDict w = false

/-- Each dict in the value has every key once, as Python's dicts do. -/
inductive Keyed : Value F → Prop where
  | leaf {value : Value F} (h : isDict value = false) : Keyed value
  | dict {d : Dict F} (nodup : (d.map Prod.fst).Nodup) (items : ∀ kv ∈ d, Keyed kv.2) :
      Keyed (.dict d)

theorem Keyed.nodup (h : Keyed (.dict d)) : (d.map Prod.fst).Nodup := by
  cases h with
  | leaf h => cases h
  | dict nodup _ => exact nodup

theorem Keyed.items (h : Keyed (.dict d)) : ∀ kv ∈ d, Keyed kv.2 := by
  cases h with
  | leaf h => cases h
  | dict _ items => exact items

theorem keyed_nil : Keyed (.dict ([] : Dict F)) :=
  .dict List.nodup_nil fun _ h => absurd h List.not_mem_nil

theorem Keyed.assign (h : Keyed (.dict d)) (hv : Keyed v) :
    Keyed (.dict (Assoc.assign d key v)) := by
  refine .dict (Assoc.nodup_assign h.nodup) fun kv hkv => ?_
  rcases Assoc.mem_of_mem_assign hkv with rfl | hkv
  · exact hv
  · exact h.items kv hkv

theorem Keyed.remove (h : Keyed (.dict d)) : Keyed (.dict (Assoc.remove d key)) :=
  .dict (Assoc.nodup_remove h.nodup) fun kv hkv => h.items kv (Assoc.mem_remove.mp hkv).1

theorem Keyed.of_lookup (h : Keyed (.dict d)) (hv : d.lookup key = some v) : Keyed v :=
  h.items (key, v) (Assoc.mem_of_lookup_eq_some hv)

theorem mem_keys_assign (d : Dict F) (key : String) (v : Value F) :
    k ∈ (Assoc.assign d key v).map Prod.fst ↔ k ∈ d.map Prod.fst ∨ k = key := by
  by_cases hkey : key ∈ d.map Prod.fst
  · rw [Assoc.assign_keys hkey]
    exact ⟨.inl, fun h => h.elim id fun heq => heq ▸ hkey⟩
  · rw [Assoc.assign_of_lookup_eq_none (Assoc.lookup_of_not_mem hkey), List.map_append,
      List.mem_append]
    exact or_congr_right List.mem_singleton

theorem mem_keys_assignAll (d e : Dict F) :
    k ∈ (Assoc.assignAll d e).map Prod.fst ↔ k ∈ d.map Prod.fst ∨ k ∈ e.map Prod.fst := by
  induction e generalizing d with
  | nil => exact ⟨.inl, fun h => h.elim id fun h => absurd h List.not_mem_nil⟩
  | cons kv e ih =>
    rw [Assoc.assignAll, List.foldl_cons]
    show k ∈ (Assoc.assignAll (Assoc.assign d kv.1 kv.2) e).map Prod.fst ↔ _
    rw [ih, mem_keys_assign, List.map_cons, List.mem_cons, or_assoc]

/-- A leaf below a value, by its name. -/
def LeafNamed (above : String) (v : Value F) (k : String) : Prop :=
  ∃ Q w, follow v Q = some w ∧ isDict w = false ∧ nameFrom above Q = k

theorem leafNamed_leaf (hv : isDict v = false) (above : String) :
    LeafNamed above v k ↔ k = above := by
  constructor
  · rintro ⟨Q, w, hfollow, -, rfl⟩
    cases Q with
    | nil => rfl
    | cons key Q =>
      rw [follow_leaf hv (List.cons_ne_nil _ _)] at hfollow
      cases hfollow
  · rintro rfl
    exact ⟨[], v, follow_self v, hv, rfl⟩

theorem leafNamed_dict (hnodup : (d.map Prod.fst).Nodup) (above : String) :
    LeafNamed above (.dict d) k ↔ ∃ kv ∈ d, LeafNamed (dottedName above kv.1) kv.2 k := by
  constructor
  · rintro ⟨Q, w, hfollow, hw, rfl⟩
    cases Q with
    | nil =>
      cases hfollow
      cases hw
    | cons key Q =>
      obtain ⟨v, hv, hbelow⟩ := Option.bind_eq_some_iff.mp hfollow
      exact ⟨(key, v), Assoc.mem_of_lookup_eq_some hv, Q, w, hbelow, hw, rfl⟩
  · rintro ⟨⟨key, v⟩, hmem, Q, w, hfollow, hw, rfl⟩
    refine ⟨key :: Q, w, ?_, hw, rfl⟩
    rw [follow, Assoc.lookup_of_mem hnodup hmem]
    exact hfollow

theorem flattenItem_leaf (hv : isDict v = false) (dotted : String) (out : Dict F) :
    flattenItem dotted out v = Assoc.assign out dotted v := by
  cases v with
  | dict d => cases hv
  | _ => rfl

theorem mem_flattenItem_leaf (hv : isDict v = false) (dotted : String) (out : Dict F) :
    k ∈ (flattenItem dotted out v).map Prod.fst ↔ k ∈ out.map Prod.fst ∨ LeafNamed dotted v k := by
  rw [flattenItem_leaf hv, mem_keys_assign, leafNamed_leaf hv]

mutual

theorem mem_flattenItem : ∀ (dotted : String) (out : Dict F) (v : Value F), Keyed v →
    (k ∈ (flattenItem dotted out v).map Prod.fst ↔ k ∈ out.map Prod.fst ∨ LeafNamed dotted v k)
  | dotted, out, .dict sub, h => by
    rw [flattenItem, mem_keys_assignAll, mem_flattenInto dotted [] sub h.items,
      leafNamed_dict h.nodup]
    exact or_congr_right ⟨fun h => h.resolve_left List.not_mem_nil, .inr⟩
  | dotted, out, .none, _ => mem_flattenItem_leaf rfl dotted out
  | dotted, out, .bool _, _ => mem_flattenItem_leaf rfl dotted out
  | dotted, out, .int _, _ => mem_flattenItem_leaf rfl dotted out
  | dotted, out, .float _, _ => mem_flattenItem_leaf rfl dotted out
  | dotted, out, .str _, _ => mem_flattenItem_leaf rfl dotted out
  | dotted, out, .list _, _ => mem_flattenItem_leaf rfl dotted out
  | dotted, out, .other _ _, _ => mem_flattenItem_leaf rfl dotted out

theorem mem_flattenInto :
    ∀ (above : String) (out : Dict F) (d : List (String × Value F)), (∀ kv ∈ d, Keyed kv.2) →
    (k ∈ (flattenInto above out d).map Prod.fst ↔
      k ∈ out.map Prod.fst ∨ ∃ kv ∈ d, LeafNamed (dottedName above kv.1) kv.2 k)
  | above, out, [], _ => by simp [flattenInto]
  | above, out, (key, value) :: rest, h => by
    rw [flattenInto, mem_flattenInto above _ rest fun kv hkv => h kv (List.mem_cons_of_mem _ hkv),
      mem_flattenItem _ out value (h _ List.mem_cons_self), or_assoc, List.exists_mem_cons_iff]

end

/-- The flattened keys are the names of the leaves. -/
theorem mem_keys_flatten (h : Keyed (.dict d)) :
    k ∈ (flatten d).map Prod.fst ↔ ∃ Q w, IsLeafAt d Q w ∧ nameOf Q = k := by
  rw [flatten, mem_flattenInto "" [] d h.items, ← leafNamed_dict h.nodup]
  constructor
  · rintro (hmem | ⟨Q, w, hfollow, hw, hname⟩)
    · cases hmem
    · exact ⟨Q, w, ⟨hfollow, hw⟩, hname⟩
  · rintro ⟨Q, w, ⟨hfollow, hw⟩, hname⟩
    exact .inr ⟨Q, w, hfollow, hw, hname⟩

theorem isDict_assign {dotted : String} (h : ∀ kv ∈ out, isDict kv.2 = false)
    (hv : isDict v = false) : ∀ kv ∈ Assoc.assign out dotted v, isDict kv.2 = false := by
  intro kv hkv
  rcases Assoc.mem_of_mem_assign hkv with rfl | hkv
  · exact hv
  · exact h kv hkv

mutual

theorem isDict_flattenItem :
    ∀ (dotted : String) (out : Dict F) (v : Value F), (∀ kv ∈ out, isDict kv.2 = false) →
    ∀ kv ∈ flattenItem dotted out v, isDict kv.2 = false
  | dotted, out, .dict sub, h => by
    have hsub := isDict_flattenInto dotted [] sub fun kv hkv => absurd hkv List.not_mem_nil
    rw [flattenItem]
    generalize flattenInto dotted [] sub = flat at hsub ⊢
    induction flat generalizing out with
    | nil => exact h
    | cons kv flat ih =>
      refine ih (Assoc.assign out kv.1 kv.2) ?_ fun kv hkv => hsub kv (List.mem_cons_of_mem _ hkv)
      intro kv' hkv'
      rcases Assoc.mem_of_mem_assign hkv' with rfl | hkv'
      · exact hsub kv List.mem_cons_self
      · exact h kv' hkv'
  | dotted, out, .none, h => isDict_assign h rfl
  | dotted, out, .bool _, h => isDict_assign h rfl
  | dotted, out, .int _, h => isDict_assign h rfl
  | dotted, out, .float _, h => isDict_assign h rfl
  | dotted, out, .str _, h => isDict_assign h rfl
  | dotted, out, .list _, h => isDict_assign h rfl
  | dotted, out, .other _ _, h => isDict_assign h rfl

theorem isDict_flattenInto : ∀ (above : String) (out : Dict F) (d : List (String × Value F)),
    (∀ kv ∈ out, isDict kv.2 = false) → ∀ kv ∈ flattenInto above out d, isDict kv.2 = false
  | _, _, [], h => h
  | above, out, (key, value) :: rest, h =>
    isDict_flattenInto above _ rest (isDict_flattenItem (dottedName above key) out value h)

end

/-- Only leaves are flattened. -/
theorem isDict_flatten (d : Dict F) : ∀ kv ∈ flatten d, isDict kv.2 = false :=
  isDict_flattenInto "" [] d fun _ hkv => absurd hkv List.not_mem_nil

end Names

section Merge

variable {existing updates m m' merged : Dict F} {owned : List String} {flat us : Dict F}
  {u : String × Value F} {P Q : List String} {v w : Value F}

theorem parts_ne (dotted : String) : parts dotted ≠ [] := by
  rw [parts, ne_eq, List.map_eq_nil_iff]
  exact List.splitOn_ne_nil '.' dotted.toList

/-- What an update did that was not refused. -/
theorem applyUpdate_cases (h : applyUpdate owned flat m u = .ok m') :
    (isRemove u.2 = true ∧ isOwnedRemovePath u.1 owned flat = true ∧
      m' = (deleteDotted (parts u.1) m).getD m) ∨
        (isRemove u.2 = false ∧ owned.contains u.1 = true ∧
          setDotted u.2 (parts u.1) m = .ok m') := by
  unfold applyUpdate at h
  split_ifs at h with hremove howned hwrite
  · cases h
    exact .inl ⟨hremove, howned, rfl⟩
  · refine .inr ⟨Bool.eq_false_iff.mpr hremove, hwrite, ?_⟩
    cases hset : setDotted u.2 (parts u.1) m with
    | error part =>
      rw [hset] at h
      cases h
    | ok sub =>
      rw [hset] at h
      cases h
      rfl

/-- An update that does not stand in the way of a leaf: a removed key is neither the leaf nor a
table above it, and a set key is neither above nor below it, or gives it the value that it has. -/
def Spares (Q : List String) (w : Value F) (u : String × Value F) : Prop :=
  if isRemove u.2 then ¬parts u.1 <+: Q
  else (parts u.1 = Q ∧ u.2 = w) ∨ (¬parts u.1 <+: Q ∧ ¬Q <+: parts u.1)

theorem spares_remove (h : isRemove u.2 = true) : Spares Q w u ↔ ¬parts u.1 <+: Q := by
  rw [Spares, if_pos h]

theorem spares_set (h : isRemove u.2 = false) :
    Spares Q w u ↔ (parts u.1 = Q ∧ u.2 = w) ∨ (¬parts u.1 <+: Q ∧ ¬Q <+: parts u.1) := by
  rw [Spares, h, if_neg Bool.false_ne_true]

/-- A leaf stands behind an update that spares it. -/
theorem Spares.keeps (hspares : Spares Q w u) (h : applyUpdate owned flat m u = .ok m')
    (hleaf : IsLeafAt m Q w) :
    IsLeafAt m' Q w := by
  rcases applyUpdate_cases h with ⟨hremove, -, rfl⟩ | ⟨hset, -, hdone⟩
  · rw [spares_remove hremove] at hspares
    by_cases habove : Q <+: parts u.1
    · have hne : Q ≠ parts u.1 := fun heq => hspares (heq ▸ List.prefix_refl _)
      have hnone := (deleteDotted_none (parts_ne u.1)).mpr
        (valueAt_below hleaf.2 hleaf.1 habove hne)
      rw [hnone]
      exact hleaf
    · cases hdelete : deleteDotted (parts u.1) m with
      | none => exact hleaf
      | some d =>
        refine ⟨?_, hleaf.2⟩
        rw [Option.getD_some, (isDelete_deleteDotted (parts_ne u.1) hdelete).apart hspares habove]
        exact hleaf.1
  · have hisSet := isSet_setDotted (parts_ne u.1) hdone
    rcases (spares_set hset).mp hspares with ⟨rfl, rfl⟩ | ⟨hbelow, habove⟩
    · exact ⟨hisSet.here, hleaf.2⟩
    · exact ⟨(hisSet.apart hbelow habove).trans hleaf.1, hleaf.2⟩

/-- Only a set adds a leaf, and only its own. -/
theorem leaf_of_update (h : applyUpdate owned flat m u = .ok m') (hu : isDict u.2 = false)
    (hleaf : IsLeafAt m' Q w) :
    IsLeafAt m Q w ∨ (isRemove u.2 = false ∧ parts u.1 = Q) := by
  have hnot : ∀ {d : Dict F}, valueAt m' Q ≠ some (.dict d) := by
    intro d hd
    have hw := hleaf.2
    rw [← Option.some.inj (hd.symm.trans hleaf.1)] at hw
    cases hw
  have hsome : valueAt m' Q ≠ none := by
    rw [hleaf.1]
    exact Option.some_ne_none w
  rcases applyUpdate_cases h with ⟨hremove, -, rfl⟩ | ⟨hset, -, hdone⟩
  · left
    cases hdelete : deleteDotted (parts u.1) m with
    | none =>
      rw [hdelete] at hleaf
      exact hleaf
    | some d =>
      have hisDelete := isDelete_deleteDotted (parts_ne u.1) hdelete
      rw [hdelete, Option.getD_some] at hleaf hnot hsome
      by_cases hbelow : parts u.1 <+: Q
      · exact absurd (valueAt_absent hisDelete.here hbelow) hsome
      · by_cases habove : Q <+: parts u.1
        · have hne : Q ≠ parts u.1 := fun heq => hbelow (heq ▸ List.prefix_refl _)
          rcases hisDelete.above habove hne with hnone | ⟨sub, hsub⟩
          · exact absurd hnone hsome
          · exact absurd hsub hnot
        · exact ⟨(hisDelete.apart hbelow habove).symm.trans hleaf.1, hleaf.2⟩
  · have hisSet := isSet_setDotted (parts_ne u.1) hdone
    by_cases heq : parts u.1 = Q
    · exact .inr ⟨hset, heq⟩
    · left
      by_cases hbelow : parts u.1 <+: Q
      · exact absurd (valueAt_below hu hisSet.here hbelow heq) hsome
      · by_cases habove : Q <+: parts u.1
        · obtain ⟨sub, hsub⟩ := hisSet.above habove (Ne.symm heq)
          exact absurd hsub hnot
        · exact ⟨(hisSet.apart hbelow habove).symm.trans hleaf.1, hleaf.2⟩

/-- What is absent stays so behind an update that sets nothing below it. -/
theorem absent_of_update (h : applyUpdate owned flat m u = .ok m') (hu : isDict u.2 = false)
    (hclear : isRemove u.2 = false → ¬Q <+: parts u.1) (hnone : valueAt m Q = none) :
    valueAt m' Q = none := by
  rcases applyUpdate_cases h with ⟨hremove, -, rfl⟩ | ⟨hset, -, hdone⟩
  · cases hdelete : deleteDotted (parts u.1) m with
    | none => exact hnone
    | some d =>
      have hisDelete := isDelete_deleteDotted (parts_ne u.1) hdelete
      rw [Option.getD_some]
      by_cases hbelow : parts u.1 <+: Q
      · exact valueAt_absent hisDelete.here hbelow
      · by_cases habove : Q <+: parts u.1
        · have hgone := valueAt_absent hnone habove
          rw [(deleteDotted_none (parts_ne u.1)).mpr hgone] at hdelete
          cases hdelete
        · exact (hisDelete.apart hbelow habove).trans hnone
  · have hisSet := isSet_setDotted (parts_ne u.1) hdone
    have habove := hclear hset
    by_cases hbelow : parts u.1 <+: Q
    · have hne : parts u.1 ≠ Q := fun heq => habove (heq ▸ List.prefix_refl _)
      exact valueAt_below hu hisSet.here hbelow hne
    · exact (hisSet.apart hbelow habove).trans hnone

theorem applyUpdates_cons (h : applyUpdates owned flat (u :: us) m = .ok merged) :
    ∃ m', applyUpdate owned flat m u = .ok m' ∧ applyUpdates owned flat us m' = .ok merged := by
  rw [applyUpdates, List.foldlM_cons] at h
  cases hstep : applyUpdate owned flat m u with
  | error e =>
    rw [hstep] at h
    cases h
  | ok m' =>
    rw [hstep] at h
    exact ⟨m', rfl, h⟩

/-- A merge that is not refused may remove what it removes, and write what it writes. -/
theorem allowed_of_applyUpdates (h : applyUpdates owned flat us m = .ok merged) : ∀ u ∈ us,
    (isRemove u.2 = true ∧ isOwnedRemovePath u.1 owned flat = true) ∨
      (isRemove u.2 = false ∧ owned.contains u.1 = true) := by
  induction us generalizing m with
  | nil => exact fun u hu => absurd hu List.not_mem_nil
  | cons u us ih =>
    obtain ⟨m', hstep, hrest⟩ := applyUpdates_cons h
    refine List.forall_mem_cons.mpr ⟨?_, ih hrest⟩
    rcases applyUpdate_cases hstep with ⟨hremove, hallowed, -⟩ | ⟨hset, howned, -⟩
    · exact .inl ⟨hremove, hallowed⟩
    · exact .inr ⟨hset, howned⟩

theorem keeps_leaf (hspares : ∀ u ∈ us, Spares Q w u)
    (h : applyUpdates owned flat us m = .ok merged) (hleaf : IsLeafAt m Q w) :
    IsLeafAt merged Q w := by
  induction us generalizing m with
  | nil =>
    cases h
    exact hleaf
  | cons u us ih =>
    obtain ⟨m', hstep, hrest⟩ := applyUpdates_cons h
    exact ih (fun u hu => hspares u (List.mem_cons_of_mem _ hu)) hrest
      ((hspares u List.mem_cons_self).keeps hstep hleaf)

theorem keeps_absent (hdict : ∀ u ∈ us, isDict u.2 = false)
    (hclear : ∀ u ∈ us, isRemove u.2 = false → ¬Q <+: parts u.1)
    (h : applyUpdates owned flat us m = .ok merged)
    (hnone : valueAt m Q = none) : valueAt merged Q = none := by
  induction us generalizing m with
  | nil =>
    cases h
    exact hnone
  | cons u us ih =>
    obtain ⟨m', hstep, hrest⟩ := applyUpdates_cons h
    exact ih (fun u hu => hdict u (List.mem_cons_of_mem _ hu))
      (fun u hu => hclear u (List.mem_cons_of_mem _ hu)) hrest
      (absent_of_update hstep (hdict u List.mem_cons_self) (hclear u List.mem_cons_self) hnone)

theorem leaf_origin (hdict : ∀ u ∈ us, isDict u.2 = false)
    (h : applyUpdates owned flat us m = .ok merged) (hleaf : IsLeafAt merged Q w) :
    IsLeafAt m Q w ∨ ∃ u ∈ us, isRemove u.2 = false ∧ parts u.1 = Q := by
  induction us generalizing m with
  | nil =>
    cases h
    exact .inl hleaf
  | cons u us ih =>
    obtain ⟨m', hstep, hrest⟩ := applyUpdates_cons h
    rcases ih (fun u hu => hdict u (List.mem_cons_of_mem _ hu)) hrest with hleaf' | ⟨u', hu', hset⟩
    · rcases leaf_of_update hstep (hdict u List.mem_cons_self) hleaf' with hm | hset
      · exact .inl hm
      · exact .inr ⟨u, List.mem_cons_self, hset⟩
    · exact .inr ⟨u', List.mem_cons_of_mem _ hu', hset⟩

theorem sets_stand (hdict : ∀ u ∈ us, isDict u.2 = false)
    (hspares : ∀ u ∈ us, isRemove u.2 = false → ∀ u' ∈ us, Spares (parts u.1) u.2 u')
    (h : applyUpdates owned flat us m = .ok merged) :
    ∀ u ∈ us, isRemove u.2 = false → valueAt merged (parts u.1) = some u.2 := by
  induction us generalizing m with
  | nil => exact fun u hu => absurd hu List.not_mem_nil
  | cons u us ih =>
    obtain ⟨m', hstep, hrest⟩ := applyUpdates_cons h
    refine List.forall_mem_cons.mpr ⟨fun hset => ?_, ?_⟩
    · have hleaf : IsLeafAt m' (parts u.1) u.2 := by
        rcases applyUpdate_cases hstep with ⟨hremove, -, -⟩ | ⟨-, -, hdone⟩
        · rw [hset] at hremove
          cases hremove
        · exact ⟨(isSet_setDotted (parts_ne u.1) hdone).here, hdict u List.mem_cons_self⟩
      have hlater := hspares u List.mem_cons_self hset
      exact (keeps_leaf (fun u' hu' => hlater u' (List.mem_cons_of_mem _ hu')) hrest hleaf).1
    · exact ih (fun u hu => hdict u (List.mem_cons_of_mem _ hu))
        (fun u hu hset u' hu' => hspares u (List.mem_cons_of_mem _ hu) hset u'
          (List.mem_cons_of_mem _ hu')) hrest

theorem removes_stand (hdict : ∀ u ∈ us, isDict u.2 = false)
    (hspares : ∀ u ∈ us, isRemove u.2 = false → ∀ u' ∈ us, Spares (parts u.1) u.2 u')
    (h : applyUpdates owned flat us m = .ok merged) :
    ∀ u ∈ us, isRemove u.2 = true → valueAt merged (parts u.1) = none := by
  induction us generalizing m with
  | nil => exact fun u hu => absurd hu List.not_mem_nil
  | cons u us ih =>
    obtain ⟨m', hstep, hrest⟩ := applyUpdates_cons h
    refine List.forall_mem_cons.mpr ⟨fun hremove => ?_, ?_⟩
    · have hgone : valueAt m' (parts u.1) = none := by
        rcases applyUpdate_cases hstep with ⟨-, -, rfl⟩ | ⟨hset, -, -⟩
        · cases hdelete : deleteDotted (parts u.1) m with
          | none => exact (deleteDotted_none (parts_ne u.1)).mp hdelete
          | some d => exact (isDelete_deleteDotted (parts_ne u.1) hdelete).here
        · rw [hremove] at hset
          cases hset
      refine keeps_absent (fun u hu => hdict u (List.mem_cons_of_mem _ hu)) (fun u' hu' hset =>
        ?_) hrest hgone
      exact (spares_remove hremove).mp (hspares u' (List.mem_cons_of_mem _ hu') hset u
        List.mem_cons_self)
    · exact ih (fun u hu => hdict u (List.mem_cons_of_mem _ hu))
        (fun u hu hset u' hu' => hspares u (List.mem_cons_of_mem _ hu) hset u'
          (List.mem_cons_of_mem _ hu')) hrest

/-- Updates that a dict has already change nothing. -/
theorem applyUpdates_self (hallowed : ∀ u ∈ us,
      (isRemove u.2 = true ∧ isOwnedRemovePath u.1 owned flat = true ∧
      valueAt m (parts u.1) = none) ∨
        (isRemove u.2 = false ∧ owned.contains u.1 = true ∧ valueAt m (parts u.1) = some u.2)) :
    applyUpdates owned flat us m = .ok m := by
  induction us with
  | nil => rfl
  | cons u us ih =>
    have hstep : applyUpdate owned flat m u = .ok m := by
      unfold applyUpdate
      rcases hallowed u List.mem_cons_self with ⟨hremove, hpath, hnone⟩ | ⟨hset, howned, hsome⟩
      · rw [if_pos hremove, if_pos hpath, (deleteDotted_none (parts_ne u.1)).mpr hnone]
        rfl
      · rw [hset, if_neg Bool.false_ne_true, if_pos howned, setDotted_self (parts_ne u.1) hsome]
        rfl
    rw [applyUpdates, List.foldlM_cons, hstep]
    exact ih fun u hu => hallowed u (List.mem_cons_of_mem _ hu)

theorem keyed_setDotted (hv : isDict v = false) (hm : Keyed (.dict m))
    (h : setDotted v P m = .ok m') : Keyed (.dict m') := by
  induction P generalizing m m' with
  | nil =>
    cases h
    exact hm
  | cons key P ih =>
    cases P with
    | nil =>
      cases h
      exact hm.assign (.leaf hv)
    | cons next more =>
      obtain ⟨sub, sub', hset, rfl, hlookup⟩ := setDotted_cons h
      have hsub : Keyed (.dict sub) := by
        rcases hlookup with hlookup | ⟨rfl, -⟩
        · exact hm.of_lookup hlookup
        · exact keyed_nil
      exact hm.assign (ih hsub hset)

theorem keyed_deleteDotted (hm : Keyed (.dict m)) (h : deleteDotted P m = some m') :
    Keyed (.dict m') := by
  induction P generalizing m m' with
  | nil => cases h
  | cons key P ih =>
    cases P with
    | nil =>
      rw [deleteDotted] at h
      split_ifs at h
      cases h
      exact hm.remove
    | cons next more =>
      simp only [deleteDotted] at h
      split at h
      case h_2 => cases h
      case h_1 sub hlookup =>
        obtain ⟨sub', hdelete, rfl⟩ := Option.map_eq_some_iff.mp h
        split_ifs
        · exact hm.remove
        · exact hm.assign (ih (hm.of_lookup hlookup) hdelete)

theorem keyed_applyUpdates (hdict : ∀ u ∈ us, isDict u.2 = false) (hm : Keyed (.dict m))
    (h : applyUpdates owned flat us m = .ok merged) : Keyed (.dict merged) := by
  induction us generalizing m with
  | nil =>
    cases h
    exact hm
  | cons u us ih =>
    obtain ⟨m', hstep, hrest⟩ := applyUpdates_cons h
    refine ih (fun u hu => hdict u (List.mem_cons_of_mem _ hu)) ?_ hrest
    rcases applyUpdate_cases hstep with ⟨-, -, rfl⟩ | ⟨-, -, hdone⟩
    · cases hdelete : deleteDotted (parts u.1) m with
      | none => exact hm
      | some d => exact keyed_deleteDotted hm hdelete
    · exact keyed_setDotted (hdict u List.mem_cons_self) hm hdone

/-- What a merge that returns is to have done: what it sets stands, what it removes is gone, every
leaf that is not owned stands as it was, no other leaf is there, and the same updates again change
nothing. -/
structure Framed (floats : FloatText F) (beyond : Char → Bool) (existing updates : Dict F)
    (owned : List String) (merged : Dict F) : Prop where
  sets : ∀ u ∈ flatten updates, isRemove u.2 = false → valueAt merged (parts u.1) = some u.2
  removes : ∀ u ∈ flatten updates, isRemove u.2 = true → valueAt merged (parts u.1) = none
  keeps : ∀ Q w, IsLeafAt existing Q w → nameOf Q ∉ owned → valueAt merged Q = some w
  adds : ∀ Q w, IsLeafAt merged Q w →
    valueAt existing Q = some w ∨ ∃ u ∈ flatten updates, isRemove u.2 = false ∧ parts u.1 = Q
  again : mergeOwned floats beyond merged updates owned = .ok merged

/-- Updates that stand in the way of none of their own sets and of no leaf that is not owned; and no
name of a set lies, unowned, under a key that is removed. -/
structure Compatible (existing updates : Dict F) (owned : List String) : Prop where
  stands : ∀ u ∈ flatten updates, isRemove u.2 = false →
    ∀ u' ∈ flatten updates, Spares (parts u.1) u.2 u'
  kept : ∀ Q w, IsLeafAt existing Q w → nameOf Q ∉ owned → ∀ u ∈ flatten updates, Spares Q w u
  names : ∀ r ∈ flatten updates, isRemove r.2 = true → ∀ u ∈ flatten updates, isRemove u.2 = false →
    isAtOrBelow r.1 (nameOf (parts u.1)) = true → nameOf (parts u.1) ∈ owned

/-- Where sets stand and removed keys are gone, no update stands in the way of a leaf that stands
too. -/
theorem spares_of_stands (hdict : ∀ u ∈ us, isDict u.2 = false)
    (hsets : ∀ u ∈ us, isRemove u.2 = false → valueAt merged (parts u.1) = some u.2)
    (hremoves : ∀ u ∈ us, isRemove u.2 = true → valueAt merged (parts u.1) = none)
    (hleaf : IsLeafAt merged Q w) : ∀ u ∈ us, Spares Q w u := by
  intro u hu
  have hsome : valueAt merged Q ≠ none := by
    rw [hleaf.1]
    exact Option.some_ne_none w
  cases hremove : isRemove u.2 with
  | true =>
    rw [spares_remove hremove]
    exact fun hbelow => hsome (valueAt_absent (hremoves u hu hremove) hbelow)
  | false =>
    have hset := hsets u hu hremove
    rw [spares_set hremove]
    by_cases heq : parts u.1 = Q
    · rw [heq] at hset
      exact .inl ⟨heq, Option.some.inj (hset.symm.trans hleaf.1)⟩
    · refine .inr ⟨fun hbelow => hsome (valueAt_below (hdict u hu) hset hbelow heq),
        fun habove => ?_⟩
      rw [valueAt_below hleaf.2 hleaf.1 habove (Ne.symm heq)] at hset
      cases hset

theorem mergeOwned_ok (h : mergeOwned floats beyond existing updates owned = .ok merged) :
    applyUpdates owned (flatten existing) (flatten updates) existing = .ok merged ∧
      validateEmittable "" merged = .ok () ∧ checkRoundTrip floats beyond merged = .ok () := by
  unfold mergeOwned at h
  cases happly : applyUpdates owned (flatten existing) (flatten updates) existing with
  | error e =>
    rw [happly] at h
    cases h
  | ok m =>
    rw [happly] at h
    cases hvalid : validateEmittable "" m with
    | error e =>
      simp only [Except.bind, hvalid] at h
      cases h
    | ok _ =>
      cases hcheck : checkRoundTrip floats beyond m with
      | error e =>
        simp only [Except.bind, hvalid, hcheck, Except.map] at h
        cases h
      | ok _ =>
        simp only [Except.bind, hvalid, hcheck, Except.map] at h
        cases h
        exact ⟨rfl, hvalid, hcheck⟩

theorem isOwnedRemovePath_iff {dotted : String} : isOwnedRemovePath dotted owned flat = true ↔
    (owned.contains dotted || owned.any fun key => (dotted ++ ".").toList.isPrefixOf key.toList) =
      true ∧ ∀ k ∈ flat.map Prod.fst, isAtOrBelow dotted k = true → k ∈ owned := by
  rw [isOwnedRemovePath, Bool.and_eq_true, List.all_eq_true]
  refine and_congr_right fun _ => forall₂_congr fun k _ => ?_
  rw [Bool.or_eq_true, Bool.not_eq_true', List.contains_iff_mem]
  cases isAtOrBelow dotted k <;> simp

/-- A merge that returns keeps its frame exactly where the updates are compatible with the dict. -/
theorem framed_iff (hkeyed : Keyed (.dict existing))
    (h : mergeOwned floats beyond existing updates owned = .ok merged) :
    Framed floats beyond existing updates owned merged ↔ Compatible existing updates owned := by
  obtain ⟨happly, hvalid, hcheck⟩ := mergeOwned_ok h
  have hdict := isDict_flatten updates
  have hmerged := keyed_applyUpdates hdict hkeyed happly
  have hallowed := allowed_of_applyUpdates happly
  constructor
  · intro hframe
    refine ⟨fun u hu hset => ?_, fun Q w hleaf hunowned => ?_, ?_⟩
    · exact spares_of_stands hdict hframe.sets hframe.removes ⟨hframe.sets u hu hset, hdict u hu⟩
    · exact spares_of_stands hdict hframe.sets hframe.removes ⟨hframe.keeps Q w hleaf hunowned,
        hleaf.2⟩
    · intro r hr hremove u hu hset hbelow
      obtain ⟨hagain, -, -⟩ := mergeOwned_ok hframe.again
      rcases allowed_of_applyUpdates hagain r hr with ⟨-, hpath⟩ | ⟨hnot, -⟩
      · refine (isOwnedRemovePath_iff.mp hpath).2 _ ?_ hbelow
        exact (mem_keys_flatten hmerged).mpr ⟨parts u.1, u.2,
          ⟨hframe.sets u hu hset, hdict u hu⟩, rfl⟩
      · rw [hremove] at hnot
        cases hnot
  · intro hcompatible
    have hsets := sets_stand hdict hcompatible.stands happly
    have hremoves := removes_stand hdict hcompatible.stands happly
    have hadds : ∀ Q w, IsLeafAt merged Q w →
        IsLeafAt existing Q w ∨ ∃ u ∈ flatten updates, isRemove u.2 = false ∧ parts u.1 = Q :=
      fun Q w hleaf => leaf_origin hdict happly hleaf
    refine ⟨hsets, hremoves, fun Q w hleaf hunowned => ?_, fun Q w hleaf => ?_, ?_⟩
    · exact (keeps_leaf (hcompatible.kept Q w hleaf hunowned) happly hleaf).1
    · exact (hadds Q w hleaf).imp_left And.left
    · have hagain : applyUpdates owned (flatten merged) (flatten updates) merged = .ok merged := by
        refine applyUpdates_self fun u hu => ?_
        rcases hallowed u hu with ⟨hremove, hpath⟩ | ⟨hset, howned⟩
        · obtain ⟨howns, hnames⟩ := isOwnedRemovePath_iff.mp hpath
          refine .inl ⟨hremove, isOwnedRemovePath_iff.mpr ⟨howns, fun k hk hbelow => ?_⟩,
            hremoves u hu hremove⟩
          obtain ⟨Q, w, hleaf, rfl⟩ := (mem_keys_flatten hmerged).mp hk
          rcases hadds Q w hleaf with hold | ⟨u', hu', hset', rfl⟩
          · exact hnames _ ((mem_keys_flatten hkeyed).mpr ⟨Q, w, hold, rfl⟩) hbelow
          · exact hcompatible.names u hu hremove u' hu' hset' hbelow
        · exact .inr ⟨hset, howned, hsets u hu hset⟩
      rw [mergeOwned, hagain]
      simp only [Except.bind, hvalid, hcheck, Except.map]

/-- The leaves that a merge leaves: those of the dict that every update spares, and those that are
set. -/
def Stays (existing updates : Dict F) (Q : List String) (w : Value F) : Prop :=
  (IsLeafAt existing Q w ∧ ∀ u ∈ flatten updates, Spares Q w u) ∨
    ∃ u ∈ flatten updates, isRemove u.2 = false ∧ parts u.1 = Q ∧ u.2 = w

/-- No leaf goes by the name of a key that is set and has another value, and none by a name at or
below one that is removed: also where a key holds dots itself. -/
structure NamedOnce (updates : Dict F) (leaf : List String → Value F → Prop) : Prop where
  sets : ∀ u ∈ flatten updates, isRemove u.2 = false → ∀ Q w, leaf Q w → nameOf Q = u.1 → w = u.2
  removes : ∀ r ∈ flatten updates, isRemove r.2 = true → ∀ Q w, leaf Q w →
    isAtOrBelow r.1 (nameOf Q) = false

theorem isLeafAt_merged_iff (h : mergeOwned floats beyond existing updates owned = .ok merged)
    (hframe : Framed floats beyond existing updates owned merged) :
    IsLeafAt merged Q w ↔ Stays existing updates Q w := by
  obtain ⟨happly, -, -⟩ := mergeOwned_ok h
  have hdict := isDict_flatten updates
  constructor
  · intro hleaf
    rcases leaf_origin hdict happly hleaf with hold | ⟨u, hu, hset, rfl⟩
    · exact .inl ⟨hold, spares_of_stands hdict hframe.sets hframe.removes hleaf⟩
    · exact .inr ⟨u, hu, hset, rfl, Option.some.inj ((hframe.sets u hu hset).symm.trans hleaf.1)⟩
  · rintro (⟨hold, hspares⟩ | ⟨u, hu, hset, rfl, rfl⟩)
    · exact keeps_leaf hspares happly hold
    · exact ⟨hframe.sets u hu hset, hdict u hu⟩

theorem namedOnce_iff (h : mergeOwned floats beyond existing updates owned = .ok merged)
    (hframe : Framed floats beyond existing updates owned merged) :
    NamedOnce updates (IsLeafAt merged) ↔ NamedOnce updates (Stays existing updates) := by
  have hleaves : IsLeafAt merged = Stays existing updates :=
    funext₂ fun _ _ => propext (isLeafAt_merged_iff h hframe)
  rw [hleaves]

/-- What is written parses back exactly where bare keys are ASCII and integers short, and a merge
that returns keeps its frame exactly where its updates are compatible with the dict; its names stay
apart where those of the leaves do. -/
theorem writer_and_merge_laws (floats : FloatText F) (beyond : Char → Bool) :
    (∀ d : Dict F, Writable floats (.dict d) →
        (RoundTrips floats beyond d ↔ ThroughoutDict (KeySafe beyond) Fits d)) ∧
      ∀ (existing updates : Dict F) (owned : List String) (merged : Dict F),
        Keyed (.dict existing) → mergeOwned floats beyond existing updates owned = .ok merged →
          (Framed floats beyond existing updates owned merged ↔ Compatible existing updates owned) ∧
            (Framed floats beyond existing updates owned merged ∧
              NamedOnce updates (IsLeafAt merged) ↔ Compatible existing updates owned ∧
                NamedOnce updates (Stays existing updates)) := by
  refine ⟨fun d hwritable => roundTrips_iff hwritable,
    fun existing updates owned merged hkeyed h => ?_⟩
  have hframed := framed_iff hkeyed h
  refine ⟨hframed, ?_⟩
  constructor
  · rintro ⟨hframe, hnamed⟩
    exact ⟨hframed.mp hframe, (namedOnce_iff h hframe).mp hnamed⟩
  · rintro ⟨hcompatible, hnamed⟩
    have hframe := hframed.mpr hcompatible
    exact ⟨hframe, (namedOnce_iff h hframe).mpr hnamed⟩

/-- 1.5 and inf. -/
def sampleFloats : FloatText Bool where
  kind x := if x then .finite else .posInf
  repr x := if x then ['1', '.', '5'] else ['i', 'n', 'f']
  ofText text := text = ['1', '.', '5']
  eq x y := x == y
  repr_finite {x} h := by
    cases x with
    | false => cases h
    | true =>
      have hdigits : ∀ d : Char, d.isDigit = true → ∀ c ∈ [d], c.isDigit = true :=
        fun d hd => List.forall_mem_singleton.mpr hd
      exact ⟨⟨false, ['1'], ['5'], none, List.cons_ne_nil _ _, hdigits '1' (by decide),
        fun h => (by cases h), hdigits '5' (by decide), fun e he => (by cases he),
          .inl (List.cons_ne_nil _ _)⟩, rfl⟩
  repr_posInf {x} h := by
    cases x with
    | false => rfl
    | true => cases h
  repr_negInf {x} h := by cases x <;> cases h
  ofText_repr {x} _ := by cases x <;> decide
  eq_self {x} _ := by cases x <;> rfl

def accented (c : Char) : Bool := c = 'é'

def sampleDict : Dict Bool := [("a", .dict [("b", .float true)]), ("d", .str "é"), ("c", .dict [])]
def sampleUpdates : Dict Bool := [("a", .dict [("b", .int 2)])]
def sampleMerged : Dict Bool := [("a", .dict [("b", .int 2)]), ("d", .str "é"), ("c", .dict [])]

theorem sampleDict_writable : Writable sampleFloats (.dict sampleDict) := by
  have hfloat : IsLeaf sampleFloats (.float true) := fun h => (by cases h)
  refine .dict (by decide) (List.forall_mem_cons.mpr ⟨?_,
    List.forall_mem_cons.mpr ⟨.leaf trivial, ?_⟩⟩)
  · exact .dict (by decide) (List.forall_mem_singleton.mpr (.leaf hfloat))
  · exact List.forall_mem_singleton.mpr (.dict (by decide) fun _ h => absurd h List.not_mem_nil)

theorem sampleDict_keyed : Keyed (.dict sampleDict) := by
  refine .dict (by decide) (List.forall_mem_cons.mpr ⟨?_, List.forall_mem_cons.mpr ⟨.leaf rfl, ?_⟩⟩)
  · exact .dict (by decide) (List.forall_mem_singleton.mpr (.leaf rfl))
  · exact List.forall_mem_singleton.mpr keyed_nil

theorem sampleDict_safe : ThroughoutDict (KeySafe accented) Fits sampleDict := by
  have hsafe : ∀ key : String, key.toList.all (fun c => decide (c.toNat < 0x80)) = true →
      KeySafe accented key :=
    fun key h _ c hc => of_decide_eq_true (List.all_eq_true.mp h c hc)
  exact ⟨hsafe "a" (by decide), ⟨hsafe "b" (by decide), trivial, trivial⟩,
    hsafe "d" (by decide), trivial, hsafe "c" (by decide), trivial, trivial⟩

theorem flatten_sampleUpdates : flatten sampleUpdates = [("a.b", .int 2)] := rfl

/-- The only update sets the leaf that it owns. -/
theorem sampleUpdates_compatible : Compatible sampleDict sampleUpdates ["a.b"] := by
  have hparts : parts "a.b" = ["a", "b"] := by decide
  have hspares : ∀ {Q : List String} {w : Value Bool},
      (["a", "b"] = Q ∧ .int 2 = w) ∨ (¬["a", "b"] <+: Q ∧ ¬Q <+: ["a", "b"]) →
        ∀ u ∈ flatten sampleUpdates, Spares Q w u := by
    intro Q w h u hu
    rw [flatten_sampleUpdates, List.mem_singleton] at hu
    subst hu
    rw [spares_set rfl, hparts]
    exact h
  refine ⟨fun u hu _ => ?_, fun Q w hleaf hunowned =>
    hspares (.inr ⟨fun hbelow => ?_, fun habove => ?_⟩), fun r hr hremove => ?_⟩
  · rw [flatten_sampleUpdates, List.mem_singleton] at hu
    subst hu
    exact hspares (.inl ⟨hparts.symm, rfl⟩)
  · have hstands : valueAt sampleDict ["a", "b"] = some (.float true) := rfl
    by_cases heq : ["a", "b"] = Q
    · exact hunowned (heq ▸ List.mem_singleton_self _)
    · have hsome := hleaf.1
      rw [valueAt_below rfl hstands hbelow heq] at hsome
      cases hsome
  · have hshort : Q = [] ∨ Q = ["a"] ∨ Q = ["a", "b"] := by
      simpa using (List.mem_inits Q ["a", "b"]).mpr habove
    rcases hshort with rfl | rfl | rfl
    · cases hleaf.1
      cases hleaf.2
    · cases hleaf.1
      cases hleaf.2
    · exact hunowned (List.mem_singleton_self _)
  · rw [flatten_sampleUpdates, List.mem_singleton] at hr
    subst hr
    cases hremove

theorem writer_and_merge_laws_sample : RoundTrips sampleFloats accented sampleDict ∧
    Framed sampleFloats accented sampleDict sampleUpdates ["a.b"] sampleMerged := by
  have hmerge : mergeOwned sampleFloats accented sampleDict sampleUpdates ["a.b"] =
    .ok sampleMerged := by rfl
  obtain ⟨hwriter, hmerges⟩ := writer_and_merge_laws sampleFloats accented
  exact ⟨(hwriter sampleDict sampleDict_writable).mpr sampleDict_safe,
    (hmerges sampleDict sampleUpdates ["a.b"] sampleMerged sampleDict_keyed hmerge).1.mpr
      sampleUpdates_compatible⟩

/-- An accented letter is written bare and not read, and a table is lost where its own name is
set. -/
theorem accented_key_and_table_lost :
    (Writable sampleFloats (.dict [("é", .int 1)]) ∧
      ¬RoundTrips sampleFloats accented [("é", .int 1)]) ∧
        mergeOwned sampleFloats accented [("a", .dict [("b", .int 1)])] [("a", .int 2)] ["a"] =
        .ok [("a", .int 2)] ∧
        ¬Framed sampleFloats accented [("a", .dict [("b", .int 1)])] [("a", .int 2)] ["a"]
          [("a", .int 2)] := by
  refine ⟨⟨.dict (by decide) (List.forall_mem_singleton.mpr (.leaf trivial)), ?_⟩, by rfl,
    fun hframe => ?_⟩
  · rintro ⟨text, data, hdumps, hloads, -⟩
    have hrefused : ((dumps sampleFloats accented [("é", .int 1)]).bind
      (loads sampleFloats)).isSome = false := by
      decide
    rw [hdumps, Option.bind_some, hloads] at hrefused
    cases hrefused
  · have hkept := hframe.keeps ["a", "b"] (.int 1) ⟨rfl, rfl⟩ (by decide)
    cases hkept

end Merge

end Kaine.TomlWriter
