import Mathlib.Data.List.Nodup

/-! Association lists as dicts with string keys, in insertion order. -/
namespace Assoc

variable {V : Type*} {d pairs : List (String × V)} {key other : String} {value : V}

/-- `d[key] = value`: a key that is there keeps its place. -/
def assign : List (String × V) → String → V → List (String × V)
  | [], key, value => [(key, value)]
  | (k, v) :: rest, key, value =>
    if k = key then (k, value) :: rest else (k, v) :: assign rest key value

/-- `d.update(pairs)`. -/
def assignAll (d pairs : List (String × V)) : List (String × V) :=
  pairs.foldl (fun acc kv => assign acc kv.1 kv.2) d

/-- `d.pop(key, None)`, without what it returns. -/
def remove (d : List (String × V)) (key : String) : List (String × V) :=
  d.filter fun kv => kv.1 ≠ key

theorem lookup_cons_of_ne (h : key ≠ other) (value : V) (rest : List (String × V)) :
    ((other, value) :: rest).lookup key = rest.lookup key := by
  have hb : (key == other) = false := by simpa using h
  rw [List.lookup_cons, hb]

@[simp] theorem lookup_assign_self (d : List (String × V)) (key : String) (value : V) :
    (assign d key value).lookup key = some value := by
  induction d with
  | nil => simp [assign]
  | cons kv rest ih =>
    obtain ⟨k, v⟩ := kv
    by_cases h : k = key
    · simp [assign, h]
    · simp [assign, h, lookup_cons_of_ne (Ne.symm h), ih]

theorem lookup_assign_of_ne (h : other ≠ key) :
    (assign d key value).lookup other = d.lookup other := by
  induction d with
  | nil => simp [assign, lookup_cons_of_ne h]
  | cons kv rest ih =>
    obtain ⟨k, v⟩ := kv
    by_cases hk : k = key
    · subst k
      simp [assign, lookup_cons_of_ne h]
    · simp [assign, hk, List.lookup_cons, ih]

theorem mem_remove {kv : String × V} : kv ∈ remove d key ↔ kv ∈ d ∧ kv.1 ≠ key := by
  simp [remove]

@[simp] theorem lookup_remove_self (d : List (String × V)) (key : String) :
    (remove d key).lookup key = none := by
  induction d with
  | nil => rfl
  | cons kv rest ih =>
    by_cases h : kv.1 = key
    · rw [remove, List.filter_cons_of_neg (by simpa using h)]
      exact ih
    · rw [remove, List.filter_cons_of_pos (by simpa using h), lookup_cons_of_ne (Ne.symm h)]
      exact ih

theorem lookup_remove_of_ne (h : other ≠ key) : (remove d key).lookup other = d.lookup other := by
  induction d with
  | nil => rfl
  | cons kv rest ih =>
    by_cases hk : kv.1 = key
    · rw [remove, List.filter_cons_of_neg (by simpa using hk),
        lookup_cons_of_ne (by rw [hk]; exact h)]
      exact ih
    · rw [remove, List.filter_cons_of_pos (by simpa using hk), List.lookup_cons, List.lookup_cons]
      split
      · rfl
      · exact ih

theorem nodup_remove (h : (d.map Prod.fst).Nodup) : ((remove d key).map Prod.fst).Nodup :=
  h.sublist (List.filter_sublist.map _)

theorem mem_of_mem_assign {kv : String × V} (h : kv ∈ assign d key value) :
    kv = (key, value) ∨ kv ∈ d := by
  induction d with
  | nil => exact .inl (List.mem_singleton.mp h)
  | cons kv' rest ih =>
    obtain ⟨k, v⟩ := kv'
    rw [assign] at h
    split_ifs at h with hk
    · rcases List.mem_cons.mp h with rfl | hmem
      · exact .inl (by rw [hk])
      · exact .inr (List.mem_cons_of_mem _ hmem)
    · rcases List.mem_cons.mp h with rfl | hmem
      · exact .inr List.mem_cons_self
      · exact (ih hmem).imp_right (List.mem_cons_of_mem _)

theorem mem_assign (hnodup : (d.map Prod.fst).Nodup) {kv : String × V} :
    kv ∈ assign d key value ↔ kv = (key, value) ∨ (kv ∈ d ∧ kv.1 ≠ key) := by
  induction d with
  | nil => simp [assign]
  | cons kv' rest ih =>
    obtain ⟨k, v⟩ := kv'
    obtain ⟨hk, hrest⟩ := List.nodup_cons.mp hnodup
    rw [assign]
    split_ifs with he
    · subst he
      have hother : ∀ kv ∈ rest, kv.1 ≠ k := fun kv hkv he => hk (List.mem_map.mpr ⟨kv, hkv, he⟩)
      rw [List.mem_cons, List.mem_cons]
      constructor
      · rintro (rfl | hmem)
        · exact .inl rfl
        · exact .inr ⟨.inr hmem, hother kv hmem⟩
      · rintro (rfl | ⟨rfl | hmem, hne⟩)
        · exact .inl rfl
        · exact absurd rfl hne
        · exact .inr hmem
    · rw [List.mem_cons, List.mem_cons, ih hrest]
      constructor
      · rintro (rfl | rfl | ⟨hmem, hne⟩)
        · exact .inr ⟨.inl rfl, he⟩
        · exact .inl rfl
        · exact .inr ⟨.inr hmem, hne⟩
      · rintro (rfl | ⟨rfl | hmem, hne⟩)
        · exact .inr (.inl rfl)
        · exact .inl rfl
        · exact .inr (.inr ⟨hmem, hne⟩)

/-- The last of two assignments to a key stands. -/
theorem assign_assign (d : List (String × V)) (key : String) (value value' : V) :
    assign (assign d key value) key value' = assign d key value' := by
  induction d with
  | nil => simp [assign]
  | cons kv rest ih =>
    obtain ⟨k, v⟩ := kv
    by_cases h : k = key
    · simp [assign, h]
    · simp [assign, h, ih]

/-- Assigning to a key that is there keeps the keys. -/
theorem assign_keys (h : key ∈ d.map Prod.fst) (value : V) :
    (assign d key value).map Prod.fst = d.map Prod.fst := by
  induction d with
  | nil => simp at h
  | cons kv rest ih =>
    obtain ⟨k, v⟩ := kv
    by_cases hk : k = key
    · simp [assign, hk]
    · have hrest : key ∈ rest.map Prod.fst := by
        rcases List.mem_cons.mp h with he | hmem
        · exact (hk he.symm).elim
        · exact hmem
      simp [assign, hk, ih hrest]

theorem mem_of_lookup_eq_some (h : d.lookup key = some value) : (key, value) ∈ d := by
  obtain ⟨front, back, hsplit, -⟩ := List.lookup_eq_some_iff.mp h
  simp [hsplit]

/-- Writing back the value a key already has changes nothing. -/
theorem assign_lookup (h : d.lookup key = some value) : assign d key value = d := by
  induction d with
  | nil => simp at h
  | cons kv rest ih =>
    obtain ⟨k, v⟩ := kv
    by_cases hk : k = key
    · subst k
      simp only [List.lookup_cons, beq_self_eq_true] at h
      simp [assign, Option.some.inj h]
    · rw [lookup_cons_of_ne (Ne.symm hk)] at h
      simp [assign, hk, ih h]

/-- A pair under a key that occurs once is the one that is found. -/
theorem lookup_of_mem (hnodup : (pairs.map Prod.fst).Nodup) (h : (key, value) ∈ pairs) :
    pairs.lookup key = some value := by
  induction pairs with
  | nil => simp at h
  | cons kv rest ih =>
    obtain ⟨k, v⟩ := kv
    obtain ⟨hk, hrest⟩ := List.nodup_cons.mp hnodup
    rcases List.mem_cons.mp h with he | hmem
    · cases he
      simp
    · have hne : key ≠ k := by
        rintro rfl
        exact hk (List.mem_map.mpr ⟨_, hmem, rfl⟩)
      rw [lookup_cons_of_ne hne]
      exact ih hrest hmem

theorem lookup_of_not_mem (h : key ∉ pairs.map Prod.fst) : pairs.lookup key = none := by
  rw [List.lookup_eq_none_iff]
  intro kv hkv
  have hne : key ≠ kv.1 := by
    rintro rfl
    exact h (List.mem_map_of_mem hkv)
  simpa using hne

theorem not_mem_of_lookup_eq_none (h : d.lookup key = none) : key ∉ d.map Prod.fst := by
  intro hmem
  obtain ⟨kv, hkv, rfl⟩ := List.mem_map.mp hmem
  have hne := List.lookup_eq_none_iff.mp h kv hkv
  simp at hne

/-- Under distinct keys the order does not matter to what is found. -/
theorem lookup_eq_of_perm (hp : d.Perm pairs) (hnodup : (d.map Prod.fst).Nodup) (key : String) :
    d.lookup key = pairs.lookup key := by
  have hnodup' : (pairs.map Prod.fst).Nodup := (hp.map Prod.fst).nodup_iff.mp hnodup
  cases h : d.lookup key with
  | none =>
    have hmem : key ∉ d.map Prod.fst := not_mem_of_lookup_eq_none h
    rw [lookup_of_not_mem]
    rwa [← (hp.map Prod.fst).mem_iff]
  | some value =>
    exact (lookup_of_mem hnodup' (hp.mem_iff.mp (mem_of_lookup_eq_some h))).symm

/-- A table that keeps at most one pair of each member, under the member's own key. -/
theorem lookup_filterMap {A : Type*} {f : A → Option (String × V)} {name : A → String} {l : List A}
    {a : A} (hf : ∀ a kv, f a = some kv → kv.1 = name a) (hnodup : (l.map name).Nodup)
    (ha : a ∈ l) : (l.filterMap f).lookup (name a) = (f a).map Prod.snd := by
  induction l with
  | nil => cases ha
  | cons b l ih =>
    obtain ⟨hb, hl⟩ := List.nodup_cons.mp hnodup
    rcases List.mem_cons.mp ha with rfl | hmem
    · cases hfa : f a with
      | none =>
        have hnot : name a ∉ (l.filterMap f).map Prod.fst := by
          intro hk
          obtain ⟨kv, hkv, hname⟩ := List.mem_map.mp hk
          obtain ⟨c, hc, hfc⟩ := List.mem_filterMap.mp hkv
          exact hb (List.mem_map.mpr ⟨c, hc, by rw [← hf c kv hfc, hname]⟩)
        simp [hfa, lookup_of_not_mem hnot]
      | some kv =>
        obtain ⟨k, v⟩ := kv
        have hk : k = name a := hf a (k, v) hfa
        simp [hfa, hk]
    · have hne : name a ≠ name b := by
        intro he
        exact hb (he ▸ List.mem_map_of_mem hmem)
      cases hfb : f b with
      | none => simpa [hfb] using ih hl hmem
      | some kv =>
        obtain ⟨k, v⟩ := kv
        have hk : k = name b := hf b (k, v) hfb
        rw [List.filterMap_cons_some hfb, hk, lookup_cons_of_ne hne]
        exact ih hl hmem

/-- In a table of named values, each under its name, a look-up is a search. -/
theorem find?_map_snd {name : V → String} (hname : ∀ kv ∈ d, name kv.2 = kv.1) (key : String) :
    (d.map Prod.snd).find? (fun v => name v = key) = d.lookup key := by
  induction d with
  | nil => rfl
  | cons kv rest ih =>
    obtain ⟨k, v⟩ := kv
    have hk : name v = k := hname (k, v) List.mem_cons_self
    have hrest := ih fun kv hkv => hname kv (List.mem_cons_of_mem _ hkv)
    by_cases he : key = k
    · simp [hk, he]
    · rw [lookup_cons_of_ne he, List.map_cons,
        List.find?_cons_of_neg (by simpa [hk] using Ne.symm he), hrest]

/-- What is found under a key is the first of its pairs. -/
theorem lookup_eq_head_filter (d : List (String × V)) (key : String) :
    d.lookup key = ((d.filter fun kv => kv.1 = key).map Prod.snd).head? := by
  induction d with
  | nil => rfl
  | cons kv rest ih =>
    obtain ⟨k, v⟩ := kv
    by_cases h : key = k
    · simp [h]
    · rw [lookup_cons_of_ne h, ih]
      simp [Ne.symm h]

/-- A table made from one with distinct keys, key by key, holds at most one pair under each. -/
theorem filter_filterMap {B : Type*} {f : String × V → Option (String × B)}
    (hf : ∀ kv kb, f kv = some kb → kb.1 = kv.1) (hnodup : (pairs.map Prod.fst).Nodup)
    (key : String) :
    (pairs.filterMap f).filter (fun kb => kb.1 = key) =
      ((pairs.lookup key).bind fun value => f (key, value)).toList := by
  induction pairs with
  | nil => simp
  | cons kv rest ih =>
    obtain ⟨k, v⟩ := kv
    obtain ⟨hk, hrest⟩ := List.nodup_cons.mp hnodup
    have hih := ih hrest
    by_cases he : key = k
    · subst he
      rw [lookup_of_not_mem hk] at hih
      cases hfk : f (key, v) with
      | none => simpa [hfk] using hih
      | some kb =>
        have hkey : kb.1 = key := hf (key, v) kb hfk
        simpa [hfk, hkey] using hih
    · rw [lookup_cons_of_ne he]
      cases hfk : f (k, v) with
      | none => simpa [hfk] using hih
      | some kb =>
        have hkey : kb.1 ≠ key := by
          rw [hf (k, v) kb hfk]
          exact Ne.symm he
        simpa [hfk, hkey] using hih

theorem lookup_assignAll (key : String) (hnodup : (pairs.map Prod.fst).Nodup) :
    (assignAll d pairs).lookup key = (pairs.lookup key).or (d.lookup key) := by
  induction pairs generalizing d with
  | nil => simp [assignAll]
  | cons kv rest ih =>
    obtain ⟨k, v⟩ := kv
    obtain ⟨hk, hrest⟩ := List.nodup_cons.mp hnodup
    have hih := ih (d := assign d k v) hrest
    rw [assignAll, List.foldl_cons]
    refine hih.trans ?_
    by_cases he : key = k
    · subst he
      simp [lookup_of_not_mem hk]
    · simp [lookup_cons_of_ne he, lookup_assign_of_ne he]

theorem assign_append (h : key ∉ d.map Prod.fst) (rest : List (String × V)) :
    assign (d ++ rest) key value = d ++ assign rest key value := by
  induction d with
  | nil => rfl
  | cons kv d ih =>
    obtain ⟨k, v⟩ := kv
    have hk : k ≠ key := by
      rintro rfl
      exact h (by simp)
    have hd : key ∉ d.map Prod.fst := fun hmem => h (by simp [hmem])
    simp [assign, hk, ih hd]

/-- A new key goes to the end. -/
theorem assign_of_lookup_eq_none (h : d.lookup key = none) :
    assign d key value = d ++ [(key, value)] := by
  simpa [assign] using assign_append (not_mem_of_lookup_eq_none h) []

/-- Distinct keys stay distinct. -/
theorem nodup_assign (h : (d.map Prod.fst).Nodup) : ((assign d key value).map Prod.fst).Nodup := by
  by_cases hkey : key ∈ d.map Prod.fst
  · rw [assign_keys hkey]
    exact h
  · rw [assign_of_lookup_eq_none (lookup_of_not_mem hkey), List.map_append]
    exact List.nodup_append_comm.mp (List.nodup_cons.mpr ⟨hkey, h⟩)

/-- New pairs under distinct keys replace a table that holds the first of these keys, in order. -/
theorem assignAll_append {old : List (String × V)}
    (hkeys : old.map Prod.fst <+: pairs.map Prod.fst)
    (hnodup : ((d ++ pairs).map Prod.fst).Nodup) :
    assignAll (d ++ old) pairs = d ++ pairs := by
  induction pairs generalizing d old with
  | nil =>
    obtain rfl : old = [] := by simpa using hkeys
    rfl
  | cons kv pairs ih =>
    obtain ⟨key, value⟩ := kv
    have hnew : key ∉ d.map Prod.fst := by
      intro hmem
      rw [List.map_append, List.map_cons] at hnodup
      exact List.disjoint_of_nodup_append hnodup hmem List.mem_cons_self
    have hnodup' : (((d ++ [(key, value)]) ++ pairs).map Prod.fst).Nodup := by
      simpa using hnodup
    have hassign : ∃ rest : List (String × V), rest.map Prod.fst <+: pairs.map Prod.fst ∧
        assign (d ++ old) key value = (d ++ [(key, value)]) ++ rest := by
      cases old with
      | nil => exact ⟨[], by simp, by simpa [assign] using assign_append hnew []⟩
      | cons kv' old =>
        obtain ⟨key', value'⟩ := kv'
        rw [List.map_cons, List.map_cons, List.cons_prefix_cons] at hkeys
        obtain ⟨hkey, hrest⟩ := hkeys
        have hkey : key' = key := hkey
        refine ⟨old, hrest, ?_⟩
        rw [assign_append hnew]
        simp [assign, hkey]
    obtain ⟨rest, hrest, hassign⟩ := hassign
    have hih := ih hrest hnodup'
    rw [assignAll, List.foldl_cons]
    simp only [hassign]
    simpa [assignAll] using hih

theorem assignAll_same_keys {old : List (String × V)}
    (hkeys : old.map Prod.fst = pairs.map Prod.fst) (hnodup : (pairs.map Prod.fst).Nodup) :
    assignAll old pairs = pairs := by
  have hfront : old.map Prod.fst <+: pairs.map Prod.fst :=
    hkeys ▸ List.prefix_rfl
  exact assignAll_append (d := []) hfront hnodup

/-- A dict built from pairs with distinct keys holds just these pairs. -/
theorem assignAll_nil (hnodup : (pairs.map Prod.fst).Nodup) : assignAll [] pairs = pairs := by
  have hfront : ([] : List (String × V)).map Prod.fst <+: pairs.map Prod.fst := List.nil_prefix
  exact assignAll_append (d := []) hfront hnodup

/-- What each step of a loop that can fail keeps, the loop keeps. -/
theorem foldlM_keeps {S E : Type} {step : S → E → Option S} {P : S → Prop} {es : List E}
    (hstep : ∀ s e s', e ∈ es → step s e = some s' → P s → P s') {s s' : S} (h : es.foldlM step s =
      some s') (hs : P s) :
    P s' := by
  induction es generalizing s with
  | nil =>
    cases h
    exact hs
  | cons e es ih =>
    rw [List.foldlM_cons] at h
    obtain ⟨next, hnext, h⟩ := Option.bind_eq_some_iff.mp h
    have hmem : e ∈ e :: es := List.mem_cons_self
    exact ih (fun s e s' he => hstep s e s' (List.mem_cons_of_mem _ he)) h
      (hstep s e next hmem hnext hs)

/-- A loop that fails for no element has a result for each. -/
theorem exists_mapM {A B : Type*} {f : A → Option B} {P : A → B → Prop} {l : List A}
    (h : ∀ a ∈ l, ∃ b, f a = some b ∧ P a b) : ∃ bs, l.mapM f = some bs ∧ List.Forall₂ P l bs := by
  induction l with
  | nil => exact ⟨[], rfl, .nil⟩
  | cons a l ih =>
    obtain ⟨b, hb, hP⟩ := h a List.mem_cons_self
    obtain ⟨bs, hbs, hall⟩ := ih fun c hc => h c (List.mem_cons_of_mem _ hc)
    exact ⟨b :: bs, by simp [List.mapM_cons, hb, hbs], .cons hP hall⟩

theorem forall₂_of_mapM {A B : Type*} {f : A → Option B} {l : List A} {bs : List B}
    (h : l.mapM f = some bs) : List.Forall₂ (fun a b => f a = some b) l bs := by
  induction l generalizing bs with
  | nil =>
    cases h
    exact .nil
  | cons a l ih =>
    rw [List.mapM_cons] at h
    obtain ⟨b, hb, h⟩ := Option.bind_eq_some_iff.mp h
    obtain ⟨rest, hrest, h⟩ := Option.bind_eq_some_iff.mp h
    cases h
    exact .cons hb (ih hrest)

/-- A dict that is filled in the order of a table has what each row gives. -/
theorem lookup_mapM {E A : Type} {f : String × A → Except E V} {table : List (String × A)}
    {d : List (String × V)}
    {a : A} (h : table.mapM (fun row => (f row).map (Prod.mk row.1)) = .ok d)
    (hrow : table.lookup key = some a) : ∃ v, f (key, a) = .ok v ∧ d.lookup key = some v := by
  induction table generalizing d with
  | nil => cases hrow
  | cons row table ih =>
    obtain ⟨name, b⟩ := row
    rw [List.mapM_cons] at h
    cases hf : f (name, b) with
    | error e =>
      rw [hf] at h
      cases h
    | ok v =>
      rw [hf] at h
      cases hrest : table.mapM fun row => (f row).map (Prod.mk row.1) with
      | error e =>
        rw [hrest] at h
        cases h
      | ok rest =>
        rw [hrest] at h
        cases h
        by_cases hname : key = name
        · subst hname
          rw [List.lookup_cons, beq_self_eq_true, Option.some.injEq] at hrow
          subst hrow
          refine ⟨v, hf, ?_⟩
          rw [List.lookup_cons, beq_self_eq_true]
        · rw [lookup_cons_of_ne hname] at hrow ⊢
          exact ih hrest hrow

theorem exists_of_forall₂ {A B : Type*} {P : A → B → Prop} {as : List A} {bs : List B}
    (hall : List.Forall₂ P as bs)
    {b : B} (hb : b ∈ bs) : ∃ a ∈ as, P a b := by
  induction hall with
  | nil => cases hb
  | cons hP hall ih =>
    rcases List.mem_cons.mp hb with rfl | hb
    · exact ⟨_, List.mem_cons_self, hP⟩
    · obtain ⟨a, ha, hPa⟩ := ih hb
      exact ⟨a, List.mem_cons_of_mem _ ha, hPa⟩

end Assoc
