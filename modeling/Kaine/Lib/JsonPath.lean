import Kaine.Lib.Json
import Mathlib.Data.List.Perm.Subperm

/-! Values reached through the keys of nested dicts, and dicts whose keys are distinct at every
depth. -/
namespace Py.Json

/-- The value at a path of keys. -/
def follow : Json → List String → Option Json
  | v, [] => some v
  | .obj d, key :: path => (d.lookup key).bind fun v => v.follow path
  | _, _ :: _ => none

/-- Each dict in the value has every key once, as Python's dicts do. -/
inductive Keyed : Json → Prop
  | null : Keyed .null
  | bool (b : Bool) : Keyed (.bool b)
  | int (n : ℤ) : Keyed (.int n)
  | float (x : PyFloat) : Keyed (.float x)
  | str (s : String) : Keyed (.str s)
  | arr {xs : List Json} (items : ∀ x ∈ xs, Keyed x) : Keyed (.arr xs)
  | obj {d : Dict} (nodup : (d.map Prod.fst).Nodup) (items : ∀ kv ∈ d, Keyed kv.2) : Keyed (.obj d)

variable {v w : Json} {d e : Dict} {xs ys : List Json}

theorem Keyed.nodup (h : Keyed (.obj d)) : (d.map Prod.fst).Nodup := by
  cases h with
  | obj nodup _ => exact nodup

theorem Keyed.of_lookup (h : Keyed (.obj d)) {key : String}
    (hv : d.lookup key = some v) : Keyed v := by
  cases h with
  | obj _ items => exact items (key, v) (Assoc.mem_of_lookup_eq_some hv)

theorem Keyed.tail {kv : String × Json} (h : Keyed (.obj (kv :: d))) : Keyed (.obj d) := by
  cases h with
  | obj nodup items =>
    exact .obj (List.nodup_cons.mp nodup).2 fun kv' h' => items kv' (List.mem_cons_of_mem _ h')

theorem Keyed.follow {path : List String} :
    ∀ {v : Json}, v.Keyed → v.follow path = some w → w.Keyed := by
  induction path with
  | nil =>
    intro v hv h
    cases h
    exact hv
  | cons key path ih =>
    intro v hv h
    cases v with
    | obj d =>
      obtain ⟨u, hu, hw⟩ := Option.bind_eq_some_iff.mp h
      exact ih (hv.of_lookup hu) hw
    | _ => cases h

theorem dictEq_iff : dictEq d e = true ↔ ∀ kv ∈ d, ∃ w, e.lookup kv.1 = some w ∧
    itemEq kv.2 w = true := by
  induction d with
  | nil => simp [dictEq]
  | cons kv d ih =>
    obtain ⟨k, v⟩ := kv
    rw [dictEq, Bool.and_eq_true, ih, List.forall_mem_cons]
    cases e.lookup k <;> simp

theorem listEq_symm (h : ∀ x ∈ xs, ∀ y ∈ ys, itemEq x y = true → itemEq y x = true)
    (heq : listEq xs ys = true) : listEq ys xs = true := by
  induction xs generalizing ys with
  | nil =>
    cases ys with
    | nil => rfl
    | cons y ys => cases heq
  | cons x xs ih =>
    cases ys with
    | nil => cases heq
    | cons y ys =>
      rw [listEq, Bool.and_eq_true] at heq ⊢
      refine ⟨h x List.mem_cons_self y List.mem_cons_self heq.1, ih (fun x' hx y' hy => ?_) heq.2⟩
      exact h x' (List.mem_cons_of_mem _ hx) y' (List.mem_cons_of_mem _ hy)

/-- Of two dicts of one size, each key of the second is one of the first where the first's are the
second's. -/
theorem dictEq_symm (hd : (d.map Prod.fst).Nodup) (he : (e.map Prod.fst).Nodup)
    (hlength : d.length = e.length) (h : ∀ kv ∈ d, ∀ kv' ∈ e, itemEq kv.2 kv'.2 = true →
      itemEq kv'.2 kv.2 = true)
    (heq : dictEq d e = true) : dictEq e d = true := by
  rw [dictEq_iff] at heq ⊢
  have hsub : (d.map Prod.fst).Subperm (e.map Prod.fst) := by
    refine List.subperm_of_subset hd fun k hk => ?_
    obtain ⟨kv, hkv, rfl⟩ := List.mem_map.mp hk
    obtain ⟨w, hw, -⟩ := heq kv hkv
    exact List.mem_map.mpr ⟨_, Assoc.mem_of_lookup_eq_some hw, rfl⟩
  have hperm := hsub.perm_of_length_le (by simp [hlength])
  intro kv' hkv'
  obtain ⟨kv, hkv, hkey⟩ := List.mem_map.mp (hperm.mem_iff.mpr (List.mem_map_of_mem hkv'))
  obtain ⟨w, hw, hitem⟩ := heq kv hkv
  have hfound : e.lookup kv'.1 = some kv'.2 := Assoc.lookup_of_mem he hkv'
  rw [hkey, hfound] at hw
  cases hw
  exact ⟨kv.2, by rw [← hkey]; exact Assoc.lookup_of_mem hd hkv, h kv hkv kv' hkv' hitem⟩

/-- `==` is symmetric. -/
theorem Keyed.itemEq_symm (hv : v.Keyed) : ∀ {w : Json}, w.Keyed → itemEq v w = true →
    itemEq w v = true := by
  induction hv with
  | null =>
    intro w _ h
    cases w <;> first | rfl | cases h
  | str s =>
    intro w _ h
    cases w <;> simp_all [itemEq, asNumber]
  | bool b =>
    intro w _ h
    cases w <;> simp_all [itemEq, asNumber]
  | int n =>
    intro w _ h
    cases w <;> simp_all [itemEq, asNumber]
  | float x =>
    intro w _ h
    cases w <;> simp_all [itemEq, asNumber]
  | @arr xs _ ih =>
    intro w hw h
    cases hw with
    | arr items =>
      rw [itemEq] at h ⊢
      exact listEq_symm (fun x hx y hy => ih x hx (items y hy)) h
    | _ => cases h
  | @obj d nodup _ ih =>
    intro w hw h
    cases hw with
    | obj nodup' items =>
      rw [itemEq, Bool.and_eq_true, decide_eq_true_eq] at h ⊢
      refine ⟨h.1.symm, dictEq_symm nodup nodup' h.1 (fun kv hkv kv' hkv' => ?_) h.2⟩
      exact ih kv hkv (items kv' hkv')
    | _ => cases h

end Py.Json
