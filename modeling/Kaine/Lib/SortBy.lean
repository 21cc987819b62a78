import Mathlib.Data.List.Sort

/-! Stable sorting by a key, and when the order of the input does not matter. -/
namespace SortBy

variable {α κ : Type*} [LinearOrder κ] {key : α → κ} {l l' : List α} {a b : α}

/-- `sorted(l, key=key)`. -/
def sortBy (key : α → κ) (l : List α) : List α := l.mergeSort fun a b => key a ≤ key b

theorem sortBy_perm (key : α → κ) (l : List α) : (sortBy key l).Perm l := List.mergeSort_perm l _

@[simp] theorem mem_sortBy (key : α → κ) : a ∈ sortBy key l ↔ a ∈ l := (sortBy_perm key l).mem_iff

theorem pairwise_sortBy (key : α → κ) (l : List α) :
    (sortBy key l).Pairwise fun a b => key a ≤ key b := by
  have h := @List.pairwise_mergeSort α (fun a b => decide (key a ≤ key b))
    (fun a b c hab hbc => by simp_all; exact hab.trans hbc)
    (fun a b => by simpa using le_total (key a) (key b)) l
  simpa [sortBy] using h

/-- Keys that tell the members apart leave one sorted order, whatever order they arrive in. -/
theorem sortBy_eq_of_perm (hkey : ∀ a ∈ l, ∀ b ∈ l, key a = key b → a = b) (hp : l.Perm l') :
    sortBy key l = sortBy key l' := by
  have hp' : (sortBy key l).Perm (sortBy key l') :=
    (sortBy_perm key l).trans (hp.trans (sortBy_perm key l').symm)
  refine hp'.eq_of_pairwise ?_ (pairwise_sortBy key l) (pairwise_sortBy key l')
  intro a b ha hb hab hba
  have ha' : a ∈ l := (mem_sortBy key).mp ha
  have hb' : b ∈ l := hp.mem_iff.mpr ((mem_sortBy key).mp hb)
  exact hkey a ha' b hb' (le_antisymm hab hba)

theorem pairwise_insertionSort (key : α → κ) (l : List α) :
    (l.insertionSort fun a b => key a ≤ key b).Pairwise fun a b => key a ≤ key b := by
  have : Std.Total fun a b : α => key a ≤ key b := ⟨fun a b => le_total (key a) (key b)⟩
  have : IsTrans α fun a b => key a ≤ key b := ⟨fun _ _ _ hab hbc => hab.trans hbc⟩
  exact List.pairwise_insertionSort _ l

theorem insertionSort_eq_of_perm (hkey : ∀ a ∈ l, ∀ b ∈ l, key a = key b → a = b) (hp : l.Perm l') :
    (l.insertionSort fun a b => key a ≤ key b) = l'.insertionSort fun a b => key a ≤ key b := by
  have hp' := (List.perm_insertionSort (fun a b => key a ≤ key b) l).trans
    (hp.trans (List.perm_insertionSort (fun a b => key a ≤ key b) l').symm)
  refine hp'.eq_of_pairwise ?_ (pairwise_insertionSort key l) (pairwise_insertionSort key l')
  intro a b ha hb hab hba
  have ha' : a ∈ l := (List.mem_insertionSort _).mp ha
  have hb' : b ∈ l := hp.mem_iff.mpr ((List.mem_insertionSort _).mp hb)
  exact hkey a ha' b hb' (le_antisymm hab hba)

/-- A smaller key comes first. -/
theorem sublist_of_key_lt (ha : a ∈ l) (hb : b ∈ l) (h : key a < key b) :
    [a, b].Sublist (sortBy key l) := by
  have hne : a ≠ b := by
    rintro rfl
    exact lt_irrefl _ h
  have hpair := pairwise_sortBy key l
  obtain ⟨front, back, heq⟩ := List.append_of_mem ((mem_sortBy key).mpr ha)
  rw [heq] at hpair ⊢
  have hb' : b ∈ front ++ a :: back := by
    rw [← heq]
    exact (mem_sortBy key).mpr hb
  rcases List.mem_append.mp hb' with hf | hc
  · have hle := (List.pairwise_append.mp hpair).2.2 b hf a List.mem_cons_self
    exact absurd h (not_lt.mpr hle)
  · have hback : b ∈ back := by
      rcases List.mem_cons.mp hc with he | hmem
      · exact absurd he.symm hne
      · exact hmem
    have hs : [a, b].Sublist (a :: back) :=
      List.Sublist.cons_cons a (List.singleton_sublist.mpr hback)
    exact hs.trans (List.sublist_append_right front _)

/-- The members under the least key come first in a sorted list. -/
theorem filter_least {k : κ} (hl : l.Pairwise fun a b => key a ≤ key b)
    (hleast : ∀ a ∈ l, k ≤ key a) :
    (l.filter fun a => key a = k) ++ (l.filter fun a => key a ≠ k) = l := by
  induction l with
  | nil => rfl
  | cons a l ih =>
    obtain ⟨hhead, htail⟩ := List.pairwise_cons.mp hl
    have hrest := ih htail fun b hb => hleast b (List.mem_cons_of_mem _ hb)
    by_cases hk : key a = k
    · rw [List.filter_cons_of_pos (by simpa using hk), List.filter_cons_of_neg (by simpa using hk),
        List.cons_append, hrest]
    · have hlt : k < key a := lt_of_le_of_ne (hleast a List.mem_cons_self) (Ne.symm hk)
      have hall : ∀ b ∈ a :: l, key b ≠ k := by
        intro b hb
        rcases List.mem_cons.mp hb with rfl | hb
        · exact hk
        · exact ne_of_gt (lt_of_lt_of_le hlt (hhead b hb))
      rw [List.filter_eq_nil_iff.mpr (by simpa using hall),
        List.filter_eq_self.mpr (by simpa using hall)]
      rfl

/-- A list that is sorted by a key is its groups in the order of the keys. -/
theorem flatMap_filter_key {keys : List κ} (hkeys : keys.Pairwise (· < ·))
    (hl : l.Pairwise fun a b => key a ≤ key b) (hmem : ∀ a ∈ l, key a ∈ keys) :
    keys.flatMap (fun k => l.filter fun a => key a = k) = l := by
  induction keys generalizing l with
  | nil =>
    cases l with
    | nil => rfl
    | cons a l => exact absurd (hmem a List.mem_cons_self) List.not_mem_nil
  | cons k keys ih =>
    obtain ⟨hhead, htail⟩ := List.pairwise_cons.mp hkeys
    have hleast : ∀ a ∈ l, k ≤ key a := by
      intro a ha
      rcases List.mem_cons.mp (hmem a ha) with h | h
      · exact h.ge
      · exact (hhead _ h).le
    have hgroups : ∀ k' ∈ keys, (l.filter fun a => key a = k') =
        (l.filter fun a => key a ≠ k).filter fun a => key a = k' := by
      intro k' hk'
      rw [List.filter_filter]
      refine List.filter_congr fun a _ => ?_
      have hne := ne_of_gt (hhead k' hk')
      by_cases h : key a = k'
      · simp [h, hne]
      · simp [h]
    have hrest := ih htail (hl.filter _) (l := l.filter fun a => key a ≠ k) (by
      intro a ha
      obtain ⟨ha, hne⟩ := List.mem_filter.mp ha
      exact (List.mem_cons.mp (hmem a ha)).resolve_left (by simpa using hne))
    rw [List.flatMap_cons, List.flatMap_congr hgroups, hrest]
    exact filter_least hl hleast

end SortBy
