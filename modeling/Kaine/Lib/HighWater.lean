import Mathlib.Data.List.Induction
import Mathlib.Data.List.Pairwise
import Mathlib.Data.List.Perm.Subperm
import Mathlib.Data.List.Sort

/-! Guards that pass a number only where it exceeds every number before it. -/
namespace HighWater

variable {α κ : Type*} [LinearOrder κ] {xs : List κ} {x y : κ}

/-- The numbers that exceed all before them. -/
def records (xs : List κ) : List κ :=
  xs.foldl (fun acc x => if ∀ y ∈ acc, y < x then acc ++ [x] else acc) []

@[simp] theorem records_nil : records ([] : List κ) = [] := rfl

theorem records_concat (xs : List κ) (x : κ) :
    records (xs ++ [x]) = if ∀ y ∈ records xs, y < x then records xs ++ [x] else records xs := by
  rw [records, List.foldl_append, ← records]
  rfl

theorem records_sublist (xs : List κ) : (records xs).Sublist xs := by
  induction xs using List.reverseRecOn with
  | nil => exact List.Sublist.refl _
  | append_singleton xs x ih =>
    rw [records_concat]
    split
    · exact ih.append (List.Sublist.refl _)
    · exact ih.trans (List.sublist_append_left _ _)

theorem records_increasing (xs : List κ) : (records xs).Pairwise (· < ·) := by
  induction xs using List.reverseRecOn with
  | nil => exact List.Pairwise.nil
  | append_singleton xs x ih =>
    rw [records_concat]
    split_ifs with hx
    · refine List.pairwise_append.mpr ⟨ih, List.pairwise_singleton _ _, ?_⟩
      intro y hy z hz
      exact List.mem_singleton.mp hz ▸ hx y hy
    · exact ih

/-- What exceeds the records exceeds every number. -/
theorem forall_records_lt_iff : (∀ y ∈ records xs, y < x) ↔ ∀ y ∈ xs, y < x := by
  constructor
  · intro h
    induction xs using List.reverseRecOn with
    | nil => exact h
    | append_singleton xs z ih =>
      rw [records_concat] at h
      split_ifs at h with hz
      · intro y hy
        rcases List.mem_append.mp hy with hy | hy
        · exact ih (fun w hw => h w (List.mem_append_left _ hw)) y hy
        · exact h y (List.mem_append_right _ hy)
      · intro y hy
        rcases List.mem_append.mp hy with hy | hy
        · exact ih h y hy
        · -- `z` was passed over, so that a record is not below it
          obtain ⟨w, hw, hle⟩ : ∃ w ∈ records xs, z ≤ w := by simpa using hz
          exact List.mem_singleton.mp hy ▸ hle.trans_lt (h w hw)
  · exact fun h y hy => h y ((records_sublist xs).subset hy)

/-- A number is kept where it exceeds every number before it, kept or not. -/
theorem records_concat_all (xs : List κ) (x : κ) :
    records (xs ++ [x]) = if ∀ y ∈ xs, y < x then records xs ++ [x] else records xs := by
  simp only [records_concat, forall_records_lt_iff]

/-- Numbers that come in order are all among the records. -/
theorem mem_records_of_ordered (h : xs.Pairwise (· ≤ ·)) (hx : x ∈ xs) : x ∈ records xs := by
  induction xs using List.reverseRecOn with
  | nil => cases hx
  | append_singleton xs z ih =>
    obtain ⟨hxs, -, hle⟩ := List.pairwise_append.mp h
    have hkept : ∀ {w}, w ∈ records xs → w ∈ records (xs ++ [z]) := by
      intro w hw
      rw [records_concat]
      split
      · exact List.mem_append_left _ hw
      · exact hw
    rcases List.mem_append.mp hx with hx | hx
    · exact hkept (ih hxs hx)
    obtain rfl := List.mem_singleton.mp hx
    by_cases hmem : x ∈ records xs
    · exact hkept hmem
    · have hlt : ∀ y ∈ records xs, y < x := fun y hy =>
        lt_of_le_of_ne (hle y ((records_sublist xs).subset hy) x (List.mem_singleton_self x))
          fun heq => hmem (heq ▸ hy)
      rw [records_concat, if_pos hlt]
      exact List.mem_append_right _ (List.mem_singleton_self x)

/-- Along an increasing list, the last number tells what exceeds all of them. -/
theorem forall_lt_iff_last (h : xs.Pairwise (· < ·)) : (∀ y ∈ xs, y < x) ↔
    ∀ m ∈ xs.getLast?, m < x := by
  cases xs using List.reverseRecOn with
  | nil => simp
  | append_singleton xs z =>
    obtain ⟨-, -, hlt⟩ := List.pairwise_append.mp h
    rw [List.getLast?_concat]
    constructor
    · intro hall m hm
      exact hall m (List.mem_append_right _ (by simpa using hm.symm))
    · intro hlast y hy
      have hz : z < x := hlast z rfl
      rcases List.mem_append.mp hy with hy | hy
      · exact (hlt y hy z (List.mem_singleton_self z)).trans hz
      · exact List.mem_singleton.mp hy ▸ hz

/-- What is picked from an increasing log, itself in increasing order, is picked in the order of the
log. -/
theorem sublist_of_increasing {key : α → κ} {log picks : List α}
    (hlog : log.Pairwise fun a b => key a < key b)
    (hpicks : picks.Pairwise fun a b => key a < key b) (hmem : ∀ a ∈ picks, a ∈ log) :
    picks.Sublist log := by
  have hnodup : picks.Nodup := hpicks.imp fun {a b} hlt heq => absurd (heq ▸ hlt) (lt_irrefl _)
  have hanti : Std.Antisymm fun a b : α => key a < key b :=
    ⟨fun a b hab hba => absurd hab hba.not_gt⟩
  exact List.sublist_of_subperm_of_pairwise (List.subperm_of_subset hnodup hmem) hpicks hlog

end HighWater
