import Mathlib.Algebra.BigOperators.Ring.Finset
import Mathlib.Algebra.Order.BigOperators.Group.List
import Mathlib.Tactic.FieldSimp
import Mathlib.Tactic.Ring

/-! Averages and co-moments of what is read from the items of a list, and how they grow by one
item. -/
namespace CoMoment

section field

variable {α K : Type} [Field K]

/-- The average of a reading. -/
def average (xs : List α) (f : α → K) : K := (xs.map f).sum / xs.length

/-- The sum of the products of two readings' deviations from their averages. -/
def comoment (xs : List α) (f g : α → K) : K :=
  (xs.map fun x => (f x - average xs f) * (g x - average xs g)).sum

variable {xs ys : List α} {f g : α → K} {x : α}

theorem comoment_comm (xs : List α) (f g : α → K) : comoment xs f g = comoment xs g f := by
  unfold comoment
  simp only [mul_comm]

theorem average_perm (h : xs.Perm ys) (f : α → K) : average xs f = average ys f := by
  rw [average, average, (h.map f).sum_eq, h.length_eq]

theorem comoment_perm (h : xs.Perm ys) (f g : α → K) : comoment xs f g = comoment ys f g := by
  unfold comoment
  rw [average_perm h, average_perm h, (h.map _).sum_eq]

/-- The products of deviations expand to the product of the readings less that of their sums. -/
theorem comoment_eq [CharZero K] (hne : xs ≠ []) (f g : α → K) :
    comoment xs f g = (xs.map fun x => f x * g x).sum - (xs.map f).sum *
      (xs.map g).sum / xs.length := by
  have hlength : (xs.length : K) ≠ 0 := Nat.cast_ne_zero.mpr (List.length_pos_iff.mpr hne).ne'
  have hexpand : ∀ x, (f x - average xs f) * (g x - average xs g) =
      f x * g x + (-average xs g * f x + (-average xs f * g x + average xs f * average xs g)) :=
        fun x => by ring
  unfold comoment
  simp only [hexpand, List.sum_map_add, List.sum_map_mul_left, List.map_const', List.sum_replicate,
    nsmul_eq_mul]
  unfold average
  field_simp
  ring

theorem average_concat [CharZero K] (xs : List α) (x : α) (f : α → K) :
    average (xs ++ [x]) f = average xs f + (f x - average xs f) / ((xs.length + 1 : ℕ) : K) := by
  have hnext : ((xs.length : K) + 1) ≠ 0 := Nat.cast_add_one_ne_zero _
  unfold average
  rw [List.map_append, List.sum_append, List.length_append, List.map_singleton, List.sum_singleton,
    List.length_singleton, Nat.cast_add, Nat.cast_one]
  rcases eq_or_ne xs [] with rfl | hne
  · simp
  · have hlength : (xs.length : K) ≠ 0 := Nat.cast_ne_zero.mpr (List.length_pos_iff.mpr hne).ne'
    field_simp
    ring

/-- One more item adds the deviation of one reading from the old average by that of the other from
the new. -/
theorem comoment_concat [CharZero K] (xs : List α) (x : α) (f g : α → K) :
    comoment (xs ++ [x]) f g = comoment xs f g + (f x - average xs f) *
      (g x - average (xs ++ [x]) g) := by
  rcases eq_or_ne xs [] with rfl | hne
  · simp [comoment, average]
  · have hnext : ((xs.length : K) + 1) ≠ 0 := Nat.cast_add_one_ne_zero _
    have hlength : (xs.length : K) ≠ 0 := Nat.cast_ne_zero.mpr (List.length_pos_iff.mpr hne).ne'
    have hne' : xs ++ [x] ≠ [] := List.append_ne_nil_of_right_ne_nil _ (List.cons_ne_nil _ _)
    rw [comoment_eq hne, comoment_eq hne']
    unfold average
    simp only [List.map_append, List.sum_append, List.length_append, List.map_singleton,
      List.sum_singleton, List.length_singleton, Nat.cast_add, Nat.cast_one]
    field_simp
    ring

end field

section ordered

variable {α ι K : Type} [Field K]

theorem form_eq (xs : List α) (s : Finset ι) (reading : ι → α → K) (w : ι → K) :
    (∑ i ∈ s, ∑ j ∈ s, w i * (xs.map fun x => reading i x * reading j x).sum * w j) =
      (xs.map fun x => (∑ i ∈ s, w i * reading i x) * ∑ i ∈ s, w i * reading i x).sum := by
  induction xs with
  | nil => simp
  | cons x xs ih =>
    have hhead : (∑ i ∈ s, ∑ j ∈ s, w i * (reading i x * reading j x) * w j) =
        (∑ i ∈ s, w i * reading i x) * ∑ i ∈ s, w i * reading i x := by
      rw [Finset.sum_mul_sum]
      exact Finset.sum_congr rfl fun i _ => Finset.sum_congr rfl fun j _ => by ring
    simp only [List.map_cons, List.sum_cons, mul_add, add_mul, Finset.sum_add_distrib]
    rw [ih, hhead]

/-- The quadratic form of the co-moments is a sum of squares. -/
theorem comoment_form_nonneg [LinearOrder K] [IsStrictOrderedRing K] (xs : List α) (s : Finset ι)
    (reading : ι → α → K) (w : ι → K) :
    0 ≤ ∑ i ∈ s, ∑ j ∈ s, w i * comoment xs (reading i) (reading j) * w j := by
  have hform := form_eq xs s (fun i x => reading i x - average xs (reading i)) w
  unfold comoment
  rw [hform]
  refine List.sum_nonneg fun a ha => ?_
  obtain ⟨x, -, rfl⟩ := List.mem_map.mp ha
  exact mul_self_nonneg _

end ordered

end CoMoment
