import Mathlib.Data.List.Perm.Basic
import Mathlib.Data.List.TakeDrop
import Mathlib.Data.List.TakeWhile
import Mathlib.Order.Lattice

/-! The `k`-th smallest of some values, and two ascending lists of which a window holds all that can
be near it. -/
namespace OrderStatistic

variable {α κ : Type*} [LinearOrder κ] {sorted values : List κ} {key : α → κ} {l A B : List α}
  {t r : κ} {k j : ℕ}

section Sorted

/-- The value at a place is within a bound where more values than come before it are. -/
theorem getElem_le_iff (hsorted : sorted.Pairwise (· ≤ ·)) (hk : k < sorted.length) :
    sorted[k] ≤ r ↔ k < sorted.countP fun v => v ≤ r := by
  induction sorted generalizing k with
  | nil => exact absurd hk (Nat.not_lt_zero k)
  | cons v rest ih =>
    obtain ⟨hhead, hrest⟩ := List.pairwise_cons.mp hsorted
    by_cases hv : v ≤ r
    · rw [List.countP_cons_of_pos (by simpa using hv)]
      cases k with
      | zero => exact ⟨fun _ => Nat.succ_pos _, fun _ => hv⟩
      | succ k =>
        rw [List.getElem_cons_succ, ih hrest (Nat.lt_of_succ_lt_succ hk), Nat.succ_lt_succ_iff]
    · have hnone : (v :: rest).countP (fun v => v ≤ r) = 0 := by
        refine List.countP_eq_zero.mpr fun u hu => ?_
        rw [decide_eq_true_eq]
        rcases List.mem_cons.mp hu with rfl | hu
        · exact hv
        · exact fun hle => hv ((hhead u hu).trans hle)
      rw [hnone]
      refine ⟨fun hle => absurd ?_ hv, fun hlt => absurd hlt (Nat.not_lt_zero k)⟩
      cases k with
      | zero => exact hle
      | succ k => exact (hhead _ (List.getElem_mem _)).trans hle

theorem getElem_le_iff_of_perm (hsorted : sorted.Pairwise (· ≤ ·)) (hperm : sorted.Perm values)
    (hk : k < sorted.length) : sorted[k] ≤ r ↔ k < values.countP fun v => v ≤ r := by
  rw [getElem_le_iff hsorted hk, hperm.countP_eq]

end Sorted

section Window

/-- In ascending order what is within a bound that nothing is below is what comes first and ties
with it. -/
theorem filter_eq_takeWhile (hsorted : l.Pairwise fun a b => key a ≤ key b)
    (hge : ∀ a ∈ l, t ≤ key a) : l.filter (fun a => key a ≤ t) = l.takeWhile fun a =>
      key a = t := by
  induction l with
  | nil => rfl
  | cons a l ih =>
    obtain ⟨hhead, hrest⟩ := List.pairwise_cons.mp hsorted
    by_cases ha : key a = t
    · rw [List.filter_cons_of_pos (by simpa using ha.le),
        List.takeWhile_cons_of_pos (by simpa using ha),
        ih hrest fun b hb => hge b (List.mem_cons_of_mem _ hb)]
    · have hlt : t < key a := lt_of_le_of_ne (hge a List.mem_cons_self) (Ne.symm ha)
      rw [List.takeWhile_cons_of_neg (by simpa using ha)]
      refine List.filter_eq_nil_iff.mpr fun b hb => ?_
      rw [decide_eq_true_eq, not_le]
      rcases List.mem_cons.mp hb with rfl | hb
      · exact hlt
      · exact lt_of_lt_of_le hlt (hhead b hb)

/-- What is left out of an ascending list is no nearer than all that is kept. -/
theorem length_le_countP (hsorted : l.Pairwise fun a b => key a ≤ key b) {a : α}
    (ha : a ∈ l.drop k) : k ≤ (l.take k).countP fun b => key b ≤ key a := by
  have hall : (l.take k).countP (fun b => key b ≤ key a) = (l.take k).length := by
    refine List.countP_eq_length.mpr fun b hb => decide_eq_true ?_
    rw [← List.take_append_drop k l] at hsorted
    exact (List.pairwise_append.mp hsorted).2.2 b hb a ha
  have hlength : 0 < (l.drop k).length := List.length_pos_of_mem ha
  rw [List.length_drop] at hlength
  rw [hall, List.length_take]
  omega

/-- The nearest of two ascending lists, so many of each. -/
def window (A B : List α) (k : ℕ) : List α := A.take k ++ B.take k

theorem countP_window (hA : A.Pairwise fun a b => key a ≤ key b)
    (hB : B.Pairwise fun a b => key a ≤ key b) (hj : j < k) :
    j < (window A B k).countP (fun a => key a ≤ r) ↔ j < (A ++ B).countP fun a => key a ≤ r := by
  have hwhole (l : List α) : l.countP (fun a => key a ≤ r) =
      (l.take k).countP (fun a => key a ≤ r) + (l.drop k).countP fun a => key a ≤ r := by
    rw [← List.countP_append, List.take_append_drop]
  have hrest {l : List α} (hl : l.Pairwise fun a b => key a ≤ key b)
      (hpos : 0 < (l.drop k).countP fun a => key a ≤ r) :
      k ≤ (l.take k).countP fun a => key a ≤ r := by
    obtain ⟨a, ha, hle⟩ := List.countP_pos_iff.mp hpos
    refine (length_le_countP hl ha).trans (List.countP_mono_left fun b _ hb => ?_)
    rw [decide_eq_true_eq] at hb hle ⊢
    exact hb.trans hle
  have hAwhole := hwhole A
  have hBwhole := hwhole B
  have hArest := hrest hA
  have hBrest := hrest hB
  rw [window, List.countP_append, List.countP_append]
  omega

/-- What a window leaves out is no nearer than a place of it that is below its width. -/
theorem getElem_le_of_mem_drop (hA : A.Pairwise fun a b => key a ≤ key b)
    (hB : B.Pairwise fun a b => key a ≤ key b)
    (hsorted : sorted.Pairwise (· ≤ ·)) (hperm : sorted.Perm ((window A B k).map key)) (hjk : j < k)
    (hj : j < sorted.length) {a : α} (ha : a ∈ A.drop k ++ B.drop k) : sorted[j] ≤ key a := by
  rw [getElem_le_iff_of_perm hsorted hperm, List.countP_map]
  have hcount : k ≤ (window A B k).countP fun b => key b ≤ key a := by
    rw [window, List.countP_append]
    rcases List.mem_append.mp ha with h | h
    · exact (length_le_countP hA h).trans (Nat.le_add_right _ _)
    · exact (length_le_countP hB h).trans (Nat.le_add_left _ _)
  exact lt_of_lt_of_le hjk hcount

/-- A place of a window that is below its width is that place of the whole. -/
theorem getElem_window {whole : List κ} (hA : A.Pairwise fun a b => key a ≤ key b)
    (hB : B.Pairwise fun a b => key a ≤ key b) (hsorted : sorted.Pairwise (· ≤ ·))
    (hperm : sorted.Perm ((window A B k).map key)) (hwhole : whole.Pairwise (· ≤ ·))
    (hall : whole.Perm ((A ++ B).map key)) (hjk : j < k) (hj : j < sorted.length)
    (hj' : j < whole.length) :
    sorted[j] = whole[j] := by
  refine eq_of_forall_ge_iff fun r => ?_
  rw [getElem_le_iff_of_perm hsorted hperm, getElem_le_iff_of_perm hwhole hall, List.countP_map,
    List.countP_map]
  exact countP_window hA hB hjk

/-- A window and what ties beyond it are all that is within a bound that nothing left out is
below. -/
theorem filter_window_perm (hA : A.Pairwise fun a b => key a ≤ key b)
    (hB : B.Pairwise fun a b => key a ≤ key b) (hge : ∀ a ∈ A.drop k ++ B.drop k, t ≤ key a) :
    ((window A B k).filter (fun a => key a ≤ t) ++ (A.drop k).takeWhile (fun a => key a = t) ++
      (B.drop k).takeWhile fun a => key a = t).Perm ((A ++ B).filter fun a => key a ≤ t) := by
  rw [← filter_eq_takeWhile (hA.sublist (List.drop_sublist k A)) fun a ha =>
    hge a (List.mem_append_left _ ha),
      ← filter_eq_takeWhile (hB.sublist (List.drop_sublist k B)) fun a ha =>
        hge a (List.mem_append_right _ ha),
    ← List.filter_append, ← List.filter_append]
  refine List.Perm.filter _ ?_
  have hswap : (window A B k ++ A.drop k).Perm (A ++ B.take k) := by
    rw [window, List.append_assoc]
    refine (List.perm_append_comm.append_left _).trans ?_
    rw [← List.append_assoc, List.take_append_drop]
  refine (hswap.append_right _).trans ?_
  rw [List.append_assoc, List.take_append_drop]

theorem length_window_le (A B : List α) (k : ℕ) : (window A B k).length ≤ (A ++ B).length := by
  rw [window, List.length_append, List.length_append, List.length_take, List.length_take]
  omega

/-- A window that holds less than its width holds everything. -/
theorem window_eq (h : (window A B k).length < k) : window A B k = A ++ B := by
  rw [window, List.length_append, List.length_take, List.length_take] at h
  rw [window, List.take_of_length_le (by omega), List.take_of_length_le (by omega)]

end Window

end OrderStatistic
