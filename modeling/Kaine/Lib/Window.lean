import Mathlib.Algebra.BigOperators.Group.List.Basic
import Mathlib.Algebra.Order.Group.Defs
import Mathlib.Data.List.Induction
import Mathlib.Data.List.Pairwise

/-! Consecutive members of a list, positions on a coordinate that gaps between them make up, and
windows that drop their members from the front as they fall behind. -/
namespace Window

variable {α κ K : Type*} {l : List α} {a b : α}

/-- Each member with the next one. -/
def pairs (l : List α) : List (α × α) := l.zip l.tail

theorem pairs_cons_cons (a b : α) (l : List α) : pairs (a :: b :: l) = (a, b) :: pairs (b :: l) :=
  rfl

theorem pairs_concat (l : List α) (b : α) :
    pairs (l ++ [b]) = pairs l ++ (l.getLast?.map (·, b)).toList := by
  induction l with
  | nil => rfl
  | cons a l ih =>
    cases l with
    | nil => rfl
    | cons c l =>
      have hlast : (a :: c :: l).getLast? = (c :: l).getLast? := by simp
      rw [hlast]
      simp only [List.cons_append, pairs_cons_cons] at ih ⊢
      rw [ih]

theorem map_snd_pairs (l : List α) : (pairs l).map Prod.snd = l.tail :=
  List.map_snd_zip (by simp)

/-- A relation between any two members, the earlier first, holds between the second parts too. -/
theorem pairs_pairwise {r : α → α → Prop} (h : l.Pairwise r) :
    (pairs l).Pairwise fun p q => r p.2 q.2 := by
  have htail : l.tail.Pairwise r := h.sublist (List.tail_sublist l)
  rw [← map_snd_pairs] at htail
  exact List.pairwise_map.mp htail

section
variable [LinearOrder κ] {key : α → κ} {v w : κ}

/-- Where the keys do not fall, what falls behind a bound is what comes first. -/
theorem dropWhile_eq_filter (h : l.Pairwise fun a b => key a ≤ key b) (w : κ) :
    l.dropWhile (fun a => key a ≤ w) = l.filter fun a => w < key a := by
  induction l with
  | nil => rfl
  | cons a l ih =>
    obtain ⟨hhead, htail⟩ := List.pairwise_cons.mp h
    by_cases ha : key a ≤ w
    · have hdrop : ¬ w < key a := not_lt.mpr ha
      simp [ha, hdrop, ih htail]
    · have hall : ∀ b ∈ a :: l, w < key b := by
        intro b hb
        rcases List.mem_cons.mp hb with rfl | hb
        · exact not_le.mp ha
        · exact (not_le.mp ha).trans_le (hhead b hb)
      rw [List.dropWhile_cons_of_neg (by simpa using ha)]
      exact (List.filter_eq_self.mpr (by simpa using hall)).symm

/-- A window that has dropped what fell behind an earlier bound, and has grown at its end, then
loses what falls behind the later bound. -/
theorem dropWhile_filter_append (new : List α) (h : (l ++ new).Pairwise fun a b => key a ≤ key b)
    (hvw : v ≤ w) : ((l.filter fun a => v < key a) ++ new).dropWhile (fun a => key a ≤ w) =
      (l ++ new).filter fun a => w < key a := by
  have hsub : ((l.filter fun a => v < key a) ++ new).Sublist (l ++ new) :=
    List.Sublist.append_right List.filter_sublist new
  rw [dropWhile_eq_filter (h.sublist hsub), List.filter_append, List.filter_append,
    List.filter_filter]
  congr 1
  refine List.filter_congr fun a _ => ?_
  have hboth : w < key a → v < key a := hvw.trans_lt
  by_cases ha : w < key a <;> simp [ha, hboth]

theorem dropWhile_filter (h : l.Pairwise fun a b => key a ≤ key b) (w : κ) :
    (l.filter fun a => w < key a).dropWhile (fun a => key a ≤ w) = l.filter fun a => w < key a := by
  have hgrown := dropWhile_filter_append [] (by simpa using h) (le_refl w)
  simpa using hgrown

end

section
variable [AddCommGroup K] (gap : α → α → K)

/-- The sum of the gaps between consecutive members. -/
def total (l : List α) : K := ((pairs l).map fun p => gap p.1 p.2).sum

/-- Each member with its position, which is the sum of the gaps before it. -/
def placed (l : List α) : List (K × α) := l.mapIdx fun i a => (total gap (l.take (i + 1)), a)

@[simp] theorem length_placed (l : List α) : (placed gap l).length = l.length := by simp [placed]

theorem total_concat (l : List α) (b : α) :
    total gap (l ++ [b]) = total gap l + l.getLast?.elim 0 (gap · b) := by
  unfold total
  rw [pairs_concat]
  cases l.getLast? <;> simp

theorem placed_concat (l : List α) (b : α) :
    placed gap (l ++ [b]) = placed gap l ++ [(total gap (l ++ [b]), b)] := by
  unfold placed
  rw [List.mapIdx_concat]
  congr 1
  · refine List.mapIdx_eq_mapIdx_iff.mpr fun i hi => ?_
    rw [List.take_append_of_le_length (by omega)]
  · rw [List.take_of_length_le (by simp)]

theorem getLast?_placed (l : List α) :
    (placed gap l).getLast? = l.getLast?.map fun a => (total gap l, a) := by
  induction l using List.reverseRecOn with
  | nil => rfl
  | append_singleton l b _ =>
    rw [placed_concat]
    simp

end

section
variable [AddCommGroup K] [LinearOrder K] [IsOrderedAddMonoid K] {gap : α → α → K}

theorem total_le_concat (h : ∀ a b, 0 ≤ gap a b) (l : List α) (b : α) :
    total gap l ≤ total gap (l ++ [b]) := by
  rw [total_concat]
  cases l.getLast? with
  | none => simp
  | some a => simpa using h a b

theorem total_le_append (h : ∀ a b, 0 ≤ gap a b) (l l' : List α) :
    total gap l ≤ total gap (l ++ l') := by
  induction l' generalizing l with
  | nil => simp
  | cons b l' ih =>
    have hnext := ih (l ++ [b])
    rw [List.append_assoc] at hnext
    exact (total_le_concat h l b).trans hnext

theorem position_le_total (h : ∀ a b, 0 ≤ gap a b) {p : K × α} (hp : p ∈ placed gap l) :
    p.1 ≤ total gap l := by
  induction l using List.reverseRecOn with
  | nil => simp [placed] at hp
  | append_singleton l b ih =>
    rw [placed_concat] at hp
    rcases List.mem_append.mp hp with hp | hp
    · exact (ih hp).trans (total_le_concat h l b)
    · rw [List.mem_singleton.mp hp]

/-- Where no gap is negative, positions do not fall. -/
theorem placed_pairwise (h : ∀ a b, 0 ≤ gap a b) (l : List α) :
    (placed gap l).Pairwise fun p q => p.1 ≤ q.1 := by
  induction l using List.reverseRecOn with
  | nil => simp [placed]
  | append_singleton l b ih =>
    rw [placed_concat]
    refine List.pairwise_append.mpr ⟨ih, List.pairwise_singleton _ _, ?_⟩
    intro p hp q hq
    rw [List.mem_singleton.mp hq]
    exact (position_le_total h hp).trans (total_le_concat h l b)

end
end Window
