import Mathlib.Data.List.Sort

/-! Logs in the order of their keys: what a cursor has still to read, and what lies between two
cursors. -/
namespace OrderedLog

variable {α κ : Type*} [LinearOrder κ] {key : α → κ} {p : α → Bool} {log : List α} {x : α}
  {a b c bottom : κ} {n : ℕ}

/-- Keys increase along the log, from beyond a bottom. -/
def Increasing (key : α → κ) (bottom : κ) (log : List α) : Prop :=
  (∀ x ∈ log, bottom < key x) ∧ log.Pairwise fun x y => key x < key y

instance (key : α → κ) (bottom : κ) (log : List α) : Decidable (Increasing key bottom log) :=
  inferInstanceAs (Decidable ((∀ x ∈ log, bottom < key x) ∧ log.Pairwise fun x y => key x < key y))

/-- The key of the last entry; of an empty log, the bottom. -/
def tail (key : α → κ) (bottom : κ) (log : List α) : κ := (log.getLast?.map key).getD bottom

/-- The part of a log behind a cursor. -/
def after (key : α → κ) (log : List α) (a : κ) : List α := log.filter fun x => a < key x

/-- How many entries behind one cursor and up to another pass a test. -/
def count (key : α → κ) (p : α → Bool) (log : List α) (a c : κ) : ℕ :=
  log.countP fun x => (a < key x ∧ key x ≤ c) && p x

omit [LinearOrder κ] in
@[simp] theorem tail_append : tail key bottom (log ++ [x]) = key x := by simp [tail]

theorem Increasing.bottom_le_tail (hi : Increasing key bottom log) :
    bottom ≤ tail key bottom log := by
  rcases List.eq_nil_or_concat' log with rfl | ⟨front, last, rfl⟩
  · simp [tail]
  · rw [tail_append]
    exact (hi.1 last (by simp)).le

theorem Increasing.le_tail (hi : Increasing key bottom log) (h : x ∈ log) :
    key x ≤ tail key bottom log := by
  rcases List.eq_nil_or_concat' log with rfl | ⟨front, last, rfl⟩
  · simp at h
  · rw [tail_append]
    rcases List.mem_append.mp h with hf | hl
    · exact ((List.pairwise_append.mp hi.2).2.2 x hf last (by simp)).le
    · simp_all

theorem Increasing.append (hi : Increasing key bottom log) (h : tail key bottom log < key x) :
    Increasing key bottom (log ++ [x]) := by
  constructor
  · intro y hy
    rcases List.mem_append.mp hy with hl | hx
    · exact hi.1 y hl
    · simp_all [hi.bottom_le_tail.trans_lt h]
  · rw [List.pairwise_append]
    refine ⟨hi.2, by simp, ?_⟩
    intro y hy z hz
    simp only [List.mem_singleton] at hz
    rw [hz]
    exact (hi.le_tail hy).trans_lt h

/-- Nothing is left to read at the tail, and only there. -/
theorem Increasing.after_eq_nil_iff (hi : Increasing key bottom log) (h : bottom ≤ a) :
    after key log a = [] ↔ tail key bottom log ≤ a := by
  rw [after, List.filter_eq_nil_iff]
  constructor
  · intro hnone
    rcases List.eq_nil_or_concat' log with rfl | ⟨front, last, rfl⟩
    · simpa [tail] using h
    · rw [tail_append]
      simpa using hnone last (by simp)
  · intro hle x hx
    simpa using (hi.le_tail hx).trans hle

/-- What lies behind a cursor lies behind every earlier one. -/
theorem after_after (h : a ≤ b) : after key (after key log a) b = after key log b := by
  rw [after, after, after, List.filter_filter]
  apply List.filter_congr
  intro x _
  simp only [Bool.and_eq_left_iff_imp, decide_eq_true_eq]
  exact fun hx => h.trans_lt hx

theorem after_append (log : List α) (x : α) (a : κ) :
    after key (log ++ [x]) a = after key log a ++ after key [x] a := by simp [after]

variable (key p log) in
theorem count_eq_zero_of_le (h : c ≤ a) : count key p log a c = 0 := by
  rw [count, List.countP_eq_zero]
  intro x _ hx
  simp only [Bool.and_eq_true, decide_eq_true_eq] at hx
  exact absurd (hx.1.1.trans_le hx.1.2) (not_lt.mpr h)

/-- An entry that arrives behind both cursors does not count between them. -/
theorem count_append_of_lt (h : c < key x) :
    count key p (log ++ [x]) a c = count key p log a c := by
  simp [count, List.countP_append, h]

variable (key p log) in
theorem count_add (hab : a ≤ b) (hbc : b ≤ c) :
    count key p log a c = count key p log a b + count key p log b c := by
  induction log with
  | nil => rfl
  | cons x log ih =>
    simp only [count, List.countP_cons] at ih ⊢
    rw [ih]
    rcases le_or_gt (key x) b with hx | hx
    · have hxc : key x ≤ c := hx.trans hbc
      simp [hx, hxc, not_lt.mpr hx]
      omega
    · have hxa : a < key x := hab.trans_lt hx
      simp [hx, hxa, not_le.mpr hx]
      omega

variable (key p log) in
theorem count_mono (hbc : b ≤ c) : count key p log a b ≤ count key p log a c := by
  refine List.countP_mono_left ?_
  intro x _ hx
  simp only [Bool.and_eq_true, decide_eq_true_eq] at hx ⊢
  exact ⟨⟨hx.1.1, hx.1.2.trans hbc⟩, hx.2⟩

/-- The part of a log behind one cursor and up to another. -/
def between (key : α → κ) (log : List α) (a c : κ) : List α :=
  log.filter fun x => a < key x ∧ key x ≤ c

theorem between_self (key : α → κ) (log : List α) (a : κ) : between key log a a = [] := by
  rw [between, List.filter_eq_nil_iff]
  intro x _ hx
  simp only [decide_eq_true_eq] at hx
  exact absurd hx.2 (not_le.mpr hx.1)

theorem between_append_of_lt (h : c < key x) :
    between key (log ++ [x]) a c = between key log a c := by
  simp [between, h]

/-- Along an increasing log one part follows the other. -/
theorem between_append (hi : log.Pairwise fun x y => key x < key y) (hab : a ≤ b) (hbc : b ≤ c) :
    between key log a b ++ between key log b c = between key log a c := by
  induction log with
  | nil => rfl
  | cons x log ih =>
    rw [List.pairwise_cons] at hi
    have hrest := ih hi.2
    simp only [between, Bool.decide_and] at hrest ⊢
    rcases le_or_gt (key x) b with hx | hx
    · have hxc : key x ≤ c := hx.trans hbc
      by_cases ha : a < key x
      · simp [hx, hxc, ha, not_lt.mpr hx, hrest]
      · simp [ha, not_lt.mpr hx, hrest]
    · have hnone : log.filter (fun y => decide (a < key y) && decide (key y ≤ b)) = [] := by
        rw [List.filter_eq_nil_iff]
        intro y hy
        have hlt := hx.trans (hi.1 y hy)
        simp [not_le.mpr hlt]
      rw [hnone, List.nil_append] at hrest
      have hxa : a < key x := hab.trans_lt hx
      rw [List.filter_cons_of_neg (by simp [not_le.mpr hx]), hnone, List.nil_append]
      by_cases hxc : key x ≤ c
      · simp [hx, hxa, hxc, hrest]
      · simp [hxc, hrest]

/-- A read behind a cursor moves it forward. -/
theorem lt_of_getLast? (h : ((after key log a).take n).getLast? = some x) : a < key x := by
  have hmem := List.mem_of_mem_take (List.mem_of_getLast? h)
  rw [after, List.mem_filter] at hmem
  simpa using hmem.2

/-- A read takes just the entries up to the last one it takes. -/
theorem take_after (hi : Increasing key bottom log)
    (h : ((after key log a).take n).getLast? = some x) :
    (after key log a).take n = between key log a (key x) := by
  rw [between]
  obtain ⟨front, hfront⟩ := List.getLast?_eq_some_iff.mp h
  have hlog : log.filter (fun y => a < key y ∧ key y ≤ key x) =
      (after key log a).filter fun y => key y ≤ key x := by
    simp [after, List.filter_filter, Bool.and_comm]
  have hsorted : (after key log a).Pairwise fun y z => key y < key z := hi.2.filter _
  rw [← List.take_append_drop n (after key log a), hfront] at hsorted
  obtain ⟨hread, _, hback⟩ := List.pairwise_append.mp hsorted
  have hkeep : (front ++ [x]).filter (fun y => key y ≤ key x) = front ++ [x] := by
    rw [List.filter_eq_self]
    intro y hy
    rcases List.mem_append.mp hy with hf | hl
    · have hlt := (List.pairwise_append.mp hread).2.2 y hf x (by simp)
      simpa using hlt.le
    · simp_all
  have hdrop : ((after key log a).drop n).filter (fun y => key y ≤ key x) = [] := by
    rw [List.filter_eq_nil_iff]
    intro y hy
    simpa using hback x (by simp) y hy
  conv_rhs => rw [hlog, ← List.take_append_drop n (after key log a), List.filter_append, hdrop]
  rw [hfront, hkeep, List.append_nil]

/-- What a read takes counts as the step of its cursor does. -/
theorem count_take_after (hi : Increasing key bottom log)
    (h : ((after key log a).take n).getLast? = some x) :
    ((after key log a).take n).countP p = count key p log a (key x) := by
  rw [take_after hi h, between, List.countP_filter, count]
  refine List.countP_congr ?_
  intro y _
  simp [Bool.and_comm]

end OrderedLog
