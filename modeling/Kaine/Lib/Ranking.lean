import Mathlib.Data.List.Sort
import Mathlib.Data.Prod.Lex

/-! Rankings by a score, the highest first, and when a part of the candidates decides the first of
them all. -/
namespace Ranking

variable {α κ : Type*} [LinearOrder κ] {score : α → κ} {l l' rest : List α} {a : α} {k : ℕ}
  {vals more : List κ}

/-- `sorted(l, key=score, reverse=True)`: equal scores keep their order. -/
def rankBy (score : α → κ) (l : List α) : List α := l.insertionSort fun a b => score b ≤ score a

instance totalScore (score : α → κ) : Std.Total fun a b : α => score b ≤ score a :=
  ⟨fun a b => le_total (score b) (score a)⟩

instance transScore (score : α → κ) : IsTrans α fun a b => score b ≤ score a :=
  ⟨fun _ _ _ hab hbc => hbc.trans hab⟩

theorem rankBy_perm (score : α → κ) (l : List α) : (rankBy score l).Perm l :=
  List.perm_insertionSort _ l

@[simp] theorem mem_rankBy (score : α → κ) : a ∈ rankBy score l ↔ a ∈ l :=
  (rankBy_perm score l).mem_iff

@[simp] theorem length_rankBy (score : α → κ) (l : List α) : (rankBy score l).length = l.length :=
  (rankBy_perm score l).length_eq

theorem pairwise_rankBy (score : α → κ) (l : List α) :
    (rankBy score l).Pairwise fun a b => score b ≤ score a := List.pairwise_insertionSort _ l

/-- What comes after the first of a ranking has no higher score. -/
theorem le_of_mem_drop (h : l.Pairwise fun a b => score b ≤ score a) {m : ℕ} {b : α}
    (ha : a ∈ l.take m) (hb : b ∈ l.drop m) : score b ≤ score a := by
  rw [← List.take_append_drop m l] at h
  exact (List.pairwise_append.mp h).2.2 a ha b hb

/-- A ranking by more than the score is a ranking by the score. -/
theorem pairwise_rankBy_lex {ι : Type*} [LinearOrder ι] (score : α → κ) (tie : α → ι) (l : List α) :
    (rankBy (fun a => toLex (score a, tie a)) l).Pairwise fun a b => score b ≤ score a := by
  refine (pairwise_rankBy _ l).imp fun hle => ?_
  rcases Prod.Lex.toLex_le_toLex.mp hle with hlt | ⟨heq, -⟩
  · exact hlt.le
  · exact heq.le

/-- The `k` highest of some scores, in descending order. -/
def best (k : ℕ) (vals : List κ) : List κ := (vals.insertionSort (· ≥ ·)).take k

/-- The scores of a ranking are in the one descending order that they have. -/
theorem sort_of_perm {sorted : List κ} (hs : sorted.Pairwise (· ≥ ·)) (hp : sorted.Perm vals) :
    vals.insertionSort (· ≥ ·) = sorted := by
  have hperm : (vals.insertionSort (· ≥ ·)).Perm sorted :=
    (List.perm_insertionSort _ vals).trans hp.symm
  refine hperm.eq_of_pairwise ?_ (List.pairwise_insertionSort _ vals) hs
  intro v w _ _ hvw hwv
  exact le_antisymm hwv hvw

theorem best_of_perm {sorted : List κ} (hs : sorted.Pairwise (· ≥ ·))
    (hp : sorted.Perm vals) (k : ℕ) : best k vals = sorted.take k := by
  unfold best
  rw [sort_of_perm hs hp]

theorem best_congr (h : vals.Perm more) (k : ℕ) :
    best k vals = best k more := by
  have hp : (more.insertionSort (· ≥ ·)).Perm vals := (List.perm_insertionSort _ more).trans h.symm
  rw [best_of_perm (List.pairwise_insertionSort _ more) hp]
  rfl

/-- The first of a ranking have the highest scores. -/
theorem map_take_ranked (h : l.Pairwise fun a b => score b ≤ score a)
    (hp : (l.map score).Perm vals) (k : ℕ) : (l.take k).map score = best k vals := by
  have hs : (l.map score).Pairwise (· ≥ ·) := List.pairwise_map.mpr h
  rw [best_of_perm hs hp, List.map_take]

/-- Scores that exceed none of the `k` highest leave them as they are. -/
theorem best_append (hk : k ≤ vals.length) (h : ∀ v ∈ more, ∀ w ∈ best k vals, v ≤ w) :
    best k (vals ++ more) = best k vals := by
  have hsplit : best k vals ++ (vals.insertionSort (· ≥ ·)).drop k = vals.insertionSort (· ≥ ·) :=
    List.take_append_drop k _
  have hsorted := List.pairwise_insertionSort (· ≥ ·) vals
  rw [← hsplit] at hsorted
  obtain ⟨hbest, -, hcross⟩ := List.pairwise_append.mp hsorted
  let others := (vals.insertionSort (· ≥ ·)).drop k ++ more
  have hdesc : (best k vals ++ others.insertionSort (· ≥ ·)).Pairwise (· ≥ ·) := by
    refine List.pairwise_append.mpr ⟨hbest, List.pairwise_insertionSort _ others, ?_⟩
    intro w hw v hv
    rcases List.mem_append.mp ((List.mem_insertionSort _).mp hv) with hv | hv
    · exact hcross w hw v hv
    · exact h v hv w hw
  have hperm : (best k vals ++ others.insertionSort (· ≥ ·)).Perm (vals ++ more) := by
    have hothers : (best k vals ++ others.insertionSort (· ≥ ·)).Perm (best k vals ++ others) :=
      (List.perm_insertionSort _ others).append_left _
    refine hothers.trans ?_
    rw [← List.append_assoc, hsplit]
    exact (List.perm_insertionSort _ vals).append_right _
  have hlength : (best k vals).length = k := by
    simp [best, hk]
  rw [best_of_perm hdesc hperm, List.take_left' hlength]

/-- A ranked list that meets a lower bound at its `k`-th place meets it before. -/
theorem le_of_mem_take {bound : κ} (h : l.Pairwise fun a b => score b ≤ score a) {last : α}
    (hlast : l[k]? = some last) (hbound : bound ≤ score last) (ha : a ∈ l.take (k + 1)) :
    bound ≤ score a := by
  obtain ⟨hk, rfl⟩ := List.getElem?_eq_some_iff.mp hlast
  obtain ⟨i, hi, rfl⟩ := List.getElem_of_mem ha
  rw [List.getElem_take]
  have hik : i ≤ k := by
    rw [List.length_take] at hi
    omega
  rcases hik.lt_or_eq with hlt | rfl
  · exact hbound.trans (List.pairwise_iff_getElem.mp h i k _ hk hlt)
  · exact hbound

end Ranking
