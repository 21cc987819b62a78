import Kaine.Lib.CoMoment
import Mathlib.Algebra.Order.Ring.Rat

/-! The running mean and co-moment matrix behind the direction of the positive control. The running
values are the batch ones. -/
namespace Kaine.Experiment.PrincipalComponent
open CoMoment

variable {K : Type} [Field K]

/-- An input: not an array of numbers, one of another shape, or a vector whose entries are none
where they are not finite. -/
inductive Input (K : Type)
  | unconvertible
  | otherShape
  | vector (entries : List (Option K))

inductive AddError
  | unconvertible
  | notOneDimensional
  | empty
  | nonFinite
  | dimension (expected : Option ℕ) (got : ℕ)

/-- The vector of an input that passes the first checks. -/
def asVector : Input K → Except AddError (List K)
  | .unconvertible => .error .unconvertible
  | .otherShape => .error .notOneDimensional
  | .vector entries =>
    if entries.length = 0 then .error .empty
    else
      match entries.mapM id with
      | none => .error .nonFinite
      | some arr => .ok arr

structure Estimator (K : Type) where
  n : ℕ := 0
  dim : Option ℕ := none
  mean : Option (List K) := none
  m2 : Option (List (List K)) := none

namespace Estimator

def outer (delta delta2 : List K) : List (List K) := delta.map fun a => delta2.map fun b => a * b

/-- The first vector fixes the dimension. -/
def start (s : Estimator K) (dim : ℕ) : Estimator K :=
  { s with
    dim := some dim
    mean := some (List.replicate dim 0)
    m2 := some (List.replicate dim (List.replicate dim 0)) }

/-- The update by a vector that has passed all checks. -/
def accumulate (s : Estimator K) (arr : List K) : Estimator K :=
  let n := s.n + 1
  let delta := List.zipWith (· - ·) arr (s.mean.getD [])
  let mean := List.zipWith (· + ·) (s.mean.getD []) (delta.map (· / (n : K)))
  let delta2 := List.zipWith (· - ·) arr mean
  { s with
    n := n
    mean := some mean
    m2 := some (List.zipWith (List.zipWith (· + ·)) (s.m2.getD []) (outer delta delta2)) }

/-- The estimator after a call, and what the call raised. -/
def add (s : Estimator K) (x : Input K) : Estimator K × Option AddError :=
  match asVector x with
  | .error e => (s, some e)
  | .ok arr =>
    if s.n = 0 then ((s.start arr.length).accumulate arr, none)
    else if some arr.length ≠ s.dim then (s, some (.dimension s.dim arr.length))
    else (s.accumulate arr, none)

/-- The estimator after calls in turn. -/
def addAll (s : Estimator K) (calls : List (Input K)) : Estimator K :=
  calls.foldl (fun s x => (s.add x).1) s

/-- The vectors that calls in turn accept. -/
def accepted (s : Estimator K) : List (Input K) → List (List K)
  | [] => []
  | x :: calls =>
    match asVector x, (s.add x).2 with
    | .ok arr, none => arr :: accepted (s.add x).1 calls
    | _, _ => accepted (s.add x).1 calls

end Estimator

variable {xs ys : List (List K)} {arr : List K} {d : ℕ} {s : Estimator K} {x : Input K}
  {calls : List (Input K)}

/-- An entry of a vector, and one of a matrix. -/
def entry (i : ℕ) (x : List K) : K := x.getD i 0

def cell (m : List (List K)) (i j : ℕ) : K := entry j (m.getD i [])

/-- The average of vectors of a dimension. -/
def batchMean (d : ℕ) (xs : List (List K)) : List K :=
  (List.range d).map fun i => average xs (entry i)

/-- The sum of the outer products of their deviations from it with themselves. -/
def batchM2 (d : ℕ) (xs : List (List K)) : List (List K) :=
  (List.range d).map fun i => (List.range d).map fun j => comoment xs (entry i) (entry j)

namespace Estimator

/-- What the two-pass computation gives. -/
def batch (d : ℕ) (xs : List (List K)) : Estimator K where
  n := xs.length
  dim := some d
  mean := some (batchMean d xs)
  m2 := some (batchM2 d xs)

theorem eq_entries (h : arr.length = d) : arr = (List.range d).map fun i => entry i arr := by
  subst h
  refine List.ext_getElem (by simp) fun i hi hi' => ?_
  simp [entry, List.getD, List.getElem?_eq_getElem hi]

theorem start_eq (hn : s.n = 0) (d : ℕ) : s.start d = batch d [] := by
  simp [start, batch, batchMean, batchM2, average, comoment, List.map_const', hn]

theorem deviation_eq (h : arr.length = d) (xs : List (List K)) :
    List.zipWith (· - ·) arr (batchMean d xs) = (List.range d).map fun i =>
      entry i arr - average xs (entry i) := by
  nth_rewrite 1 [eq_entries h]
  simp only [batchMean, List.zipWith_map, List.zipWith_self]

theorem mean_step [CharZero K] (xs : List (List K)) (h : arr.length = d) :
    List.zipWith (· + ·) (batchMean d xs) ((List.zipWith (· - ·) arr (batchMean d xs)).map
      (· / ((xs.length + 1 : ℕ) : K))) = batchMean d (xs ++ [arr]) := by
  have hterm : ∀ i, average xs (entry i) +
      (entry i arr - average xs (entry i)) / ((xs.length + 1 : ℕ) : K) =
      average (xs ++ [arr]) (entry i) := fun i => (average_concat xs arr (entry i)).symm
  rw [deviation_eq h]
  simp only [batchMean, List.zipWith_map, List.zipWith_self, List.map_map, Function.comp_def, hterm]

theorem m2_step [CharZero K] (xs : List (List K)) (h : arr.length = d) :
    List.zipWith (List.zipWith (· + ·)) (batchM2 d xs)
      (outer (List.zipWith (· - ·) arr (batchMean d xs))
        (List.zipWith (· - ·) arr (batchMean d (xs ++ [arr])))) =
      batchM2 d (xs ++ [arr]) := by
  have hterm : ∀ i j, comoment xs (entry i) (entry j) +
      (entry i arr - average xs (entry i)) * (entry j arr - average (xs ++ [arr]) (entry j)) =
        comoment (xs ++ [arr]) (entry i) (entry j) :=
          fun i j => (comoment_concat xs arr (entry i) (entry j)).symm
  rw [deviation_eq h, deviation_eq h]
  simp only [batchM2, outer, List.zipWith_map, List.zipWith_self, List.map_map,
    Function.comp_def, hterm]

theorem accumulate_batch [CharZero K] (h : arr.length = d) :
    (batch d xs).accumulate arr = batch d (xs ++ [arr]) := by
  have hmean := mean_step xs h
  have hm2 := m2_step xs h
  have hlength : (xs ++ [arr]).length = xs.length + 1 := by
    rw [List.length_append, List.length_singleton]
  rw [← hmean] at hm2
  unfold batch accumulate
  rw [hlength, ← hm2, ← hmean]
  rfl

/-- The estimator is the batch one of the vectors it has accepted, all of one dimension. -/
def IsBatch (s : Estimator K) (xs : List (List K)) : Prop :=
  (xs = [] ∧ s = {}) ∨ ∃ d, xs ≠ [] ∧ (∀ x ∈ xs, x.length = d) ∧ s = batch d xs

/-- A call that raises changes nothing; another accepts its vector. -/
theorem add_isBatch [CharZero K] (x : Input K) (h : s.IsBatch xs) :
    (∀ e, (s.add x).2 = some e → (s.add x).1 = s) ∧
      ∀ arr, asVector x = .ok arr → (s.add x).2 = none → (s.add x).1.IsBatch (xs ++ [arr]) := by
  unfold add
  cases hx : asVector x with
  | error e => exact ⟨fun _ _ => rfl, fun _ harr => by cases harr⟩
  | ok arr =>
    dsimp only
    rcases h with ⟨rfl, rfl⟩ | ⟨d, hne, hall, rfl⟩
    · rw [if_pos rfl]
      refine ⟨fun _ he => (by cases he), fun arr' harr _ => ?_⟩
      cases harr
      refine .inr ⟨arr.length, List.cons_ne_nil _ _, fun y hy => ?_, ?_⟩
      · rw [List.mem_singleton.mp hy]
      · rw [start_eq rfl, accumulate_batch rfl]
    · have hn : ¬ (batch d xs).n = 0 := fun hzero => hne (List.eq_nil_of_length_eq_zero hzero)
      rw [if_neg hn]
      by_cases hdim : some arr.length ≠ (batch d xs).dim
      · rw [if_pos hdim]
        exact ⟨fun _ _ => rfl, fun _ _ hraised => by cases hraised⟩
      · rw [if_neg hdim]
        have hlength : arr.length = d := Option.some.inj (not_not.mp hdim)
        refine ⟨fun _ he => (by cases he), fun arr' harr _ => ?_⟩
        cases harr
        refine .inr ⟨d, List.append_ne_nil_of_right_ne_nil _ (List.cons_ne_nil _ _), fun y hy => ?_,
          accumulate_batch hlength⟩
        rcases List.mem_append.mp hy with hy | hy
        · exact hall y hy
        · rw [List.mem_singleton.mp hy]
          exact hlength

theorem addAll_isBatch [CharZero K] (calls : List (Input K)) (h : s.IsBatch xs) :
    (s.addAll calls).IsBatch (xs ++ s.accepted calls) := by
  induction calls generalizing s xs with
  | nil =>
    rw [accepted, List.append_nil]
    exact h
  | cons x calls ih =>
    obtain ⟨hraised, haccepted⟩ := add_isBatch x h
    have hstep : s.addAll (x :: calls) = (s.add x).1.addAll calls := rfl
    rw [hstep, accepted]
    cases hx : asVector x with
    | error e =>
      have hsame : (s.add x).1 = s := hraised e (by rw [add, hx])
      rw [hsame]
      exact ih h
    | ok arr =>
      cases he : (s.add x).2 with
      | some e =>
        rw [hraised e he]
        exact ih h
      | none =>
        have hnext := ih (haccepted arr hx he)
        rwa [List.append_assoc] at hnext

theorem isBatch_new : ({} : Estimator K).IsBatch [] := .inl ⟨rfl, rfl⟩

end Estimator

theorem cell_batchM2 (d : ℕ) (xs : List (List K)) (i j : ℕ) :
    cell (batchM2 d xs) i j = if i < d ∧ j < d then comoment xs (entry i) (entry j) else 0 := by
  unfold cell batchM2 entry
  by_cases hi : i < d
  · by_cases hj : j < d
    · simp [List.getD, hi, hj]
    · simp [List.getD, hi, hj]
  · simp [List.getD, hi]

theorem batchMean_perm (h : xs.Perm ys) (d : ℕ) : batchMean d xs = batchMean d ys := by
  unfold batchMean
  simp only [average_perm h]

theorem batchM2_perm (h : xs.Perm ys) (d : ℕ) : batchM2 d xs = batchM2 d ys := by
  unfold batchM2
  simp only [comoment_perm h]

theorem Estimator.IsBatch.perm {t : Estimator K} (hs : s.IsBatch xs) (ht : t.IsBatch ys)
    (h : xs.Perm ys) : s = t := by
  rcases hs with ⟨rfl, rfl⟩ | ⟨d, hne, hall, rfl⟩
  · rcases ht with ⟨-, rfl⟩ | ⟨d', hne', -, -⟩
    · rfl
    · exact absurd h.nil_eq.symm hne'
  · rcases ht with ⟨rfl, -⟩ | ⟨d', hne', hall', rfl⟩
    · exact absurd h.eq_nil hne
    · obtain ⟨first, hfirst⟩ := List.exists_mem_of_ne_nil xs hne
      have hdim : d = d' := (hall first hfirst).symm.trans (hall' first (h.mem_iff.mp hfirst))
      subst hdim
      unfold Estimator.batch
      rw [h.length_eq, batchMean_perm h, batchM2_perm h]

section ordered

variable [LinearOrder K] [IsStrictOrderedRing K]

/-- After any calls, with `xs` the vectors that were accepted. -/
structure Estimator.RunSpec (s : Estimator K) (xs : List (List K)) : Prop where
  n : s.n = xs.length
  dim : s.dim = xs.head?.map List.length
  mean : s.mean = xs.head?.map fun first => batchMean first.length xs
  m2 : s.m2 = xs.head?.map fun first => batchM2 first.length xs
  symmetric : ∀ m2 ∈ s.m2, ∀ i j, cell m2 i j = cell m2 j i
  positive : ∀ m2 ∈ s.m2, ∀ d ∈ s.dim, ∀ w : ℕ → K,
    0 ≤ ∑ i ∈ Finset.range d, ∑ j ∈ Finset.range d, w i * cell m2 i j * w j

namespace Estimator

theorem positive_batchM2 (d : ℕ) (xs : List (List K)) (w : ℕ → K) :
    0 ≤ ∑ i ∈ Finset.range d, ∑ j ∈ Finset.range d, w i * cell (batchM2 d xs) i j * w j := by
  have hcell : (∑ i ∈ Finset.range d, ∑ j ∈ Finset.range d, w i * cell (batchM2 d xs) i j * w j) =
      ∑ i ∈ Finset.range d, ∑ j ∈ Finset.range d, w i * comoment xs (entry i) (entry j) * w j :=
    Finset.sum_congr rfl fun i hi => Finset.sum_congr rfl fun j hj => by
      rw [cell_batchM2, if_pos ⟨Finset.mem_range.mp hi, Finset.mem_range.mp hj⟩]
  rw [hcell]
  exact comoment_form_nonneg xs (Finset.range d) entry w

theorem IsBatch.runSpec (h : s.IsBatch xs) : s.RunSpec xs := by
  rcases h with ⟨rfl, rfl⟩ | ⟨d, hne, hall, rfl⟩
  · exact ⟨rfl, rfl, rfl, rfl, fun m2 hm2 => (by cases hm2), fun m2 hm2 => (by cases hm2)⟩
  · obtain ⟨first, rest, rfl⟩ := List.exists_cons_of_ne_nil hne
    have hfirst : first.length = d := hall first List.mem_cons_self
    refine ⟨rfl, congrArg some hfirst.symm, ?_, ?_, ?_, ?_⟩
    · rw [List.head?_cons, Option.map_some, hfirst]
      rfl
    · rw [List.head?_cons, Option.map_some, hfirst]
      rfl
    · intro m2 hm2 i j
      cases hm2
      rw [cell_batchM2, cell_batchM2, comoment_comm]
      exact if_congr and_comm rfl rfl
    · intro m2 hm2 d' hd' w
      cases hm2
      cases hd'
      exact positive_batchM2 d _ w

/-- After any calls the estimator holds the batch average and co-moments of the accepted vectors,
the same for any calls that accept them in another order, and a call that raises leaves it as it
is. -/
theorem addAll_batch (calls : List (Input K)) :
    RunSpec (addAll {} calls) (accepted {} calls) ∧
      (∀ calls' : List (Input K), (accepted {} calls').Perm (accepted {} calls) →
        addAll {} calls' = addAll {} calls) ∧
      ∀ x e, ((addAll {} calls).add x).2 = some e →
        ((addAll {} calls).add x).1 = addAll {} calls := by
  have hbatch (calls : List (Input K)) : (addAll {} calls).IsBatch (accepted {} calls) :=
    addAll_isBatch calls isBatch_new
  exact ⟨(hbatch calls).runSpec, fun calls' hperm => (hbatch calls').perm (hbatch calls) hperm,
    fun x => (add_isBatch x (hbatch calls)).1⟩

/-- Two vectors with a call between them that raises. -/
def twoAccepted : List (Input ℚ) :=
  [.vector [some 0, some 2], .otherShape, .vector [some 2, some 4]]

theorem addAll_twoAccepted : (addAll {} twoAccepted).m2 = some [[2, 2], [2, 2]] ∧
    RunSpec (addAll {} twoAccepted) (accepted {} twoAccepted) :=
  ⟨by decide +kernel, (addAll_batch twoAccepted).1⟩

end Estimator

end ordered

end Kaine.Experiment.PrincipalComponent
