import Mathlib.Data.List.Perm.Basic

/-! Threads as the lists of the actions they have left, over any type of actions. One thread at a
time takes its first action, which may put others in its place. -/
namespace Threads

variable {α : Type*}

/-- Taking the first action of a thread removes it from all that is left to do and adds what it
starts. -/
theorem exists_perm_set {threads : List (List α)} {i : ℕ} {a : α} {rest : List α}
    (hi : threads[i]? = some (a :: rest)) :
    ∃ others, threads.flatten.Perm (a :: others) ∧
      ∀ new, (threads.set i (new ++ rest)).flatten.Perm (new ++ others) := by
  induction threads generalizing i with
  | nil => simp at hi
  | cons t ts ih =>
    cases i with
    | zero =>
      have ht : t = a :: rest := by simpa using hi
      refine ⟨rest ++ ts.flatten, by simp [ht], ?_⟩
      intro new
      simp
    | succ i =>
      obtain ⟨others, hall, hset⟩ := ih (by simpa using hi)
      refine ⟨t ++ others, ?_, ?_⟩
      · have hlater := hall.append_left t
        exact hlater.trans List.perm_middle
      · intro new
        have hlater := (hset new).append_left t
        have hswap : (t ++ (new ++ others)).Perm (new ++ (t ++ others)) := by
          rw [← List.append_assoc, ← List.append_assoc]
          exact List.perm_append_comm.append_right others
        exact hlater.trans hswap

end Threads
