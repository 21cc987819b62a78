import Mathlib.Tactic.Abel

/-! A count that is kept in memory in front of a store, and the account that its steps keep. -/
namespace WriteBehind

/-- What is stored and what is yet to be, and the sums of all that was counted and given up. -/
structure Counter (M : Type*) where
  stored : M
  pending : M
  counted : M
  discarded : M

variable {M : Type*} [AddCommGroup M] {c d : Counter M}

inductive Step : Counter M → Counter M → Prop where
  | count (c : Counter M) (amount : M) :
      Step c { c with pending := c.pending + amount, counted := c.counted + amount }
  /-- What is pending goes to the store as a whole. -/
  | persist (c : Counter M) : Step c { c with stored := c.stored + c.pending, pending := 0 }
  /-- What is pending is lost as a whole. -/
  | discard (c : Counter M) : Step c { c with pending := 0, discarded := c.discarded + c.pending }

/-- What is held or given up beyond what was counted. -/
def Counter.surplus (c : Counter M) : M := c.stored + c.pending + c.discarded - c.counted

theorem Step.surplus_eq (h : Step c d) : d.surplus = c.surplus := by
  cases h with
  | count amount =>
    simp only [Counter.surplus]
    abel
  | persist =>
    simp only [Counter.surplus]
    abel
  | discard =>
    simp only [Counter.surplus]
    abel

/-- However the steps are ordered, nothing is counted twice and nothing else is lost. -/
theorem steps_surplus_eq (h : Relation.ReflTransGen Step c d) : d.surplus = c.surplus := by
  induction h with
  | refl => rfl
  | tail _ hstep ih => exact hstep.surplus_eq.trans ih

end WriteBehind
