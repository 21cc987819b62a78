import Kaine.Lib.Assoc
import Kaine.Lib.SortBy
import Mathlib.Algebra.Order.Ring.Int

/-! Whether the enabled components fit their memory domains together (`kaine/residency/fit.py`). The
texts of a report are left out, and of a budgeted domain all but its name and budget. -/
namespace Kaine.Residency

structure Need where
  component : String
  domain : String
  footprintBytes : Option ℕ := none
  estimateBytes : Option ℕ := none
  interactive : Bool := false
  deriving DecidableEq

structure Domain where
  name : String
  budgetBytes : Option ℤ
  deriving DecidableEq

inductive FitStatus where
  | unknownBudget | coResides | multiplex | doesNotFit
  deriving DecidableEq

structure DomainFit where
  domain : String
  budgetBytes : Option ℤ
  needBytes : ℕ
  status : FitStatus
  shortfallBytes : ℤ
  pinned : Option String
  multiplexed : List String
  singleShortfallBytes : ℤ := 0
  deriving DecidableEq

structure FitReport where
  domains : List DomainFit := []
  coResides : Bool := true
  uncalibrated : List String := []
  deriving DecidableEq

/-- `groups.setdefault(need.domain, []).append(need)`. -/
def addNeed (groups : List (String × List Need)) (need : Need) : List (String × List Need) :=
  Assoc.assign groups need.domain ((groups.lookup need.domain).getD [] ++ [need])

def groupNeedsByDomain (needs : List Need) : List (String × List Need) := needs.foldl addNeed []

/-- The bytes of a need, whether they are its footprint and whether they are its estimate. -/
def effectiveBytes (need : Need) : ℕ × Bool × Bool :=
  match need.footprintBytes, need.estimateBytes with
  | some bytes, _ => (bytes, true, false)
  | none, some bytes => (bytes, false, true)
  | none, none => (0, false, false)

def Need.bytes (need : Need) : ℕ := (effectiveBytes need).1

/-- The need has no figure. -/
def Need.missing (need : Need) : Bool := !(effectiveBytes need).2.1 && !(effectiveBytes need).2.2

/-- The sizes by component: of several needs of one component the last. -/
def sizesOf (needs : List Need) : List (String × ℕ) :=
  Assoc.assignAll [] (needs.map fun need => (need.component, need.bytes))

/-- `max(sizes, default=0)`. -/
def largestOf (sizes : List (String × ℕ)) : ℕ := (sizes.map Prod.snd).foldl max 0

def otherMax (sizes : List (String × ℕ)) (component : String) : ℕ :=
  largestOf (sizes.filter (·.1 ≠ component))

/-- The components that may be pinned, in the order in which they are tried. -/
def candidatesOf (pin : String) (needs : List Need) (sizes : List (String × ℕ)) : List String :=
  (if (sizes.lookup pin).isSome then [pin] else []) ++
    ((SortBy.sortBy (fun need => OrderDual.toDual need.bytes) needs).filter fun need =>
      need.interactive && need.component ≠ pin).map Need.component

def pinnedOf (pin : String) (needs : List Need) (budget : ℤ) : Option String :=
  let sizes := sizesOf needs
  (candidatesOf pin needs sizes).find? fun candidate =>
    ((sizes.lookup candidate).getD 0 : ℤ) + otherMax sizes candidate ≤ budget

/-- The fit of one domain, and what is left of `co_resides` after it. -/
def fitDomain (budgets : List (String × Domain)) (pin : String) (coResides : Bool) (domain : String)
    (needs : List Need) : DomainFit × Bool :=
  let budgetBytes := (budgets.lookup domain).bind Domain.budgetBytes
  let needBytes := (needs.map Need.bytes).sum
  if needs.any Need.missing then
    (⟨domain, budgetBytes, 0, .unknownBudget, 0, none, needs.map Need.component, 0⟩, false)
  else
    match budgetBytes with
    | none =>
      (⟨domain, none, needBytes, .unknownBudget, 0, none, needs.map Need.component, 0⟩, false)
    | some budget =>
      if (needBytes : ℤ) ≤ budget then (⟨domain, some budget, needBytes, .coResides, 0, none, [],
        0⟩, coResides)
      else
        let pinned := pinnedOf pin needs budget
        let multiplexed :=
          (needs.filter fun need => some need.component ≠ pinned).map Need.component
        let largest := largestOf (sizesOf needs)
        let status : FitStatus :=
          if pinned.isSome then .multiplex else if (largest : ℤ) ≤ budget then .multiplex
            else .doesNotFit
        (⟨domain, some budget, needBytes, status, needBytes - budget, pinned, multiplexed,
          if status = .doesNotFit then largest - budget else 0⟩, false)

def fitReport (budgets : List Domain) (needs : List Need) (pin : String) : FitReport :=
  let budgetByDomain := Assoc.assignAll [] (budgets.map fun budget => (budget.name, budget))
  (groupNeedsByDomain needs).foldl (fun report group =>
    let fit := fitDomain budgetByDomain pin report.coResides group.1 group.2
    { domains := report.domains ++ [fit.1]
      coResides := fit.2
      uncalibrated := report.uncalibrated ++
        (group.2.filter fun need => !(effectiveBytes need).2.1).map Need.component }) {}

end Kaine.Residency
