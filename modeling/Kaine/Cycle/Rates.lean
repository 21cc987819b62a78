import Kaine.Lib.Json
import Kaine.Lib.Transition

/-! The two rates of the cognitive cycle and every path that sets them (`CognitiveCycle` in
`kaine/cycle/engine.py`). -/
namespace Kaine.RateControl
open Py

structure Rates where
  processingRate : PyFloat
  /-- The cached subjective tick period. -/
  targetTickPeriod : PyFloat
  experientialRate : PyFloat
  effectiveExperientialRate : PyFloat
  /-- Whether an access-rate controller is wired. -/
  accessRate : Bool
  deriving DecidableEq

def minProcessingRateHz : PyFloat := .fin (1 / 2)
def maxProcessingRateHz : PyFloat := .fin 20
def reduceRateFactor : ℚ := 4 / 5

/-- The constructor's checks and the rates it starts with. -/
def init (processingRateHz : PyFloat) (experientialRateHz : Option PyFloat) (accessRate : Bool) :
    Except PyError Rates :=
  if processingRateHz.le (.fin 0) then .error .valueError
  else if experientialRateHz.any fun hz => hz.le (.fin 0) then .error .valueError
  else
    let experiential := experientialRateHz.getD processingRateHz
    .ok ⟨processingRateHz, processingRateHz.recip, experiential, experiential, accessRate⟩

/-- The single setter of the processing rate; its callers have refused zero. -/
def applyProcessingRate (hz : PyFloat) (s : Rates) : Rates :=
  { s with processingRate := hz, targetTickPeriod := hz.recip }

def setProcessingRate (hz : PyFloat) (s : Rates) : Except PyError Rates :=
  if hz.le (.fin 0) then .error .valueError else .ok (applyProcessingRate hz s)

/-- The assignment of an experiential rate; a wired controller keeps its own effective rate. -/
def applyExperientialRate (hz : PyFloat) (s : Rates) : Rates :=
  { s with
    experientialRate := hz
    effectiveExperientialRate := if s.accessRate then s.effectiveExperientialRate else hz }

def setExperientialRate (hz : PyFloat) (s : Rates) : Except PyError Rates :=
  if hz.le (.fin 0) then .error .valueError else .ok (applyExperientialRate hz s)

section
-- Python's `float` on text; nothing is assumed of it.
variable (ofText : String → Option PyFloat)

/-- `float(payload[key])`, none when the key is absent. -/
def requestedRate (payload : Dict) (key : String) : Except PyError (Option PyFloat) :=
  match payload.lookup key with
  | none => .ok none
  | some value => (value.toFloat ofText).map some

/-- The handler of the try block: only `TypeError` and `ValueError` become a refusal. -/
def handle : PyError → Except PyError Bool
  | .typeError | .valueError => .ok false
  | e => .error e

/-- The second half of the try block, run on the state the first half left. -/
def applyExperientialPart (payload : Dict) (updated : Bool) (s : Rates) :
    Except PyError Bool × Rates :=
  match requestedRate ofText payload "experiential_rate_hz" with
  | .error e => (handle e, s)
  | .ok none => (.ok updated, s)
  | .ok (some newExp) =>
    if newExp.le (.fin 0) then (.ok false, s) else (.ok true, applyExperientialRate newExp s)

/-- What a `cycle.set_rates` payload returns or raises, and the rates it leaves. The
`cycle.rates` event that follows is published under a handler of its own. -/
def applyRateControlEvent (payload : Dict) (s : Rates) : Except PyError Bool × Rates :=
  match requestedRate ofText payload "processing_rate_hz" with
  | .error e => (handle e, s)
  | .ok none => applyExperientialPart ofText payload false s
  | .ok (some newProc) =>
    if newProc.le (.fin 0) then (.ok false, s)
    else applyExperientialPart ofText payload true (applyProcessingRate newProc s)

/-- The `reduce_rate` advisory of the interoception module. -/
def reduceRate (s : Rates) : Rates :=
  applyProcessingRate
    (PyFloat.pyMax minProcessingRateHz
      (PyFloat.pyMin maxProcessingRateHz (s.processingRate.scale reduceRateFactor))) s

/-- The per-tick refresh of the effective rate; `none` is a controller that raised. -/
def updateAccessRate (effective : Option PyFloat) (s : Rates) : Rates :=
  { s with effectiveExperientialRate :=
      if s.accessRate then effective.getD s.experientialRate else s.experientialRate }

inductive RateOp where
  | setRates (payload : Dict)
  | setProcessingRate (hz : PyFloat)
  | setExperientialRate (hz : PyFloat)
  | reduceRate
  | updateAccessRate (effective : Option PyFloat)

/-- The rates after a call; a setter that raises leaves them alone. -/
def perform (s : Rates) : RateOp → Rates
  | .setRates payload => (applyRateControlEvent ofText payload s).2
  | .setProcessingRate hz => (setProcessingRate hz s).toOption.getD s
  | .setExperientialRate hz => (setExperientialRate hz s).toOption.getD s
  | .reduceRate => reduceRate s
  | .updateAccessRate effective => updateAccessRate effective s

def Step (s : Rates) (op : RateOp) (t : Rates) : Prop := t = perform ofText s op

end
end Kaine.RateControl
