import Kaine.Lib.Assoc
import Kaine.Lib.PyFloat

/-! The values that `json.loads` can return, with Python's equality, truth and dict operations. -/
namespace Py

inductive Json where
  | null
  | bool (b : Bool)
  | int (n : ℤ)
  | float (x : PyFloat)
  | str (s : String)
  | arr (xs : List Json)
  | obj (kvs : List (String × Json))
  deriving Repr

/-- A Python dict with string keys, in insertion order. -/
abbrev Dict := List (String × Json)

namespace Json

mutual

def decEq : (a b : Json) → Decidable (a = b)
  | .null, .null => isTrue rfl
  | .bool a, .bool b => decidable_of_iff (a = b) (by simp)
  | .int a, .int b => decidable_of_iff (a = b) (by simp)
  | .float a, .float b => decidable_of_iff (a = b) (by simp)
  | .str a, .str b => decidable_of_iff (a = b) (by simp)
  | .arr a, .arr b =>
    match decEqList a b with
    | isTrue h => isTrue (by rw [h])
    | isFalse h => isFalse (by simpa using h)
  | .obj a, .obj b =>
    match decEqDict a b with
    | isTrue h => isTrue (by rw [h])
    | isFalse h => isFalse (by simpa using h)
  | .null, .bool _ | .null, .int _ | .null, .float _ | .null, .str _ | .null, .arr _
  | .null, .obj _ | .bool _, .null | .bool _, .int _ | .bool _, .float _ | .bool _, .str _
  | .bool _, .arr _ | .bool _, .obj _ | .int _, .null | .int _, .bool _ | .int _, .float _
  | .int _, .str _ | .int _, .arr _ | .int _, .obj _ | .float _, .null | .float _, .bool _
  | .float _, .int _ | .float _, .str _ | .float _, .arr _ | .float _, .obj _ | .str _, .null
  | .str _, .bool _ | .str _, .int _ | .str _, .float _ | .str _, .arr _ | .str _, .obj _
  | .arr _, .null | .arr _, .bool _ | .arr _, .int _ | .arr _, .float _ | .arr _, .str _
  | .arr _, .obj _ | .obj _, .null | .obj _, .bool _ | .obj _, .int _ | .obj _, .float _
  | .obj _, .str _ | .obj _, .arr _ => isFalse (by simp)

def decEqList : (a b : List Json) → Decidable (a = b)
  | [], [] => isTrue rfl
  | [], _ :: _ | _ :: _, [] => isFalse (by simp)
  | x :: xs, y :: ys =>
    match decEq x y, decEqList xs ys with
    | isTrue h, isTrue h' => isTrue (by rw [h, h'])
    | isFalse h, _ => isFalse (by simp [h])
    | _, isFalse h => isFalse (by simp [h])

def decEqDict : (a b : List (String × Json)) → Decidable (a = b)
  | [], [] => isTrue rfl
  | [], _ :: _ | _ :: _, [] => isFalse (by simp)
  | (k, v) :: xs, (k', v') :: ys =>
    if hk : k = k' then
      match decEq v v', decEqDict xs ys with
      | isTrue h, isTrue h' => isTrue (by rw [hk, h, h'])
      | isFalse h, _ => isFalse (by simp [h])
      | _, isFalse h => isFalse (by simp [h])
    else isFalse (by simp [hk])

end

instance : DecidableEq Json := decEq

/-- The value of a number, where a bool counts as one. -/
def asNumber : Json → Option PyFloat
  | .bool b => some (.fin (if b then 1 else 0))
  | .int n => some (.fin n)
  | .float x => some x
  | _ => none

mutual

/-- `v == w` for two items of containers, which are also equal where they are one object: a
parsed JSON text has a single NaN. -/
def itemEq : (v w : Json) → Bool
  | .null, .null => true
  | .str s, .str t => s = t
  | .arr xs, .arr ys => listEq xs ys
  | .obj d, .obj e => d.length = e.length && dictEq d e
  | v, w => v.asNumber.isSome && v.asNumber = w.asNumber

def listEq : (xs ys : List Json) → Bool
  | [], [] => true
  | x :: xs, y :: ys => itemEq x y && listEq xs ys
  | _, _ => false

def dictEq : (d e : List (String × Json)) → Bool
  | [], _ => true
  | (k, v) :: d, e => (match e.lookup k with | some w => itemEq v w | none => false) && dictEq d e

end

/-- `v == w`. A NaN on its own equals nothing. -/
def pyEq (v w : Json) : Bool := v ≠ .float .nan && itemEq v w

/-- `bool(v)`. A NaN is true. -/
def truthy : Json → Bool
  | .null => false
  | .bool b => b
  | .int n => n ≠ 0
  | .float x => x ≠ .fin 0
  | .str s => s ≠ ""
  | .arr xs => !xs.isEmpty
  | .obj kvs => !kvs.isEmpty

/-- `float(v)`, with `ofText` for the text that `float` reads. -/
def toFloat (ofText : String → Option PyFloat) : Json → Except PyError PyFloat
  | .bool b => .ok (.fin (if b then 1 else 0))
  | .int n => PyFloat.ofInt n
  | .float x => .ok x
  | .str s =>
    match ofText s with
    | some x => .ok x
    | none => .error .valueError
  | .null | .arr _ | .obj _ => .error .typeError

/-- The dict inside an object, none for any other value (`isinstance(v, dict)`). -/
def asDict : Json → Option Dict
  | .obj kvs => some kvs
  | _ => none

end Json

namespace Dict

/-- `d.get(key)`, with Python's `None` for a missing key. -/
def get (d : Dict) (key : String) : Json := (d.lookup key).getD .null

/-- `d.get(key, default)`. -/
def getD (d : Dict) (key : String) (default : Json) : Json := (d.lookup key).getD default

/-- `key in d`. -/
def has (d : Dict) (key : String) : Bool := (d.lookup key).isSome

/-- `d[key] = value`. -/
def set (d : Dict) (key : String) (value : Json) : Dict := Assoc.assign d key value

/-- `d.pop(key, None)`. -/
def erase (d : Dict) (key : String) : Dict := d.filter (fun kv => kv.1 ≠ key)

/-- `d.update(e)`. -/
def update (d e : Dict) : Dict := Assoc.assignAll d e

@[simp] theorem lookup_set_self (d : Dict) (key : String) (value : Json) :
    (d.set key value).lookup key = some value := Assoc.lookup_assign_self d key value

/-- Writing back the value a key already has changes nothing. -/
theorem set_lookup {d : Dict} {key : String} {value : Json} (h : d.lookup key = some value) :
    d.set key value = d := Assoc.assign_lookup h

end Dict
end Py
