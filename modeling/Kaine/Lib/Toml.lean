import Kaine.Lib.Assoc
import Mathlib.Data.Nat.Digits.Lemmas

/-! Python values, and what `tomllib.loads` makes of the part of TOML that has a statement on each
line. -/
namespace Toml

/-- A Python object; those of other types are told apart by a number. -/
inductive Value (F : Type) where
  | none
  | bool (b : Bool)
  | int (n : ℤ)
  | float (x : F)
  | str (s : String)
  | list (xs : List (Value F))
  | dict (kvs : List (String × Value F))
  | other (type : String) (id : ℕ)

/-- A Python dict with string keys, in insertion order. -/
abbrev Dict (F : Type) := List (String × Value F)

inductive FloatKind where
  | finite
  | posInf
  | negInf
  | nan
  deriving DecidableEq

/-- A number with a fraction or an exponent, as `repr` writes one. -/
structure Decimal where
  negative : Bool
  whole : List Char
  fraction : List Char
  exponent : Option (Bool × List Char)
  whole_ne : whole ≠ []
  whole_digits : ∀ c ∈ whole, c.isDigit = true
  whole_head : whole.head? = some '0' → whole = ['0']
  fraction_digits : ∀ c ∈ fraction, c.isDigit = true
  exponent_digits : ∀ e, exponent = some e → e.2 ≠ [] ∧ ∀ c ∈ e.2, c.isDigit = true
  real : fraction ≠ [] ∨ exponent.isSome = true

namespace Decimal

def signText (d : Decimal) : List Char := if d.negative then ['-'] else []
def fractionText (d : Decimal) : List Char := if d.fraction = [] then [] else '.' :: d.fraction

def exponentText (d : Decimal) : List Char :=
  match d.exponent with
  | none => []
  | some e => 'e' :: (if e.1 then '-' else '+') :: e.2

def text (d : Decimal) : List Char := d.signText ++ (d.whole ++ (d.fractionText ++ d.exponentText))

end Decimal

/-- Floats with their `repr`, with `float` of a text, and with `==`. -/
structure FloatText (F : Type) where
  kind : F → FloatKind
  repr : F → List Char
  ofText : List Char → F
  eq : F → F → Bool
  repr_finite {x : F} (h : kind x = .finite) : ∃ d : Decimal, repr x = d.text
  repr_posInf {x : F} (h : kind x = .posInf) : repr x = ['i', 'n', 'f']
  repr_negInf {x : F} (h : kind x = .negInf) : repr x = ['-', 'i', 'n', 'f']
  ofText_repr {x : F} (h : kind x ≠ .nan) : ofText (repr x) = x
  eq_self {x : F} (h : kind x ≠ .nan) : eq x x = true

/-- `sys.get_int_max_str_digits()`: integers with more digits are neither written nor read. -/
def intMaxStrDigits : ℕ := 4300

section Same
variable {F : Type} (floats : FloatText F)

mutual

/-- `v == w` of objects of one type. -/
def same : (v w : Value F) → Bool
  | .none, .none => true
  | .bool a, .bool b => a = b
  | .int m, .int n => m = n
  | .float x, .float y => floats.eq x y
  | .str s, .str t => s = t
  | .list xs, .list ys => sameList xs ys
  | .dict d, .dict e => d.length = e.length && sameDict d e
  | .other _ i, .other _ j => i = j
  | _, _ => false

def sameList : (xs ys : List (Value F)) → Bool
  | [], [] => true
  | x :: xs, y :: ys => same x y && sameList xs ys
  | _, _ => false

def sameDict : (d e : List (String × Value F)) → Bool
  | [], _ => true
  | (k, v) :: d, e => (match e.lookup k with | some w => same v w | none => false) && sameDict d e

end

end Same

section Reader

def isWs (c : Char) : Bool := c = ' ' || c = '\t'
def isBareKeyChar (c : Char) : Bool := c.isAlphanum || c = '-' || c = '_'

/-- What a basic string must not hold as it stands. -/
def isIllegal (c : Char) : Bool := (c.toNat < 0x20 && c ≠ '\t') || c.toNat = 0x7F

def skipWs (src : List Char) : List Char := src.dropWhile isWs

def hexValue (c : Char) : Option ℕ :=
  if c.isDigit then some (c.toNat - 48)
  else if 'a' ≤ c ∧ c ≤ 'f' then some (c.toNat - 87)
  else if 'A' ≤ c ∧ c ≤ 'F' then some (c.toNat - 55)
  else none

/-- The number of a run of hexadecimal digits. -/
def hexNumber : ℕ → List Char → Option ℕ
  | acc, [] => some acc
  | acc, c :: rest => (hexValue c).bind fun n => hexNumber (acc * 16 + n) rest

/-- A character by its number, where it is a scalar value. -/
def scalarChar (n : ℕ) : Option Char := if n.isValidChar then some (Char.ofNat n) else none

def simpleEscape (c : Char) : Option Char :=
  if c = 'b' then some '\x08'
  else if c = 't' then some '\t'
  else if c = 'n' then some '\n'
  else if c = 'f' then some '\x0c'
  else if c = 'r' then some '\r'
  else if c = '"' then some '"'
  else if c = '\\' then some '\\'
  else none

/-- `parse_basic_str` behind the quotation mark, for a string on one line. -/
def parseBasicStr : List Char → Option (List Char × List Char)
  | [] => none
  | '"' :: rest => some ([], rest)
  | '\\' :: 'u' :: a :: b :: c :: d :: rest =>
    ((hexNumber 0 [a, b, c, d]).bind scalarChar).bind fun ch =>
      (parseBasicStr rest).map fun r => (ch :: r.1, r.2)
  | '\\' :: 'U' :: a :: b :: c :: d :: e :: f :: g :: h :: rest =>
    ((hexNumber 0 [a, b, c, d, e, f, g, h]).bind scalarChar).bind fun ch =>
      (parseBasicStr rest).map fun r => (ch :: r.1, r.2)
  | '\\' :: e :: rest =>
    (simpleEscape e).bind fun ch => (parseBasicStr rest).map fun r => (ch :: r.1, r.2)
  | c :: rest =>
    if c = '\\' ∨ isIllegal c then none else (parseBasicStr rest).map fun r => (c :: r.1, r.2)

def parseKeyPart : List Char → Option (String × List Char)
  | [] => none
  | c :: rest =>
    if isBareKeyChar c then
      some (String.ofList ((c :: rest).takeWhile isBareKeyChar),
        (c :: rest).dropWhile isBareKeyChar)
    else if c = '"' then (parseBasicStr rest).map fun r => (String.ofList r.1, r.2)
    else none

/-- `parse_key`, for so many parts at most. -/
def parseKey : ℕ → List Char → Option (List String × List Char)
  | 0, _ => none
  | fuel + 1, src =>
    (parseKeyPart src).bind fun part =>
      if (skipWs part.2).head? = some '.' then
        (parseKey fuel (skipWs ((skipWs part.2).drop 1))).map fun more => (part.1 :: more.1, more.2)
      else some ([part.1], skipWs part.2)

def signOf (src : List Char) : List Char :=
    src.take (if src.head? = some '-' ∨ src.head? = some '+' then 1 else 0)

/-- The digits of the integer part; behind a zero there are none. -/
def wholeOf (src : List Char) : List Char :=
  if src.head? = some '0' then ['0'] else src.takeWhile Char.isDigit

def fractionOf (src : List Char) : List Char :=
  if src.head? = some '.' ∧ (src.drop 1).takeWhile Char.isDigit ≠ [] then
    '.' :: (src.drop 1).takeWhile Char.isDigit
  else []

def exponentOf (src : List Char) : List Char :=
  let sign := signOf (src.drop 1)
  let digits := (src.drop (1 + sign.length)).takeWhile Char.isDigit
  if (src.head? = some 'e' ∨ src.head? = some 'E') ∧ digits ≠ [] then src.take 1 ++ (sign ++ digits)
    else []

variable {F : Type} (floats : FloatText F)

/-- A decimal number (`RE_NUMBER`). -/
def parseNumber (src : List Char) : Option (Value F × List Char) :=
  let sign := signOf src
  let unsigned := src.drop sign.length
  let whole := wholeOf unsigned
  let real := unsigned.drop whole.length
  let fraction := fractionOf real
  let exponent := exponentOf (real.drop fraction.length)
  if whole = [] then none
  else if fraction = [] ∧ exponent = [] then
    if intMaxStrDigits < whole.length then none
    else
      let n : ℤ := Nat.ofDigitChars 10 whole 0
      some (.int (if sign = ['-'] then -n else n), real)
  else
    some (.float (floats.ofText (sign ++ (whole ++ (fraction ++ exponent)))),
      real.drop (fraction.length + exponent.length))

/-- Where a text begins with one of these, it is read as a float. -/
def specialFloats : List (List Char) :=
  [['i', 'n', 'f'], ['n', 'a', 'n'], ['-', 'i', 'n', 'f'], ['+', 'i', 'n', 'f'],
    ['-', 'n', 'a', 'n'], ['+', 'n', 'a', 'n']]

def parseScalar (src : List Char) : Option (Value F × List Char) :=
  if src.head? = some '"' then
    if ['"', '"', '"'].isPrefixOf src then none
    else (parseBasicStr (src.drop 1)).map fun r => (.str (String.ofList r.1), r.2)
  else if ['t', 'r', 'u', 'e'].isPrefixOf src then some (.bool true, src.drop 4)
  else if ['f', 'a', 'l', 's', 'e'].isPrefixOf src then some (.bool false, src.drop 5)
  else if wholeOf (src.drop (signOf src).length) ≠ [] then parseNumber floats src
  else
    (specialFloats.find? fun name => name.isPrefixOf src).map fun name =>
      (.float (floats.ofText name), src.drop name.length)

def skipArrayWs (src : List Char) : List Char := src.dropWhile fun c => isWs c || c = '\n'

/-- The items of an array and its closing bracket, for so many items at most. -/
def parseItems : ℕ → List Char → Option (List (Value F) × List Char)
  | 0, _ => none
  | fuel + 1, src =>
    if src.head? = some ']' then some ([], src.drop 1)
    else
      (parseScalar floats src).bind fun item =>
        let rest := skipArrayWs item.2
        if rest.head? = some ']' then some ([item.1], rest.drop 1)
        else if rest.head? = some ',' then
          (parseItems fuel (skipArrayWs (rest.drop 1))).map fun more => (item.1 :: more.1, more.2)
        else none

def parseValue (src : List Char) : Option (Value F × List Char) :=
  if src.head? = some '[' then
    (parseItems floats src.length (skipArrayWs (src.drop 1))).map fun r => (.list r.1, r.2)
  else parseScalar floats src

/-- The document so far: its data, the table that is open, and the tables that were declared. -/
structure Doc (F : Type) where
  data : Dict F
  header : List String
  explicit : List (List String)

/-- `get_or_create_nest`, and what is then done to the nest. -/
def withNest (f : Dict F → Option (Dict F)) : List String → Dict F → Option (Dict F)
  | [], nest => f nest
  | key :: keys, nest =>
    match nest.lookup key with
    | none => (withNest f keys []).map fun sub => Assoc.assign nest key (.dict sub)
    | some (.dict sub) => (withNest f keys sub).map fun sub => Assoc.assign nest key (.dict sub)
    | some _ => none

/-- `create_dict_rule`: a table is declared once. -/
def Doc.declare (doc : Doc F) (key : List String) : Option (Doc F) :=
  if key ∈ doc.explicit then none
  else (withNest some key doc.data).map fun data => ⟨data, key, doc.explicit ++ [key]⟩

def insertNew (key : String) (value : Value F) (nest : Dict F) : Option (Dict F) :=
  if (nest.lookup key).isSome then none else some (Assoc.assign nest key value)

/-- `key_value_rule`: a key is set once. -/
def Doc.put (doc : Doc F) (key : String) (value : Value F) : Option (Doc F) :=
  (withNest (insertNew key value) doc.header doc.data).map fun data => { doc with data := data }

def parseStatement (doc : Doc F) (src : List Char) : Option (Doc F × List Char) :=
  if src.head? = some '[' then
    (parseKey src.length (skipWs (src.drop 1))).bind fun key =>
      if key.2.head? = some ']' then (doc.declare key.1).map fun doc =>
        (doc, key.2.drop 1) else none
  else
    (parseKey src.length src).bind fun key =>
      match key.1 with
      | [stem] =>
        if key.2.head? = some '=' then
          (parseValue floats (skipWs (key.2.drop 1))).bind fun value =>
            (doc.put stem value.1).map fun doc => (doc, value.2)
        else none
      | _ => none

/-- The loop of `loads`, for so many statements at most. -/
def parseStatements : ℕ → Doc F → List Char → Option (Dict F)
  | 0, _, _ => none
  | fuel + 1, doc, src =>
    let src := skipWs src
    if src = [] then some doc.data
    else if src.head? = some '\n' then parseStatements fuel doc (src.drop 1)
    else
      (parseStatement floats doc src).bind fun r =>
        let rest := skipWs r.2
        if rest = [] then some r.1.data
        else if rest.head? = some '\n' then parseStatements fuel r.1 (rest.drop 1)
        else none

/-- `s.replace("\r\n", "\n")`. -/
def joinCrLf : List Char → List Char
  | [] => []
  | [c] => [c]
  | '\r' :: '\n' :: rest => '\n' :: joinCrLf rest
  | c :: d :: rest => c :: joinCrLf (d :: rest)

/-- `tomllib.loads`, none where it raises. Of TOML's other constructs (dotted keys before an equals
sign, literal and multiline strings, dates, numbers in other bases or with underscores, nested
arrays, inline tables, arrays of tables and comments) none is read: the documents that are read here
hold none of them. -/
def loads (text : List Char) : Option (Dict F) :=
  parseStatements floats ((joinCrLf text).length + 1) ⟨[], [], []⟩ (joinCrLf text)

end Reader

end Toml
