import Kaine.Lib.Toml

/-! A dict as a TOML document, and the merge of owned keys into one
(`kaine/setup/tomlwriter.py`). -/
namespace Kaine.TomlWriter
open Toml

variable {F : Type}

abbrev Line := List Char

/-- The sentinel that asks for a key to be deleted. -/
def REMOVE : Value F := .other "_Remove" 0

/-- `c.isalnum()`, where the letters and digits beyond ASCII are given. -/
def isalnum (beyond : Char → Bool) (c : Char) : Bool := c.isAlphanum || (0x80 ≤ c.toNat && beyond c)

/-- A hexadecimal digit as a capital. -/
def hexDigit (d : ℕ) : Char := Char.ofNat (if d < 10 then 48 + d else 55 + d)

def escapeChar (c : Char) : List Char :=
  if c = '\\' then ['\\', '\\']
  else if c = '"' then ['\\', '"']
  else if c = '\n' then ['\\', 'n']
  else if c = '\t' then ['\\', 't']
  else if c = '\r' then ['\\', 'r']
  else if c.toNat < 0x20 ∨ c.toNat = 0x7F then
    let n := c.toNat
    ['\\', 'u', hexDigit (n / 4096 % 16), hexDigit (n / 256 % 16), hexDigit (n / 16 % 16),
      hexDigit (n % 16)]
  else [c]

def formatStr (value : String) : List Char := '"' :: (value.toList.flatMap escapeChar ++ ['"'])

def formatKey (beyond : Char → Bool) (key : String) : List Char :=
  if key ≠ "" ∧ key.toList.all (fun c => isalnum beyond c || c = '_' || c = '-') = true
    then key.toList
  else formatStr key

/-- `str(n)`, none where it raises. -/
def formatInt (n : ℤ) : Option (List Char) :=
  let digits := Nat.toDigits 10 n.natAbs
  if intMaxStrDigits < digits.length then none else some (if n < 0 then '-' :: digits else digits)

variable (floats : FloatText F) (beyond : Char → Bool)

/-- `_format_scalar` of what is no list, none where it raises. -/
def formatItem : Value F → Option (List Char)
  | .bool b => some (if b then ['t', 'r', 'u', 'e'] else ['f', 'a', 'l', 's', 'e'])
  | .int n => formatInt n
  | .float x => some (floats.repr x)
  | .str s => some (formatStr s)
  | _ => none

def formatScalar : Value F → Option (List Char)
  | .list xs => (xs.mapM (formatItem floats)).map fun items =>
    '[' :: (List.intercalate [',', ' '] items ++ [']'])
  | value => formatItem floats value

def headerLine (path : List String) : Line :=
  '[' :: (List.intercalate ['.'] (path.map (formatKey beyond)) ++ [']'])

/-- A table's header, behind a blank line where lines stand before it. -/
def addHeader (path : List String) (lines : List Line) : List Line :=
  (if lines ≠ [] ∧ lines.getLast? ≠ some [] then lines ++ [[]]
    else lines) ++ [headerLine beyond path]

def pairLine (key : String) (text : List Char) : Line :=
  formatKey beyond key ++ (' ' :: '=' :: ' ' :: text)

/-- The lines of a table's keys that hold no table. -/
def emitScalars : Dict F → List Line → Option (List Line)
  | [], lines => some lines
  | (_, .dict _) :: rest, lines => emitScalars rest lines
  | (key, value) :: rest, lines =>
    (formatScalar floats value).bind fun text =>
      emitScalars rest (lines ++ [pairLine beyond key text])

mutual

/-- `_emit_table` for a sub-table; what is no table is passed over. -/
def emitSub : List String → Value F → List Line → Option (List Line)
  | path, .dict sub, lines =>
    (emitScalars floats beyond sub (addHeader beyond path lines)).bind fun lines =>
      emitTables path sub lines
  | _, _, lines => some lines

/-- The sub-tables of a table. -/
def emitTables : List String → List (String × Value F) → List Line → Option (List Line)
  | _, [], lines => some lines
  | path, (key, value) :: rest, lines =>
    (emitSub (path ++ [key]) value lines).bind fun lines => emitTables path rest lines

end

def emitTable (data : Dict F) (path : List String) (lines : List Line) : Option (List Line) :=
  (emitScalars floats beyond data (if path = [] then lines else addHeader beyond path lines)).bind
    fun lines =>
    emitTables floats beyond path data lines

/-- `text.strip("\n")`. -/
def stripNewlines (text : List Char) : List Char :=
  ((text.dropWhile (· = '\n')).reverse.dropWhile (· = '\n')).reverse

/-- `dumps`, none where it raises. -/
def dumps (data : Dict F) : Option (List Char) :=
  (emitTable floats beyond data [] []).map fun lines =>
    let text := stripNewlines (List.intercalate ['\n'] lines)
    if text = [] then [] else text ++ ['\n']

section Merge

/-- Why a merge is refused, with the names in the message; what the writer and `tomllib` raise has
its own. -/
inductive MergeError where
  | removeUnowned (dotted : String)
  | writeUnowned (dotted : String)
  | blocked (dotted part : String)
  | noneValue (dotted : String)
  | nested (dotted : String)
  | itemType (dotted type : String)
  | valueType (dotted type : String)
  | unwritable
  | unreadable
  | noRoundTrip
  deriving DecidableEq

/-- `dotted.split(".")`. -/
def parts (dotted : String) : List String := (dotted.toList.splitOn '.').map String.ofList

/-- A key's dotted name under a table's. -/
def dottedName (above key : String) : String := if above = "" then key else above ++ "." ++ key

mutual

/-- What a value adds to a flattened dict: its own flattened dict, or itself. -/
def flattenItem : String → Dict F → Value F → Dict F
  | dotted, out, .dict sub => Assoc.assignAll out (flattenInto dotted [] sub)
  | dotted, out, value => Assoc.assign out dotted value

/-- `_flatten`, behind what was flattened before. -/
def flattenInto : String → Dict F → List (String × Value F) → Dict F
  | _, out, [] => out
  | above, out, (key, value) :: rest =>
    flattenInto above (flattenItem (dottedName above key) out value) rest

end

def flatten (data : Dict F) : Dict F := flattenInto "" [] data

/-- `_set_dotted` along the parts of a key, or the part that holds no table. -/
def setDotted (value : Value F) : List String → Dict F → Except String (Dict F)
  | [], cfg => .ok cfg
  | [leaf], cfg => .ok (Assoc.assign cfg leaf value)
  | part :: more, cfg =>
    match cfg.lookup part with
    | none | some .none =>
      (setDotted value more []).map fun sub => Assoc.assign cfg part (.dict sub)
    | some (.dict sub) =>
      (setDotted value more sub).map fun sub => Assoc.assign cfg part (.dict sub)
    | some _ => .error part

/-- `_delete_dotted` along the parts of a key, none where nothing is deleted; tables that become
empty go with it. -/
def deleteDotted : List String → Dict F → Option (Dict F)
  | [], _ => none
  | [leaf], cfg => if (cfg.lookup leaf).isSome then some (Assoc.remove cfg leaf) else none
  | part :: more, cfg =>
    match cfg.lookup part with
    | some (.dict sub) => (deleteDotted more sub).map fun sub =>
        if sub.isEmpty then Assoc.remove cfg part else Assoc.assign cfg part (.dict sub)
    | _ => none

/-- Whether a key is a dotted name or stands below it. -/
def isAtOrBelow (dotted key : String) : Bool :=
  key = dotted || (dotted ++ ".").toList.isPrefixOf key.toList

/-- `_is_owned_remove_path`. -/
def isOwnedRemovePath (dotted : String) (owned : List String) (existingFlat : Dict F) : Bool :=
  (owned.contains dotted || owned.any fun key => (dotted ++ ".").toList.isPrefixOf key.toList) &&
    (existingFlat.map Prod.fst).all fun key => !isAtOrBelow dotted key || owned.contains key

def isRemove : Value F → Bool
  | .other _ id => id = 0
  | _ => false

/-- `type(value).__name__`. -/
def typeName : Value F → String
  | .none => "NoneType"
  | .bool _ => "bool"
  | .int _ => "int"
  | .float _ => "float"
  | .str _ => "str"
  | .list _ => "list"
  | .dict _ => "dict"
  | .other type _ => type

/-- `isinstance(value, (bool, int, float, str))`, which the sentinel is too. -/
def isScalar : Value F → Bool
  | .bool _ | .int _ | .float _ | .str _ => true
  | value => isRemove value

def isNested : Value F → Bool
  | .list _ | .dict _ => true
  | _ => false

mutual

def validateValue : String → Value F → Except MergeError Unit
  | dotted, .none => .error (.noneValue dotted)
  | dotted, .list xs =>
    if xs.any isNested then .error (.nested dotted)
    else
      match xs.find? fun item => !isScalar item with
      | some item => .error (.itemType dotted (typeName item))
      | none => .ok ()
  | dotted, .dict sub => validateEmittable dotted sub
  | dotted, value => if isScalar value then .ok () else .error (.valueType dotted (typeName value))

/-- `_validate_emittable`. -/
def validateEmittable : String → List (String × Value F) → Except MergeError Unit
  | _, [] => .ok ()
  | above, (key, value) :: rest =>
    (validateValue (dottedName above key) value).bind fun _ => validateEmittable above rest

end

/-- One of the updates, in a merge that began with these existing keys. -/
def applyUpdate (owned : List String) (existingFlat : Dict F) (merged : Dict F)
    (update : String × Value F) : Except MergeError (Dict F) :=
  if isRemove update.2 then
    if isOwnedRemovePath update.1 owned existingFlat then
      .ok ((deleteDotted (parts update.1) merged).getD merged)
    else .error (.removeUnowned update.1)
  else if owned.contains update.1 then
    (setDotted update.2 (parts update.1) merged).mapError (.blocked update.1)
  else .error (.writeUnowned update.1)

def applyUpdates (owned : List String) (existingFlat : Dict F) (updates : Dict F)
    (merged : Dict F) : Except MergeError (Dict F) :=
  updates.foldlM (applyUpdate owned existingFlat) merged

/-- The check that what is about to be written parses back. -/
def checkRoundTrip (merged : Dict F) : Except MergeError Unit :=
  match dumps floats beyond merged with
  | none => .error .unwritable
  | some text =>
    match loads floats text with
    | none => .error .unreadable
    | some data => if same floats (.dict data) (.dict merged) then .ok () else .error .noRoundTrip

/-- `merge_owned`. The copy that it works on is never its argument. -/
def mergeOwned (existing updates : Dict F) (owned : List String) : Except MergeError (Dict F) :=
  (applyUpdates owned (flatten existing) (flatten updates) existing).bind fun merged =>
    (validateEmittable "" merged).bind fun _ => (checkRoundTrip floats beyond merged).map fun _ =>
      merged

end Merge

end Kaine.TomlWriter
