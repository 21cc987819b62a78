import Kaine.Lib.Json
import Mathlib.Data.Prod.Lex
import Mathlib.Data.String.Basic

/-! Bus events, and the keys that name a candidate by stream and entry id
(`kaine/bus/schema.py`). -/
namespace Kaine.Bus
open Py

/-- `str.isspace` for one character. -/
def isSpace (c : Char) : Bool :=
  let n := c.toNat
  (9 ≤ n && n ≤ 13) || (28 ≤ n && n ≤ 32) || n = 0x85 || n = 0xA0 || n = 0x1680 ||
    (0x2000 ≤ n && n ≤ 0x200A) || n = 0x2028 || n = 0x2029 || n = 0x202F || n = 0x205F ||
    n = 0x3000

/-- The field constraints of a source or type. -/
def validName (maxLength : ℕ) (s : String) : Bool :=
  1 ≤ s.length && s.length ≤ maxLength && !s.toList.any isSpace

/-- A validated event, with its UTC time stamp in microseconds. -/
structure Event where
  source : String
  type : String
  payload : Dict := []
  salience : ℚ
  timestamp : ℤ
  causalParent : Option String := none
  source_valid : validName 64 source = true := by decide
  type_valid : validName 128 type = true := by decide
  salience_valid : 0 ≤ salience ∧ salience ≤ 1 := by decide
  deriving DecidableEq

theorem zero_salience : (0 : ℚ) ≤ 0 ∧ (0 : ℚ) ≤ 1 := by decide

def workspaceStream : String := "workspace.broadcast"
def workspaceSource : String := "workspace"

def moduleStream (moduleName : String) : Except PyError String :=
  if moduleName = "" || moduleName.toList.any isSpace then .error .valueError
  else if moduleName = workspaceSource then .ok workspaceStream
  else .ok (moduleName ++ ".out")

/-- The id that Redis gives an entry: milliseconds and a sequence number. -/
structure EntryId where
  ms : ℕ
  seq : ℕ
  deriving DecidableEq

/-- The text of an id, as replies carry it. -/
def EntryId.render (id : EntryId) : String := toString id.ms ++ "-" ++ toString id.seq

/-- The order of arrival. -/
def EntryId.before (a b : EntryId) : Bool := a.ms < b.ms || (a.ms = b.ms && a.seq < b.seq)

theorem EntryId.toLex_injective :
    Function.Injective fun id : EntryId => toLex (id.ms, id.seq) := by
  rintro ⟨ms, seq⟩ ⟨ms', seq'⟩ h
  simpa using h

instance : LinearOrder EntryId := LinearOrder.lift' _ EntryId.toLex_injective

theorem EntryId.lt_iff_before {a b : EntryId} : a < b ↔ a.before b = true := by
  have hlex : a < b ↔ toLex (a.ms, a.seq) < toLex (b.ms, b.seq) := Iff.rfl
  simp [hlex, Prod.Lex.toLex_lt_toLex, EntryId.before]

theorem EntryId.zero_le (id : EntryId) : (⟨0, 0⟩ : EntryId) ≤ id := by
  rw [← not_lt, EntryId.lt_iff_before]
  simp [EntryId.before]

/-- A bus entry id is unique only within its stream, so the key names both. -/
def streamEntryKey (stream entryId : String) : String := stream ++ ":" ++ entryId

/-- The stream and id around the last colon; a bare id has no stream. -/
def splitStreamEntryKey (key : String) : Option String × String :=
  match key.toList.reverse.span (· ≠ ':') with
  | (_, []) => (none, key)
  | (entryId, _ :: stream) => (some (String.ofList stream.reverse), String.ofList entryId.reverse)

/-- `str.isdigit`, on the ASCII text of an id. -/
def isDigits (cs : List Char) : Bool := !cs.isEmpty && cs.all Char.isDigit

abbrev IdSortKey := ℕ ×ₗ ℕ ×ₗ ℕ ×ₗ String

/-- Ids order by arrival as a number pair; as text, x-10 would come before x-2. -/
def entryIdSortKey (entryId : String) : IdSortKey :=
  match entryId.toList.span (· ≠ '-') with
  | (ms, _ :: seq) =>
    if isDigits ms && isDigits seq then
      toLex (0, toLex (Nat.ofDigitChars 10 ms 0, toLex (Nat.ofDigitChars 10 seq 0, "")))
    else toLex (1, toLex (0, toLex (0, entryId)))
  | (_, []) => toLex (1, toLex (0, toLex (0, entryId)))

end Kaine.Bus
