import Kaine.LegacyNames
import Kaine.Persistence.JsonlSink

/-! The records of one run, read from the sink files (`kaine/experiment/run_records.py`). Whether
the durable record of a finished run is complete (`kaine/experiment/admissibility.py`). What the
sinks of a run leave under the evaluation root: processes one after another that stamp the records
of each stream and append their lines to files of the day, less what is lost and with damaged lines.
-/
namespace Kaine.Admissibility
open Py Security StateEncryptor

/-- The parts of a path below the evaluation root. -/
abbrev Path := List (List Char)

/-- A file; none where opening it raises `OSError`. -/
structure SinkFile where
  path : Path
  content : Option Bytes

/-- What reading rests on: the Base64 reader's version, the active encryptor, JSON text, `repr`, and
the digits beyond ASCII. -/
structure Env where
  lax : Bool
  encryptor : StateEncryptor
  json : JsonLine
  repr : Json → String
  otherDigit : Char → Bool

/-- `str(v)`. -/
def Env.str (env : Env) : Json → String
  | .str s => s
  | v => env.repr v

/-- `str.isdigit`. -/
def Env.isDigit (env : Env) (s : List Char) : Bool :=
  !s.isEmpty && s.all fun c => c.isDigit || env.otherDigit c

structure RunRecords where
  byStream : List (String × List Dict)
  parseErrors : ℕ

namespace RunRecords

def empty : RunRecords := ⟨[], 0⟩

/-- `streams`. -/
def streams (records : RunRecords) : List String :=
  (records.byStream.filter fun kv => kv.2 ≠ []).map Prod.fst

/-- `by_stream.setdefault(stream, []).extend(more)`. -/
def extend (records : RunRecords) (stream : String) (more : List Dict) : RunRecords :=
  { records with
    byStream :=
      Assoc.assign records.byStream stream ((records.byStream.lookup stream).getD [] ++ more) }

def addError (records : RunRecords) : RunRecords :=
  { records with parseErrors := records.parseErrors + 1 }

end RunRecords

/-- `path.stem` of a name. -/
def stem (name : List Char) : List Char :=
  let suffix := name.reverse.takeWhile (· ≠ '.')
  let front := ((name.reverse.dropWhile (· ≠ '.')).drop 1).reverse
  if front ≠ [] ∧ suffix ≠ [] then front else name

/-- `s.rsplit("-", n)`. -/
def rsplit : ℕ → List Char → List (List Char)
  | 0, s => [s]
  | n + 1, s =>
    if '-' ∈ s then
      rsplit n ((s.reverse.dropWhile (· ≠ '-')).drop 1).reverse ++
        [(s.reverse.takeWhile (· ≠ '-')).reverse]
    else [s]

/-- `_stream_name_for`. -/
def streamNameFor (env : Env) (path : Path) : String :=
  let stem := stem (path.getLastD [])
  match rsplit 3 stem with
  | [head, y, m, d] =>
    if env.isDigit y && env.isDigit m && env.isDigit d && !head.isEmpty then String.ofList head
      else String.ofList stem
  | _ => String.ofList stem

def mapName (s : String) : String := if '.' ∈ s.toList then mapStream s else mapModuleKey s

/-- `_mapped_stream_name`. -/
def mappedStreamName (env : Env) (path : Path) : String := mapName (streamNameFor env path)

/-- `*.jsonl`. -/
def isJsonl (path : Path) : Bool := ".jsonl".toList.isSuffixOf (path.getLastD [])

/-- `_iter_jsonl_files` of the regular files under the root. -/
def iterJsonlFiles (tree : List SinkFile) : List SinkFile :=
  (SortBy.sortBy SinkFile.path (tree.filter fun file => isJsonl file.path)).filter fun file =>
    file.path.head? ≠ some "runs".toList

/-- The record of a line, none where it cannot be decrypted or parsed into an object. -/
def readLine (env : Env) (line : Text) : Option Dict :=
  match decryptText env.lax env.encryptor line with
  | .error _ => none
  | .ok plain => (env.json.loads plain).bind Json.asDict

/-- Whether a record carries the run's id. -/
def ofRun (env : Env) (runId : String) (record : Dict) : Bool :=
  env.str (record.getD "run_id" (.str "")) = runId

/-- One line of a file. -/
def addLine (env : Env) (runId stream : String) (out : RunRecords) (line : Text) : RunRecords :=
  if line.strip = [] then out
  else
    match readLine env line with
    | none => out.addError
    | some record =>
      let record := mapRecord record
      if ofRun env runId record then out.extend stream [record] else out

/-- One file; none where a byte that is not UTF-8 raises out of it. -/
def addFile (env : Env) (runId : String) (out : RunRecords) (file : SinkFile) : Option RunRecords :=
  match file.content with
  | none => some out.addError
  | some content =>
    match Utf8.decode content with
    | none => none
    | some text => some (text.lines.foldl (addLine env runId (mappedStreamName env file.path)) out)

/-- `load_run_records`, none where it raises. -/
def loadRunRecords (env : Env) (tree : List SinkFile) (runId : String) : Option RunRecords :=
  (iterJsonlFiles tree).foldlM (addFile env runId) RunRecords.empty

def tickStream : String := "cycle.tick"
def tickField : String := "tick_index"
def seqField : String := "seq"

structure AdmissibilityReport where
  runId : String
  admissible : Bool
  tickGaps : List ℤ
  seqGaps : List (String × List ℤ)
  missingStreams : List String
  parseErrors : ℕ
  restartSeqResets : List (String × List ℤ)
  relatedRunIds : List String

/-- `_contiguous_gaps`: what is missing between the least value and the greatest. -/
def contiguousGaps : List ℤ → List ℤ
  | [] => []
  | v :: values =>
    let lo := values.foldl min v
    let hi := values.foldl max v
    ((List.range (hi + 1 - lo).toNat).map fun i : ℕ => lo + (i : ℤ)).filter fun n => n ∉ v :: values

/-- The integer that a field's value is, none for a bool and for what is no whole number. -/
def intValue : Json → Option ℤ
  | .int n => some n
  | .float (.fin x) => if x.den = 1 then some x.num else none
  | _ => none

/-- `_extract_int_field`. -/
def extractIntField (records : List Dict) (field : String) : List ℤ :=
  records.filterMap fun record => intValue (record.get field)

/-- `_seq_resets`, with the running maximum. -/
def seqResets : Option ℤ → List ℤ → List ℤ
  | _, [] => []
  | none, v :: values => seqResets (some v) values
  | some runningMax, v :: values =>
    if v < runningMax then v :: seqResets (some runningMax) values
      else seqResets (some (max runningMax v)) values

/-- One run's records behind those of the runs before it. -/
def addRun (env : Env) (tree : List SinkFile) (combined : RunRecords) (runId : String) :
    Option RunRecords :=
  (loadRunRecords env tree runId).map fun records =>
    let combined := records.byStream.foldl (fun combined kv => combined.extend kv.1 kv.2) combined
    { combined with parseErrors := combined.parseErrors + records.parseErrors }

/-- `_load_combined`, none where it raises. -/
def loadCombined (env : Env) (tree : List SinkFile) (runId : String) (related : List String) :
    Option RunRecords :=
  (runId :: related).foldlM (addRun env tree) RunRecords.empty

/-- The report on loaded records. -/
def report (records : RunRecords) (runId : String) (expected related : List String) :
    AdmissibilityReport :=
  let tickRecords := (records.byStream.lookup tickStream).getD []
  let tickGaps := contiguousGaps (extractIntField tickRecords tickField)
  let found (scan : List ℤ → List ℤ) : List (String × List ℤ) :=
    (records.byStream.map fun kv => (kv.1, scan (extractIntField kv.2 seqField))).filter fun kv =>
      kv.2 ≠ []
  let seqGaps := found contiguousGaps
  let restartSeqResets := found (seqResets none)
  let missing := expected.filter fun s => s ∉ records.streams
  { runId
    admissible := tickGaps.isEmpty && seqGaps.isEmpty && missing.isEmpty &&
      records.parseErrors == 0 && restartSeqResets.isEmpty && related.isEmpty
    tickGaps
    seqGaps
    missingStreams := SortBy.sortBy id missing
    parseErrors := records.parseErrors
    restartSeqResets
    relatedRunIds := related }

/-- `scan_run`, none where it raises. -/
def scanRun (env : Env) (tree : List SinkFile) (runId : String) (expected related : List String) :
    Option AdmissibilityReport :=
  (loadCombined env tree runId related).map fun records => report records runId expected related

open JsonlSink

/-- The name of a sink, which the reader takes from its files as it is. -/
structure Stream where
  name : String
  nonempty : name ≠ ""
  current : mapName name = name

/-- A day as `%Y-%m-%d` writes it. -/
structure Date where
  year : List Char
  month : List Char
  day : List Char
  digits : ∀ c ∈ year ++ (month ++ day), c.isDigit = true
  lengths : year.length = 4 ∧ month.length = 2 ∧ day.length = 2

def Date.text (date : Date) : List Char := date.year ++ '-' :: (date.month ++ '-' :: date.day)

/-- `_target_path`, in the sink's directory below the root. -/
def targetPath (dir : Path) (name : String) (date : Date) : Path :=
  dir ++ [name.toList ++ '-' :: (date.text ++ ".jsonl".toList)]

/-- A record that reached its file, and the bytes that stand in place of its line where that is
damaged. -/
structure Written (env : Env) (runId : String) where
  process : ℕ
  stream : Stream
  seq : ℕ
  date : Date
  entry : Dict
  nonce : Nonce
  line : Text
  encoded : encodeLine env.json env.encryptor nonce (stamp runId seq entry) = some line
  damage : Option Bytes

namespace Written

variable {env : Env} {runId : String}

def record (w : Written env runId) : Dict := stamp runId w.seq w.entry

/-- What the file holds of the record: its line, as written or damaged, and the end of the line. -/
def chunk (w : Written env runId) : Bytes :=
  w.damage.getD ((Utf8.encode w.line).getD []) ++ [Utf8.byte 10]

/-- The line is as it was written, and the record carries the run's id. -/
def Survives (w : Written env runId) : Prop := w.damage = none ∧ ofRun env runId w.record = true

end Written

/-- `fh.write` at the end of a file, which is made where it is not there. -/
def appendTo : List SinkFile → Path → Bytes → List SinkFile
  | [], path, bytes => [⟨path, some bytes⟩]
  | file :: tree, path, bytes =>
    if file.path = path then ⟨path, file.content.map (· ++ bytes)⟩ :: tree
      else file :: appendTo tree path bytes

/-- The processes that wrote under one run id, the directory of each stream and how many records
each stamped. -/
structure Run (env : Env) (runId : String) where
  dir : Stream → Path
  outside : ∀ stream, (dir stream).head? ≠ some "runs".toList
  log : List (Written env runId)
  /-- A stream's records are in the order of the processes and of the days, and a process's own in
  the order of their numbers. -/
  ordered : log.Pairwise fun a b => a.stream = b.stream →
    a.process ≤ b.process ∧ a.date.text ≤ b.date.text ∧ (a.process = b.process → a.seq < b.seq)
  stamped : ℕ → Stream → ℕ
  within : ∀ w ∈ log, w.seq < stamped w.process w.stream

namespace Run

variable {env : Env} {runId : String}

def path (run : Run env runId) (w : Written env runId) : Path :=
  targetPath (run.dir w.stream) w.stream.name w.date

def tree (run : Run env runId) : List SinkFile :=
  run.log.foldl (fun tree w => appendTo tree (run.path w) w.chunk) []

/-- A record that was stamped and is not in the stream's files. -/
def Lost (run : Run env runId) (process : ℕ) (stream : Stream) (seq : ℕ) : Prop :=
  seq < run.stamped process stream ∧
    ∀ w ∈ run.log, w.process = process → w.stream = stream → w.seq ≠ seq

end Run

/-- The lines of a file's bytes, none of them where they are not UTF-8. -/
def fileLines (content : Bytes) : List Text := ((Utf8.decode content).map Text.lines).getD []

/-- What the reader makes of the lines that are not blank. -/
def readings (env : Env) (content : Bytes) : List (Option Dict) :=
  ((fileLines content).filter fun line => line.strip ≠ []).map (readLine env)

/-- The records of the run among what was read. -/
def ofReadings (env : Env) (runId : String) (read : List (Option Dict)) : List Dict :=
  ((read.filterMap id).map mapRecord).filter (ofRun env runId)

/-- The records of the run that the lines of one written record are read as. -/
def Written.kept {env : Env} {runId : String} (w : Written env runId) : List Dict :=
  ofReadings env runId (readings env w.chunk)

end Kaine.Admissibility
