import Kaine.Bus.Schema
import Kaine.Lib.OrderedLog
import Mathlib.Data.List.TakeDrop

/-! The keys of bus entries: they split back into their parts and sort in arrival order. What the
bus client makes of the replies that Redis gives to a read (`kaine/bus/client.py`). -/
namespace Kaine.Bus

theorem isDigits_toDigits (n : ℕ) : isDigits (Nat.toDigits 10 n) = true := by
  have hne : Nat.toDigits 10 n ≠ [] := Nat.toDigits_ne_nil
  have hall : (Nat.toDigits 10 n).all Char.isDigit = true := by
    rw [List.all_eq_true]
    intro c hc
    exact Nat.isDigit_of_mem_toDigits (by decide) (by decide) hc
  simp [isDigits, hne, hall]

theorem not_mem_toDigits {c : Char} (hc : c.isDigit = false) (n : ℕ) :
    c ∉ Nat.toDigits 10 n := by
  intro hmem
  have := Nat.isDigit_of_mem_toDigits (by decide) (by decide) hmem
  simp [hc] at this

theorem toList_render (id : EntryId) :
    id.render.toList = Nat.toDigits 10 id.ms ++ '-' :: Nat.toDigits 10 id.seq := by
  simp [EntryId.render]

/-- A list splits at the first element that fails a test. -/
theorem span_append {α : Type*} {p : α → Bool} {front back : List α} {a : α}
    (hfront : ∀ x ∈ front, p x = true) (ha : p a = false) :
    (front ++ a :: back).span p = (front, a :: back) := by
  rw [List.span_eq_takeWhile_dropWhile]
  simp [List.takeWhile_append_of_pos hfront, List.dropWhile_append_of_pos hfront, ha]

theorem span_render (id : EntryId) :
    id.render.toList.span (· ≠ '-') = (Nat.toDigits 10 id.ms, '-' :: Nat.toDigits 10 id.seq) := by
  rw [toList_render]
  refine span_append ?_ (by decide)
  intro c hc
  have hne : c ≠ '-' := by
    rintro rfl
    exact not_mem_toDigits (by decide) id.ms hc
  simpa using hne

/-- The key of a Redis id is its number pair. -/
theorem entryIdSortKey_render (id : EntryId) :
    entryIdSortKey id.render = toLex (0, toLex (id.ms, toLex (id.seq, ""))) := by
  rw [entryIdSortKey, span_render]
  simp [isDigits_toDigits, Nat.ofDigitChars_ten_toDigits]

theorem render_injective {a b : EntryId} (h : a.render = b.render) : a = b := by
  have hk := congrArg entryIdSortKey h
  simp only [entryIdSortKey_render, toLex_inj, Prod.mk.injEq] at hk
  cases a
  cases b
  simp_all

/-- Arrival order is the order of the sort keys. -/
theorem before_iff {a b : EntryId} :
    a.before b = true ↔ entryIdSortKey a.render < entryIdSortKey b.render := by
  simp [entryIdSortKey_render, Prod.Lex.toLex_lt_toLex, EntryId.before]

theorem colon_not_mem_render (id : EntryId) : ':' ∉ id.render.toList := by
  rw [toList_render, List.mem_append, List.mem_cons]
  rintro (h | h | h)
  · exact not_mem_toDigits (by decide) id.ms h
  · exact absurd h (by decide)
  · exact not_mem_toDigits (by decide) id.seq h

/-- A key splits back into its parts, whatever colons the stream name holds. -/
theorem splitStreamEntryKey_streamEntryKey {stream entryId : String}
    (h : ':' ∉ entryId.toList) :
    splitStreamEntryKey (streamEntryKey stream entryId) = (some stream, entryId) := by
  have hrev : (streamEntryKey stream entryId).toList.reverse =
      entryId.toList.reverse ++ ':' :: stream.toList.reverse := by
    simp [streamEntryKey]
  have hspan : (streamEntryKey stream entryId).toList.reverse.span (· ≠ ':') =
      (entryId.toList.reverse, ':' :: stream.toList.reverse) := by
    rw [hrev]
    refine span_append ?_ (by decide)
    intro c hc
    have hne : c ≠ ':' := by
      rintro rfl
      exact h (List.mem_reverse.mp hc)
    simpa using hne
  rw [splitStreamEntryKey, hspan]
  simp

theorem workspaceStream_ne_out (name : String) : workspaceStream ≠ name ++ ".out" := by
  intro h
  -- both end in a t, so it is the letter before that tells them apart
  have htail := congrArg (fun s => s.toList.reverse.take 2) h
  simp [workspaceStream] at htail

/-- Different module names own different streams. -/
theorem moduleStream_injective {a b stream : String} (ha : moduleStream a = .ok stream)
    (hb : moduleStream b = .ok stream) : a = b := by
  simp only [moduleStream] at ha hb
  split at ha
  · cases ha
  · split at hb
    · cases hb
    · split at ha
      · have ha := Except.ok.inj ha
        split at hb
        · simp_all
        · have hb := Except.ok.inj hb
          exact absurd (ha.trans hb.symm) (workspaceStream_ne_out b)
      · have ha := Except.ok.inj ha
        split at hb
        · have hb := Except.ok.inj hb
          exact absurd (hb.trans ha.symm) (workspaceStream_ne_out a)
        · have hb := Except.ok.inj hb
          exact (String.append_left_inj ".out").mp (ha.trans hb.symm)

open Py

/-- One entry of a stream; its event is none where `_decode_entry` gives up. -/
structure StreamEntry where
  id : EntryId
  event : Option Event
  deriving DecidableEq

def decoded (entries : List StreamEntry) : List (EntryId × Event) :=
  entries.filterMap fun entry => entry.event.map fun event => (entry.id, event)

/-- The id of the last entry scanned, decodable or not. -/
def lastScanned (entries : List StreamEntry) : Option EntryId := entries.getLast?.map StreamEntry.id

/-- What a read hands on: the decoded entries, and how far it scanned. -/
abbrev ReadResult := List (EntryId × Event) × Option EntryId

/-- The history of one stream. Redis gives out growing ids, the first of them beyond 0-0. -/
structure Stream where
  entries : List StreamEntry
  increasing : OrderedLog.Increasing StreamEntry.id ⟨0, 0⟩ entries

namespace Stream

def xread (stream : Stream) (cursor : EntryId) (count : ℕ) : List StreamEntry :=
  (OrderedLog.after StreamEntry.id stream.entries cursor).take count

/-- The newest entry; none also where it cannot be decoded. -/
def latest (stream : Stream) : Option (EntryId × Event) :=
  stream.entries.getLast?.bind fun entry => entry.event.map fun event => (entry.id, event)

/-- The tail of the stream, 0-0 when it is empty. -/
def lastEntryId (stream : Stream) : EntryId := OrderedLog.tail StreamEntry.id ⟨0, 0⟩ stream.entries

/-- `XADD`. -/
def append (stream : Stream) (entry : StreamEntry) (h : stream.lastEntryId < entry.id) : Stream :=
  ⟨stream.entries ++ [entry], stream.increasing.append h⟩

end Stream

section
-- The entries of a stream after a cursor, at most as many as the read asks for.
variable (xread : String → String → List StreamEntry)

def readEntries (stream lastId : String) : Except PyError ReadResult :=
  if lastId = "$" then .error .valueError
  else
    let entries := xread stream lastId
    .ok (decoded entries, lastScanned entries)

/-- One read over several streams. Redis leaves out of its reply the streams with nothing new. -/
def readEntriesBlock (streams : List (String × String)) :
    Except PyError (List (String × List (EntryId × Event)) × List (String × Option EntryId)) :=
  if streams.any fun s => s.2 = "$" then .error .valueError
  else
    let response := (streams.map fun s => (s.1, xread s.1 s.2)).filter fun r => !r.2.isEmpty
    .ok (Assoc.assignAll (streams.map fun s => (s.1, [])) (response.map fun r => (r.1,
      decoded r.2)), Assoc.assignAll (streams.map fun s => (s.1, none))
        (response.map fun r => (r.1, lastScanned r.2)))

end
end Kaine.Bus
