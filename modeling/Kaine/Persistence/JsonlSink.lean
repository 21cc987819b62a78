import Kaine.Persistence.EncryptedJsonl

/-! A sink that stamps records and appends them, a line each, to a file of the day
(`kaine/persistence/jsonl_sink.py`). What a sink appends: numbers in order, and lines that read back
as their records. -/
namespace Kaine.JsonlSink
open Py Security StateEncryptor

/-- `AsyncJsonlSink`; no bound of the queue is `0`. -/
structure Sink where
  queueMaxsize : ℕ
  studyRecord : Bool
  queue : List Dict
  seq : ℕ
  droppedCount : ℕ
  wroteCount : ℕ
  suspensionStartEmitted : Bool
  suspendedDropped : ℕ

def Sink.new (queueMaxsize : ℕ) (studyRecord : Bool) : Sink :=
  ⟨queueMaxsize, studyRecord, [], 0, 0, 0, false, 0⟩

/-- A record with the run's id, where it has none of its own, and its number. -/
def stamp (runId : String) (seq : ℕ) (entry : Dict) : Dict :=
  (if entry.has "run_id" then entry else entry.set "run_id" (.str runId)).set "seq" (.int seq)

namespace Sink

/-- `_stamp`, under the run context that is set. -/
def stamp (ctx : Option String) (sink : Sink) (entry : Dict) : Sink × Dict :=
  match ctx with
  | none => (sink, entry)
  | some runId => ({ sink with seq := sink.seq + 1 }, JsonlSink.stamp runId sink.seq entry)

/-- `_admit`, with whether the gate is suspended and the time. -/
def admitEntry (suspended : Bool) (now : String) (sink : Sink) (entry : Dict) : Sink × List Dict :=
  if !sink.studyRecord then (sink, [entry])
  else if suspended then
    if !sink.suspensionStartEmitted then
      ({ sink with suspensionStartEmitted := true, suspendedDropped := 1 },
        [[("record_gap", .str "start"), ("ts", .str now)]])
    else ({ sink with suspendedDropped := sink.suspendedDropped + 1 }, [])
  else if sink.suspensionStartEmitted then
    ({ sink with suspendedDropped := 0, suspensionStartEmitted := false },
      [[("record_gap", .str "end"), ("ts", .str now), ("dropped", .int sink.suspendedDropped)],
        entry])
  else (sink, [entry])

/-- A record goes into the queue; a full one loses its oldest. -/
def put (sink : Sink) (record : Dict) : Sink :=
  if sink.queueMaxsize = 0 ∨ sink.queue.length < sink.queueMaxsize then
    { sink with queue := sink.queue ++ [record] }
  else { sink with queue := sink.queue.drop 1 ++ [record], droppedCount := sink.droppedCount + 1 }

def putStamped (ctx : Option String) (sink : Sink) (entry : Dict) : Sink :=
  let stamped := sink.stamp ctx entry
  stamped.1.put stamped.2

def enqueue (ctx : Option String) (suspended : Bool) (now : String) (sink : Sink)
    (entry : Dict) : Sink :=
  let admitted := sink.admitEntry suspended now entry
  admitted.2.foldl (putStamped ctx) admitted.1

end Sink

/-- `_encode_line`, none where it raises. -/
def encodeLine (json : JsonLine) (encryptor : StateEncryptor) (nonce : Nonce) (entry : Dict) :
    Option Text :=
  (json.dumps entry).bind fun text => (encryptor.encryptText nonce text).toOption

/-- Records with the numbers that they carry, in order and below a bound. -/
def Numbered (records : List Dict) (bound : ℕ) : Prop :=
  ∃ ns : List ℕ, (records.map fun r => r.lookup "seq") = ns.map (fun n : ℕ => some (.int (n : ℤ))) ∧
    ns.Pairwise (· < ·) ∧ ∀ n ∈ ns, n < bound

variable {records more : List Dict} {bound seq : ℕ} {runId : String} {entry : Dict}

@[simp] theorem lookup_stamp_seq : (stamp runId seq entry).lookup "seq" = some (.int seq) :=
  Dict.lookup_set_self _ _ _

theorem Numbered.sublist (h : Numbered records bound) (hsub : more.Sublist records) :
    Numbered more bound := by
  obtain ⟨ns, hns, hpair, hbound⟩ := h
  have hmapped := hsub.map fun r : Dict => r.lookup "seq"
  obtain ⟨ms, hms, hmap⟩ := List.sublist_map_iff.mp (hns ▸ hmapped)
  exact ⟨ms, hmap, hpair.sublist hms, fun n hn => hbound n (hms.subset hn)⟩

theorem Numbered.snoc (h : Numbered records bound) (runId : String) (entry : Dict) :
    Numbered (records ++ [stamp runId bound entry]) (bound + 1) := by
  obtain ⟨ns, hns, hpair, hbound⟩ := h
  refine ⟨ns ++ [bound], by simp [hns], ?_, ?_⟩
  · refine List.pairwise_append.mpr ⟨hpair, List.pairwise_singleton _ _, ?_⟩
    intro n hn m hm
    rw [List.mem_singleton.mp hm]
    exact hbound n hn
  · intro n hn
    rcases List.mem_append.mp hn with hn | hn
    · exact Nat.lt_succ_of_lt (hbound n hn)
    · rw [List.mem_singleton.mp hn]
      exact Nat.lt_succ_self _

variable {aead : Aead} {nonce : Nonce} {json : JsonLine} {encryptor : StateEncryptor} {line : Text}

/-- The line of a record is one line of the file that is not blank, and decrypts to the record's
text. -/
theorem encodeLine_reads (lax : Bool) (ideal : ∀ aead, encryptor.aead = some aead → aead.Ideal)
    (h : encodeLine json encryptor nonce entry = some line) :
    line.Ascii ∧ line.OneLine ∧ line.strip ≠ [] ∧
      ∃ text, decryptText lax encryptor line = .ok text ∧ json.loads text = some (.obj entry) := by
  obtain ⟨text, hdumps, hline⟩ := Option.bind_eq_some_iff.mp h
  have hload := json.loads_dumps hdumps
  have hascii := json.dumps_ascii hdumps
  obtain ⟨⟨body, hbody⟩, hplain⟩ := json.dumps_plain hdumps
  obtain ⟨cipher⟩ := encryptor
  cases cipher with
  | none =>
    have hsame : text = line := Option.some.inj hline
    subst hsame
    refine ⟨hascii, ?_, ?_, text, rfl, hload⟩
    · intro c hc
      have hge := hplain c hc
      refine ⟨?_, ?_⟩
      · rintro rfl
        exact absurd hge (by decide)
      · rintro rfl
        exact absurd hge (by decide)
    · intro hempty
      have hbrace : CodePoint.openBrace.isSpace = false := by decide
      have hmem := EncryptedJsonl.mem_strip (hbody ▸ List.mem_cons_self) hbrace
      rw [hempty] at hmem
      cases hmem
  | some aead =>
    have hideal := ideal aead rfl
    have hencode := Utf8.encode_ascii hascii
    obtain ⟨written, hwritten, hread⟩ := decryptText_encryptText lax hideal nonce hencode
    have hsame : line = written := by
      have hsome : some line = some written := hline.symm.trans (by rw [← keyed, hwritten]; rfl)
      exact Option.some.inj hsome
    subst hsame
    obtain ⟨envelope, hdecode, hback⟩ :=
      decode_encrypt_keyed aead nonce (text.map fun c => Utf8.byte c.val)
    have henabled : (keyed aead).enabled = true := rfl
    simp only [encryptText, henabled, hencode, hdecode, if_true] at hwritten
    cases hwritten
    have hchars : line.Ascii := by
      unfold Ascii.decode at hdecode
      split_ifs at hdecode with hbytes
      cases hdecode
      intro c hc
      obtain ⟨b, hb, rfl⟩ := List.mem_map.mp hc
      exact hbytes b hb
    have henvelope : EncryptedJsonl.isEnvelope lax line = true := by
      rw [EncryptedJsonl.isEnvelope_iff,
        ← Option.some.inj ((Utf8.encode_ascii hchars).symm.trans hback).symm]
      exact ⟨hchars, _, Base64.decode_encode lax (aead.frame nonce _), isEncrypted_frame⟩
    have htext := EncryptedJsonl.envelopeText henvelope
    have hstrip : line.strip ≠ [] := by
      rw [htext.strip]
      exact htext.1
    exact ⟨hchars, htext.oneLine, hstrip, text, hread, hload⟩

end Kaine.JsonlSink
