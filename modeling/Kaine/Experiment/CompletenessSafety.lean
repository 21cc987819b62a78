import Kaine.Experiment.AdmissibilitySafety
import Mathlib.Algebra.Order.BigOperators.Group.List
import Mathlib.Tactic.IntervalCases

/-! Which losses the completeness gate detects. -/
namespace Kaine.Admissibility
open Py Security JsonlSink

variable {env : Env} {runId : String}

namespace Run

/-- A record of a process is lost between two that survive, and no line between these has become
several. -/
def LostBetween (run : Run env runId) : Prop :=
  ∃ w ∈ run.log, ∃ w' ∈ run.log, w.Survives ∧ w'.Survives ∧ w.process = w'.process ∧
    w.stream = w'.stream ∧ (∃ seq, w.seq < seq ∧ seq < w'.seq ∧ run.Lost w.process w.stream seq) ∧
    ∀ v ∈ run.log, v.process = w.process → v.stream = w.stream → w.seq < v.seq → v.seq < w'.seq →
      (fileLines v.chunk).length ≤ 1

/-- A later process left a number below one that an earlier process left. -/
def Restarted (run : Run env runId) : Prop :=
  ∃ w ∈ run.log, ∃ w' ∈ run.log, w.Survives ∧ w'.Survives ∧ w.stream = w'.stream ∧
    w.process < w'.process ∧ w'.seq < w.seq

/-- A line that is not blank holds no record. -/
def Unreadable (run : Run env runId) : Prop :=
  ∃ w ∈ run.log, ∃ line ∈ fileLines w.chunk, line.strip ≠ [] ∧ readLine env line = none

/-- An expected stream has no record of the run. -/
def Missing (run : Run env runId) (expected : List String) : Prop :=
  ∃ name ∈ expected, ∀ w ∈ run.log, w.stream.name = name → w.kept = []

/-- A number that a tick record carries. -/
def IsTick (run : Run env runId) (n : ℤ) : Prop :=
  ∃ w ∈ run.log, w.stream.name = tickStream ∧ intValue (w.record.get tickField) = some n

/-- One process wrote all that it stamped, under the run's id, and nothing is damaged or missing. -/
structure Complete (run : Run env runId) (expected : List String) : Prop where
  one : ∀ w ∈ run.log, ∀ w' ∈ run.log, w.process = w'.process
  present : ∀ process stream seq, ¬ run.Lost process stream seq
  survives : ∀ w ∈ run.log, w.Survives
  ticks : ∀ a b n, run.IsTick a → run.IsTick b → a ≤ n → n ≤ b → run.IsTick n
  expected : ∀ name ∈ expected, ∃ w ∈ run.log, w.stream.name = name

/-- The numbers of a stream, in the order of its files. -/
def numbers (run : Run env runId) (name : String) : List ℤ :=
  (run.ofStream name).flatMap Written.numbers

variable {run : Run env runId} {w w' : Written env runId}

theorem mem_ofStream {name : String} : w ∈ run.ofStream name ↔
    w ∈ run.log ∧ w.stream.name = name := by
  unfold ofStream
  rw [List.mem_filter, decide_eq_true_eq]

theorem stream_ext {a b : Stream} (h : a.name = b.name) : a = b := by
  obtain ⟨name, hnonempty, hcurrent⟩ := a
  obtain ⟨name', hnonempty', hcurrent'⟩ := b
  cases h
  rfl

/-- The order of a stream's records. -/
theorem ordered_ofStream (run : Run env runId) (name : String) :
    (run.ofStream name).Pairwise fun a b =>
    a.process ≤ b.process ∧ (a.process = b.process → a.seq < b.seq) := by
  refine (run.ordered.sublist List.filter_sublist).imp_of_mem ?_
  intro a b ha hb h
  have hname := stream_ext ((mem_ofStream.mp ha).2.trans (mem_ofStream.mp hb).2.symm)
  exact ⟨(h hname).1, (h hname).2.2⟩

/-- Of two records of a stream the one of the earlier process, or with the smaller number, comes
first. -/
theorem ofStream_split {name : String} (hw : w ∈ run.ofStream name) (hw' : w' ∈ run.ofStream name)
    (h : w.process < w'.process ∨ (w.process = w'.process ∧ w.seq < w'.seq)) :
    ∃ front mid back, run.ofStream name = front ++ w :: (mid ++ w' :: back) := by
  have hordered := run.ordered_ofStream name
  obtain ⟨front, rest, hsplit⟩ := List.append_of_mem hw
  rw [hsplit] at hordered hw'
  obtain ⟨-, -, hcross⟩ := List.pairwise_append.mp hordered
  rcases List.mem_append.mp hw' with hfront | hrest
  · obtain ⟨hle, hlt⟩ := hcross w' hfront w List.mem_cons_self
    rcases h with h | ⟨heq, h⟩
    · omega
    · have hbad := hlt heq.symm
      omega
  · rcases List.mem_cons.mp hrest with rfl | hrest
    · omega
    · obtain ⟨mid, back, hback⟩ := List.append_of_mem hrest
      exact ⟨front, mid, back, by rw [hsplit, hback]⟩

/-- A loss between survivors leaves a gap or a reset: the lines between are too few to stand for all
numbers. -/
theorem not_contiguous_of_lost (ideal : ∀ aead, env.encryptor.aead = some aead → aead.Ideal)
    (h : run.LostBetween) : ∃ name, ¬ (Contiguous (run.numbers name) ∧
      (run.numbers name).Pairwise (· ≤ ·)) := by
  obtain ⟨w, hw, w', hw', hlive, hlive', hprocess, hstream, ⟨seq, hlow, hhigh, hlost⟩, hone⟩ := h
  refine ⟨w.stream.name, ?_⟩
  rintro ⟨hcontiguous, hsorted⟩
  have hmem : w ∈ run.ofStream w.stream.name := mem_ofStream.mpr ⟨hw, rfl⟩
  have hmem' : w' ∈ run.ofStream w.stream.name := mem_ofStream.mpr ⟨hw', hstream ▸ rfl⟩
  obtain ⟨front, mid, back, hsplit⟩ := ofStream_split hmem hmem' (.inr ⟨hprocess, hlow.trans hhigh⟩)
  have hnumbers : run.numbers w.stream.name = front.flatMap Written.numbers ++
      (w.seq : ℤ) :: (mid.flatMap Written.numbers ++ (w'.seq : ℤ) ::
        back.flatMap Written.numbers) := by
    unfold numbers
    rw [hsplit, List.flatMap_append, List.flatMap_cons, List.flatMap_append, List.flatMap_cons,
      hlive.numbers ideal, hlive'.numbers ideal]
    rfl
  have hordered := run.ordered_ofStream w.stream.name
  rw [hsplit] at hordered
  obtain ⟨-, hrest, -⟩ := List.pairwise_append.mp hordered
  obtain ⟨hafter, hrest⟩ := List.pairwise_cons.mp hrest
  obtain ⟨hpair, -, hbefore⟩ := List.pairwise_append.mp hrest
  have hbetween : ∀ v ∈ mid, v ∈ run.log ∧ v.process = w.process ∧ v.stream = w.stream ∧
      w.seq < v.seq ∧ v.seq < w'.seq := by
    intro v hv
    have hin : v ∈ run.ofStream w.stream.name := by
      rw [hsplit]
      simp [hv]
    obtain ⟨hlog, hname⟩ := mem_ofStream.mp hin
    obtain ⟨hle, hlt⟩ := hafter v (List.mem_append_left _ hv)
    obtain ⟨hle', hlt'⟩ := hbefore v hv w' List.mem_cons_self
    have hsame : v.process = w.process := by omega
    exact ⟨hlog, hsame, stream_ext hname, hlt hsame.symm, hlt' (hsame.trans hprocess)⟩
  have hfew : (mid.flatMap Written.numbers).length ≤ mid.length := by
    have hall : ∀ v ∈ mid, v.numbers.length ≤ 1 := by
      intro v hv
      obtain ⟨hlog, hproc, hstr, hlt, hlt'⟩ := hbetween v hv
      exact (length_numbers_le v).trans (hone v hlog hproc hstr hlt hlt')
    rw [List.length_flatMap]
    calc (mid.map fun v => v.numbers.length).sum
      _ ≤ (mid.map fun v => v.numbers.length).length • 1 :=
        List.sum_le_card_nsmul _ _ (by simpa using hall)
      _ = mid.length := by simp
  -- The lines between are those of other numbers than the lost one.
  have hcount : mid.length ≤ ((Finset.Ioo w.seq w'.seq).erase seq).card := by
    have hnodup : (mid.map Written.seq).Nodup := by
      refine List.pairwise_map.mpr (hpair.imp_of_mem ?_)
      intro a b ha hb h
      have hproc := (hbetween a ha).2.1.trans (hbetween b hb).2.1.symm
      exact ne_of_lt (h.2 hproc)
    rw [← List.length_map (f := Written.seq), ← List.toFinset_card_of_nodup hnodup]
    refine Finset.card_le_card ?_
    intro n hn
    obtain ⟨v, hv, rfl⟩ := List.mem_map.mp (List.mem_toFinset.mp hn)
    obtain ⟨hlog, hproc, hstr, hlt, hlt'⟩ := hbetween v hv
    exact Finset.mem_erase.mpr ⟨hlost.2 v hlog hproc hstr, Finset.mem_Ioo.mpr ⟨hlt, hlt'⟩⟩
  have hall : (Finset.Ioo (w.seq : ℤ) w'.seq).card ≤ (mid.flatMap Written.numbers).length := by
    refine (Finset.card_le_card ?_).trans (List.toFinset_card_le _)
    intro n hn
    obtain ⟨hlt, hlt'⟩ := Finset.mem_Ioo.mp hn
    rw [hnumbers] at hcontiguous hsorted
    exact List.mem_toFinset.mpr (mem_between hsorted hcontiguous hlt hlt')
  rw [Finset.card_erase_of_mem (Finset.mem_Ioo.mpr ⟨hlow, hhigh⟩), Nat.card_Ioo] at hcount
  rw [Int.card_Ioo] at hall
  omega

/-- A number below an earlier process's makes the numbers fall. -/
theorem not_sorted_of_restart (ideal : ∀ aead, env.encryptor.aead = some aead → aead.Ideal)
    (h : run.Restarted) : ∃ name, ¬ (run.numbers name).Pairwise (· ≤ ·) := by
  obtain ⟨w, hw, w', hw', hlive, hlive', hstream, hprocess, hfall⟩ := h
  refine ⟨w.stream.name, ?_⟩
  intro hsorted
  have hmem : w ∈ run.ofStream w.stream.name := mem_ofStream.mpr ⟨hw, rfl⟩
  have hmem' : w' ∈ run.ofStream w.stream.name := mem_ofStream.mpr ⟨hw', hstream ▸ rfl⟩
  obtain ⟨front, mid, back, hsplit⟩ := ofStream_split hmem hmem' (.inl hprocess)
  unfold numbers at hsorted
  rw [hsplit, List.flatMap_append, List.flatMap_cons, List.flatMap_append, List.flatMap_cons,
    hlive.numbers ideal, hlive'.numbers ideal] at hsorted
  obtain ⟨-, hrest, -⟩ := List.pairwise_append.mp hsorted
  have hle := (List.pairwise_cons.mp hrest).1 (w'.seq : ℤ) (by simp)
  omega

/-- A complete run's numbers are those that were stamped. -/
theorem Complete.numbers {expected : List String}
    (ideal : ∀ aead, env.encryptor.aead = some aead → aead.Ideal) (h : run.Complete expected)
    (name : String) :
    Contiguous (run.numbers name) ∧ (run.numbers name).Pairwise (· ≤ ·) := by
  have hnumbers : run.numbers name = (run.ofStream name).map fun w => (w.seq : ℤ) := by
    unfold Run.numbers
    rw [List.map_eq_flatMap]
    exact List.flatMap_congr fun w hw => (h.survives w (mem_ofStream.mp hw).1).numbers ideal
  rw [hnumbers]
  constructor
  · intro a ha b hb n han hnb
    obtain ⟨w, hw, rfl⟩ := List.mem_map.mp ha
    obtain ⟨w', hw', rfl⟩ := List.mem_map.mp hb
    obtain ⟨hlog', hname'⟩ := mem_ofStream.mp hw'
    obtain ⟨k, rfl⟩ : ∃ k : ℕ, n = k := ⟨n.toNat, by omega⟩
    have hstamped : k < run.stamped w'.process w'.stream := by
      have hwithin := run.within w' hlog'
      omega
    obtain ⟨v, hv, hproc, hstr, hseq⟩ : ∃ v ∈ run.log, v.process = w'.process ∧
      v.stream = w'.stream ∧ v.seq = k := by
      by_contra hnone
      refine h.present _ _ _ ⟨hstamped, ?_⟩
      exact fun v hv hproc hstr hseq => hnone ⟨v, hv, hproc, hstr, hseq⟩
    exact List.mem_map.mpr ⟨v, mem_ofStream.mpr ⟨hv, (congrArg Stream.name hstr).trans hname'⟩,
      congrArg _ hseq⟩
  · refine List.pairwise_map.mpr ((run.ordered_ofStream name).imp_of_mem ?_)
    intro a b ha hb hordered
    have hlt := hordered.2 (h.one a (mem_ofStream.mp ha).1 b (mem_ofStream.mp hb).1)
    exact_mod_cast hlt.le

/-- The ticks that a complete run's records carry are read as they are. -/
theorem Complete.ticks_contiguous {expected : List String}
    (ideal : ∀ aead, env.encryptor.aead = some aead → aead.Ideal) (h : run.Complete expected) :
    Contiguous (extractIntField ((run.ofStream tickStream).flatMap Written.kept) tickField) := by
  have htick : ∀ n, n ∈ extractIntField ((run.ofStream tickStream).flatMap Written.kept) tickField ↔
    run.IsTick n := by
    intro n
    unfold extractIntField
    rw [List.mem_filterMap]
    have hvalue : ∀ w : Written env runId, (mapRecord w.record).get tickField =
      w.record.get tickField := by
      intro w
      unfold Dict.get
      rw [lookup_mapRecord_field (by simp)]
    constructor
    · rintro ⟨record, hrecord, hn⟩
      obtain ⟨w, hw, hrecord⟩ := List.mem_flatMap.mp hrecord
      obtain ⟨hlog, hname⟩ := mem_ofStream.mp hw
      rw [(h.survives w hlog).kept ideal, List.mem_singleton] at hrecord
      rw [hrecord, hvalue] at hn
      exact ⟨w, hlog, hname, hn⟩
    · rintro ⟨w, hlog, hname, hn⟩
      refine ⟨mapRecord w.record, List.mem_flatMap.mpr ⟨w, mem_ofStream.mpr ⟨hlog, hname⟩, ?_⟩, ?_⟩
      · rw [(h.survives w hlog).kept ideal]
        exact List.mem_singleton_self _
      · rw [hvalue]
        exact hn
  intro a ha b hb n han hnb
  exact (htick n).mpr (h.ticks a b n ((htick a).mp ha) ((htick b).mp hb) han hnb)

end Run

/-- Where every line decodes as UTF-8 the scan returns. A loss between survivors, a number below an
earlier process's, an unreadable line and a missing stream make the run inadmissible; a complete run
is admissible. -/
theorem scanRun_detects (ideal : ∀ aead, env.encryptor.aead = some aead → aead.Ideal)
    (run : Run env runId) (expected related : List String)
    (hdecode : ∀ w ∈ run.log, (Utf8.decode w.chunk).isSome = true) :
    ∃ r, scanRun env run.tree runId expected related = some r ∧
      (run.LostBetween ∨ run.Restarted ∨ run.Unreadable ∨ run.Missing expected →
        r.admissible = false) ∧
      (run.Complete expected → related = [] → r.admissible = true) := by
  obtain ⟨r, hscan, hrelated, hreport⟩ := run.scanRun_tree expected related hdecode
  have hnumbers : ∀ name, extractIntField ((run.ofStream name).flatMap Written.kept) seqField =
    run.numbers name :=
    fun name => extractIntField_flatMap _ _ _
  refine ⟨r, hscan, ?_, ?_⟩
  · intro h
    rw [Bool.eq_false_iff]
    intro hadmissible
    obtain ⟨out, errors, rfl, hloaded, herrors⟩ := hreport (hrelated hadmissible)
    obtain ⟨-, hcontiguous, hsorted, hpresent, hzero, -⟩ :=
      (report_admissible hloaded).mp hadmissible
    simp only [hnumbers] at hcontiguous hsorted
    rcases h with h | h | h | h
    · obtain ⟨name, hnot⟩ := Run.not_contiguous_of_lost ideal h
      exact hnot ⟨hcontiguous name, hsorted name⟩
    · obtain ⟨name, hnot⟩ := Run.not_sorted_of_restart ideal h
      exact hnot (hsorted name)
    · obtain ⟨w, hw, line, hline, hblank, hread⟩ := h
      refine herrors.mp hzero w hw ?_
      exact List.mem_map.mpr ⟨line, List.mem_filter.mpr ⟨hline, decide_eq_true hblank⟩, hread⟩
    · obtain ⟨name, hname, hnone⟩ := h
      refine hpresent name hname ?_
      rw [List.flatMap_eq_nil_iff]
      intro w hw
      obtain ⟨hlog, hstream⟩ := Run.mem_ofStream.mp hw
      exact hnone w hlog hstream
  · rintro h rfl
    obtain ⟨out, errors, rfl, hloaded, herrors⟩ := hreport rfl
    rw [report_admissible hloaded]
    refine ⟨h.ticks_contiguous ideal, fun name => ?_, fun name => ?_, ?_, ?_, rfl⟩
    · rw [hnumbers]
      exact (h.numbers ideal name).1
    · rw [hnumbers]
      exact (h.numbers ideal name).2
    · intro name hname hnil
      obtain ⟨w, hw, hstream⟩ := h.expected name hname
      have hkept := List.flatMap_eq_nil_iff.mp hnil w (Run.mem_ofStream.mpr ⟨hw, hstream⟩)
      rw [(h.survives w hw).kept ideal] at hkept
      cases hkept
    · refine herrors.mpr fun w hw hnone => ?_
      rw [readings_undamaged ideal (h.survives w hw).1, List.mem_singleton] at hnone
      cases hnone

section Sample

def sampleRows : List (Dict × Text) :=
  [([("run_id", .str "r"), ("seq", .int 0)], Text.ofString "\x7b\"run_id\": \"r\", \"seq\": 0\x7d"),
   ([("run_id", .str "r"), ("seq", .int 1)], Text.ofString "\x7b\"run_id\": \"r\", \"seq\": 1\x7d"),
   ([("run_id", .str "r"), ("seq", .int 2)], Text.ofString "\x7b\"run_id\": \"r\", \"seq\": 2\x7d"),
   ([("run_id", .str "r"), ("seq", .int 3)], Text.ofString "\x7b\"run_id\": \"r\", \"seq\": 3\x7d"),
   ([("run_id", .str "s"), ("seq", .int 1)], Text.ofString "\x7b\"run_id\": \"s\", \"seq\": 1\x7d")]

/-- State without encryption, and JSON of the sample's records. -/
def sampleEnv : Env where
  lax := false
  encryptor := StateEncryptor.disabled
  json := JsonLine.ofTexts sampleRows [] (by decide) (by decide) (by decide)
  repr := fun _ => ""
  otherDigit := fun _ => false

def welfare : Stream := ⟨"welfare", by decide, by decide⟩

def sampleDate : Date := ⟨"2026".toList, "06".toList, "14".toList,
      List.all_eq_true.mp (by decide), by decide⟩

/-- A record of the sample's one process. -/
def sampleWritten (seq : ℕ) (entry : Dict) (line : Text) (damage : Option Bytes)
    (encoded : encodeLine sampleEnv.json sampleEnv.encryptor zeroNonce (stamp "r" seq entry) =
      some line) :
    Written sampleEnv "r" :=
  ⟨0, welfare, seq, sampleDate, entry, zeroNonce, line, encoded, damage⟩

def sampleLine (i : ℕ) : Text := (sampleRows.getD i ([], [])).2

def written0 : Written sampleEnv "r" := sampleWritten 0 [] (sampleLine 0) none (by decide)
def written1 : Written sampleEnv "r" := sampleWritten 1 [] (sampleLine 1) none (by decide)
def written2 : Written sampleEnv "r" := sampleWritten 2 [] (sampleLine 2) none (by decide)
def written3 : Written sampleEnv "r" := sampleWritten 3 [] (sampleLine 3) none (by decide)

/-- A record with a run id of its own. -/
def foreign1 : Written sampleEnv "r" :=
  sampleWritten 1 [("run_id", .str "s")] (sampleLine 4) none (by decide)

/-- The run of one process that wrote records in order. -/
def sampleRun (log : List (Written sampleEnv "r")) (stamped : ℕ)
    (hordered : log.Pairwise fun a b => a.process ≤ b.process ∧ a.date.text ≤ b.date.text ∧
      a.seq < b.seq)
    (hwithin : ∀ w ∈ log, w.seq < stamped) : Run sampleEnv "r" where
  dir := fun _ => []
  outside := by simp
  log := log
  ordered := hordered.imp fun h _ => ⟨h.1, h.2.1, fun _ => h.2.2⟩
  stamped := fun _ _ => stamped
  within := hwithin

/-- The second of three records is lost. -/
def midLost : Run sampleEnv "r" := sampleRun [written0, written2] 3 (by decide) (by decide)

/-- The first of two records is lost. -/
def headLost : Run sampleEnv "r" := sampleRun [written1] 2 (by decide) (by decide)

/-- The last line is overwritten with blanks. -/
def blanked : Run sampleEnv "r" :=
  sampleRun [written0, { written1 with damage := some [Utf8.byte 32] }] 2 (by decide) (by decide)

/-- The second record is lost, and the third line has become two. -/
def splitLine : Run sampleEnv "r" :=
  sampleRun [written0,
    { written2 with damage := (Utf8.encode (sampleLine 1 ++ Text.newline :: sampleLine 2)) },
      written3] 4
    (by decide) (by decide)

/-- Everything is there, one record under a run id of its own. -/
def foreignId : Run sampleEnv "r" :=
  sampleRun [written0, foreign1, written2] 3 (by decide) (by decide)

theorem midLost_lostBetween : midLost.LostBetween := by
  have hprocess : written0.process = written2.process :=
    (show written0.process = 0 from rfl).trans (show 0 = written2.process from rfl)
  have hstream : written0.stream = written2.stream :=
    (show written0.stream = welfare from rfl).trans (show welfare = written2.stream from rfl)
  refine ⟨written0, List.mem_cons_self, written2, List.mem_cons_of_mem _ List.mem_cons_self,
    ⟨rfl, by decide⟩, ⟨rfl, by decide⟩, hprocess, hstream,
      ⟨1, by decide, by decide, by decide, ?_⟩, ?_⟩
  · intro w hw _ _
    rcases List.mem_cons.mp hw with rfl | hw
    · decide
    · rw [List.mem_singleton.mp hw]
      decide
  · intro v hv _ _ hlow hhigh
    rcases List.mem_cons.mp hv with rfl | hv
    · exact absurd hlow (by decide)
    · rw [List.mem_singleton.mp hv] at hhigh
      exact absurd hhigh (by decide)

theorem scanRun_detects_mid : ∃ r, scanRun sampleEnv midLost.tree "r" ["welfare"] [] = some r ∧
    r.admissible = false := by
  obtain ⟨r, hscan, hdetects, -⟩ :=
    scanRun_detects (fun aead h => by cases h) midLost ["welfare"] [] (by decide)
  exact ⟨r, hscan, hdetects (.inl midLost_lostBetween)⟩

/-- A lost head passes, and so does a blank line and a loss that a split line makes up for; a record
under a run id of its own passes for lost. -/
theorem head_loss_admissible :
    (headLost.Lost 0 welfare 0 ∧ (∃ w ∈ headLost.log, w.Survives ∧ w.stream = welfare ∧ 0 < w.seq) ∧
      (scanRun sampleEnv headLost.tree "r" ["welfare"] []).map AdmissibilityReport.admissible =
        some true) ∧
    ((∃ w ∈ blanked.log, ∃ line ∈ fileLines w.chunk, readLine sampleEnv line = none) ∧
      (scanRun sampleEnv blanked.tree "r" ["welfare"] []).map AdmissibilityReport.admissible =
        some true) ∧
    (splitLine.Lost 0 welfare 1 ∧ (∃ w ∈ splitLine.log, w.Survives ∧ w.stream = welfare ∧
      w.seq < 1) ∧ (∃ w ∈ splitLine.log, w.Survives ∧ w.stream = welfare ∧ 1 < w.seq) ∧
      (scanRun sampleEnv splitLine.tree "r" ["welfare"] []).map AdmissibilityReport.admissible =
        some true) ∧
    ((∀ seq, ¬ foreignId.Lost 0 welfare seq) ∧ (∀ w ∈ foreignId.log, w.damage = none) ∧
      (scanRun sampleEnv foreignId.tree "r" ["welfare"] []).map AdmissibilityReport.admissible =
        some false) := by
  have hlost : ∀ (run : Run sampleEnv "r") (seq : ℕ), seq < run.stamped 0 welfare →
      (∀ w ∈ run.log, w.seq ≠ seq) → run.Lost 0 welfare seq :=
        fun run seq hstamped h => ⟨hstamped, fun w hw _ _ => h w hw⟩
  refine ⟨⟨hlost _ _ (by decide) (by decide), ⟨written1, List.mem_cons_self, ⟨rfl, by decide⟩,
    rfl, by decide +kernel⟩, by decide +kernel⟩, ⟨?_, by decide +kernel⟩,
    ⟨hlost _ _ (by decide) (by decide), ⟨written0, List.mem_cons_self, ⟨rfl, by decide⟩, rfl,
    by decide⟩, ⟨written3, List.mem_cons_of_mem _ (List.mem_cons_of_mem _ List.mem_cons_self),
    ⟨rfl, by decide +kernel⟩, rfl, by
      decide +kernel⟩, by decide +kernel⟩, ?_, by decide +kernel, by decide +kernel⟩
  · exact ⟨_, List.mem_cons_of_mem _ List.mem_cons_self,
      [CodePoint.ofChar ' '], by decide, by decide⟩
  · rintro seq ⟨hstamped, hnone⟩
    have hall : ∀ n, n < 3 → ∃ w ∈ foreignId.log, w.process = 0 ∧
      w.stream = welfare ∧ w.seq = n := by
      intro n hn
      interval_cases n
      · exact ⟨written0, List.mem_cons_self, rfl, rfl, rfl⟩
      · exact ⟨foreign1, List.mem_cons_of_mem _ List.mem_cons_self, rfl, rfl, rfl⟩
      · exact ⟨written2, List.mem_cons_of_mem _ (List.mem_cons_of_mem _ List.mem_cons_self),
          rfl, rfl, rfl⟩
    obtain ⟨w, hw, hprocess, hstream, hseq⟩ := hall seq hstamped
    exact hnone w hw hprocess hstream hseq

end Sample

end Kaine.Admissibility
