import Kaine.Experiment.SinkLogSafety
import Mathlib.Order.Interval.Finset.Nat
import Mathlib.Data.Int.Interval

/-! What the completeness gate sees of a run's losses, damages and restarts. -/
namespace Kaine.Admissibility
open Py Security JsonlSink

section Sequences

variable {values : List ℤ} {v m : ℤ}

/-- No integer is missing between two values. -/
def Contiguous (values : List ℤ) : Prop := ∀ a ∈ values, ∀ b ∈ values, ∀ n, a ≤ n → n ≤ b →
    n ∈ values

theorem seqResets_some : seqResets (some m) values = [] ↔
    (∀ v ∈ values, m ≤ v) ∧ values.Pairwise (· ≤ ·) := by
  induction values generalizing m with
  | nil => simp [seqResets]
  | cons v values ih =>
    rw [seqResets]
    by_cases hlt : v < m
    · rw [if_pos hlt]
      constructor
      · intro h
        cases h
      · rintro ⟨h, -⟩
        exact absurd (h v List.mem_cons_self) (not_le.mpr hlt)
    · have hle : m ≤ v := not_lt.mp hlt
      rw [if_neg hlt, max_eq_right hle, ih, List.pairwise_cons, List.forall_mem_cons]
      constructor
      · rintro ⟨hall, hsorted⟩
        exact ⟨⟨hle, fun w hw => hle.trans (hall w hw)⟩, hall, hsorted⟩
      · rintro ⟨-, hall, hsorted⟩
        exact ⟨hall, hsorted⟩

/-- Numbers are never reset where they never fall. -/
theorem seqResets_eq_nil : seqResets none values = [] ↔ values.Pairwise (· ≤ ·) := by
  cases values with
  | nil => simp [seqResets]
  | cons v values => rw [seqResets, seqResets_some, List.pairwise_cons]

/-- A fold that keeps one of its values ends at one that stands before them all. -/
theorem foldl_extreme (op : ℤ → ℤ → ℤ) (R : ℤ → ℤ → Prop) (hrefl : ∀ a, R a a)
    (htrans : ∀ {a b c}, R a b → R b c → R a c) (hop : ∀ a b, op a b = a ∨ op a b = b)
    (hleft : ∀ a b, R (op a b) a) (hright : ∀ a b, R (op a b) b) (v : ℤ) (values : List ℤ) :
    values.foldl op v ∈ v :: values ∧ ∀ w ∈ v :: values, R (values.foldl op v) w := by
  induction values generalizing v with
  | nil =>
    refine ⟨List.mem_singleton_self v, ?_⟩
    intro w hw
    rw [List.mem_singleton.mp hw]
    exact hrefl v
  | cons u values ih =>
    obtain ⟨hmem, hall⟩ := ih (op v u)
    rw [List.foldl_cons]
    constructor
    · rcases List.mem_cons.mp hmem with heq | htail
      · rw [heq]
        rcases hop v u with h | h
        · rw [h]
          exact List.mem_cons_self
        · rw [h]
          exact List.mem_cons_of_mem _ List.mem_cons_self
      · exact List.mem_cons_of_mem _ (List.mem_cons_of_mem _ htail)
    · have hfirst := hall _ List.mem_cons_self
      intro w hw
      rcases List.mem_cons.mp hw with rfl | hw
      · exact htrans hfirst (hleft w u)
      · rcases List.mem_cons.mp hw with rfl | hw
        · exact htrans hfirst (hright v w)
        · exact hall w (List.mem_cons_of_mem _ hw)

theorem contiguousGaps_eq_nil : contiguousGaps values = [] ↔ Contiguous values := by
  cases values with
  | nil => exact ⟨fun _ a ha => absurd ha List.not_mem_nil, fun _ => rfl⟩
  | cons v values =>
    obtain ⟨hlo, hleast⟩ :=
      foldl_extreme min (· ≤ ·) le_refl le_trans min_choice min_le_left min_le_right v values
    obtain ⟨hhi, hgreatest⟩ := foldl_extreme max (· ≥ ·) le_refl ge_trans max_choice le_max_left
      le_max_right v values
    unfold contiguousGaps
    dsimp only
    rw [List.filter_eq_nil_iff]
    constructor
    · intro h a ha b hb n han hnb
      by_contra hn
      have hlow := hleast a ha
      have hhigh := hgreatest b hb
      refine h n (List.mem_map.mpr ⟨(n - values.foldl min v).toNat, List.mem_range.mpr ?_, ?_⟩)
        (decide_eq_true hn)
      · omega
      · omega
    · intro h n hn
      obtain ⟨i, hi, rfl⟩ := List.mem_map.mp hn
      have hi := List.mem_range.mp hi
      have hmem := h _ hlo _ hhi (values.foldl min v + i) (by omega) (by omega)
      exact fun hmissing => of_decide_eq_true hmissing hmem

/-- Sorted numbers without a gap hold what lies between two of them, there. -/
theorem mem_between {front mid back : List ℤ} {a b n : ℤ}
    (hsorted : (front ++ a :: (mid ++ b :: back)).Pairwise (· ≤ ·))
    (hcontiguous : Contiguous (front ++ a :: (mid ++ b :: back))) (ha : a < n)
    (hb : n < b) : n ∈ mid := by
  obtain ⟨-, hrest, hfront⟩ := List.pairwise_append.mp hsorted
  obtain ⟨-, hmid⟩ := List.pairwise_cons.mp hrest
  obtain ⟨-, hback, -⟩ := List.pairwise_append.mp hmid
  obtain ⟨hb', -⟩ := List.pairwise_cons.mp hback
  have hmem : n ∈ front ++ a :: (mid ++ b :: back) :=
    hcontiguous a (by simp) b (by simp) n ha.le hb.le
  rcases List.mem_append.mp hmem with h | h
  · exact absurd (hfront n h a List.mem_cons_self) (not_le.mpr ha)
  · rcases List.mem_cons.mp h with rfl | h
    · exact absurd ha (lt_irrefl _)
    · rcases List.mem_append.mp h with h | h
      · exact h
      · rcases List.mem_cons.mp h with rfl | h
        · exact absurd hb (lt_irrefl _)
        · exact absurd (hb' n h) (not_le.mpr hb)

end Sequences

section Report

variable {out : RunRecords} {records : String → List Dict} {errors : ℕ} {runId : String}
  {expected related : List String}

theorem mem_streams (h : Loaded out records errors) {name : String} : name ∈ out.streams ↔
    records name ≠ [] := by
  have hof : out.of name = records name := h.records name
  rw [← hof]
  unfold RunRecords.streams RunRecords.of
  rw [List.filter_eq_self.mpr fun kv hkv => decide_eq_true (h.present kv hkv)]
  cases hlookup : out.byStream.lookup name with
  | none => simpa using Assoc.not_mem_of_lookup_eq_none hlookup
  | some more =>
    have hmem := Assoc.mem_of_lookup_eq_some hlookup
    exact ⟨fun _ => h.present _ hmem, fun _ => List.mem_map.mpr ⟨_, hmem, rfl⟩⟩

/-- A scan of every stream finds nothing where it finds nothing in the records of any name. -/
theorem found_isEmpty (h : Loaded out records errors) (scan : List ℤ → List ℤ)
    (hnil : scan [] = []) :
    ((out.byStream.map fun kv => (kv.1, scan (extractIntField kv.2 seqField))).filter fun kv =>
      kv.2 ≠ []).isEmpty = true ↔ ∀ name, scan (extractIntField (records name) seqField) = [] := by
  rw [List.isEmpty_iff, List.filter_eq_nil_iff]
  constructor
  · intro hall name
    have hof : out.of name = records name := h.records name
    rw [← hof]
    unfold RunRecords.of
    cases hlookup : out.byStream.lookup name with
    | none => exact hnil
    | some more =>
      have hmem := Assoc.mem_of_lookup_eq_some hlookup
      simpa using hall _ (List.mem_map.mpr ⟨_, hmem, rfl⟩)
  · intro hall kv hkv
    obtain ⟨⟨name, more⟩, hmem, rfl⟩ := List.mem_map.mp hkv
    have hof : out.of name = records name := h.records name
    have hlookup : out.of name = more := by
      unfold RunRecords.of
      rw [Assoc.lookup_of_mem h.nodup hmem]
      rfl
    have hscan := hall name
    rw [← hof, hlookup] at hscan
    simpa using hscan

/-- When a report says that the record is complete. -/
theorem report_admissible (h : Loaded out records errors) :
    (report out runId expected related).admissible = true ↔
      Contiguous (extractIntField (records tickStream) tickField) ∧
    (∀ name, Contiguous (extractIntField (records name) seqField)) ∧
    (∀ name, (extractIntField (records name) seqField).Pairwise (· ≤ ·)) ∧
    (∀ name ∈ expected, records name ≠ []) ∧ errors = 0 ∧ related = [] := by
  have htick : out.of tickStream = records tickStream := h.records tickStream
  have hmissing : (expected.filter fun s => s ∉ out.streams).isEmpty = true ↔
    ∀ name ∈ expected, records name ≠ [] := by
    rw [List.isEmpty_iff, List.filter_eq_nil_iff]
    simp only [decide_eq_true_eq, not_not, mem_streams h]
  have hgaps := found_isEmpty h contiguousGaps rfl
  have hresets := found_isEmpty h (seqResets none) rfl
  simp only [contiguousGaps_eq_nil] at hgaps
  simp only [seqResets_eq_nil] at hresets
  unfold report
  dsimp only
  rw [Bool.and_eq_true, Bool.and_eq_true, Bool.and_eq_true, Bool.and_eq_true, Bool.and_eq_true,
    hgaps, hresets, hmissing, List.isEmpty_iff, List.isEmpty_iff, beq_iff_eq, h.errors,
    contiguousGaps_eq_nil, ← htick]
  unfold RunRecords.of
  tauto

end Report

section Scan

variable {env : Env} {runId rid : String} {run : Run env runId} {related expected : List String}

/-- Whatever run id is asked for, the files of a run are read. -/
theorem Run.loadRunRecords_some (hdecode : ∀ w ∈ run.log, (Utf8.decode w.chunk).isSome = true)
    (rid : String) : ∃ out, loadRunRecords env run.tree rid = some out := by
  obtain ⟨keys, -, -, hiter⟩ := run.iterJsonlFiles_tree
  have hread : ∀ p ∈ keys,
      (Utf8.decode ((run.log.filter fun w => run.path w = p).flatMap Written.chunk)).isSome =
      true := fun p _ => (readings_flatMap fun w hw => hdecode w (List.mem_of_mem_filter hw)).1
  obtain ⟨out, hfold, -⟩ := Loaded.empty.addFiles env rid hread
  refine ⟨out, ?_⟩
  unfold loadRunRecords
  rw [hiter]
  exact hfold

/-- One run's records are combined as they are. -/
theorem Loaded.combine {out : RunRecords} {records : String → List Dict} {errors : ℕ}
    (h : Loaded out records errors) :
    let combined :=
      out.byStream.foldl (fun combined kv => combined.extend kv.1 kv.2) RunRecords.empty
    Loaded { combined with parseErrors := combined.parseErrors + out.parseErrors }
      records errors := by
  have hfold : ∀ (rows : List (String × List Dict)) (combined : RunRecords) (old : String →
      List Dict), (rows.map Prod.fst).Nodup → (∀ kv ∈ rows, kv.2 ≠ []) → Loaded combined old 0 →
      Loaded (rows.foldl (fun combined kv => combined.extend kv.1 kv.2) combined)
        (fun name => old name ++ (rows.lookup name).getD []) 0 := by
    intro rows
    induction rows with
    | nil => exact fun combined old _ _ hold => hold.of_eq (fun name => by simp) rfl
    | cons kv rows ih =>
      intro combined old hnodup hpresent hold
      obtain ⟨hkey, hnodup⟩ := List.nodup_cons.mp hnodup
      have hnext := hold.extend kv.1 (hpresent kv List.mem_cons_self)
      refine (ih _ _ hnodup (fun r hr => hpresent r (List.mem_cons_of_mem _ hr)) hnext).of_eq
        (fun name => ?_) rfl
      by_cases hname : name = kv.1
      · subst hname
        rw [if_pos rfl, Assoc.lookup_of_not_mem hkey, List.lookup_cons, beq_self_eq_true]
        exact List.append_nil _
      · rw [if_neg hname, List.append_nil, Assoc.lookup_cons_of_ne hname]
  obtain ⟨hnodup, hpresent, hrecords, hzero⟩ :=
    hfold out.byStream _ _ h.nodup h.present Loaded.empty
  have herrors : _ + out.parseErrors = errors :=
    (congrArg (· + _) hzero).trans ((Nat.zero_add _).trans h.errors)
  refine ⟨hnodup, hpresent, fun name => (hrecords name).trans ?_, herrors⟩
  rw [List.nil_append, ← h.records name]
  rfl

/-- A scan of a run whose files decode returns; with other run ids the run is never admissible, and
without them the report is on the run's records. -/
theorem Run.scanRun_tree (run : Run env runId) (expected related : List String)
    (hdecode : ∀ w ∈ run.log, (Utf8.decode w.chunk).isSome = true) :
    ∃ r, scanRun env run.tree runId expected related = some r ∧
      (r.admissible = true → related = []) ∧
        (related = [] → ∃ out errors, r = report out runId expected [] ∧
        Loaded out (fun name => (run.ofStream name).flatMap Written.kept) errors ∧
        (errors = 0 ↔ ∀ w ∈ run.log, none ∉ readings env w.chunk)) := by
  have hadd : ∀ (combined : RunRecords) (rid : String),
    ∃ out, addRun env run.tree combined rid = some out := by
    intro combined rid
    obtain ⟨out, hout⟩ := Run.loadRunRecords_some hdecode rid
    unfold addRun
    rw [hout]
    exact ⟨_, rfl⟩
  have hfold : ∀ (rids : List String) (combined : RunRecords), ∃ out,
      rids.foldlM (addRun env run.tree) combined = some out := by
    intro rids
    induction rids with
    | nil => exact fun combined => ⟨combined, rfl⟩
    | cons rid rids ih =>
      intro combined
      obtain ⟨out, hout⟩ := hadd combined rid
      rw [List.foldlM_cons, hout]
      exact ih out
  obtain ⟨combined, hcombined⟩ := hfold (runId :: related) RunRecords.empty
  refine ⟨report combined runId expected related, ?_, ?_, ?_⟩
  · unfold scanRun loadCombined
    rw [hcombined]
    rfl
  · intro h
    unfold report at h
    rw [Bool.and_eq_true, List.isEmpty_iff] at h
    exact h.2
  · rintro rfl
    obtain ⟨out, errors, hload, hloaded, herrors⟩ := run.loadRunRecords_tree hdecode
    refine ⟨combined, errors, rfl, ?_, herrors⟩
    rw [List.foldlM_cons] at hcombined
    obtain ⟨first, hfirst, hrest⟩ := Option.bind_eq_some_iff.mp hcombined
    cases hrest
    unfold addRun at hfirst
    rw [hload] at hfirst
    cases hfirst
    exact hloaded.combine

end Scan

section Written

variable {env : Env} {runId : String} {w : Written env runId}

theorem lookup_mapRecord_field {key : String} {record : Dict}
    (h : key ∈ ["run_id", seqField, tickField]) :
    (mapRecord record).lookup key = record.lookup key := by
  simp only [List.mem_cons, List.not_mem_nil, or_false] at h
  rcases h with rfl | rfl | rfl
  · exact lookup_mapRecord (by decide) (by decide) (by decide)
  · exact lookup_mapRecord (by decide) (by decide) (by decide)
  · exact lookup_mapRecord (by decide) (by decide) (by decide)

/-- A line that stands as it was written is read as its record. -/
theorem readings_undamaged (ideal : ∀ aead, env.encryptor.aead = some aead → aead.Ideal)
    (h : w.damage = none) : readings env w.chunk = [some w.record] := by
  obtain ⟨hascii, hone, hstrip, text, hdecrypt, hloads⟩ := encodeLine_reads env.lax ideal w.encoded
  have hencode := Utf8.encode_ascii hascii
  have hlines : fileLines w.chunk = [w.line] := by
    have hbyte : (Utf8.byte 10).val < 0x80 := by decide
    have hempty : Utf8.decode [] = some [] := rfl
    unfold fileLines Written.chunk
    rw [h, hencode, Option.getD_none, Option.getD_some, Utf8.decode_ascii_cons hbyte,
      Utf8.decode_encode hencode, hempty]
    exact Text.lines_cons hone []
  unfold readings
  rw [hlines, List.filter_cons_of_pos (by simpa using hstrip), List.filter_nil, List.map_cons,
    List.map_nil]
  unfold readLine
  rw [hdecrypt]
  dsimp only
  rw [hloads]
  rfl

theorem Written.Survives.kept (ideal : ∀ aead, env.encryptor.aead = some aead → aead.Ideal)
    (h : w.Survives) : w.kept = [mapRecord w.record] := by
  have hrun : ofRun env runId (mapRecord w.record) = true := by
    have hsame := h.2
    unfold ofRun Dict.getD at hsame ⊢
    rwa [lookup_mapRecord_field (by simp)]
  unfold Written.kept ofReadings
  rw [readings_undamaged ideal h.1]
  simp [hrun]

/-- The numbers that the lines of a written record are read with. -/
def Written.numbers (w : Written env runId) : List ℤ := extractIntField w.kept seqField

theorem Written.Survives.numbers (ideal : ∀ aead, env.encryptor.aead = some aead → aead.Ideal)
    (h : w.Survives) : w.numbers = [(w.seq : ℤ)] := by
  have hseq : (mapRecord w.record).get seqField = .int w.seq := by
    unfold Dict.get
    rw [lookup_mapRecord_field (by simp)]
    exact congrArg (Option.getD · .null) lookup_stamp_seq
  unfold Written.numbers extractIntField
  rw [h.kept ideal, List.filterMap_cons, hseq]
  rfl

/-- A line has at most one number. -/
theorem length_numbers_le (w : Written env runId) :
    w.numbers.length ≤ (fileLines w.chunk).length := by
  unfold Written.numbers Written.kept extractIntField ofReadings readings
  refine (List.length_filterMap_le _ _).trans ((List.length_filter_le _ _).trans ?_)
  rw [List.length_map]
  refine (List.length_filterMap_le _ _).trans ?_
  rw [List.length_map]
  exact List.length_filter_le _ _

theorem extractIntField_flatMap {A : Type} (kept : A → List Dict) (field : String) (l : List A) :
    extractIntField (l.flatMap kept) field = l.flatMap fun a => extractIntField (kept a) field := by
  unfold extractIntField
  rw [List.filterMap_flatMap]

end Written

end Kaine.Admissibility
