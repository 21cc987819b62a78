import Kaine.Experiment.RunRecords

/-! What the reader finds in the files that sinks left: each stream's records in the order they were
written. -/
namespace Kaine.Admissibility
open Py Security JsonlSink

section Names

variable {c : Char} {s last front suffix : List Char} {env : Env} {date date' : Date} {dir : Path}
  {name : String}

theorem forall_mem_reverse_ne (h : c ∉ last) : ∀ d ∈ last.reverse, decide (d ≠ c) = true := by
  intro d hd
  refine decide_eq_true ?_
  rintro rfl
  exact h (List.mem_reverse.mp hd)

theorem takeWhile_last (h : c ∉ last) :
    ((s ++ c :: last).reverse.takeWhile (· ≠ c)).reverse = last := by
  rw [List.reverse_append, List.reverse_cons, List.append_assoc,
    List.takeWhile_append_of_pos (forall_mem_reverse_ne h), List.singleton_append, List.takeWhile_cons_of_neg (by simp), List.append_nil,
    List.reverse_reverse]

theorem dropWhile_last (h : c ∉ last) :
    (((s ++ c :: last).reverse.dropWhile (· ≠ c)).drop 1).reverse = s := by
  rw [List.reverse_append, List.reverse_cons, List.append_assoc,
    List.dropWhile_append_of_pos (forall_mem_reverse_ne h), List.singleton_append, List.dropWhile_cons_of_neg (by simp), List.drop_one, List.tail_cons,
    List.reverse_reverse]

theorem rsplit_succ (n : ℕ) (h : '-' ∉ last) :
    rsplit (n + 1) (s ++ '-' :: last) = rsplit n s ++ [last] := by
  rw [rsplit, if_pos (List.mem_append_right _ List.mem_cons_self), takeWhile_last h,
    dropWhile_last h]

theorem stem_append (h : '.' ∉ suffix) (hfront : front ≠ []) (hsuffix : suffix ≠ []) :
    stem (front ++ '.' :: suffix) = front := by
  unfold stem
  have htake := takeWhile_last (s := front) h
  have hne : (front ++ '.' :: suffix).reverse.takeWhile (· ≠ '.') ≠ [] := by
    intro hnil
    rw [hnil] at htake
    exact hsuffix htake.symm
  dsimp only
  rw [dropWhile_last h, if_pos ⟨hfront, hne⟩]

theorem Date.isDigit (date : Date) (env : Env) :
    env.isDigit date.year = true ∧ env.isDigit date.month = true ∧ env.isDigit date.day = true := by
  have hpart : ∀ part : List Char, part ≠ [] →
      (∀ c ∈ part, c ∈ date.year ++ (date.month ++ date.day)) → env.isDigit part = true := by
    intro part hne hsub
    have hall : part.all (fun c => c.isDigit || env.otherDigit c) = true := by
      rw [List.all_eq_true]
      intro c hc
      rw [date.digits c (hsub c hc), Bool.true_or]
    unfold Env.isDigit
    rw [hall, Bool.and_true, Bool.not_eq_true', List.isEmpty_eq_false_iff]
    exact hne
  obtain ⟨hy, hm, hd⟩ := date.lengths
  refine ⟨hpart _ ?_ ?_, hpart _ ?_ ?_, hpart _ ?_ ?_⟩
  · exact List.ne_nil_of_length_pos (by omega)
  · exact fun c hc => List.mem_append_left _ hc
  · exact List.ne_nil_of_length_pos (by omega)
  · exact fun c hc => List.mem_append_right _ (List.mem_append_left _ hc)
  · exact List.ne_nil_of_length_pos (by omega)
  · exact fun c hc => List.mem_append_right _ (List.mem_append_right _ hc)

/-- A day's parts hold no hyphen. -/
theorem Date.no_hyphen (date : Date) : '-' ∉ date.month ∧ '-' ∉ date.day := by
  have hdigit : '-' ∉ date.year ++ (date.month ++ date.day) := by
    intro h
    have hbad := date.digits _ h
    revert hbad
    decide
  exact ⟨fun h => hdigit (List.mem_append_right _ (List.mem_append_left _ h)),
    fun h => hdigit (List.mem_append_right _ (List.mem_append_right _ h))⟩

theorem Date.no_hyphen_year (date : Date) : '-' ∉ date.year := by
  intro h
  have hbad := date.digits _ (List.mem_append_left _ h)
  revert hbad
  decide

theorem getLastD_targetPath : (targetPath dir name date).getLastD [] =
    name.toList ++ '-' :: (date.text ++ ".jsonl".toList) := by
  unfold targetPath
  rw [List.getLastD_concat]

theorem isJsonl_targetPath : isJsonl (targetPath dir name date) = true := by
  unfold isJsonl
  rw [getLastD_targetPath, List.isSuffixOf_iff_suffix]
  exact ⟨name.toList ++ '-' :: date.text, by simp⟩

/-- A sink's files are read under its name. -/
theorem mappedStreamName_targetPath (stream : Stream) :
    mappedStreamName env (targetPath dir stream.name date) = stream.name := by
  have hname : stream.name.toList ≠ [] := by
    intro h
    exact stream.nonempty (String.toList_inj.mp h)
  have hstem : stem (stream.name.toList ++ '-' :: (date.text ++ ".jsonl".toList)) =
      stream.name.toList ++ '-' :: date.text := by
    have hsplit : stream.name.toList ++ '-' :: (date.text ++ ".jsonl".toList) =
        (stream.name.toList ++ '-' :: date.text) ++ '.' :: "jsonl".toList := by
      rw [List.append_assoc]
      rfl
    rw [hsplit]
    refine stem_append (by decide) ?_ (by decide)
    exact List.append_ne_nil_of_right_ne_nil _ (List.cons_ne_nil _ _)
  have hparts : rsplit 3 (stream.name.toList ++ '-' :: date.text) =
      [stream.name.toList, date.year, date.month, date.day] := by
    have htext : stream.name.toList ++ '-' :: date.text =
        ((stream.name.toList ++ '-' :: date.year) ++ '-' :: date.month) ++ '-' :: date.day := by
      simp [Date.text]
    rw [htext, rsplit_succ 2 date.no_hyphen.2, rsplit_succ 1 date.no_hyphen.1,
      rsplit_succ 0 date.no_hyphen_year]
    rfl
  obtain ⟨hy, hm, hd⟩ := date.isDigit env
  unfold mappedStreamName streamNameFor
  dsimp only
  rw [getLastD_targetPath, hstem, hparts]
  dsimp only
  rw [hy, hm, hd, List.isEmpty_eq_false_iff.mpr hname]
  have hback : String.ofList stream.name.toList = stream.name := String.ofList_toList
  simp only [Bool.and_true, Bool.not_false, if_true, hback]
  exact stream.current

theorem head?_targetPath (h : dir.head? ≠ some "runs".toList) :
    (targetPath dir name date).head? ≠ some "runs".toList := by
  cases dir with
  | nil =>
    intro heq
    have hlast := Option.some.inj heq
    have hget := congrArg List.getLast? hlast
    revert hget
    simp [List.getLast?_append, List.getLast?_cons]
  | cons part dir => exact h

/-- What differs within the first characters is in their order. -/
theorem append_lt {a b : List Char} (hlen : a.length = b.length) (h : a < b) (x y : List Char) :
    a ++ x < b ++ y := by
  induction a generalizing b with
  | nil =>
    rw [List.length_nil] at hlen
    rw [List.eq_nil_of_length_eq_zero hlen.symm] at h
    exact absurd h (lt_irrefl _)
  | cons c a ih =>
    cases b with
    | nil => cases hlen
    | cons d b =>
      rw [List.cons_append, List.cons_append]
      rcases List.cons_lt_cons_iff.mp h with hlt | ⟨rfl, hlt⟩
      · exact List.cons_lt_cons_iff.mpr (.inl hlt)
      · exact List.cons_lt_cons_iff.mpr (.inr ⟨rfl, ih (Nat.succ.inj hlen) hlt⟩)

theorem Date.length_text (date : Date) : date.text.length = 10 := by
  obtain ⟨hy, hm, hd⟩ := date.lengths
  simp [Date.text, hy, hm, hd]

/-- A later day's file comes later. -/
theorem targetPath_le (h : date.text ≤ date'.text) :
    targetPath dir name date ≤ targetPath dir name date' := by
  rcases h.eq_or_lt with heq | hlt
  · unfold targetPath
    rw [heq]
  · have hname : name.toList ++ '-' :: (date.text ++ ".jsonl".toList) <
        name.toList ++ '-' :: (date'.text ++ ".jsonl".toList) := by
      have hdate := append_lt (date.length_text.trans date'.length_text.symm) hlt ".jsonl".toList
        ".jsonl".toList
      refine List.append_left_lt ?_
      exact List.cons_lt_cons_iff.mpr (.inr ⟨rfl, hdate⟩)
    refine le_of_lt (List.append_left_lt ?_)
    exact List.cons_lt_cons_iff.mpr (.inl hname)

end Names

section Tree

variable {env : Env} {runId : String} {paths : List Path} {path : Path} {bytes : Bytes}
  {content : Path → Bytes}

/-- Files of which the contents are given. -/
def filesOf (content : Path → Bytes) (paths : List Path) : List SinkFile :=
  paths.map fun p => ⟨p, some (content p)⟩

/-- Appending makes a file or lengthens it, and leaves the others. -/
theorem appendTo_filesOf (hnodup : paths.Nodup) (hnew : path ∉ paths → content path = []) :
    appendTo (filesOf content paths) path bytes =
      filesOf (fun p => if p = path then content p ++ bytes else content p)
        (if path ∈ paths then paths else paths ++ [path]) := by
  induction paths with
  | nil =>
    rw [if_neg List.not_mem_nil]
    simp [filesOf, appendTo, hnew List.not_mem_nil]
  | cons p paths ih =>
    obtain ⟨hp, hnodup⟩ := List.nodup_cons.mp hnodup
    show (if p = path then _ else _) = _
    by_cases heq : p = path
    · subst heq
      rw [if_pos rfl, if_pos List.mem_cons_self]
      have hrest : ∀ q ∈ paths, (if q = p then content q ++ bytes else content q) = content q := by
        intro q hq
        refine if_neg ?_
        rintro rfl
        exact hp hq
      simp only [filesOf, List.map_cons, if_true, Option.map_some]
      refine congrArg _ (List.map_congr_left fun q hq => ?_)
      rw [hrest q hq]
    · have hmem : path ∈ p :: paths ↔ path ∈ paths := by
        rw [List.mem_cons]
        exact or_iff_right (Ne.symm heq)
      have hrest := ih hnodup fun h => hnew (fun hcons => h (hmem.mp hcons))
      rw [if_neg heq]
      show _ :: appendTo (filesOf content paths) path bytes = _
      rw [hrest]
      by_cases hin : path ∈ paths
      · rw [if_pos hin, if_pos (hmem.mpr hin)]
        simp [filesOf, heq]
      · rw [if_neg hin, if_neg (mt hmem.mp hin)]
        simp [filesOf, heq]

/-- Each file holds what was appended to it, in order. -/
theorem foldl_appendTo {A : Type} (pathOf : A → Path) (chunk : A → Bytes) (log : List A) :
    ∃ paths : List Path, paths.Nodup ∧ (∀ p, p ∈ paths ↔ ∃ w ∈ log, pathOf w = p) ∧
      log.foldl (fun tree w => appendTo tree (pathOf w) (chunk w)) [] =
        filesOf (fun p => (log.filter fun w => pathOf w = p).flatMap chunk) paths := by
  induction log using List.reverseRecOn with
  | nil => exact ⟨[], List.nodup_nil, by simp, rfl⟩
  | append_singleton log w ih =>
    obtain ⟨paths, hnodup, hmem, htree⟩ := ih
    have hnew : pathOf w ∉ paths →
      (log.filter fun v => pathOf v = pathOf w).flatMap chunk = [] := by
      intro h
      have hnone : (log.filter fun v => pathOf v = pathOf w) = [] := by
        rw [List.filter_eq_nil_iff]
        intro v hv heq
        exact h ((hmem _).mpr ⟨v, hv, of_decide_eq_true heq⟩)
      rw [hnone]
      rfl
    refine ⟨if pathOf w ∈ paths then paths else paths ++ [pathOf w], ?_, ?_, ?_⟩
    · split_ifs with h
      · exact hnodup
      · exact List.nodup_append_comm.mp (List.nodup_cons.mpr ⟨h, hnodup⟩)
    · intro p
      have hsplit : (∃ v ∈ log ++ [w], pathOf v = p) ↔ p ∈ paths ∨ pathOf w = p := by
        rw [hmem]
        simp [or_and_right, exists_or]
      rw [hsplit]
      split_ifs with h
      · constructor
        · exact .inl
        · rintro (hp | rfl)
          · exact hp
          · exact h
      · rw [List.mem_append, List.mem_singleton]
        exact or_congr_right eq_comm
    · rw [List.foldl_append, htree, List.foldl_cons, List.foldl_nil, appendTo_filesOf hnodup hnew]
      unfold filesOf
      refine List.map_congr_left fun p _ => ?_
      dsimp only
      rw [List.filter_append, List.flatMap_append]
      by_cases hp : p = pathOf w
      · rw [if_pos hp, List.filter_cons_of_pos (by simpa using hp.symm)]
        simp
      · rw [if_neg hp, List.filter_cons_of_neg (by simpa using Ne.symm hp)]
        simp

end Tree

section Lines

variable {env : Env} {runId : String} {front back : Bytes}

/-- Bytes of whole lines are read line by line. -/
theorem fileLines_append (hfront : (Utf8.decode (front ++ [Utf8.byte 10])).isSome = true)
    (hback : (Utf8.decode back).isSome = true) :
    (Utf8.decode (front ++ [Utf8.byte 10] ++ back)).isSome = true ∧
      fileLines (front ++ [Utf8.byte 10] ++ back) = fileLines (front ++ [Utf8.byte 10]) ++
        fileLines back := by
  have hascii : (Utf8.byte 10).val < 0x80 := by decide
  have hempty : Utf8.decode [] = some [] := rfl
  obtain ⟨t', ht'⟩ := Option.isSome_iff_exists.mp hback
  rw [Utf8.decode_ascii_cons hascii, hempty] at hfront
  obtain ⟨t, ht⟩ : ∃ t, Utf8.decode front = some t := by
    cases h : Utf8.decode front with
    | none =>
      rw [h] at hfront
      cases hfront
    | some t => exact ⟨t, rfl⟩
  have hends : Text.EndsLine Text.newline t' := .inl rfl
  have hbyte : Ascii.ofByte (Utf8.byte 10) = Text.newline := rfl
  unfold fileLines
  rw [List.append_assoc, List.singleton_append, Utf8.decode_ascii_cons hascii,
    Utf8.decode_ascii_cons hascii, ht, ht', hempty, Option.bind_some, Option.bind_some,
    Option.map_some, Option.map_some, hbyte]
  refine ⟨rfl, ?_⟩
  exact hends.lines_append t

/-- A file of written records is read as its records are, one after another. -/
theorem readings_flatMap {ws : List (Written env runId)}
    (h : ∀ w ∈ ws, (Utf8.decode w.chunk).isSome = true) :
    (Utf8.decode (ws.flatMap Written.chunk)).isSome = true ∧
      readings env (ws.flatMap Written.chunk) = ws.flatMap fun w => readings env w.chunk := by
  induction ws with
  | nil => exact ⟨rfl, rfl⟩
  | cons w ws ih =>
    obtain ⟨hdecode, hread⟩ := ih fun v hv => h v (List.mem_cons_of_mem _ hv)
    obtain ⟨hall, hlines⟩ := fileLines_append (h w List.mem_cons_self) hdecode
    rw [List.flatMap_cons, List.flatMap_cons, ← hread]
    refine ⟨hall, ?_⟩
    have hwhole : fileLines (w.chunk ++ ws.flatMap Written.chunk) =
        fileLines w.chunk ++ fileLines (ws.flatMap Written.chunk) := hlines
    unfold readings
    rw [hwhole, List.filter_append, List.map_append]

theorem ofReadings_append (read read' : List (Option Dict)) :
    ofReadings env runId (read ++ read') = ofReadings env runId read ++
      ofReadings env runId read' := by
  unfold ofReadings
  rw [List.filterMap_append, List.map_append, List.filter_append]

theorem ofReadings_flatMap {A : Type} (read : A → List (Option Dict)) (l : List A) :
    ofReadings env runId (l.flatMap read) = l.flatMap fun a => ofReadings env runId (read a) := by
  induction l with
  | nil => rfl
  | cons a l ih => rw [List.flatMap_cons, List.flatMap_cons, ofReadings_append, ih]

end Lines

section Load

variable {env : Env} {runId stream : String} {out : RunRecords} {files : List SinkFile}

/-- The records of a stream. -/
def RunRecords.of (out : RunRecords) (stream : String) : List Dict :=
  (out.byStream.lookup stream).getD []

/-- What loaded records are: those of each stream, and the errors. -/
structure Loaded (out : RunRecords) (records : String → List Dict) (errors : ℕ) : Prop where
  nodup : (out.byStream.map Prod.fst).Nodup
  present : ∀ kv ∈ out.byStream, kv.2 ≠ []
  records : ∀ stream, out.of stream = records stream
  errors : out.parseErrors = errors

theorem Loaded.empty : Loaded RunRecords.empty (fun _ => []) 0 :=
  ⟨List.nodup_nil, fun _ h => absurd h List.not_mem_nil, fun _ => rfl, rfl⟩

theorem Loaded.extend {records : String → List Dict} {errors : ℕ} (h : Loaded out records errors)
    (stream : String) {more : List Dict} (hmore : more ≠ []) :
    Loaded (out.extend stream more) (fun s => records s ++ if s = stream then more
      else []) errors where
  nodup := Assoc.nodup_assign h.nodup
  present := by
    intro kv hkv
    have hlookup := Assoc.lookup_of_mem (Assoc.nodup_assign h.nodup) (show (kv.1,
      kv.2) ∈ _ from hkv)
    by_cases hs : kv.1 = stream
    · rw [hs, Assoc.lookup_assign_self, Option.some.injEq] at hlookup
      rw [← hlookup]
      exact List.append_ne_nil_of_right_ne_nil _ hmore
    · rw [Assoc.lookup_assign_of_ne hs] at hlookup
      exact h.present _ (Assoc.mem_of_lookup_eq_some hlookup)
  records := by
    intro s
    rw [← h.records s]
    unfold RunRecords.of RunRecords.extend
    by_cases hs : s = stream
    · subst hs
      rw [Assoc.lookup_assign_self, if_pos rfl]
      rfl
    · rw [Assoc.lookup_assign_of_ne hs, if_neg hs, List.append_nil]
  errors := h.errors

theorem Loaded.of_eq {records records' : String → List Dict} {errors errors' : ℕ}
    (h : Loaded out records errors) (hrecords : ∀ s, records s = records' s)
    (herrors : errors = errors') : Loaded out records' errors' :=
  ⟨h.nodup, h.present, fun s => (h.records s).trans (hrecords s), h.errors.trans herrors⟩

/-- How many lines could not be read. -/
def unread (read : List (Option Dict)) : ℕ := read.countP Option.isNone

theorem Loaded.addLines {records : String → List Dict} {errors : ℕ} (h : Loaded out records errors)
    (env : Env) (runId stream : String) (lines : List Text) :
    Loaded (lines.foldl (addLine env runId stream) out)
      (fun s => records s ++
        if s = stream then
          ofReadings env runId ((lines.filter fun line => line.strip ≠ []).map (readLine env))
        else [])
      (errors + unread ((lines.filter fun line => line.strip ≠ []).map (readLine env))) := by
  induction lines generalizing out records errors with
  | nil => exact h.of_eq (fun s => by simp [ofReadings]) rfl
  | cons line lines ih =>
    rw [List.foldl_cons]
    unfold addLine
    by_cases hblank : line.strip = []
    · rw [if_pos hblank, List.filter_cons_of_neg (by simpa using hblank)]
      exact ih h
    · rw [if_neg hblank, List.filter_cons_of_pos (by simpa using hblank), List.map_cons]
      cases hread : readLine env line with
      | none =>
        have herror : Loaded out.addError records (errors + 1) :=
          ⟨h.nodup, h.present, h.records, congrArg (· + 1) h.errors⟩
        refine (ih herror).of_eq (fun s => rfl) ?_
        unfold unread
        rw [List.countP_cons_of_pos rfl]
        omega
      | some record =>
        dsimp only
        have hcount : unread (some record :: (lines.filter fun line => line.strip ≠ []).map
            (readLine env)) = unread ((lines.filter fun line => line.strip ≠ []).map
              (readLine env)) := by
          unfold unread
          rw [List.countP_cons_of_neg (by simp)]
        have hcons : ofReadings env runId
            (some record :: (lines.filter fun line => line.strip ≠ []).map (readLine env)) =
            (if ofRun env runId (mapRecord record) then [mapRecord record] else []) ++
              ofReadings env runId ((lines.filter fun line => line.strip ≠ []).map
                (readLine env)) := by
          unfold ofReadings
          rw [List.filterMap_cons_some (f := id) rfl, List.map_cons, List.filter_cons]
          split_ifs <;> rfl
        rw [hcount, hcons]
        by_cases hrun : ofRun env runId (mapRecord record) = true
        · rw [if_pos hrun, if_pos hrun]
          refine (ih (h.extend stream (List.cons_ne_nil (mapRecord record) []))).of_eq
            (fun s => ?_) rfl
          by_cases hs : s = stream
          · simp [hs]
          · simp [hs]
        · rw [if_neg hrun, if_neg hrun, List.nil_append]
          exact ih h

/-- Files that decode add their records and their errors. -/
theorem Loaded.addFiles {content : Path → Bytes} {records : String → List Dict} {errors : ℕ}
    (h : Loaded out records errors) (env : Env) (runId : String) {paths : List Path}
    (hdecode : ∀ p ∈ paths, (Utf8.decode (content p)).isSome = true) :
    ∃ out', (filesOf content paths).foldlM (addFile env runId) out = some out' ∧
      Loaded out'
        (fun s => records s ++
          (paths.filter fun p => mappedStreamName env p = s).flatMap fun p =>
            ofReadings env runId (readings env (content p)))
        (errors + unread (paths.flatMap fun p => readings env (content p))) := by
  induction paths generalizing out records errors with
  | nil => exact ⟨out, rfl, h.of_eq (fun s => by simp) rfl⟩
  | cons p paths ih =>
    obtain ⟨text, htext⟩ := Option.isSome_iff_exists.mp (hdecode p List.mem_cons_self)
    have hfile : addFile env runId out ⟨p, some (content p)⟩ =
        some (text.lines.foldl (addLine env runId (mappedStreamName env p)) out) := by
      unfold addFile
      dsimp only
      rw [htext]
    have hlines : fileLines (content p) = text.lines := by
      unfold fileLines
      rw [htext]
      rfl
    have hadded := h.addLines env runId (mappedStreamName env p) text.lines
    rw [← hlines] at hadded
    obtain ⟨out', hfold, hloaded⟩ := ih hadded fun q hq => hdecode q (List.mem_cons_of_mem _ hq)
    refine ⟨out', ?_, ?_⟩
    · show List.foldlM (addFile env runId) out (⟨p, some (content p)⟩ :: filesOf content paths) = _
      rw [List.foldlM_cons, hfile, ← hlines]
      exact hfold
    · refine hloaded.of_eq (fun s => ?_) ?_
      · by_cases hs : mappedStreamName env p = s
        · rw [if_pos hs.symm, List.filter_cons_of_pos (by simpa using hs), List.flatMap_cons,
            List.append_assoc]
          rfl
        · rw [if_neg (Ne.symm hs), List.filter_cons_of_neg (by simpa using hs), List.append_nil]
      · have hsum : unread (readings env (content p) ++ paths.flatMap fun q =>
            readings env (content q)) = unread (readings env (content p)) + unread
              (paths.flatMap fun q => readings env (content q)) :=
          List.countP_append
        rw [List.flatMap_cons, hsum, ← Nat.add_assoc]
        rfl

end Load

namespace Run

variable {env : Env} {runId : String}

theorem mappedStreamName_path (run : Run env runId) (w : Written env runId) :
    mappedStreamName env (run.path w) = w.stream.name := mappedStreamName_targetPath w.stream

/-- The written records of a stream. -/
def ofStream (run : Run env runId) (name : String) : List (Written env runId) :=
  run.log.filter fun w => w.stream.name = name

/-- The files under the root, each once, as the reader goes through them. -/
theorem iterJsonlFiles_tree (run : Run env runId) : ∃ keys : List Path, keys.Pairwise (· < ·) ∧
    (∀ p, p ∈ keys ↔ ∃ w ∈ run.log, run.path w = p) ∧
    iterJsonlFiles run.tree =
      filesOf (fun p => (run.log.filter fun w => run.path w = p).flatMap Written.chunk) keys := by
  obtain ⟨paths, hnodup, hmem, htree⟩ := foldl_appendTo run.path Written.chunk run.log
  have hfiles : run.tree = filesOf _ paths := htree
  have hall : iterJsonlFiles run.tree = SortBy.sortBy SinkFile.path run.tree := by
    have hpath : ∀ file ∈ run.tree, isJsonl file.path = true ∧
      file.path.head? ≠ some "runs".toList := by
      intro file hfile
      rw [hfiles] at hfile
      obtain ⟨p, hp, rfl⟩ := List.mem_map.mp hfile
      obtain ⟨w, -, rfl⟩ := (hmem p).mp hp
      exact ⟨isJsonl_targetPath, head?_targetPath (run.outside w.stream)⟩
    unfold iterJsonlFiles
    rw [List.filter_eq_self.mpr fun file hfile => (hpath file hfile).1, List.filter_eq_self.mpr]
    intro file hfile
    exact decide_eq_true (hpath file ((SortBy.mem_sortBy _).mp hfile)).2
  have hperm : ((SortBy.sortBy SinkFile.path run.tree).map SinkFile.path).Perm paths := by
    have hpaths : run.tree.map SinkFile.path = paths := by
      rw [hfiles]
      unfold filesOf
      rw [List.map_map]
      exact List.map_id paths
    exact ((SortBy.sortBy_perm SinkFile.path run.tree).map SinkFile.path).trans
      (hpaths ▸ List.Perm.refl _)
  refine ⟨(SortBy.sortBy SinkFile.path run.tree).map SinkFile.path, ?_, ?_, ?_⟩
  · have hle := List.pairwise_map.mpr (SortBy.pairwise_sortBy SinkFile.path run.tree)
    have hne : ((SortBy.sortBy SinkFile.path run.tree).map SinkFile.path).Pairwise (· ≠ ·) :=
      hperm.nodup_iff.mpr hnodup
    exact (hle.and hne).imp fun h => lt_of_le_of_ne h.1 h.2
  · exact fun p => hperm.mem_iff.trans (hmem p)
  · rw [hall]
    unfold filesOf
    rw [List.map_map]
    refine (List.map_id _).symm.trans (List.map_congr_left fun file hfile => ?_)
    have hfile := (SortBy.mem_sortBy _).mp hfile
    rw [hfiles] at hfile
    obtain ⟨p, -, rfl⟩ := List.mem_map.mp hfile
    rfl

/-- The files of a stream hold its records in the order they were written. -/
theorem flatMap_stream (run : Run env runId) {keys : List Path} (hkeys : keys.Pairwise (· < ·))
    (hmem : ∀ p, p ∈ keys ↔ ∃ w ∈ run.log, run.path w = p) (name : String) :
    ((keys.filter fun p => mappedStreamName env p = name).flatMap fun p =>
      run.log.filter fun w => run.path w = p) = run.ofStream name := by
  have hgroups := @SortBy.flatMap_filter_key _ _ _ run.path (run.ofStream name) _
    (hkeys.filter fun p => mappedStreamName env p = name) (by
      refine (run.ordered.sublist List.filter_sublist).imp_of_mem ?_
      intro a b ha hb h
      have hname : a.stream = b.stream := by
        have hsame : a.stream.name = b.stream.name :=
          (of_decide_eq_true (List.mem_filter.mp ha).2).trans
            (of_decide_eq_true (List.mem_filter.mp hb).2).symm
        cases hsa : a.stream
        cases hsb : b.stream
        rw [hsa, hsb] at hsame
        cases hsame
        rfl
      unfold path
      rw [hname]
      exact targetPath_le (h hname).2.1) (by
      intro w hw
      obtain ⟨hw, hname⟩ := List.mem_filter.mp hw
      refine List.mem_filter.mpr ⟨(hmem _).mpr ⟨w, hw, rfl⟩, ?_⟩
      rw [mappedStreamName_path]
      exact hname)
  rw [← hgroups]
  refine List.flatMap_congr fun p hp => ?_
  have hp := of_decide_eq_true (List.mem_filter.mp hp).2
  unfold ofStream
  rw [List.filter_filter]
  refine List.filter_congr fun w _ => ?_
  by_cases hw : run.path w = p
  · have hname : w.stream.name = name := by
      rw [← mappedStreamName_path run w, hw, hp]
    simp [hw, hname]
  · simp [hw]

/-- What the scan loads of a run whose files decode: each stream's records as they were written, and
an error for each line that cannot be read. -/
theorem loadRunRecords_tree (run : Run env runId)
    (hdecode : ∀ w ∈ run.log, (Utf8.decode w.chunk).isSome = true) :
    ∃ out errors, loadRunRecords env run.tree runId = some out ∧
      Loaded out (fun name => (run.ofStream name).flatMap Written.kept) errors ∧
      (errors = 0 ↔ ∀ w ∈ run.log, none ∉ readings env w.chunk) := by
  obtain ⟨keys, hkeys, hmem, hiter⟩ := run.iterJsonlFiles_tree
  have hread :
      ∀ p, (Utf8.decode ((run.log.filter fun w => run.path w = p).flatMap Written.chunk)).isSome =
        true ∧
      readings env ((run.log.filter fun w => run.path w = p).flatMap Written.chunk) =
        (run.log.filter fun w => run.path w = p).flatMap fun w => readings env w.chunk :=
    fun p => readings_flatMap fun w hw => hdecode w (List.mem_of_mem_filter hw)
  have hdecodes : ∀ p ∈ keys, _ := fun p _ => (hread p).1
  obtain ⟨out, hfold, hloaded⟩ := Loaded.empty.addFiles env runId hdecodes
  refine ⟨out, _, ?_, hloaded.of_eq (fun name => ?_) rfl, ?_⟩
  · unfold loadRunRecords
    rw [hiter]
    exact hfold
  · rw [List.nil_append, ← run.flatMap_stream hkeys hmem name, List.flatMap_assoc]
    refine List.flatMap_congr fun p _ => ?_
    rw [(hread p).2, ofReadings_flatMap]
    rfl
  · rw [Nat.zero_add]
    unfold unread
    rw [List.countP_eq_zero]
    constructor
    · intro h w hw hnone
      refine h none ?_ rfl
      refine List.mem_flatMap.mpr ⟨run.path w, (hmem _).mpr ⟨w, hw, rfl⟩, ?_⟩
      rw [(hread _).2]
      exact List.mem_flatMap.mpr ⟨w, List.mem_filter.mpr ⟨hw, decide_eq_true rfl⟩, hnone⟩
    · intro h o ho hnone
      obtain ⟨p, -, ho⟩ := List.mem_flatMap.mp ho
      rw [(hread p).2] at ho
      obtain ⟨w, hw, ho⟩ := List.mem_flatMap.mp ho
      refine h w (List.mem_of_mem_filter hw) ?_
      rw [Option.isNone_iff_eq_none.mp hnone] at ho
      exact ho

end Run

end Kaine.Admissibility
