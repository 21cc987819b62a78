import Kaine.Persistence.EncryptedJsonl

/-! What the rewriting of a record file keeps, and what is read of an appended record. -/
namespace Kaine.EncryptedJsonl
open Py Security StateEncryptor

variable {lax : Bool} {json : JsonText} {aead : Aead} {content : Bytes} {line : Text}

section Lines

/-- The record that is read of a line once it is rewritten. -/
def rewrittenRecord (env : Env) (line : Text) : Option Dict :=
  if isEnvelope env.lax line then readLine env line else parse env.json line

/-- The lines of a file that are not blank. -/
def recordLines (content : Bytes) : List Text := (fileLines content).filter (Text.strip · ≠ [])

theorem iterRecords_eq (env : Env) (content : Bytes) :
    iterRecords env content = (recordLines content).map fun line => readLine env line.strip := by
  unfold iterRecords recordLines
  rw [List.filter_map, List.map_map]
  rfl

theorem strip_envelope (h : isEnvelope lax line = true) : line.strip = line :=
  (envelopeText h).strip

theorem readLine_of_envelope {env : Env} (h : isEnvelope env.lax line = true) :
    readLine env line = (openEnvelope env line).bind (parse env.json) := if_pos h

theorem readLine_of_plain {env : Env} (h : isEnvelope env.lax line = false) :
    readLine env line = parse env.json line := if_neg (by simp [h])

/-- A line becomes an envelope, in which its record is read. -/
theorem rewriteLine_keyed (lax : Bool) (json : JsonText) (ideal : aead.Ideal) (nonce : Nonce)
    (hline : ∀ p ∈ line, Utf8.IsScalar p.val) :
    ∃ written, rewriteLine lax (keyed aead) nonce line = some written ∧
      isEnvelope lax written = true ∧ readLine ⟨lax, keyed aead, json⟩ written =
        rewrittenRecord ⟨lax, keyed aead, json⟩ line := by
  cases henvelope : isEnvelope lax line with
  | true =>
    exact ⟨line, by simp [rewriteLine, henvelope], henvelope, by simp [rewrittenRecord, henvelope]⟩
  | false =>
    obtain ⟨written, hwritten, hsealed, hopen⟩ :=
      encryptText_keyed lax json ideal nonce (Utf8.isSome_encode hline)
    refine ⟨written, ?_, hsealed, ?_⟩
    · rw [rewriteLine, if_neg (by simp [henvelope]), hwritten]
      rfl
    · rw [readLine_of_envelope hsealed, hopen, Option.bind_some]
      simp [rewrittenRecord, henvelope]

theorem rewriteLines_keyed (lax : Bool) (json : JsonText) (ideal : aead.Ideal) (nonces : ℕ → Nonce)
    {lines : List Text} (hlines : ∀ line ∈ lines, ∀ p ∈ line, Utf8.IsScalar p.val) :
    ∃ new, rewriteLines lax (keyed aead) nonces lines = some new ∧
      (∀ w ∈ new, isEnvelope lax w = true) ∧ new.map (readLine ⟨lax, keyed aead, json⟩) =
        (lines.filter (Text.strip · ≠ [])).map (rewrittenRecord ⟨lax, keyed aead, json⟩) := by
  unfold rewriteLines
  have hkept : ∀ line ∈ lines.filter (Text.strip · ≠ []), ∀ p ∈ line, Utf8.IsScalar p.val :=
    fun line hline => hlines line (List.mem_of_mem_filter hline)
  generalize lines.filter (Text.strip · ≠ []) = kept at hkept
  generalize 0 = k
  induction kept generalizing k with
  | nil => exact ⟨[], rfl, by simp, rfl⟩
  | cons line kept ih =>
    obtain ⟨written, hwritten, hsealed, hread⟩ :=
      rewriteLine_keyed lax json ideal (nonces k) (hkept line List.mem_cons_self)
    obtain ⟨new, hnew, hall, hmap⟩ := ih (fun l hl => hkept l (List.mem_cons_of_mem _ hl)) (k + 1)
    refine ⟨written :: new, ?_, ?_, ?_⟩
    · rw [List.zipIdx_cons, List.mapM_cons, hnew]
      dsimp only
      rw [hwritten]
      rfl
    · intro w hw
      rcases List.mem_cons.mp hw with rfl | hw
      · exact hsealed
      · exact hall w hw
    · rw [List.map_cons, List.map_cons, hread, hmap]

theorem scalar_of_mem_fileLines (content : Bytes) :
    ∀ line ∈ fileLines content, ∀ p ∈ line, Utf8.IsScalar p.val :=
  fun _ hline _ hp => Utf8.Decoder.Sound.start.replace content _ (Text.mem_lines hline hp)

/-- Envelopes that are written are the lines of the file. -/
theorem fileLines_written {new : List Text} (hall : ∀ w ∈ new, isEnvelope lax w = true) :
    ∃ bs, writtenBytes new = some bs ∧ fileLines bs = new := by
  have hascii : Text.Ascii (new.flatMap (· ++ [Text.newline])) := by
    intro c hc
    obtain ⟨w, hw, hc⟩ := List.mem_flatMap.mp hc
    rcases List.mem_append.mp hc with hc | hc
    · exact (envelopeText (hall w hw)).2.1 c hc
    · rw [List.mem_singleton.mp hc]
      decide
  refine ⟨_, Utf8.encode_ascii hascii, ?_⟩
  unfold fileLines
  rw [Utf8.decodeReplace_encode hascii,
    Text.lines_written fun w hw => (envelopeText (hall w hw)).oneLine]

theorem mem_recordLines : line ∈ recordLines content ↔
    line ∈ fileLines content ∧ line.strip ≠ [] := by
  unfold recordLines
  rw [List.mem_filter, decide_eq_true_eq]

/-- A file of envelopes is left as it is. -/
theorem iterRecords_envelopes {env : Env}
    (hall : ∀ w ∈ fileLines content, isEnvelope env.lax w = true) :
    iterRecords env content = (fileLines content).map (readLine env) := by
  have hstrip : ∀ w ∈ fileLines content, w.strip ≠ [] := by
    intro w hw
    rw [strip_envelope (hall w hw)]
    exact (envelopeText (hall w hw)).1
  have hkept : recordLines content = fileLines content :=
    List.filter_eq_self.mpr fun w hw => decide_eq_true (hstrip w hw)
  rw [iterRecords_eq, hkept]
  exact List.map_congr_left fun w hw => by rw [strip_envelope (hall w hw)]

theorem hasPlaintextLine_eq_false (hall : ∀ w ∈ fileLines content, isEnvelope lax w = true) :
    hasPlaintextLine lax content = false := by
  unfold hasPlaintextLine
  rw [List.any_eq_false]
  intro w hw
  obtain ⟨w', hw', rfl⟩ := List.mem_map.mp (List.mem_of_mem_filter hw)
  rw [strip_envelope (hall w' hw'), hall w' hw']
  exact Bool.false_ne_true

/-- Whether a rewrite changes the file. -/
def rewriteNeeded (lax : Bool) (content : Bytes) : Bool :=
  (fileLines content).any fun line => line.strip = [] || !isEnvelope lax line

theorem rewriteNeeded_eq_false : rewriteNeeded lax content = false ↔
    ∀ w ∈ fileLines content, isEnvelope lax w = true := by
  unfold rewriteNeeded
  rw [List.any_eq_false]
  constructor
  · intro h w hw
    have hw' := h w hw
    rw [Bool.or_eq_true, not_or, Bool.not_eq_true', Bool.not_eq_false] at hw'
    exact hw'.2
  · intro h w hw
    rw [Bool.or_eq_true, not_or, strip_envelope (h w hw), h w hw]
    exact ⟨by simp [(envelopeText (h w hw)).1], by simp⟩

/-- A line that is not blank is read of its envelope as before unless the envelope is of too
much. -/
theorem rewrittenRecord_iff {env : Env} :
    rewrittenRecord env line = readLine env line.strip ↔
      ¬ WrappedEnvelope env line ∧ ¬ WidePadded env line := by
  cases henvelope : isEnvelope env.lax line with
  | true =>
    rw [rewrittenRecord, if_pos henvelope, strip_envelope henvelope]
    refine ⟨fun _ => ⟨fun h => ?_, fun h => ?_⟩, fun _ => rfl⟩
    · rw [h.1] at henvelope
      cases henvelope
    · rw [WidePadded, strip_envelope henvelope, henvelope] at h
      cases h.1
  | false =>
    rw [rewrittenRecord, if_neg (by simp [henvelope]), eq_comm]
    exact readLine_strip_iff henvelope

/-- A blank line holds no record. -/
theorem not_wrapped_blank {env : Env} (h : line.strip = []) :
    ¬ WrappedEnvelope env line ∧ ¬ WidePadded env line := by
  refine ⟨fun hwrapped => ?_, fun hwide => ?_⟩
  · have henvelope := hwrapped.2.1
    rw [h] at henvelope
    exact (envelopeText henvelope).1 rfl
  · obtain ⟨r, hr⟩ := hwide.2.1
    rw [h] at hr
    cases openBrace_mem hr

end Lines

section Rewrite

/-- A rewrite by its fault, once its lines are there. -/
theorem rewriteEncrypted_eq {nonces : ℕ → Nonce} {new : List Text} {bs : Bytes}
    (hnew : rewriteLines lax (keyed aead) nonces (fileLines content) = some new)
    (hbs : writtenBytes new = some bs)
    (fault : Option RewriteStep) : rewriteEncrypted lax (keyed aead) nonces fault (some content) =
      if fault ∈ [some .sweep, some .stat, some .open_] then (none, some content)
      else if rewriteNeeded lax content = false then (some false, some content)
      else if fault ∈ [some .write, some .sync, some .chmod, some .utime, some .replace]
        then (none, some content)
      else if fault = some .syncDirectory then (none, some bs)
      else (some true, some bs) := by
  have henabled : (!(keyed aead).enabled) = false := rfl
  unfold rewriteEncrypted
  dsimp only
  rw [henabled, if_neg Bool.false_ne_true, hnew]
  dsimp only
  rw [hbs]
  show (if _ then _ else if (!rewriteNeeded lax content) = true then _ else _) = _
  cases rewriteNeeded lax content <;> rfl

/-- What a rewrite puts in place of a file: envelopes with the records of its lines. -/
theorem exists_rewritten (lax : Bool) (json : JsonText) (ideal : aead.Ideal) (nonces : ℕ → Nonce)
    (content : Bytes) : ∃ new bs, rewriteLines lax (keyed aead) nonces (fileLines content) =
      some new ∧ writtenBytes new = some bs ∧ rewriteNeeded lax bs = false ∧
      iterRecords ⟨lax, keyed aead, json⟩ bs =
        (recordLines content).map (rewrittenRecord ⟨lax, keyed aead, json⟩) := by
  obtain ⟨new, hnew, hall, hmap⟩ :=
    rewriteLines_keyed lax json ideal nonces (scalar_of_mem_fileLines content)
  obtain ⟨bs, hbs, rfl⟩ := fileLines_written hall
  exact ⟨_, bs, hnew, hbs, rewriteNeeded_eq_false.mpr hall, (iterRecords_envelopes hall).trans hmap⟩

/-- The records are the same where each line's is. -/
theorem rewritten_same_iff {env : Env} :
    (recordLines content).map (rewrittenRecord env) = iterRecords env content ↔
      ∀ line ∈ fileLines content, ¬ WrappedEnvelope env line ∧ ¬ WidePadded env line := by
  rw [iterRecords_eq, List.map_inj_left]
  constructor
  · intro h line hline
    by_cases hblank : line.strip = []
    · exact not_wrapped_blank hblank
    · exact rewrittenRecord_iff.mp (h line (mem_recordLines.mpr ⟨hline, hblank⟩))
  · exact fun h line hline => rewrittenRecord_iff.mpr (h line (mem_recordLines.mp hline).1)

/-- A rewrite, what it leaves to read, and the next. -/
theorem rewrite_kept (lax : Bool) (json : JsonText) (ideal : aead.Ideal) (nonces again : ℕ → Nonce)
    (content : Bytes) : ∃ changed new,
      rewriteEncrypted lax (keyed aead) nonces none (some content) = (some changed, some new) ∧
      (iterRecords ⟨lax, keyed aead, json⟩ new = iterRecords ⟨lax, keyed aead, json⟩ content ↔
        ∀ line ∈ fileLines content,
          ¬ WrappedEnvelope ⟨lax, keyed aead, json⟩ line ∧
            ¬ WidePadded ⟨lax, keyed aead, json⟩ line) ∧
      hasPlaintextLine lax new = false ∧
      rewriteEncrypted lax (keyed aead) again none (some new) = (some false, some new) := by
  have hdone {file : Bytes} (hfile : rewriteNeeded lax file = false) (drawn : ℕ → Nonce) :
      rewriteEncrypted lax (keyed aead) drawn none (some file) = (some false, some file) := by
    obtain ⟨new, bs, hnew, hbs, -, -⟩ := exists_rewritten lax json ideal drawn file
    rw [rewriteEncrypted_eq hnew hbs, if_neg (by decide), if_pos hfile]
  cases hneeded : rewriteNeeded lax content with
  | false =>
    refine ⟨false, content, hdone hneeded nonces, ?_, ?_, hdone hneeded again⟩
    · refine ⟨fun _ => ?_, fun _ => rfl⟩
      intro line hline
      refine rewrittenRecord_iff.mp ?_
      have henvelope := rewriteNeeded_eq_false.mp hneeded line hline
      rw [rewrittenRecord, if_pos henvelope, strip_envelope henvelope]
    · exact hasPlaintextLine_eq_false (rewriteNeeded_eq_false.mp hneeded)
  | true =>
    obtain ⟨new, bs, hnew, hbs, hsealed, hread⟩ := exists_rewritten lax json ideal nonces content
    refine ⟨true, bs, ?_, ?_, hasPlaintextLine_eq_false (rewriteNeeded_eq_false.mp hsealed),
      hdone hsealed again⟩
    · rw [rewriteEncrypted_eq hnew hbs, if_neg (by decide), if_neg (by simp [hneeded]),
        if_neg (by decide), if_neg (by decide)]
    · rw [hread]
      exact rewritten_same_iff

/-- A rewrite that raises has left the file unless it raises after the replacement. -/
theorem raised_rewrite (lax : Bool) (json : JsonText) (ideal : aead.Ideal) (nonces : ℕ → Nonce)
    (content : Bytes) (step : RewriteStep)
    (hraised : (rewriteEncrypted lax (keyed aead) nonces (some step) (some content)).1 = none) :
    (rewriteEncrypted lax (keyed aead) nonces (some step) (some content)).2 = some content ↔
      step ≠ .syncDirectory := by
  obtain ⟨new, bs, hnew, hbs, hsealed, -⟩ := exists_rewritten lax json ideal nonces content
  rw [rewriteEncrypted_eq hnew hbs] at hraised ⊢
  cases hneeded : rewriteNeeded lax content with
  | false => cases step <;> simp [hneeded] at hraised ⊢
  | true =>
    have hother : bs ≠ content := by
      rintro rfl
      rw [hneeded] at hsealed
      cases hsealed
    cases step <;> simp [hother]

end Rewrite

section Append

/-- A file whose last line has its terminator. -/
def Terminated (content : Bytes) : Prop :=
  ∀ b ∈ content.getLast?, b = Utf8.byte 10 ∨ b = Utf8.byte 13

/-- A line that is appended is the last. -/
theorem fileLines_append (h : Terminated content) {w : Text} (hascii : w.Ascii) (hline : w.OneLine)
    (hne : w ≠ []) : fileLines (content ++ (w ++ [Text.newline]).map fun c => Utf8.byte c.val) =
      fileLines content ++ [w] := by
  have hall : Text.Ascii (w ++ [Text.newline]) := by
    intro c hc
    rcases List.mem_append.mp hc with hc | hc
    · exact hascii c hc
    · rw [List.mem_singleton.mp hc]
      decide
  have hread := Utf8.decodeReplace_encode hall
  have hlines : Text.lines (w ++ [Text.newline]) = [w] := Text.lines_cons hline []
  rcases List.eq_nil_or_concat content with rfl | ⟨front, b, rfl⟩
  · rw [List.nil_append]
    unfold fileLines
    rw [hread, hlines]
    rfl
  · rw [List.concat_eq_append] at h ⊢
    have hb : b = Utf8.byte 10 ∨ b = Utf8.byte 13 := h b (by simp)
    have hval : b.val < 0x80 := by rcases hb with rfl | rfl <;> decide
    have hends : Text.EndsLine (Ascii.ofByte b) (w ++ [Text.newline]) := by
      rcases hb with rfl | rfl
      · exact .inl rfl
      · refine .inr ⟨rfl, ?_⟩
        obtain ⟨first, body, rfl⟩ := List.exists_cons_of_ne_nil hne
        intro hfirst
        exact (hline first List.mem_cons_self).1 (Option.some.inj hfirst)
    obtain ⟨text, hboth, hfront⟩ := Utf8.Decoder.Sound.start.replace_ascii hval front
      ((w ++ [Text.newline]).map fun c => Utf8.byte c.val)
    unfold fileLines
    rw [List.append_assoc, List.singleton_append, Utf8.decodeReplace, Utf8.decodeReplace,
      hboth, hfront]
    rw [← Utf8.decodeReplace, hread, hends.lines_append, hlines]

theorem getLast_iterRecords (env : Env) {bs : Bytes} {w : Text}
    (h : fileLines bs = fileLines content ++ [w]) (hstrip : w.strip = w) (hne : w ≠ []) :
    (iterRecords env bs).getLast? = some (readLine env w) := by
  have hlast : recordLines bs = recordLines content ++ [w] := by
    unfold recordLines
    rw [h, List.filter_append, List.filter_singleton, hstrip, decide_eq_true hne]
    rfl
  rw [iterRecords_eq, hlast, List.map_append, List.map_singleton, List.getLast?_concat, hstrip]

/-- The text of a record is no envelope, and one line. -/
theorem dumps_line (lax : Bool) {r : Dict} {t : Text} (h : json.dumps r = some t) :
    isEnvelope lax t = false ∧ t.OneLine ∧ t.strip = t ∧ t ≠ [] := by
  obtain ⟨⟨body, last, rfl, hlast⟩, hplain⟩ := json.dumps_plain h
  refine ⟨?_, ?_, ?_, List.cons_ne_nil _ _⟩
  · by_contra hnot
    exact ((envelopeText (Bool.eq_true_of_not_eq_false hnot)).2.2 _ List.mem_cons_self).2.1 rfl
  · intro c hc
    have hc := hplain c hc
    refine ⟨?_, ?_⟩
    · rintro rfl
      have hval : Text.newline.val = 10 := rfl
      omega
    · rintro rfl
      have hval : Text.carriageReturn.val = 13 := rfl
      omega
  · exact strip_eq_self rfl (by decide) (by rw [← List.cons_append, List.getLast?_concat]) hlast

/-- A record that is appended is read last, unless its envelope is read without a key. -/
theorem appended_record (lax : Bool) (ideal : aead.Ideal) (nonce : Nonce)
    (hcontent : Terminated content) {writer reader : StateEncryptor}
    (hwriter : writer = keyed aead ∨ writer = disabled)
    (hreader : reader = keyed aead ∨ reader = disabled) {r : Dict} {t : Text}
    (h : json.dumps r = some t)
    (hself : Json.itemEq (.obj r) (.obj r) = true) :
    ∃ w bs, encodeRecord ⟨lax, writer, json⟩ nonce r = some w ∧
      Utf8.encode (w ++ [Text.newline]) = some bs ∧
          ((∃ d, (iterRecords ⟨lax, reader, json⟩ (content ++ bs)).getLast? = some (some d) ∧
          Json.itemEq (.obj d) (.obj r) = true) ↔
        ¬ (writer.enabled = true ∧ reader.enabled = false)) := by
  obtain ⟨d, hloads, hequal⟩ := json.loads_dumps h
  have hparse : parse json t = some d := parse_eq_some.mpr hloads
  have htext := json.dumps_ascii h
  have hnewline : ∀ {w : Text}, w.Ascii → Text.Ascii (w ++ [Text.newline]) := by
    intro w hw c hc
    rcases List.mem_append.mp hc with hc | hc
    · exact hw c hc
    · rw [List.mem_singleton.mp hc]
      decide
  rcases hwriter with rfl | rfl
  · obtain ⟨w, hw, hsealed, hopen⟩ :=
      encryptText_keyed lax json ideal nonce (Option.isSome_of_eq_some (Utf8.encode_ascii htext))
    have hplain := envelopeText hsealed
    refine ⟨w, _, ?_, Utf8.encode_ascii (hnewline hplain.2.1), ?_⟩
    · rw [encodeRecord, h, Option.bind_some, hw]
      rfl
    · have hlast (env : Env) := getLast_iterRecords env
        (fileLines_append hcontent hplain.2.1 hplain.oneLine hplain.1) hplain.strip hplain.1
      rw [hlast, readLine_of_envelope hsealed]
      rcases hreader with rfl | rfl
      · rw [hopen, Option.bind_some, hparse]
        exact ⟨fun _ h => Bool.false_ne_true h.2.symm, fun _ => ⟨d, rfl, hequal hself⟩⟩
      · rw [openEnvelope_disabled hsealed]
        refine ⟨?_, fun h => absurd ⟨rfl, rfl⟩ h⟩
        rintro ⟨d, hd, -⟩
        cases hd
  · have hplain := dumps_line lax h
    refine ⟨t, _, ?_, Utf8.encode_ascii (hnewline htext), ?_⟩
    · rw [encodeRecord, h, Option.bind_some]
      rfl
    · have hlast (env : Env) := getLast_iterRecords env
        (fileLines_append hcontent htext hplain.2.1 hplain.2.2.2) hplain.2.2.1 hplain.2.2.2
      rw [hlast, readLine_of_plain hplain.1, hparse]
      exact ⟨fun _ h => Bool.false_ne_true h.1, fun _ => ⟨d, rfl, hequal hself⟩⟩

end Append

/-- What a rewrite keeps of a record file, and the reading of an appended record. -/
theorem record_file_kept (lax : Bool) (json : JsonText) (ideal : aead.Ideal)
    (nonces again : ℕ → Nonce) (content : Bytes) :
    (∃ changed new, rewriteEncrypted lax (keyed aead) nonces none (some content) = (some changed,
      some new) ∧ (iterRecords ⟨lax, keyed aead, json⟩ new = iterRecords ⟨lax, keyed aead,
        json⟩ content ↔ ∀ line ∈ fileLines content,
          ¬ WrappedEnvelope ⟨lax, keyed aead, json⟩ line ∧
            ¬ WidePadded ⟨lax, keyed aead, json⟩ line) ∧
      hasPlaintextLine lax new = false ∧
      rewriteEncrypted lax (keyed aead) again none (some new) = (some false, some new)) ∧
    (∀ step, (rewriteEncrypted lax (keyed aead) nonces (some step) (some content)).1 = none →
      ((rewriteEncrypted lax (keyed aead) nonces (some step) (some content)).2 = some content ↔
        step ≠ .syncDirectory)) ∧
    (Terminated content → ∀ (nonce : Nonce) (writer reader : StateEncryptor) (r : Dict) (t : Text),
      writer = keyed aead ∨ writer = disabled → reader = keyed aead ∨ reader = disabled →
      json.dumps r = some t → Json.itemEq (.obj r) (.obj r) = true →
      ∃ w bs, encodeRecord ⟨lax, writer, json⟩ nonce r = some w ∧
        Utf8.encode (w ++ [Text.newline]) = some bs ∧
            ((∃ d, (iterRecords ⟨lax, reader, json⟩ (content ++ bs)).getLast? = some (some d) ∧
            Json.itemEq (.obj d) (.obj r) = true) ↔
          ¬ (writer.enabled = true ∧ reader.enabled = false))) := by
  refine ⟨rewrite_kept lax json ideal nonces again content,
    raised_rewrite lax json ideal nonces content, ?_⟩
  intro hcontent nonce writer reader r t hwriter hreader h hself
  exact appended_record lax ideal nonce hcontent hwriter hreader h hself

section

def braces : Text := [CodePoint.openBrace, CodePoint.ofNat 125]

theorem isSpace_of_isJsonSpace {c : CodePoint} (h : c.isJsonSpace = true) : c.isSpace = true := by
  unfold CodePoint.isJsonSpace at h
  unfold CodePoint.isSpace
  simp only [Bool.or_eq_true, Bool.and_eq_true, decide_eq_true_eq] at h ⊢
  omega

theorem not_isSpace_of_mem_braces {c : CodePoint} (h : c ∈ braces) : c.isSpace = false := by
  rcases List.mem_cons.mp h with rfl | h
  · decide
  · rw [List.mem_singleton.mp h]
    decide

/-- The texts of the empty object, and no others. -/
def emptyObject : JsonText where
  dumps r := if r.isEmpty then some braces else none
  loads t := if t.filter (!·.isJsonSpace) = braces then some (.obj []) else none
  loads_dumps := by
    intro r t h
    cases r with
    | nil =>
      cases h
      exact ⟨[], rfl, id⟩
    | cons e r => cases h
  dumps_ascii := by
    intro r t h
    cases r with
    | nil =>
      cases h
      decide
    | cons e r => cases h
  dumps_plain := by
    intro r t h
    cases r with
    | nil =>
      cases h
      refine ⟨⟨[], _, rfl, by decide⟩, ?_⟩
      intro c hc
      rcases List.mem_cons.mp hc with rfl | hc
      · decide
      · rw [List.mem_singleton.mp hc]
        decide
    | cons e r => cases h
  loads_object := by
    intro t d h
    split_ifs at h with hfilter
    obtain ⟨padding, body, rfl, hpadding, -, -⟩ := List.filter_eq_cons_iff.mp hfilter
    refine ⟨padding, body, rfl, fun c hc => isSpace_of_isJsonSpace ?_⟩
    simpa using hpadding c hc
  loads_padded := by
    intro t before after h
    have hnone {s : Text} (hs : ∀ c ∈ s, c.isJsonSpace = true) : s.filter (!·.isJsonSpace) = [] :=
      List.filter_eq_nil_iff.mpr fun c hc => by simp [hs c hc]
    rw [List.filter_append, List.filter_append, hnone fun c hc => h c (List.mem_append_left _ hc),
      hnone fun c hc => h c (List.mem_append_right _ hc), List.nil_append, List.append_nil]
  loads_other := by
    intro t before after v h hspace c hc
    split_ifs at h with hfilter
    by_contra hother
    have hmem : c ∈ before ++ t ++ after := by
      rcases List.mem_append.mp hc with hc | hc
      · exact List.mem_append_left _ (List.mem_append_left _ hc)
      · exact List.mem_append_right _ hc
    have hbrace : c ∈ braces := by
      rw [← hfilter]
      exact List.mem_filter.mpr ⟨hmem, by simp [hother]⟩
    have hc := hspace c hc
    rw [not_isSpace_of_mem_braces hbrace] at hc
    cases hc

def openEnv : Env := ⟨false, keyed openAead, emptyObject⟩

/-- A file of one record's envelope, between spaces. -/
def paddedFile : Bytes :=
  Utf8.byte 32 :: (keyed openAead).encrypt zeroNonce [Utf8.byte 123,
    Utf8.byte 125] ++ [Utf8.byte 32, Utf8.byte 10]

def rewrittenFile : Bytes :=
  ((rewriteEncrypted false (keyed openAead) (fun _ => zeroNonce) none (some paddedFile)).2).getD []

theorem record_file_kept_open :
    (∃ changed new, rewriteEncrypted false (keyed openAead) (fun _ => zeroNonce) none
        (some paddedFile) = (some changed, some new) ∧
      (iterRecords openEnv new = iterRecords openEnv paddedFile ↔
        ∀ line ∈ fileLines paddedFile, ¬ WrappedEnvelope openEnv line ∧ ¬ WidePadded openEnv line) ∧
      hasPlaintextLine false new = false ∧
      rewriteEncrypted false (keyed openAead) (fun _ => zeroNonce) none (some new) = (some false,
        some new)) ∧
    (rewriteEncrypted false (keyed openAead) (fun _ => zeroNonce) (some .sweep)
      (some paddedFile)).2 = some paddedFile ∧
    ∃ w bs, encodeRecord openEnv zeroNonce [] = some w ∧
      Utf8.encode (w ++ [Text.newline]) = some bs ∧
        ((∃ d, (iterRecords openEnv ([] ++ bs)).getLast? = some (some d) ∧
          Json.itemEq (.obj d) (.obj []) = true) ↔
        ¬ ((keyed openAead).enabled = true ∧ (keyed openAead).enabled = false)) := by
  obtain ⟨hkept, -, -⟩ :=
    record_file_kept false emptyObject openAead_ideal (fun _ => zeroNonce) (fun _ => zeroNonce)
      paddedFile
  obtain ⟨-, hraised, -⟩ :=
    record_file_kept false emptyObject openAead_ideal (fun _ => zeroNonce) (fun _ => zeroNonce)
      paddedFile
  obtain ⟨-, -, happended⟩ :=
    record_file_kept false emptyObject openAead_ideal (fun _ => zeroNonce) (fun _ => zeroNonce) []
  refine ⟨hkept, (hraised .sweep rfl).mpr (by decide), ?_⟩
  exact happended (by simp [Terminated]) zeroNonce _ _ [] braces (.inl rfl) (.inl rfl) rfl rfl

/-- An envelope between spaces becomes the text of another, and its record is no more read. The sync
of the directory raises when the file is replaced already, and a record that was encrypted is not
read without the key. -/
theorem wrapped_envelope_lost :
    (iterRecords openEnv paddedFile).map Option.isSome = [true] ∧
    rewriteEncrypted false (keyed openAead) (fun _ => zeroNonce) none (some paddedFile) =
      (some true, some rewrittenFile) ∧
    (iterRecords openEnv rewrittenFile).map Option.isSome = [false] ∧
    rewriteEncrypted false (keyed openAead) (fun _ => zeroNonce) (some .syncDirectory)
      (some paddedFile) = (none, some rewrittenFile) ∧
    (iterRecords ⟨false, disabled, emptyObject⟩ paddedFile).map Option.isSome = [false] := by
  decide +kernel

end

end Kaine.EncryptedJsonl
