import Kaine.Lib.JsonText
import Kaine.Lib.TextLines
import Kaine.Security.Crypto

/-! Record files of one JSON object or encryption envelope a line
(`kaine/persistence/encrypted_jsonl.py`). One line of a record file, as it is read before it is
rewritten and after. -/
namespace Kaine.EncryptedJsonl
open Py Security StateEncryptor

/-- What the reading and writing of records rests on: the Base64 reader's version, the active
encryptor and JSON text. -/
structure Env where
  lax : Bool
  encryptor : StateEncryptor
  json : JsonText

/-- `text.encode("ascii")`, none where it raises. -/
def encodeAscii (text : Text) : Option Bytes :=
  if text.Ascii then some (text.map fun c => Utf8.byte c.val) else none

/-- `_is_envelope`. -/
def isEnvelope (lax : Bool) (line : Text) : Bool :=
  match encodeAscii line with
  | none => false
  | some bs =>
    match Base64.decode lax bs with
    | none => false
    | some decoded => isEncrypted decoded

/-- `encode_record`, none where it raises. -/
def encodeRecord (env : Env) (nonce : Nonce) (record : Dict) : Option Text :=
  (env.json.dumps record).bind fun text => (env.encryptor.encryptText nonce text).toOption

/-- The object that a text holds. -/
def parse (json : JsonText) (text : Text) : Option Dict := (json.loads text).bind Json.asDict

/-- What an envelope decrypts to, none where it raises. -/
def openEnvelope (env : Env) (line : Text) : Option Text :=
  (encodeAscii line).bind fun bs => (decrypt env.lax env.encryptor bs).toOption.bind Utf8.decode

/-- The record of a stripped line; none is the mark of an unreadable one. -/
def readLine (env : Env) (line : Text) : Option Dict :=
  if isEnvelope env.lax line then (openEnvelope env line).bind (parse env.json)
    else parse env.json line

/-- The lines of a file's bytes, as text mode reads them. -/
def fileLines (content : Bytes) : List Text := Text.lines (Utf8.decodeReplace content)

/-- `iter_records` of a file that is there: a record, or the mark of an unreadable line, for each
line that is not blank. -/
def iterRecords (env : Env) (content : Bytes) : List (Option Dict) :=
  (((fileLines content).map Text.strip).filter (· ≠ [])).map (readLine env)

def hasPlaintextLine (lax : Bool) (content : Bytes) : Bool :=
  (((fileLines content).map Text.strip).filter (· ≠ [])).any fun line => !isEnvelope lax line

/-- A line as it is rewritten; an envelope is kept. -/
def rewriteLine (lax : Bool) (encryptor : StateEncryptor) (nonce : Nonce) (line : Text) :
    Option Text :=
  if isEnvelope lax line then some line else (encryptor.encryptText nonce line).toOption

/-- The lines that `rewrite_encrypted` writes; none where an encryption raises. The nonce of each is
drawn in turn. -/
def rewriteLines (lax : Bool) (encryptor : StateEncryptor) (nonces : ℕ → Nonce)
    (lines : List Text) : Option (List Text) :=
  ((lines.filter (Text.strip · ≠ [])).zipIdx).mapM fun (line, i) =>
    rewriteLine lax encryptor (nonces i) line

/-- The steps of a rewrite that can fail. -/
inductive RewriteStep
  | sweep
  | stat
  | open_
  | write
  | sync
  | chmod
  | utime
  | replace
  | syncDirectory
deriving DecidableEq

/-- The bytes of written lines. -/
def writtenBytes (lines : List Text) : Option Bytes :=
  Utf8.encode (lines.flatMap (· ++ [Text.newline]))

/-- `rewrite_encrypted`, where the fault's step fails: what it returns, none where it raises, and
the file. -/
def rewriteEncrypted (lax : Bool) (encryptor : StateEncryptor) (nonces : ℕ → Nonce)
    (fault : Option RewriteStep) (file : Option Bytes) : Option Bool × Option Bytes :=
  match file with
  | none => (some false, file)
  | some content =>
    if !encryptor.enabled then (some false, file)
    else if fault ∈ [some .sweep, some .stat, some .open_] then (none, file)
    else
      match rewriteLines lax encryptor nonces (fileLines content) with
      | none => (none, file)
      | some newLines =>
        let changed := (fileLines content).any fun line => line.strip = [] || !isEnvelope lax line
        if !changed then (some false, file)
        else
          match writtenBytes newLines with
          | none => (none, file)
          | some new =>
            if fault ∈ [some .write, some .sync, some .chmod, some .utime, some .replace]
              then (none, file)
            -- The new file is in place before its directory is synced.
            else if fault = some .syncDirectory then (none, some new)
            else (some true, some new)

variable {lax : Bool} {json : JsonText} {aead : Aead} {nonce : Nonce} {line t : Text}

section

/-- The white space at the ends of a text. -/
def paddingOf (t : Text) : Text :=
  t.takeWhile CodePoint.isSpace ++ ((t.dropWhile CodePoint.isSpace).reverse.takeWhile
    CodePoint.isSpace).reverse

theorem eq_padded (t : Text) :
    t = t.takeWhile CodePoint.isSpace ++ t.strip ++
      ((t.dropWhile CodePoint.isSpace).reverse.takeWhile CodePoint.isSpace).reverse := by
  have hback : t.dropWhile CodePoint.isSpace = t.strip ++
      ((t.dropWhile CodePoint.isSpace).reverse.takeWhile CodePoint.isSpace).reverse := by
    unfold Text.strip
    rw [← List.reverse_append, List.takeWhile_append_dropWhile, List.reverse_reverse]
  rw [List.append_assoc, ← hback, List.takeWhile_append_dropWhile]

theorem isSpace_padding {c : CodePoint} (hc : c ∈ paddingOf t) : c.isSpace = true := by
  rcases List.mem_append.mp hc with hc | hc
  · exact List.mem_takeWhile_imp hc
  · exact List.mem_takeWhile_imp (List.mem_reverse.mp hc)

theorem mem_strip {c : CodePoint} (hc : c ∈ t) (hspace : c.isSpace = false) : c ∈ t.strip := by
  rw [eq_padded t] at hc
  rcases List.mem_append.mp hc with hc | hc
  · rcases List.mem_append.mp hc with hc | hc
    · rw [List.mem_takeWhile_imp hc] at hspace
      cases hspace
    · exact hc
  · rw [List.mem_takeWhile_imp (List.mem_reverse.mp hc)] at hspace
    cases hspace

theorem strip_eq_self {first last : CodePoint} {body : Text} (ht : t = first :: body)
    (hfirst : first.isSpace = false) (hlast : t.getLast? = some last)
    (hend : last.isSpace = false) :
    t.strip = t := by
  have hfront : t.dropWhile CodePoint.isSpace = t := by
    rw [ht, List.dropWhile_cons_of_neg (by simp [hfirst])]
  have hback : t.reverse.dropWhile CodePoint.isSpace = t.reverse := by
    rw [← List.head?_reverse] at hlast
    cases hrev : t.reverse with
    | nil => rfl
    | cons c more =>
      rw [hrev, List.head?_cons, Option.some.injEq] at hlast
      rw [List.dropWhile_cons_of_neg (by simp [hlast, hend])]
  unfold Text.strip
  rw [hfront, hback, List.reverse_reverse]

end

/-- The characters of an envelope: no white space, and no brace. -/
def EnvelopeText (t : Text) : Prop :=
  t ≠ [] ∧ t.Ascii ∧ ∀ c ∈ t, c.isSpace = false ∧ c ≠ CodePoint.openBrace ∧ c ≠ Text.newline ∧
    c ≠ Text.carriageReturn

theorem isSpace_of_alphabet {c : CodePoint}
    (h : c.val = 43 ∨ (47 ≤ c.val ∧ c.val ≤ 57) ∨ c.val = 61 ∨ (65 ≤ c.val ∧ c.val ≤ 90) ∨
      (97 ≤ c.val ∧ c.val ≤ 122)) :
    c.isSpace = false ∧ c ≠ CodePoint.openBrace ∧ c ≠ Text.newline ∧ c ≠ Text.carriageReturn := by
  refine ⟨?_, ?_, ?_, ?_⟩
  · unfold CodePoint.isSpace
    simp only [Bool.or_eq_false_iff, Bool.and_eq_false_iff, decide_eq_false_iff_not]
    omega
  · rintro rfl
    have hval : CodePoint.openBrace.val = 123 := rfl
    omega
  · rintro rfl
    have hval : Text.newline.val = 10 := rfl
    omega
  · rintro rfl
    have hval : Text.carriageReturn.val = 13 := rfl
    omega

theorem isEnvelope_iff : isEnvelope lax line = true ↔
    line.Ascii ∧ LooksEncrypted lax (line.map fun c => Utf8.byte c.val) := by
  unfold isEnvelope encodeAscii LooksEncrypted
  by_cases hascii : line.Ascii
  · rw [if_pos hascii]
    dsimp only
    cases Base64.decode lax (line.map fun c => Utf8.byte c.val) with
    | none =>
      constructor
      · intro h
        cases h
      · rintro ⟨-, framed, h, -⟩
        cases h
    | some framed =>
      constructor
      · exact fun h => ⟨hascii, framed, rfl, h⟩
      · rintro ⟨-, framed', h, hmagic⟩
        cases h
        exact hmagic
  · rw [if_neg hascii]
    constructor
    · intro h
      cases h
    · exact fun h => absurd h.1 hascii

theorem envelopeText (h : isEnvelope lax line = true) : EnvelopeText line := by
  obtain ⟨hascii, framed, hdecode, hmagic⟩ := isEnvelope_iff.mp h
  refine ⟨?_, hascii, ?_⟩
  · rintro rfl
    cases hdecode
    revert hmagic
    decide
  · intro c hc
    have hbyte := Base64.decode_alphabet hdecode (Utf8.byte c.val) (List.mem_map_of_mem hc)
    have hval := Base64.val_of_alphabet hbyte
    rw [Utf8.val_byte (by have := hascii c hc; omega)] at hval
    exact isSpace_of_alphabet hval

theorem EnvelopeText.oneLine (h : EnvelopeText t) : t.OneLine := fun c hc => (h.2.2 c hc).2.2

theorem EnvelopeText.strip (h : EnvelopeText t) : t.strip = t :=
  Text.strip_of_noSpace fun c hc => (h.2.2 c hc).1

/-- What is encrypted is an envelope of one line that opens to it. -/
theorem encryptText_keyed (lax : Bool) (json : JsonText) (ideal : aead.Ideal) (nonce : Nonce)
    (h : (Utf8.encode t).isSome = true) :
    ∃ written, (keyed aead).encryptText nonce t = .ok written ∧
      isEnvelope lax written = true ∧ openEnvelope ⟨lax, keyed aead, json⟩ written = some t := by
  obtain ⟨x, hx⟩ := Option.isSome_iff_exists.mp h
  have hascii : Ascii.decode ((keyed aead).encrypt nonce x) =
      some (((keyed aead).encrypt nonce x).map Ascii.ofByte) := if_pos (Base64.encode_ascii _)
  refine ⟨((keyed aead).encrypt nonce x).map Ascii.ofByte, ?_, ?_, ?_⟩
  · have henabled : (keyed aead).enabled = true := rfl
    simp only [encryptText, henabled, hx, hascii, if_true]
  all_goals
    have hchars : Text.Ascii (((keyed aead).encrypt nonce x).map Ascii.ofByte) := by
      intro c hc
      obtain ⟨b, hb, rfl⟩ := List.mem_map.mp hc
      exact Base64.encode_ascii _ b hb
    have hback : ((((keyed aead).encrypt nonce x).map Ascii.ofByte).map fun c => Utf8.byte c.val) =
        (keyed aead).encrypt nonce x := by
      have hencode := Utf8.encode_ascii hchars
      rw [Ascii.encode_decode hascii] at hencode
      exact (Option.some.inj hencode).symm
    have hdecode := Base64.decode_encode lax (aead.frame nonce x)
  · rw [isEnvelope_iff, hback]
    exact ⟨hchars, _, hdecode, isEncrypted_frame⟩
  · have hopen : decrypt lax (keyed aead) ((keyed aead).encrypt nonce x) = .ok x :=
      (decrypt_ok_iff ideal hdecode isEncrypted_frame).mpr ⟨nonce, rfl⟩
    unfold openEnvelope encodeAscii
    rw [if_pos hchars, hback, Option.bind_some]
    dsimp only
    rw [hopen]
    exact Utf8.decode_encode hx

/-- Without a key no envelope opens. -/
theorem openEnvelope_disabled (h : isEnvelope lax line = true) :
    openEnvelope ⟨lax, disabled, json⟩ line = none := by
  obtain ⟨hascii, hlooks⟩ := isEnvelope_iff.mp h
  unfold openEnvelope encodeAscii
  rw [if_pos hascii, Option.bind_some]
  dsimp only
  rw [decrypt_disabled hlooks]
  rfl

/-- A line that is no envelope, around an envelope whose record the reader opens. -/
def WrappedEnvelope (env : Env) (line : Text) : Prop :=
  isEnvelope env.lax line = false ∧ isEnvelope env.lax line.strip = true ∧
    ∃ text r, openEnvelope env line.strip = some text ∧ parse env.json text = some r

/-- A plain record between white space that JSON does not know. -/
def WidePadded (env : Env) (line : Text) : Prop :=
  isEnvelope env.lax line.strip = false ∧ (∃ r, parse env.json line.strip = some r) ∧
    ∃ c ∈ paddingOf line, c.isJsonSpace = false

theorem parse_eq_some {r : Dict} : parse json t = some r ↔ json.loads t = some (.obj r) := by
  unfold parse
  cases json.loads t with
  | none => simp
  | some v =>
    cases v <;> simp [Json.asDict]

/-- A record's text holds a brace. -/
theorem openBrace_mem {r : Dict} (h : parse json t = some r) : CodePoint.openBrace ∈ t := by
  obtain ⟨padding, body, ht, -⟩ := json.loads_object (parse_eq_some.mp h)
  rw [ht]
  exact List.mem_append_right _ List.mem_cons_self

/-- The record of a line that becomes an envelope is read from the whole line. -/
theorem readLine_strip_iff {env : Env} (hline : isEnvelope env.lax line = false) :
    readLine env line.strip = parse env.json line ↔
      ¬ WrappedEnvelope env line ∧ ¬ WidePadded env line := by
  have hbrace : CodePoint.openBrace.isSpace = false := by decide
  cases hstrip : isEnvelope env.lax line.strip with
  | true =>
    have hplain : parse env.json line = none := by
      rw [Option.eq_none_iff_forall_ne_some]
      intro r hr
      exact ((envelopeText hstrip).2.2 _ (mem_strip (openBrace_mem hr) hbrace)).2.1 rfl
    have hwide : ¬ WidePadded env line := by
      intro h
      rw [h.1] at hstrip
      cases hstrip
    rw [hplain, readLine, if_pos hstrip]
    constructor
    · intro h
      refine ⟨?_, hwide⟩
      rintro ⟨-, -, text, r, hopen, hparse⟩
      rw [hopen, Option.bind_some, hparse] at h
      cases h
    · rintro ⟨h, -⟩
      rw [Option.eq_none_iff_forall_ne_some]
      intro r hr
      obtain ⟨text, hopen, hparse⟩ := Option.bind_eq_some_iff.mp hr
      exact h ⟨hline, hstrip, text, r, hopen, hparse⟩
  | false =>
    have hwrapped : ¬ WrappedEnvelope env line := by
      intro h
      rw [h.2.1] at hstrip
      cases hstrip
    have hread : readLine env line.strip = parse env.json line.strip := by
      rw [readLine, if_neg (by simp [hstrip])]
    rw [hread]
    by_cases hspace : ∀ c ∈ paddingOf line, c.isJsonSpace = true
    · have hsame : parse env.json line = parse env.json line.strip := by
        have hpadded := env.json.loads_padded line.strip hspace
        rw [← eq_padded] at hpadded
        unfold parse
        rw [hpadded]
      have hwide : ¬ WidePadded env line := by
        rintro ⟨-, -, c, hc, hother⟩
        rw [hspace c hc] at hother
        cases hother
      exact ⟨fun _ => ⟨hwrapped, hwide⟩, fun _ => hsame.symm⟩
    · have hnone : parse env.json line = none := by
        rw [Option.eq_none_iff_forall_ne_some]
        intro r hr
        have hloads := parse_eq_some.mp hr
        rw [eq_padded line] at hloads
        exact hspace (env.json.loads_other hloads fun c hc => isSpace_padding hc)
      obtain ⟨c, hc, hother⟩ : ∃ c ∈ paddingOf line, c.isJsonSpace = false := by
        by_contra hnot
        exact hspace fun c hc => Bool.eq_true_of_not_eq_false fun hother => hnot ⟨c, hc, hother⟩
      rw [hnone]
      constructor
      · intro h
        refine ⟨hwrapped, ?_⟩
        rintro ⟨-, ⟨r, hr⟩, -⟩
        rw [h] at hr
        cases hr
      · rintro ⟨-, h⟩
        rw [Option.eq_none_iff_forall_ne_some]
        exact fun r hr => h ⟨hstrip, ⟨r, hr⟩, c, hc, hother⟩

end Kaine.EncryptedJsonl
