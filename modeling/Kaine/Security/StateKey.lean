import Kaine.Lib.Base64
import Kaine.Lib.TextLines

/-! The key of state at rest, in the forms in which an operator provides it. Which texts are a key.
-/
namespace Kaine.Security
open Py
open Base64 (value pad)

def keyBytes : ℕ := 32

def equals : CodePoint := CodePoint.ofChar '='

/-- The byte of an ASCII character. -/
def asciiByte (c : CodePoint) : Byte := Utf8.byte c.val

/-- The URL-safe alphabet's two characters of its own, as those of the standard one. -/
def fromUrlsafe (b : Byte) : Byte :=
  if b = Utf8.byte 45 then Utf8.byte 43 else if b = Utf8.byte 95 then Utf8.byte 47 else b

/-- `base64.b64decode(t)`, none where it raises. -/
def b64decode (t : Text) : Option Bytes :=
  if t.Ascii then Base64.decodeLoose (t.map asciiByte) else none

/-- `base64.urlsafe_b64decode(t)`, none where it raises. -/
def urlsafeB64decode (t : Text) : Option Bytes :=
  if t.Ascii then Base64.decodeLoose (t.map fun c => fromUrlsafe (asciiByte c)) else none

def hexDigit (c : CodePoint) : Option ℕ :=
  let n := c.val
  if 48 ≤ n ∧ n ≤ 57 then some (n - 48)
  else if 65 ≤ n ∧ n ≤ 70 then some (n - 55)
  else if 97 ≤ n ∧ n ≤ 102 then some (n - 87)
  else none

/-- White space as `bytes.fromhex` skips it. -/
def isAsciiSpace (c : CodePoint) : Bool := c.val = 32 || (9 ≤ c.val && c.val ≤ 13)

/-- `bytes.fromhex(t)`, none where it raises. -/
def fromHex : Text → Option Bytes
  | [] => some []
  | [c] => if isAsciiSpace c then some [] else none
  | c :: d :: rest =>
    if isAsciiSpace c then fromHex (d :: rest)
    else
      match hexDigit c, hexDigit d with
      | some high, some low => (fromHex rest).map (Utf8.byte (high * 16 + low) :: ·)
      | _, _ => none

/-- The candidate with the padding that its length asks for. -/
def padded (candidate : Text) : Text :=
  candidate ++ List.replicate (-(candidate.length : ℤ) % 4).toNat equals

/-- What a decoder gives, where it is of a key's length. -/
def ofKeyLength (decoded : Option Bytes) : Option Bytes :=
  decoded.filter fun bs => bs.length = keyBytes

inductive RawKey
  | text (t : Text)
  | bytes (bs : Bytes)

/-- What decoding a key raises. -/
inductive KeyError
  | unencodable
  | config
deriving DecidableEq

def decodeKey : RawKey → Except KeyError Bytes
  | .bytes bs => if bs.length = keyBytes then .ok bs else .error .config
  | .text t =>
    let candidate := t.strip
    match Utf8.encode candidate with
    | none => .error .unencodable
    | some rawBytes =>
      if rawBytes.length = keyBytes then .ok rawBytes
      else if candidate.isEmpty then .error .config
      else
        match ofKeyLength (urlsafeB64decode (padded candidate)) with
        | some key => .ok key
        | none =>
          match ofKeyLength (b64decode (padded candidate)) with
          | some key => .ok key
          | none =>
            match ofKeyLength (fromHex candidate) with
            | some key => .ok key
            | none => .error .config

variable {t candidate : Text} {read : CodePoint → Byte} {c : CodePoint} {key bs : Bytes}
  {decoded : Option Bytes} {n : ℕ}

/-- The characters of either base64 alphabet. -/
def isBase64 (c : CodePoint) : Bool :=
  let n := c.val
  (65 ≤ n && n ≤ 90) || (97 ≤ n && n ≤ 122) || (48 ≤ n && n ≤ 57) || n = 43 || n = 47 ||
    n = 45 || n = 95

/-- The characters that encode 32 bytes, with the padding or without. -/
def Base64Form (candidate : Text) : Prop :=
  ∃ front, front.length = 43 ∧ (∀ c ∈ front, isBase64 c = true) ∧
    (candidate = front ∨ candidate = front ++ [equals])

def HexForm (candidate : Text) : Prop := ∃ key, fromHex candidate = some key ∧ key.length = keyBytes

/-- The forms that are promised. -/
def Documented (t : Text) : Prop :=
  (∃ bs, Utf8.encode t.strip = some bs ∧ bs.length = keyBytes) ∨ Base64Form t.strip ∨
    HexForm t.strip

/-- A text longer than the base64 form in which one of the two readings comes to the end of 32
bytes: other characters are passed over, or what follows the padding. -/
def Misread (candidate : Text) : Prop :=
  candidate.Ascii ∧ 45 ≤ candidate.length ∧
    (Base64.ClosesAfter 43 ((padded candidate).map fun c => fromUrlsafe (asciiByte c)) ∨
      Base64.ClosesAfter 43 ((padded candidate).map asciiByte))

/-- A reading of the ASCII characters as those of the standard alphabet. -/
structure Reading (read : CodePoint → Byte) : Prop where
  alphabet : ∀ c, c.val < 128 → (value (read c)).isSome = true → isBase64 c = true
  padding : ∀ c, c.val < 128 → (read c = pad ↔ c = equals)
  hex : ∀ c, (hexDigit c).isSome = true → (value (read c)).isSome = true
  space : ∀ c, isAsciiSpace c = true → value (read c) = none

theorem ofKeyLength_eq_some : ofKeyLength decoded = some key ↔
    decoded = some key ∧ key.length = keyBytes := by
  unfold ofKeyLength
  rw [Option.filter_eq_some_iff, decide_eq_true_iff]

theorem decodeKey_iff : (∃ key, decodeKey (.text t) = .ok key) ↔
    ∃ bs, Utf8.encode t.strip = some bs ∧ (bs.length = keyBytes ∨
      (∃ key, urlsafeB64decode (padded t.strip) = some key ∧ key.length = keyBytes) ∨
      (∃ key, b64decode (padded t.strip) = some key ∧ key.length = keyBytes) ∨
        HexForm t.strip) := by
  unfold decodeKey HexForm
  simp only [← ofKeyLength_eq_some]
  cases hencode : Utf8.encode t.strip with
  | none => simp
  | some bs =>
    by_cases hbytes : bs.length = keyBytes
    · simp [hbytes]
    · cases hempty : t.strip with
      | nil =>
        have hnone : ofKeyLength (some []) = none := rfl
        have hurlsafe : urlsafeB64decode (padded []) = some [] := rfl
        have hstandard : b64decode (padded []) = some [] := rfl
        simp [hbytes, hurlsafe, hstandard, fromHex, hnone]
      | cons c rest =>
        cases hurlsafe : ofKeyLength (urlsafeB64decode (padded (c :: rest))) with
        | some key => simp [hbytes]
        | none =>
          cases hstandard : ofKeyLength (b64decode (padded (c :: rest))) with
          | some key => simp [hbytes]
          | none => cases hhex : ofKeyLength (fromHex (c :: rest)) <;> simp [hbytes]

theorem val_asciiByte (h : c.val < 128) : (asciiByte c).val = c.val := Utf8.val_byte (by omega)

theorem isBase64_iff : isBase64 c = true ↔ c.val = 43 ∨ c.val = 45 ∨ c.val = 47 ∨
    (48 ≤ c.val ∧ c.val ≤ 57) ∨ (65 ≤ c.val ∧ c.val ≤ 90) ∨ c.val = 95 ∨
      (97 ≤ c.val ∧ c.val ≤ 122) := by
  simp only [isBase64, Bool.or_eq_true, Bool.and_eq_true, decide_eq_true_eq]
  omega

theorem hexDigit_range (h : (hexDigit c).isSome = true) :
    (48 ≤ c.val ∧ c.val ≤ 57) ∨ (65 ≤ c.val ∧ c.val ≤ 70) ∨ (97 ≤ c.val ∧ c.val ≤ 102) := by
  unfold hexDigit at h
  dsimp only at h
  split_ifs at h with hdigit hupper hlower
  · exact .inl hdigit
  · exact .inr (.inl hupper)
  · exact .inr (.inr hlower)
  · cases h

theorem isAsciiSpace_range (h : isAsciiSpace c = true) : c.val = 32 ∨ (9 ≤ c.val ∧ c.val ≤ 13) := by
  simpa only [isAsciiSpace, Bool.or_eq_true, Bool.and_eq_true, decide_eq_true_eq] using h

/-- The number that the URL-safe reading makes of an ASCII character. -/
theorem val_fromUrlsafe (h : c.val < 128) : (fromUrlsafe (asciiByte c)).val =
    if c.val = 45 then 43 else if c.val = 95 then 47 else c.val := by
  have hval := val_asciiByte h
  have hdash : asciiByte c = Utf8.byte 45 ↔ c.val = 45 := by
    rw [Fin.ext_iff, hval, Utf8.val_byte (by omega)]
  have hline : asciiByte c = Utf8.byte 95 ↔ c.val = 95 := by
    rw [Fin.ext_iff, hval, Utf8.val_byte (by omega)]
  simp only [fromUrlsafe, hdash, hline]
  split_ifs
  · rfl
  · rfl
  · exact hval

theorem eq_equals_iff : c = equals ↔ c.val = 61 := Fin.ext_iff

theorem eq_pad_iff {b : Byte} : b = pad ↔ b.val = 61 := Fin.ext_iff

theorem reading_standard : Reading asciiByte where
  alphabet := by
    intro c hc h
    rw [Base64.isSome_value_iff, val_asciiByte hc] at h
    rw [isBase64_iff]
    omega
  padding := by
    intro c hc
    rw [eq_pad_iff, val_asciiByte hc, eq_equals_iff]
  hex := by
    intro c h
    have hrange := hexDigit_range h
    rw [Base64.isSome_value_iff, val_asciiByte (by omega)]
    omega
  space := by
    intro c h
    have hrange := isAsciiSpace_range h
    rw [← Option.not_isSome_iff_eq_none, Base64.isSome_value_iff, val_asciiByte (by omega)]
    omega

theorem reading_urlsafe : Reading fun c => fromUrlsafe (asciiByte c) where
  alphabet := by
    intro c hc h
    rw [Base64.isSome_value_iff, val_fromUrlsafe hc] at h
    rw [isBase64_iff]
    split_ifs at h <;> omega
  padding := by
    intro c hc
    rw [eq_pad_iff, val_fromUrlsafe hc, eq_equals_iff]
    split_ifs <;> omega
  hex := by
    intro c h
    have hrange := hexDigit_range h
    rw [Base64.isSome_value_iff, val_fromUrlsafe (by omega)]
    split_ifs <;> omega
  space := by
    intro c h
    have hrange := isAsciiSpace_range h
    rw [← Option.not_isSome_iff_eq_none, Base64.isSome_value_iff, val_fromUrlsafe (by omega)]
    split_ifs <;> omega

/-- All characters of either alphabet are of the alphabet in the URL-safe reading. -/
theorem value_fromUrlsafe (h : isBase64 c = true) :
    (value (fromUrlsafe (asciiByte c))).isSome = true := by
  rw [isBase64_iff] at h
  rw [Base64.isSome_value_iff, val_fromUrlsafe (by omega)]
  split_ifs <;> omega

theorem ascii_of_isBase64 (h : isBase64 c = true) : c.val < 128 := by
  rw [isBase64_iff] at h
  omega

theorem ascii_padded : (padded candidate).Ascii ↔ candidate.Ascii := by
  have hequals : equals.val < 0x80 := by decide
  unfold Text.Ascii padded
  constructor
  · intro h c hc
    exact h c (List.mem_append_left _ hc)
  · intro h c hc
    rcases List.mem_append.mp hc with hc | hc
    · exact h c hc
    · rw [List.eq_of_mem_replicate hc]
      exact hequals

theorem decoded_iff (read : CodePoint → Byte) :
    (∃ key, (if (padded candidate).Ascii then Base64.decodeLoose ((padded candidate).map read)
        else none) = some key ∧ key.length = keyBytes) ↔
      candidate.Ascii ∧ Base64.ClosesAfter 43 ((padded candidate).map read) := by
  have hclosed : (∃ key, Base64.decodeLoose ((padded candidate).map read) = some key ∧
      key.length = keyBytes) ↔ Base64.ClosesAfter 43 ((padded candidate).map read) :=
        Base64.decodeLoose_iff (n := 43) rfl
  rw [← hclosed]
  have hpadded : (padded candidate).Ascii ↔ candidate.Ascii := ascii_padded
  split_ifs with hascii
  · simp [hpadded.mp hascii]
  · simp [mt hpadded.mpr hascii]

theorem encode_of_ascii (h : candidate.Ascii) :
    ∃ bs, Utf8.encode candidate = some bs ∧ bs.length = candidate.length :=
  ⟨_, Utf8.encode_ascii h, List.length_map ..⟩

theorem Reading.ne_pad_of_space (hread : Reading read) (h : isAsciiSpace c = true) :
    read c ≠ pad := by
  have hrange := isAsciiSpace_range h
  intro hpad
  have hval := eq_equals_iff.mp ((hread.padding c (by omega)).mp hpad)
  omega

theorem Reading.ne_pad_of_hex (hread : Reading read) (h : (hexDigit c).isSome = true) :
    read c ≠ pad := by
  obtain ⟨v, hv⟩ := Option.isSome_iff_exists.mp (hread.hex c h)
  exact Base64.ne_pad_of_value hv

/-- A hexadecimal form is of ASCII characters, two of them in the alphabet for each byte, and has no
padding. -/
theorem Reading.of_fromHex (hread : Reading read) (h : fromHex candidate = some key) :
    candidate.Ascii ∧ (Base64.data (candidate.map read)).length = 2 * key.length ∧
      pad ∉ candidate.map read := by
  induction candidate using fromHex.induct generalizing key with
  | case1 =>
    cases h
    exact ⟨fun c hc => absurd hc List.not_mem_nil, rfl, List.not_mem_nil⟩
  | case2 c hspace =>
    rw [fromHex, if_pos hspace] at h
    cases h
    have hrange := isAsciiSpace_range hspace
    refine ⟨?_, ?_, ?_⟩
    · intro d hd
      rw [List.mem_singleton.mp hd]
      omega
    · simp [Base64.data, hread.space c hspace]
    · simpa using (hread.ne_pad_of_space hspace).symm
  | case3 c hspace =>
    rw [fromHex, if_neg hspace] at h
    cases h
  | case4 c d rest hspace ih =>
    rw [fromHex, if_pos hspace] at h
    obtain ⟨hascii, hcount, hpad⟩ := ih h
    have hrange := isAsciiSpace_range hspace
    refine ⟨?_, ?_, ?_⟩
    · intro e he
      rcases List.mem_cons.mp he with rfl | he
      · omega
      · exact hascii e he
    · rw [List.map_cons, Base64.data_cons, hread.space c hspace, if_neg (by simp)]
      exact hcount
    · rw [List.map_cons, List.mem_cons, not_or]
      exact ⟨(hread.ne_pad_of_space hspace).symm, hpad⟩
  | case5 c d rest hspace high low hlow hhigh ih =>
    rw [fromHex, if_neg hspace, hhigh, hlow] at h
    obtain ⟨key', hrest, rfl⟩ := Option.map_eq_some_iff.mp h
    obtain ⟨hascii, hcount, hpad⟩ := ih hrest
    have hc := Option.isSome_of_eq_some hhigh
    have hd := Option.isSome_of_eq_some hlow
    have hrange := hexDigit_range hc
    have hrange' := hexDigit_range hd
    refine ⟨?_, ?_, ?_⟩
    · intro e he
      rcases List.mem_cons.mp he with rfl | he
      · omega
      · rcases List.mem_cons.mp he with rfl | he
        · omega
        · exact hascii e he
    · rw [List.map_cons, List.map_cons, Base64.data_cons, if_pos (hread.hex c hc), Base64.data_cons,
        if_pos (hread.hex d hd), List.length_cons, List.length_cons, List.length_cons]
      omega
    · rw [List.map_cons, List.map_cons, List.mem_cons, List.mem_cons, not_or, not_or]
      exact ⟨(hread.ne_pad_of_hex hc).symm, (hread.ne_pad_of_hex hd).symm, hpad⟩
  | case6 c d rest hspace hnone =>
    rw [fromHex, if_neg hspace] at h
    split at h
    · next high low hhigh hlow => exact absurd hlow (hnone high low hhigh)
    · cases h

/-- No reading takes a hexadecimal form for 32 bytes of base64. -/
theorem Reading.not_closesAfter_of_hex (hread : Reading read) (h : HexForm candidate) :
    ¬ Base64.ClosesAfter 43 ((padded candidate).map read) := by
  intro hcloses
  obtain ⟨key, hkey, hlength⟩ := h
  obtain ⟨-, hcount, hpad⟩ := hread.of_fromHex hkey
  rw [padded, List.map_append] at hcloses
  have hle := hcloses.length_data_le hpad
  rw [hcount, hlength] at hle
  exact absurd hle (by decide)

theorem padded_of_form (h : Base64Form candidate) : ∃ front, front.length = 43 ∧
    (∀ c ∈ front, isBase64 c = true) ∧ padded candidate = front ++ [equals] := by
  obtain ⟨front, hlength, halphabet, rfl | rfl⟩ := h
  · refine ⟨candidate, hlength, halphabet, ?_⟩
    rw [padded, hlength]
    rfl
  · refine ⟨front, hlength, halphabet, ?_⟩
    rw [padded, List.length_append, hlength]
    exact List.append_nil _

theorem Base64Form.ascii (h : Base64Form candidate) : candidate.Ascii := by
  obtain ⟨front, -, halphabet, hpadded⟩ := padded_of_form h
  rw [← ascii_padded, hpadded]
  intro c hc
  rcases List.mem_append.mp hc with hc | hc
  · exact ascii_of_isBase64 (halphabet c hc)
  · rw [List.mem_singleton.mp hc]
    decide

/-- The URL-safe reading takes the base64 form of either alphabet. -/
theorem Base64Form.closesAfter (h : Base64Form candidate) :
    Base64.ClosesAfter 43 ((padded candidate).map fun c => fromUrlsafe (asciiByte c)) := by
  obtain ⟨front, hlength, halphabet, hpadded⟩ := padded_of_form h
  have hdata : ∀ b ∈ front.map fun c => fromUrlsafe (asciiByte c), (value b).isSome = true := by
    intro b hb
    obtain ⟨c, hc, rfl⟩ := List.mem_map.mp hb
    exact value_fromUrlsafe (halphabet c hc)
  refine ⟨front.map fun c => fromUrlsafe (asciiByte c), [], ?_, ?_, ?_⟩
  · rw [hpadded, List.map_append]
    rfl
  · rw [Base64.data_eq_self hdata, List.length_map, hlength]
  · refine Base64.unclosed_of_notMem fun hpad => ?_
    have hsome := hdata pad hpad
    rw [Base64.value_pad] at hsome
    cases hsome

theorem Base64Form.length_le (h : Base64Form candidate) : candidate.length ≤ 44 := by
  obtain ⟨front, hlength, -, rfl | rfl⟩ := h
  · omega
  · rw [List.length_append, hlength]
    rfl

theorem Reading.isBase64_of_data (hread : Reading read) {front : Text} (hascii : front.Ascii)
    (h : (Base64.data (front.map read)).length = front.length) :
    ∀ c ∈ front, isBase64 c = true := by
  intro c hc
  rw [← (List.length_map read : (front.map read).length = front.length), Base64.data,
    List.length_filter_eq_length_iff] at h
  exact hread.alphabet c (hascii c hc) (h (read c) (List.mem_map_of_mem hc))

theorem length_data_le (bs : Bytes) : (Base64.data bs).length ≤ bs.length :=
  List.length_filter_le ..

/-- Within the length of the base64 form a reading comes to 32 bytes in that form only. -/
theorem Reading.form_of_closesAfter (hread : Reading read) (hascii : candidate.Ascii)
    (hlength : candidate.length ≤ 44) (h : Base64.ClosesAfter 43 ((padded candidate).map read)) :
    Base64Form candidate := by
  obtain ⟨before, after, hsplit, hcount, -⟩ := h
  rw [padded, List.map_append, List.map_replicate] at hsplit
  have hpad : read equals = pad := (hread.padding equals (by decide)).mpr rfl
  rw [hpad] at hsplit
  have hdata := length_data_le before
  -- Padding is added to 43 characters, and none to 44.
  have hwhole (hpads : (-(candidate.length : ℤ) % 4).toNat ≠ 0)
      (hall : (Base64.data (candidate.map read)).length = 43) : Base64Form candidate := by
    have hle := length_data_le (candidate.map read)
    rw [hall, List.length_map] at hle
    have hexact : candidate.length = 43 := by omega
    exact ⟨candidate, hexact, hread.isBase64_of_data hascii (hall.trans hexact.symm), .inl rfl⟩
  rcases List.append_eq_append_iff.mp hsplit with ⟨more, rfl, hmore⟩ | ⟨more, hmore, hafter⟩
  · have hpads : ∀ b ∈ more, b = pad := fun b hb =>
      List.eq_of_mem_replicate (hmore ▸ List.mem_append_left _ hb)
    have hnone : Base64.data more = [] := by
      refine List.filter_eq_nil_iff.mpr fun b hb => ?_
      rw [hpads b hb, Base64.value_pad]
      exact Bool.false_ne_true
    have hall : (Base64.data (candidate.map read)).length = 43 := by
      rw [← hcount, Base64.data, Base64.data, List.filter_append, ← Base64.data,
        ← Base64.data, hnone, List.append_nil]
    refine hwhole (fun hzero => ?_) hall
    rw [hzero] at hmore
    cases more <;> cases hmore
  · cases more with
    | nil =>
      rw [List.append_nil] at hmore
      rw [← hmore] at hcount
      refine hwhole (fun hzero => ?_) hcount
      rw [hzero] at hafter
      cases hafter
    | cons b rest =>
      have hlengths := congrArg List.length hmore
      rw [List.length_map, List.length_append, List.length_cons] at hlengths
      have hend : rest = [] := List.eq_nil_of_length_eq_zero (by omega)
      have hb := (List.cons_eq_cons.mp hafter).1
      rw [hend, ← hb] at hmore
      obtain ⟨front, last, rfl, rfl, hlast⟩ := List.map_eq_append_iff.mp hmore
      obtain ⟨c, rfl, hc⟩ := List.map_eq_singleton_iff.mp hlast
      have hequals :=
        (hread.padding c (hascii c (List.mem_append_right _ List.mem_cons_self))).mp hc
      have hfront : Text.Ascii front := fun d hd => hascii d (List.mem_append_left _ hd)
      rw [List.length_map] at hlengths hdata
      have hexact : front.length = 43 := by
        rw [List.length_append, List.length_singleton] at hlength
        omega
      exact ⟨front, hexact, hread.isBase64_of_data hfront (hcount.trans hexact.symm),
        .inr (by rw [hequals])⟩

/-- A decoder takes a misread text for a key, which no promised form is. -/
theorem Misread.not_documented (h : Misread t.strip) :
    (∃ key, decodeKey (.text t) = .ok key) ∧ ¬ Documented t := by
  obtain ⟨hascii, hlength, hcloses⟩ := h
  obtain ⟨bs, hencode, hbytes⟩ := encode_of_ascii hascii
  constructor
  · refine decodeKey_iff.mpr ⟨bs, hencode, .inr ?_⟩
    rcases hcloses with hcloses | hcloses
    · exact .inl ((decoded_iff _).mpr ⟨hascii, hcloses⟩)
    · exact .inr (.inl ((decoded_iff _).mpr ⟨hascii, hcloses⟩))
  · rintro (⟨bs', hencode', hbytes'⟩ | hform | hhex)
    · cases hencode.symm.trans hencode'
      have hkey : keyBytes = 32 := rfl
      omega
    · have hle := hform.length_le
      omega
    · rcases hcloses with hcloses | hcloses
      · exact reading_urlsafe.not_closesAfter_of_hex hhex hcloses
      · exact reading_standard.not_closesAfter_of_hex hhex hcloses

theorem Documented.accepted (h : Documented t) : ∃ key, decodeKey (.text t) = .ok key := by
  rw [decodeKey_iff]
  rcases h with ⟨bs, hencode, hbytes⟩ | hform | hhex
  · exact ⟨bs, hencode, .inl hbytes⟩
  · obtain ⟨bs, hencode, -⟩ := encode_of_ascii hform.ascii
    exact ⟨bs, hencode, .inr (.inl ((decoded_iff _).mpr ⟨hform.ascii, hform.closesAfter⟩))⟩
  · obtain ⟨key, hkey, hlength⟩ := hhex
    obtain ⟨bs, hencode, -⟩ := encode_of_ascii (reading_standard.of_fromHex hkey).1
    exact ⟨bs, hencode, .inr (.inr (.inr ⟨key, hkey, hlength⟩))⟩

theorem documented_of_accepted (h : ¬ Misread t.strip)
    (haccepted : ∃ key, decodeKey (.text t) = .ok key) : Documented t := by
  obtain ⟨bs, hencode, hbytes | hread | hread | hhex⟩ := decodeKey_iff.mp haccepted
  · exact .inl ⟨bs, hencode, hbytes⟩
  · obtain ⟨hascii, hcloses⟩ := (decoded_iff _).mp hread
    have hlength : ¬ 45 ≤ t.strip.length := fun hlong => h ⟨hascii, hlong, .inl hcloses⟩
    exact .inr (.inl (reading_urlsafe.form_of_closesAfter hascii (by omega) hcloses))
  · obtain ⟨hascii, hcloses⟩ := (decoded_iff _).mp hread
    have hlength : ¬ 45 ≤ t.strip.length := fun hlong => h ⟨hascii, hlong, .inr hcloses⟩
    exact .inr (.inl (reading_standard.form_of_closesAfter hascii (by omega) hcloses))
  · exact .inr (.inr hhex)

/-- The text of base64 or hexadecimal bytes. -/
def textOf (bs : Bytes) : Text := bs.map Ascii.ofByte

/-- A character of the standard alphabet as the URL-safe one writes it. -/
def toUrlsafe (b : Byte) : Byte :=
  if b = Utf8.byte 43 then Utf8.byte 45 else if b = Utf8.byte 47 then Utf8.byte 95 else b

def hexChar (n : ℕ) : Byte := Utf8.byte (if n < 10 then 48 + n else 87 + n)

/-- `key.hex()`. -/
def hex (key : Bytes) : Bytes := key.flatMap fun b => [hexChar (b.val / 16), hexChar (b.val % 16)]

theorem asciiByte_ofByte (b : Byte) : asciiByte (Ascii.ofByte b) = b := Fin.ext (Utf8.val_byte b.2)

theorem isSpace_of_graphic (h : 33 ≤ c.val ∧ c.val ≤ 126) : c.isSpace = false := by
  rw [← Bool.not_eq_true]
  simp only [CodePoint.isSpace, Bool.or_eq_true, Bool.and_eq_true, decide_eq_true_eq]
  omega

/-- A text of ASCII characters that can be seen is its own candidate, and its bytes are its
characters. -/
theorem strip_of_graphic (h : ∀ c ∈ t, 33 ≤ c.val ∧ c.val ≤ 126) :
    t.strip = t ∧ t.Ascii ∧ ∃ bs, Utf8.encode t = some bs ∧ bs.length = t.length := by
  have hascii : t.Ascii := by
    intro c hc
    have hrange := h c hc
    omega
  exact ⟨Text.strip_of_noSpace fun c hc => isSpace_of_graphic (h c hc), hascii,
    encode_of_ascii hascii⟩

theorem decodeKey_base64 (hgraphic : ∀ c ∈ t, 33 ≤ c.val ∧ c.val ≤ 126)
    (hkey : key.length = keyBytes)
    (hread : (t.map fun c => fromUrlsafe (asciiByte c)) = Base64.encode key) :
    decodeKey (.text t) = .ok key := by
  obtain ⟨hstrip, hascii, bs, hencode, hbytes⟩ := strip_of_graphic hgraphic
  have hlength : t.length = 44 := by
    have hmap : (t.map fun c => fromUrlsafe (asciiByte c)).length = t.length := List.length_map _
    rw [← hmap, hread, Base64.length_encode, hkey]
    rfl
  have hpadded : padded t = t := by
    rw [padded, hlength]
    exact List.append_nil _
  have hdecode : ofKeyLength (urlsafeB64decode (padded t)) = some key := by
    rw [ofKeyLength_eq_some, hpadded, urlsafeB64decode, if_pos hascii, hread]
    exact ⟨Base64.decodeLoose_encode key, hkey⟩
  have hne : ¬ bs.length = keyBytes := by
    rw [hbytes, hlength]
    decide
  have hsome : ¬ t.isEmpty = true := by
    rw [List.isEmpty_iff]
    rintro rfl
    cases hlength
  simp only [decodeKey, hstrip, hencode, if_neg hne, if_neg hsome, hdecode]

theorem ofKeyLength_eq_none (h : ¬ ∃ key, decoded = some key ∧ key.length = keyBytes) :
    ofKeyLength decoded = none :=
  Option.eq_none_iff_forall_ne_some.mpr fun key hkey => h ⟨key, ofKeyLength_eq_some.mp hkey⟩

theorem hexDigit_hexChar (h : n < 16) : hexDigit (Ascii.ofByte (hexChar n)) = some n ∧
    isAsciiSpace (Ascii.ofByte (hexChar n)) = false ∧
    33 ≤ (Ascii.ofByte (hexChar n)).val ∧ (Ascii.ofByte (hexChar n)).val ≤ 126 := by
  have hall : ∀ k : Fin 16, hexDigit (Ascii.ofByte (hexChar k.val)) = some k.val ∧
      isAsciiSpace (Ascii.ofByte (hexChar k.val)) = false ∧
      33 ≤ (Ascii.ofByte (hexChar k.val)).val ∧ (Ascii.ofByte (hexChar k.val)).val ≤ 126 := by
        decide
  exact hall ⟨n, h⟩

theorem fromHex_hex (key : Bytes) : fromHex (textOf (hex key)) = some key := by
  induction key with
  | nil => rfl
  | cons b key ih =>
    have hb := b.2
    obtain ⟨hhigh, hspace, -⟩ := hexDigit_hexChar (n := b.val / 16) (by omega)
    obtain ⟨hlow, -⟩ := hexDigit_hexChar (n := b.val % 16) (by omega)
    have hbyte : b.val / 16 * 16 + b.val % 16 = b.val := by omega
    have hcons : textOf (hex (b :: key)) =
        Ascii.ofByte (hexChar (b.val / 16)) :: Ascii.ofByte (hexChar (b.val % 16)) :: textOf
          (hex key) := rfl
    rw [hcons, fromHex, hspace, if_neg Bool.false_ne_true, hhigh, hlow]
    dsimp only
    rw [ih, Base64.byte_eq hbyte]
    rfl

theorem graphic_hex (key : Bytes) : ∀ c ∈ textOf (hex key), 33 ≤ c.val ∧ c.val ≤ 126 := by
  intro c hc
  obtain ⟨d, hd, rfl⟩ := List.mem_map.mp hc
  obtain ⟨b, -, hd⟩ := List.mem_flatMap.mp hd
  have hb := b.2
  rcases List.mem_pair.mp hd with rfl | rfl
  · exact (hexDigit_hexChar (by omega)).2.2
  · exact (hexDigit_hexChar (by omega)).2.2

theorem decodeKey_hex (hkey : key.length = keyBytes) :
    decodeKey (.text (textOf (hex key))) = .ok key := by
  obtain ⟨hstrip, hascii, bs, hencode, hbytes⟩ := strip_of_graphic (graphic_hex key)
  have hform : HexForm (textOf (hex key)) := ⟨key, fromHex_hex key, hkey⟩
  have hurlsafe : ofKeyLength (urlsafeB64decode (padded (textOf (hex key)))) = none :=
    ofKeyLength_eq_none fun hread =>
    reading_urlsafe.not_closesAfter_of_hex hform ((decoded_iff _).mp hread).2
  have hstandard : ofKeyLength (b64decode (padded (textOf (hex key)))) = none :=
    ofKeyLength_eq_none fun hread =>
    reading_standard.not_closesAfter_of_hex hform ((decoded_iff _).mp hread).2
  have hhex : ofKeyLength (fromHex (textOf (hex key))) = some key :=
    ofKeyLength_eq_some.mpr ⟨fromHex_hex key, hkey⟩
  have hlength : (textOf (hex key)).length = 64 := by
    simp [textOf, hex, List.length_flatMap, hkey, keyBytes]
  have hne : ¬ bs.length = keyBytes := by
    rw [hbytes, hlength]
    decide
  have hsome : ¬ (textOf (hex key)).isEmpty = true := by
    rw [List.isEmpty_iff]
    intro hnil
    rw [hnil] at hlength
    cases hlength
  simp only [decodeKey, hstrip, hencode, if_neg hne, if_neg hsome, hurlsafe, hstandard, hhex]

/-- A character of an encoding, written in either alphabet, is read as that of the standard one. -/
theorem fromUrlsafe_encoded {b : Byte} (h : b ∈ Base64.encode key) :
    fromUrlsafe b = b ∧ fromUrlsafe (toUrlsafe b) = b ∧ (33 ≤ b.val ∧ b.val ≤ 126) ∧
      33 ≤ (toUrlsafe b).val ∧ (toUrlsafe b).val ≤ 126 := by
  have hval := Base64.val_of_alphabet (Base64.decode_alphabet (Base64.decode_encode true key) b h)
  have hself : fromUrlsafe b = b := by
    rw [fromUrlsafe, if_neg, if_neg]
    · rintro rfl
      exact absurd hval (by decide)
    · rintro rfl
      exact absurd hval (by decide)
  refine ⟨hself, ?_, by omega, ?_⟩
  · by_cases hplus : b = Utf8.byte 43
    · rw [hplus]
      rfl
    · by_cases hslash : b = Utf8.byte 47
      · rw [hslash]
        rfl
      · rw [toUrlsafe, if_neg hplus, if_neg hslash, hself]
  · rw [toUrlsafe]
    split_ifs
    · decide
    · decide
    · omega

/-- A key is decoded from its base64 in either alphabet and from its hexadecimal form. -/
theorem decodeKey_forms (h : key.length = keyBytes) :
    decodeKey (.text (textOf (Base64.encode key))) = .ok key ∧
      decodeKey (.text (textOf ((Base64.encode key).map toUrlsafe))) = .ok key ∧
      decodeKey (.text (textOf (hex key))) = .ok key := by
  refine ⟨decodeKey_base64 ?_ h ?_, decodeKey_base64 ?_ h ?_, decodeKey_hex h⟩
  · intro c hc
    obtain ⟨b, hb, rfl⟩ := List.mem_map.mp hc
    exact (fromUrlsafe_encoded hb).2.2.1
  · rw [textOf, List.map_map]
    refine (List.map_congr_left fun b hb => ?_).trans (List.map_id _)
    exact (congrArg fromUrlsafe (asciiByte_ofByte b)).trans (fromUrlsafe_encoded hb).1
  · intro c hc
    obtain ⟨b, hb, rfl⟩ := List.mem_map.mp hc
    obtain ⟨a, ha, rfl⟩ := List.mem_map.mp hb
    exact (fromUrlsafe_encoded ha).2.2.2
  · rw [textOf, List.map_map, List.map_map]
    refine (List.map_congr_left fun b hb => ?_).trans (List.map_id _)
    exact (congrArg fromUrlsafe (asciiByte_ofByte (toUrlsafe b))).trans (fromUrlsafe_encoded hb).2.1

/-- The texts that are taken for a key are those of the promised forms, but for the misread ones. -/
theorem decodeKey_documented_iff (t : Text) :
    (((∃ key, decodeKey (.text t) = .ok key) ↔ Documented t) ↔ ¬ Misread t.strip) ∧
      ∀ key : Bytes, key.length = keyBytes →
        decodeKey (.text (textOf (Base64.encode key))) = .ok key ∧
          decodeKey (.text (textOf ((Base64.encode key).map toUrlsafe))) = .ok key ∧
          decodeKey (.text (textOf (hex key))) = .ok key := by
  refine ⟨⟨fun hexact hmisread => ?_, fun hread => ?_⟩, fun key => decodeKey_forms⟩
  · obtain ⟨haccepted, hnot⟩ := hmisread.not_documented
    exact hnot (hexact.mp haccepted)
  · exact ⟨documented_of_accepted hread, Documented.accepted⟩

/-- 43 characters and two exclamation marks, which are dropped. -/
def mistyped : Text :=
  List.replicate 43 (CodePoint.ofChar 'A') ++ List.replicate 2 (CodePoint.ofChar '!')

theorem mistyped_decodes :
    decodeKey (.text mistyped) = .ok (List.replicate 32 (Utf8.byte 0)) ∧ ¬ Documented mistyped := by
  have hstrip : mistyped.strip = mistyped := rfl
  have hmisread : Misread mistyped.strip := by
    rw [hstrip]
    refine ⟨by decide, by decide, .inl ⟨mistyped.map asciiByte, [pad, pad], rfl, rfl, ?_⟩⟩
    exact Base64.unclosed_of_notMem (by decide)
  exact ⟨rfl, hmisread.not_documented.2⟩

end Kaine.Security
