import Mathlib.Data.Fin.Basic
import Mathlib.Data.List.Basic
import Mathlib.Tactic.Linarith

/-! Python's `str` as code points, surrogates included, its `bytes`, and UTF-8 between the two. -/
namespace Py

abbrev CodePoint := Fin 0x110000
abbrev Text := List CodePoint
abbrev Byte := Fin 256
abbrev Bytes := List Byte

def CodePoint.ofChar (c : Char) : CodePoint :=
  ⟨c.toNat, by
    have h := c.valid
    simp only [UInt32.isValidChar, Nat.isValidChar] at h
    show c.val.toNat < 0x110000
    omega⟩

def CodePoint.ofNat (n : ℕ) : CodePoint := Fin.ofNat 0x110000 n

namespace Text

/-- The text of a literal. -/
def ofString (s : String) : Text := s.toList.map CodePoint.ofChar

/-- A text of ASCII characters. -/
def Ascii (t : Text) : Prop := ∀ c ∈ t, c.val < 0x80

instance (t : Text) : Decidable (Ascii t) :=
  List.decidableBAll (fun c : CodePoint => c.val < 0x80) t

end Text

/-- `str.isspace` for one character. -/
def CodePoint.isSpace (c : CodePoint) : Bool :=
  let n := c.val
  (9 ≤ n && n ≤ 13) || (28 ≤ n && n ≤ 32) || n = 0x85 || n = 0xA0 || n = 0x1680 ||
    (0x2000 ≤ n && n ≤ 0x200A) || n = 0x2028 || n = 0x2029 || n = 0x202F || n = 0x205F ||
    n = 0x3000

namespace Utf8

def byte (n : ℕ) : Byte := Fin.ofNat 256 n

/-- The bytes of a code point; a surrogate has none. -/
def encodeChar (c : CodePoint) : Option Bytes :=
  let n := c.val
  if n < 0x80 then some [byte n]
  else if n < 0x800 then some [byte (0xC0 + n / 64), byte (0x80 + n % 64)]
  else if 0xD800 ≤ n ∧ n ≤ 0xDFFF then none
  else if n < 0x10000 then
    some [byte (0xE0 + n / 4096), byte (0x80 + n / 64 % 64), byte (0x80 + n % 64)]
  else
    some [byte (0xF0 + n / 262144), byte (0x80 + n / 4096 % 64), byte (0x80 + n / 64 % 64),
      byte (0x80 + n % 64)]

/-- `t.encode("utf-8")`, none where it raises. -/
def encode : Text → Option Bytes
  | [] => some []
  | c :: t =>
    match encodeChar c, encode t with
    | some bs, some rest => some (bs ++ rest)
    | _, _ => none

/-- A decoder between two bytes: how many it is owed, what it has of the code point, and the bounds
of the next byte. -/
structure Decoder where
  need : ℕ
  acc : ℕ
  low : ℕ
  high : ℕ
deriving DecidableEq

def Decoder.start : Decoder := ⟨0, 0, 0x80, 0xBF⟩

/-- One byte: the decoder after it, and the code point that it completes. -/
def Decoder.feed (d : Decoder) (b : Byte) : Option (Decoder × Option CodePoint) :=
  let n := b.val
  if d.need = 0 then
    if n < 0x80 then some (start, some (Fin.ofNat _ n))
    else if n < 0xC2 then none
    else if n < 0xE0 then some (⟨1, n - 0xC0, 0x80, 0xBF⟩, none)
    else if n < 0xF0 then
      some (⟨2, n - 0xE0, if n = 0xE0 then 0xA0 else 0x80, if n = 0xED then 0x9F else 0xBF⟩, none)
    else if n < 0xF5 then
      some (⟨3, n - 0xF0, if n = 0xF0 then 0x90 else 0x80, if n = 0xF4 then 0x8F else 0xBF⟩, none)
    else none
  else if d.low ≤ n ∧ n ≤ d.high then
    let acc := d.acc * 64 + (n - 0x80)
    if d.need = 1 then some (start, some (Fin.ofNat _ acc))
    else some (⟨d.need - 1, acc, 0x80, 0xBF⟩, none)
  else none

/-- All bytes in turn; none at the first that no text goes on with. -/
def Decoder.run (d : Decoder) : Bytes → Option (Decoder × Text)
  | [] => some (d, [])
  | b :: bs =>
    match d.feed b with
    | none => none
    | some (d', c) =>
      match d'.run bs with
      | none => none
      | some (d'', t) => some (d'', c.toList ++ t)

/-- `bs.decode("utf-8")`, none where it raises. -/
def decode (bs : Bytes) : Option Text :=
  match Decoder.start.run bs with
  | some (d, t) => if d.need = 0 then some t else none
  | none => none

variable {c : CodePoint} {bs : Bytes} {t : Text}

theorem val_byte {n : ℕ} (h : n < 256) : (byte n).val = n := Nat.mod_eq_of_lt h

theorem ofNat_val (c : CodePoint) : Fin.ofNat 0x110000 c.val = c := Fin.ext (Nat.mod_eq_of_lt c.2)

theorem ofNat_eq {n : ℕ} (h : n = c.val) : Fin.ofNat 0x110000 n = c := by rw [h, ofNat_val]

namespace Decoder

variable {d d' : Decoder} {b : Byte} {o : Option CodePoint} {acc low high need x k : ℕ}

theorem run_cons (h : d.feed b = some (d', o)) (bs : Bytes) :
    d.run (b :: bs) = (d'.run bs).map fun r => (r.1, o.toList ++ r.2) := by
  simp only [run, h]
  cases d'.run bs <;> rfl

theorem feed_two (h : k < 0x20) (h' : 2 ≤ k) :
    start.feed (byte (0xC0 + k)) = some (⟨1, k, 0x80, 0xBF⟩, none) := by
  have hb : (byte (0xC0 + k)).val = 0xC0 + k := val_byte (by omega)
  have hk : 0xC0 + k - 0xC0 = k := by omega
  simp (disch := omega) only [feed, start, hb, if_true, if_neg, if_pos, hk]

theorem feed_three (h : k < 0x10) : start.feed (byte (0xE0 + k)) =
    some (⟨2, k, if k = 0 then 0xA0 else 0x80, if k = 13 then 0x9F else 0xBF⟩, none) := by
  have hb : (byte (0xE0 + k)).val = 0xE0 + k := val_byte (by omega)
  have hk : 0xE0 + k - 0xE0 = k := by omega
  have hlow : 0xE0 + k = 0xE0 ↔ k = 0 := by omega
  have hhigh : 0xE0 + k = 0xED ↔ k = 13 := by omega
  simp (disch := omega) only [feed, start, hb, if_true, if_neg, if_pos, hk, hlow, hhigh]

theorem feed_four (h : k < 5) : start.feed (byte (0xF0 + k)) =
    some (⟨3, k, if k = 0 then 0x90 else 0x80, if k = 4 then 0x8F else 0xBF⟩, none) := by
  have hb : (byte (0xF0 + k)).val = 0xF0 + k := val_byte (by omega)
  have hk : 0xF0 + k - 0xF0 = k := by omega
  have hlow : 0xF0 + k = 0xF0 ↔ k = 0 := by omega
  have hhigh : 0xF0 + k = 0xF4 ↔ k = 4 := by omega
  simp (disch := omega) only [feed, start, hb, if_true, if_neg, if_pos, hk, hlow, hhigh]

theorem feed_tail (hneed : 2 ≤ need) (hx : x < 64) (hlow : low ≤ 0x80 + x)
    (hhigh : 0x80 + x ≤ high) : feed ⟨need, acc, low, high⟩ (byte (0x80 + x)) =
      some (⟨need - 1, acc * 64 + x, 0x80, 0xBF⟩, none) := by
  have hb : (byte (0x80 + x)).val = 0x80 + x := val_byte (by omega)
  have hx' : 0x80 + x - 0x80 = x := by omega
  simp (disch := omega) only [feed, hb, if_neg, if_pos, hx']

theorem feed_last (hx : x < 64) (hlow : low ≤ 0x80 + x) (hhigh : 0x80 + x ≤ high) :
    feed ⟨1, acc, low, high⟩ (byte (0x80 + x)) =
      some (start, some (Fin.ofNat _ (acc * 64 + x))) := by
  have hb : (byte (0x80 + x)).val = 0x80 + x := val_byte (by omega)
  have hx' : 0x80 + x - 0x80 = x := by omega
  simp (disch := omega) only [feed, hb, if_neg, if_pos, hx', if_true]

theorem map_none {d : Decoder} (bs : Bytes) :
    ((d.run bs).map fun r => (r.1, (none : Option CodePoint).toList ++ r.2)) = d.run bs := by
  cases d.run bs <;> rfl

end Decoder

open Decoder in
/-- The decoder reads a code point back from its bytes. -/
theorem run_encodeChar (h : encodeChar c = some bs) (rest : Bytes) :
    Decoder.start.run (bs ++ rest) =
      (Decoder.start.run rest).map fun r => (r.1, c :: r.2) := by
  have hc := c.2
  unfold encodeChar at h
  dsimp only at h
  split_ifs at h with h₁ h₂ h₃ h₄
  · cases h
    have hb : (byte c.val).val = c.val := val_byte (by omega)
    have hfeed : Decoder.start.feed (byte c.val) = some (Decoder.start, some c) := by
      simp only [Decoder.feed, Decoder.start, hb, if_true, if_pos h₁, ofNat_val]
    exact run_cons hfeed rest
  · cases h
    have hvalue : c.val / 64 * 64 + c.val % 64 = c.val := by omega
    rw [List.cons_append, List.cons_append, run_cons (feed_two (by omega) (by omega)), map_none,
      run_cons (feed_last (by omega) (by omega) (by omega)), ofNat_eq hvalue]
    rfl
  · cases h
    have hvalue : (c.val / 4096 * 64 + c.val / 64 % 64) * 64 + c.val % 64 = c.val := by omega
    rw [List.cons_append, List.cons_append, List.cons_append, run_cons (feed_three (by omega)),
      map_none,
      run_cons (feed_tail (by omega) (by omega) (by split_ifs <;> omega) (by split_ifs <;> omega)),
      map_none, run_cons (feed_last (by omega) (by omega) (by omega)), ofNat_eq hvalue]
    rfl
  · cases h
    have hvalue : ((c.val / 262144 * 64 + c.val / 4096 % 64) * 64 + c.val / 64 % 64) * 64 +
        c.val % 64 = c.val := by omega
    rw [List.cons_append, List.cons_append, List.cons_append, List.cons_append,
      run_cons (feed_four (by omega)), map_none,
      run_cons (feed_tail (by omega) (by omega) (by split_ifs <;> omega) (by split_ifs <;> omega)),
      map_none, run_cons (feed_tail (by omega) (by omega) (by omega) (by omega)), map_none,
      run_cons (feed_last (by omega) (by omega) (by omega)), ofNat_eq hvalue]
    rfl

theorem run_encode (h : encode t = some bs) (rest : Bytes) :
    Decoder.start.run (bs ++ rest) = (Decoder.start.run rest).map fun r => (r.1, t ++ r.2) := by
  induction t generalizing bs with
  | nil =>
    cases h
    rw [List.nil_append]
    cases Decoder.start.run rest <;> rfl
  | cons c t ih =>
    simp only [encode] at h
    split at h
    · rename_i front back hfront hback
      cases h
      rw [List.append_assoc, run_encodeChar hfront, ih hback]
      cases Decoder.start.run rest <;> rfl
    · cases h

/-- What has been encoded decodes to itself. -/
theorem decode_encode (h : encode t = some bs) : decode bs = some t := by
  have hrun := run_encode h []
  rw [List.append_nil] at hrun
  have hread : Decoder.start.run bs = some (Decoder.start, t) := by
    rw [hrun]
    simp [Decoder.run]
  simp only [decode, hread]
  rfl

/-- ASCII is its own encoding. -/
theorem encode_ascii (h : Text.Ascii t) : encode t = some (t.map fun c => byte c.val) := by
  induction t with
  | nil => rfl
  | cons c t ih =>
    have hc := h c (by simp)
    have hrest := ih fun d hd => h d (by simp [hd])
    simp [encode, encodeChar, hc, hrest]

end Utf8

namespace Ascii

/-- The character of a byte. -/
def ofByte (b : Byte) : CodePoint := Fin.castLE (by omega) b

/-- `bs.decode("ascii")`, none where it raises. -/
def decode (bs : Bytes) : Option Text :=
  if ∀ b ∈ bs, b.val < 0x80 then some (bs.map ofByte) else none

/-- What decodes as ASCII encodes to the same bytes. -/
theorem encode_decode {bs : Bytes} {t : Text} (h : decode bs = some t) :
    Utf8.encode t = some bs := by
  unfold decode at h
  split_ifs at h with hascii
  cases h
  have hmap : Text.Ascii (bs.map ofByte) := by
    intro c hc
    obtain ⟨b, hb, rfl⟩ := List.mem_map.1 hc
    exact hascii b hb
  rw [Utf8.encode_ascii hmap, List.map_map]
  have hbytes : ∀ b ∈ bs, ((fun c : CodePoint => Utf8.byte c.val) ∘ ofByte) b = b := by
    intro b _
    exact Fin.ext (Nat.mod_eq_of_lt b.2)
  rw [List.map_congr_left hbytes, List.map_id']

end Ascii

end Py
