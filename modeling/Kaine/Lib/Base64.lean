import Kaine.Lib.Text
import Mathlib.Data.List.DropRight

/-! Base64 as Python's `base64` writes it, and as `binascii.a2b_base64` reads it, in strict mode and
without. -/
namespace Py.Base64
open Utf8 (byte val_byte)

/-- The character of six bits. -/
def sextet (n : ℕ) : Byte :=
  byte (if n < 26 then 65 + n else if n < 52 then 71 + n else if n < 62 then n - 4
    else if n = 62 then 43 else 47)

/-- The six bits of a character of the alphabet. -/
def value (b : Byte) : Option ℕ :=
  let n := b.val
  if 65 ≤ n ∧ n ≤ 90 then some (n - 65)
  else if 97 ≤ n ∧ n ≤ 122 then some (n - 71)
  else if 48 ≤ n ∧ n ≤ 57 then some (n + 4)
  else if n = 43 then some 62
  else if n = 47 then some 63
  else none

def pad : Byte := byte 61

def encode : Bytes → Bytes
  | [] => []
  | [a] => [sextet (a.val / 4), sextet (a.val % 4 * 16), pad, pad]
  | [a, b] =>
    [sextet (a.val / 4), sextet (a.val % 4 * 16 + b.val / 16), sextet (b.val % 16 * 4), pad]
  | a :: b :: c :: rest =>
    sextet (a.val / 4) :: sextet (a.val % 4 * 16 + b.val / 16) ::
      sextet (b.val % 16 * 4 + c.val / 64) :: sextet (c.val % 64) :: encode rest

/-- The reader's loop: the place in the quad, the bits left over from its last character, and the
padding read so far. `lax` lets padding after a full quad pass, as versions before 3.12.4 do. -/
def readQuads (lax : Bool) : (quadPos left pads : ℕ) → (padding : Bool) → Bytes → Option Bytes
  | quadPos, _, _, _, [] => if quadPos = 0 then some [] else none
  | quadPos, left, pads, padding, b :: rest =>
    if b = pad then
      if quadPos = 0 ∧ lax = false then none
      else if 2 ≤ quadPos then
        if 4 ≤ quadPos + (pads + 1) then if rest.isEmpty then some [] else none
        else readQuads lax quadPos left (pads + 1) true rest
      else readQuads lax quadPos left pads true rest
    else
      match value b with
      | none => none
      | some v =>
        if padding then none
        else
          match quadPos with
          | 0 => readQuads lax 1 v 0 false rest
          | 1 =>
            match readQuads lax 2 (v % 16) 0 false rest with
            | some bs => some (byte (left * 4 + v / 16) :: bs)
            | none => none
          | 2 =>
            match readQuads lax 3 (v % 4) 0 false rest with
            | some bs => some (byte (left * 16 + v / 4) :: bs)
            | none => none
          | _ =>
            match readQuads lax 0 0 0 false rest with
            | some bs => some (byte (left * 64 + v) :: bs)
            | none => none

/-- `base64.b64decode(bs, validate=True)`, none where it raises. -/
def decode (lax : Bool) (bs : Bytes) : Option Bytes :=
  if bs.head? = some pad then none else readQuads lax 0 0 0 false bs

variable {lax : Bool} {n : ℕ} {x rest : Bytes}

theorem val_sextet (h : n < 64) : (sextet n).val =
    if n < 26 then 65 + n else if n < 52 then 71 + n else if n < 62 then n - 4
      else if n = 62 then 43 else 47 := by
  refine val_byte ?_
  split_ifs <;> omega

theorem value_sextet (h : n < 64) : value (sextet n) = some n := by
  have hall : ∀ k : Fin 64, value (sextet k.val) = some k.val := by decide
  exact hall ⟨n, h⟩

theorem sextet_ne_pad (h : n < 64) : sextet n ≠ pad := by
  intro heq
  have hval := congrArg Fin.val heq
  rw [val_sextet h] at hval
  have hpad : pad.val = 61 := rfl
  rw [hpad] at hval
  split_ifs at hval <;> omega

/-- A character of six bits, at each of the places of a quad. -/
theorem readQuads_sextet (left : ℕ) (h : n < 64) (rest : Bytes) :
    readQuads lax 0 left 0 false (sextet n :: rest) = readQuads lax 1 n 0 false rest ∧
      readQuads lax 1 left 0 false (sextet n :: rest) =
        (readQuads lax 2 (n % 16) 0 false rest).map (byte (left * 4 + n / 16) :: ·) ∧
      readQuads lax 2 left 0 false (sextet n :: rest) =
        (readQuads lax 3 (n % 4) 0 false rest).map (byte (left * 16 + n / 4) :: ·) ∧
      readQuads lax 3 left 0 false (sextet n :: rest) =
        (readQuads lax 0 0 0 false rest).map (byte (left * 64 + n) :: ·) := by
  have hpad := sextet_ne_pad h
  have hvalue := value_sextet h
  refine ⟨?_, ?_, ?_, ?_⟩
  · simp [readQuads, hpad, hvalue]
  · simp only [readQuads, hpad, hvalue]
    cases readQuads lax 2 (n % 16) 0 false rest <;> rfl
  · simp only [readQuads, hpad, hvalue]
    cases readQuads lax 3 (n % 4) 0 false rest <;> rfl
  · simp only [readQuads, hpad, hvalue]
    cases readQuads lax 0 0 0 false rest <;> rfl

theorem readQuads_zero (h : n < 64) (rest : Bytes) :
    readQuads lax 0 0 0 false (sextet n :: rest) = readQuads lax 1 n 0 false rest :=
  (readQuads_sextet 0 h rest).1

theorem readQuads_one {left : ℕ} (h : n < 64) (rest : Bytes) :
    readQuads lax 1 left 0 false (sextet n :: rest) =
      (readQuads lax 2 (n % 16) 0 false rest).map (byte (left * 4 + n / 16) :: ·) :=
  (readQuads_sextet left h rest).2.1

theorem readQuads_two {left : ℕ} (h : n < 64) (rest : Bytes) :
    readQuads lax 2 left 0 false (sextet n :: rest) =
      (readQuads lax 3 (n % 4) 0 false rest).map (byte (left * 16 + n / 4) :: ·) :=
  (readQuads_sextet left h rest).2.2.1

theorem readQuads_three {left : ℕ} (h : n < 64) (rest : Bytes) :
    readQuads lax 3 left 0 false (sextet n :: rest) =
      (readQuads lax 0 0 0 false rest).map (byte (left * 64 + n) :: ·) :=
  (readQuads_sextet left h rest).2.2.2

theorem byte_eq {a : Byte} (h : n = a.val) : byte n = a := by
  rw [h]
  exact Fin.ext (val_byte a.2)

theorem readQuads_encode (lax : Bool) (x : Bytes) :
    readQuads lax 0 0 0 false (encode x) = some x := by
  induction x using encode.induct with
  | case1 => rfl
  | case2 a =>
    have ha := a.2
    have hvalue : a.val / 4 * 4 + a.val % 4 * 16 / 16 = a.val := by omega
    rw [encode, readQuads_zero (by omega), readQuads_one (by omega), byte_eq hvalue]
    rfl
  | case3 a b =>
    have ha := a.2
    have hb := b.2
    have hvalue : a.val / 4 * 4 + (a.val % 4 * 16 + b.val / 16) / 16 = a.val := by omega
    have hvalue' : (a.val % 4 * 16 + b.val / 16) % 16 * 16 + b.val % 16 * 4 / 4 = b.val := by omega
    rw [encode, readQuads_zero (by omega), readQuads_one (by omega), readQuads_two (by omega),
      byte_eq hvalue, byte_eq hvalue']
    rfl
  | case4 a b c rest ih =>
    have ha := a.2
    have hb := b.2
    have hc := c.2
    have hvalue : a.val / 4 * 4 + (a.val % 4 * 16 + b.val / 16) / 16 = a.val := by omega
    have hvalue' : (a.val % 4 * 16 + b.val / 16) % 16 * 16 + (b.val % 16 * 4 + c.val / 64) / 4 =
        b.val := by omega
    have hvalue'' : (b.val % 16 * 4 + c.val / 64) % 4 * 64 + c.val % 64 = c.val := by omega
    rw [encode, readQuads_zero (by omega), readQuads_one (by omega), readQuads_two (by omega),
      readQuads_three (by omega), ih, byte_eq hvalue, byte_eq hvalue', byte_eq hvalue'']
    rfl

theorem head?_encode_ne_pad (x : Bytes) : (encode x).head? ≠ some pad := by
  intro h
  rcases x with _ | ⟨a, _ | ⟨b, _ | ⟨c, rest⟩⟩⟩
  · cases h
  all_goals
    have ha := a.2
    exact sextet_ne_pad (by omega) (Option.some.inj h)

/-- What has been encoded is read back. -/
theorem decode_encode (lax : Bool) (x : Bytes) : decode lax (encode x) = some x := by
  rw [decode, if_neg (head?_encode_ne_pad x), readQuads_encode lax]

theorem length_encode (x : Bytes) : (encode x).length = (x.length + 2) / 3 * 4 := by
  induction x using encode.induct with
  | case1 => rfl
  | case2 a => simp [encode]
  | case3 a b => simp [encode]
  | case4 a b c rest ih =>
    simp only [encode, List.length_cons, ih]
    omega

/-- The encoding is of ASCII characters. -/
theorem encode_ascii (x : Bytes) : ∀ b ∈ encode x, b.val < 0x80 := by
  have hsextet : ∀ n, (sextet n).val < 0x80 := by
    intro n
    unfold sextet
    rw [val_byte] <;> split_ifs <;> omega
  have hpad : pad.val < 0x80 := by decide
  induction x using encode.induct with
  | case1 => simp [encode]
  | case2 a => simp [encode, hsextet, hpad]
  | case3 a b => simp [encode, hsextet, hpad]
  | case4 a b c rest ih => simpa [encode, hsextet] using ih

/-- What reads is of the alphabet or padding. -/
theorem readQuads_alphabet {quadPos left pads : ℕ} {padding : Bool} {bs : Bytes}
    (h : readQuads lax quadPos left pads padding bs = some x) :
    ∀ b ∈ bs, b = pad ∨ (value b).isSome = true := by
  induction bs generalizing quadPos left pads padding x with
  | nil => simp
  | cons b rest ih =>
    have hcons (hb : b = pad ∨ (value b).isSome = true) (hrest : ∀ c ∈ rest, c = pad ∨
        (value c).isSome = true) : ∀ c ∈ b :: rest, c = pad ∨ (value c).isSome = true := by
      intro c hc
      rcases List.mem_cons.mp hc with rfl | hc
      · exact hb
      · exact hrest c hc
    unfold readQuads at h
    by_cases hb : b = pad
    · rw [if_pos hb] at h
      refine hcons (.inl hb) ?_
      split_ifs at h with _ _ _ hend
      · rw [List.isEmpty_iff.mp hend]
        simp
      · exact ih h
      · exact ih h
    · rw [if_neg hb] at h
      cases hv : value b with
      | none =>
        rw [hv] at h
        cases h
      | some v =>
        rw [hv] at h
        refine hcons (.inr (Option.isSome_of_eq_some hv)) ?_
        cases padding with
        | true => cases h
        | false =>
          dsimp only at h
          rw [if_neg Bool.false_ne_true] at h
          split at h
          · exact ih h
          all_goals
            split at h
            · next hread => exact ih hread
            · cases h

theorem decode_alphabet {bs : Bytes} (h : decode lax bs = some x) :
    ∀ b ∈ bs, b = pad ∨ (value b).isSome = true := by
  unfold decode at h
  split_ifs at h
  exact readQuads_alphabet h

/-- The characters of the alphabet. -/
theorem isSome_value_iff {b : Byte} : (value b).isSome = true ↔ b.val = 43 ∨ b.val = 47 ∨
    (48 ≤ b.val ∧ b.val ≤ 57) ∨ (65 ≤ b.val ∧ b.val ≤ 90) ∨ (97 ≤ b.val ∧ b.val ≤ 122) := by
  unfold value
  dsimp only
  split_ifs <;> simp <;> omega

/-- The characters of the alphabet and the padding. -/
theorem val_of_alphabet {b : Byte} (h : b = pad ∨ (value b).isSome = true) : b.val = 43 ∨
    (47 ≤ b.val ∧ b.val ≤ 57) ∨ b.val = 61 ∨ (65 ≤ b.val ∧ b.val ≤ 90) ∨
      (97 ≤ b.val ∧ b.val ≤ 122) := by
  rcases h with rfl | h
  · exact .inr (.inr (.inl rfl))
  · rw [isSome_value_iff] at h
    omega

/-- The reader's loop without `validate`: characters outside the alphabet are skipped, and what
follows the padding that completes a quad is not read. -/
def readLoose : (quadPos left pads : ℕ) → Bytes → Option Bytes
  | quadPos, _, _, [] => if quadPos = 0 then some [] else none
  | quadPos, left, pads, b :: rest =>
    if b = pad then
      if 2 ≤ quadPos then
        if 4 ≤ quadPos + (pads + 1) then some [] else readLoose quadPos left (pads + 1) rest
      else readLoose quadPos left pads rest
    else
      match value b with
      | none => readLoose quadPos left pads rest
      | some v =>
        match quadPos with
        | 0 => readLoose 1 v 0 rest
        | 1 => (readLoose 2 (v % 16) 0 rest).map (byte (left * 4 + v / 16) :: ·)
        | 2 => (readLoose 3 (v % 4) 0 rest).map (byte (left * 16 + v / 4) :: ·)
        | _ => (readLoose 0 0 0 rest).map (byte (left * 64 + v) :: ·)

/-- `base64.b64decode(bs)`, none where it raises. -/
def decodeLoose (bs : Bytes) : Option Bytes := readLoose 0 0 0 bs

/-- The characters of the alphabet. -/
def data (bs : Bytes) : Bytes := bs.filter fun b => (value b).isSome

/-- What follows the last character of the alphabet. -/
def sinceData (bs : Bytes) : Bytes := bs.rtakeWhile fun b => (value b).isNone

/-- A padding behind these characters completes a quad. -/
def ClosesQuad (before : Bytes) : Prop :=
  (data before).length % 4 = 3 ∨ ((data before).length % 4 = 2 ∧ pad ∈ sinceData before)

/-- No padding among these characters completes a quad. -/
def Unclosed (before : Bytes) : Prop := ∀ front back, before = front ++ pad :: back →
    ¬ ClosesQuad front

/-- The padding that completes a quad comes right after `n` characters of the alphabet. -/
def ClosesAfter (n : ℕ) (bs : Bytes) : Prop :=
  ∃ before after, bs = before ++ pad :: after ∧ (data before).length = n ∧ Unclosed before

section loose

variable {quadPos left pads v : ℕ} {padding : Bool} {b : Byte} {bs before : Bytes}

theorem value_pad : value pad = none := rfl

theorem ne_pad_of_value (h : value b = some v) : b ≠ pad := by
  rintro rfl
  rw [value_pad] at h
  cases h

/-- A character of the alphabet moves on to the next place of the quad. -/
theorem readLoose_value (left pads : ℕ) (h : value b = some v) (hplace : quadPos < 4) :
    ∃ left' out, out.length = (if quadPos = 0 then 0 else 1) ∧
      ∀ rest, readLoose quadPos left pads (b :: rest) =
        (readLoose ((quadPos + 1) % 4) left' 0 rest).map (out ++ ·) := by
  have hpad := ne_pad_of_value h
  match quadPos, hplace with
  | 0, _ =>
    refine ⟨v, [], rfl, fun rest => ?_⟩
    rw [readLoose, if_neg hpad, h]
    change readLoose 1 v 0 rest = (readLoose 1 v 0 rest).map ([] ++ ·)
    cases readLoose 1 v 0 rest <;> rfl
  | 1, _ =>
    refine ⟨v % 16, [byte (left * 4 + v / 16)], rfl, fun rest => ?_⟩
    rw [readLoose, if_neg hpad, h]
    rfl
  | 2, _ =>
    refine ⟨v % 4, [byte (left * 16 + v / 4)], rfl, fun rest => ?_⟩
    rw [readLoose, if_neg hpad, h]
    rfl
  | 3, _ =>
    refine ⟨0, [byte (left * 64 + v)], rfl, fun rest => ?_⟩
    rw [readLoose, if_neg hpad, h]
    rfl

theorem readLoose_junk (left pads : ℕ) (hpad : b ≠ pad) (h : value b = none) (rest : Bytes) :
    readLoose quadPos left pads (b :: rest) = readLoose quadPos left pads rest := by
  rw [readLoose, if_neg hpad, h]

/-- What the strict reader takes is read the same without `validate`. -/
theorem readLoose_of_readQuads (h : readQuads lax quadPos left pads padding bs = some x) :
    readLoose quadPos left pads bs = some x := by
  induction bs generalizing quadPos left pads padding x with
  | nil => exact h
  | cons b rest ih =>
    unfold readQuads at h
    unfold readLoose
    by_cases hb : b = pad
    · rw [if_pos hb] at h ⊢
      split_ifs at h ⊢
      · exact h
      · exact ih h
      · exact ih h
    · rw [if_neg hb] at h ⊢
      cases hv : value b with
      | none =>
        rw [hv] at h
        cases h
      | some v =>
        rw [hv] at h
        cases padding with
        | true => cases h
        | false =>
          dsimp only at h ⊢
          rw [if_neg Bool.false_ne_true] at h
          split at h
          · exact ih h
          all_goals
            split at h
            · next hread =>
              rw [ih hread]
              exact h
            · cases h

theorem data_cons : data (b :: bs) = if (value b).isSome = true then b :: data bs else data bs := by
  unfold data
  rw [List.filter_cons]

theorem data_eq_self (h : ∀ b ∈ bs, (value b).isSome = true) : data bs = bs :=
  List.filter_eq_self.mpr h

theorem decodeLoose_encode (x : Bytes) : decodeLoose (encode x) = some x :=
  readLoose_of_readQuads (readQuads_encode true x)

theorem data_concat : data (before ++ [b]) = if (value b).isSome = true then data before ++ [b]
    else data before := by
  unfold data
  rw [List.filter_append]
  cases h : (value b).isSome <;> simp [h]

theorem sinceData_concat :
    sinceData (before ++ [b]) = if (value b).isNone = true then sinceData before ++ [b] else [] :=
  List.rtakeWhile_concat _ _ _

theorem unclosed_concat :
    Unclosed (before ++ [b]) ↔ Unclosed before ∧ (b = pad → ¬ ClosesQuad before) := by
  constructor
  · intro h
    refine ⟨fun front back hbefore => ?_, fun hb => h before [] (by rw [hb])⟩
    refine h front (back ++ [b]) ?_
    rw [hbefore, List.append_assoc, List.cons_append]
  · rintro ⟨hbefore, hlast⟩ front back hsplit
    rcases List.eq_nil_or_concat back with rfl | ⟨back, c, rfl⟩
    · obtain ⟨rfl, hb⟩ := List.append_inj' hsplit rfl
      exact hlast (List.singleton_inj.mp hb)
    · rw [List.concat_eq_append, ← List.cons_append, ← List.append_assoc] at hsplit
      exact hbefore front back (List.append_inj' hsplit rfl).1

/-- One more character before the completing padding. -/
theorem closesAfter_cons {n : ℕ} (hopen : Unclosed before) (b : Byte) (rest : Bytes) :
    (∃ front back, b :: rest = front ++ pad :: back ∧ (data (before ++ front)).length = n ∧
        Unclosed (before ++ front)) ↔
      (b = pad ∧ (data before).length = n) ∨
        ∃ front back, rest = front ++ pad :: back ∧ (data (before ++ [b] ++ front)).length = n ∧
          Unclosed (before ++ [b] ++ front) := by
  constructor
  · rintro ⟨front, back, hsplit, hcount, hfront⟩
    cases front with
    | nil =>
      rw [List.append_nil] at hcount
      exact .inl ⟨(List.cons_eq_cons.mp hsplit).1, hcount⟩
    | cons c front =>
      obtain ⟨rfl, hrest⟩ := List.cons_eq_cons.mp hsplit
      rw [List.append_cons] at hcount hfront
      exact .inr ⟨front, back, hrest, hcount, hfront⟩
  · rintro (⟨rfl, hcount⟩ | ⟨front, back, rfl, hcount, hfront⟩)
    · exact ⟨[], rest, rfl, by rwa [List.append_nil], by rwa [List.append_nil]⟩
    · rw [← List.append_cons] at hcount hfront
      exact ⟨b :: front, back, rfl, hcount, hfront⟩

/-- Each character but the first of a quad completes a byte. -/
theorem bytes_succ (n : ℕ) : n * 3 / 4 + (if n % 4 = 0 then 0 else 1) = (n + 1) * 3 / 4 := by
  have hplace : n % 4 = 0 ∨ n % 4 = 1 ∨ n % 4 = 2 ∨ n % 4 = 3 := by omega
  rcases hplace with h | h | h | h
  · rw [if_pos h]
    omega
  all_goals
    rw [if_neg (by omega)]
    omega

/-- The reading of what follows `before` comes to the bytes of `n` characters, three of them in the
last quad, exactly where the completing padding is. -/
theorem readLoose_iff {n : ℕ} (hn : n % 4 = 3) (bs before : Bytes) (left pads : ℕ)
    (hopen : Unclosed before) (hpads : (data before).length % 4 = 2 →
      (1 ≤ pads ↔ pad ∈ sinceData before)) :
    (∃ x, readLoose ((data before).length % 4) left pads bs = some x ∧
        (data before).length * 3 / 4 + x.length = n * 3 / 4) ↔
      ∃ front back, bs = front ++ pad :: back ∧ (data (before ++ front)).length = n ∧
        Unclosed (before ++ front) := by
  induction bs generalizing before left pads with
  | nil =>
    constructor
    · rintro ⟨x, hread, hlength⟩
      unfold readLoose at hread
      split_ifs at hread with hplace
      cases hread
      rw [List.length_nil] at hlength
      omega
    · rintro ⟨front, back, hnil, -⟩
      cases front <;> cases hnil
  | cons b rest ih =>
    rw [closesAfter_cons hopen]
    by_cases hb : b = pad
    · subst hb
      by_cases hcloses : ClosesQuad before
      · have hread : readLoose ((data before).length % 4) left pads (pad :: rest) = some [] := by
          rw [readLoose, if_pos rfl]
          rcases hcloses with hplace | ⟨hplace, hpadded⟩
          · rw [if_pos (by omega), if_pos (by omega)]
          · have hone := (hpads hplace).mpr hpadded
            rw [if_pos (by omega), if_pos (by omega)]
        have hplace : (data before).length % 4 = 3 ∨ (data before).length % 4 = 2 :=
          hcloses.imp_right And.left
        constructor
        · rintro ⟨x, hx, hlength⟩
          cases hread.symm.trans hx
          rw [List.length_nil] at hlength
          exact .inl ⟨rfl, by omega⟩
        · rintro (⟨-, hcount⟩ | ⟨front, back, -, -, hfront⟩)
          · exact ⟨[], hread, by rw [hcount]; rfl⟩
          · exact absurd hcloses (hfront before front
              (by rw [List.append_assoc, List.singleton_append]))
      · have hcount : (data (before ++ [pad])).length = (data before).length := by
          rw [data_concat, value_pad]
          rfl
        have hsince : pad ∈ sinceData (before ++ [pad]) := by
          rw [sinceData_concat, value_pad]
          exact List.mem_append_right _ List.mem_cons_self
        have hopen' : Unclosed (before ++ [pad]) := unclosed_concat.mpr ⟨hopen, fun _ => hcloses⟩
        have hne : ¬ (data before).length % 4 = 3 := fun hplace => hcloses (.inl hplace)
        have hnext := ih (before ++ [pad])
        rw [hcount] at hnext
        have hdrop : ∀ P : Prop, (pad = pad ∧ (data before).length = n) ∨ P ↔ P := fun P =>
          or_iff_right fun h => hne (by rw [h.2, hn])
        rw [hdrop]
        rw [readLoose, if_pos rfl]
        split_ifs with htwo hfour
        · have hplace : (data before).length % 4 = 2 := by omega
          exact absurd (.inr ⟨hplace, (hpads hplace).mp (by omega)⟩) hcloses
        · exact hnext left (pads + 1) hopen' fun _ => ⟨fun _ => hsince, fun _ => by omega⟩
        · exact hnext left pads hopen' fun hplace => by omega
    · have hopen' : Unclosed (before ++ [b]) := unclosed_concat.mpr ⟨hopen, fun h => absurd h hb⟩
      rw [or_iff_right fun h => hb h.1]
      cases hv : value b with
      | none =>
        have hcount : data (before ++ [b]) = data before := by
          rw [data_concat, hv]
          rfl
        have hnext := ih (before ++ [b]) left pads hopen'
        rw [hcount] at hnext
        rw [readLoose_junk left pads hb hv]
        refine hnext fun hplace => (hpads hplace).trans ?_
        rw [sinceData_concat, hv]
        simp [Ne.symm hb]
      | some v =>
        have hcount : (data (before ++ [b])).length = (data before).length + 1 := by
          rw [data_concat, hv]
          simp
        obtain ⟨left', out, hout, hstep⟩ :=
          readLoose_value left pads hv (Nat.mod_lt (data before).length (by omega))
        have hnext := ih (before ++ [b]) left' 0 hopen' fun _ => by
          rw [sinceData_concat, hv]
          simp
        have hplace : ((data before).length % 4 + 1) % 4 = ((data before).length + 1) % 4 := by
          omega
        have hbytes : (data before).length * 3 / 4 + out.length =
          ((data before).length + 1) * 3 / 4 := by
          rw [hout, bytes_succ]
        rw [hcount] at hnext
        rw [hstep, hplace, ← hnext]
        constructor
        · rintro ⟨x, hx, hlength⟩
          obtain ⟨y, hy, rfl⟩ := Option.map_eq_some_iff.mp hx
          rw [List.length_append] at hlength
          exact ⟨y, hy, by omega⟩
        · rintro ⟨y, hy, hlength⟩
          refine ⟨out ++ y, by rw [hy]; rfl, ?_⟩
          rw [List.length_append]
          omega

theorem unclosed_of_notMem (h : pad ∉ before) : Unclosed before := by
  rintro front back rfl
  exact absurd (List.mem_append_right _ List.mem_cons_self) h

/-- What is read has the length of `n` characters exactly where they come before the completing
padding. -/
theorem decodeLoose_iff {n : ℕ} (hn : n % 4 = 3) :
    (∃ x, decodeLoose bs = some x ∧ x.length = n * 3 / 4) ↔ ClosesAfter n bs := by
  have hread := readLoose_iff hn bs [] 0 0 (unclosed_of_notMem List.not_mem_nil)
    (by intro h; cases h)
  simpa [ClosesAfter, decodeLoose, data] using hread

/-- Where the padding is all behind, everything before it counts. -/
theorem ClosesAfter.length_data_le {n : ℕ} {pads : Bytes} (h : ClosesAfter n (bs ++ pads))
    (hpad : pad ∉ bs) : (data bs).length ≤ n := by
  obtain ⟨before, after, hsplit, hcount, -⟩ := h
  rcases List.append_eq_append_iff.mp hsplit with ⟨more, rfl, -⟩ | ⟨more, rfl, hmore⟩
  · rw [← hcount, data, data, List.filter_append, List.length_append]
    exact Nat.le_add_right _ _
  · cases more with
    | nil =>
      rw [← hcount, List.append_nil]
    | cons c more =>
      rw [List.cons_append] at hmore
      rw [(List.cons_eq_cons.mp hmore).1] at hpad
      exact absurd (List.mem_append_right _ List.mem_cons_self) hpad

end loose

end Py.Base64
