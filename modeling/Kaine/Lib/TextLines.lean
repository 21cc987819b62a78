import Kaine.Lib.Text

/-! Text files as Python reads them by line: bytes that are not UTF-8 are replaced, and every line
terminator counts. -/
namespace Py

namespace Utf8

/-- The character in place of bytes that are not UTF-8. -/
def replacement : CodePoint := CodePoint.ofNat 0xFFFD

/-- `bs.decode("utf-8", errors="replace")`, from a decoder between two bytes. -/
def Decoder.replace (d : Decoder) : Bytes → Text
  | [] => if d.need = 0 then [] else [replacement]
  | b :: bs =>
    match d.feed b with
    | some (d', c) => c.toList ++ d'.replace bs
    | none =>
      if d.need = 0 then replacement :: start.replace bs
      else
        -- The byte that does not go on with a character may begin another.
        match start.feed b with
        | some (d', c) => replacement :: c.toList ++ d'.replace bs
        | none => replacement :: replacement :: start.replace bs

def decodeReplace (bs : Bytes) : Text := Decoder.start.replace bs

/-- A number of a character that is no surrogate. -/
def IsScalar (n : ℕ) : Prop := n < 0xD800 ∨ (0xE000 ≤ n ∧ n < 0x110000)

/-- A decoder that comes from the start: the next byte of a character is no ASCII, and the character
will be no surrogate. -/
structure Decoder.Sound (d : Decoder) : Prop where
  low : 0x80 ≤ d.low
  bound : d.need ≤ 3
  one : d.need = 1 → ∀ x, d.low ≤ x → x ≤ d.high → IsScalar (d.acc * 64 + (x - 0x80))
  two : d.need = 2 → ∀ x y, d.low ≤ x → x ≤ d.high → y < 64 →
    IsScalar ((d.acc * 64 + (x - 0x80)) * 64 + y)
  three : d.need = 3 → ∀ x y z, d.low ≤ x → x ≤ d.high → y < 64 → z < 64 →
    IsScalar (((d.acc * 64 + (x - 0x80)) * 64 + y) * 64 + z)

theorem Decoder.Sound.start : Decoder.start.Sound where
  low := le_refl _
  bound := Nat.zero_le _
  one h := by cases h
  two h := by cases h
  three h := by cases h

/-- A byte that goes on leaves a sound decoder, and completes no surrogate. -/
theorem Decoder.Sound.feed {d d' : Decoder} {b : Byte} {c : Option CodePoint} (h : d.Sound)
    (hfeed : d.feed b = some (d', c)) : d'.Sound ∧ ∀ p ∈ c, IsScalar p.val := by
  obtain ⟨hlow, hbound, hone, htwo, hthree⟩ := h
  obtain ⟨need, acc, low, high⟩ := d
  unfold Decoder.feed at hfeed
  dsimp only at *
  by_cases hneed : need = 0
  · rw [if_pos hneed] at hfeed
    by_cases h1 : b.val < 0x80
    · rw [if_pos h1] at hfeed
      cases hfeed
      refine ⟨.start, ?_⟩
      intro p hp
      cases hp
      simp only [IsScalar, Fin.ofNat]
      omega
    rw [if_neg h1] at hfeed
    by_cases h2 : b.val < 0xC2
    · rw [if_pos h2] at hfeed
      cases hfeed
    rw [if_neg h2] at hfeed
    by_cases h3 : b.val < 0xE0
    · rw [if_pos h3] at hfeed
      cases hfeed
      refine ⟨⟨le_refl 0x80, ?_, ?_, by simp, by simp⟩, by simp⟩
      · show 1 ≤ 3
        decide
      · intro _ x hx hx'
        dsimp only at hx hx' ⊢
        simp only [IsScalar]
        omega
    rw [if_neg h3] at hfeed
    by_cases h4 : b.val < 0xF0
    · rw [if_pos h4] at hfeed
      cases hfeed
      refine ⟨⟨?_, ?_, by simp, ?_, by simp⟩, by simp⟩
      · dsimp only
        split <;> omega
      · show 2 ≤ 3
        decide
      · intro _ x y hx hx' hy
        dsimp only at hx hx' ⊢
        simp only [IsScalar]
        split at hx <;> split at hx' <;> omega
    rw [if_neg h4] at hfeed
    by_cases h5 : b.val < 0xF5
    · rw [if_pos h5] at hfeed
      cases hfeed
      refine ⟨⟨?_, le_refl 3, by simp, by simp, ?_⟩, by simp⟩
      · dsimp only
        split <;> omega
      · intro _ x y z hx hx' hy hz
        dsimp only at hx hx' ⊢
        simp only [IsScalar]
        split at hx <;> split at hx' <;> omega
    · rw [if_neg h5] at hfeed
      cases hfeed
  · rw [if_neg hneed] at hfeed
    by_cases hcont : low ≤ b.val ∧ b.val ≤ high
    · rw [if_pos hcont] at hfeed
      by_cases hlast : need = 1
      · rw [if_pos hlast] at hfeed
        cases hfeed
        refine ⟨.start, ?_⟩
        intro p hp
        rw [Option.mem_def, Option.some.injEq] at hp
        subst hp
        have hscalar := hone hlast b.val hcont.1 hcont.2
        simp only [IsScalar, Fin.ofNat] at hscalar ⊢
        omega
      · rw [if_neg hlast] at hfeed
        cases hfeed
        refine ⟨⟨le_refl 0x80, ?_, ?_, ?_, ?_⟩, by simp⟩
        · show need - 1 ≤ 3
          omega
        · intro hnext x hx hx'
          dsimp only at hnext hx hx' ⊢
          exact htwo (by omega) b.val (x - 0x80) hcont.1 hcont.2 (by omega)
        · intro hnext x y hx hx' hy
          dsimp only at hnext hx hx' ⊢
          exact hthree (by omega) b.val (x - 0x80) y hcont.1 hcont.2 (by omega) hy
        · intro hnext
          dsimp only at hnext
          omega
    · rw [if_neg hcont] at hfeed
      cases hfeed
theorem isScalar_replacement : IsScalar replacement.val := by
  simp only [IsScalar, replacement, CodePoint.ofNat, Fin.ofNat]
  omega

/-- Text that is read with replacement has no surrogates. -/
theorem Decoder.Sound.replace {d : Decoder} (h : d.Sound) (bs : Bytes) :
    ∀ p ∈ d.replace bs, IsScalar p.val := by
  induction bs generalizing d with
  | nil =>
    intro p hp
    unfold Decoder.replace at hp
    split_ifs at hp
    · cases hp
    · rw [List.mem_singleton.mp hp]
      exact isScalar_replacement
  | cons b bs ih =>
    have hgo {e d' : Decoder} {c : Option CodePoint} (he : e.Sound) (hfeed : e.feed b =
        some (d', c)) : ∀ p ∈ c.toList ++ d'.replace bs, IsScalar p.val := by
      obtain ⟨hsound, hchar⟩ := he.feed hfeed
      intro p hp
      rcases List.mem_append.mp hp with hp | hp
      · exact hchar p (Option.mem_toList.mp hp)
      · exact ih hsound p hp
    intro p hp
    unfold Decoder.replace at hp
    split at hp
    · rename_i hfeed
      exact hgo h hfeed p hp
    · split_ifs at hp
      · rcases List.mem_cons.mp hp with rfl | hp
        · exact isScalar_replacement
        · exact ih .start p hp
      · split at hp
        · rename_i hfeed
          rcases List.mem_cons.mp hp with rfl | hp
          · exact isScalar_replacement
          · exact hgo .start hfeed p hp
        · rcases List.mem_cons.mp hp with rfl | hp
          · exact isScalar_replacement
          · rcases List.mem_cons.mp hp with rfl | hp
            · exact isScalar_replacement
            · exact ih .start p hp

theorem isSome_encode {t : Text} (h : ∀ p ∈ t, IsScalar p.val) : (encode t).isSome = true := by
  induction t with
  | nil => rfl
  | cons c t ih =>
    obtain ⟨bs, hbs⟩ := Option.isSome_iff_exists.mp (ih fun p hp => h p (List.mem_cons_of_mem _ hp))
    have hc := h c List.mem_cons_self
    have hchar : (encodeChar c).isSome = true := by
      unfold encodeChar
      simp only [IsScalar] at hc
      dsimp only
      split_ifs
      · rfl
      · rfl
      · omega
      · rfl
      · rfl
    obtain ⟨cs, hcs⟩ := Option.isSome_iff_exists.mp hchar
    simp [encode, hbs, hcs]

theorem Decoder.feed_ascii {d : Decoder} {b : Byte} (hneed : d.need = 0) (hb : b.val < 0x80) :
    d.feed b = some (.start, some (Ascii.ofByte b)) := by
  have hval : Fin.ofNat 0x110000 b.val = Ascii.ofByte b := Fin.ext (Nat.mod_eq_of_lt (by omega))
  unfold Decoder.feed
  dsimp only
  rw [if_pos hneed, if_pos hb, hval]

/-- Replacement changes no ASCII. -/
theorem decodeReplace_ascii {bs : Bytes} (h : ∀ b ∈ bs, b.val < 0x80) :
    decodeReplace bs = bs.map Ascii.ofByte := by
  unfold decodeReplace
  induction bs with
  | nil => rfl
  | cons b bs ih =>
    have hrest := ih fun c hc => h c (List.mem_cons_of_mem _ hc)
    rw [Decoder.replace, Decoder.feed_ascii rfl (h b List.mem_cons_self), List.map_cons, ← hrest]
    rfl

theorem decodeReplace_encode {t : Text} (h : t.Ascii) :
    decodeReplace (t.map fun c => byte c.val) = t := by
  have hval : ∀ c ∈ t, (byte c.val).val = c.val := fun c hc => val_byte (by have := h c hc; omega)
  have hbytes : ∀ b ∈ t.map fun c => byte c.val, b.val < 0x80 := by
    intro b hb
    obtain ⟨c, hc, rfl⟩ := List.mem_map.mp hb
    rw [hval c hc]
    exact h c hc
  rw [decodeReplace_ascii hbytes, List.map_map]
  calc t.map (Ascii.ofByte ∘ fun c => byte c.val)
    _ = t.map id := List.map_congr_left fun c hc => Fin.ext (hval c hc)
    _ = t := List.map_id t

/-- After an ASCII byte a new character begins. -/
theorem Decoder.Sound.replace_ascii {d : Decoder} (h : d.Sound) {b : Byte} (hb : b.val < 0x80)
    (bs rest : Bytes) : ∃ front, d.replace (bs ++ b :: rest) = front ++ Ascii.ofByte b ::
      Decoder.start.replace rest ∧ d.replace (bs ++ [b]) = front ++ [Ascii.ofByte b] := by
  have hstart : Decoder.start.feed b = _ := Decoder.feed_ascii rfl hb
  induction bs generalizing d with
  | nil =>
    by_cases hneed : d.need = 0
    · have hfeed := Decoder.feed_ascii hneed hb
      refine ⟨[], ?_, ?_⟩ <;> simp [Decoder.replace, hfeed]
      rfl
    · have hfeed : d.feed b = none := by
        unfold Decoder.feed
        dsimp only
        rw [if_neg hneed, if_neg]
        rintro ⟨hlow, -⟩
        have hsound := h.low
        omega
      refine ⟨[replacement], ?_, ?_⟩ <;> simp [Decoder.replace, hfeed, hstart, hneed]
      rfl
  | cons a bs ih =>
    rw [List.cons_append, List.cons_append, Decoder.replace, Decoder.replace]
    cases hfeed : d.feed a with
    | some next =>
      obtain ⟨d', c⟩ := next
      obtain ⟨front, hall, hone⟩ := ih (h.feed hfeed).1
      exact ⟨c.toList ++ front, by simp [hall], by simp [hone]⟩
    | none =>
      dsimp only
      by_cases hneed : d.need = 0
      · obtain ⟨front, hall, hone⟩ := ih .start
        rw [if_pos hneed, if_pos hneed]
        exact ⟨replacement :: front, by simp [hall], by simp [hone]⟩
      · rw [if_neg hneed, if_neg hneed]
        cases hagain : Decoder.start.feed a with
        | some next =>
          obtain ⟨d', c⟩ := next
          obtain ⟨front, hall, hone⟩ := ih (Decoder.Sound.start.feed hagain).1
          exact ⟨replacement :: c.toList ++ front, by simp [hall], by simp [hone]⟩
        | none =>
          obtain ⟨front, hall, hone⟩ := ih .start
          exact ⟨replacement :: replacement :: front, by simp [hall], by simp [hone]⟩

/-- An ASCII byte ends the character before it, or there is none to decode. -/
theorem Decoder.Sound.run_ascii {d : Decoder} (h : d.Sound) {b : Byte} (hb : b.val < 0x80)
    (bs rest : Bytes) : d.run (bs ++ b :: rest) = (d.run bs).bind fun front =>
      if front.1.need = 0 then (Decoder.start.run rest).map fun back =>
        (back.1, front.2 ++ Ascii.ofByte b :: back.2)
      else none := by
  induction bs generalizing d with
  | nil =>
    rw [List.nil_append, Decoder.run, Decoder.run]
    by_cases hneed : d.need = 0
    · rw [Decoder.feed_ascii hneed hb, Option.bind_some, if_pos hneed]
      dsimp only
      cases Decoder.start.run rest <;> rfl
    · have hfeed : d.feed b = none := by
        unfold Decoder.feed
        dsimp only
        rw [if_neg hneed, if_neg]
        rintro ⟨hlow, -⟩
        have hsound := h.low
        omega
      rw [hfeed, Option.bind_some, if_neg hneed]
  | cons a bs ih =>
    rw [List.cons_append, Decoder.run, Decoder.run]
    cases hfeed : d.feed a with
    | none => rfl
    | some next =>
      obtain ⟨d', c⟩ := next
      dsimp only
      rw [ih (h.feed hfeed).1]
      cases d'.run bs with
      | none => rfl
      | some front =>
        dsimp only [Option.bind_some]
        by_cases hneed : front.1.need = 0
        · rw [if_pos hneed, if_pos hneed]
          cases Decoder.start.run rest <;> simp
        · rw [if_neg hneed, if_neg hneed]

/-- What stands before an ASCII byte decodes by itself, and so does what stands after it. -/
theorem decode_ascii_cons {b : Byte} (hb : b.val < 0x80) (bs rest : Bytes) :
    decode (bs ++ b :: rest) =
      (decode bs).bind fun front => (decode rest).map fun back =>
        front ++ Ascii.ofByte b :: back := by
  unfold decode
  rw [Decoder.Sound.start.run_ascii hb]
  cases Decoder.start.run bs with
  | none => rfl
  | some front =>
    obtain ⟨d, t⟩ := front
    dsimp only [Option.bind_some]
    by_cases hneed : d.need = 0
    · rw [if_pos hneed, if_pos hneed]
      cases Decoder.start.run rest with
      | none => rfl
      | some back =>
        obtain ⟨d', t'⟩ := back
        dsimp only [Option.map_some, Option.bind_some]
        by_cases hneed' : d'.need = 0
        · rw [if_pos hneed', if_pos hneed', Option.map_some]
        · rw [if_neg hneed', if_neg hneed', Option.map_none]
    · rw [if_neg hneed, if_neg hneed]
      rfl

end Utf8

namespace Text

def newline : CodePoint := CodePoint.ofNat 10
def carriageReturn : CodePoint := CodePoint.ofNat 13

/-- Universal newlines: each of the terminators `\n`, `\r` and `\r\n` as the first. -/
def universal : Text → Text
  | [] => []
  | [c] => [if c = carriageReturn then newline else c]
  | c :: d :: t =>
    if c = carriageReturn then newline :: if d = newline then universal t else universal (d :: t)
    else c :: universal (d :: t)

/-- The lines that newlines end, and what follows the last. -/
def splitLines : Text → List Text
  | [] => []
  | c :: t =>
    if c = newline then [] :: splitLines t
    else
      match splitLines t with
      | [] => [[c]]
      | line :: rest => (c :: line) :: rest

/-- The lines of a file, without their terminators. -/
def lines (t : Text) : List Text := splitLines (universal t)

/-- `line.strip()`. -/
def strip (t : Text) : Text :=
  ((t.dropWhile CodePoint.isSpace).reverse.dropWhile CodePoint.isSpace).reverse

theorem dropWhile_of_noSpace {t : Text} (h : ∀ c ∈ t, c.isSpace = false) :
    t.dropWhile CodePoint.isSpace = t := by
  cases t with
  | nil => rfl
  | cons c t => rw [List.dropWhile_cons_of_neg (by simp [h c List.mem_cons_self])]

theorem strip_of_noSpace {t : Text} (h : ∀ c ∈ t, c.isSpace = false) : strip t = t := by
  rw [strip, dropWhile_of_noSpace h, dropWhile_of_noSpace fun c hc => h c (List.mem_reverse.mp hc),
    List.reverse_reverse]

/-- A text that is one line. -/
def OneLine (t : Text) : Prop := ∀ c ∈ t, c ≠ newline ∧ c ≠ carriageReturn

theorem universal_append {t : Text} (h : OneLine t) (rest : Text) :
    universal (t ++ rest) = t ++ universal rest := by
  induction t with
  | nil => rfl
  | cons c t ih =>
    have hc := (h c List.mem_cons_self).2
    have hrest := ih fun d hd => h d (List.mem_cons_of_mem _ hd)
    rw [List.cons_append]
    cases hall : t ++ rest with
    | nil =>
      obtain ⟨rfl, rfl⟩ := List.append_eq_nil_iff.mp hall
      simp [universal, hc]
    | cons d more =>
      rw [universal, if_neg hc, ← hall, hrest]
      rfl

theorem universal_newline (rest : Text) :
    universal (newline :: rest) = newline :: universal rest := by
  have hne : newline ≠ carriageReturn := by decide
  cases rest with
  | nil => simp [universal, hne]
  | cons d rest => rw [universal, if_neg hne]

theorem splitLines_append {t : Text} (h : OneLine t) (rest : Text) :
    splitLines (t ++ newline :: rest) = t :: splitLines rest := by
  induction t with
  | nil => rw [List.nil_append, splitLines, if_pos rfl]
  | cons c t ih =>
    have hc := (h c List.mem_cons_self).1
    rw [List.cons_append, splitLines, if_neg hc, ih fun d hd => h d (List.mem_cons_of_mem _ hd)]

theorem lines_cons {t : Text} (h : OneLine t) (rest : Text) :
    lines (t ++ newline :: rest) = t :: lines rest := by
  unfold lines
  rw [universal_append h, universal_newline, splitLines_append h]

/-- Lines that are written with a newline each are read back. -/
theorem lines_written {written : List Text} (h : ∀ t ∈ written, OneLine t) :
    lines (written.flatMap (· ++ [newline])) = written := by
  induction written with
  | nil => rfl
  | cons t written ih =>
    rw [List.flatMap_cons, List.append_assoc, List.singleton_append,
      lines_cons (h t List.mem_cons_self), ih fun s hs => h s (List.mem_cons_of_mem _ hs)]

/-- After a newline a new line begins. -/
theorem splitLines_newline (t rest : Text) :
    splitLines (t ++ newline :: rest) = splitLines (t ++ [newline]) ++ splitLines rest := by
  induction t with
  | nil =>
    rw [List.nil_append, List.nil_append, splitLines, if_pos rfl, splitLines, if_pos rfl]
    rfl
  | cons c t ih =>
    rw [List.cons_append, List.cons_append, splitLines, splitLines, ih]
    split_ifs
    · rfl
    · have hsome : splitLines (t ++ [newline]) ≠ [] := by
        cases t with
        | nil => rw [List.nil_append, splitLines, if_pos rfl]; exact List.cons_ne_nil _ _
        | cons d t =>
          rw [List.cons_append, splitLines]
          split_ifs
          · exact List.cons_ne_nil _ _
          · split <;> exact List.cons_ne_nil _ _
      obtain ⟨line, more, hline⟩ := List.exists_cons_of_ne_nil hsome
      rw [hline]
      rfl

/-- A terminator: a newline, or a carriage return that no newline follows. -/
def EndsLine (c : CodePoint) (rest : Text) : Prop :=
  c = newline ∨ (c = carriageReturn ∧ rest.head? ≠ some newline)

theorem EndsLine.universal {c : CodePoint} {rest : Text} (h : EndsLine c rest) :
    universal (c :: rest) = newline :: universal rest := by
  rcases h with rfl | ⟨rfl, hhead⟩
  · exact universal_newline rest
  · cases rest with
    | nil => rfl
    | cons d rest =>
      have hd : d ≠ newline := fun hd => hhead (congrArg some hd)
      rw [Text.universal, if_pos rfl, if_neg hd]

theorem EndsLine.alone {c : CodePoint} {rest : Text} (h : EndsLine c rest) : EndsLine c [] := by
  rcases h with rfl | ⟨rfl, -⟩
  · exact .inl rfl
  · exact .inr ⟨rfl, Option.some_ne_none _ |>.symm⟩

/-- A terminator ends a line whatever comes before it. -/
theorem EndsLine.universal_snoc {c : CodePoint} {rest : Text} (h : EndsLine c rest) (t : Text) :
    ∃ front, Text.universal (t ++ c :: rest) = front ++ newline :: Text.universal rest ∧
      Text.universal (t ++ [c]) = front ++ [newline] := by
  have hall := h.universal
  have hone : Text.universal [c] = [newline] := h.alone.universal
  induction t using Text.universal.induct with
  | case1 => exact ⟨[], hall, hone⟩
  | case2 a =>
    by_cases ha : a = carriageReturn
    · by_cases hc : c = newline
      · exact ⟨[], by simp [Text.universal, ha, hc], by simp [Text.universal, ha, hc]⟩
      · refine ⟨[newline], ?_, ?_⟩
        · simp [Text.universal, ha, hc, hall]
        · have hne : carriageReturn ≠ newline := by decide
          simp [Text.universal, ha, (h.resolve_left hc).1, hne]
    · refine ⟨[a], ?_, ?_⟩
      · simp [Text.universal, ha, hall]
      · rw [List.singleton_append, Text.universal, if_neg ha, hone]
        rfl
  | case3 d t ihskip ih =>
    by_cases hd : d = newline
    · obtain ⟨front, hall, hone⟩ := ihskip
      exact ⟨newline :: front, by simp [Text.universal, hd, hall], by
        simp [Text.universal, hd, hone]⟩
    · obtain ⟨front, hall, hone⟩ := ih
      rw [List.cons_append] at hall hone
      exact ⟨newline :: front, by simp [Text.universal, hd, hall], by
        simp [Text.universal, hd, hone]⟩
  | case4 a d t ha ih =>
    obtain ⟨front, hall, hone⟩ := ih
    rw [List.cons_append] at hall hone
    exact ⟨a :: front, by simp [Text.universal, ha, hall], by simp [Text.universal, ha, hone]⟩

/-- The lines of a file to which lines are appended. -/
theorem EndsLine.lines_append {c : CodePoint} {rest : Text} (h : EndsLine c rest) (t : Text) :
    lines (t ++ c :: rest) = lines (t ++ [c]) ++ lines rest := by
  obtain ⟨front, hall, hone⟩ := h.universal_snoc t
  unfold lines
  rw [hall, hone, splitLines_newline]

theorem mem_universal {t : Text} {c : CodePoint} (hc : c ∈ universal t) : c = newline ∨ c ∈ t := by
  induction t using universal.induct with
  | case1 => exact .inr hc
  | case2 a =>
    rw [universal, List.mem_singleton] at hc
    split_ifs at hc
    · exact .inl hc
    · exact .inr (List.mem_singleton.mpr hc)
  | case3 d t ihskip ih =>
    rw [universal, if_pos rfl] at hc
    rcases List.mem_cons.mp hc with hc | hc
    · exact .inl hc
    · split_ifs at hc
      · exact (ihskip hc).imp_right fun h => List.mem_cons_of_mem _ (List.mem_cons_of_mem _ h)
      · exact (ih hc).imp_right (List.mem_cons_of_mem _)
  | case4 a d t ha ih =>
    rw [universal, if_neg ha] at hc
    rcases List.mem_cons.mp hc with rfl | hc
    · exact .inr List.mem_cons_self
    · exact (ih hc).imp_right (List.mem_cons_of_mem _)

theorem mem_splitLines {t line : Text} {c : CodePoint} (hline : line ∈ splitLines t)
    (hc : c ∈ line) : c ≠ newline ∧ c ∈ t := by
  induction t generalizing line with
  | nil => cases hline
  | cons a t ih =>
    rw [splitLines] at hline
    split_ifs at hline with ha
    · rcases List.mem_cons.mp hline with rfl | hline
      · cases hc
      · exact (ih hline hc).imp_right (List.mem_cons_of_mem _)
    · split at hline
      · rw [List.mem_singleton.mp hline, List.mem_singleton] at hc
        rw [hc]
        exact ⟨ha, List.mem_cons_self⟩
      · next first rest hsplit =>
        rw [hsplit] at ih
        rcases List.mem_cons.mp hline with rfl | hline
        · rcases List.mem_cons.mp hc with rfl | hc
          · exact ⟨ha, List.mem_cons_self⟩
          · exact (ih List.mem_cons_self hc).imp_right (List.mem_cons_of_mem _)
        · exact (ih (List.mem_cons_of_mem _ hline) hc).imp_right (List.mem_cons_of_mem _)

/-- The characters of a line are of the text. -/
theorem mem_lines {t line : Text} {c : CodePoint} (hline : line ∈ lines t)
    (hc : c ∈ line) : c ∈ t := by
  obtain ⟨hne, hmem⟩ := mem_splitLines hline hc
  exact (mem_universal hmem).resolve_left hne

end Text
end Py
