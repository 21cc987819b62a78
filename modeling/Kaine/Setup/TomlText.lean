import Kaine.Setup.TomlWriter
import Mathlib.Data.List.TakeWhile

/-! The keys and values that the writer formats are read back, but for a bare key beyond ASCII. -/
namespace Kaine.TomlWriter
open Toml

variable {F : Type} {floats : FloatText F} {beyond : Char → Bool} {c : Char} {key : String}
  {rest : List Char}

section Strings

theorem hexValue_hexDigit : ∀ d < 16, hexValue (hexDigit d) = some d := by decide

theorem scalarChar_toNat (c : Char) : scalarChar c.toNat = some c := by
  have hvalid : c.toNat.isValidChar := c.valid
  rw [scalarChar, if_pos hvalid, Char.ofNat_toNat]

theorem hexNumber_toNat {n : ℕ} (h : n < 65536) : hexNumber 0
    [hexDigit (n / 4096 % 16), hexDigit (n / 256 % 16), hexDigit (n / 16 % 16),
      hexDigit (n % 16)] = some n := by
  have hdigit : ∀ m, hexValue (hexDigit (m % 16)) = some (m % 16) :=
    fun m => hexValue_hexDigit _ (Nat.mod_lt _ (by decide))
  simp only [hexNumber, hdigit, Option.bind_some]
  congr 1
  omega

theorem parseBasicStr_escapeChar (c : Char) (rest : List Char) :
    parseBasicStr (escapeChar c ++ rest) = (parseBasicStr rest).map fun r => (c :: r.1, r.2) := by
  unfold escapeChar
  split_ifs with hslash hquote hnewline htab hreturn hcontrol
  · subst hslash
    rfl
  · subst hquote
    rfl
  · subst hnewline
    rfl
  · subst htab
    rfl
  · subst hreturn
    rfl
  · have hnumber := hexNumber_toNat (n := c.toNat) (by omega)
    simp only [List.cons_append, List.nil_append, parseBasicStr, hnumber, Option.bind_some,
      scalarChar_toNat]
  · have hlegal : isIllegal c = false := by
      simp only [isIllegal, Bool.or_eq_false_iff, Bool.and_eq_false_iff, decide_eq_false_iff_not]
      exact ⟨.inl fun h => hcontrol (.inl h), fun h => hcontrol (.inr h)⟩
    rw [List.singleton_append, parseBasicStr]
    · rw [if_neg (by simp [hslash, hlegal])]
    all_goals first | exact hquote | (intros; exact hslash ‹_›)

theorem parseBasicStr_formatStr (s : List Char) (rest : List Char) :
    parseBasicStr (s.flatMap escapeChar ++ '"' :: rest) = some (s, rest) := by
  induction s with
  | nil => rfl
  | cons c s ih =>
    rw [List.flatMap_cons, List.append_assoc, parseBasicStr_escapeChar, ih, Option.map_some]

end Strings

section Scanning

/-- A text that goes on with no character of a kind. -/
def Stops (p : Char → Bool) (t : List Char) : Prop := ∀ c, t.head? = some c → p c = false

variable {p : Char → Bool} {t s : List Char}

theorem Stops.takeWhile (h : Stops p t) : t.takeWhile p = [] := by
  cases t with
  | nil => rfl
  | cons c t => rw [List.takeWhile_cons, h c rfl, if_neg Bool.false_ne_true]

theorem Stops.dropWhile (h : Stops p t) : t.dropWhile p = t := by
  cases t with
  | nil => rfl
  | cons c t => rw [List.dropWhile_cons, h c rfl, if_neg Bool.false_ne_true]

theorem Stops.takeWhile_append (h : Stops p t) (hs : ∀ c ∈ s, p c = true) :
    (s ++ t).takeWhile p = s := by
  rw [List.takeWhile_append_of_pos hs, h.takeWhile, List.append_nil]

theorem Stops.dropWhile_append (h : Stops p t) (hs : ∀ c ∈ s, p c = true) :
    (s ++ t).dropWhile p = t := by
  rw [List.dropWhile_append_of_pos hs, h.dropWhile]

/-- Letters, digits, hyphens and underscores, and all that is beyond ASCII. -/
theorem isWs_false (h : c.isAlphanum = true ∨ c = '-' ∨ c = '_' ∨ 0x80 ≤ c.toNat) :
    isWs c = false := by
  by_contra hws
  rw [Bool.not_eq_false, isWs, Bool.or_eq_true, decide_eq_true_eq, decide_eq_true_eq] at hws
  rcases hws with rfl | rfl
  all_goals
    rcases h with h | h | h | h
    all_goals exact absurd h (by decide)

end Scanning

section Keys

/-- A key that is written bare only where TOML reads it so. -/
def KeySafe (beyond : Char → Bool) (key : String) : Prop :=
  key.toList.all (fun c => isalnum beyond c || c = '_' || c = '-') = true →
    ∀ c ∈ key.toList, c.toNat < 0x80

theorem isAlphanum_lt (h : c.isAlphanum = true) : c.toNat < 0x80 := by
  delta Char.isAlphanum Char.isAlpha Char.isUpper Char.isLower Char.isDigit at h
  simp only [Bool.or_eq_true, Bool.and_eq_true, decide_eq_true_eq, ge_iff_le,
    UInt32.le_iff_toNat_le] at h
  change ((65 ≤ c.toNat ∧ c.toNat ≤ 90) ∨ (97 ≤ c.toNat ∧ c.toNat ≤ 122)) ∨
    (48 ≤ c.toNat ∧ c.toNat ≤ 57) at h
  omega

theorem isBareKeyChar_lt (h : isBareKeyChar c = true) : c.toNat < 0x80 := by
  rw [isBareKeyChar, Bool.or_eq_true, Bool.or_eq_true, decide_eq_true_eq, decide_eq_true_eq] at h
  rcases h with (h | rfl) | rfl
  · exact isAlphanum_lt h
  · decide
  · decide

theorem isBareKeyChar_of_ascii (h : (isalnum beyond c || c = '_' || c = '-') = true)
    (hlt : c.toNat < 0x80) : isBareKeyChar c = true := by
  simp only [Bool.or_eq_true, decide_eq_true_eq, isalnum, Bool.and_eq_true] at h
  simp only [isBareKeyChar, Bool.or_eq_true, decide_eq_true_eq]
  rcases h with ((h | h) | h) | h
  · exact .inl (.inl h)
  · omega
  · exact .inr h
  · exact .inl (.inr h)

theorem formatKey_bare (hne : key ≠ "")
    (hall : key.toList.all (fun c => isalnum beyond c || c = '_' || c = '-') = true) :
    formatKey beyond key = key.toList := if_pos ⟨hne, hall⟩

/-- A safe key is read back, up to what follows it. -/
theorem parseKeyPart_formatKey {t : List Char} (hsafe : KeySafe beyond key)
    (ht : Stops isBareKeyChar t) : parseKeyPart (formatKey beyond key ++ t) = some (key, t) := by
  by_cases hbare : key ≠ "" ∧ key.toList.all (fun c => isalnum beyond c || c = '_' ||
    c = '-') = true
  · rw [formatKey, if_pos hbare]
    have hall : ∀ c ∈ key.toList, isBareKeyChar c = true := fun c hc =>
      isBareKeyChar_of_ascii (List.all_eq_true.mp hbare.2 c hc) (hsafe hbare.2 c hc)
    have htake := ht.takeWhile_append hall
    have hdrop := ht.dropWhile_append hall
    cases hkey : key.toList with
    | nil => exact absurd (String.toList_eq_nil_iff.mp hkey) hbare.1
    | cons c cs =>
      rw [hkey] at hall htake hdrop
      rw [List.cons_append] at htake hdrop ⊢
      rw [parseKeyPart, if_pos (hall c List.mem_cons_self), htake, hdrop, ← hkey,
        String.ofList_toList]
  · rw [formatKey, if_neg hbare, formatStr, List.cons_append, parseKeyPart, if_neg (by decide),
      if_pos rfl, List.append_assoc, List.singleton_append, parseBasicStr_formatStr,
      Option.map_some, String.ofList_toList]

/-- A bare key that goes beyond ASCII stops its reader there. -/
theorem parseKeyPart_refused (hrefused : ¬KeySafe beyond key) (t : List Char) :
    parseKeyPart (formatKey beyond key ++ t) = none ∨
      ∃ part c rest, parseKeyPart (formatKey beyond key ++ t) = some (part, c :: rest) ∧
        0x80 ≤ c.toNat := by
  obtain ⟨hall, hbeyond⟩ := Classical.not_imp.mp hrefused
  obtain ⟨d, hd, hge⟩ : ∃ d ∈ key.toList, ¬d.toNat < 0x80 := by
    by_contra hnone
    exact hbeyond fun c hc => not_not.mp fun hge => hnone ⟨c, hc, hge⟩
  have hne : key ≠ "" := by
    rintro rfl
    cases hd
  rw [formatKey_bare hne hall]
  cases hrest : key.toList.dropWhile isBareKeyChar with
  | nil =>
    have hbare := List.dropWhile_eq_nil_iff.mp hrest d hd
    exact absurd (isBareKeyChar_lt hbare) hge
  | cons e rest =>
    have hstop : isBareKeyChar e = false := by
      have hhead := List.head?_dropWhile_not isBareKeyChar key.toList
      rw [hrest] at hhead
      simpa using hhead
    have hmem : e ∈ key.toList := List.dropWhile_subset _ (hrest ▸ List.mem_cons_self)
    have hfar : 0x80 ≤ e.toNat := by
      by_contra hnear
      have hbare := isBareKeyChar_of_ascii (List.all_eq_true.mp hall e hmem) (by omega)
      rw [hstop] at hbare
      cases hbare
    have hdrop : (key.toList ++ t).dropWhile isBareKeyChar = e :: (rest ++ t) := by
      rw [List.dropWhile_append, hrest]
      rfl
    cases hkey : key.toList with
    | nil => exact absurd (String.toList_eq_nil_iff.mp hkey) hne
    | cons c cs =>
      rw [hkey] at hdrop hrest
      rw [List.cons_append] at hdrop ⊢
      rw [parseKeyPart]
      by_cases hfirst : isBareKeyChar c = true
      · rw [if_pos hfirst, hdrop]
        exact .inr ⟨_, e, _, rfl, hfar⟩
      · have hsame : c = e := by
          rw [List.dropWhile_cons, if_neg hfirst] at hrest
          exact (List.cons.inj hrest).1
        have hquote : c ≠ '"' := by
          rintro rfl
          rw [← hsame] at hfar
          exact absurd hfar (by decide)
        rw [if_neg hfirst, if_neg hquote]
        exact .inl rfl

/-- A formatted key begins as no white space and no end of a line does. -/
theorem formatKey_head (beyond : Char → Bool) (key : String) :
    ∃ c cs, formatKey beyond key = c :: cs ∧ isWs c = false ∧ c ≠ '\n' ∧ c ≠ '[' := by
  by_cases hbare : key ≠ "" ∧ key.toList.all (fun c => isalnum beyond c || c = '_' ||
    c = '-') = true
  · rw [formatKey, if_pos hbare]
    cases hkey : key.toList with
    | nil => exact absurd (String.toList_eq_nil_iff.mp hkey) hbare.1
    | cons c cs =>
      have hc := List.all_eq_true.mp hbare.2 c (hkey ▸ List.mem_cons_self)
      simp only [Bool.or_eq_true, decide_eq_true_eq, isalnum, Bool.and_eq_true] at hc
      have hkind : c.isAlphanum = true ∨ c = '-' ∨ c = '_' ∨ 0x80 ≤ c.toNat := by
        rcases hc with ((h | h) | h) | h
        · exact .inl h
        · exact .inr (.inr (.inr h.1))
        · exact .inr (.inr (.inl h))
        · exact .inr (.inl h)
      refine ⟨c, cs, rfl, isWs_false hkind, ?_, ?_⟩
      all_goals
        rintro rfl
        rcases hkind with h | h | h | h
        all_goals exact absurd h (by decide)
  · rw [formatKey, if_neg hbare]
    exact ⟨'"', _, rfl, by decide, by decide, by decide⟩

theorem skipWs_of_head {c : Char} {cs : List Char} (h : isWs c = false) :
    skipWs (c :: cs) = c :: cs := by
  rw [skipWs, List.dropWhile_cons, h, if_neg Bool.false_ne_true]

/-- The formatted parts of a dotted key. -/
def joinKeys (beyond : Char → Bool) (keys : List String) : List Char :=
  List.intercalate ['.'] (keys.map (formatKey beyond))

theorem joinKeys_single (beyond : Char → Bool) (key : String) :
    joinKeys beyond [key] = formatKey beyond key := by
  simp [joinKeys]

theorem joinKeys_cons (beyond : Char → Bool) (key next : String) (keys : List String) :
    joinKeys beyond (key :: next :: keys) = formatKey beyond key ++ '.' :: joinKeys beyond
      (next :: keys) := by
  simp [joinKeys, List.intercalate]

theorem joinKeys_head (beyond : Char → Bool) (key : String) (keys : List String) :
    ∃ c cs, joinKeys beyond (key :: keys) = c :: cs ∧ isWs c = false ∧ c ≠ '\n' ∧ c ≠ '[' := by
  obtain ⟨c, cs, hkey, hc⟩ := formatKey_head beyond key
  cases keys with
  | nil => exact ⟨c, cs, by rw [joinKeys_single, hkey], hc⟩
  | cons next keys => exact ⟨c, _, by rw [joinKeys_cons, hkey, List.cons_append], hc⟩

theorem length_le_joinKeys (beyond : Char → Bool) (keys : List String) :
    keys.length ≤ (joinKeys beyond keys).length := by
  induction keys with
  | nil => exact Nat.zero_le _
  | cons key keys ih =>
    obtain ⟨c, cs, hkey, -⟩ := formatKey_head beyond key
    cases keys with
    | nil => simp [joinKeys_single, hkey]
    | cons next keys =>
      simp only [joinKeys_cons, hkey, List.length_append, List.length_cons] at ih ⊢
      omega

/-- Behind a safe part and a dot, the reader goes on. -/
theorem parseKey_dot (hkey : KeySafe beyond key) (next : String) (keys : List String)
    (t : List Char) (fuel : ℕ) :
    parseKey (fuel + 1) (joinKeys beyond (key :: next :: keys) ++ t) =
      (parseKey fuel (joinKeys beyond (next :: keys) ++ t)).map fun more =>
        (key :: more.1, more.2) := by
  obtain ⟨c, cs, hnext, hws, -⟩ := joinKeys_head beyond next keys
  have hstop : Stops isBareKeyChar ('.' :: (joinKeys beyond (next :: keys) ++ t)) := by
    intro d hd
    rw [← Option.some.inj hd]
    decide
  have hskip : skipWs (joinKeys beyond (next :: keys) ++ t) =
    joinKeys beyond (next :: keys) ++ t := by
    rw [hnext, List.cons_append, skipWs_of_head hws]
  rw [joinKeys_cons, List.append_assoc, List.cons_append, parseKey,
    parseKeyPart_formatKey hkey hstop, Option.bind_some, skipWs_of_head (by decide),
    List.head?_cons, if_pos rfl, List.drop_succ_cons, List.drop_zero, hskip]

/-- Safe parts are read back as one key, up to what follows it. -/
theorem parseKey_joinKeys {keys : List String} (hne : keys ≠ [])
    (hsafe : ∀ key ∈ keys, KeySafe beyond key) {t : List Char} (ht : Stops isBareKeyChar t)
    (hdot : (skipWs t).head? ≠ some '.') {fuel : ℕ}
    (hfuel : keys.length ≤ fuel) :
    parseKey fuel (joinKeys beyond keys ++ t) = some (keys, skipWs t) := by
  induction keys generalizing fuel with
  | nil => exact absurd rfl hne
  | cons key keys ih =>
    cases fuel with
    | zero => cases hfuel
    | succ fuel =>
      have hkey := hsafe key List.mem_cons_self
      cases keys with
      | nil =>
        rw [joinKeys_single, parseKey, parseKeyPart_formatKey hkey ht, Option.bind_some,
          if_neg hdot]
      | cons next keys =>
        have hrest := ih (List.cons_ne_nil _ _) (fun k hk => hsafe k (List.mem_cons_of_mem _ hk))
          (Nat.le_of_succ_le_succ hfuel)
        rw [parseKey_dot hkey, hrest, Option.map_some]

/-- A part that goes beyond ASCII stops the reader of the key. -/
theorem parseKey_refused {keys : List String} (hrefused : ∃ key ∈ keys, ¬KeySafe beyond key)
    (t : List Char) (fuel : ℕ) :
    parseKey fuel (joinKeys beyond keys ++ t) = none ∨
      ∃ read c rest, parseKey fuel (joinKeys beyond keys ++ t) = some (read, c :: rest) ∧
        0x80 ≤ c.toNat := by
  induction keys generalizing fuel with
  | nil =>
    obtain ⟨key, hkey, -⟩ := hrefused
    cases hkey
  | cons key keys ih =>
    cases fuel with
    | zero => exact .inl rfl
    | succ fuel =>
      obtain ⟨more, hmore⟩ : ∃ more, joinKeys beyond (key :: keys) ++ t =
        formatKey beyond key ++ more := by
        cases keys with
        | nil => exact ⟨t, by rw [joinKeys_single]⟩
        | cons next keys =>
          exact ⟨'.' :: (joinKeys beyond (next :: keys) ++ t), by simp [joinKeys_cons]⟩
      by_cases hkey : KeySafe beyond key
      · cases keys with
        | nil =>
          obtain ⟨k, hk, hbad⟩ := hrefused
          rw [List.mem_singleton.mp hk] at hbad
          exact absurd hkey hbad
        | cons next keys =>
          have hlater : ∃ k ∈ next :: keys, ¬KeySafe beyond k := by
            obtain ⟨k, hk, hbad⟩ := hrefused
            rcases List.mem_cons.mp hk with rfl | hk
            · exact absurd hkey hbad
            · exact ⟨k, hk, hbad⟩
          rw [parseKey_dot hkey]
          rcases ih hlater fuel with hnone | ⟨read, d, rest, hsome, hfar⟩
          · rw [hnone]
            exact .inl rfl
          · rw [hsome]
            exact .inr ⟨_, d, rest, rfl, hfar⟩
      · rw [hmore, parseKey]
        rcases parseKeyPart_refused hkey more with hnone | ⟨part, d, rest, hsome, hfar⟩
        · rw [hnone]
          exact .inl rfl
        · have hws : isWs d = false := isWs_false (.inr (.inr (.inr hfar)))
          have hdot : (skipWs (d :: rest)).head? ≠ some '.' := by
            rw [skipWs_of_head hws]
            intro h
            rw [Option.some.inj h] at hfar
            exact absurd hfar (by decide)
          rw [hsome, Option.bind_some, if_neg hdot, skipWs_of_head hws]
          exact .inr ⟨_, d, rest, rfl, hfar⟩

end Keys

section Numbers

/-- A text that stands behind a value: a comma, a bracket, the end of the line, or none. -/
def Ends (t : List Char) : Prop := ∀ c, t.head? = some c → c = ',' ∨ c = ']' ∨ c = '\n'

variable {t sign whole fraction exponent : List Char}

theorem Ends.stops (ht : Ends t) : Stops Char.isDigit t := by
  intro c hc
  rcases ht c hc with rfl | rfl | rfl <;> rfl

theorem Ends.head_ne (ht : Ends t)
    (h : ¬(c = ',' ∨ c = ']' ∨ c = '\n')) : t.head? ≠ some c := fun hc => h (ht c hc)

theorem head_toDigits {n : ℕ} (h : 0 < n) : (Nat.toDigits 10 n).head? ≠ some '0' := by
  induction n using Nat.strong_induction_on with
  | _ n ih =>
    by_cases hsmall : n < 10
    · rw [Nat.toDigits_of_lt_base hsmall]
      intro hzero
      interval_cases n <;> simp [Nat.digitChar] at hzero
    · rw [Nat.toDigits_of_base_le (by decide) (by omega),
        List.head?_append_of_ne_nil _ Nat.toDigits_ne_nil]
      exact ih (n / 10) (by omega) (by omega)

theorem whole_toDigits (n : ℕ) : Nat.toDigits 10 n ≠ [] ∧
    (∀ c ∈ Nat.toDigits 10 n, c.isDigit = true) ∧ ((Nat.toDigits 10 n).head? = some '0' →
      Nat.toDigits 10 n = ['0']) := by
  refine ⟨Nat.toDigits_ne_nil, fun c hc => Nat.isDigit_of_mem_toDigits (by decide) (by decide) hc,
    ?_⟩
  intro hzero
  rcases Nat.eq_zero_or_pos n with rfl | hpos
  · exact Nat.toDigits_zero 10
  · exact absurd hzero (head_toDigits hpos)

theorem wholeOf_append (hne : whole ≠ []) (hdigits : ∀ c ∈ whole, c.isDigit = true)
    (hzero : whole.head? = some '0' → whole = ['0']) (ht : Stops Char.isDigit t) :
    wholeOf (whole ++ t) =
      whole := by
  rw [wholeOf, List.head?_append_of_ne_nil _ hne]
  split_ifs with hhead
  · exact (hzero hhead).symm
  · exact ht.takeWhile_append hdigits

theorem digit_head (hne : whole ≠ []) (hdigits : ∀ c ∈ whole, c.isDigit = true) (t : List Char) :
    ∃ c, (whole ++ t).head? = some c ∧ c.isDigit = true := by
  cases whole with
  | nil => exact absurd rfl hne
  | cons c cs => exact ⟨c, rfl, hdigits c List.mem_cons_self⟩

theorem digit_ne {d : Char} (hdigit : c.isDigit = true) (hd : d.isDigit = false) : c ≠ d := by
  rintro rfl
  rw [hdigit] at hd
  cases hd

theorem signOf_append (hsign : sign = [] ∨ sign = ['-']) {u : List Char}
    (hu : ∃ c, u.head? = some c ∧ c ≠ '-' ∧ c ≠ '+') : signOf (sign ++ u) = sign := by
  rcases hsign with rfl | rfl
  · obtain ⟨c, hc, hminus, hplus⟩ := hu
    simp [signOf, hc, hminus, hplus]
  · rfl

/-- A number by its parts, where each is found in what is left. -/
theorem parseNumber_parts (floats : FloatText F) (fraction exponent : List Char)
    (hsign : sign = [] ∨ sign = ['-']) (hne : whole ≠ [])
    (hdigits : ∀ c ∈ whole, c.isDigit = true) (hzero : whole.head? = some '0' → whole = ['0'])
    (hstop : Stops Char.isDigit (fraction ++ (exponent ++ t)))
    (hfraction : fractionOf (fraction ++ (exponent ++ t)) = fraction)
    (hexponent : exponentOf (exponent ++ t) = exponent) :
    signOf (sign ++ (whole ++ (fraction ++ (exponent ++ t)))) = sign ∧
      wholeOf (whole ++ (fraction ++ (exponent ++ t))) = whole ∧
      parseNumber floats (sign ++ (whole ++ (fraction ++ (exponent ++ t)))) =
        if fraction = [] ∧ exponent = [] then
          if intMaxStrDigits < whole.length then none
          else some (.int (if sign =
            ['-'] then -(Nat.ofDigitChars 10 whole 0 : ℤ) else Nat.ofDigitChars 10 whole 0),
            fraction ++ (exponent ++ t))
        else some (.float (floats.ofText (sign ++ (whole ++ (fraction ++ exponent)))), t) := by
  obtain ⟨c, hc, hdigit⟩ := digit_head hne hdigits (fraction ++ (exponent ++ t))
  have hsigned := signOf_append hsign ⟨c, hc, digit_ne hdigit (by decide),
    digit_ne hdigit (by decide)⟩
  have hwhole := wholeOf_append hne hdigits hzero hstop
  refine ⟨hsigned, hwhole, ?_⟩
  have hlast : List.drop (fraction.length + exponent.length) (fraction ++ (exponent ++ t)) = t := by
    rw [← List.append_assoc, ← List.length_append, List.drop_left]
  simp only [parseNumber, hsigned, List.drop_left, hwhole, hfraction, hexponent, if_neg hne, hlast]

theorem fractionOf_nil {t : List Char} (h : t.head? ≠ some '.') :
    fractionOf t = [] := if_neg fun hdot => h hdot.1

theorem exponentOf_nil {t : List Char} (h : t.head? ≠ some 'e') (h' : t.head? ≠ some 'E') :
    exponentOf t = [] :=
  if_neg fun he => he.1.elim h h'

theorem parseScalar_number (hsign : sign = [] ∨ sign = ['-']) (hne : whole ≠ [])
    (hdigits : ∀ c ∈ whole, c.isDigit = true) (hsigned : signOf (sign ++ (whole ++ t)) = sign)
    (hwhole : wholeOf (whole ++ t) = whole) :
    parseScalar floats (sign ++ (whole ++ t)) = parseNumber floats (sign ++ (whole ++ t)) := by
  obtain ⟨d, hd, hdigit⟩ : ∃ d, (sign ++ (whole ++ t)).head? = some d ∧
    (d = '-' ∨ d.isDigit = true) := by
    rcases hsign with rfl | rfl
    · obtain ⟨c, hc, hdigit⟩ := digit_head hne hdigits t
      exact ⟨c, hc, .inr hdigit⟩
    · exact ⟨'-', rfl, .inl rfl⟩
  have hother : ∀ e : Char, e ≠ '-' → e.isDigit = false → d ≠ e := by
    rintro e hminus he rfl
    rcases hdigit with h | h
    · exact hminus h
    · exact digit_ne h he rfl
  have hprefix : ∀ (e : Char) (es : List Char), e ≠ d →
    (e :: es).isPrefixOf (sign ++ (whole ++ t)) = false := by
    intro e es he
    cases hsrc : sign ++ (whole ++ t) with
    | nil => rfl
    | cons c cs =>
      rw [hsrc] at hd
      rw [Option.some.inj hd]
      simp [List.isPrefixOf, he]
  have hquote : (sign ++ (whole ++ t)).head? ≠ some '"' := by
    rw [hd]
    exact fun h => hother '"' (by decide) (by decide) (Option.some.inj h)
  have htrue := hprefix 't' ['r', 'u', 'e'] (hother 't' (by decide) (by decide)).symm
  have hfalse := hprefix 'f' ['a', 'l', 's', 'e'] (hother 'f' (by decide) (by decide)).symm
  rw [parseScalar, if_neg hquote, htrue, if_neg Bool.false_ne_true, hfalse,
    if_neg Bool.false_ne_true, hsigned, List.drop_left, hwhole, if_pos hne]

/-- An integer is read back where it is written. -/
theorem parseScalar_int {n : ℤ} {text : List Char} (h : formatInt n = some text) (ht : Ends t) :
    parseScalar floats (text ++ t) = some (.int n, t) := by
  obtain ⟨hne, hdigits, hzero⟩ := whole_toDigits n.natAbs
  obtain ⟨sign, hsign, hiff, hlong, rfl⟩ : ∃ sign : List Char, (sign = [] ∨ sign = ['-']) ∧
      (sign = ['-'] ↔ n < 0) ∧ ¬intMaxStrDigits < (Nat.toDigits 10 n.natAbs).length ∧
      text = sign ++ Nat.toDigits 10 n.natAbs := by
    simp only [formatInt] at h
    split_ifs at h with hlong hneg
    · exact ⟨['-'], .inr rfl, ⟨fun _ => hneg, fun _ => rfl⟩, hlong, (Option.some.inj h).symm⟩
    · exact ⟨[], .inl rfl, ⟨fun h => (by cases h), fun h => absurd h hneg⟩, hlong,
        (Option.some.inj h).symm⟩
  have hparts := parseNumber_parts floats [] [] hsign hne hdigits hzero
    ht.stops (fractionOf_nil (ht.head_ne (by decide)))
    (exponentOf_nil (ht.head_ne (by decide)) (ht.head_ne (by decide)))
  simp only [List.nil_append, true_and, if_true, if_neg hlong, Nat.ofDigitChars_ten_toDigits]
    at hparts
  obtain ⟨hsigned, hwhole, hnumber⟩ := hparts
  have hvalue : (if sign = ['-'] then -(n.natAbs : ℤ) else n.natAbs) = n := by
    by_cases hneg : n < 0
    · rw [if_pos (hiff.mpr hneg)]
      omega
    · rw [if_neg fun hs => hneg (hiff.mp hs)]
      omega
  rw [List.append_assoc, parseScalar_number hsign hne hdigits hsigned hwhole, hnumber, hvalue]

theorem fractionOf_text (d : Decimal) {u : List Char} (hstop : Stops Char.isDigit u)
    (hdot : u.head? ≠ some '.') :
    fractionOf (d.fractionText ++ u) = d.fractionText := by
  by_cases hnone : d.fraction = []
  · rw [Decimal.fractionText, if_pos hnone]
    exact fractionOf_nil hdot
  · rw [Decimal.fractionText, if_neg hnone, List.cons_append, fractionOf, List.head?_cons,
      List.drop_succ_cons, List.drop_zero, hstop.takeWhile_append d.fraction_digits,
      if_pos ⟨rfl, hnone⟩]

theorem exponentOf_text (d : Decimal) (ht : Ends t) :
    exponentOf (d.exponentText ++ t) = d.exponentText := by
  unfold Decimal.exponentText
  cases hexponent : d.exponent with
  | none => exact exponentOf_nil (ht.head_ne (by decide)) (ht.head_ne (by decide))
  | some e =>
    obtain ⟨negative, digits⟩ := e
    obtain ⟨hne, hdigits⟩ := d.exponent_digits _ hexponent
    have htake := ht.stops.takeWhile_append hdigits
    cases negative with
    | true => simp [exponentOf, signOf, htake, hne]
    | false => simp [exponentOf, signOf, htake, hne]

/-- The digits of a number end where its fraction, its exponent or the value behind it begins. -/
theorem exponentText_head (d : Decimal) (ht : Ends t) :
    ∀ c, (d.exponentText ++ t).head? = some c → c = 'e' ∨ c = ',' ∨ c = ']' ∨ c = '\n' := by
  unfold Decimal.exponentText
  intro c hc
  cases hexponent : d.exponent with
  | none =>
    rw [hexponent] at hc
    exact .inr (ht c hc)
  | some e =>
    rw [hexponent] at hc
    exact .inl (Option.some.inj hc).symm

/-- A finite float is read back by what `repr` says of it. -/
theorem parseScalar_decimal (d : Decimal) (ht : Ends t) :
    parseScalar floats (d.text ++ t) = some (.float (floats.ofText d.text), t) := by
  have hsign : d.signText = [] ∨ d.signText = ['-'] := by
    unfold Decimal.signText
    cases d.negative with
    | true => exact .inr rfl
    | false => exact .inl rfl
  have hexponent := exponentText_head d ht
  have hstop : Stops Char.isDigit (d.exponentText ++ t) := by
    intro c hc
    rcases hexponent c hc with rfl | rfl | rfl | rfl <;> rfl
  have hdot : (d.exponentText ++ t).head? ≠ some '.' :=
    fun hc => absurd (hexponent '.' hc) (by decide)
  have hfraction := fractionOf_text d hstop hdot
  have hstop' : Stops Char.isDigit (d.fractionText ++ (d.exponentText ++ t)) := by
    unfold Decimal.fractionText
    split_ifs
    · exact hstop
    · intro c hc
      rw [← Option.some.inj hc]
      rfl
  obtain ⟨hsigned, hwhole, hnumber⟩ := parseNumber_parts floats _ _ hsign d.whole_ne d.whole_digits
    d.whole_head hstop' hfraction (exponentOf_text d ht)
  have hreal : ¬(d.fractionText = [] ∧ d.exponentText = []) := by
    rintro ⟨hnofraction, hnoexponent⟩
    rcases d.real with h | h
    · rw [Decimal.fractionText, if_neg h] at hnofraction
      cases hnofraction
    · obtain ⟨e, he⟩ := Option.isSome_iff_exists.mp h
      rw [Decimal.exponentText, he] at hnoexponent
      cases hnoexponent
  rw [if_neg hreal] at hnumber
  rw [Decimal.text, List.append_assoc, List.append_assoc, List.append_assoc,
    parseScalar_number hsign d.whole_ne d.whole_digits hsigned hwhole, hnumber]

end Numbers

section Values

variable {t text : List Char} {value : Value F} {xs : List (Value F)}

theorem parseScalar_posInf (floats : FloatText F) (t : List Char) :
    parseScalar floats (['i', 'n', 'f'] ++ t) = some (.float (floats.ofText ['i', 'n', 'f']),
      t) := by
  simp [parseScalar, signOf, wholeOf, specialFloats, List.isPrefixOf]

theorem parseScalar_negInf (floats : FloatText F) (t : List Char) :
    parseScalar floats (['-', 'i', 'n', 'f'] ++ t) =
      some (.float (floats.ofText ['-', 'i', 'n', 'f']), t) := by
  simp [parseScalar, signOf, wholeOf, specialFloats, List.isPrefixOf]

theorem escapeChar_head (c : Char) : ∃ d ds, escapeChar c = d :: ds ∧ d ≠ '"' := by
  unfold escapeChar
  split_ifs with hslash hquote
  case pos => exact ⟨_, _, rfl, by decide⟩
  case pos => exact ⟨_, _, rfl, by decide⟩
  case neg => exact ⟨c, [], rfl, hquote⟩
  all_goals exact ⟨_, _, rfl, by decide⟩

/-- A formatted string on one line is none on several. -/
theorem not_multiline (s : List Char) (ht : Ends t) :
    ['"', '"', '"'].isPrefixOf ('"' :: (s.flatMap escapeChar ++ '"' :: t)) = false := by
  cases s with
  | nil =>
    cases t with
    | nil => rfl
    | cons c t =>
      have hc : '"' ≠ c := by
        rintro rfl
        exact absurd (ht '"' rfl) (by decide)
      simp [List.isPrefixOf, hc]
  | cons c s =>
    obtain ⟨d, ds, hd, hne⟩ := escapeChar_head c
    simp [List.isPrefixOf, hd, hne.symm]

theorem parseScalar_str (s : String) (ht : Ends t) :
    parseScalar floats (formatStr s ++ t) = some (.str s, t) := by
  rw [formatStr, List.cons_append, List.append_assoc, List.singleton_append, parseScalar,
    List.head?_cons, if_pos rfl, not_multiline _ ht, if_neg Bool.false_ne_true, List.drop_succ_cons,
    List.drop_zero, parseBasicStr_formatStr, Option.map_some, String.ofList_toList]

/-- What stands for one value in a document is read back as that value. -/
theorem parseScalar_formatItem (hfloat : ∀ x, value = .float x → floats.kind x ≠ .nan)
    (h : formatItem floats value = some text) (ht : Ends t) : parseScalar floats (text ++ t) =
      some (value, t) := by
  cases value with
  | bool b =>
    cases h
    cases b <;> rfl
  | int n => exact parseScalar_int h ht
  | float x =>
    cases h
    have hback := floats.ofText_repr (hfloat x rfl)
    cases hkind : floats.kind x with
    | finite =>
      obtain ⟨d, hd⟩ := floats.repr_finite hkind
      rw [hd] at hback ⊢
      rw [parseScalar_decimal d ht, hback]
    | posInf =>
      rw [floats.repr_posInf hkind] at hback ⊢
      rw [parseScalar_posInf, hback]
    | negInf =>
      rw [floats.repr_negInf hkind] at hback ⊢
      rw [parseScalar_negInf, hback]
    | nan => exact absurd hkind (hfloat x rfl)
  | str s =>
    cases h
    exact parseScalar_str s ht
  | _ => cases h

/-- A formatted value begins as no white space, no bracket and no end of a line does. -/
theorem formatItem_head (hfloat : ∀ x, value = .float x → floats.kind x ≠ .nan)
    (h : formatItem floats value = some text) :
    ∃ c cs, text = c :: cs ∧ isWs c = false ∧ c ≠ '\n' ∧ c ≠ '[' ∧ c ≠ ']' := by
  have hnumber : ∀ (sign whole rest : List Char), (sign = [] ∨ sign = ['-']) → whole ≠ [] →
      (∀ c ∈ whole, c.isDigit = true) →
      ∃ c cs, sign ++ (whole ++ rest) = c :: cs ∧ isWs c = false ∧ c ≠ '\n' ∧
        c ≠ '[' ∧ c ≠ ']' := by
    rintro sign whole rest (rfl | rfl) hne hdigits
    · cases whole with
      | nil => exact absurd rfl hne
      | cons c cs =>
        have hdigit := hdigits c List.mem_cons_self
        refine ⟨c, cs ++ rest, rfl, isWs_false (.inl ?_), digit_ne hdigit (by decide),
          digit_ne hdigit (by decide),
          digit_ne hdigit (by decide)⟩
        rw [Char.isAlphanum, hdigit, Bool.or_true]
    · exact ⟨'-', whole ++ rest, rfl, by decide, by decide, by decide, by decide⟩
  cases value with
  | bool b =>
    cases h
    cases b <;> exact ⟨_, _, rfl, by decide, by decide, by decide, by decide⟩
  | int n =>
    obtain ⟨hne, hdigits, -⟩ := whole_toDigits n.natAbs
    simp only [formatItem, formatInt] at h
    split_ifs at h with hlong hneg
    · rw [← Option.some.inj h]
      simpa using hnumber ['-'] _ [] (.inr rfl) hne hdigits
    · rw [← Option.some.inj h]
      simpa using hnumber [] _ [] (.inl rfl) hne hdigits
  | float x =>
    cases h
    cases hkind : floats.kind x with
    | finite =>
      obtain ⟨d, hd⟩ := floats.repr_finite hkind
      rw [hd, Decimal.text]
      refine hnumber _ _ _ ?_ d.whole_ne d.whole_digits
      unfold Decimal.signText
      cases d.negative with
      | true => exact .inr rfl
      | false => exact .inl rfl
    | posInf =>
      rw [floats.repr_posInf hkind]
      exact ⟨_, _, rfl, by decide, by decide, by decide, by decide⟩
    | negInf =>
      rw [floats.repr_negInf hkind]
      exact ⟨_, _, rfl, by decide, by decide, by decide, by decide⟩
    | nan => exact absurd hkind (hfloat x rfl)
  | str s =>
    cases h
    exact ⟨_, _, rfl, by decide, by decide, by decide, by decide⟩
  | _ => cases h

/-- A string, a bool, an integer, or a float that is no NaN. -/
def IsItem (floats : FloatText F) : Value F → Prop
  | .bool _ | .int _ | .str _ => True
  | .float x => floats.kind x ≠ .nan
  | _ => False

theorem IsItem.float (h : IsItem floats value) : ∀ x, value = .float x → floats.kind x ≠ .nan := by
  rintro x rfl
  exact h

theorem skipArrayWs_of_head {c : Char} {cs : List Char} (hws : isWs c = false)
    (hnewline : c ≠ '\n') : skipArrayWs (c :: cs) = c :: cs := by
  rw [skipArrayWs, List.dropWhile_cons, if_neg]
  simp [hws, hnewline]

/-- Formatted items are read back, up to the bracket behind them. -/
theorem parseItems_format {texts : List (List Char)} (hitems : ∀ x ∈ xs, IsItem floats x)
    (h : List.Forall₂ (fun x text => formatItem floats x = some text) xs texts) (hne : xs ≠ [])
    (t : List Char)
    {fuel : ℕ} (hfuel : xs.length ≤ fuel) :
    parseItems floats fuel (List.intercalate [',', ' '] texts ++ ']' :: t) = some (xs, t) := by
  induction h generalizing fuel with
  | nil => exact absurd rfl hne
  | @cons x text xs texts hx hrest ih =>
    cases fuel with
    | zero => cases hfuel
    | succ fuel =>
      have hitem := (hitems x List.mem_cons_self).float
      obtain ⟨c, cs, htext, -, -, -, hbracket⟩ := formatItem_head hitem hx
      have hhead : ∀ more, (text ++ more).head? ≠ some ']' := by
        intro more h
        rw [htext] at h
        exact hbracket (Option.some.inj h)
      cases hrest with
      | nil =>
        have hends : Ends (']' :: t) := fun d hd => .inr (.inl (Option.some.inj hd).symm)
        rw [List.intercalate_singleton, parseItems, if_neg (hhead _),
          parseScalar_formatItem hitem hx hends, Option.bind_some,
          skipArrayWs_of_head (by decide) (by decide)]
        rfl
      | @cons y next ys nexts hy hlater =>
        obtain ⟨d, ds, hnext, hws, hnewline, -⟩ :=
          formatItem_head (hitems y (List.mem_cons_of_mem _ List.mem_cons_self)).float hy
        have hjoin : List.intercalate [',', ' '] (text :: next :: nexts) =
            text ++ ',' :: ' ' :: List.intercalate [',', ' '] (next :: nexts) := by
          rw [List.intercalate_cons_cons, List.append_assoc]
          rfl
        have hmore : ∃ es, List.intercalate [',', ' '] (next :: nexts) = d :: es := by
          cases nexts with
          | nil => exact ⟨ds, by rw [List.intercalate_singleton, hnext]⟩
          | cons last nexts => exact ⟨_, by rw [List.intercalate_cons_cons, hnext]; rfl⟩
        obtain ⟨es, hes⟩ := hmore
        have hends : ∀ more, Ends (',' :: more) := fun more d hd => .inl (Option.some.inj hd).symm
        have hskip : skipArrayWs (' ' :: (List.intercalate [',',
            ' '] (next :: nexts) ++ ']' :: t)) = List.intercalate [',',
              ' '] (next :: nexts) ++ ']' :: t := by
          rw [skipArrayWs, List.dropWhile_cons, if_pos (by decide), hes, List.cons_append]
          exact skipArrayWs_of_head hws hnewline
        have hlast := ih (fun z hz => hitems z (List.mem_cons_of_mem _ hz)) (List.cons_ne_nil _ _)
          (Nat.le_of_succ_le_succ hfuel)
        rw [hjoin, List.append_assoc, List.cons_append, List.cons_append, parseItems,
          if_neg (hhead _), parseScalar_formatItem hitem hx (hends _), Option.bind_some,
          skipArrayWs_of_head (by decide) (by decide)]
        simp only [List.head?_cons, List.drop_succ_cons, List.drop_zero, hskip, hlast]
        rfl

/-- An item, or a flat list of items. -/
def IsLeaf (floats : FloatText F) : Value F → Prop
  | .list xs => ∀ x ∈ xs, IsItem floats x
  | value => IsItem floats value

theorem IsLeaf.cases (h : IsLeaf floats value) :
    (∃ xs, value = .list xs ∧ ∀ x ∈ xs, IsItem floats x) ∨
      (IsItem floats value ∧ formatScalar floats value = formatItem floats value) := by
  cases value with
  | list xs => exact .inl ⟨xs, rfl, h⟩
  | _ => exact .inr ⟨h, rfl⟩

theorem formatScalar_head (hleaf : IsLeaf floats value)
    (h : formatScalar floats value = some text) :
    ∃ c cs, text = c :: cs ∧ isWs c = false ∧ c ≠ '\n' := by
  rcases hleaf.cases with ⟨xs, rfl, -⟩ | ⟨hitem, hformat⟩
  · obtain ⟨items, -, rfl⟩ := Option.map_eq_some_iff.mp h
    exact ⟨_, _, rfl, by decide, by decide⟩
  · rw [hformat] at h
    obtain ⟨c, cs, htext, hws, hnewline, -⟩ := formatItem_head hitem.float h
    exact ⟨c, cs, htext, hws, hnewline⟩

theorem length_le_intercalate (first : List Char) (later : List (List Char)) :
    later.length ≤ (List.intercalate [',', ' '] (first :: later)).length := by
  induction later generalizing first with
  | nil => exact Nat.zero_le _
  | cons next later ih =>
    have hnext := ih next
    simp only [List.intercalate_cons_cons, List.length_append, List.length_cons] at hnext ⊢
    omega

/-- What the writer puts behind an equals sign is read back. -/
theorem parseValue_formatScalar (hleaf : IsLeaf floats value)
    (h : formatScalar floats value = some text) (ht : Ends t) :
    parseValue floats (text ++ t) = some (value, t) := by
  rcases hleaf.cases with ⟨xs, rfl, hitems⟩ | ⟨hitem, hformat⟩
  · obtain ⟨items, hmap, rfl⟩ := Option.map_eq_some_iff.mp h
    have hall := Assoc.forall₂_of_mapM hmap
    rw [List.cons_append, List.append_assoc, List.singleton_append, parseValue, List.head?_cons,
      if_pos rfl, List.drop_succ_cons, List.drop_zero]
    cases hall with
    | nil => rfl
    | @cons x first xs later hx hlater =>
      have hfuel : (x :: xs).length ≤
          ('[' :: (List.intercalate [',', ' '] (first :: later) ++ ']' :: t)).length := by
        have hlength := hlater.length_eq
        have hjoin := length_le_intercalate first later
        simp only [List.length_cons, List.length_append]
        omega
      obtain ⟨c, cs, htext, hws, hnewline, -⟩ :=
        formatItem_head (hitems x List.mem_cons_self).float hx
      have hskip : skipArrayWs (List.intercalate [',', ' '] (first :: later) ++ ']' :: t) =
          List.intercalate [',', ' '] (first :: later) ++ ']' :: t := by
        cases later with
        | nil =>
          rw [List.intercalate_singleton, htext]
          exact skipArrayWs_of_head hws hnewline
        | cons last later =>
          rw [List.intercalate_cons_cons, htext]
          exact skipArrayWs_of_head hws hnewline
      rw [hskip, parseItems_format hitems (.cons hx hlater) (List.cons_ne_nil _ _) t hfuel]
      rfl
  · rw [hformat] at h
    obtain ⟨c, cs, htext, -, -, hopen, -⟩ := formatItem_head hitem.float h
    have hhead : (text ++ t).head? ≠ some '[' := by
      rw [htext]
      exact fun hc => hopen (Option.some.inj hc)
    rw [parseValue, if_neg hhead, parseScalar_formatItem hitem.float h ht]

end Values

section Plain

/-- A text within a line. -/
def Plain (t : List Char) : Prop := ∀ c ∈ t, c ≠ '\n' ∧ c ≠ '\r'

variable {t u text : List Char} {value : Value F}

theorem Plain.append (ht : Plain t) (hu : Plain u) : Plain (t ++ u) := by
  intro c hc
  rcases List.mem_append.mp hc with hc | hc
  · exact ht c hc
  · exact hu c hc

theorem Plain.cons (hc : c ≠ '\n' ∧ c ≠ '\r') (ht : Plain t) : Plain (c :: t) := by
  intro d hd
  rcases List.mem_cons.mp hd with rfl | hd
  · exact hc
  · exact ht d hd

theorem plain_hexDigit : ∀ d < 16, hexDigit d ≠ '\n' ∧ hexDigit d ≠ '\r' := by decide

theorem plain_nil : Plain [] := fun _ hc => absurd hc List.not_mem_nil

theorem plain_escapeChar (c : Char) : Plain (escapeChar c) := by
  have hdigit : ∀ m, hexDigit (m % 16) ≠ '\n' ∧ hexDigit (m % 16) ≠ '\r' :=
    fun m => plain_hexDigit _ (Nat.mod_lt _ (by decide))
  have hpair : ∀ d : Char, d ≠ '\n' ∧ d ≠ '\r' → Plain ['\\', d] :=
      fun d hd => .cons (by decide) (.cons hd plain_nil)
  unfold escapeChar
  split_ifs with hslash hquote hnewline htab hreturn hcontrol
  · exact hpair '\\' (by decide)
  · exact hpair '"' (by decide)
  · exact hpair 'n' (by decide)
  · exact hpair 't' (by decide)
  · exact hpair 'r' (by decide)
  · exact .cons (by decide) (.cons (by decide) (.cons (hdigit _) (.cons (hdigit _)
      (.cons (hdigit _) (.cons (hdigit _) plain_nil)))))
  · exact .cons ⟨hnewline, hreturn⟩ plain_nil

theorem plain_formatStr (s : String) : Plain (formatStr s) := by
  refine .cons (by decide) (.append ?_ (.cons (by decide) plain_nil))
  intro c hc
  obtain ⟨d, -, hd⟩ := List.mem_flatMap.mp hc
  exact plain_escapeChar d c hd

theorem plain_formatKey (beyond : Char → Bool) (key : String) : Plain (formatKey beyond key) := by
  unfold formatKey
  split_ifs with hbare
  · intro c hc
    have hkind := List.all_eq_true.mp hbare.2 c hc
    constructor <;> rintro rfl <;> cases hkind
  · exact plain_formatStr key

theorem plain_digits (h : ∀ c ∈ t, c.isDigit = true) : Plain t := fun c hc =>
  ⟨digit_ne (h c hc) (by decide), digit_ne (h c hc) (by decide)⟩

theorem plain_decimal (d : Decimal) : Plain d.text := by
  refine .append ?_ (.append (plain_digits d.whole_digits) (.append ?_ ?_))
  · unfold Decimal.signText
    split_ifs
    · exact .cons (by decide) plain_nil
    · exact plain_nil
  · unfold Decimal.fractionText
    split_ifs
    · exact plain_nil
    · exact .cons (by decide) (plain_digits d.fraction_digits)
  · unfold Decimal.exponentText
    cases hexponent : d.exponent with
    | none => exact plain_nil
    | some e =>
      refine .cons (by decide) (.cons ?_ (plain_digits (d.exponent_digits e hexponent).2))
      cases e.1 <;> decide

theorem plain_formatItem (hitem : IsItem floats value) (h : formatItem floats value = some text) :
    Plain text := by
  cases value with
  | bool b =>
    cases h
    cases b
    · exact .cons (by decide) (.cons (by decide) (.cons (by decide) (.cons (by decide)
        (.cons (by decide) plain_nil))))
    · exact .cons (by decide) (.cons (by decide) (.cons (by decide) (.cons (by decide) plain_nil)))
  | int n =>
    obtain ⟨-, hdigits, -⟩ := whole_toDigits n.natAbs
    simp only [formatItem, formatInt] at h
    split_ifs at h
    · rw [← Option.some.inj h]
      exact .cons (by decide) (plain_digits hdigits)
    · rw [← Option.some.inj h]
      exact plain_digits hdigits
  | float x =>
    cases h
    cases hkind : floats.kind x with
    | finite =>
      obtain ⟨d, hd⟩ := floats.repr_finite hkind
      rw [hd]
      exact plain_decimal d
    | posInf =>
      rw [floats.repr_posInf hkind]
      exact .cons (by decide) (.cons (by decide) (.cons (by decide) plain_nil))
    | negInf =>
      rw [floats.repr_negInf hkind]
      exact .cons (by decide) (.cons (by decide) (.cons (by decide) (.cons (by decide) plain_nil)))
    | nan => exact absurd hkind hitem
  | str s =>
    cases h
    exact plain_formatStr s
  | _ => cases h

theorem plain_intercalate {sep : List Char} {texts : List (List Char)} (hsep : Plain sep)
    (h : ∀ t ∈ texts, Plain t) : Plain (List.intercalate sep texts) := by
  induction texts with
  | nil => exact plain_nil
  | cons t texts ih =>
    have hrest := ih fun u hu => h u (List.mem_cons_of_mem _ hu)
    cases texts with
    | nil =>
      rw [List.intercalate_singleton]
      exact h t List.mem_cons_self
    | cons u texts =>
      rw [List.intercalate_cons_cons, List.append_assoc]
      exact .append (h t List.mem_cons_self) (.append hsep hrest)

theorem plain_formatScalar (hleaf : IsLeaf floats value)
    (h : formatScalar floats value = some text) : Plain text := by
  rcases hleaf.cases with ⟨xs, rfl, hitems⟩ | ⟨hitem, hformat⟩
  · obtain ⟨texts, hmap, rfl⟩ := Option.map_eq_some_iff.mp h
    have hall := Assoc.forall₂_of_mapM hmap
    refine .cons (by decide) (.append (plain_intercalate ?_ ?_) (.cons (by decide) plain_nil))
    · exact .cons (by decide) (.cons (by decide) plain_nil)
    · intro t ht
      obtain ⟨x, hx, hformat⟩ := Assoc.exists_of_forall₂ hall ht
      exact plain_formatItem (hitems x hx) hformat
  · rw [hformat] at h
    exact plain_formatItem hitem h

end Plain

end Kaine.TomlWriter
