import Kaine.Setup.TomlText

/-! What the writer emits parses back as the dict, but for bare keys beyond ASCII. -/
namespace Kaine.TomlWriter
open Toml

variable {F : Type} {floats : FloatText F} {beyond : Char → Bool}

/-- A line of a document, by what it says. -/
inductive Entry (F : Type) where
  | header (path : List String)
  | pair (key : String) (value : Value F) (text : List Char)

namespace Entry

def line (beyond : Char → Bool) : Entry F → Line
  | .header path => headerLine beyond path
  | .pair key _ text => pairLine beyond key text

def run (doc : Doc F) : Entry F → Option (Doc F)
  | .header path => doc.declare path
  | .pair key value _ => doc.put key value

def Formed (floats : FloatText F) : Entry F → Prop
  | .header path => path ≠ []
  | .pair _ value text => IsLeaf floats value ∧ formatScalar floats value = some text

def Safe (beyond : Char → Bool) : Entry F → Prop
  | .header path => ∀ key ∈ path, KeySafe beyond key
  | .pair key _ _ => KeySafe beyond key

end Entry

section Document

variable {e : Entry F} {entries : List (Entry F)} {doc : Doc F} {rest : List Char} {fuel : ℕ}

theorem ends_newline (rest : List Char) :
    Ends ('\n' :: rest) := fun _ hc => .inr (.inr (Option.some.inj hc).symm)

/-- A line begins as no white space and no end of a line does. -/
theorem Entry.line_head (beyond : Char → Bool) (e : Entry F) :
    ∃ c cs, e.line beyond = c :: cs ∧ isWs c = false ∧ c ≠ '\n' := by
  cases e with
  | header path => exact ⟨'[', _, rfl, by decide, by decide⟩
  | pair key value text =>
    obtain ⟨c, cs, hkey, hws, hnewline, -⟩ := formatKey_head beyond key
    refine ⟨c, cs ++ (' ' :: '=' :: ' ' :: text), ?_, hws, hnewline⟩
    rw [Entry.line, pairLine, hkey, List.cons_append]

theorem parseStatement_header {path : List String} (hne : path ≠ [])
    (hsafe : ∀ key ∈ path, KeySafe beyond key) :
    parseStatement floats doc (headerLine beyond path ++ '\n' :: rest) =
      (doc.declare path).map fun doc => (doc, '\n' :: rest) := by
  obtain ⟨key, keys, rfl⟩ := List.exists_cons_of_ne_nil hne
  have hline : headerLine beyond (key :: keys) ++ '\n' :: rest =
      '[' :: (joinKeys beyond (key :: keys) ++ ']' :: '\n' :: rest) := by
    rw [headerLine, List.cons_append, List.append_assoc]
    rfl
  obtain ⟨c, cs, hjoin, hws, -⟩ := joinKeys_head beyond key keys
  have hskip : skipWs (joinKeys beyond (key :: keys) ++ ']' :: '\n' :: rest) =
      joinKeys beyond (key :: keys) ++ ']' :: '\n' :: rest := by
    rw [hjoin, List.cons_append, skipWs_of_head hws]
  have hstop : Stops isBareKeyChar (']' :: '\n' :: rest) := by
    intro d hd
    rw [← Option.some.inj hd]
    decide
  have hend : skipWs (']' :: '\n' :: rest) = ']' :: '\n' :: rest := skipWs_of_head (by decide)
  have hfuel : (key :: keys).length ≤
    ('[' :: (joinKeys beyond (key :: keys) ++ ']' :: '\n' :: rest)).length := by
    have hlength := length_le_joinKeys beyond (key :: keys)
    simp only [List.length_cons, List.length_append] at hlength ⊢
    omega
  have hdot : (skipWs (']' :: '\n' :: rest)).head? ≠ some '.' := by
    rw [hend]
    exact fun h => absurd (Option.some.inj h) (by decide)
  have hparse := parseKey_joinKeys (List.cons_ne_nil key keys) hsafe hstop hdot hfuel
  rw [hline, parseStatement, List.head?_cons, if_pos rfl, List.drop_succ_cons, List.drop_zero,
    hskip, hparse, hend, Option.bind_some]
  rfl

/-- A reader that has stopped beyond ASCII finds nothing of the syntax there. -/
theorem head_ne_of_far {c d : Char} {cs : List Char} (hfar : 0x80 ≤ c.toNat) (hd : d.toNat < 0x80) :
    (c :: cs).head? ≠ some d := by
  intro h
  rw [Option.some.inj h] at hfar
  omega

theorem parseStatement_header_refused {path : List String}
    (hrefused : ∃ key ∈ path, ¬KeySafe beyond key) :
    parseStatement floats doc (headerLine beyond path ++ '\n' :: rest) = none := by
  have hline : headerLine beyond path ++ '\n' :: rest =
    '[' :: (joinKeys beyond path ++ ']' :: '\n' :: rest) := by
    rw [headerLine, List.cons_append, List.append_assoc]
    rfl
  have hskip : skipWs (joinKeys beyond path ++ ']' :: '\n' :: rest) = joinKeys beyond path ++
      ']' :: '\n' :: rest := by
    cases path with
    | nil =>
      obtain ⟨key, hkey, -⟩ := hrefused
      cases hkey
    | cons key keys =>
      obtain ⟨c, cs, hjoin, hws, -⟩ := joinKeys_head beyond key keys
      rw [hjoin, List.cons_append, skipWs_of_head hws]
  rw [hline, parseStatement, List.head?_cons, if_pos rfl, List.drop_succ_cons,
    List.drop_zero, hskip]
  rcases parseKey_refused hrefused (']' :: '\n' :: rest) _ with hnone | ⟨read, c, more, hsome, hfar⟩
  · rw [hnone]
    rfl
  · rw [hsome, Option.bind_some, if_neg (head_ne_of_far hfar (by decide))]

theorem pairLine_append (key : String) (text rest : List Char) :
    pairLine beyond key text ++ '\n' :: rest = joinKeys beyond [key] ++ ' ' :: '=' :: ' ' ::
      (text ++ '\n' :: rest) := by
  rw [pairLine, joinKeys_single, List.append_assoc]
  rfl

theorem pairLine_head (key : String) (more : List Char) :
    (joinKeys beyond [key] ++ more).head? ≠ some '[' := by
  obtain ⟨c, cs, hjoin, -, -, hopen⟩ := joinKeys_head beyond key []
  rw [hjoin]
  exact fun h => hopen (Option.some.inj h)

theorem parseStatement_pair {key : String} {value : Value F} {text : List Char}
    (hsafe : KeySafe beyond key) (hleaf : IsLeaf floats value)
    (hformat : formatScalar floats value = some text) :
    parseStatement floats doc (pairLine beyond key text ++ '\n' :: rest) =
      (doc.put key value).map fun doc => (doc, '\n' :: rest) := by
  have hstop : Stops isBareKeyChar (' ' :: '=' :: ' ' :: (text ++ '\n' :: rest)) := by
    intro d hd
    rw [← Option.some.inj hd]
    decide
  have hend : skipWs (' ' :: '=' :: ' ' :: (text ++ '\n' :: rest)) =
    '=' :: ' ' :: (text ++ '\n' :: rest) := by
    rw [skipWs, List.dropWhile_cons, if_pos (by decide)]
    exact skipWs_of_head (by decide)
  have hdot : (skipWs (' ' :: '=' :: ' ' :: (text ++ '\n' :: rest))).head? ≠ some '.' := by
    rw [hend]
    exact fun h => absurd (Option.some.inj h) (by decide)
  have hfuel : [key].length ≤ (joinKeys beyond [key] ++ ' ' :: '=' :: ' ' ::
    (text ++ '\n' :: rest)).length := by
    have hlength := length_le_joinKeys beyond [key]
    simp only [List.length_append]
    omega
  have hparse := parseKey_joinKeys (List.cons_ne_nil key []) (fun k hk =>
    List.mem_singleton.mp hk ▸ hsafe) hstop hdot hfuel
  obtain ⟨c, cs, htext, hws, -⟩ := formatScalar_head hleaf hformat
  have hskip : skipWs (' ' :: (text ++ '\n' :: rest)) = text ++ '\n' :: rest := by
    rw [skipWs, List.dropWhile_cons, if_pos (by decide), htext, List.cons_append]
    exact skipWs_of_head hws
  rw [pairLine_append, parseStatement, if_neg (pairLine_head key _), hparse, hend, Option.bind_some]
  simp only [List.head?_cons, if_true, List.drop_succ_cons, List.drop_zero, hskip,
    parseValue_formatScalar hleaf hformat (ends_newline rest), Option.bind_some]

theorem parseStatement_pair_refused {key : String} {text : List Char}
    (hrefused : ¬KeySafe beyond key) :
    parseStatement floats doc (pairLine beyond key text ++ '\n' :: rest) = none := by
  rw [pairLine_append, parseStatement, if_neg (pairLine_head key _)]
  rcases parseKey_refused ⟨key, List.mem_singleton_self key,
    hrefused⟩ (' ' :: '=' :: ' ' :: (text ++ '\n' :: rest)) _
    with hnone | ⟨read, c, more, hsome, hfar⟩
  · rw [hnone]
    rfl
  · rw [hsome, Option.bind_some]
    match read with
    | [stem] => exact if_neg (head_ne_of_far hfar (by decide))
    | [] => rfl
    | _ :: _ :: _ => rfl

/-- A safe line is one statement. -/
theorem parseStatement_line (hformed : e.Formed floats) (hsafe : e.Safe beyond) :
    parseStatement floats doc (e.line beyond ++ '\n' :: rest) =
      (e.run doc).map fun doc => (doc, '\n' :: rest) := by
  cases e with
  | header path => exact parseStatement_header hformed hsafe
  | pair key value text => exact parseStatement_pair hsafe hformed.1 hformed.2

theorem parseStatement_refused (hrefused : ¬e.Safe beyond) :
    parseStatement floats doc (e.line beyond ++ '\n' :: rest) = none := by
  cases e with
  | header path =>
    refine parseStatement_header_refused ?_
    by_contra hnone
    exact hrefused fun key hkey => not_not.mp fun hbad => hnone ⟨key, hkey, hbad⟩
  | pair key value text => exact parseStatement_pair_refused hrefused

/-- A line goes by in one turn of the loop. -/
theorem parseStatements_line (hformed : e.Formed floats) (hsafe : e.Safe beyond) :
    parseStatements floats (fuel + 1) doc (e.line beyond ++ '\n' :: rest) =
      (e.run doc).bind fun doc => parseStatements floats fuel doc rest := by
  obtain ⟨c, cs, hline, hws, hnewline⟩ := e.line_head beyond
  have hskip : skipWs (e.line beyond ++ '\n' :: rest) = e.line beyond ++ '\n' :: rest := by
    rw [hline, List.cons_append, skipWs_of_head hws]
  have hne : e.line beyond ++ '\n' :: rest ≠ [] := by rw [hline]; exact List.cons_ne_nil _ _
  have hhead : (e.line beyond ++ '\n' :: rest).head? ≠ some '\n' := by
    rw [hline]
    exact fun h => hnewline (Option.some.inj h)
  have hend : skipWs ('\n' :: rest) = '\n' :: rest := skipWs_of_head (by decide)
  rw [parseStatements]
  simp only [hskip, if_neg hne, if_neg hhead, parseStatement_line hformed hsafe]
  cases e.run doc with
  | none => rfl
  | some doc =>
    simp only [Option.map_some, Option.bind_some, hend, List.head?_cons, List.drop_succ_cons,
      List.drop_zero]
    rfl

theorem parseStatements_line_refused (hrefused : ¬e.Safe beyond) :
    parseStatements floats fuel doc (e.line beyond ++ '\n' :: rest) = none := by
  obtain ⟨c, cs, hline, hws, hnewline⟩ := e.line_head beyond
  cases fuel with
  | zero => rfl
  | succ fuel =>
    have hskip : skipWs (e.line beyond ++ '\n' :: rest) = e.line beyond ++ '\n' :: rest := by
      rw [hline, List.cons_append, skipWs_of_head hws]
    have hne : e.line beyond ++ '\n' :: rest ≠ [] := by rw [hline]; exact List.cons_ne_nil _ _
    have hhead : (e.line beyond ++ '\n' :: rest).head? ≠ some '\n' := by
      rw [hline]
      exact fun h => hnewline (Option.some.inj h)
    rw [parseStatements]
    simp only [hskip, if_neg hne, if_neg hhead, parseStatement_refused hrefused]
    rfl

theorem parseStatements_blank : parseStatements floats (fuel + 1) doc ('\n' :: rest) =
    parseStatements floats fuel doc rest := by
  rw [parseStatements]
  simp only [skipWs_of_head (show isWs '\n' = false by decide), List.head?_cons,
    List.drop_succ_cons, List.drop_zero]
  rfl

/-- The blank line before a header, but for the first line of all. -/
def Entry.gap (first : Bool) : Entry F → List Line
  | .header _ => if first then [] else [[]]
  | .pair .. => []

/-- The lines of a document. -/
def spaced (beyond : Char → Bool) : Bool → List (Entry F) → List Line
  | _, [] => []
  | first, e :: rest => e.gap first ++ e.line beyond :: spaced beyond false rest

/-- Lines with the end of each. -/
def written (lines : List Line) : List Char := lines.flatMap fun line => line ++ ['\n']

theorem written_cons (line : Line) (lines : List Line) :
    written (line :: lines) = line ++ '\n' :: written lines := by
  rw [written, List.flatMap_cons, List.append_assoc]
  rfl

theorem Entry.gap_cases (e : Entry F) (first : Bool) : e.gap first = [] ∨ e.gap first = [[]] := by
  cases e with
  | header path =>
    cases first with
    | true => exact .inl rfl
    | false => exact .inr rfl
  | pair key value text => exact .inl rfl

def runAll (doc : Doc F) (entries : List (Entry F)) : Option (Doc F) := entries.foldlM Entry.run doc

theorem runAll_cons (doc : Doc F) (e : Entry F) (entries : List (Entry F)) :
    runAll doc (e :: entries) = (e.run doc).bind fun doc => runAll doc entries := List.foldlM_cons

/-- A document of safe lines is run line by line. -/
theorem parseStatements_spaced (hformed : ∀ e ∈ entries, e.Formed floats)
    (hsafe : ∀ e ∈ entries, e.Safe beyond) (first : Bool)
    (hfuel : (written (spaced beyond first entries)).length < fuel) :
    parseStatements floats fuel doc (written (spaced beyond first entries)) =
      (runAll doc entries).map Doc.data := by
  induction entries generalizing first fuel doc with
  | nil =>
    cases fuel with
    | zero => cases hfuel
    | succ fuel => rfl
  | cons e rest ih =>
    have hline : ∀ {fuel : ℕ}, (e.line beyond ++ '\n' :: written
        (spaced beyond false rest)).length < fuel →
          parseStatements floats fuel doc (e.line beyond ++ '\n' :: written
            (spaced beyond false rest)) =
          (runAll doc (e :: rest)).map Doc.data := by
      intro fuel hfuel
      cases fuel with
      | zero => cases hfuel
      | succ fuel =>
        rw [parseStatements_line (hformed e List.mem_cons_self) (hsafe e List.mem_cons_self),
          runAll_cons]
        cases e.run doc with
        | none => rfl
        | some doc =>
          refine ih (fun e he => hformed e (List.mem_cons_of_mem _ he))
            (fun e he => hsafe e (List.mem_cons_of_mem _ he)) false ?_
          simp only [List.length_append, List.length_cons] at hfuel
          omega
    rcases e.gap_cases first with hgap | hgap
    · rw [spaced, hgap, List.nil_append, written_cons] at hfuel ⊢
      exact hline hfuel
    · rw [spaced, hgap, List.singleton_append, written_cons, written_cons, List.nil_append]
        at hfuel ⊢
      cases fuel with
      | zero => cases hfuel
      | succ fuel =>
        rw [parseStatements_blank]
        exact hline (Nat.lt_of_succ_lt_succ hfuel)

/-- A document with a line that is not safe is not read. -/
theorem parseStatements_spaced_refused (hformed : ∀ e ∈ entries, e.Formed floats)
    (hrefused : ∃ e ∈ entries, ¬e.Safe beyond) (first : Bool) (fuel : ℕ) :
    parseStatements floats fuel doc (written (spaced beyond first entries)) = none := by
  induction entries generalizing first fuel doc with
  | nil =>
    obtain ⟨e, he, -⟩ := hrefused
    cases he
  | cons e rest ih =>
    have hline : ∀ fuel, parseStatements floats fuel doc
        (e.line beyond ++ '\n' :: written (spaced beyond false rest)) = none := by
      intro fuel
      by_cases hsafe : e.Safe beyond
      · cases fuel with
        | zero => rfl
        | succ fuel =>
          rw [parseStatements_line (hformed e List.mem_cons_self) hsafe]
          have hlater : ∃ e ∈ rest, ¬e.Safe beyond := by
            obtain ⟨e', he', hbad⟩ := hrefused
            rcases List.mem_cons.mp he' with rfl | he'
            · exact absurd hsafe hbad
            · exact ⟨e', he', hbad⟩
          cases e.run doc with
          | none => rfl
          | some doc =>
            exact ih (fun e he => hformed e (List.mem_cons_of_mem _ he)) hlater false fuel
      · exact parseStatements_line_refused hsafe
    rcases e.gap_cases first with hgap | hgap
    · rw [spaced, hgap, List.nil_append, written_cons]
      exact hline fuel
    · rw [spaced, hgap, List.singleton_append, written_cons, written_cons, List.nil_append]
      cases fuel with
      | zero => rfl
      | succ fuel =>
        rw [parseStatements_blank]
        exact hline fuel

end Document

section Emission

variable {d sub : Dict F} {value : Value F} {path : List String} {lines : List Line}

def isDict : Value F → Bool
  | .dict _ => true
  | _ => false

/-- The entries of a table's keys that hold no table. -/
def pairEntries (floats : FloatText F) (d : Dict F) : List (Entry F) :=
  (d.filter fun kv => !isDict kv.2).map fun kv =>
    .pair kv.1 kv.2 ((formatScalar floats kv.2).getD [])

mutual

def subEntries (floats : FloatText F) : List String → Value F → List (Entry F)
  | path, .dict sub => .header path :: (pairEntries floats sub ++ tableEntries floats path sub)
  | _, _ => []

/-- The entries of a table's sub-tables. -/
def tableEntries (floats : FloatText F) : List String → List (String × Value F) → List (Entry F)
  | _, [] => []
  | path, (key, value) :: rest =>
    subEntries floats (path ++ [key]) value ++ tableEntries floats path rest

end

mutual

/-- Every key and every leaf is of a kind. -/
def Throughout (P : String → Prop) (Q : Value F → Prop) : Value F → Prop
  | .dict d => ThroughoutDict P Q d
  | value => Q value

def ThroughoutDict (P : String → Prop) (Q : Value F → Prop) : List (String × Value F) → Prop
  | [] => True
  | (key, value) :: rest => P key ∧ Throughout P Q value ∧ ThroughoutDict P Q rest

end

theorem throughoutDict_iff {P : String → Prop} {Q : Value F → Prop} :
    ThroughoutDict P Q d ↔ ∀ kv ∈ d, P kv.1 ∧ Throughout P Q kv.2 := by
  induction d with
  | nil => exact ⟨fun _ kv h => absurd h List.not_mem_nil, fun _ => trivial⟩
  | cons kv rest ih =>
    rw [ThroughoutDict, ih, List.forall_mem_cons, and_assoc]

/-- A leaf that the writer formats. -/
def Formats (floats : FloatText F) (value : Value F) : Prop :=
  (formatScalar floats value).isSome = true

theorem spaced_append (first : Bool) (entries more : List (Entry F)) :
    spaced beyond first (entries ++ more) =
      spaced beyond first entries ++ spaced beyond (first && entries.isEmpty) more := by
  induction entries generalizing first with
  | nil =>
    rw [List.nil_append, List.isEmpty_nil, Bool.and_true]
    rfl
  | cons e entries ih =>
    rw [List.cons_append, spaced, ih, spaced, List.isEmpty_cons, Bool.and_false, Bool.false_and,
      List.append_assoc]
    rfl

theorem spaced_isEmpty (first : Bool) (entries : List (Entry F)) :
    (spaced beyond first entries).isEmpty = entries.isEmpty := by
  cases entries with
  | nil => rfl
  | cons e entries =>
    rw [spaced, List.isEmpty_cons]
    cases e.gap first <;> rfl

/-- Lines of which the last is not blank. -/
def Tidy (lines : List Line) : Prop := lines.getLast? ≠ some []

theorem Entry.line_ne (e : Entry F) : e.line beyond ≠ [] := by
  obtain ⟨c, cs, hline, -⟩ := e.line_head beyond
  rw [hline]
  exact List.cons_ne_nil _ _

theorem tidy_spaced (beyond : Char → Bool) (hlines : Tidy lines) (first : Bool)
    (entries : List (Entry F)) : Tidy (lines ++ spaced beyond first entries) := by
  induction entries generalizing first lines with
  | nil =>
    rw [spaced, List.append_nil]
    exact hlines
  | cons e entries ih =>
    have hline : Tidy (lines ++ (e.gap first ++ [e.line beyond])) := by
      rw [Tidy, ← List.append_assoc, List.getLast?_append_of_ne_nil _ (List.cons_ne_nil _ _)]
      exact fun h => e.line_ne (Option.some.inj h)
    have hsplit : lines ++ spaced beyond first (e :: entries) =
        (lines ++ (e.gap first ++ [e.line beyond])) ++ spaced beyond false entries := by
      simp [spaced]
    rw [hsplit]
    exact ih hline false

theorem isEmpty_append_spaced (first : Bool) (entries : List (Entry F)) :
    (lines ++ spaced beyond first entries).isEmpty = (lines.isEmpty && entries.isEmpty) := by
  cases lines with
  | nil => rw [List.nil_append, spaced_isEmpty, List.isEmpty_nil, Bool.true_and]
  | cons line lines => rfl

theorem addHeader_eq (hlines : Tidy lines) (path : List String) :
    addHeader beyond path lines = lines ++ spaced beyond lines.isEmpty
      [(.header path : Entry F)] := by
  unfold addHeader
  cases lines with
  | nil => rfl
  | cons line lines =>
    rw [if_pos ⟨List.cons_ne_nil _ _, hlines⟩, List.append_assoc]
    rfl

theorem emitScalars_cons {key : String} (hvalue : isDict value = false) (rest : Dict F)
    (lines : List Line) : emitScalars floats beyond ((key, value) :: rest) lines =
      (formatScalar floats value).bind fun text =>
      emitScalars floats beyond rest (lines ++ [pairLine beyond key text]) := by
  cases value with
  | dict sub => cases hvalue
  | _ => rfl

theorem emitScalars_eq (beyond : Char → Bool)
    (h : ∀ kv ∈ d, isDict kv.2 = false → Formats floats kv.2) (first : Bool) (lines : List Line) :
    emitScalars floats beyond d lines =
      some (lines ++ spaced beyond first (pairEntries floats d)) := by
  induction d generalizing first lines with
  | nil =>
    rw [emitScalars]
    exact congrArg some (List.append_nil lines).symm
  | cons kv rest ih =>
    obtain ⟨key, value⟩ := kv
    have hrest := ih fun kv hkv => h kv (List.mem_cons_of_mem _ hkv)
    cases hvalue : isDict value with
    | true =>
      obtain ⟨sub, rfl⟩ : ∃ sub, value = .dict sub := by
        cases value with
        | dict sub => exact ⟨sub, rfl⟩
        | _ => cases hvalue
      rw [emitScalars, hrest first, pairEntries, pairEntries,
        List.filter_cons_of_neg (by simp [hvalue])]
    | false =>
      obtain ⟨text, htext⟩ := Option.isSome_iff_exists.mp (h (key, value) List.mem_cons_self hvalue)
      rw [emitScalars_cons hvalue, htext, Option.bind_some, hrest false, pairEntries, pairEntries,
        List.filter_cons_of_pos (by simp [hvalue]), List.map_cons, htext, List.append_assoc]
      rfl

theorem formats_of_throughout (h : ThroughoutDict (fun _ => True) (Formats floats) d) :
    ∀ kv ∈ d, isDict kv.2 = false → Formats floats kv.2 := by
  intro kv hkv hvalue
  have hkv := (throughoutDict_iff.mp h kv hkv).2
  obtain ⟨key, value⟩ := kv
  cases value with
  | dict sub => cases hvalue
  | _ => exact hkv

mutual

/-- The writer's lines are those of the entries, where it formats every leaf. -/
theorem emitSub_eq : ∀ (path : List String) (value : Value F) (lines : List Line),
    Throughout (fun _ => True) (Formats floats) value → Tidy lines →
      emitSub floats beyond path value lines =
        some (lines ++ spaced beyond lines.isEmpty (subEntries floats path value))
  | path, .dict sub, lines, h, hlines => by
    have hheader : addHeader beyond path lines = lines ++
        spaced beyond lines.isEmpty [(.header path : Entry F)] :=
      addHeader_eq hlines path
    have hscalars := emitScalars_eq beyond (formats_of_throughout h) false
      (addHeader beyond path lines)
    have htidy : Tidy (addHeader beyond path lines ++ spaced beyond false
      (pairEntries floats sub)) := by
      rw [hheader]
      exact tidy_spaced beyond (tidy_spaced beyond hlines _ _) _ _
    have htables := emitTables_eq path sub _ h htidy
    have hfirst : (addHeader beyond path lines ++ spaced beyond false
        (pairEntries floats sub)).isEmpty = false := by
      rw [isEmpty_append_spaced, hheader, isEmpty_append_spaced, List.isEmpty_cons, Bool.and_false,
        Bool.false_and]
    have hsplit : spaced beyond lines.isEmpty (subEntries floats path (.dict sub)) =
        spaced beyond lines.isEmpty [(.header path : Entry F)] ++
          (spaced beyond false (pairEntries floats sub) ++
            spaced beyond false (tableEntries floats path sub)) := by
      rw [subEntries, ← List.singleton_append, spaced_append, spaced_append, List.isEmpty_cons,
        Bool.and_false, Bool.false_and]
    rw [emitSub, hscalars, Option.bind_some, htables, hfirst, hsplit, hheader, List.append_assoc,
      List.append_assoc]
  | path, .none, lines, _, _ => by simp [emitSub, subEntries, spaced]
  | path, .bool b, lines, _, _ => by simp [emitSub, subEntries, spaced]
  | path, .int n, lines, _, _ => by simp [emitSub, subEntries, spaced]
  | path, .float x, lines, _, _ => by simp [emitSub, subEntries, spaced]
  | path, .str s, lines, _, _ => by simp [emitSub, subEntries, spaced]
  | path, .list xs, lines, _, _ => by simp [emitSub, subEntries, spaced]
  | path, .other type id, lines, _, _ => by simp [emitSub, subEntries, spaced]

theorem emitTables_eq : ∀ (path : List String) (d : List (String × Value F)) (lines : List Line),
    ThroughoutDict (fun _ => True) (Formats floats) d → Tidy lines →
      emitTables floats beyond path d lines =
        some (lines ++ spaced beyond lines.isEmpty (tableEntries floats path d))
  | path, [], lines, _, _ => by simp [emitTables, tableEntries, spaced]
  | path, (key, value) :: rest, lines, h, hlines => by
    have hsub := emitSub_eq (path ++ [key]) value lines h.2.1 hlines
    have htidy := tidy_spaced beyond hlines lines.isEmpty (subEntries floats (path ++ [key]) value)
    have hrest := emitTables_eq path rest _ h.2.2 htidy
    rw [emitTables, hsub, Option.bind_some, hrest, tableEntries, spaced_append,
      isEmpty_append_spaced, List.append_assoc]

end

theorem formats_of_emitScalars {out : List Line}
    (h : emitScalars floats beyond d lines = some out) :
    ∀ kv ∈ d, isDict kv.2 = false → Formats floats kv.2 := by
  induction d generalizing lines with
  | nil => exact fun kv hkv => absurd hkv List.not_mem_nil
  | cons kv rest ih =>
    obtain ⟨key, value⟩ := kv
    cases hvalue : isDict value with
    | true =>
      cases value with
      | dict sub =>
        rw [emitScalars] at h
        refine List.forall_mem_cons.mpr ⟨fun hnot => ?_, ih h⟩
        rw [hvalue] at hnot
        cases hnot
      | _ => cases hvalue
    | false =>
      rw [emitScalars_cons hvalue] at h
      obtain ⟨text, htext, hrest⟩ := Option.bind_eq_some_iff.mp h
      refine List.forall_mem_cons.mpr ⟨fun _ => ?_, ih hrest⟩
      rw [Formats, htext]
      rfl

mutual

/-- What the writer emits, it has formatted. -/
theorem formats_of_emitSub : ∀ (path : List String) (value : Value F) (lines out : List Line),
    emitSub floats beyond path value lines = some out → isDict value = true →
      Throughout (fun _ => True) (Formats floats) value
  | path, .dict sub, lines, out, h, _ => by
    rw [emitSub] at h
    obtain ⟨between, hscalars, htables⟩ := Option.bind_eq_some_iff.mp h
    have hleaves := formats_of_emitScalars hscalars
    have hsubs := formats_of_emitTables path sub between out htables
    refine throughoutDict_iff.mpr fun kv hkv => ⟨trivial, ?_⟩
    obtain ⟨key, value⟩ := kv
    cases value with
    | dict d => exact hsubs _ hkv rfl
    | _ => exact hleaves _ hkv rfl

theorem formats_of_emitTables :
    ∀ (path : List String) (d : List (String × Value F)) (lines out : List Line),
    emitTables floats beyond path d lines = some out →
      ∀ kv ∈ d, isDict kv.2 = true → Throughout (fun _ => True) (Formats floats) kv.2
  | path, [], lines, out, _ => fun kv hkv => absurd hkv List.not_mem_nil
  | path, (key, value) :: rest, lines, out, h => by
    rw [emitTables] at h
    obtain ⟨between, hsub, hrest⟩ := Option.bind_eq_some_iff.mp h
    exact List.forall_mem_cons.mpr ⟨formats_of_emitSub (path ++ [key]) value lines between hsub,
      formats_of_emitTables path rest between out hrest⟩

end

end Emission

section Text

variable {d : Dict F} {lines : List Line} {entries : List (Entry F)}

theorem intercalate_newline (h : lines ≠ []) :
    List.intercalate ['\n'] lines ++ ['\n'] = written lines := by
  induction lines with
  | nil => exact absurd rfl h
  | cons line lines ih =>
    cases lines with
    | nil => rw [List.intercalate_singleton, written_cons]; rfl
    | cons next lines =>
      rw [List.intercalate_cons_cons, written_cons, ← ih (List.cons_ne_nil _ _), List.append_assoc,
        List.append_assoc]
      rfl

theorem written_append (lines more : List Line) :
    written (lines ++ more) = written lines ++ written more :=
  List.flatMap_append

theorem stripNewlines_eq {text : List Char} (hfirst : text.head? ≠ some '\n')
    (hlast : text.getLast? ≠ some '\n') :
    stripNewlines text = text := by
  have hstop : ∀ {t : List Char}, t.head? ≠ some '\n' → Stops (fun c => decide (c = '\n')) t := by
    intro t ht c hc
    rw [decide_eq_false_iff_not]
    rintro rfl
    exact ht hc
  have hreverse : text.reverse.head? ≠ some '\n' := by
    rw [List.head?_reverse]
    exact hlast
  rw [stripNewlines, (hstop hfirst).dropWhile, (hstop hreverse).dropWhile, List.reverse_reverse]

/-- The text of a document of lines, of which the first and the last are not blank. -/
theorem document_text (hplain : ∀ line ∈ lines, Plain line) (hfirst : lines.head? ≠ some [])
    (hlast : Tidy lines) :
    (if stripNewlines (List.intercalate ['\n'] lines) = [] then []
      else stripNewlines (List.intercalate ['\n'] lines) ++ ['\n']) = written lines := by
  by_cases hnone : lines = []
  · subst hnone
    rfl
  · have htext := intercalate_newline hnone
    obtain ⟨init, last, rfl⟩ := List.eq_nil_or_concat' lines |>.resolve_left hnone
    have hne : last ≠ [] := by
      rintro rfl
      rw [Tidy, List.getLast?_concat] at hlast
      exact hlast rfl
    have hend : List.intercalate ['\n'] (init ++ [last]) = written init ++ last := by
      rw [written_append] at htext
      have hcancel : List.intercalate ['\n'] (init ++ [last]) ++ ['\n'] =
        (written init ++ last) ++ ['\n'] := by
        rw [htext, List.append_assoc, written_cons]
        rfl
      exact List.append_cancel_right hcancel
    have hlastChar : (written init ++ last).getLast? ≠ some '\n' := by
      rw [List.getLast?_append_of_ne_nil _ hne]
      intro h
      exact (hplain last (List.mem_append_right _ (List.mem_singleton_self _)) _
        (List.mem_of_getLast? h)).1 rfl
    have hfirstChar : (written init ++ last).head? ≠ some '\n' := by
      have hblank : ∀ line ∈ init ++ [last], line ≠ [] → line.head? ≠ some '\n' := by
        intro line hline _ h
        exact (hplain line hline _ (List.mem_of_head? h)).1 rfl
      cases init with
      | nil => exact hblank last (List.mem_singleton_self _) hne
      | cons line init =>
        have hline : line ≠ [] := by
          rintro rfl
          exact hfirst rfl
        rw [written_cons, List.append_assoc, List.head?_append_of_ne_nil _ hline]
        exact hblank line List.mem_cons_self hline
    rw [hend, stripNewlines_eq hfirstChar hlastChar,
      if_neg (fun h => hne (List.append_eq_nil_iff.mp h).2), ← hend, htext]

theorem joinCrLf_eq {text : List Char} (h : '\r' ∉ text) : joinCrLf text = text := by
  fun_induction joinCrLf text with
  | case1 => rfl
  | case2 c => rfl
  | case3 rest ih => exact absurd List.mem_cons_self h
  | case4 c d rest hpair ih => rw [ih fun hmem => h (List.mem_cons_of_mem _ hmem)]

theorem plain_line {e : Entry F} (hformed : e.Formed floats) : Plain (e.line beyond) := by
  cases e with
  | header path =>
    refine .cons (by decide) (.append (plain_intercalate ?_ ?_) (.cons (by decide) plain_nil))
    · exact .cons (by decide) plain_nil
    · intro t ht
      obtain ⟨key, -, rfl⟩ := List.mem_map.mp ht
      exact plain_formatKey beyond key
  | pair key value text =>
    refine .append (plain_formatKey beyond key)
      (.cons (by decide) (.cons (by decide) (.cons (by decide) ?_)))
    exact plain_formatScalar hformed.1 hformed.2

theorem plain_spaced (hformed : ∀ e ∈ entries, e.Formed floats) (first : Bool) :
    ∀ line ∈ spaced beyond first entries, Plain line := by
  induction entries generalizing first with
  | nil => exact fun line h => absurd h List.not_mem_nil
  | cons e entries ih =>
    intro line hline
    rw [spaced, List.mem_append, List.mem_cons] at hline
    rcases hline with hgap | rfl | hline
    · rcases e.gap_cases first with h | h
      · rw [h] at hgap
        cases hgap
      · rw [h, List.mem_singleton] at hgap
        rw [hgap]
        exact plain_nil
    · exact plain_line (hformed e List.mem_cons_self)
    · exact ih (fun e he => hformed e (List.mem_cons_of_mem _ he)) false line hline

theorem head_spaced (entries : List (Entry F)) : (spaced beyond true entries).head? ≠ some [] := by
  cases entries with
  | nil => exact fun h => Option.some_ne_none _ h.symm
  | cons e entries =>
    have hgap : e.gap true = [] := by
      cases e <;> rfl
    rw [spaced, hgap, List.nil_append, List.head?_cons]
    exact fun h => e.line_ne (Option.some.inj h)

/-- The entries of a whole document. -/
def documentEntries (floats : FloatText F) (d : Dict F) : List (Entry F) :=
  pairEntries floats d ++ tableEntries floats [] d

/-- The text that the writer gives, where it formats every leaf. -/
theorem dumps_eq (h : ThroughoutDict (fun _ => True) (Formats floats) d)
    (hformed : ∀ e ∈ documentEntries floats d, e.Formed floats) :
    dumps floats beyond d = some (written (spaced beyond true (documentEntries floats d))) := by
  have hempty : Tidy [] := fun h => Option.some_ne_none _ h.symm
  have hscalars := emitScalars_eq beyond (formats_of_throughout h) true []
  have htidy : Tidy ([] ++ spaced beyond true (pairEntries floats d)) :=
    tidy_spaced beyond hempty true _
  have htables : emitTables floats beyond [] d _ = _ := emitTables_eq [] d _ h htidy
  have hlines : emitTable floats beyond d [] [] =
    some (spaced beyond true (documentEntries floats d)) := by
    rw [emitTable, if_pos rfl, hscalars, Option.bind_some, htables, documentEntries, spaced_append,
      isEmpty_append_spaced]
    rfl
  have hlast : Tidy (spaced beyond true (documentEntries floats d)) :=
    tidy_spaced beyond hempty true _
  rw [dumps, hlines, Option.map_some]
  exact congrArg some (document_text (plain_spaced hformed true) (head_spaced _) hlast)

end Text

section Nests

variable {data nest new : Dict F} {path : List String} {key : String}

/-- The table at a path. -/
def nestAt : List String → Dict F → Option (Dict F)
  | [], d => some d
  | key :: path, d =>
    match d.lookup key with
    | some (.dict sub) => nestAt path sub
    | _ => none

/-- A dict with another table at a path. -/
def replaceAt (new : Dict F) : List String → Dict F → Dict F
  | [], _ => new
  | key :: path, d =>
    match d.lookup key with
    | some (.dict sub) => Assoc.assign d key (.dict (replaceAt new path sub))
    | _ => d

theorem nestAt_cons {data : Dict F} (h : nestAt (key :: path) data = some nest) :
    ∃ sub, data.lookup key = some (.dict sub) ∧ nestAt path sub = some nest := by
  rw [nestAt] at h
  split at h
  · exact ⟨_, ‹_›, h⟩
  · cases h

/-- The ways to a table lead through the tables above it. -/
theorem nest_of_lookup {sub : Dict F} (h : data.lookup key = some (.dict sub)) (path : List String)
    (new : Dict F) (f : Dict F → Option (Dict F)) :
    nestAt (key :: path) data = nestAt path sub ∧
      replaceAt new (key :: path) data = Assoc.assign data key (.dict (replaceAt new path sub)) ∧
      withNest f (key :: path) data = (withNest f path sub).map fun sub =>
        Assoc.assign data key (.dict sub) := by
  simp only [nestAt, replaceAt, withNest, h, and_self]

theorem nestAt_of_lookup {sub : Dict F} (h : data.lookup key = some (.dict sub))
    (path : List String) : nestAt (key :: path) data = nestAt path sub :=
  (nest_of_lookup h path [] some).1

theorem replaceAt_of_lookup {sub : Dict F} (h : data.lookup key = some (.dict sub))
    (path : List String) (new : Dict F) :
    replaceAt new (key :: path) data = Assoc.assign data key (.dict (replaceAt new path sub)) :=
  (nest_of_lookup h path new some).2.1

theorem withNest_of_lookup {sub : Dict F} (h : data.lookup key = some (.dict sub))
    (path : List String) (f : Dict F → Option (Dict F)) :
    withNest f (key :: path) data = (withNest f path sub).map fun sub =>
      Assoc.assign data key (.dict sub) :=
  (nest_of_lookup h path [] f).2.2

theorem withNest_eq (h : nestAt path data = some nest) (f : Dict F → Option (Dict F)) :
    withNest f path data = (f nest).map fun new => replaceAt new path data := by
  induction path generalizing data with
  | nil =>
    cases h
    show f nest = (f nest).map fun new => new
    rw [Option.map_id']
  | cons key path ih =>
    obtain ⟨sub, hlookup, hsub⟩ := nestAt_cons h
    rw [withNest_of_lookup hlookup, ih hsub, Option.map_map]
    refine congrArg (fun g => Option.map g (f nest)) (funext fun new => ?_)
    exact (replaceAt_of_lookup hlookup path new).symm

theorem nestAt_replaceAt (h : nestAt path data = some nest) (new : Dict F) :
    nestAt path (replaceAt new path data) = some new := by
  induction path generalizing data with
  | nil => rfl
  | cons key path ih =>
    obtain ⟨sub, hlookup, hsub⟩ := nestAt_cons h
    rw [replaceAt_of_lookup hlookup, nestAt_of_lookup (Assoc.lookup_assign_self data key _),
      ih hsub]

theorem replaceAt_replaceAt (h : nestAt path data = some nest) (new newer : Dict F) :
    replaceAt newer path (replaceAt new path data) = replaceAt newer path data := by
  induction path generalizing data with
  | nil => rfl
  | cons key path ih =>
    obtain ⟨sub, hlookup, hsub⟩ := nestAt_cons h
    rw [replaceAt_of_lookup hlookup, replaceAt_of_lookup (Assoc.lookup_assign_self data key _),
      Assoc.assign_assign, ih hsub, replaceAt_of_lookup hlookup]

theorem replaceAt_self (h : nestAt path data = some nest) : replaceAt nest path data = data := by
  induction path generalizing data with
  | nil => exact (Option.some.inj h).symm
  | cons key path ih =>
    obtain ⟨sub, hlookup, hsub⟩ := nestAt_cons h
    rw [replaceAt_of_lookup hlookup, ih hsub]
    exact Assoc.assign_lookup hlookup

theorem nestAt_concat (h : nestAt path data = some nest) {sub : Dict F}
    (hsub : nest.lookup key = some (.dict sub)) :
    nestAt (path ++ [key]) data = some sub := by
  induction path generalizing data with
  | nil =>
    cases h
    rw [List.nil_append, nestAt_of_lookup hsub]
    rfl
  | cons k path ih =>
    obtain ⟨between, hlookup, hbetween⟩ := nestAt_cons h
    rw [List.cons_append, nestAt_of_lookup hlookup, ih hbetween]

theorem replaceAt_concat (h : nestAt path data = some nest) {sub : Dict F}
    (hsub : nest.lookup key = some (.dict sub)) (new : Dict F) :
    replaceAt new (path ++ [key]) data =
      replaceAt (Assoc.assign nest key (.dict new)) path data := by
  induction path generalizing data with
  | nil =>
    cases h
    rw [List.nil_append, replaceAt_of_lookup hsub]
    rfl
  | cons k path ih =>
    obtain ⟨between, hlookup, hbetween⟩ := nestAt_cons h
    rw [List.cons_append, replaceAt_of_lookup hlookup, replaceAt_of_lookup hlookup, ih hbetween]

/-- A table that is declared where none stands is empty. -/
theorem withNest_concat (h : nestAt path data = some nest) (hkey : nest.lookup key = none) :
    withNest some (path ++ [key]) data =
      some (replaceAt (nest ++ [(key, .dict [])]) path data) := by
  induction path generalizing data with
  | nil =>
    cases h
    simp only [List.nil_append, withNest, hkey, Option.map_some,
      Assoc.assign_of_lookup_eq_none hkey, replaceAt]
  | cons k path ih =>
    obtain ⟨between, hlookup, hbetween⟩ := nestAt_cons h
    rw [List.cons_append, withNest_of_lookup hlookup, ih hbetween, Option.map_some,
      replaceAt_of_lookup hlookup]

end Nests

section Load

variable {d sub nest : Dict F} {value : Value F} {path : List String} {key : String} {doc : Doc F}

/-- What the writer takes: strings, bools, integers, floats that are no NaN, flat lists of them, and
dicts of these. -/
inductive Writable (floats : FloatText F) : Value F → Prop where
  | leaf {value : Value F} (h : IsLeaf floats value) : Writable floats value
  | dict {d : Dict F} (nodup : (d.map Prod.fst).Nodup) (items : ∀ kv ∈ d, Writable floats kv.2) :
      Writable floats (.dict d)

theorem Writable.nodup (h : Writable floats (.dict d)) : (d.map Prod.fst).Nodup := by
  cases h with
  | leaf h => cases h
  | dict nodup _ => exact nodup

theorem Writable.items (h : Writable floats (.dict d)) : ∀ kv ∈ d, Writable floats kv.2 := by
  cases h with
  | leaf h => cases h
  | dict _ items => exact items

theorem Writable.isLeaf (h : Writable floats value) (hvalue : isDict value = false) :
    IsLeaf floats value := by
  cases h with
  | leaf h => exact h
  | dict _ _ => cases hvalue

def scalarsOf (d : Dict F) : Dict F := d.filter fun kv => !isDict kv.2

mutual

/-- What a value adds to the loaded dict in its place among the sub-tables. -/
def loadedItem : String → Value F → Dict F
  | key, .dict sub => [(key, .dict (scalarsOf sub ++ loadedTables sub))]
  | _, _ => []

def loadedTables : List (String × Value F) → Dict F
  | [] => []
  | (key, value) :: rest => loadedItem key value ++ loadedTables rest

end

/-- The dict as it is loaded: a table's scalars come before its sub-tables. -/
def loaded (d : Dict F) : Dict F := scalarsOf d ++ loadedTables d

theorem lookup_append_none {d e : Dict F} (hd : d.lookup key = none) (he : e.lookup key = none) :
    (d ++ e).lookup key = none := by
  rw [List.lookup_append, hd, he]
  rfl

theorem lookup_loadedItem_of_ne {other : String} (h : other ≠ key) (value : Value F) :
    (loadedItem key value).lookup other = none := by
  cases value with
  | dict sub => exact Assoc.lookup_cons_of_ne h _ []
  | _ => rfl

/-- The scalars of a table go into its nest. -/
theorem runAll_pairs (doc : Doc F) (kvs : Dict F) (text : String × Value F → List Char)
    (h : nestAt doc.header doc.data = some nest)
    (hnew : ∀ kv ∈ kvs, nest.lookup kv.1 = none) (hnodup : (kvs.map Prod.fst).Nodup) :
    runAll doc (kvs.map fun kv => .pair kv.1 kv.2 (text kv)) =
      some { doc with data := replaceAt (nest ++ kvs) doc.header doc.data } := by
  induction kvs generalizing doc nest with
  | nil =>
    rw [List.append_nil, replaceAt_self h]
    rfl
  | cons kv rest ih =>
    obtain ⟨key, value⟩ := kv
    have hkey := hnew (key, value) List.mem_cons_self
    have hput : doc.put key value =
        some { doc with data := replaceAt (nest ++ [(key, value)]) doc.header doc.data } := by
      have hinsert : insertNew key value nest = some (nest ++ [(key, value)]) := by
        rw [insertNew, hkey, Assoc.assign_of_lookup_eq_none hkey]
        rfl
      rw [Doc.put, withNest_eq h, hinsert]
      rfl
    have hrest : ∀ kv ∈ rest, (nest ++ [(key, value)]).lookup kv.1 = none := by
      intro kv hkv
      refine lookup_append_none (hnew kv (List.mem_cons_of_mem _ hkv)) ?_
      have hmem : kv.1 ∈ rest.map Prod.fst := List.mem_map_of_mem hkv
      have hne : kv.1 ≠ key := by
        intro heq
        rw [heq] at hmem
        exact (List.nodup_cons.mp hnodup).1 hmem
      exact Assoc.lookup_cons_of_ne hne value []
    rw [List.map_cons, runAll_cons]
    show (doc.put key value).bind _ = _
    rw [hput, Option.bind_some, ih _ (nestAt_replaceAt h _) hrest (List.nodup_cons.mp hnodup).2,
      replaceAt_replaceAt h, List.append_assoc]
    rfl

theorem runAll_append (doc : Doc F) (entries more : List (Entry F)) :
    runAll doc (entries ++ more) = (runAll doc entries).bind fun doc => runAll doc more :=
  List.foldlM_append

/-- A document after entries of these names: another nest stands at a path, and no other tables were
declared. -/
structure Ran (doc doc' : Doc F) (path : List String) (nest : Dict F)
    (names : List String) : Prop where
  data : doc'.data = replaceAt nest path doc.data
  declared : ∀ e ∈ doc'.explicit, e ∈ doc.explicit ∨ ∃ name ∈ names, path ++ [name] <+: e

theorem lookup_scalarsOf_none (hnodup : (d.map Prod.fst).Nodup) {kv : String × Value F}
    (hkv : kv ∈ d) (hdict : isDict kv.2 = true) : (scalarsOf d).lookup kv.1 = none := by
  refine Assoc.lookup_of_not_mem ?_
  intro hmem
  obtain ⟨other, hother, hkey⟩ := List.mem_map.mp hmem
  obtain ⟨hin, hscalar⟩ := List.mem_filter.mp hother
  have hsame : other = kv := List.inj_on_of_nodup_map hnodup hin hkv hkey
  rw [hsame, hdict] at hscalar
  cases hscalar

/-- What is no table has no entry of its own here. -/
theorem runAll_leaf {doc : Doc F} (hnest : nestAt path doc.data = some nest)
    (hentries : subEntries floats (path ++ [key]) value = [])
    (hloaded : loadedItem key value = []) :
    ∃ doc', runAll doc (subEntries floats (path ++ [key]) value) = some doc' ∧
      Ran doc doc' path (nest ++ loadedItem key value) [key] := by
  refine ⟨doc, by rw [hentries]; rfl, ?_, fun e he => .inl he⟩
  rw [hloaded, List.append_nil, replaceAt_self hnest]

theorem not_prefix_self (path : List String) (key : String) : ¬path ++ [key] <+: path := by
  intro h
  have hlength := h.length_le
  rw [List.length_append, List.length_singleton] at hlength
  omega

mutual

/-- The entries of a sub-table put it behind the nest that it stands in. -/
theorem runAll_sub : ∀ (path : List String) (key : String) (value : Value F) (doc : Doc F)
    (nest : Dict F), Writable floats value → nestAt path doc.data = some nest →
      (isDict value = true → nest.lookup key = none) → (∀ e ∈ doc.explicit, ¬path ++ [key] <+: e) →
        ∃ doc', runAll doc (subEntries floats (path ++ [key]) value) = some doc' ∧
          Ran doc doc' path (nest ++ loadedItem key value) [key]
  | path, key, .dict sub, doc, nest, hwritable, hnest, hkey, hexplicit => by
    have hlookup := hkey rfl
    have hnew : path ++ [key] ∉ doc.explicit := fun hmem => hexplicit _ hmem (List.prefix_refl _)
    have hdeclare : doc.declare (path ++ [key]) =
        some ⟨replaceAt (nest ++ [(key, .dict [])]) path doc.data, path ++ [key],
          doc.explicit ++ [path ++ [key]]⟩ := by
      rw [Doc.declare, if_neg hnew, withNest_concat hnest hlookup]
      rfl
    have hopen : (nest ++ [(key, (.dict [] : Value F))]).lookup key = some (.dict []) := by
      rw [List.lookup_append, hlookup, List.lookup_cons, beq_self_eq_true]
      rfl
    have hat := nestAt_concat (nestAt_replaceAt hnest (nest ++ [(key, .dict [])])) hopen
    have hpairs := runAll_pairs ⟨replaceAt (nest ++ [(key, .dict [])]) path doc.data,
        path ++ [key], doc.explicit ++ [path ++ [key]]⟩ (scalarsOf sub)
      (fun kv => (formatScalar floats kv.2).getD []) hat (fun kv _ => rfl)
      (hwritable.nodup.sublist (List.filter_sublist.map Prod.fst))
    have hat' := nestAt_replaceAt hat ([] ++ scalarsOf sub)
    obtain ⟨doc', hrun, hran⟩ := runAll_tables (path ++ [key]) sub
      ⟨replaceAt ([] ++ scalarsOf sub) (path ++ [key])
        (replaceAt (nest ++ [(key, .dict [])]) path doc.data), path ++ [key],
          doc.explicit ++ [path ++ [key]]⟩ (scalarsOf sub) hwritable.items hwritable.nodup hat'
      (fun kv hkv hdict => lookup_scalarsOf_none hwritable.nodup hkv hdict)
      (fun e he name _ hprefix => by
        rcases List.mem_append.mp he with he | he
        · exact hexplicit e he ((List.prefix_append _ _).trans hprefix)
        · rw [List.mem_singleton.mp he] at hprefix
          exact not_prefix_self _ _ hprefix)
    refine ⟨doc', ?_, ?_, ?_⟩
    · rw [subEntries, runAll_cons]
      show (doc.declare (path ++ [key])).bind _ = _
      rw [hdeclare, Option.bind_some, runAll_append]
      show (runAll _ ((scalarsOf sub).map _)).bind _ = _
      rw [hpairs, Option.bind_some, hrun]
    · have hfresh : key ∉ nest.map Prod.fst := Assoc.not_mem_of_lookup_eq_none hlookup
      have hassign : Assoc.assign (nest ++ [(key, (.dict [] : Value F))]) key
          (.dict (scalarsOf sub ++ loadedTables sub)) = nest ++ loadedItem key (.dict sub) := by
        rw [Assoc.assign_append hfresh, Assoc.assign, if_pos rfl]
        rfl
      rw [hran.data, replaceAt_replaceAt hat, replaceAt_concat (nestAt_replaceAt hnest _) hopen,
        replaceAt_replaceAt hnest, hassign]
    · intro e he
      rcases hran.declared e he with he | ⟨name, -, hprefix⟩
      · rcases List.mem_append.mp he with he | he
        · exact .inl he
        · exact .inr ⟨key, List.mem_singleton_self key,
            (List.mem_singleton.mp he) ▸ List.prefix_refl _⟩
      · exact .inr ⟨key, List.mem_singleton_self key, (List.prefix_append _ _).trans hprefix⟩
  | path, key, .none, doc, nest, _, hnest, _, _ => runAll_leaf hnest rfl rfl
  | path, key, .bool b, doc, nest, _, hnest, _, _ => runAll_leaf hnest rfl rfl
  | path, key, .int n, doc, nest, _, hnest, _, _ => runAll_leaf hnest rfl rfl
  | path, key, .float x, doc, nest, _, hnest, _, _ => runAll_leaf hnest rfl rfl
  | path, key, .str s, doc, nest, _, hnest, _, _ => runAll_leaf hnest rfl rfl
  | path, key, .list xs, doc, nest, _, hnest, _, _ => runAll_leaf hnest rfl rfl
  | path, key, .other type id, doc, nest, _, hnest, _, _ => runAll_leaf hnest rfl rfl

theorem runAll_tables : ∀ (path : List String) (d : List (String × Value F)) (doc : Doc F)
    (nest : Dict F), (∀ kv ∈ d, Writable floats kv.2) → (d.map Prod.fst).Nodup →
      nestAt path doc.data = some nest → (∀ kv ∈ d, isDict kv.2 = true → nest.lookup kv.1 = none) →
        (∀ e ∈ doc.explicit, ∀ name ∈ d.map Prod.fst, ¬path ++ [name] <+: e) →
          ∃ doc', runAll doc (tableEntries floats path d) = some doc' ∧
            Ran doc doc' path (nest ++ loadedTables d) (d.map Prod.fst)
  | path, [], doc, nest, _, _, hnest, _, _ => by
    refine ⟨doc, rfl, ?_, fun e he => .inl he⟩
    rw [loadedTables, List.append_nil, replaceAt_self hnest]
  | path, (key, value) :: rest, doc, nest, hwritable, hnodup, hnest, hkeys, hexplicit => by
    obtain ⟨hfresh, hrest⟩ := List.nodup_cons.mp hnodup
    obtain ⟨doc', hrun, hran⟩ :=
      runAll_sub path key value doc nest (hwritable _ List.mem_cons_self) hnest
      (hkeys _ List.mem_cons_self) (fun e he => hexplicit e he key List.mem_cons_self)
    have hnest' : nestAt path doc'.data = some (nest ++ loadedItem key value) := by
      rw [hran.data]
      exact nestAt_replaceAt hnest _
    have hother : ∀ kv ∈ rest, kv.1 ≠ key := by
      intro kv hkv heq
      have hmem : kv.1 ∈ rest.map Prod.fst := List.mem_map_of_mem hkv
      rw [heq] at hmem
      exact hfresh hmem
    obtain ⟨doc'', hlater, hran'⟩ := runAll_tables path rest doc' (nest ++ loadedItem key value)
      (fun kv hkv => hwritable kv (List.mem_cons_of_mem _ hkv)) hrest hnest'
      (fun kv hkv hdict => lookup_append_none (hkeys kv (List.mem_cons_of_mem _ hkv) hdict)
        (lookup_loadedItem_of_ne (hother kv hkv) value))
      (fun e he name hname hprefix => by
        rcases hran.declared e he with he | ⟨first, hfirst, hbelow⟩
        · exact hexplicit e he name (List.mem_cons_of_mem _ hname) hprefix
        · -- Tables of two names do not lie one within the other.
          rw [List.mem_singleton.mp hfirst] at hbelow
          have hsame :=
            (List.prefix_of_prefix_length_le hprefix hbelow (by simp)).eq_of_length (by simp)
          rw [List.append_right_inj, List.singleton_inj] at hsame
          rw [hsame] at hname
          exact hfresh hname)
    refine ⟨doc'', ?_, ?_, ?_⟩
    · rw [tableEntries, runAll_append, hrun, Option.bind_some, hlater]
    · rw [hran'.data, hran.data, replaceAt_replaceAt hnest, loadedTables, List.append_assoc]
    · intro e he
      rcases hran'.declared e he with he | ⟨name, hname, hprefix⟩
      · rcases hran.declared e he with he | ⟨name, hname, hprefix⟩
        · exact .inl he
        · exact .inr ⟨name, (List.mem_singleton.mp hname) ▸ List.mem_cons_self, hprefix⟩
      · exact .inr ⟨name, List.mem_cons_of_mem _ hname, hprefix⟩

end

/-- A writable dict that is formatted is loaded with its scalars first. -/
theorem loads_document (hwritable : Writable floats (.dict d)) :
    ∃ doc', runAll ⟨[], [], []⟩ (documentEntries floats d) = some doc' ∧ doc'.data = loaded d := by
  have hpairs := runAll_pairs ⟨[], [], []⟩ (scalarsOf d) (fun kv =>
    (formatScalar floats kv.2).getD []) rfl (fun kv _ => rfl)
      (hwritable.nodup.sublist (List.filter_sublist.map Prod.fst))
  obtain ⟨doc', hrun, hran⟩ :=
    runAll_tables [] d ⟨scalarsOf d, [], []⟩ (scalarsOf d) hwritable.items hwritable.nodup
    rfl (fun kv hkv hdict => lookup_scalarsOf_none hwritable.nodup hkv hdict)
    (fun e he => absurd he List.not_mem_nil)
  refine ⟨doc', ?_, hran.data⟩
  rw [documentEntries, runAll_append]
  show (runAll _ ((scalarsOf d).map _)).bind _ = _
  rw [hpairs, Option.bind_some]
  exact hrun

end Load

section Same

variable {d e : Dict F} {value : Value F} {xs : List (Value F)}

theorem same_item (h : IsItem floats value) : same floats value value = true := by
  cases value with
  | bool b => simp [same]
  | int n => simp [same]
  | float x => exact floats.eq_self h
  | str s => simp [same]
  | _ => cases h

theorem same_leaf (h : IsLeaf floats value) : same floats value value = true := by
  rcases h.cases with ⟨xs, rfl, hitems⟩ | ⟨hitem, -⟩
  · rw [same]
    induction xs with
    | nil => rfl
    | cons x xs ih =>
      have hrest : ∀ y ∈ xs, IsItem floats y := fun y hy => hitems y (List.mem_cons_of_mem _ hy)
      rw [sameList, same_item (hitems x List.mem_cons_self), ih hrest hrest]
      rfl
  · exact same_item hitem

theorem sameDict_iff : sameDict floats d e = true ↔
    ∀ kv ∈ d, ∃ w, e.lookup kv.1 = some w ∧ same floats kv.2 w = true := by
  induction d with
  | nil => exact ⟨fun _ kv h => absurd h List.not_mem_nil, fun _ => rfl⟩
  | cons kv rest ih =>
    obtain ⟨k, v⟩ := kv
    rw [sameDict, Bool.and_eq_true, ih, List.forall_mem_cons]
    cases e.lookup k <;> simp

theorem length_loaded (d : Dict F) : (loaded d).length = d.length := by
  have htables : (loadedTables d).length = (d.filter fun kv => isDict kv.2).length := by
    induction d with
    | nil => rfl
    | cons kv rest ih =>
      obtain ⟨key, value⟩ := kv
      rw [loadedTables, List.length_append, ih]
      cases value with
      | dict sub =>
        rw [List.filter_cons_of_pos rfl, List.length_cons, Nat.add_comm]
        rfl
      | _ =>
        rw [List.filter_cons_of_neg Bool.false_ne_true]
        exact Nat.zero_add _
  have hsplit : ∀ d : Dict F,
      (d.filter fun kv => !isDict kv.2).length + (d.filter fun kv => isDict kv.2).length =
      d.length := by
    intro d
    induction d with
    | nil => rfl
    | cons kv rest ih => cases h : isDict kv.2 <;> simp [h] <;> omega
  rw [loaded, List.length_append, htables]
  exact hsplit d

theorem loaded_cases {kv : String × Value F} (h : kv ∈ loadedTables d) :
    ∃ sub, (kv.1, .dict sub) ∈ d ∧ kv.2 = .dict (loaded sub) := by
  induction d with
  | nil => cases h
  | cons first rest ih =>
    obtain ⟨key, value⟩ := first
    rcases List.mem_append.mp h with h | h
    · cases value with
      | dict sub =>
        rw [loadedItem, List.mem_singleton] at h
        rw [h]
        exact ⟨sub, List.mem_cons_self, rfl⟩
      | _ => cases h
    · obtain ⟨sub, hsub, hvalue⟩ := ih h
      exact ⟨sub, List.mem_cons_of_mem _ hsub, hvalue⟩

/-- The loaded dict is the dict. -/
theorem same_loaded (h : Writable floats value) :
    ∀ d, value = .dict d → same floats (.dict (loaded d)) (.dict d) = true := by
  induction h with
  | leaf h =>
    rintro d rfl
    cases h
  | @dict d hnodup hitems ih =>
    rintro d' hd
    cases hd
    rw [same, length_loaded, decide_eq_true rfl, Bool.true_and, sameDict_iff]
    intro kv hkv
    rcases List.mem_append.mp hkv with hscalar | htable
    · obtain ⟨hmem, hleaf⟩ := List.mem_filter.mp hscalar
      rw [Bool.not_eq_true'] at hleaf
      exact ⟨kv.2, Assoc.lookup_of_mem hnodup hmem, same_leaf ((hitems kv hmem).isLeaf hleaf)⟩
    · obtain ⟨sub, hmem, hvalue⟩ := loaded_cases htable
      refine ⟨.dict sub, Assoc.lookup_of_mem hnodup hmem, ?_⟩
      rw [hvalue]
      exact ih _ hmem sub rfl

end Same

section RoundTrip

variable {d sub : Dict F} {value : Value F} {path : List String} {P : String → Prop}
  {Q : Value F → Prop}

/-- An integer of no more digits than are written. -/
def ItemFits : Value F → Prop
  | .int n => (Nat.toDigits 10 n.natAbs).length ≤ intMaxStrDigits
  | _ => True

def Fits : Value F → Prop
  | .list xs => ∀ x ∈ xs, ItemFits x
  | value => ItemFits value

theorem formatItem_isSome (h : IsItem floats value) :
    (formatItem floats value).isSome = true ↔ ItemFits value := by
  cases value with
  | int n =>
    simp only [formatItem, formatInt, ItemFits, ← not_lt]
    split_ifs with hlong <;> simp [hlong]
  | bool b => exact ⟨fun _ => trivial, fun _ => rfl⟩
  | float x => exact ⟨fun _ => trivial, fun _ => rfl⟩
  | str s => exact ⟨fun _ => trivial, fun _ => rfl⟩
  | _ => cases h

theorem mapM_isSome {A B : Type} (f : A → Option B) (xs : List A) :
    (xs.mapM f).isSome = true ↔ ∀ x ∈ xs, (f x).isSome = true := by
  induction xs with
  | nil => exact ⟨fun _ x hx => absurd hx List.not_mem_nil, fun _ => rfl⟩
  | cons x xs ih =>
    rw [List.mapM_cons, List.forall_mem_cons, ← ih]
    cases f x with
    | none => simp
    | some y => cases xs.mapM f <;> simp

theorem formats_iff (h : IsLeaf floats value) : Formats floats value ↔ Fits value := by
  rcases h.cases with ⟨xs, rfl, hitems⟩ | ⟨hitem, hformat⟩
  · rw [Formats, formatScalar, Option.isSome_map, mapM_isSome]
    exact forall₂_congr fun x hx => formatItem_isSome (hitems x hx)
  · have hfits : Fits value = ItemFits value := by
      cases value with
      | list xs => cases hitem
      | _ => rfl
    rw [Formats, hformat, hfits]
    exact formatItem_isSome hitem

theorem throughout_mono {P' : String → Prop} {Q' : Value F → Prop} (hP : ∀ key, P key → P' key)
    (h : Writable floats value) (hQ : ∀ v : Value F, IsLeaf floats v → Q v → Q' v) :
    Throughout P Q value → Throughout P' Q' value := by
  induction h with
  | @leaf value hleaf =>
    intro hall
    cases value with
    | dict d => cases hleaf
    | _ => exact hQ _ hleaf hall
  | @dict d hnodup hitems ih =>
    intro hall
    rw [Throughout, throughoutDict_iff] at hall ⊢
    exact fun kv hkv => ⟨hP _ (hall kv hkv).1, ih kv hkv (hall kv hkv).2⟩

theorem throughout_and (h : Writable floats value) (hP : Throughout P (fun _ => True) value)
    (hQ : Throughout (fun _ => True) Q value) : Throughout P Q value := by
  induction h with
  | @leaf value hleaf =>
    cases value with
    | dict d => cases hleaf
    | _ => exact hQ
  | @dict d hnodup hitems ih =>
    rw [Throughout, throughoutDict_iff] at hP hQ ⊢
    exact fun kv hkv => ⟨(hP kv hkv).1, ih kv hkv (hP kv hkv).2 (hQ kv hkv).2⟩

theorem pairEntries_formed (hwritable : Writable floats (.dict d))
    (hformats : ThroughoutDict (fun _ => True) (Formats floats) d) :
    ∀ e ∈ pairEntries floats d, e.Formed floats := by
  intro e he
  obtain ⟨kv, hkv, rfl⟩ := List.mem_map.mp he
  obtain ⟨hmem, hleaf⟩ := List.mem_filter.mp hkv
  rw [Bool.not_eq_true'] at hleaf
  obtain ⟨text, htext⟩ := Option.isSome_iff_exists.mp (formats_of_throughout hformats kv hmem hleaf)
  refine ⟨(hwritable.items kv hmem).isLeaf hleaf, ?_⟩
  rw [htext]
  rfl

mutual

theorem subEntries_formed : ∀ (path : List String) (value : Value F), path ≠ [] →
    Writable floats value → Throughout (fun _ => True) (Formats floats) value →
      ∀ e ∈ subEntries floats path value, e.Formed floats
  | path, .dict sub, hpath, hwritable, hformats => fun e he => by
    rcases List.mem_cons.mp he with rfl | he
    · exact hpath
    · rcases List.mem_append.mp he with he | he
      · exact pairEntries_formed hwritable hformats e he
      · exact tableEntries_formed path sub hwritable.items hformats e he
  | _, .none, _, _, _ => fun e he => absurd he List.not_mem_nil
  | _, .bool _, _, _, _ => fun e he => absurd he List.not_mem_nil
  | _, .int _, _, _, _ => fun e he => absurd he List.not_mem_nil
  | _, .float _, _, _, _ => fun e he => absurd he List.not_mem_nil
  | _, .str _, _, _, _ => fun e he => absurd he List.not_mem_nil
  | _, .list _, _, _, _ => fun e he => absurd he List.not_mem_nil
  | _, .other _ _, _, _, _ => fun e he => absurd he List.not_mem_nil

theorem tableEntries_formed : ∀ (path : List String) (d : List (String × Value F)),
    (∀ kv ∈ d, Writable floats kv.2) → ThroughoutDict (fun _ => True) (Formats floats) d →
      ∀ e ∈ tableEntries floats path d, e.Formed floats
  | _, [], _, _ => fun e he => absurd he List.not_mem_nil
  | path, (key, value) :: rest, hwritable, hformats => fun e he => by
    rcases List.mem_append.mp he with he | he
    · exact subEntries_formed (path ++ [key]) value (by simp) (hwritable _ List.mem_cons_self)
        hformats.2.1 e he
    · exact tableEntries_formed path rest (fun kv hkv => hwritable kv (List.mem_cons_of_mem _ hkv))
        hformats.2.2 e he

end

/-- The keys of the pairs of a table are those of its leaves. -/
theorem pairEntries_safe (h : ∀ kv ∈ d, KeySafe beyond kv.1) :
    ∀ e ∈ pairEntries floats d, e.Safe beyond := by
  intro e he
  obtain ⟨kv, hkv, rfl⟩ := List.mem_map.mp he
  exact h kv (List.mem_filter.mp hkv).1

mutual

/-- The lines are safe where the keys are. -/
theorem subEntries_safe : ∀ (path : List String) (value : Value F),
    (∀ key ∈ path, KeySafe beyond key) → Throughout (KeySafe beyond) (fun _ => True) value →
      ∀ e ∈ subEntries floats path value, e.Safe beyond
  | path, .dict sub, hpath, hall => fun e he => by
    rcases List.mem_cons.mp he with rfl | he
    · exact hpath
    · rcases List.mem_append.mp he with he | he
      · exact pairEntries_safe (fun kv hkv => (throughoutDict_iff.mp hall kv hkv).1) e he
      · exact tableEntries_safe path sub hpath hall e he
  | _, .none, _, _ => fun e he => absurd he List.not_mem_nil
  | _, .bool _, _, _ => fun e he => absurd he List.not_mem_nil
  | _, .int _, _, _ => fun e he => absurd he List.not_mem_nil
  | _, .float _, _, _ => fun e he => absurd he List.not_mem_nil
  | _, .str _, _, _ => fun e he => absurd he List.not_mem_nil
  | _, .list _, _, _ => fun e he => absurd he List.not_mem_nil
  | _, .other _ _, _, _ => fun e he => absurd he List.not_mem_nil

theorem tableEntries_safe : ∀ (path : List String) (d : List (String × Value F)),
    (∀ key ∈ path, KeySafe beyond key) → ThroughoutDict (KeySafe beyond) (fun _ => True) d →
      ∀ e ∈ tableEntries floats path d, e.Safe beyond
  | _, [], _, _ => fun e he => absurd he List.not_mem_nil
  | path, (key, value) :: rest, hpath, hall => fun e he => by
    rcases List.mem_append.mp he with he | he
    · refine subEntries_safe (path ++ [key]) value ?_ hall.2.1 e he
      intro k hk
      rcases List.mem_append.mp hk with hk | hk
      · exact hpath k hk
      · exact (List.mem_singleton.mp hk) ▸ hall.1
    · exact tableEntries_safe path rest hpath hall.2.2 e he

end

/-- The keys are safe where the lines are. -/
theorem throughout_of_safe (h : Writable floats value) :
    ∀ (d : Dict F) (path : List String), value = .dict d →
      (∀ e ∈ pairEntries floats d ++ tableEntries floats path d, e.Safe beyond) →
      ThroughoutDict (KeySafe beyond) (fun _ => True) d := by
  induction h with
  | leaf h =>
    rintro d path rfl
    cases h
  | @dict d hnodup hitems ih =>
    rintro d' path hd hsafe
    cases hd
    have htables : ∀ (rest : Dict F), (∀ kv ∈ rest, kv ∈ d) →
        (∀ e ∈ tableEntries floats path rest, e.Safe beyond) →
        ∀ kv ∈ rest, isDict kv.2 = true → KeySafe beyond kv.1 ∧
          Throughout (KeySafe beyond) (fun _ => True) kv.2 := by
      intro rest
      induction rest with
      | nil => exact fun _ _ kv hkv => absurd hkv List.not_mem_nil
      | cons kv rest ihrest =>
        intro hsub hall
        obtain ⟨key, value⟩ := kv
        refine List.forall_mem_cons.mpr ⟨fun hdict => ?_,
          ihrest (fun kv hkv => hsub kv (List.mem_cons_of_mem _ hkv))
          fun e he => hall e (List.mem_append_right _ he)⟩
        cases value with
        | dict sub =>
          have hhere : ∀ e ∈ subEntries floats (path ++ [key]) (.dict sub), e.Safe beyond :=
            fun e he => hall e (List.mem_append_left _ he)
          have hheader := hhere _ List.mem_cons_self
          exact ⟨hheader key (List.mem_append_right _ (List.mem_singleton_self key)),
            ih _ (hsub _ List.mem_cons_self) sub (path ++
              [key]) rfl fun e he => hhere e (List.mem_cons_of_mem _ he)⟩
        | _ => cases hdict
    refine throughoutDict_iff.mpr fun kv hkv => ?_
    cases hvalue : isDict kv.2 with
    | true =>
      exact htables d (fun _ h => h) (fun e he => hsafe e (List.mem_append_right _ he)) kv hkv
        hvalue
    | false =>
      have hpair : (.pair kv.1 kv.2 ((formatScalar floats kv.2).getD []) : Entry F) ∈
        pairEntries floats d :=
        List.mem_map.mpr ⟨kv, List.mem_filter.mpr ⟨hkv, by rw [hvalue]; rfl⟩, rfl⟩
      refine ⟨hsafe _ (List.mem_append_left _ hpair), ?_⟩
      obtain ⟨key, value⟩ := kv
      cases value with
      | dict sub => cases hvalue
      | _ => trivial

/-- The contract of the module: what is written parses back as the dict. -/
def RoundTrips (floats : FloatText F) (beyond : Char → Bool) (d : Dict F) : Prop :=
  ∃ text data, dumps floats beyond d = some text ∧ loads floats text = some data ∧
    same floats (.dict data) (.dict d) = true

theorem documentEntries_formed (h : ThroughoutDict (fun _ => True) (Formats floats) d)
    (hwritable : Writable floats (.dict d)) : ∀ e ∈ documentEntries floats d, e.Formed floats := by
  intro e he
  rcases List.mem_append.mp he with he | he
  · exact pairEntries_formed hwritable h e he
  · exact tableEntries_formed [] d hwritable.items h e he

/-- A document's lines hold no carriage return for the reader to drop. -/
theorem joinCrLf_document {entries : List (Entry F)} (hformed : ∀ e ∈ entries, e.Formed floats) :
    joinCrLf (written (spaced beyond true entries)) = written (spaced beyond true entries) := by
  refine joinCrLf_eq fun hmem => ?_
  obtain ⟨line, hline, hc⟩ := List.mem_flatMap.mp hmem
  rcases List.mem_append.mp hc with hc | hc
  · exact (plain_spaced hformed true line hline _ hc).2 rfl
  · exact absurd (List.mem_singleton.mp hc) (by decide)

theorem formats_of_dumps {text : List Char} (h : dumps floats beyond d = some text) :
    ThroughoutDict (fun _ => True) (Formats floats) d := by
  obtain ⟨lines, hemit, -⟩ := Option.map_eq_some_iff.mp h
  obtain ⟨between, hscalars, htables⟩ := Option.bind_eq_some_iff.mp hemit
  refine throughoutDict_iff.mpr fun kv hkv => ⟨trivial, ?_⟩
  cases hvalue : isDict kv.2 with
  | true => exact formats_of_emitTables [] d between lines htables kv hkv hvalue
  | false =>
    have hleaf := formats_of_emitScalars hscalars kv hkv hvalue
    obtain ⟨key, value⟩ := kv
    cases value with
    | dict sub => cases hvalue
    | _ => exact hleaf

/-- The round trip holds exactly where every bare key is ASCII and every integer short enough to be
written. -/
theorem roundTrips_iff (hwritable : Writable floats (.dict d)) :
    RoundTrips floats beyond d ↔ ThroughoutDict (KeySafe beyond) Fits d := by
  constructor
  · rintro ⟨text, data, hdumps, hloads, -⟩
    have hformats := formats_of_dumps hdumps
    have hformed := documentEntries_formed hformats hwritable
    have hsafe : ∀ e ∈ documentEntries floats d, e.Safe beyond := by
      by_contra hnot
      have hrefused : ∃ e ∈ documentEntries floats d, ¬e.Safe beyond := by
        by_contra hnone
        exact hnot fun e he => not_not.mp fun hbad => hnone ⟨e, he, hbad⟩
      rw [dumps_eq hformats hformed] at hdumps
      rw [← Option.some.inj hdumps, loads, joinCrLf_document hformed,
        parseStatements_spaced_refused hformed hrefused] at hloads
      cases hloads
    have hkeys : Throughout (KeySafe beyond) (fun _ => True) (.dict d) :=
        throughout_of_safe hwritable d [] rfl hsafe
    have hfits : Throughout (fun _ => True) Fits (.dict d) :=
      throughout_mono (fun _ h => h) hwritable (fun v hv => (formats_iff hv).mp) hformats
    exact throughout_and hwritable hkeys hfits
  · intro hall
    have hformats : ThroughoutDict (fun _ => True) (Formats floats) d :=
      throughout_mono (fun _ _ => trivial) hwritable (fun v hv => (formats_iff hv).mpr) hall
    have hkeys : ThroughoutDict (KeySafe beyond) (fun _ => True) d :=
      throughout_mono (fun _ h => h) hwritable (fun _ _ _ => trivial) hall
    have hformed := documentEntries_formed hformats hwritable
    have hsafe : ∀ e ∈ documentEntries floats d, e.Safe beyond := by
      intro e he
      rcases List.mem_append.mp he with he | he
      · exact pairEntries_safe (fun kv hkv => (throughoutDict_iff.mp hkeys kv hkv).1) e he
      · exact tableEntries_safe [] d (fun key hkey => absurd hkey List.not_mem_nil) hkeys e he
    obtain ⟨doc', hrun, hdata⟩ := loads_document hwritable
    refine ⟨_, loaded d, dumps_eq hformats hformed, ?_, same_loaded hwritable d rfl⟩
    rw [loads, joinCrLf_document hformed,
      parseStatements_spaced hformed hsafe true (Nat.lt_succ_self _), hrun, Option.map_some, hdata]

end RoundTrip

end Kaine.TomlWriter
