import Kaine.Lib.Json
import Kaine.Lib.Text
import Mathlib.Data.List.Pairwise
import Mathlib.Data.List.Sort
import Mathlib.Data.String.Basic

/-! JSON text, by what `json.dumps` and `json.loads` say of it. JSON files, by what `json.dumps`
with sorted keys and `json.loads` say of them. -/
namespace Py

/-- The white space of JSON. -/
def CodePoint.isJsonSpace (c : CodePoint) : Bool :=
  c.val = 32 || c.val = 9 || c.val = 10 || c.val = 13

def CodePoint.openBrace : CodePoint := CodePoint.ofNat 123

/-- `json.dumps` of an object with sorted keys, and `json.loads`; none where they raise. -/
structure JsonText where
  dumps : Dict → Option Text
  loads : Text → Option Json
  /-- An object reads back as one that equals it where it equals itself, which it does without a
  NaN. -/
  loads_dumps {r : Dict} {t : Text} (h : dumps r = some t) : ∃ d, loads t = some (.obj d) ∧
    (Json.itemEq (.obj r) (.obj r) = true → Json.itemEq (.obj d) (.obj r) = true)
  dumps_ascii {r : Dict} {t : Text} (h : dumps r = some t) : t.Ascii
  /-- No white space stands at the ends of the text, and no control character in it. -/
  dumps_plain {r : Dict} {t : Text} (h : dumps r = some t) :
    (∃ body last, t = CodePoint.openBrace :: (body ++ [last]) ∧ last.isSpace = false) ∧
      ∀ c ∈ t, 32 ≤ c.val
  /-- An object begins with a brace. -/
  loads_object {t : Text} {d : Dict} (h : loads t = some (.obj d)) :
    ∃ padding body, t = padding ++ CodePoint.openBrace :: body ∧ ∀ c ∈ padding, c.isSpace = true
  /-- White space around a text does not count. -/
  loads_padded (t : Text) {before after : Text} (h : ∀ c ∈ before ++ after, c.isJsonSpace = true) :
    loads (before ++ t ++ after) = loads t
  /-- Other characters that are white space elsewhere are none here. -/
  loads_other {t before after : Text} {v : Json} (h : loads (before ++ t ++ after) = some v)
    (hspace : ∀ c ∈ before ++ after, c.isSpace = true) : ∀ c ∈ before ++ after, c.isJsonSpace = true

/-- `json.dumps` of an object as it stands, and `json.loads`; none where they raise. -/
structure JsonLine where
  dumps : Dict → Option Text
  loads : Text → Option Json
  loads_dumps {r : Dict} {t : Text} (h : dumps r = some t) : loads t = some (.obj r)
  dumps_ascii {r : Dict} {t : Text} (h : dumps r = some t) : t.Ascii
  /-- The text begins with a brace, and no control character is in it. -/
  dumps_plain {r : Dict} {t : Text} (h : dumps r = some t) :
    (∃ body, t = CodePoint.openBrace :: body) ∧ ∀ c ∈ t, 32 ≤ c.val

/-- JSON of which the objects, their texts and other texts that hold a value are listed. -/
def JsonLine.ofTexts (rows : List (Dict × Text)) (others : List (Text × Json))
    (htexts : (rows.map Prod.snd).Nodup) (hascii : ∀ row ∈ rows, row.2.Ascii)
    (hplain : (rows.all fun row =>
      row.2.head? = some CodePoint.openBrace && row.2.all fun c => 32 ≤ c.val) = true) :
    JsonLine :=
  have hrow : ∀ {r t}, (rows.find? fun row => row.1 = r).map Prod.snd = some t → (r, t) ∈ rows := by
    intro r t h
    obtain ⟨row, hrow, rfl⟩ := Option.map_eq_some_iff.mp h
    have hr : row.1 = r := by simpa using List.find?_some hrow
    exact hr ▸ List.mem_of_find?_eq_some hrow
  { dumps := fun r => (rows.find? fun row => row.1 = r).map Prod.snd
    loads := fun t =>
      match rows.find? fun row => row.2 = t with
      | some row => some (.obj row.1)
      | none => (others.find? fun row => row.1 = t).map Prod.snd
    loads_dumps := fun {r t} h => by
      have hmem := hrow h
      cases hfound : rows.find? fun row => row.2 = t with
      | none => exact absurd (decide_eq_true rfl) (List.find?_eq_none.mp hfound _ hmem)
      | some other =>
        have htext : other.2 = t := by simpa using List.find?_some hfound
        have heq := List.inj_on_of_nodup_map htexts (List.mem_of_find?_eq_some hfound) hmem htext
        rw [heq]
    dumps_ascii := fun h => hascii _ (hrow h)
    dumps_plain := fun {r t} h => by
      have hchecked := List.all_eq_true.mp hplain _ (hrow h)
      rw [Bool.and_eq_true] at hchecked
      have hhead := of_decide_eq_true hchecked.1
      cases t with
      | nil => cases hhead
      | cons c body =>
        cases hhead
        exact ⟨⟨body, rfl⟩, fun c hc => of_decide_eq_true (List.all_eq_true.mp hchecked.2 c hc)⟩ }

namespace Json

mutual

/-- The value with the keys of its objects in order. -/
def sorted : Json → Json
  | .arr xs => .arr (sortedList xs)
  | .obj kvs => .obj (sortedEntries kvs)
  | v => v

def sortedList : List Json → List Json
  | [] => []
  | v :: vs => v.sorted :: sortedList vs

def sortedEntries : List (String × Json) → List (String × Json)
  | [] => []
  | (k, v) :: rest => List.orderedInsert (fun a b => a.1 ≤ b.1) (k, v.sorted) (sortedEntries rest)

end

end Json

namespace Dict

/-- The dict with its keys, and those of every dict in it, in order. -/
def sorted (d : Dict) : Dict := Json.sortedEntries d

theorem lookup_orderedInsert (e : String × Json) (d : Dict) (key : String) :
    (List.orderedInsert (fun a b => a.1 ≤ b.1) e d).lookup key =
      if key = e.1 then some e.2 else d.lookup key := by
  induction d with
  | nil =>
    obtain ⟨k, v⟩ := e
    by_cases hkey : key = k
    · simp [hkey]
    · simp [hkey, Assoc.lookup_cons_of_ne hkey]
  | cons b d ih =>
    obtain ⟨k, v⟩ := e
    obtain ⟨k', v'⟩ := b
    rw [List.orderedInsert_cons]
    split_ifs with hle hkey hkey
    · simp [hkey]
    · rw [Assoc.lookup_cons_of_ne hkey]
    · have hne : key ≠ k' := by
        rintro rfl
        exact hle (le_of_eq hkey.symm)
      rw [Assoc.lookup_cons_of_ne hne, ih, if_pos hkey]
    · by_cases hother : key = k'
      · simp [hother]
      · rw [Assoc.lookup_cons_of_ne hother, Assoc.lookup_cons_of_ne hother, ih, if_neg hkey]

/-- Sorting keeps what is found under a key. -/
theorem lookup_sorted (d : Dict) (key : String) :
    d.sorted.lookup key = (d.lookup key).map Json.sorted := by
  unfold sorted
  induction d with
  | nil => rfl
  | cons kv d ih =>
    obtain ⟨k, v⟩ := kv
    rw [Json.sortedEntries, lookup_orderedInsert, ih]
    by_cases hkey : key = k
    · simp [hkey]
    · simp [hkey, Assoc.lookup_cons_of_ne hkey]

theorem sorted_perm (d : Dict) : d.sorted.Perm (d.map fun kv => (kv.1, kv.2.sorted)) := by
  unfold sorted
  induction d with
  | nil => exact List.Perm.refl _
  | cons kv d ih =>
    obtain ⟨k, v⟩ := kv
    rw [Json.sortedEntries]
    exact (List.perm_orderedInsert _ _ _).trans (ih.cons _)

theorem keys_sorted (d : Dict) : (d.sorted.map Prod.fst).Perm (d.map Prod.fst) := by
  have hkeys := (sorted_perm d).map Prod.fst
  rwa [List.map_map] at hkeys

theorem has_sorted (d : Dict) (key : String) : d.sorted.has key = d.has key := by
  unfold has
  rw [lookup_sorted, Option.isSome_map]

theorem get_sorted (d : Dict) (key : String) : d.sorted.get key = (d.get key).sorted := by
  unfold get
  rw [lookup_sorted]
  cases d.lookup key <;> rfl

theorem pairwise_sorted (d : Dict) : d.sorted.Pairwise fun a b => a.1 ≤ b.1 := by
  have htotal : Std.Total fun a b : String × Json => a.1 ≤ b.1 := ⟨fun a b => le_total a.1 b.1⟩
  have htrans : IsTrans (String × Json) fun a b => a.1 ≤ b.1 := ⟨fun _ _ _ => le_trans⟩
  unfold sorted
  induction d with
  | nil => exact List.Pairwise.nil
  | cons kv d ih =>
    obtain ⟨k, v⟩ := kv
    rw [Json.sortedEntries]
    exact ih.orderedInsert _ _

theorem orderedInsert_first {e : String × Json} {d : Dict} (h : ∀ kv ∈ d, e.1 ≤ kv.1) :
    List.orderedInsert (fun a b => a.1 ≤ b.1) e d = e :: d := by
  cases d with
  | nil => rfl
  | cons kv d => exact List.orderedInsert_cons_of_le _ d (h kv List.mem_cons_self)

theorem filter_orderedInsert (keep : String × Json → Bool) (e : String × Json) {d : Dict}
    (h : d.Pairwise fun a b => a.1 ≤ b.1) :
    (List.orderedInsert (fun a b => a.1 ≤ b.1) e d).filter keep =
      if keep e then List.orderedInsert (fun a b => a.1 ≤ b.1) e (d.filter keep)
      else d.filter keep := by
  induction d with
  | nil =>
    by_cases he : keep e = true
    · simp [he]
    · simp [he]
  | cons b d ih =>
    obtain ⟨hb, hd⟩ := List.pairwise_cons.mp h
    rw [List.orderedInsert_cons]
    by_cases hle : e.1 ≤ b.1
    · have hrest : ∀ kv ∈ (b :: d).filter keep, e.1 ≤ kv.1 := by
        intro kv hkv
        rcases List.mem_cons.mp (List.mem_of_mem_filter hkv) with rfl | hkv
        · exact hle
        · exact hle.trans (hb kv hkv)
      rw [if_pos hle, orderedInsert_first hrest, List.filter_cons]
    · rw [if_neg hle, List.filter_cons, ih hd]
      by_cases hkeep : keep b = true
      · rw [if_pos hkeep, List.filter_cons_of_pos hkeep]
        by_cases he : keep e = true
        · rw [if_pos he, if_pos he, List.orderedInsert_cons, if_neg hle]
        · rw [if_neg he, if_neg he]
      · rw [if_neg hkeep, List.filter_cons_of_neg hkeep]

/-- Sorting and leaving out keys can be done in either order. -/
theorem filter_sorted (keep : String → Bool) (d : Dict) :
    d.sorted.filter (fun kv => keep kv.1) = sorted (d.filter fun kv => keep kv.1) := by
  induction d with
  | nil => rfl
  | cons kv d ih =>
    obtain ⟨k, v⟩ := kv
    have hcons : sorted ((k, v) :: d) = List.orderedInsert (fun a b => a.1 ≤ b.1) (k,
      v.sorted) (sorted d) :=
        rfl
    rw [hcons, filter_orderedInsert _ _ (pairwise_sorted d), ih]
    by_cases hkeep : keep k = true
    · rw [if_pos hkeep, List.filter_cons, if_pos hkeep]
      rfl
    · rw [if_neg hkeep, List.filter_cons, if_neg hkeep]

theorem sorted_of_pairwise {d : Dict} (h : d.Pairwise fun a b => a.1 ≤ b.1)
    (hvalues : ∀ kv ∈ d, kv.2.sorted = kv.2) :
    d.sorted = d := by
  induction d with
  | nil => rfl
  | cons kv d ih =>
    obtain ⟨k, v⟩ := kv
    obtain ⟨hfirst, hrest⟩ := List.pairwise_cons.mp h
    have hcons : sorted ((k, v) :: d) = List.orderedInsert (fun a b => a.1 ≤ b.1) (k,
      v.sorted) (sorted d) :=
        rfl
    rw [hcons, ih hrest fun kv hkv => hvalues kv (List.mem_cons_of_mem _ hkv),
      hvalues (k, v) List.mem_cons_self, orderedInsert_first hfirst]

theorem truthy_sorted (v : Json) : v.sorted.truthy = v.truthy := by
  cases v with
  | arr xs => cases xs <;> rfl
  | obj kvs =>
    have hlength := (sorted_perm kvs).length_eq
    rw [List.length_map] at hlength
    show (!List.isEmpty (sorted kvs)) = !kvs.isEmpty
    cases hkvs : kvs with
    | nil => rfl
    | cons kv rest =>
      cases hsorted : sorted (kv :: rest) with
      | nil =>
        rw [hkvs, hsorted] at hlength
        cases hlength
      | cons _ _ => rfl
  | _ => rfl

end Dict

namespace Json

mutual

theorem sorted_sorted : ∀ v : Json, v.sorted.sorted = v.sorted
  | .null | .bool _ | .int _ | .float _ | .str _ => rfl
  | .arr xs => congrArg Json.arr (sortedList_sortedList xs)
  | .obj kvs =>
    congrArg Json.obj (Dict.sorted_of_pairwise (Dict.pairwise_sorted kvs)
      (sortedEntries_values kvs))

theorem sortedList_sortedList : ∀ vs : List Json, sortedList (sortedList vs) = sortedList vs
  | [] => rfl
  | v :: vs => congrArg₂ List.cons (sorted_sorted v) (sortedList_sortedList vs)

theorem sortedEntries_values :
    ∀ kvs : List (String × Json), ∀ kv ∈ sortedEntries kvs, kv.2.sorted = kv.2
  | [], kv, hkv => by cases hkv
  | (k, v) :: rest, kv, hkv => by
    rcases (List.mem_orderedInsert _).mp hkv with rfl | hkv
    · exact sorted_sorted v
    · exact sortedEntries_values rest kv hkv

end

end Json

/-- Sorting twice is sorting once. -/
theorem Dict.sorted_sorted (d : Dict) : d.sorted.sorted = d.sorted :=
  sorted_of_pairwise (pairwise_sorted d) (Json.sortedEntries_values d)

/-- `json.dumps` of an object with indentation and sorted keys, and `json.loads`; none where they
raise. -/
structure JsonFile where
  dumps : Dict → Option Text
  loads : Text → Option Json
  loads_dumps {d : Dict} {t : Text} (h : dumps d = some t) : loads t = some (.obj d.sorted)
  dumps_ascii {d : Dict} {t : Text} (h : dumps d = some t) : t.Ascii
  /-- The text of an object is in braces. -/
  dumps_braces {d : Dict} {t : Text} (h : dumps d = some t) : CodePoint.ofNat 123 ∈ t
  loads_braces {t : Text} {d : Dict} (h : loads t = some (.obj d)) : CodePoint.ofNat 123 ∈ t
  /-- The text of an object that is cut off is none. -/
  loads_torn {d : Dict} {t cut : Text} (h : dumps d = some t) (hcut : cut <+: t) (hne : cut ≠ t) :
    ∀ e, loads cut ≠ some (.obj e)

/-- Text in lines. -/
def Text.ofLines (lines : List String) : Text :=
  List.intercalate [CodePoint.ofNat 10] (lines.map Text.ofString)

/-- JSON of which the objects and their texts are listed. -/
def JsonFile.ofTexts (rows : List (Dict × Text))
    (hfree : rows.Pairwise fun row other => ¬ row.2 <+: other.2 ∧ ¬ other.2 <+: row.2)
    (hascii : ∀ row ∈ rows, row.2.Ascii) (hbrace : ∀ row ∈ rows, CodePoint.ofNat 123 ∈ row.2) :
    JsonFile :=
  have hsame : ∀ row ∈ rows, ∀ other ∈ rows, row.2 <+: other.2 → row = other := by
    intro row hrow other hother h
    by_contra hne
    have hsymm : Std.Symm fun row other : Dict × Text => ¬ row.2 <+: other.2 ∧
      ¬ other.2 <+: row.2 :=
      ⟨fun _ _ h => ⟨h.2, h.1⟩⟩
    exact (hfree.forall hrow hother hne).1 h
  { dumps := fun d => (rows.find? fun row => row.1 = d).map Prod.snd
    loads := fun t => (rows.find? fun row => row.2 = t).map fun row => .obj row.1.sorted
    loads_dumps := fun {d t} h => by
      obtain ⟨row, hrow, rfl⟩ := Option.map_eq_some_iff.mp h
      have hd : row.1 = d := by simpa using List.find?_some hrow
      have hmem := List.mem_of_find?_eq_some hrow
      cases hfound : rows.find? fun other => other.2 = row.2 with
      | none => exact absurd (decide_eq_true rfl) (List.find?_eq_none.mp hfound row hmem)
      | some other =>
        have htext : other.2 = row.2 := by simpa using List.find?_some hfound
        have heq := hsame other (List.mem_of_find?_eq_some hfound) row hmem
          (htext ▸ List.prefix_rfl)
        rw [Option.map_some, heq, hd]
    dumps_ascii := fun {d t} h => by
      obtain ⟨row, hrow, rfl⟩ := Option.map_eq_some_iff.mp h
      exact hascii row (List.mem_of_find?_eq_some hrow)
    dumps_braces := fun {d t} h => by
      obtain ⟨row, hrow, rfl⟩ := Option.map_eq_some_iff.mp h
      exact hbrace row (List.mem_of_find?_eq_some hrow)
    loads_braces := fun {t d} h => by
      obtain ⟨row, hrow, -⟩ := Option.map_eq_some_iff.mp h
      have htext : row.2 = t := by simpa using List.find?_some hrow
      exact htext ▸ hbrace row (List.mem_of_find?_eq_some hrow)
    loads_torn := fun {d t cut} h hcut hne e he => by
      obtain ⟨row, hrow, rfl⟩ := Option.map_eq_some_iff.mp h
      obtain ⟨other, hother, -⟩ := Option.map_eq_some_iff.mp he
      have htext : other.2 = cut := by simpa using List.find?_some hother
      have heq := hsame other (List.mem_of_find?_eq_some hother) row
        (List.mem_of_find?_eq_some hrow) (htext ▸ hcut)
      exact hne (htext.symm.trans (congrArg Prod.snd heq)) }

end Py
