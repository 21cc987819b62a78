import Kaine.Affect.Goals

/-! What the goal ledger loads, and when it raises. -/
namespace Kaine.Goals
open Py

variable {goals : GoalTable} {goal old : Goal} {goalId : String} {kv kv' : String × Goal}

namespace GoalTable

@[ext] theorem ext {goals goals' : GoalTable} (h : goals.entries = goals'.entries) :
    goals = goals' := by
  cases goals
  cases goals'
  cases h
  rfl

theorem get_iff : goals.get goalId = some goal ↔ (goalId, goal) ∈ goals.entries :=
  ⟨Assoc.mem_of_lookup_eq_some, Assoc.lookup_of_mem goals.nodup⟩

theorem id_of_get (h : goals.get goalId = some goal) : goal.id.val = goalId :=
  goals.keyed _ (get_iff.mp h)

theorem mem_put : kv ∈ (goals.put goal).entries ↔
    kv = (goal.id.val, goal) ∨ (kv ∈ goals.entries ∧ kv.1 ≠ goal.id.val) :=
  Assoc.mem_assign goals.nodup

theorem mem_keep {p : String × Goal → Bool} : kv ∈ (goals.keep p).entries ↔
    kv ∈ goals.entries ∧ p kv = true :=
  List.mem_filter

theorem mem_finished : kv ∈ goals.finished ↔ kv ∈ goals.entries ∧ kv.2.finished = true :=
  List.mem_filter

theorem finished_nodup : goals.finished.Nodup := goals.nodup.of_map.filter _

/-- Two goals under one id are the same. -/
theorem eq_of_fst (h : kv ∈ goals.entries) (h' : kv' ∈ goals.entries)
    (hid : kv.1 = kv'.1) : kv = kv' :=
  List.inj_on_of_nodup_map goals.nodup h h' hid

end GoalTable

open GoalTable GoalLedger

section Load
variable {A B : Type} {ofText : String → Option PyFloat} {check : PyFloat → Option A} {v : Json}
  {e : PyError}

/-- `float(v)` is a number that passes the check. -/
def Reads (ofText : String → Option PyFloat) (check : PyFloat → Option A) (v : Json)
    (a : A) : Prop :=
  ∃ x, v.toDouble ofText = .ok x ∧ check x = some a

def ReadsOptional (ofText : String → Option PyFloat) (check : PyFloat → Option A) (v : Json)
    (a : Option A) : Prop :=
  (v = .null ∧ a = none) ∨ ∃ b, a = some b ∧ Reads ofText check v b

/-- An integer that `float` cannot hold. -/
def Oversize (v : Json) : Prop := ∃ n, v = .int n ∧ PyFloat.overflowBound ≤ |n|

/-- `float(v)` gives a number, raises one of the two exceptions that are caught, or overflows. -/
theorem toDouble_cases (ofText : String → Option PyFloat) (v : Json) :
    ((∃ x, v.toDouble ofText = .ok x) ∨ v.toDouble ofText = .error .typeError ∨
        v.toDouble ofText = .error .valueError) ∧ ¬Oversize v ∨
      v.toDouble ofText = .error .overflowError ∧ Oversize v := by
  have hother : (∀ n, v ≠ .int n) → ¬Oversize v := by
    rintro hv ⟨n, rfl, -⟩
    exact hv n rfl
  cases v with
  | int n =>
    have heq : Json.toDouble ofText (.int n) =
        if |n| < PyFloat.overflowBound then .ok (.fin (Rounding.binary64 n))
          else .error .overflowError := rfl
    by_cases hn : |n| < PyFloat.overflowBound
    · rw [if_pos hn] at heq
      refine .inl ⟨.inl ⟨_, heq⟩, ?_⟩
      rintro ⟨m, hm, hlarge⟩
      cases hm
      exact absurd hn (not_lt.mpr hlarge)
    · rw [if_neg hn] at heq
      exact .inr ⟨heq, n, rfl, not_lt.mp hn⟩
  | bool b =>
    have heq : Json.toDouble ofText (.bool b) =
        if |(PyInt.bool b).value| < PyFloat.overflowBound
          then .ok (.fin (Rounding.binary64 (PyInt.bool b).value))
        else .error .overflowError := rfl
    have hsmall : |(PyInt.bool b).value| < PyFloat.overflowBound := by
      have hbound : (1 : ℤ) < PyFloat.overflowBound := by
        unfold PyFloat.overflowBound
        decide +kernel
      refine lt_of_le_of_lt ?_ hbound
      cases b <;> simp [PyInt.value]
    rw [if_pos hsmall] at heq
    exact .inl ⟨.inl ⟨_, heq⟩, hother fun n h => (by cases h)⟩
  | float x =>
    refine .inl ⟨.inl ?_, hother fun n h => (by cases h)⟩
    cases x <;> exact ⟨_, rfl⟩
  | str s =>
    refine .inl ⟨?_, hother fun n h => (by cases h)⟩
    cases hs : ofText s with
    | none => exact .inr (.inr (by simp [Json.toDouble, hs]))
    | some x => exact .inl ⟨x, by simp [Json.toDouble, hs]⟩
  | null => exact .inl ⟨.inr (.inl rfl), hother fun n h => (by cases h)⟩
  | arr xs => exact .inl ⟨.inr (.inl rfl), hother fun n h => (by cases h)⟩
  | obj kvs => exact .inl ⟨.inr (.inl rfl), hother fun n h => (by cases h)⟩

theorem readNumber_iff {a : A} : readNumber ofText check v = .ok (some a) ↔
    Reads ofText check v a := by
  unfold readNumber Reads
  cases v.toDouble ofText with
  | ok x => simp
  | error e => cases e <;> simp

theorem readNumber_error (ofText : String → Option PyFloat) (check : PyFloat → Option A) :
    readNumber ofText check v = .error e ↔ e = .overflowError ∧ Oversize v := by
  rcases toDouble_cases ofText v with ⟨(⟨x, h⟩ | h | h), hv⟩ | ⟨h, hv⟩ <;>
    simp [readNumber, h, hv, eq_comm]

theorem readOptional_of_ne_null (hv : v ≠ .null) :
    readOptional ofText check v = (readNumber ofText check v).map (Option.map some) := by
  cases v with
  | null => exact absurd rfl hv
  | _ => rfl

theorem readOptional_iff {a : Option A} :
    readOptional ofText check v = .ok (some a) ↔ ReadsOptional ofText check v a := by
  have hread : (readNumber ofText check v).map (Option.map some) = .ok (some a) ↔
      ∃ b, a = some b ∧ Reads ofText check v b := by
    simp only [← readNumber_iff]
    cases readNumber ofText check v with
    | error e => simp [Except.map]
    | ok found => cases found <;> simp [Except.map, eq_comm]
  have hnull : ∀ b, ¬Reads ofText check .null b := by
    rintro b ⟨x, hx, -⟩
    cases hx
  unfold ReadsOptional
  by_cases hv : v = .null
  · subst hv
    simp only [readOptional, Except.ok.injEq, Option.some.injEq, true_and, hnull, and_false,
      exists_false, or_false]
    exact eq_comm
  · rw [readOptional_of_ne_null hv]
    simpa [hv] using hread

theorem readOptional_error : readOptional ofText check v = .error e ↔
    e = .overflowError ∧ Oversize v := by
  by_cases hv : v = .null
  · subst hv
    simp [readOptional, Oversize]
  · rw [readOptional_of_ne_null hv, ← readNumber_error ofText check]
    cases readNumber ofText check v <;> simp [Except.map]

theorem andThen_some {x : Except PyError (Option A)} {f : A → Except PyError (Option B)} {b : B} :
    andThen x f = .ok (some b) ↔ ∃ a, x = .ok (some a) ∧ f a = .ok (some b) := by
  rcases x with e | (_ | a) <;> simp [andThen]

theorem andThen_error {x : Except PyError (Option A)} {f : A → Except PyError (Option B)} :
    andThen x f = .error e ↔ x = .error e ∨ ∃ a, x = .ok (some a) ∧ f a = .error e := by
  rcases x with e | (_ | a) <;> simp [andThen]

/-- The goal that an entry describes. -/
structure Describes (ofText : String → Option PyFloat) (entry : Dict) (goal : Goal) : Prop where
  id : Dict.get entry "id" = .str goal.id.val
  description : ∃ text, Dict.get entry "description" = .str text ∧ strip text = goal.description.val
  priority : ∃ v, entry.lookup "priority" = some v ∧ Reads ofText UnitFloat.ofFloat v goal.priority
  state : entry.lookup "state" = some (.str goal.state.text)
  createdAt : Reads ofText FiniteFloat.ofFloat (Dict.getD entry "created_at" (.float (.fin 0)))
    goal.createdAt
  completedAt : ReadsOptional ofText FiniteFloat.ofFloat (Dict.get entry "completed_at")
    goal.completedAt
  drive : Dict.get entry "drive" = optional (fun name => .str name.val) goal.drive
  likelihood : ReadsOptional ofText UnitFloat.ofFloat (Dict.get entry "likelihood") goal.likelihood

theorem Name.read_iff {name : Name} : Name.read v = some name ↔ v = .str name.val := by
  constructor
  · intro h
    cases v with
    | str s =>
      have h : (if hs : s ≠ "" then some (⟨s, hs⟩ : Name) else none) = some name := h
      split_ifs at h with hs
      rw [← Option.some.inj h]
    | _ => cases h
  · rintro rfl
    exact dif_pos name.2

theorem Description.read_iff {d : Description} :
    Description.read v = some d ↔ ∃ text, v = .str text ∧ strip text = d.val := by
  constructor
  · intro h
    cases v with
    | str s =>
      have h : (if hs : strip s ≠ "" then some (⟨strip s, hs, strip_strip s⟩ : Description)
          else none) = some d := h
      split_ifs at h with hs
      exact ⟨s, rfl, by rw [← Option.some.inj h]⟩
    | _ => cases h
  · rintro ⟨text, rfl, htext⟩
    have hne : strip text ≠ "" := htext ▸ d.2.1
    have hread : Description.read (.str text) = some ⟨strip text, hne, strip_strip text⟩ :=
      dif_pos hne
    rw [hread, Option.some.injEq]
    exact Subtype.ext htext

theorem GoalState.read_iff {state : GoalState} : GoalState.read v = some state ↔
    v = .str state.text := by
  constructor
  · intro h
    cases v with
    | str s =>
      have hs := List.find?_some (show [active, completed, abandoned].find? (·.text = s) =
        some state from h)
      rw [of_decide_eq_true hs]
    | _ => cases h
  · rintro rfl
    cases state <;> rfl

theorem parseDrive_iff {drive : Option Name} :
    parseDrive v = some drive ↔ v = optional (fun name => .str name.val) drive := by
  have hread : (Name.read v).map some = some drive ↔
    ∃ name, drive = some name ∧ v = .str name.val := by
    simp only [← Name.read_iff, Option.map_eq_some_iff]
    exact ⟨fun ⟨name, hname, he⟩ => ⟨name, he.symm, hname⟩,
      fun ⟨name, he, hname⟩ => ⟨name, hname, he.symm⟩⟩
  have hdrive : v ≠ .null → ((∃ name, drive = some name ∧ v = .str name.val) ↔
      v = optional (fun name => .str name.val) drive) := by
    intro hv
    cases drive with
    | none => simp [optional, hv]
    | some name => simp [optional]
  cases v with
  | null => cases drive <;> simp [parseDrive, optional]
  | bool b => exact hread.trans (hdrive fun h => by cases h)
  | int n => exact hread.trans (hdrive fun h => by cases h)
  | float x => exact hread.trans (hdrive fun h => by cases h)
  | str s => exact hread.trans (hdrive fun h => by cases h)
  | arr xs => exact hread.trans (hdrive fun h => by cases h)
  | obj kvs => exact hread.trans (hdrive fun h => by cases h)

theorem readPriority_iff {entry : Dict} {p : UnitFloat} : readPriority ofText entry = .ok (some p) ↔
    ∃ v, entry.lookup "priority" = some v ∧ Reads ofText UnitFloat.ofFloat v p := by
  unfold readPriority
  cases entry.lookup "priority" <;> simp [readNumber_iff]

theorem parseGoal_iff {entry : Dict} {goal : Goal} :
    parseGoal ofText entry = .ok (some goal) ↔ Describes ofText entry goal := by
  simp only [parseGoal, andThen_some, Except.ok.injEq, Name.read_iff, Description.read_iff,
    readPriority_iff, readNumber_iff, readOptional_iff, parseLikelihood, parseDrive_iff,
    Option.bind_eq_some_iff, GoalState.read_iff, Option.some.injEq]
  constructor
  · rintro ⟨gid, hid, description, hdescription, priority, hpriority, state, ⟨v, hv, rfl⟩,
      createdAt, hcreated, completedAt, hcompleted, likelihood, hlikelihood, drive, hdrive, rfl⟩
    exact ⟨hid, hdescription, hpriority, hv, hcreated, hcompleted, hdrive, hlikelihood⟩
  · intro h
    exact ⟨_, h.id, _, h.description, _, h.priority, _, ⟨_, h.state, rfl⟩, _, h.createdAt, _,
      h.completedAt, _, h.likelihood, _, h.drive, rfl⟩

/-- An entry in which `float` meets an integer that it cannot hold: every check before that number
passes. -/
def Overflows (ofText : String → Option PyFloat) (entry : Dict) : Prop :=
  (∃ gid : Name, Dict.get entry "id" = .str gid.val) ∧
  (∃ text, Dict.get entry "description" = .str text ∧ strip text ≠ "") ∧
  ((∃ v, entry.lookup "priority" = some v ∧ Oversize v) ∨
    (∃ v p, entry.lookup "priority" = some v ∧ Reads ofText UnitFloat.ofFloat v p) ∧
    (∃ state : GoalState, entry.lookup "state" = some (.str state.text)) ∧
    (Oversize (Dict.getD entry "created_at" (.float (.fin 0))) ∨
      (∃ t, Reads ofText FiniteFloat.ofFloat (Dict.getD entry "created_at" (.float (.fin 0))) t) ∧
      (Oversize (Dict.get entry "completed_at") ∨
        (∃ t, ReadsOptional ofText FiniteFloat.ofFloat (Dict.get entry "completed_at") t) ∧
        Oversize (Dict.get entry "likelihood"))))

theorem readPriority_error {entry : Dict} : readPriority ofText entry = .error e ↔
    e = .overflowError ∧ ∃ v, entry.lookup "priority" = some v ∧ Oversize v := by
  unfold readPriority
  cases entry.lookup "priority" <;> simp [readNumber_error]

theorem parseGoal_error {entry : Dict} :
    parseGoal ofText entry = .error e ↔ e = .overflowError ∧ Overflows ofText entry := by
  simp only [parseGoal, andThen_error, Except.ok.injEq, Name.read_iff, Description.read_iff,
    readPriority_iff, readNumber_iff, readOptional_iff, parseLikelihood, Option.bind_eq_some_iff,
    GoalState.read_iff, readPriority_error, readNumber_error, readOptional_error, reduceCtorEq,
    false_or, and_false, exists_false, or_false]
  constructor
  · rintro ⟨gid, hid, description, ⟨text, htext, hstrip⟩,
      ⟨rfl, hover⟩ | ⟨p, ⟨v, hv, hp⟩, state, ⟨w, hw, rfl⟩, hrest⟩⟩
    · exact ⟨rfl, ⟨gid, hid⟩, ⟨text, htext, hstrip ▸ description.2.1⟩, .inl hover⟩
    · rcases hrest with ⟨rfl, hover⟩ | ⟨t, ht, ⟨rfl, hover⟩ | ⟨c, hc, rfl, hover⟩⟩
      · exact ⟨rfl, ⟨gid, hid⟩, ⟨text, htext, hstrip ▸ description.2.1⟩,
          .inr ⟨⟨v, p, hv, hp⟩, ⟨state, hw⟩, .inl hover⟩⟩
      · exact ⟨rfl, ⟨gid, hid⟩, ⟨text, htext, hstrip ▸ description.2.1⟩,
          .inr ⟨⟨v, p, hv, hp⟩, ⟨state, hw⟩, .inr ⟨⟨t, ht⟩, .inl hover⟩⟩⟩
      · exact ⟨rfl, ⟨gid, hid⟩, ⟨text, htext, hstrip ▸ description.2.1⟩,
          .inr ⟨⟨v, p, hv, hp⟩, ⟨state, hw⟩, .inr ⟨⟨t, ht⟩, .inr ⟨⟨c, hc⟩, hover⟩⟩⟩⟩
  · rintro ⟨rfl, ⟨gid, hid⟩, ⟨text, htext, hne⟩, hover⟩
    refine ⟨gid, hid, ⟨strip text, hne, strip_strip text⟩, ⟨text, htext, rfl⟩, ?_⟩
    rcases hover with hover | ⟨⟨v, p, hv, hp⟩, ⟨state, hw⟩,
      hover | ⟨⟨t, ht⟩, hover | ⟨⟨c, hc⟩, hover⟩⟩⟩
    · exact .inl ⟨rfl, hover⟩
    · exact .inr ⟨p, ⟨v, hv, hp⟩, state, ⟨_, hw, rfl⟩, .inl ⟨rfl, hover⟩⟩
    · exact .inr ⟨p, ⟨v, hv, hp⟩, state, ⟨_, hw, rfl⟩, .inr ⟨t, ht, .inl ⟨rfl, hover⟩⟩⟩
    · exact .inr ⟨p, ⟨v, hv, hp⟩, state, ⟨_, hw, rfl⟩, .inr ⟨t, ht, .inr ⟨c, hc, rfl, hover⟩⟩⟩

/-- The table holds, under each id, the goal of the last entry that describes one with that id. -/
def Keeps (ofText : String → Option PyFloat) (entries : List Json) (goals : GoalTable) : Prop :=
  ∀ id goal, goals.get id = some goal ↔ goal.id.val = id ∧ ∃ pre entry post, entries = pre ++
    .obj entry :: post ∧
    Describes ofText entry goal ∧ ∀ entry' goal', .obj entry' ∈ post →
      Describes ofText entry' goal' → goal'.id ≠ goal.id

theorem keeps_nil : Keeps ofText [] GoalTable.empty := by
  intro id goal
  constructor
  · intro h
    cases h
  · rintro ⟨-, pre, entry, post, hsplit, -⟩
    simp at hsplit

theorem get_put (goals : GoalTable) (goal : Goal) (id : String) :
    (goals.put goal).get id = if id = goal.id.val then some goal else goals.get id := by
  unfold GoalTable.get GoalTable.put
  split_ifs with h
  · rw [h]
    exact Assoc.lookup_assign_self _ _ _
  · exact Assoc.lookup_assign_of_ne h

theorem Describes.unique {entry : Dict} {goal goal' : Goal} (h : Describes ofText entry goal)
    (h' : Describes ofText entry goal') : goal = goal' := by
  have heq := (parseGoal_iff.mpr h).symm.trans (parseGoal_iff.mpr h')
  exact Option.some.inj (Except.ok.inj heq)

theorem Keeps.put {entries : List Json} (h : Keeps ofText entries goals) {entry : Dict}
    {goal : Goal} (hgoal : Describes ofText entry goal) :
    Keeps ofText (entries ++ [.obj entry]) (goals.put goal) := by
  intro id found
  rw [get_put]
  constructor
  · intro hfound
    split_ifs at hfound with hid
    · obtain rfl := Option.some.inj hfound
      exact ⟨hid.symm, entries, entry, [], rfl, hgoal, fun _ _ he => (by cases he)⟩
    · obtain ⟨rfl, pre, e, post, rfl, he, hpost⟩ := (h id found).mp hfound
      refine ⟨rfl, pre, e, post ++ [.obj entry], by simp, he, fun entry' goal' hmem hgoal' => ?_⟩
      rcases List.mem_append.mp hmem with hmem | hmem
      · exact hpost entry' goal' hmem hgoal'
      · cases List.mem_singleton.mp hmem
        rw [hgoal'.unique hgoal]
        exact fun heq => hid (congrArg Subtype.val heq.symm)
  · rintro ⟨rfl, pre, e, post, hsplit, he, hpost⟩
    rcases List.eq_nil_or_concat post with rfl | ⟨post, last, rfl⟩
    · obtain ⟨-, hlast⟩ := List.append_inj' hsplit rfl
      cases hlast
      rw [he.unique hgoal, if_pos rfl]
    · rw [List.concat_eq_append, ← List.cons_append, ← List.append_assoc] at hsplit
      obtain ⟨hfront, hlast⟩ := List.append_inj' hsplit rfl
      cases hlast
      have hne := hpost entry goal (by simp) hgoal
      rw [if_neg fun heq => hne (Subtype.ext heq).symm, h]
      exact ⟨rfl, pre, e, post, hfront, he,
        fun entry' goal' hmem => hpost entry' goal' (by simp [hmem])⟩

theorem Keeps.skip {entries : List Json} (h : Keeps ofText entries goals) {entry : Json}
    (hentry : ∀ e goal, entry = .obj e → ¬Describes ofText e goal) :
    Keeps ofText (entries ++ [entry]) goals := by
  intro id found
  rw [h]
  refine and_congr_right fun _ => ?_
  constructor
  · rintro ⟨pre, e, post, rfl, he, hpost⟩
    refine ⟨pre, e, post ++ [entry], by simp, he, fun entry' goal' hmem hgoal' => ?_⟩
    rcases List.mem_append.mp hmem with hmem | hmem
    · exact hpost entry' goal' hmem hgoal'
    · exact absurd hgoal' (hentry entry' goal' (List.mem_singleton.mp hmem).symm)
  · rintro ⟨pre, e, post, hsplit, he, hpost⟩
    rcases List.eq_nil_or_concat post with rfl | ⟨post, last, rfl⟩
    · obtain ⟨-, hlast⟩ := List.append_inj' hsplit rfl
      exact absurd he (hentry e found (List.cons.inj hlast).1)
    · rw [List.concat_eq_append, ← List.cons_append, ← List.append_assoc] at hsplit
      obtain ⟨hfront, -⟩ := List.append_inj' hsplit rfl
      exact ⟨pre, e, post, hfront, he, fun entry' goal' hmem => hpost entry' goal' (by simp [hmem])⟩

/-- Some entry overflows. -/
def AnyOverflows (ofText : String → Option PyFloat) (entries : List Json) : Prop :=
  ∃ entry, .obj entry ∈ entries ∧ Overflows ofText entry

theorem loadEntry_cases (ofText : String → Option PyFloat) (goals : GoalTable) (entry : Json) :
    (∃ e, entry = .obj e ∧ Overflows ofText e ∧
      loadEntry ofText goals entry = .error .overflowError) ∨
    (∃ e goal, entry = .obj e ∧ Describes ofText e goal ∧
      loadEntry ofText goals entry = .ok (goals.put goal)) ∨
    ((∀ e, entry = .obj e → ¬Overflows ofText e ∧ ∀ goal, ¬Describes ofText e goal) ∧
      loadEntry ofText goals entry = .ok goals) := by
  cases entry with
  | obj e =>
    cases hparse : parseGoal ofText e with
    | error raised =>
      obtain ⟨rfl, hover⟩ := parseGoal_error.mp hparse
      exact .inl ⟨e, rfl, hover, by simp only [loadEntry, hparse]⟩
    | ok found =>
      have hover : ¬Overflows ofText e := fun h => by
        cases hparse.symm.trans (parseGoal_error.mpr ⟨rfl, h⟩)
      cases found with
      | some goal =>
        exact .inr (.inl ⟨e, goal, rfl, parseGoal_iff.mp hparse, by simp only [loadEntry, hparse]⟩)
      | none =>
        refine .inr (.inr ⟨fun e' he => ?_, by simp only [loadEntry, hparse]⟩)
        cases he
        exact ⟨hover, fun goal hgoal => by cases hparse.symm.trans (parseGoal_iff.mpr hgoal)⟩
  | _ => exact .inr (.inr ⟨fun e he => (by cases he), rfl⟩)

theorem loadEntries (ofText : String → Option PyFloat) (entries : List Json) :
    (AnyOverflows ofText entries ∧ entries.foldlM (loadEntry ofText) GoalTable.empty =
      .error .overflowError) ∨
    (¬AnyOverflows ofText entries ∧
      ∃ goals, entries.foldlM (loadEntry ofText) GoalTable.empty = .ok goals ∧
        Keeps ofText entries goals) := by
  induction entries using List.reverseRecOn with
  | nil =>
    refine .inr ⟨?_, _, rfl, keeps_nil⟩
    rintro ⟨entry, hmem, -⟩
    cases hmem
  | append_singleton entries entry ih =>
    rw [List.foldlM_append]
    rcases ih with ⟨⟨e, hmem, hover⟩, hload⟩ | ⟨hnone, goals, hload, hkeeps⟩
    · exact .inl ⟨⟨e, List.mem_append_left _ hmem, hover⟩, by rw [hload]; rfl⟩
    have hsplit : AnyOverflows ofText (entries ++ [entry]) ↔
      ∃ e, entry = .obj e ∧ Overflows ofText e := by
      constructor
      · rintro ⟨e, hmem, hover⟩
        rcases List.mem_append.mp hmem with hmem | hmem
        · exact absurd ⟨e, hmem, hover⟩ hnone
        · exact ⟨e, (List.mem_singleton.mp hmem).symm, hover⟩
      · rintro ⟨e, rfl, hover⟩
        exact ⟨e, by simp, hover⟩
    have hstep : (entries.foldlM (loadEntry ofText) GoalTable.empty >>= fun goals =>
        [entry].foldlM (loadEntry ofText) goals) = loadEntry ofText goals entry := by
      rw [hload]
      cases hentry : loadEntry ofText goals entry <;>
        simp [List.foldlM_cons, hentry, bind, Except.bind, pure, Except.pure]
    rw [hstep, hsplit]
    rcases loadEntry_cases ofText goals entry with
      ⟨e, he, hover, herr⟩ | ⟨e, goal, rfl, hgoal, hok⟩ | ⟨hskip, hok⟩
    · exact .inl ⟨⟨e, he, hover⟩, herr⟩
    · refine .inr ⟨?_, _, hok, hkeeps.put hgoal⟩
      rintro ⟨e', he', hover⟩
      cases he'
      cases (parseGoal_error.mpr ⟨rfl, hover⟩).symm.trans (parseGoal_iff.mpr hgoal)
    · refine .inr ⟨?_, _, hok, hkeeps.skip fun e goal he => (hskip e he).2 goal⟩
      rintro ⟨e, he, hover⟩
      exact (hskip e he).1 hover

/-- What loading promises: it returns, it changes nothing unless the value is an object with a list
of goals, and then it keeps just the goals that the list describes. -/
def LoadsWell (ofText : String → Option PyFloat) (ledger : GoalLedger) (data : Json) : Prop :=
  ∃ loaded, ledger.loadDict ofText data = .ok loaded ∧
    ((¬∃ d entries, data = .obj d ∧ Dict.get d "goals" = .arr entries) → loaded = ledger) ∧
    ∀ d entries, data = .obj d → Dict.get d "goals" = .arr entries →
      Keeps ofText entries loaded.goals

theorem setCounters_goals (data : Dict) (parsed : GoalTable) :
    (setCounters data parsed).goals = parsed := by
  unfold setCounters
  dsimp only
  split
  · split <;> rfl
  · rfl

theorem loadDict_other (ledger : GoalLedger) {data : Json}
    (h : ¬∃ d entries, data = .obj d ∧ Dict.get d "goals" = .arr entries) :
    ledger.loadDict ofText data = .ok ledger := by
  cases data with
  | obj d =>
    cases hgoals : Dict.get d "goals" with
    | arr entries => exact absurd ⟨d, entries, rfl, hgoals⟩ h
    | _ => simp only [loadDict, hgoals]
  | _ => rfl

theorem loadDict_list (ledger : GoalLedger) {d : Dict} {entries : List Json}
    (h : Dict.get d "goals" = .arr entries) :
    ledger.loadDict ofText (.obj d) =
      (entries.foldlM (loadEntry ofText) GoalTable.empty).map (setCounters d) := by
  simp only [loadDict, h]

/-- Loading keeps its promise just where no number overflows. -/
theorem loadDict_iff (ledger : GoalLedger) (data : Json) : LoadsWell ofText ledger data ↔
    ∀ d entries, data = .obj d → Dict.get d "goals" = .arr entries →
      ¬AnyOverflows ofText entries := by
  constructor
  · rintro ⟨loaded, hload, -⟩ d entries rfl hgoals hover
    rw [loadDict_list ledger hgoals] at hload
    rcases loadEntries ofText entries with ⟨-, herr⟩ | ⟨hnone, -⟩
    · rw [herr] at hload
      cases hload
    · exact hnone hover
  · intro h
    by_cases hlist : ∃ d entries, data = .obj d ∧ Dict.get d "goals" = .arr entries
    · obtain ⟨d, entries, rfl, hgoals⟩ := hlist
      rcases loadEntries ofText entries with ⟨hover, -⟩ | ⟨-, goals, hok, hkeeps⟩
      · exact absurd hover (h d entries rfl hgoals)
      refine ⟨setCounters d goals, ?_, fun hno => absurd ⟨d, entries, rfl, hgoals⟩ hno, ?_⟩
      · rw [loadDict_list ledger hgoals, hok]
        rfl
      · intro d' entries' hd hgoals'
        cases hd
        cases hgoals.symm.trans hgoals'
        rw [setCounters_goals]
        exact hkeeps
    · exact ⟨ledger, loadDict_other ledger hlist, fun _ => rfl, fun d entries hd hgoals =>
        absurd ⟨d, entries, hd, hgoals⟩ hlist⟩

theorem FiniteFloat.reads (t : FiniteFloat) :
    Reads ofText FiniteFloat.ofFloat (.float (.fin t.val)) t := by
  have hself : Rounding.binary64 t.val = t.val := Rounding.nearest_binary64.eq_self t.2
  refine ⟨.fin t.val, ?_, ?_⟩
  · change Except.ok (PyFloat.fin (Rounding.binary64 t.val)) = _
    rw [hself]
  · exact congrArg some (Subtype.ext hself)

theorem UnitFloat.reads (x : UnitFloat) :
    Reads ofText UnitFloat.ofFloat (.float (.fin x.val)) x := by
  have hself : Rounding.binary64 x.val = x.val := Rounding.nearest_binary64.eq_self x.2.1
  refine ⟨.fin x.val, ?_, ?_⟩
  · change Except.ok (PyFloat.fin (Rounding.binary64 x.val)) = _
    rw [hself]
  · have hread : UnitFloat.ofFloat (.fin x.val) =
      some ⟨Rounding.binary64 x.val, Rounding.isBinary64_binary64 x.val,
        Rounding.binary64_nonneg x.2.2.1, binary64_le_one x.2.2.2⟩ := dif_pos x.2.2
    rw [hread]
    exact congrArg some (Subtype.ext hself)

/-- A saved goal describes itself. -/
theorem describes_toDict (ofText : String → Option PyFloat) (goal : Goal) :
    Describes ofText goal.toDict goal where
  id := rfl
  description := ⟨goal.description.val, rfl, goal.description.2.2⟩
  priority := ⟨_, rfl, goal.priority.reads⟩
  state := rfl
  createdAt := goal.createdAt.reads
  completedAt := by
    have hget : Dict.get goal.toDict "completed_at" =
        optional (fun t => .float (.fin t.val)) goal.completedAt := rfl
    rw [hget]
    cases goal.completedAt with
    | none => exact .inl ⟨rfl, rfl⟩
    | some t => exact .inr ⟨t, rfl, t.reads⟩
  drive := rfl
  likelihood := by
    have hget : Dict.get goal.toDict "likelihood" =
      optional (fun x => .float (.fin x.val)) goal.likelihood :=
        rfl
    rw [hget]
    cases goal.likelihood with
    | none => exact .inl ⟨rfl, rfl⟩
    | some x => exact .inr ⟨x, rfl, x.reads⟩

theorem foldlM_saved (kvs : List (String × Goal)) (goals : GoalTable) :
    (kvs.map fun kv => Json.obj kv.2.toDict).foldlM (loadEntry ofText) goals =
      .ok (kvs.foldl (fun goals kv => goals.put kv.2) goals) := by
  induction kvs generalizing goals with
  | nil => rfl
  | cons kv kvs ih =>
    have hparse := parseGoal_iff.mpr (describes_toDict ofText kv.2)
    have hload : loadEntry ofText goals (.obj kv.2.toDict) = .ok (goals.put kv.2) :=
        by simp only [loadEntry, hparse]
    rw [List.map_cons, List.foldlM_cons, hload]
    exact ih (goals.put kv.2)

theorem entries_puts (kvs : List (String × Goal)) (hkeyed : ∀ kv ∈ kvs, kv.2.id.val = kv.1)
    (goals : GoalTable) :
    (kvs.foldl (fun goals kv => goals.put kv.2) goals).entries =
      Assoc.assignAll goals.entries kvs := by
  induction kvs generalizing goals with
  | nil => rfl
  | cons kv kvs ih =>
    have hput : (goals.put kv.2).entries = Assoc.assign goals.entries kv.1 kv.2 := by
      rw [← hkeyed kv List.mem_cons_self]
      rfl
    rw [List.foldl_cons, ih (fun kv hkv => hkeyed kv (List.mem_cons_of_mem _ hkv)), hput]
    rfl

/-- Loading what was saved gives the ledger back. -/
theorem loadDict_toDict (ofText : String → Option PyFloat) (ledger before : GoalLedger) :
    before.loadDict ofText ledger.toDict = .ok ledger := by
  have hgoals : Dict.get [("goals", .arr (ledger.goals.entries.map fun kv => .obj kv.2.toDict)),
      ("outcomes", .obj [("completed", .int ledger.completedTotal),
        ("abandoned", .int ledger.abandonedTotal)])] "goals" =
      .arr (ledger.goals.entries.map fun kv => .obj kv.2.toDict) := rfl
  have hentries : ledger.goals.entries.foldl (fun goals kv => goals.put kv.2) GoalTable.empty =
    ledger.goals := by
    refine GoalTable.ext ?_
    rw [entries_puts _ ledger.goals.keyed]
    exact Assoc.assignAll_nil ledger.goals.nodup
  rw [GoalLedger.toDict, loadDict_list before hgoals, foldlM_saved, hentries]
  rfl

end Load

end Kaine.Goals
