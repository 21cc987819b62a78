import Kaine.Lib.OrderedLog

/-! A consumer that counts the entries of an ordered log, scanning on from a saved cursor. Count
and cursor enter memory together and are saved together, so a crash loses both or neither. -/
namespace Consumer

variable {α κ : Type*} [LinearOrder κ] {key : α → κ} {p : α → Bool} {bottom : κ} {log : List α}
  {allowed : List α → κ → Prop}

/-- The cursor recorded at the start of counting, and the tail of the log at that time. -/
structure Anchor (κ : Type*) where
  recorded : κ
  tail : κ
  deriving DecidableEq

structure Tally (κ : Type*) where
  count : ℕ := 0
  cursor : Option κ := none
  anchor : Option (Anchor κ) := none

structure State (α κ : Type*) where
  log : List α
  memory : Tally κ
  disk : Tally κ
  scan : Option (Tally κ)

inductive Step (key : α → κ) (p : α → Bool) (bottom : κ) (allowed : List α → κ → Prop) :
    State α κ → State α κ → Prop where
  | append {s : State α κ} {x : α} (h : OrderedLog.tail key bottom s.log < key x) :
      Step key p bottom allowed s { s with log := s.log ++ [x] }
  | anchor {s : State α κ} {r : κ} (h : s.memory.cursor = none) (hr : allowed s.log r)
      (hle : r ≤ OrderedLog.tail key bottom s.log) :
      Step key p bottom allowed s { s with
        memory := { s.memory with
          cursor := some r
          anchor := some ⟨r, OrderedLog.tail key bottom s.log⟩ } }
  | scan {s : State α κ} (h : s.memory.cursor ≠ none) :
      Step key p bottom allowed s { s with scan := some s.memory }
  | read {s : State α κ} {t : Tally κ} {c : κ} {n : ℕ} {x : α} (h : s.scan = some t)
      (hc : t.cursor = some c)
      (hlast : ((OrderedLog.after key s.log c).take n).getLast? = some x) :
      Step key p bottom allowed s { s with
        scan := some { t with
          count := t.count + ((OrderedLog.after key s.log c).take n).countP p
          cursor := some (key x) } }
  | commit {s : State α κ} {t : Tally κ} (h : s.scan = some t) :
      Step key p bottom allowed s { s with memory := t, scan := none }
  | abandon {s : State α κ} : Step key p bottom allowed s { s with scan := none }
  | save {s : State α κ} : Step key p bottom allowed s { s with disk := s.memory }
  | load {s : State α κ} : Step key p bottom allowed s { s with memory := s.disk, scan := none }

/-- A tally has counted exactly what lies between its recorded cursor and its cursor. -/
def Exact (key : α → κ) (p : α → Bool) (bottom : κ) (log : List α) (t : Tally κ) : Prop :=
  match t.cursor, t.anchor with
  | none, none => t.count = 0
  | some c, some a => a.recorded ≤ a.tail ∧ a.tail ≤ OrderedLog.tail key bottom log ∧
      a.recorded ≤ c ∧ c ≤ OrderedLog.tail key bottom log ∧
      t.count = OrderedLog.count key p log a.recorded c
  | _, _ => False

/-- No entry that counts lies between the recorded cursor and the tail it was recorded for. -/
def Skipless (key : α → κ) (p : α → Bool) (log : List α) (t : Tally κ) : Prop :=
  ∀ a, t.anchor = some a → OrderedLog.count key p log a.recorded a.tail = 0

/-- A property of tallies that holds of the log and of every tally of a state. -/
structure All (key : α → κ) (bottom : κ) (Q : List α → Tally κ → Prop) (s : State α κ) : Prop where
  increasing : OrderedLog.Increasing key bottom s.log
  memory : Q s.log s.memory
  disk : Q s.log s.disk
  scan : ∀ t, s.scan = some t → Q s.log t

/-- What new entries, anchors and reads keep of a tally, every step keeps of all tallies. -/
theorem All.step {Q : List α → Tally κ → Prop} {s s' : State α κ} (hs : All key bottom Q s)
    (h : Step key p bottom allowed s s')
    (happend : ∀ {log t x}, OrderedLog.Increasing key bottom log →
      OrderedLog.tail key bottom log < key x → Q log t → Q (log ++ [x]) t)
    (hanchor : ∀ {log t r}, OrderedLog.Increasing key bottom log → t.cursor = none →
      allowed log r → r ≤ OrderedLog.tail key bottom log → Q log t →
      Q log { t with cursor := some r, anchor := some ⟨r, OrderedLog.tail key bottom log⟩ })
    (hread : ∀ {log t c n x}, OrderedLog.Increasing key bottom log → t.cursor = some c →
      ((OrderedLog.after key log c).take n).getLast? = some x → Q log t →
      Q log { t with
        count := t.count + ((OrderedLog.after key log c).take n).countP p
        cursor := some (key x) }) : All key bottom Q s' := by
  obtain ⟨hi, hm, hd, hsc⟩ := hs
  cases h with
  | append hx =>
    refine ⟨hi.append hx, happend hi hx hm, happend hi hx hd, ?_⟩
    intro t ht
    exact happend hi hx (hsc t ht)
  | anchor hc hr hle => exact ⟨hi, hanchor hi hc hr hle hm, hd, hsc⟩
  | scan hc =>
    refine ⟨hi, hm, hd, ?_⟩
    rintro t ⟨⟩
    exact hm
  | read ht hc hlast =>
    refine ⟨hi, hm, hd, ?_⟩
    rintro t ⟨⟩
    exact hread hi hc hlast (hsc _ ht)
  | commit ht => exact ⟨hi, hsc _ ht, hd, by simp⟩
  | abandon => exact ⟨hi, hm, hd, by simp⟩
  | save => exact ⟨hi, hm, hm, hsc⟩
  | load => exact ⟨hi, hd, hd, by simp⟩

theorem Exact.append {t : Tally κ} {x : α} (hx : OrderedLog.tail key bottom log < key x)
    (h : Exact key p bottom log t) : Exact key p bottom (log ++ [x]) t := by
  rcases t with ⟨count, _ | c, _ | a⟩
  · exact h
  · exact h.elim
  · exact h.elim
  · obtain ⟨hat, htail, hac, hct, hcount⟩ := h
    simp only [Exact, OrderedLog.tail_append]
    refine ⟨hat, htail.trans hx.le, hac, hct.trans hx.le, ?_⟩
    exact hcount.trans (OrderedLog.count_append_of_lt (hct.trans_lt hx)).symm

theorem Exact.anchor {t : Tally κ} {r : κ} (hc : t.cursor = none)
    (hle : r ≤ OrderedLog.tail key bottom log) (h : Exact key p bottom log t) :
    Exact key p bottom log
      { t with cursor := some r, anchor := some ⟨r, OrderedLog.tail key bottom log⟩ } := by
  have hcount : t.count = 0 := by
    cases ha : t.anchor <;> simp_all [Exact]
  refine ⟨hle, le_refl _, le_refl _, hle, ?_⟩
  exact hcount.trans (OrderedLog.count_eq_zero_of_le _ _ _ (le_refl r)).symm

theorem Exact.read {t : Tally κ} {c : κ} {n : ℕ} {x : α}
    (hi : OrderedLog.Increasing key bottom log) (hc : t.cursor = some c)
    (hlast : ((OrderedLog.after key log c).take n).getLast? = some x)
    (h : Exact key p bottom log t) :
    Exact key p bottom log { t with
      count := t.count + ((OrderedLog.after key log c).take n).countP p
      cursor := some (key x) } := by
  obtain ⟨count, cursor, anchor⟩ := t
  obtain rfl : cursor = some c := hc
  cases anchor with
  | none => exact h.elim
  | some a =>
    obtain ⟨hat, htail, hac, hct, hcount⟩ := h
    have hlt := OrderedLog.lt_of_getLast? hlast
    have hmem : x ∈ log := List.mem_of_mem_filter
      (List.mem_of_mem_take (List.mem_of_getLast? hlast))
    refine ⟨hat, htail, hac.trans hlt.le, hi.le_tail hmem, ?_⟩
    have hadd := OrderedLog.count_add key p log hac hlt.le
    have htake := OrderedLog.count_take_after (p := p) hi hlast
    simp only at hcount ⊢
    omega

/-- Every step keeps every tally exact: nothing is counted twice and nothing is lost. -/
theorem exact_step {s s' : State α κ} (h : Step key p bottom allowed s s')
    (hs : All key bottom (Exact key p bottom) s) : All key bottom (Exact key p bottom) s' :=
  hs.step h (fun _ hx ht => ht.append hx) (fun _ hc _ hle ht => ht.anchor hc hle)
    (fun hi hc hlast ht => ht.read hi hc hlast)

/-- Where only cursors are recorded that leave no entry behind, none is ever left behind. -/
theorem skipless_step {s s' : State α κ}
    (hallowed : ∀ {log r}, allowed log r →
      OrderedLog.count key p log r (OrderedLog.tail key bottom log) = 0)
    (h : Step key p bottom allowed s s')
    (hs : All key bottom (fun log t => Exact key p bottom log t ∧ Skipless key p log t) s) :
    All key bottom (fun log t => Exact key p bottom log t ∧ Skipless key p log t) s' := by
  refine hs.step h ?_ ?_ ?_
  · rintro log t x _ hx ⟨ht, hskip⟩
    refine ⟨ht.append hx, ?_⟩
    intro a ha
    have htail : a.tail ≤ OrderedLog.tail key bottom log := by
      cases hc : t.cursor <;> simp_all [Exact]
    rw [OrderedLog.count_append_of_lt (htail.trans_lt hx)]
    exact hskip a ha
  · rintro log t r _ hc hr hle ⟨ht, _⟩
    refine ⟨ht.anchor hc hle, ?_⟩
    rintro a ⟨⟩
    exact hallowed hr
  · rintro log t c n x hi hc hlast ⟨ht, hskip⟩
    exact ⟨ht.read hi hc hlast, hskip⟩

/-- What each step keeps, several steps keep. -/
theorem steps_invariant {P : State α κ → Prop} {s s' : State α κ}
    (hP : ∀ {s s'}, Step key p bottom allowed s s' → P s → P s')
    (h : Relation.ReflTransGen (Step key p bottom allowed) s s') (hs : P s) : P s' := by
  induction h with
  | refl => exact hs
  | tail _ hstep ih => exact hP hstep ih

/-- Counting from the recorded cursor and from the tail agree just where nothing was left
between. -/
theorem Exact.count_eq_iff {t : Tally κ} {c : κ} {a : Anchor κ} (h : Exact key p bottom log t)
    (hc : t.cursor = some c) (ha : t.anchor = some a) (htc : a.tail ≤ c) :
    t.count = OrderedLog.count key p log a.tail c ↔
      OrderedLog.count key p log a.recorded a.tail = 0 := by
  simp only [Exact, hc, ha] at h
  have hadd := OrderedLog.count_add key p log h.1 htc
  omega

theorem Exact.count_eq {t : Tally κ} {c : κ} {a : Anchor κ} (h : Exact key p bottom log t)
    (hskip : Skipless key p log t) (hc : t.cursor = some c) (ha : t.anchor = some a) :
    t.count = OrderedLog.count key p log a.tail c := by
  rcases le_total a.tail c with htc | hct
  · exact (h.count_eq_iff hc ha htc).mpr (hskip a ha)
  · simp only [Exact, hc, ha] at h
    have hmono := OrderedLog.count_mono key p log (a := a.recorded) hct
    have hzero := hskip a ha
    have hnone := OrderedLog.count_eq_zero_of_le key p log hct
    omega

end Consumer
