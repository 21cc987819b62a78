import Kaine.Lifecycle.IndividuationStore

/-! What the guard of the look ledger keeps over any sequence of saves. -/
namespace Kaine.IndividuationStore
open Py

variable {path : String} {file : LedgerFile} {call : SaveCall} {calls : List SaveCall}
  {l l' l'' old new : Ledger} {m n : ℕ}

/-- A later ledger: the counts and the latch have not gone back, and the two amounts have lost at
most twice their tolerance with each of the given number of saves. -/
structure Forward (n : ℕ) (l l' : Ledger) : Prop where
  looks : l.looksCompleted.value ≤ l'.looksCompleted.value
  ticks : l.livedTicks.value ≤ l'.livedTicks.value
  latch : l.individuated = true → l'.individuated = true
  alpha : l.alphaSpent.double - n * (2 * alphaTolerance) ≤ l'.alphaSpent.double
  seconds : l.livedSeconds.double - n * (2 * secondsTolerance) ≤ l'.livedSeconds.double

theorem Forward.refl (l : Ledger) : Forward 0 l l where
  looks := le_refl _
  ticks := le_refl _
  latch := id
  alpha := by simp
  seconds := by simp

theorem Forward.trans (h : Forward m l l') (h' : Forward n l' l'') : Forward (m + n) l l'' where
  looks := h.looks.trans h'.looks
  ticks := h.ticks.trans h'.ticks
  latch := fun hl => h'.latch (h.latch hl)
  alpha := by
    have h₁ := h.alpha
    have h₂ := h'.alpha
    push_cast
    linarith
  seconds := by
    have h₁ := h.seconds
    have h₂ := h'.seconds
    push_cast
    linarith

/-- A file stores a ledger that it loads as, or that a save wrote there as it stands. -/
def Stored (path : String) (file : LedgerFile) (l : Ledger) : Prop :=
  loadLedger path file = .ok (some l) ∨ file = .json (.obj l.toDict)

theorem tolerances_nonneg : 0 ≤ alphaTolerance ∧ 0 ≤ secondsTolerance := by decide +kernel

theorem alphaTolerance_nonneg : 0 ≤ alphaTolerance := tolerances_nonneg.1

theorem secondsTolerance_nonneg : 0 ≤ secondsTolerance := tolerances_nonneg.2

theorem bind_eq_ok {α β : Type} {x : Except StoreError α} {f : α → Except StoreError β} {b : β} :
    x >>= f = .ok b ↔ ∃ a, x = .ok a ∧ f a = .ok b := Py.bind_eq_ok

theorem requireFinite_eq_ok {x : PyNumber} {e : StoreError} {u : Unit} :
    requireFinite x e = .ok u ↔ x.isFinite = .ok true := by
  unfold requireFinite
  split <;> simp_all

theorem readCount_of_lookup {d : Dict} {key : String} {x y : PyInt}
    (hd : d.lookup key = some x.toJson) (h : readCount d key = .ok y) : y = x := by
  simp only [readCount, Dict.get, hd, Option.getD_some, asInt_toJson] at h
  split at h
  · cases h
  · exact (Except.ok.inj h).symm

theorem readAlpha_isFinite {d : Dict} {x : PyNumber} (h : readAlpha d = .ok x) :
    (d.get "alpha_spent").asPyNumber = some x ∧ x.isFinite = .ok true := by
  unfold readAlpha at h
  split at h
  · cases h
  · rename_i y hy
    obtain ⟨_, hfin, h⟩ := bind_eq_ok.mp h
    split at h
    · cases h
    · cases h
      exact ⟨hy, requireFinite_eq_ok.mp hfin⟩

theorem readSeconds_isFinite {d : Dict} {x : PyNumber} (h : readSeconds d = .ok x) :
    (d.get "lived_seconds").asPyNumber = some x ∧ x.isFinite = .ok true := by
  unfold readSeconds at h
  split at h
  · cases h
  · rename_i y hy
    split at h
    · cases h
    · obtain ⟨_, hfin, h⟩ := bind_eq_ok.mp h
      cases h
      exact ⟨hy, requireFinite_eq_ok.mp hfin⟩

theorem readText_of_lookup {d : Dict} {key : String} {x y : Option String}
    (hd : d.lookup key = some (optionalText x)) (h : readText d key = .ok y) : y = x := by
  cases x <;> simp only [readText, Dict.get, hd, Option.getD_some, optionalText] at h <;>
    exact (Except.ok.inj h).symm

theorem readFlag_of_lookup {d : Dict} {key : String} {x y : Bool}
    (hd : d.lookup key = some (.bool x)) (h : readFlag d key = .ok y) : y = x := by
  simp only [readFlag, Dict.getD, hd, Option.getD_some] at h
  exact (Except.ok.inj h).symm

/-- What a ledger file that loads has passed, field by field. -/
theorem fromDict_ok {d : Dict} (h : Ledger.fromDict d = .ok l) :
    readCount d "looks_completed" = .ok l.looksCompleted ∧
    readAlpha d = .ok l.alphaSpent ∧ readSeconds d = .ok l.livedSeconds ∧
    readCount d "lived_ticks" = .ok l.livedTicks ∧
    readFlag d "individuated" = .ok l.individuated ∧
    readFlag d "inconclusive_alerted" = .ok l.inconclusiveAlerted ∧
    readText d "last_look_conditions_digest" = .ok l.lastLookConditionsDigest ∧
    readText d "latched_at" = .ok l.latchedAt ∧
    readText d "latched_report_id" = .ok l.latchedReportId ∧
    readText d "inconclusive_since" = .ok l.inconclusiveSince ∧
    readText d "last_look_at" = .ok l.lastLookAt ∧
    readText d "conditions_alerted_reference" = .ok l.conditionsAlertedReference ∧
    readText d "last_inconclusive_reason" = .ok l.lastInconclusiveReason ∧
    l.referenceId = d.get "reference_id" := by
  unfold Ledger.fromDict at h
  dsimp only at h
  split at h
  · cases h
  · obtain ⟨looks, hlooks, h⟩ := bind_eq_ok.mp h
    obtain ⟨alpha, halpha, h⟩ := bind_eq_ok.mp h
    obtain ⟨seconds, hseconds, h⟩ := bind_eq_ok.mp h
    obtain ⟨ticks, hticks, h⟩ := bind_eq_ok.mp h
    obtain ⟨individuated, hindividuated, h⟩ := bind_eq_ok.mp h
    obtain ⟨alerted, halerted, h⟩ := bind_eq_ok.mp h
    obtain ⟨digest, hdigest, h⟩ := bind_eq_ok.mp h
    obtain ⟨latchedAt, hlatchedAt, h⟩ := bind_eq_ok.mp h
    obtain ⟨report, hreport, h⟩ := bind_eq_ok.mp h
    obtain ⟨since, hsince, h⟩ := bind_eq_ok.mp h
    obtain ⟨lookAt, hlookAt, h⟩ := bind_eq_ok.mp h
    obtain ⟨conditions, hconditions, h⟩ := bind_eq_ok.mp h
    obtain ⟨reason, hreason, h⟩ := bind_eq_ok.mp h
    cases h
    exact ⟨hlooks, halpha, hseconds, hticks, hindividuated, halerted, hdigest, hlatchedAt, hreport,
      hsince, hlookAt, hconditions, hreason, rfl⟩

/-- Reading back what was written gives the ledger that was written, where it gives one. -/
theorem fromDict_toDict (h : Ledger.fromDict l.toDict = .ok l') : l' = l := by
  obtain ⟨hlooks, halpha, hseconds, hticks, hindividuated, halerted, hdigest, hlatchedAt, hreport,
    hsince, hlookAt, hconditions, hreason, hreference⟩ := fromDict_ok h
  have hlooks := readCount_of_lookup rfl hlooks
  have hticks := readCount_of_lookup rfl hticks
  have hindividuated := readFlag_of_lookup rfl hindividuated
  have halerted := readFlag_of_lookup rfl halerted
  have hdigest := readText_of_lookup rfl hdigest
  have hlatchedAt := readText_of_lookup rfl hlatchedAt
  have hreport := readText_of_lookup rfl hreport
  have hsince := readText_of_lookup rfl hsince
  have hlookAt := readText_of_lookup rfl hlookAt
  have hconditions := readText_of_lookup rfl hconditions
  have hreason := readText_of_lookup rfl hreason
  have halpha : l'.alphaSpent = l.alphaSpent := by
    have hread : l.alphaSpent.toJson.asPyNumber = some l'.alphaSpent :=
      (readAlpha_isFinite halpha).1
    exact (Option.some.inj ((PyNumber.asPyNumber_toJson _).symm.trans hread)).symm
  have hseconds : l'.livedSeconds = l.livedSeconds := by
    have hread : l.livedSeconds.toJson.asPyNumber = some l'.livedSeconds :=
      (readSeconds_isFinite hseconds).1
    exact (Option.some.inj ((PyNumber.asPyNumber_toJson _).symm.trans hread)).symm
  have hreference : l'.referenceId = l.referenceId := hreference
  cases l
  cases l'
  simp_all

theorem load_isFinite (h : loadLedger path file = .ok (some l)) :
    l.alphaSpent.isFinite = .ok true ∧ l.livedSeconds.isFinite = .ok true := by
  unfold loadLedger at h
  split at h
  · cases h
  · cases h
  · rename_i d
    cases hd : Ledger.fromDict d with
    | error e => simp [hd, Except.map] at h
    | ok x =>
      obtain ⟨_, halpha, hseconds, _⟩ := fromDict_ok hd
      obtain rfl : x = l := by simpa [hd, Except.map] using h
      exact ⟨(readAlpha_isFinite halpha).2, (readSeconds_isFinite hseconds).2⟩
  · cases h

theorem load_toDict (h : loadLedger path (.json (.obj l.toDict)) = .ok (some l')) : l' = l := by
  cases hd : Ledger.fromDict l.toDict with
  | error e => simp [loadLedger, hd, Except.map] at h
  | ok x =>
    obtain rfl : x = l' := by simpa [loadLedger, hd, Except.map] using h
    exact fromDict_toDict hd

theorem toDict_injective (h : l.toDict = l'.toDict) : l = l' := by
  have hnum : ∀ {x y : PyNumber}, x.toJson = y.toJson → x = y := by
    intro x y hxy
    exact Option.some.inj (by rw [← PyNumber.asPyNumber_toJson, hxy, PyNumber.asPyNumber_toJson])
  have hint : ∀ {x y : PyInt}, x.toJson = y.toJson → x = y := by
    intro x y hxy
    exact Option.some.inj (by rw [← asInt_toJson, hxy, asInt_toJson])
  have htext : ∀ {x y : Option String}, optionalText x = optionalText y → x = y := by
    intro x y hxy
    cases x <;> cases y <;> simp_all [optionalText]
  simp only [Ledger.toDict, List.cons.injEq, Prod.mk.injEq, true_and, and_true, Json.bool.injEq]
    at h
  obtain ⟨h₁, h₂, h₃, h₄, h₅, h₆, h₇, h₈, h₉, h₁₀, h₁₁, h₁₂, h₁₃, h₁₄⟩ := h
  cases l
  cases l'
  simp_all
  exact ⟨hint h₂, hnum h₃, htext h₄, hnum h₅, hint h₆, htext h₈, htext h₉, htext h₁₀, htext h₁₂,
    htext h₁₃, htext h₁₄⟩

theorem stored_unique (h : Stored path file l) (h' : Stored path file l') : l' = l := by
  rcases h with h | rfl
  · rcases h' with h' | rfl
    · simpa [h] using h'.symm
    · exact (load_toDict h).symm
  · rcases h' with h' | h'
    · exact load_toDict h'
    · exact (toDict_injective (by simpa using h')).symm

theorem checkForward_ok {u : Unit} (h : checkForward old new = .ok u)
    (hold : old.alphaSpent.isFinite = .ok true ∧ old.livedSeconds.isFinite = .ok true)
    (hnew : new.alphaSpent.isFinite = .ok true ∧ new.livedSeconds.isFinite = .ok true) :
    Forward 1 old new := by
  obtain ⟨_, hlooks, h⟩ := bind_eq_ok.mp h
  obtain ⟨_, halpha, h⟩ := bind_eq_ok.mp h
  obtain ⟨_, hlatch, h⟩ := bind_eq_ok.mp h
  obtain ⟨_, hticks, hseconds⟩ := bind_eq_ok.mp h
  have hcount : ∀ {field : String} {x y : PyInt} {u : Unit},
      checkCount field x y = .ok u → x.value ≤ y.value := by
    intro field x y u hxy
    unfold checkCount at hxy
    split at hxy
    · cases hxy
    · omega
  have hamount : ∀ {field : String} {t : ℚ} {x y : PyNumber} {u : Unit}, 0 ≤ t →
      x.isFinite = .ok true → y.isFinite = .ok true → checkAmount field t x y = .ok u →
      x.double - 2 * t ≤ y.double := by
    intro field t x y u ht hx hy hxy
    simp only [checkAmount, PyNumber.subFloat_of_isFinite hx] at hxy
    split at hxy
    · cases hxy
    · rename_i hlt
      exact PyNumber.double_of_not_lt hx hy ht (by simpa using hlt)
  refine ⟨hcount hlooks, hcount hticks, ?_, ?_, ?_⟩
  · intro hl
    unfold checkLatch at hlatch
    by_contra hn
    simp [hl, hn] at hlatch
  · simpa using hamount alphaTolerance_nonneg hold.1 hnew.1 halpha
  · simpa using hamount secondsTolerance_nonneg hold.2 hnew.2 hseconds

theorem not_stored_absent : ¬ Stored path .absent l := by
  intro h
  rcases h with h | h <;> cases h

/-- A call that is let through to the write has a later ledger than the stored one. -/
theorem beforeWrite_ok {u : Unit} (h : beforeWrite path file call = .ok u)
    (hl : Stored path file l) : Forward 1 l call.new := by
  obtain ⟨_, halpha, h⟩ := bind_eq_ok.mp h
  obtain ⟨_, hseconds, h⟩ := bind_eq_ok.mp h
  have hnew := And.intro (requireFinite_eq_ok.mp halpha) (requireFinite_eq_ok.mp hseconds)
  split at h
  · cases h
  · unfold checkStored at h
    split at h
    · exact (not_stored_absent hl).elim
    · cases h
    · obtain ⟨loaded, hload, h⟩ := bind_eq_ok.mp h
      cases loaded with
      | none =>
        rcases hl with hl | rfl
        · simp [hl] at hload
        · cases hd : Ledger.fromDict l.toDict <;> simp [loadLedger, hd, Except.map] at hload
      | some old =>
        obtain rfl : old = l := stored_unique hl (.inl hload)
        exact checkForward_ok h (load_isFinite hload) hnew

theorem saveLedger_cases (path : String) (file : LedgerFile) (call : SaveCall) :
    ((saveLedger path file call).replaced = false ∧ (saveLedger path file call).file = file) ∨
    (beforeWrite path file call = .ok () ∧ (saveLedger path file call).replaced = true ∧
      (saveLedger path file call).file = .json (.obj call.new.toDict)) := by
  unfold saveLedger
  cases hpre : beforeWrite path file call with
  | error e => exact .inl ⟨rfl, rfl⟩
  | ok u =>
    cases hfault : call.writeFails with
    | none => exact .inr ⟨rfl, rfl, rfl⟩
    | some step =>
      cases step with
      | chmod => exact .inr ⟨rfl, rfl, rfl⟩
      | makeParent | encrypt | makeTemp | writeTemp | replace => exact .inl ⟨rfl, rfl⟩

theorem saveLedger_forward (hl : Stored path file l)
    (hl' : Stored path (saveLedger path file call).file l') :
    Forward (if (saveLedger path file call).replaced then 1 else 0) l l' := by
  rcases saveLedger_cases path file call with ⟨hkept, hfile⟩ | ⟨hpre, hreplaced, hfile⟩
  · rw [hfile] at hl'
    obtain rfl : l' = l := stored_unique hl hl'
    simpa [hkept] using Forward.refl l'
  · rw [hfile] at hl'
    obtain rfl : l' = call.new := stored_unique (.inr rfl) hl'
    simpa [hreplaced] using beforeWrite_ok hpre hl

/-- A file that stores a ledger goes on to store one. -/
theorem saveLedger_stored (hl : Stored path file l) :
    ∃ l', Stored path (saveLedger path file call).file l' := by
  rcases saveLedger_cases path file call with ⟨-, hfile⟩ | ⟨-, -, hfile⟩
  · exact ⟨l, by rwa [hfile]⟩
  · exact ⟨call.new, .inr hfile⟩

theorem saves_forward (hl : Stored path file l) (hl' : Stored path (saves path file calls) l') :
    Forward (replacements path file calls) l l' := by
  induction calls generalizing file l with
  | nil =>
    obtain rfl : l' = l := stored_unique hl hl'
    exact Forward.refl l'
  | cons call calls ih =>
    have hnext : ∃ l₁, Stored path (saveLedger path file call).file l₁ := saveLedger_stored hl
    obtain ⟨l₁, hl₁⟩ := hnext
    exact (saveLedger_forward hl hl₁).trans (ih hl₁ hl')

/-- A call that raises before the replacement leaves the file, and a regression is found there. -/
theorem saveLedger_regression {r : Regression}
    (h : (saveLedger path file call).result = .error (.regression r)) :
    (saveLedger path file call).file = file := by
  rcases saveLedger_cases path file call with ⟨-, hfile⟩ | ⟨hpre, -, -⟩
  · exact hfile
  · cases hfault : call.writeFails with
    | none => simp [saveLedger, hpre, hfault, writeEncryptedJson] at h
    | some step => cases step <;> simp [saveLedger, hpre, hfault, writeEncryptedJson] at h

/-- Over any sequence of saves the counts and the latch only move forward, an amount gives up at
most its tolerance with each replacement, and a regression leaves the stored ledger. -/
theorem ledger_moves_forward (path : String) (file : LedgerFile) (calls : List SaveCall) :
    (∀ l l', Stored path file l → Stored path (saves path file calls) l' →
      Forward (replacements path file calls) l l') ∧
    ∀ call r, (saveLedger path (saves path file calls) call).result = .error (.regression r) →
      (saveLedger path (saves path file calls) call).file = saves path file calls :=
  ⟨fun _ _ => saves_forward, fun _ _ => saveLedger_regression⟩

/-- A ledger with half of the alpha spent. -/
def halfSpent : Ledger := { referenceId := .str "ref", alphaSpent := .float (.fin (1 / 2)) }

/-- The next but few doubles below one half, inside the tolerance. -/
def slightlyLess : Ledger := { halfSpent with alphaSpent := .float (.fin (1 / 2 - 1 / 2 ^ 50)) }

/-- Well below one half. -/
def muchLess : Ledger := { halfSpent with alphaSpent := .float (.fin (1 / 4)) }

theorem half_spent_moves_forward :
    Forward 1 halfSpent slightlyLess ∧
    (saveLedger "ledger.json" (.json (.obj slightlyLess.toDict)) { new := muchLess }).file =
      .json (.obj slightlyLess.toDict) := by
  have h := ledger_moves_forward "ledger.json" (.json (.obj halfSpent.toDict))
    [{ new := slightlyLess }]
  have hsaved : saves "ledger.json" (.json (.obj halfSpent.toDict)) [{ new := slightlyLess }] =
      .json (.obj slightlyLess.toDict) := by decide +kernel
  have hcount : replacements "ledger.json" (.json (.obj halfSpent.toDict))
      [{ new := slightlyLess }] = 1 := by decide +kernel
  rw [hsaved, hcount] at h
  exact ⟨h.1 _ _ (.inr rfl) (.inr rfl),
    h.2 { new := muchLess } (.value "alpha_spent" slightlyLess.alphaSpent muchLess.alphaSpent)
      (by decide +kernel)⟩

theorem ledger_alpha_decreases :
    ¬ ∀ path file calls l l', Stored path file l → Stored path (saves path file calls) l' →
      Forward 0 l l' := by
  intro h
  have hsaved : saves "ledger.json" (.json (.obj halfSpent.toDict)) [{ new := slightlyLess }] =
      .json (.obj slightlyLess.toDict) := by decide +kernel
  have hle := (h "ledger.json" _ [{ new := slightlyLess }] halfSpent slightlyLess (.inr rfl)
    (.inr hsaved)).alpha
  revert hle
  decide +kernel

end Kaine.IndividuationStore
