import Kaine.Lifecycle.Identity

/-! The round trip of identity records and the errors of their reader. -/
namespace Kaine.Identity
open Py

variable {isOther : Char → Bool} {x y : EntityIdentity isOther} {fields : IdentityFields} {d : Dict}
  {v : Json}

/-- `a == b`: two dates are equal where their numbers are. -/
def pyEq (a b : IdentityFields) : Prop :=
  a.mintedAt.value = b.mintedAt.value ∧ { a with mintedAt := b.mintedAt } = b

/-- The date is a number that a double holds, as every float is. -/
def HoldsDouble (x : IdentityFields) : Prop :=
  ∃ q, x.mintedAt.value = .fin q ∧ Rounding.IsBinary64 q

/-- A record that is well formed up to its date, which is an integer beyond all doubles. -/
def Overflows (v : Json) : Prop :=
  ∃ d head n, v = .obj d ∧ readHead d = .ok head ∧ Dict.get d "minted_at" = .int n ∧
    PyFloat.overflowBound ≤ |n|

theorem bind_eq_ok {α β : Type} {a : Except Fault α} {k : α → Except Fault β} {b : β} :
    a >>= k = .ok b ↔ ∃ c, a = .ok c ∧ k c = .ok b := Py.bind_eq_ok

/-- A sequence fails where its first part does, or where the rest does after it. -/
theorem bind_eq_error {α β : Type} {a : Except Fault α} {k : α → Except Fault β} {f : Fault} :
    a >>= k = .error f ↔ a = .error f ∨ ∃ c, a = .ok c ∧ k c = .error f := by
  cases a <;> simp [bind, Except.bind]

theorem EntityIdentity.ext_fields (h : x.toIdentityFields = y.toIdentityFields) : x = y := by
  cases x
  cases y
  simp_all

theorem mapM_map {α : Type} {encode : α → Json} {read : Json → Option α}
    (h : ∀ a, read (encode a) = some a) (xs : List α) : (xs.map encode).mapM read = some xs := by
  induction xs with
  | nil => rfl
  | cons a xs ih => simp [h, ih]

theorem construct_eq_ok : construct isOther fields = .ok x ↔ x.toIdentityFields = fields := by
  unfold construct
  constructor
  · intro h
    split at h
    · cases h
      rfl
    · cases h
  · rintro rfl
    split
    · rfl
    · rename_i e he
      exact absurd (x.checked.symm.trans he) (by simp)

theorem construct_of_check (h : check isOther fields = .ok ()) :
    construct isOther fields = .ok ⟨fields, h⟩ := construct_eq_ok.mpr rfl

/-- A date that the constructor accepts is a finite number and no bool. -/
theorem checkMintedAt_ok {mintedAt : PyNumber} {u : Unit} (h : checkMintedAt mintedAt = .ok u) :
    mintedAt.isFinite = .ok true ∧ ∀ b, mintedAt ≠ .int (.bool b) := by
  unfold checkMintedAt at h
  split at h
  · cases h
  · rename_i hbool
    split at h
    · rename_i hfin
      exact ⟨hfin, hbool⟩
    · cases h
    · cases h

theorem check_mintedAt {u : Unit} (h : check isOther fields = .ok u) :
    checkMintedAt fields.mintedAt = .ok () := by
  unfold check at h
  split at h
  · cases h
  · split at h
    · cases h
    · split at h
      · cases h
      · obtain ⟨_, _, h⟩ := bind_eq_ok.mp h
        obtain ⟨_, hminted, _⟩ := bind_eq_ok.mp h
        exact hminted

/-- The checks look at the date only to see that it is finite. -/
theorem check_congr {mintedAt : PyNumber} (h : check isOther fields = .ok ())
    (hminted : checkMintedAt mintedAt = .ok ()) :
    check isOther { fields with mintedAt := mintedAt } = .ok () := by
  have hold := check_mintedAt h
  unfold check at *
  simp only [hminted, hold] at h ⊢
  exact h

/-- The keys that a record always has, with their values. -/
theorem lookup_toDict (x : IdentityFields) :
    x.toDict.lookup "entity_id" = some (.str x.entityId) ∧
    x.toDict.lookup "lineage" = some (.arr (x.lineage.map .str)) ∧
    x.toDict.lookup "origin" = some (.str x.origin) ∧
    x.toDict.lookup "minted_at" = some x.mintedAt.toJson ∧
    x.toDict.lookup "legacy_source" = some (optionalText x.legacySource) :=
  ⟨rfl, rfl, rfl, rfl, rfl⟩

theorem keysFit_toDict (x : IdentityFields) : keysFit x.toDict = true := by
  obtain ⟨entityId, lineage, origin, mintedAt, legacySource, name, lineageNames⟩ := x
  cases name <;> cases lineageNames <;> rfl

theorem readLineageNames_toDict (x : IdentityFields) :
    readLineageNames x.toDict = .ok x.lineageNames := by
  have hread : ∀ ps : List (String × String),
      readList readPair (.arr (ps.map pairJson)) = some ps := mapM_map fun _ => rfl
  obtain ⟨entityId, lineage, origin, mintedAt, legacySource, name, lineageNames⟩ := x
  cases lineageNames with
  | nil => cases name <;> rfl
  | cons p ps =>
    have hget : ∀ x : IdentityFields, x.lineageNames = p :: ps →
        x.toDict.lookup "lineage_names" = some (.arr ((p :: ps).map pairJson)) := by
      rintro ⟨_, _, _, _, _, name, _⟩ rfl
      cases name <;> rfl
    have hlist := hread (p :: ps)
    rw [List.map_cons] at hlist
    simp [readLineageNames, Dict.getD, Dict.has, hget, hlist]

theorem readName_toDict (x : IdentityFields) : readName x.toDict = .ok x.name := by
  obtain ⟨entityId, lineage, origin, mintedAt, legacySource, name, lineageNames⟩ := x
  cases name <;> cases lineageNames <;> rfl

theorem readHead_toDict (x : IdentityFields) :
    readHead x.toDict =
      .ok ⟨x.entityId, x.lineage, x.origin, .float (.fin 0), none, x.name, x.lineageNames⟩ := by
  obtain ⟨hid, hlineage, horigin, -, -⟩ := lookup_toDict x
  have hstring : ∀ s, readString (.str s) = some s := fun _ => rfl
  have hread := mapM_map hstring x.lineage
  simp [readHead, keysFit_toDict, readLineageNames_toDict, readName_toDict, readText, readLineage,
    Dict.get, hid, hlineage, horigin, hread, bind, Except.bind, pure, Except.pure]

/-- Reading back the date of an identity gives its nearest double. -/
theorem readMintedAt_toDict (x : EntityIdentity isOther) :
    readMintedAt x.toDict = .ok (.float (.fin x.mintedAt.double)) := by
  obtain ⟨-, -, -, hminted, -⟩ := lookup_toDict x.toIdentityFields
  obtain ⟨hfin, hbool⟩ := checkMintedAt_ok (check_mintedAt x.checked)
  have hfloat := (PyNumber.toFloat_of_isFinite hfin).1
  unfold readMintedAt
  rw [Dict.get, hminted, Option.getD_some, PyNumber.asPyNumber_toJson]
  split
  · rename_i hnone
    cases hnone
  · rename_i b hb
    exact (hbool b (Option.some.inj hb)).elim
  · rename_i y _ hy
    obtain rfl : x.mintedAt = y := Option.some.inj hy
    rw [hfloat]
    rfl

theorem readLegacySource_toDict (x : IdentityFields) :
    readLegacySource x.toDict = .ok x.legacySource := by
  obtain ⟨-, -, -, -, hsource⟩ := lookup_toDict x
  cases hx : x.legacySource <;> simp [readLegacySource, Dict.get, hsource, hx, optionalText]

theorem checkMintedAt_double (z : PyNumber) :
    checkMintedAt (.float (.fin z.double)) = .ok () := rfl

/-- An identity is read back with its date as a double, and otherwise as it was. -/
theorem fromDict_toDict (x : EntityIdentity isOther) :
    ∃ y, fromDict isOther (.obj x.toDict) = .ok y ∧
      y.toIdentityFields =
        { x.toIdentityFields with mintedAt := .float (.fin x.mintedAt.double) } := by
  have hcheck := check_congr x.checked (checkMintedAt_double x.mintedAt)
  refine ⟨⟨_, hcheck⟩, ?_, rfl⟩
  have hconstruct := construct_of_check hcheck
  simp only [fromDict, readHead_toDict, readMintedAt_toDict, readLegacySource_toDict,
    constructOrIdentityError, bind, Except.bind, hconstruct]

/-- The round trip holds exactly where the date is a number that a double holds. -/
theorem roundTrip_iff (x : EntityIdentity isOther) :
    (∃ y, fromDict isOther (.obj x.toDict) = .ok y ∧
      pyEq y.toIdentityFields x.toIdentityFields) ↔ HoldsDouble x.toIdentityFields := by
  obtain ⟨hfin, -⟩ := checkMintedAt_ok (check_mintedAt x.checked)
  obtain ⟨-, q, hq, hdouble⟩ := PyNumber.toFloat_of_isFinite hfin
  obtain ⟨y, hy, hfields⟩ := fromDict_toDict x
  have hvalue : y.mintedAt.value = .fin (Rounding.binary64 q) := by
    rw [hfields, hdouble]
    rfl
  constructor
  · rintro ⟨z, hz, heq, -⟩
    obtain rfl : y = z := Except.ok.inj (hy.symm.trans hz)
    refine ⟨q, hq, ?_⟩
    rw [hvalue, hq] at heq
    rw [← PyFloat.fin.inj heq]
    exact Rounding.isBinary64_binary64 q
  · rintro ⟨p, hp, hbinary⟩
    obtain rfl : q = p := PyFloat.fin.inj (hq.symm.trans hp)
    refine ⟨y, hy, ?_, ?_⟩
    · rw [hvalue, hq, Rounding.nearest_binary64.eq_self hbinary]
    · rw [hfields]

/-- A date that was read is a double, and is read back as it is. -/
theorem readMintedAt_ok {z : PyNumber} (h : readMintedAt d = .ok z) :
    z = .float (.fin z.double) := by
  unfold readMintedAt at h
  split at h
  · cases h
  · cases h
  · rename_i w _ _
    split at h
    · cases h
    · rename_i y hy
      split at h
      · rename_i hfin
        cases h
        obtain ⟨q, rfl⟩ := PyFloat.isFinite_iff.mp hfin
        have hwfin : w.isFinite = .ok true := by
          simp [PyNumber.isFinite, hy, Except.map, PyFloat.isFinite]
        obtain ⟨hw, p, -, hp⟩ := PyNumber.toFloat_of_isFinite hwfin
        have hq : q = Rounding.binary64 p := by
          rw [← hp]
          exact PyFloat.fin.inj (Except.ok.inj (hy.symm.trans hw))
        simp [PyNumber.double, PyNumber.value, hq, Rounding.nearest_binary64.idem]
      · cases h

/-- An accepted record gives an identity whose own record is accepted with the same result. -/
theorem fromDict_stable (h : fromDict isOther v = .ok x) :
    fromDict isOther (.obj x.toDict) = .ok x := by
  cases v with
  | obj d =>
    obtain ⟨head, hhead, h⟩ := bind_eq_ok.mp h
    obtain ⟨mintedAt, hminted, h⟩ := bind_eq_ok.mp h
    obtain ⟨source, hsource, h⟩ := bind_eq_ok.mp h
    unfold constructOrIdentityError at h
    split at h
    · cases h
    · have hfields := construct_eq_ok.mp h
      obtain ⟨y, hy, hyf⟩ := fromDict_toDict x
      have hdate : x.mintedAt = .float (.fin x.mintedAt.double) := by
        rw [hfields]
        exact readMintedAt_ok hminted
      have hyx : y = x := by
        apply EntityIdentity.ext_fields
        rw [hyf, ← hdate]
      rw [hy, hyx]
  | null | bool _ | int _ | float _ | str _ | arr _ => cases h

/-- What callers of the reader catch. -/
def IsIdentityError (f : Fault) : Prop := ∃ e, f = .identity e

theorem fail_error {α : Type} {message : String} {shown : Option Json} {f : Fault}
    (h : (fail message shown : Except Fault α) = .error f) : IsIdentityError f := by
  cases h
  exact ⟨_, rfl⟩

theorem readText_error {key message : String} {f : Fault}
    (h : readText d key message = .error f) : IsIdentityError f := by
  unfold readText at h
  split at h
  · cases h
  · exact fail_error h

theorem readLineage_error {f : Fault} (h : readLineage d = .error f) : IsIdentityError f := by
  unfold readLineage at h
  split at h
  · split at h
    · cases h
    · exact fail_error h
  · exact fail_error h

theorem readName_error {f : Fault} (h : readName d = .error f) : IsIdentityError f := by
  unfold readName at h
  split at h
  · cases h
  · cases h
  · exact fail_error h

theorem readLineageNames_error {f : Fault} (h : readLineageNames d = .error f) :
    IsIdentityError f := by
  unfold readLineageNames at h
  split at h
  · exact fail_error h
  · split at h
    · exact fail_error h
    · cases h

theorem readHead_error {f : Fault} (h : readHead d = .error f) : IsIdentityError f := by
  unfold readHead at h
  split at h
  · exact fail_error h
  · rcases bind_eq_error.mp h with h | ⟨_, -, h⟩
    · exact readLineageNames_error h
    · rcases bind_eq_error.mp h with h | ⟨_, -, h⟩
      · exact readName_error h
      · rcases bind_eq_error.mp h with h | ⟨_, -, h⟩
        · exact readText_error h
        · rcases bind_eq_error.mp h with h | ⟨_, -, h⟩
          · exact readLineage_error h
          · rcases bind_eq_error.mp h with h | ⟨_, -, h⟩
            · exact readText_error h
            · cases h

theorem readLegacySource_error {f : Fault} (h : readLegacySource d = .error f) :
    IsIdentityError f := by
  unfold readLegacySource at h
  split at h
  · cases h
  · cases h
  · exact fail_error h

theorem constructOrIdentityError_error {f : Fault}
    (h : constructOrIdentityError isOther fields = .error f) : IsIdentityError f := by
  unfold constructOrIdentityError at h
  split at h
  · exact fail_error h
  · rename_i hother
    cases f with
    | identity e => exact ⟨e, rfl⟩
    | python e => exact (hother e h).elim

/-- The date of a record raises `OverflowError` exactly where it is an integer beyond all
doubles. -/
theorem readMintedAt_error {f : Fault} (h : readMintedAt d = .error f) :
    IsIdentityError f ∨
      ∃ n, Dict.get d "minted_at" = .int n ∧ PyFloat.overflowBound ≤ |n| := by
  unfold readMintedAt at h
  split at h
  · exact .inl (fail_error h)
  · exact .inl (fail_error h)
  · rename_i w hbool hget
    split at h
    · rename_i e he
      right
      cases hd : Dict.get d "minted_at" with
      | int n =>
        refine ⟨n, rfl, ?_⟩
        rw [hd] at hget
        obtain rfl : PyNumber.int (.int n) = w := Option.some.inj hget
        by_contra hlt
        have hlt : |n| < PyFloat.overflowBound := lt_of_not_ge hlt
        simp [PyNumber.toFloat, PyInt.value, hlt] at he
      | float x =>
        rw [hd] at hget
        obtain rfl : PyNumber.float x = w := Option.some.inj hget
        cases x <;> cases he
      | bool b =>
        rw [hd] at hget
        exact (hbool b (Option.some.inj hget).symm).elim
      | null | str _ | arr _ | obj _ =>
        rw [hd] at hget
        cases hget
    · split at h
      · cases h
      · exact .inl (fail_error h)

theorem readMintedAt_overflow {n : ℤ} (hd : Dict.get d "minted_at" = .int n)
    (hn : PyFloat.overflowBound ≤ |n|) : readMintedAt d = .error (.python .overflowError) := by
  have hlt : ¬ |n| < PyFloat.overflowBound := not_lt.mpr hn
  simp [readMintedAt, hd, Json.asPyNumber, Json.asInt, PyNumber.toFloat, PyInt.value, hlt]

/-- What the reader promises of a value. -/
def ReadsSafely (isOther : Char → Bool) (v : Json) : Prop :=
  (∃ x, fromDict isOther v = .ok x ∧ fromDict isOther (.obj x.toDict) = .ok x) ∨
    ∃ e, fromDict isOther v = .error (.identity e)

theorem fromDict_error {f : Fault} (h : fromDict isOther v = .error f) :
    IsIdentityError f ∨ Overflows v := by
  cases v with
  | obj d =>
    rcases bind_eq_error.mp h with h | ⟨head, hhead, h⟩
    · exact .inl (readHead_error h)
    · rcases bind_eq_error.mp h with h | ⟨_, -, h⟩
      · rcases readMintedAt_error h with h | ⟨n, hd, hn⟩
        · exact .inl h
        · exact .inr ⟨d, head, n, rfl, hhead, hd, hn⟩
      · rcases bind_eq_error.mp h with h | ⟨_, -, h⟩
        · exact .inl (readLegacySource_error h)
        · exact .inl (constructOrIdentityError_error h)
  | null | bool _ | int _ | float _ | str _ | arr _ => exact .inl (fail_error h)

theorem fromDict_overflows (h : Overflows v) :
    fromDict isOther v = .error (.python .overflowError) := by
  obtain ⟨d, head, n, rfl, hhead, hd, hn⟩ := h
  simp [fromDict, hhead, readMintedAt_overflow hd hn, bind, Except.bind]

theorem readsSafely_iff (isOther : Char → Bool) (v : Json) :
    ReadsSafely isOther v ↔ ¬ Overflows v := by
  constructor
  · intro h hover
    have herr : fromDict isOther v = .error (.python .overflowError) := fromDict_overflows hover
    rcases h with ⟨x, hx, -⟩ | ⟨e, he⟩
    · rw [herr] at hx
      cases hx
    · rw [herr] at he
      cases he
  · intro hover
    cases h : fromDict isOther v with
    | ok x => exact .inl ⟨x, h, fromDict_stable h⟩
    | error f =>
      rcases fromDict_error h with ⟨e, rfl⟩ | h
      · exact .inr ⟨e, h⟩
      · exact (hover h).elim

/-- An identity survives its record exactly where its date is a double, and a value is read or
refused as promised exactly where it does not bring an integer date beyond all doubles. -/
theorem identity_records (isOther : Char → Bool) :
    (∀ x : EntityIdentity isOther,
      (∃ y, fromDict isOther (.obj x.toDict) = .ok y ∧
        pyEq y.toIdentityFields x.toIdentityFields) ↔ HoldsDouble x.toIdentityFields) ∧
    ∀ v, ReadsSafely isOther v ↔ ¬ Overflows v :=
  ⟨roundTrip_iff, readsSafely_iff isOther⟩

/-- An identity dated by the first positive integer that no double holds. -/
def unevenDate : IdentityFields :=
  { entityId := "ent-00000000000000000000000000000000", mintedAt := .int (.int (2 ^ 53 + 1)) }

/-- A record dated by an integer beyond all doubles. -/
def hugeDate : Json :=
  .obj (IdentityFields.toDict { unevenDate with mintedAt := .int (.int (10 ^ 400)) })

theorem unevenDate_checked : check (fun _ => false) unevenDate = .ok () := by decide +kernel

theorem identity_record_changes :
    (∃ x : EntityIdentity (fun _ => false), ¬ ∃ y,
      fromDict (fun _ => false) (.obj x.toDict) = .ok y ∧
        pyEq y.toIdentityFields x.toIdentityFields) ∧
    fromDict (fun _ => false) hugeDate = .error (.python .overflowError) := by
  constructor
  · refine ⟨⟨unevenDate, unevenDate_checked⟩, ?_⟩
    intro h
    obtain ⟨q, hq, hbinary⟩ := (roundTrip_iff _).mp h
    obtain rfl : ((2 ^ 53 + 1 : ℤ) : ℚ) = q := PyFloat.fin.inj hq
    have hself := Rounding.nearest_binary64.eq_self hbinary
    revert hself
    decide +kernel
  · refine fromDict_overflows ⟨_, _, 10 ^ 400, rfl, readHead_toDict _, rfl, ?_⟩
    decide +kernel

end Kaine.Identity
