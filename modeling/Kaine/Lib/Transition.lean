import Mathlib.Data.List.Basic
import Mathlib.Data.List.Induction

/-! Finite runs of a labelled step relation, and the induction rules that read them; and machines
that put out at most one value for each input. -/
namespace Transition

variable {σ α : Type*} {step : σ → α → σ → Prop} {s t u : σ} {a : α} {as bs : List α}

/-- A finite run from the first state to the last, with one label per step. -/
inductive Run (step : σ → α → σ → Prop) : σ → List α → σ → Prop where
  | refl (s : σ) : Run step s [] s
  | head {s t u : σ} {a : α} {as : List α} :
      step s a t → Run step t as u → Run step s (a :: as) u

/-- The steps of a relation that are also taken under a condition on state and label. -/
def Guarded (ok : σ → α → Prop) (step : σ → α → σ → Prop) : σ → α → σ → Prop :=
  fun s a t => ok s a ∧ step s a t

/-- The states that some run reaches from an initial one. -/
def Reachable (initial : σ → Prop) (step : σ → α → σ → Prop) (t : σ) : Prop :=
  ∃ s as, initial s ∧ Run step s as t

namespace Run

theorem single (h : step s a t) : Run step s [a] t := .head h (.refl t)

theorem append (h : Run step s as t) (h' : Run step t bs u) : Run step s (as ++ bs) u := by
  induction h with
  | refl => exact h'
  | head hs _ ih => exact .head hs (ih h')

theorem mono {step' : σ → α → σ → Prop} (h : ∀ {s a t}, step s a t → step' s a t)
    (hr : Run step s as t) : Run step' s as t := by
  induction hr with
  | refl s => exact .refl s
  | head hs _ ih => exact .head (h hs) ih

/-- A run over a concatenation passes through a state where the first part ends. -/
theorem split : ∀ {as : List α} {s : σ}, Run step s (as ++ bs) u →
    ∃ t, Run step s as t ∧ Run step t bs u
  | [], s, h => ⟨s, .refl s, h⟩
  | _ :: _, _, .head hs h => by
    obtain ⟨t, h₁, h₂⟩ := split h
    exact ⟨t, .head hs h₁, h₂⟩

/-- A function that takes a step for each label takes a run for a list of them. -/
theorem foldl {f : σ → α → σ} : ∀ (as : List α) (s : σ), (∀ s, ∀ a ∈ as, step s a (f s a)) →
    Run step s as (as.foldl f s)
  | [], s, _ => .refl s
  | a :: as, s, h =>
    .head (h s a (by simp)) (foldl as (f s a) fun s b hb => h s b (by simp [hb]))

/-- A partial function whose results are steps takes a run for the labels that it gets through. -/
theorem foldlM {f : σ → α → Option σ} : ∀ {as : List α} {s : σ}, as.foldlM f s = some u →
    (∀ s t, ∀ a ∈ as, f s a = some t → step s a t) → Run step s as u
  | [], s, h, _ => Option.some.inj h ▸ .refl s
  | a :: as, s, h, hstep => by
    rw [List.foldlM_cons] at h
    obtain ⟨t, ht, h⟩ := Option.bind_eq_some_iff.mp h
    exact .head (hstep s t a (by simp) ht) (foldlM h fun s t b hb => hstep s t b (by simp [hb]))

/-- The last step of a run. -/
theorem concat_iff : Run step s (as ++ [a]) u ↔ ∃ t, Run step s as t ∧ step t a u := by
  constructor
  · intro h
    obtain ⟨t, hr, hlast⟩ := h.split
    cases hlast with
    | head hst hend =>
      cases hend
      exact ⟨t, hr, hst⟩
  · rintro ⟨t, hr, hst⟩
    exact hr.append (.single hst)

/-- Induction from the end of a run: what holds of no labels, and of one label more. -/
theorem concat_induction {P : List α → σ → Prop} (hnil : P [] s)
    (hconcat : ∀ {as t a u}, P as t → step t a u → P (as ++ [a]) u) (h : Run step s as t) :
    P as t := by
  induction as using List.reverseRecOn generalizing t with
  | nil =>
    cases h
    exact hnil
  | append_singleton as a ih =>
    obtain ⟨u, hr, hst⟩ := concat_iff.mp h
    exact hconcat (ih hr) hst

/-- What every step keeps, the whole run keeps. -/
theorem invariant {P : σ → Prop} (hP : ∀ {s a t}, step s a t → P s → P t)
    (h : Run step s as t) (hs : P s) : P t := by
  induction h with
  | refl => exact hs
  | head hst _ ih => exact ih (hP hst hs)

/-- A preorder that every step follows relates the two ends of a run. -/
theorem relates {r : σ → σ → Prop} (hrefl : ∀ s, r s s)
    (htrans : ∀ {s t u}, r s t → r t u → r s u) (hstep : ∀ {s a t}, step s a t → r s t)
    (h : Run step s as t) : r s t := by
  induction h with
  | refl s => exact hrefl s
  | head hst _ ih => exact htrans (hstep hst) ih

end Run

theorem Reachable.start {initial : σ → Prop} (h : initial s) : Reachable initial step s :=
  ⟨s, [], h, .refl s⟩

theorem Reachable.tail {initial : σ → Prop} (h : Reachable initial step s) (hst : step s a t) :
    Reachable initial step t := by
  obtain ⟨s₀, as, hi, hr⟩ := h
  exact ⟨s₀, as ++ [a], hi, hr.append (.single hst)⟩

/-- The induction rule of safety: true initially, kept by every step, so true wherever a run
leads. -/
theorem Reachable.invariant {initial P : σ → Prop} (h : Reachable initial step t)
    (hi : ∀ {s}, initial s → P s) (hP : ∀ {s a t}, step s a t → P s → P t) : P t := by
  obtain ⟨s, as, hs, hr⟩ := h
  exact hr.invariant hP (hi hs)

section
variable {β τ : Type*} {f : σ → α → Option β × σ} {g : τ → α → Option β × τ}

/-- What a machine puts out over a list of inputs, and the state it ends in. -/
def outputs (f : σ → α → Option β × σ) : σ → List α → List β × σ
  | s, [] => ([], s)
  | s, a :: as =>
    let here := f s a
    let later := outputs f here.2 as
    (here.1.toList ++ later.1, later.2)

/-- Machines whose states stay related put out the same. -/
theorem outputs_sim {r : σ → τ → Prop}
    (h : ∀ {s t} a, r s t → (g t a).1 = (f s a).1 ∧ r (f s a).2 (g t a).2) {s : σ} {t : τ}
    (hst : r s t) (as : List α) :
    (outputs g t as).1 = (outputs f s as).1 ∧ r (outputs f s as).2 (outputs g t as).2 := by
  induction as generalizing s t with
  | nil => exact ⟨rfl, hst⟩
  | cons a as ih =>
    obtain ⟨hout, hnext⟩ := h a hst
    obtain ⟨hlater, hend⟩ := ih hnext
    refine ⟨?_, hend⟩
    simp only [outputs, hout, hlater]

/-- Where each input's list of labels is a run between views of a machine's states, all of them
are. -/
theorem run_outputs {f : τ → β → Option (List α) × τ} (view : τ → σ) {P : τ → Prop}
    (h : ∀ t b, P t → Run step (view t) ((f t b).1.getD []) (view (f t b).2) ∧ P (f t b).2)
    (t : τ) (ht : P t) (bs : List β) :
    Run step (view t) (outputs f t bs).1.flatten (view (outputs f t bs).2) := by
  induction bs generalizing t with
  | nil => exact .refl _
  | cons b bs ih =>
    obtain ⟨hfirst, hnext⟩ := h t b ht
    have hlabels : (outputs f t (b :: bs)).1.flatten =
        (f t b).1.getD [] ++ (outputs f (f t b).2 bs).1.flatten := by
      cases hout : (f t b).1 <;> simp [outputs, hout]
    rw [hlabels]
    exact hfirst.append (ih (f t b).2 hnext)

end

end Transition
