/-! Programs whose state outlives an exception, and the weakest preconditions that read them. -/
namespace Routine

variable {ε σ α β : Type} {x : EStateM ε σ α} {s : σ} {K : σ → Prop}
  {Q Q' : α → σ → Prop} {R R' : ε → σ → Prop}

/-- The state that a program leaves, whether it returns or raises. -/
def final (x : EStateM ε σ α) (s : σ) : σ :=
  match x.run s with
  | .ok _ t => t
  | .error _ t => t

/-- Started in a state, the program returns as `Q` says or raises as `R` says. -/
def wp (x : EStateM ε σ α) (Q : α → σ → Prop) (R : ε → σ → Prop) (s : σ) : Prop :=
  match x.run s with
  | .ok a t => Q a t
  | .error e t => R e t

@[simp] theorem wp_pure (a : α) : wp (pure a) Q R s ↔ Q a s := Iff.rfl

@[simp] theorem wp_bind (f : α → EStateM ε σ β) {Q : β → σ → Prop} :
    wp (x >>= f) Q R s ↔ wp x (fun a t => wp (f a) Q R t) R s := by
  rw [wp, wp, EStateM.run_bind]
  cases x.run s <;> rfl

@[simp] theorem wp_map (f : α → β) {Q : β → σ → Prop} :
    wp (f <$> x) Q R s ↔ wp x (fun a t => Q (f a) t) R s := by
  rw [← bind_pure_comp, wp_bind]
  exact Iff.rfl

@[simp] theorem wp_get {Q : σ → σ → Prop} :
    wp (get : EStateM ε σ σ) Q R s ↔ Q s s := Iff.rfl

@[simp] theorem wp_modify (f : σ → σ) {Q : PUnit → σ → Prop} :
    wp (modify f : EStateM ε σ PUnit) Q R s ↔ Q ⟨⟩ (f s) := Iff.rfl

@[simp] theorem wp_throw (e : ε) :
    wp (throw e : EStateM ε σ α) Q R s ↔ R e s := Iff.rfl

/-- A handler starts from the state in which the exception was raised. -/
@[simp] theorem wp_tryCatch (h : ε → EStateM ε σ α) :
    wp (tryCatch x h) Q R s ↔ wp x Q (fun e t => wp (h e) Q R t) s := by
  simp only [wp, EStateM.run, tryCatch, tryCatchThe, MonadExceptOf.tryCatch]
  delta EStateM.tryCatch
  cases x s <;> rfl

@[simp] theorem wp_ite (c : Prop) [Decidable c] (y : EStateM ε σ α) :
    wp (if c then x else y) Q R s ↔ (c → wp x Q R s) ∧ (¬c → wp y Q R s) := by
  split <;> simp_all

theorem wp_mono (h : wp x Q R s) (hQ : ∀ a t, Q a t → Q' a t) (hR : ∀ e t, R e t → R' e t) :
    wp x Q' R' s := by
  rw [wp] at h ⊢
  split at h
  · exact hQ _ _ h
  · exact hR _ _ h

theorem wp_and (h : wp x Q R s) (h' : wp x Q' R' s) :
    wp x (fun a t => Q a t ∧ Q' a t) (fun e t => R e t ∧ R' e t) s := by
  rw [wp] at h h' ⊢
  split <;> simp_all

/-- A program keeps a condition on the state, also where it raises. -/
def Keeps (K : σ → Prop) (x : EStateM ε σ α) : Prop := ∀ s, K s → wp x (fun _ => K) (fun _ => K) s

theorem Keeps.pure (a : α) : Keeps K (Pure.pure a : EStateM ε σ α) := fun _ h => h

theorem Keeps.throw (e : ε) : Keeps K (throw e : EStateM ε σ α) := fun _ h => h

theorem Keeps.modify {f : σ → σ} (h : ∀ s, K s → K (f s)) :
    Keeps K (modify f : EStateM ε σ PUnit) := h

theorem Keeps.bind {f : α → EStateM ε σ β} (hx : Keeps K x) (hf : ∀ a, Keeps K (f a)) :
    Keeps K (x >>= f) := by
  intro s hs
  rw [wp_bind]
  exact wp_mono (hx s hs) (fun a t ht => hf a t ht) (fun _ _ ht => ht)

theorem Keeps.tryCatch {h : ε → EStateM ε σ α} (hx : Keeps K x) (hh : ∀ e, Keeps K (h e)) :
    Keeps K (tryCatch x h) := by
  intro s hs
  rw [wp_tryCatch]
  exact wp_mono (hx s hs) (fun _ _ ht => ht) fun e t ht => hh e t ht

theorem Keeps.ite {c : Prop} [Decidable c] {y : EStateM ε σ α} (hx : Keeps K x) (hy : Keeps K y) :
    Keeps K (if c then x else y) := by
  split
  · exact hx
  · exact hy

/-- A program that starts by reading the state may use what it read. -/
theorem Keeps.get_bind {f : σ → EStateM ε σ β}
    (h : ∀ s, K s → wp (f s) (fun _ => K) (fun _ => K) s) : Keeps K (get >>= f) := by
  intro s hs
  rw [wp_bind, wp_get]
  exact h s hs

/-- A condition on the state alone holds of the state that the program leaves. -/
theorem wp_iff_final : wp x (fun _ => K) (fun _ => K) s ↔ K (final x s) := by
  rw [wp, final]
  cases x.run s <;> rfl

end Routine
