import Kaine.Experiment.RdRobust
import Mathlib.Algebra.Order.Field.Basic

/-! The discontinuity estimate is exact on polynomials and does not depend on the order of the
units. -/
namespace Kaine.RdRobust
open LocalFit Matrix Polynomial

/-- A sum whose terms differ on two parts is the sum over one part and over the other. -/
theorem sum_parts {ι M : Type} [Fintype ι] [AddCommMonoid M] (part : ι → Prop) [DecidablePred part]
    {f : ι → M} (inner : {i // part i} → M)
    (outer : {i // ¬ part i} → M) (hinner : ∀ i : {i // part i}, f i = inner i)
    (houter : ∀ i : {i // ¬ part i}, f i = outer i) : ∑ i, f i = ∑ i, inner i + ∑ i, outer i := by
  rw [← Fintype.sum_subtype_add_sum_subtype part f, Finset.sum_congr rfl fun i _ => hinner i,
    Finset.sum_congr rfl fun i _ => houter i]

theorem image_comp {ι κ V : Type} [Fintype ι] [Fintype κ] [DecidableEq V] (e : κ ≃ ι) (x : ι → V)
    (part : V → Prop)
    [DecidablePred part] :
    (Finset.univ.filter fun k => part ((x ∘ e) k)).image (x ∘ e) =
      (Finset.univ.filter fun i => part (x i)).image x := by
  ext v
  rw [Finset.mem_image, Finset.mem_image]
  constructor
  · rintro ⟨k, hk, rfl⟩
    exact ⟨e k, Finset.mem_filter.mpr ⟨Finset.mem_univ _, (Finset.mem_filter.mp hk).2⟩, rfl⟩
  · rintro ⟨i, hi, rfl⟩
    obtain ⟨k, rfl⟩ := e.surjective i
    exact ⟨k, Finset.mem_filter.mpr ⟨Finset.mem_univ _, (Finset.mem_filter.mp hi).2⟩, rfl⟩

variable {ι κ K : Type} [Field K] [LinearOrder K] {x y : ι → K} {h b : K} {m : ℕ}

/-- The weights of a fit at a bandwidth. -/
def kernel (x : ι → K) (h : K) (i : Inside x h) : K := (1 - |x i / h|) / h

theorem kernel_pos [IsStrictOrderedRing K] (hh : 0 < h) (i : Inside x h) : 0 < kernel x h i := by
  have hlt : |x i / h| < 1 := by
    rw [abs_div, abs_of_pos hh, div_lt_one hh]
    exact i.2
  exact div_pos (sub_pos.mpr hlt) hh

theorem scatter_zero {left : Left x → K} {right : Right x → K} {i : ι}
    (hleft : ∀ hi, left ⟨i, hi⟩ = 0) (hright : ∀ hi, right ⟨i, hi⟩ = 0) :
    scatter x left right i = 0 := by
  rw [scatter]
  by_cases hi : x i < 0
  · rw [dif_pos hi, hleft]
  · rw [dif_neg hi, hright]

variable [Fintype ι] [Fintype κ] {p q : ℕ}

section Side

/-- The fit matrix over a whole side, nothing outside the bandwidth. -/
noncomputable def sideFit (x : ι → K) (h : K) (m : ℕ) : Matrix (Fin (m + 1)) ι K :=
  Matrix.of fun j i => if hi : |x i| < h then fit (fun i : Inside x h => x i) (kernel x h) m j ⟨i,
    hi⟩ else 0

/-- A side has enough distinct points with positive weight. -/
def Identified (x : ι → K) (h : K) (m : ℕ) : Prop :=
  m + 1 ≤ (Finset.univ.image fun i : Inside x h => x i).card

theorem sideFit_outside {i : ι} (hi : h ≤ |x i|) (j : Fin (m + 1)) : sideFit x h m j i = 0 := by
  rw [sideFit, of_apply, dif_neg (not_lt.mpr hi)]

theorem sum_sideFit (x : ι → K) (h : K) (j : Fin (m + 1)) (f : K → K) :
    ∑ i, sideFit x h m j i * f (x i) =
      ∑ i : Inside x h, fit (fun i : Inside x h => x i) (kernel x h) m j i * f (x i) := by
  rw [sum_parts (fun i => |x i| < h) (fun i =>
    fit (fun i : Inside x h => x i) (kernel x h) m j i * f (x i)) (fun _ => 0),
      Finset.sum_const_zero, add_zero]
  · intro i
    rw [sideFit, of_apply, dif_pos i.2]
  · intro i
    rw [sideFit_outside (not_lt.mp i.2), zero_mul]

theorem neZero_order (p : ℕ) : NeZero (p + 1) := ⟨Nat.succ_ne_zero p⟩

section

attribute [local instance (2000)] neZero_order

/-- What the first coefficient takes from the power above the order. -/
noncomputable def bias (x : ι → K) (h : K) (p : ℕ) : K := ∑ i, sideFit x h p 0 i * x i ^ (p + 1)

/-- The corrected weights of a side. -/
noncomputable def corrected (x : ι → K) (h b : K) (p q : ℕ) (hpq : p + 1 < q + 1) (i : ι) : K :=
  sideFit x h p 0 i - bias x h p * sideFit x b q ⟨p + 1, hpq⟩ i

end

theorem corrected_outside {p q : ℕ} (hpq : p + 1 < q + 1) {i : ι} (hi : max h b ≤ |x i|) :
    corrected x h b p q hpq i = 0 := by
  rw [corrected, sideFit_outside ((le_max_left h b).trans hi),
    sideFit_outside ((le_max_right h b).trans hi), mul_zero, sub_zero]

end Side

section Reindex

variable (e : κ ≃ ι)

theorem sideFit_comp (x : ι → K) (h : K) (m : ℕ) (j : Fin (m + 1)) (k : κ) :
    sideFit (x ∘ e) h m j k = sideFit x h m j (e k) := by
  let inside : Inside (x ∘ e) h ≃ Inside x h := e.subtypeEquiv fun _ => Iff.rfl
  rw [sideFit, sideFit, of_apply, of_apply]
  by_cases hk : |x (e k)| < h
  · rw [dif_pos hk, dif_pos (show |(x ∘ e) k| < h from hk)]
    exact fit_comp inside (fun i : Inside x h => x i) (kernel x h) m j ⟨k, hk⟩
  · rw [dif_neg hk, dif_neg (show ¬ |(x ∘ e) k| < h from hk)]

theorem bias_comp (x : ι → K) (h : K) (p : ℕ) : bias (x ∘ e) h p = bias x h p := by
  rw [bias, bias, ← Equiv.sum_comp e]
  exact Finset.sum_congr rfl fun k _ => by rw [sideFit_comp]; rfl

theorem corrected_comp (x : ι → K) (h b : K) {p q : ℕ} (hpq : p + 1 < q + 1) (k : κ) :
    corrected (x ∘ e) h b p q hpq k = corrected x h b p q hpq (e k) := by
  rw [corrected, corrected, bias_comp, sideFit_comp, sideFit_comp]

end Reindex

section Whole

/-- The distinct points of a side within a bandwidth. -/
def distinctLeft (x : ι → K) (h : K) : ℕ :=
  ((Finset.univ.filter fun i => x i < 0 ∧ |x i| < h).image x).card

def distinctRight (x : ι → K) (h : K) : ℕ :=
  ((Finset.univ.filter fun i => 0 ≤ x i ∧ |x i| < h).image x).card

/-- Units for which all four fits have enough distinct points. -/
structure Design (x : ι → K) (h b : K) (p q : ℕ) : Prop where
  bandwidth : 0 < h
  biasBandwidth : 0 < b
  order : p < q
  left : p + 1 ≤ distinctLeft x h
  right : p + 1 ≤ distinctRight x h
  biasLeft : q + 1 ≤ distinctLeft x b
  biasRight : q + 1 ≤ distinctRight x b

theorem identified_left (hx : m + 1 ≤ distinctLeft x h) :
    Identified (fun i : Left x => x i) h m := by
  refine hx.trans (Finset.card_le_card fun v hv => ?_)
  obtain ⟨i, hi, rfl⟩ := Finset.mem_image.mp hv
  obtain ⟨-, hleft, hin⟩ := Finset.mem_filter.mp hi
  exact Finset.mem_image.mpr ⟨⟨⟨i, hleft⟩, hin⟩, Finset.mem_univ _, rfl⟩

theorem identified_right (hx : m + 1 ≤ distinctRight x h) :
    Identified (fun i : Right x => x i) h m := by
  refine hx.trans (Finset.card_le_card fun v hv => ?_)
  obtain ⟨i, hi, rfl⟩ := Finset.mem_image.mp hv
  obtain ⟨-, hright, hin⟩ := Finset.mem_filter.mp hi
  exact Finset.mem_image.mpr ⟨⟨⟨i, not_lt.mpr hright⟩, hin⟩, Finset.mem_univ _, rfl⟩

section

attribute [local instance (2000)] neZero_order

/-- The two weight vectors. -/
noncomputable def conventionalWeights (x : ι → K) (h : K) (p : ℕ) : ι → K :=
  scatter x (fun i => -sideFit (fun i : Left x => x i) h p 0 i)
    (fun i => sideFit (fun i : Right x => x i) h p 0 i)

end

noncomputable def correctedWeights (x : ι → K) (h b : K) (p q : ℕ) (hpq : p + 1 < q + 1) : ι → K :=
  scatter x (fun i => -corrected (fun i : Left x => x i) h b p q hpq i)
    (fun i => corrected (fun i : Right x => x i) h b p q hpq i)

theorem sum_scatter (left : Left x → K) (right : Right x → K) (y : ι → K) :
    ∑ i, scatter x left right i * y i = ∑ i, left i * y i + ∑ i, right i * y i := by
  refine sum_parts (fun i => x i < 0) _ _ (fun i => ?_) fun i => ?_
  · rw [scatter, dif_pos i.2]
  · rw [scatter, dif_neg i.2]

/-- What polynomials on the two sides come to under weights that are exact on them. -/
theorem sum_polynomials {left : Left x → K} {right : Right x → K} {f g : K[X]}
    (hleft : ∀ i, x i < 0 → y i = f.eval (x i)) (hright : ∀ i, 0 ≤ x i → y i = g.eval (x i))
    (hf : ∑ i, left i * f.eval (x i) = -f.eval 0) (hg : ∑ i, right i * g.eval (x i) = g.eval 0) :
    ∑ i, scatter x left right i * y i = g.eval 0 - f.eval 0 := by
  have hl : ∑ i, left i * y i = ∑ i, left i * f.eval (x i) :=
    Finset.sum_congr rfl fun i _ => by rw [hleft i i.2]
  have hr : ∑ i, right i * y i = ∑ i, right i * g.eval (x i) :=
    Finset.sum_congr rfl fun i _ => by rw [hright i (not_lt.mp i.2)]
  rw [sum_scatter, hl, hr, hf, hg, neg_add_eq_sub]

theorem conventionalWeights_outside {i : ι} (hi : h ≤ |x i|) : conventionalWeights x h p i = 0 := by
  refine scatter_zero (fun hside => neg_eq_zero.mpr ?_) fun hside => ?_
  · exact sideFit_outside (x := fun i : Left x => x i) (i := ⟨i, hside⟩) hi 0
  · exact sideFit_outside (x := fun i : Right x => x i) (i := ⟨i, hside⟩) hi 0

theorem correctedWeights_outside (hpq : p + 1 < q + 1) {i : ι} (hi : max h b ≤ |x i|) :
    correctedWeights x h b p q hpq i = 0 := by
  refine scatter_zero (fun hside => neg_eq_zero.mpr ?_) fun hside => ?_
  · exact corrected_outside (x := fun i : Left x => x i) hpq (i := ⟨i, hside⟩) hi
  · exact corrected_outside (x := fun i : Right x => x i) hpq (i := ⟨i, hside⟩) hi

/-- An estimate, in closed form. -/
noncomputable def estimate (x y : ι → K) (h b : K) (p q : ℕ) (hpq : p + 1 < q + 1) :
    RDEstimate K where
  tauConventional := ∑ i, conventionalWeights x h p i * y i
  tauBiasCorrected := ∑ i, correctedWeights x h b p q hpq i * y i
  nLeft := (Finset.univ.filter fun i => x i < 0 ∧ -max h b < x i).card
  nRight := (Finset.univ.filter fun i => ¬ x i < 0 ∧ x i < max h b).card
  h := h
  b := b

end Whole

section Unordered

variable (e : κ ≃ ι)

theorem conventionalWeights_comp (x : ι → K) (h : K) (p : ℕ) (k : κ) :
    conventionalWeights (x ∘ e) h p k = conventionalWeights x h p (e k) := by
  let left : Left (x ∘ e) ≃ Left x := e.subtypeEquiv fun _ => Iff.rfl
  let right : Right (x ∘ e) ≃ Right x := e.subtypeEquiv fun _ => Iff.rfl
  rw [conventionalWeights, conventionalWeights, scatter, scatter]
  by_cases hk : x (e k) < 0
  · rw [dif_pos hk, dif_pos (show (x ∘ e) k < 0 from hk)]
    exact congrArg Neg.neg (sideFit_comp left (fun i : Left x => x i) h p 0 ⟨k, hk⟩)
  · rw [dif_neg hk, dif_neg (show ¬ (x ∘ e) k < 0 from hk)]
    exact sideFit_comp right (fun i : Right x => x i) h p 0 ⟨k, hk⟩

theorem correctedWeights_comp (x : ι → K) (h b : K) (hpq : p + 1 < q + 1) (k : κ) :
    correctedWeights (x ∘ e) h b p q hpq k = correctedWeights x h b p q hpq (e k) := by
  let left : Left (x ∘ e) ≃ Left x := e.subtypeEquiv fun _ => Iff.rfl
  let right : Right (x ∘ e) ≃ Right x := e.subtypeEquiv fun _ => Iff.rfl
  rw [correctedWeights, correctedWeights, scatter, scatter]
  by_cases hk : x (e k) < 0
  · rw [dif_pos hk, dif_pos (show (x ∘ e) k < 0 from hk)]
    exact congrArg Neg.neg (corrected_comp left (fun i : Left x => x i) h b hpq ⟨k, hk⟩)
  · rw [dif_neg hk, dif_neg (show ¬ (x ∘ e) k < 0 from hk)]
    exact corrected_comp right (fun i : Right x => x i) h b hpq ⟨k, hk⟩

theorem card_filter_comp (part : ι → Prop) [DecidablePred part] :
    (Finset.univ.filter fun k => part (e k)).card = (Finset.univ.filter part).card := by
  rw [← Fintype.card_subtype, ← Fintype.card_subtype]
  exact Fintype.card_congr (e.subtypeEquiv fun _ => Iff.rfl)

theorem estimate_comp (x y : ι → K) (h b : K) (hpq : p + 1 < q + 1) :
    estimate (x ∘ e) (y ∘ e) h b p q hpq = estimate x y h b p q hpq := by
  have hconventional : ∑ k, conventionalWeights (x ∘ e) h p k * (y ∘ e) k = ∑ i,
      conventionalWeights x h p i * y i := by
    rw [← Equiv.sum_comp e]
    exact Finset.sum_congr rfl fun k _ => by rw [conventionalWeights_comp]; rfl
  have hcorrected : ∑ k, correctedWeights (x ∘ e) h b p q hpq k * (y ∘ e) k =
      ∑ i, correctedWeights x h b p q hpq i * y i := by
    rw [← Equiv.sum_comp e]
    exact Finset.sum_congr rfl fun k _ => by rw [correctedWeights_comp]; rfl
  have hleft := card_filter_comp e fun i => x i < 0 ∧ -max h b < x i
  have hright := card_filter_comp e fun i => ¬ x i < 0 ∧ x i < max h b
  rw [estimate, estimate, hconventional, hcorrected, ← hleft, ← hright]
  rfl

theorem design_comp (hd : Design x h b p q) : Design (x ∘ e) h b p q := by
  have hleft (h : K) : distinctLeft (x ∘ e) h = distinctLeft x h :=
    congrArg Finset.card (image_comp e x fun v => v < 0 ∧ |v| < h)
  have hright (h : K) : distinctRight (x ∘ e) h = distinctRight x h :=
    congrArg Finset.card (image_comp e x fun v => 0 ≤ v ∧ |v| < h)
  refine ⟨hd.bandwidth, hd.biasBandwidth, hd.order, ?_, ?_, ?_, ?_⟩
  · rw [hleft]
    exact hd.left
  · rw [hright]
    exact hd.right
  · rw [hleft]
    exact hd.biasLeft
  · rw [hright]
    exact hd.biasRight

end Unordered

section Exact

variable [IsStrictOrderedRing K]

theorem det_ne_zero (hh : 0 < h) (hx : Identified x h m) :
    (gram (fun i : Inside x h => x i) (kernel x h) m).det ≠ 0 :=
  det_gram_ne_zero (kernel_pos hh) hx

/-- A fit with enough distinct points raises nothing. -/
theorem localPoly_eq (hh : 0 < h) (hx : Identified x h m) (y : ι → K) :
    ∃ beta, localPoly x y h m = .ok ⟨beta, sideFit x h m⟩ := by
  have hcard : ¬ Fintype.card (Inside x h) < m + 1 :=
    not_lt.mpr (hx.trans (Finset.card_image_le.trans (le_of_eq Finset.card_univ)))
  have hdet : (weightedPowers (fun i : Inside x h => x i) (fun i => (1 - |x i / h|) / h) m *
      powers (fun i : Inside x h => x i) m).det ≠ 0 := det_ne_zero hh hx
  unfold localPoly
  dsimp only
  rw [if_neg (not_le.mpr hh), if_neg hcard, if_neg (not_lt.mpr hx)]
  rw [solve_eq hdet, solve_eq hdet]
  exact ⟨_, rfl⟩

/-- The fit of a polynomial up to the order gives back its coefficients. -/
theorem sideFit_eval (hh : 0 < h) (hx : Identified x h m) {f : K[X]} (hf : f.natDegree ≤ m)
    (j : Fin (m + 1)) : ∑ i, sideFit x h m j i * f.eval (x i) = f.coeff j := by
  rw [sum_sideFit x h j fun v => f.eval v]
  exact fit_eval (det_ne_zero hh hx) hf j

theorem dScalar_eq (hh : 0 < h) {p : ℕ} (hx : Identified x h p) :
    dScalar x h p = .ok (bias x h p) := by
  obtain ⟨beta, hfit⟩ := localPoly_eq hh hx fun _ => 0
  rw [dScalar, hfit]
  rfl

/-- One power above the order the fit is off by the bias. -/
theorem sideFit_eval_succ (hh : 0 < h) {p : ℕ} (hx : Identified x h p) {f : K[X]}
    (hf : f.natDegree ≤ p + 1) :
    ∑ i, sideFit x h p 0 i * f.eval (x i) = f.eval 0 + f.coeff (p + 1) * bias x h p := by
  have hsplit (v : K) : f.eval v = f.coeff (p + 1) * v ^ (p + 1) + (f.erase (p + 1)).eval v := by
    conv_lhs => rw [← monomial_add_erase f (p + 1), eval_add, eval_monomial]
  have hrest : (f.erase (p + 1)).natDegree ≤ p := by
    refine natDegree_le_iff_coeff_eq_zero.mpr fun n hn => ?_
    rcases eq_or_ne n (p + 1) with rfl | hne
    · exact erase_same f (p + 1)
    · rw [erase_ne f hne]
      exact coeff_eq_zero_of_natDegree_lt (by omega)
  have hlow := sideFit_eval hh hx hrest 0
  have hzero : (f.erase (p + 1)).coeff (0 : Fin (p + 1)) = f.eval 0 := by
    rw [← coeff_zero_eq_eval_zero]
    exact erase_ne f (Nat.succ_ne_zero p).symm
  rw [hzero] at hlow
  rw [← hlow, bias, Finset.mul_sum, ← Finset.sum_add_distrib]
  refine Finset.sum_congr rfl fun i _ => ?_
  rw [hsplit (x i)]
  ring

/-- The corrected weights are exact one power further. -/
theorem corrected_eval (hh : 0 < h) (hb : 0 < b) {p q : ℕ} (hpq : p + 1 < q + 1)
    (hp : Identified x h p) (hq : Identified x b q) {f : K[X]} (hf : f.natDegree ≤ p + 1) :
    ∑ i, corrected x h b p q hpq i * f.eval (x i) = f.eval 0 := by
  have hfirst := sideFit_eval_succ hh hp hf
  have hsecond := sideFit_eval hb hq (show f.natDegree ≤ q by omega) ⟨p + 1, hpq⟩
  have hsum : ∑ i, corrected x h b p q hpq i * f.eval (x i) =
      ∑ i, sideFit x h p 0 i * f.eval (x i) -
        bias x h p * ∑ i, sideFit x b q ⟨p + 1, hpq⟩ i * f.eval (x i) := by
    rw [Finset.mul_sum, ← Finset.sum_sub_distrib]
    refine Finset.sum_congr rfl fun i _ => ?_
    rw [corrected]
    ring
  rw [hsum, hfirst, hsecond]
  ring

/-- Identified fits raise nothing, and the weights do not depend on the outcomes. -/
theorem rdWeights_eq (hd : Design x h b p q) (y : ι → K) : ∃ r, rdWeights x y h b p q = .ok r ∧
    r.wConventional = conventionalWeights x h p ∧
    r.wBiasCorrected = correctedWeights x h b p q (Nat.succ_lt_succ hd.order) := by
  have hpr := identified_right hd.right
  have hpl := identified_left hd.left
  obtain ⟨_, hfitPR⟩ := localPoly_eq hd.bandwidth hpr fun i : Right x => y i
  obtain ⟨_, hfitPL⟩ := localPoly_eq hd.bandwidth hpl fun i : Left x => y i
  obtain ⟨_, hfitQR⟩ := localPoly_eq hd.biasBandwidth (identified_right hd.biasRight) fun i :
    Right x => y i
  obtain ⟨_, hfitQL⟩ := localPoly_eq hd.biasBandwidth (identified_left hd.biasLeft) fun i :
    Left x => y i
  have hp : ¬ (p : ℤ) < 0 := by omega
  have hq : ¬ (q : ℤ) ≤ p := by
    have := hd.order
    omega
  have hweights : rdWeights x y h b p q = weightsOf x y h b p q (Nat.succ_lt_succ hd.order) := by
    rw [rdWeights, if_neg (not_le.mpr hd.bandwidth), if_neg (not_le.mpr hd.biasBandwidth),
      dif_neg hp, dif_neg hq]
    rfl
  rw [hweights, weightsOf, hfitPR, hfitPL, hfitQR, hfitQL, dScalar_eq hd.bandwidth hpr,
    dScalar_eq hd.bandwidth hpl]
  refine ⟨_, rfl, rfl, ?_⟩
  funext i
  rw [correctedWeights]
  dsimp only
  rw [scatter, scatter]
  by_cases hi : x i < 0
  · rw [dif_pos hi, dif_pos hi, corrected, neg_sub, neg_add_eq_sub]
  · rw [dif_neg hi, dif_neg hi, corrected]

theorem rdEstimate_eq (hd : Design x h b p q) (y : ι → K) :
    rdEstimate x y h b p q = .ok (estimate x y h b p q (Nat.succ_lt_succ hd.order)) := by
  obtain ⟨r, hr, hconventional, hcorrected⟩ := rdWeights_eq hd y
  have hp : ¬ (p : ℤ) < 0 := by omega
  have hq : ¬ (q : ℤ) ≤ p := by
    have := hd.order
    omega
  rw [rdEstimate, if_neg (not_le.mpr hd.bandwidth), if_neg (not_le.mpr hd.biasBandwidth), if_neg hp,
    if_neg hq, hr, estimate, ← hconventional, ← hcorrected]

theorem conventional_polynomials (hd : Design x h b p q) {f g : K[X]} (hf : f.natDegree ≤ p)
    (hg : g.natDegree ≤ p)
    (hleft : ∀ i, x i < 0 → y i = f.eval (x i)) (hright : ∀ i, 0 ≤ x i → y i = g.eval (x i)) :
    ∑ i, conventionalWeights x h p i * y i = g.eval 0 - f.eval 0 := by
  have hl := sideFit_eval hd.bandwidth (identified_left hd.left) hf 0
  have hr := sideFit_eval hd.bandwidth (identified_right hd.right) hg 0
  refine sum_polynomials hleft hright ?_ ?_
  · rw [← coeff_zero_eq_eval_zero, ← Fin.val_zero (p + 1), ← hl, ← Finset.sum_neg_distrib]
    exact Finset.sum_congr rfl fun i _ => neg_mul _ _
  · rw [← coeff_zero_eq_eval_zero, ← Fin.val_zero (p + 1), ← hr]

theorem corrected_polynomials (hd : Design x h b p q) {f g : K[X]} (hf : f.natDegree ≤ p + 1)
    (hg : g.natDegree ≤ p + 1) (hleft : ∀ i, x i < 0 → y i = f.eval (x i))
    (hright : ∀ i, 0 ≤ x i → y i = g.eval (x i)) :
    ∑ i, correctedWeights x h b p q (Nat.succ_lt_succ hd.order) i * y i = g.eval 0 - f.eval 0 := by
  refine sum_polynomials hleft hright ?_ ?_
  · rw [← corrected_eval hd.bandwidth hd.biasBandwidth (Nat.succ_lt_succ hd.order)
      (identified_left hd.left) (identified_left hd.biasLeft) hf, ← Finset.sum_neg_distrib]
    exact Finset.sum_congr rfl fun i _ => neg_mul _ _
  · exact corrected_eval hd.bandwidth hd.biasBandwidth (Nat.succ_lt_succ hd.order)
      (identified_right hd.right) (identified_right hd.biasRight) hg

/-- What the estimate at a threshold keeps to. -/
structure EstimateLaws (x : ι → K) (h b : K) (p q : ℕ) : Prop where
  identified (y : ι → K) : ∃ r, rdWeights x y h b p q = .ok r
  conventional (f g : K[X]) (hf : f.natDegree ≤ p) (hg : g.natDegree ≤ p) (y : ι → K)
    (hleft : ∀ i, x i < 0 → y i = f.eval (x i)) (hright : ∀ i, 0 ≤ x i → y i = g.eval (x i)) :
    ∃ e, rdEstimate x y h b p q = .ok e ∧ e.tauConventional = g.eval 0 - f.eval 0
  corrected (f g : K[X]) (hf : f.natDegree ≤ p + 1) (hg : g.natDegree ≤ p + 1) (y : ι → K)
    (hleft : ∀ i, x i < 0 → y i = f.eval (x i)) (hright : ∀ i, 0 ≤ x i → y i = g.eval (x i)) :
    ∃ e, rdEstimate x y h b p q = .ok e ∧ e.tauBiasCorrected = g.eval 0 - f.eval 0
  common (f : K[X]) (hf : f.natDegree ≤ p + 1) (y : ι → K) :
    ∃ e e', rdEstimate x y h b p q = .ok e ∧
      rdEstimate x (fun i => y i + f.eval (x i)) h b p q = .ok e' ∧
        e'.tauBiasCorrected = e.tauBiasCorrected
  unordered (σ : Equiv.Perm ι) (y : ι → K) :
    ∃ e, rdEstimate x y h b p q = .ok e ∧ rdEstimate (x ∘ σ) (y ∘ σ) h b p q = .ok e
  outside (y : ι → K) (r : RDWeights ι K) (hr : rdWeights x y h b p q = .ok r) :
    (∀ i, h ≤ |x i| → r.wConventional i = 0) ∧ ∀ i, max h b ≤ |x i| → r.wBiasCorrected i = 0

/-- Units with enough distinct points on both sides are estimated by the laws. -/
theorem rd_estimate_laws (hd : Design x h b p q) : EstimateLaws x h b p q := by
  refine ⟨fun y => ?_, fun f g hf hg y hleft hright => ?_, fun f g hf hg y hleft hright => ?_,
    fun f hf y => ?_, fun σ y => ?_, fun y r hr => ?_⟩
  · obtain ⟨r, hr, -, -⟩ := rdWeights_eq hd y
    exact ⟨r, hr⟩
  · exact ⟨_, rdEstimate_eq hd y, conventional_polynomials hd hf hg hleft hright⟩
  · exact ⟨_, rdEstimate_eq hd y, corrected_polynomials hd hf hg hleft hright⟩
  · refine ⟨_, _, rdEstimate_eq hd y, rdEstimate_eq hd _, ?_⟩
    have hnothing := corrected_polynomials hd hf hf (fun i _ => rfl) fun i _ => rfl
    rw [sub_self] at hnothing
    rw [estimate, estimate]
    dsimp only
    rw [Finset.sum_congr rfl fun i _ => mul_add _ (y i) (f.eval (x i)),
      Finset.sum_add_distrib, hnothing, add_zero]
  · refine ⟨_, rdEstimate_eq hd y, ?_⟩
    rw [rdEstimate_eq (design_comp σ hd), estimate_comp]
  · obtain ⟨r', hr', hconventional, hcorrected⟩ := rdWeights_eq hd y
    rw [hr'] at hr
    cases hr
    rw [hconventional, hcorrected]
    exact ⟨fun i hi => conventionalWeights_outside hi, fun i hi => correctedWeights_outside _ hi⟩

/-- Four units at the halves and quarters. -/
def fourUnits : Fin 4 → ℚ := ![-1 / 2, -1 / 4, 1 / 4, 1 / 2]

theorem fourUnits_design : Design fourUnits 1 1 0 1 := by
  refine ⟨by norm_num, by norm_num, by decide, ?_, ?_, ?_, ?_⟩ <;> decide +kernel

theorem rd_estimate_laws_four : EstimateLaws fourUnits 1 1 0 1 := rd_estimate_laws fourUnits_design

end Exact

end Kaine.RdRobust
