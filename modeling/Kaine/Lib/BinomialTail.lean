import Mathlib.Data.Nat.Choose.Sum

/-! Binomial sums in natural numbers, and exponential bounds on their tails. -/
namespace Binomial

/-- The weight of one count: so many of the first kind, the others of the second. -/
def weight (a b n i : ℕ) : ℕ := n.choose i * a ^ i * b ^ (n - i)

/-- The weight of all counts from the given one on. -/
def upper (a b n k : ℕ) : ℕ := ∑ i ∈ Finset.Ico k (n + 1), weight a b n i

/-- The weight of all counts below the given one. -/
def lower (a b n k : ℕ) : ℕ := ∑ i ∈ Finset.range k, weight a b n i

variable {a b u w n k l i : ℕ}

theorem sum_weight (a b n : ℕ) : ∑ i ∈ Finset.range (n + 1), weight a b n i = (a + b) ^ n := by
  rw [add_pow]
  refine Finset.sum_congr rfl fun i _ => ?_
  rw [weight, Nat.cast_id]
  ring

theorem lower_add_upper (a b : ℕ) (hk : k ≤ n + 1) :
    lower a b n k + upper a b n k = (a + b) ^ n := by
  rw [← sum_weight, lower, upper, Finset.sum_range_add_sum_Ico _ hk]

theorem upper_anti (a b n : ℕ) (h : k ≤ l) : upper a b n l ≤ upper a b n k :=
  Finset.sum_le_sum_of_subset (Finset.Ico_subset_Ico_left h)

theorem upper_succ (a b : ℕ) (hk : k ≤ n) : upper a b n k = weight a b n k + upper a b n (k + 1) :=
  Finset.sum_eq_sum_Ico_succ_bot (Nat.lt_succ_of_le hk) _

theorem upper_end (a b n : ℕ) : upper a b n (n + 1) = 0 := by
  rw [upper, Finset.Ico_self, Finset.sum_empty]

/-- From one weight to the next, the factors that change. -/
theorem weight_step (a b : ℕ) (hi : i < n) :
    weight a b n i * (n - i) * a = weight a b n (i + 1) * ((i + 1) * b) := by
  obtain ⟨d, rfl⟩ : ∃ d, n = i + 1 + d := ⟨n - (i + 1), by omega⟩
  have hnext : i + 1 + d - i = d + 1 := by omega
  have hlast : i + 1 + d - (i + 1) = d := by omega
  have hchoose := Nat.choose_succ_right_eq (i + 1 + d) i
  rw [hnext] at hchoose
  rw [weight, weight, hnext, hlast]
  calc (i + 1 + d).choose i * a ^ i * b ^ (d + 1) * (d + 1) * a
      = (i + 1 + d).choose i * (d + 1) * (a ^ i * b ^ (d + 1) * a) := by ring
    _ = (i + 1 + d).choose (i + 1) * (i + 1) * (a ^ i * b ^ (d + 1) * a) := by rw [hchoose]
    _ = (i + 1 + d).choose (i + 1) * a ^ (i + 1) * b ^ d * ((i + 1) * b) := by ring

/-- From one weight to the next without a division that leaves a remainder. -/
theorem weight_succ (hi : i < n) (hb : 0 < b) :
    weight a b n i * (n - i) * a / ((i + 1) * b) = weight a b n (i + 1) := by
  rw [weight_step a b hi, Nat.mul_div_cancel _ (Nat.mul_pos (Nat.succ_pos i) hb)]

section Fair

theorem weight_one (n k : ℕ) : weight 1 1 n k = n.choose k := by
  rw [weight, one_pow, one_pow, mul_one, mul_one]

theorem upper_one (n k : ℕ) : upper 1 1 n k = ∑ i ∈ Finset.Ico k (n + 1), n.choose i :=
  Finset.sum_congr rfl fun i _ => weight_one n i

/-- One more trial adds the tails at a count and below it. -/
theorem upper_one_succ (n k : ℕ) :
    upper 1 1 (n + 1) (k + 1) = upper 1 1 n k + upper 1 1 n (k + 1) := by
  have hshift : ∑ i ∈ Finset.Ico k (n + 1), n.choose (i + 1) = ∑ i ∈ Finset.Ico (k + 1) (n + 1),
    n.choose i := by
    rw [Finset.sum_Ico_add' (fun i => n.choose i) k (n + 1) 1]
    rcases Nat.lt_or_ge n k with hlt | hge
    · rw [Finset.Ico_eq_empty (by omega), Finset.Ico_eq_empty (by omega)]
    · rw [Finset.sum_Ico_succ_top (by omega), Nat.choose_succ_self, add_zero]
  rw [upper_one, upper_one, upper_one, ← hshift, ← Finset.sum_add_distrib,
    ← Finset.sum_Ico_add' (fun i => (n + 1).choose i) k (n + 1) 1]
  exact Finset.sum_congr rfl fun i _ => Nat.choose_succ_succ n i

/-- The tails on the two sides mirror each other. -/
theorem lower_one (hk : k ≤ n + 1) : lower 1 1 n k = upper 1 1 n (n + 1 - k) := by
  have hreflect := Finset.sum_Ico_reflect (fun i => n.choose i) 0 hk
  rw [Nat.sub_zero] at hreflect
  rw [lower, upper_one, ← hreflect, Finset.range_eq_Ico]
  refine Finset.sum_congr rfl fun i hi => ?_
  have hin : i ≤ n := by
    have := (Finset.mem_Ico.mp hi).2
    omega
  rw [weight_one, Nat.choose_symm hin]

/-- A tail that starts at the middle or below is at least half of the whole. -/
theorem half_le_upper (hk : 2 * k ≤ n + 1) : 2 ^ n ≤ 2 * upper 1 1 n k := by
  have hwhole := lower_add_upper 1 1 (show k ≤ n + 1 by omega)
  have hmirror := lower_one (show k ≤ n + 1 by omega)
  have hanti := upper_anti 1 1 n (show k ≤ n + 1 - k by omega)
  change lower 1 1 n k + upper 1 1 n k = 2 ^ n at hwhole
  omega

end Fair

section Tilt

/-- Counts whose tilted weight is at least that of a fixed count are together bounded by the tilted
whole. -/
theorem tilt {s : Finset ℕ} (hs : s ⊆ Finset.range (n + 1))
    (hweight : ∀ i ∈ s, u ^ l * w ^ (n - l) ≤ u ^ i * w ^ (n - i)) :
    (∑ i ∈ s, weight a b n i) * (u ^ l * w ^ (n - l)) ≤ (a * u + b * w) ^ n := by
  calc (∑ i ∈ s, weight a b n i) * (u ^ l * w ^ (n - l))
      ≤ ∑ i ∈ s, weight (a * u) (b * w) n i := by
        rw [Finset.sum_mul]
        refine Finset.sum_le_sum fun i hi => ?_
        calc weight a b n i * (u ^ l * w ^ (n - l)) ≤ weight a b n i * (u ^ i * w ^ (n - i)) :=
              Nat.mul_le_mul_left _ (hweight i hi)
          _ = weight (a * u) (b * w) n i := by
            rw [weight, weight, mul_pow, mul_pow]
            ring
    _ ≤ ∑ i ∈ Finset.range (n + 1), weight (a * u) (b * w) n i := Finset.sum_le_sum_of_subset hs
    _ = (a * u + b * w) ^ n := sum_weight _ _ _

theorem tilt_up (h : w ≤ u) (hli : l ≤ i) (hin : i ≤ n) :
    u ^ l * w ^ (n - l) ≤ u ^ i * w ^ (n - i) := by
  obtain ⟨d, rfl⟩ := Nat.exists_eq_add_of_le hli
  have hsplit : n - l = d + (n - (l + d)) := by omega
  rw [hsplit, pow_add, pow_add, mul_assoc]
  exact Nat.mul_le_mul_left _ (Nat.mul_le_mul_right _ (Nat.pow_le_pow_left h d))

/-- The exponential bound on the counts from the given one on. -/
theorem upper_tilt (h : w ≤ u) (a b n l : ℕ) :
    upper a b n l * (u ^ l * w ^ (n - l)) ≤ (a * u + b * w) ^ n := by
  refine tilt (fun i hi => ?_) fun i hi => ?_
  · exact Finset.mem_range.mpr (Finset.mem_Ico.mp hi).2
  · obtain ⟨hli, hin⟩ := Finset.mem_Ico.mp hi
    exact tilt_up h hli (Nat.le_of_lt_succ hin)

/-- The exponential bound on the counts up to the given one. -/
theorem lower_tilt (h : u ≤ w) (a b : ℕ) (hl : l ≤ n) :
    lower a b n (l + 1) * (u ^ l * w ^ (n - l)) ≤ (a * u + b * w) ^ n := by
  refine tilt (fun i hi => ?_) fun i hi => ?_
  · exact Finset.mem_range.mpr (by have := Finset.mem_range.mp hi; omega)
  · have hil : i ≤ l := Nat.le_of_lt_succ (Finset.mem_range.mp hi)
    have hn : n - (n - i) = i := by omega
    have hn' : n - (n - l) = l := by omega
    have hup := tilt_up h (Nat.sub_le_sub_left hil n) (Nat.sub_le n i)
    rw [hn, hn'] at hup
    rw [mul_comm (u ^ l), mul_comm (u ^ i)]
    exact hup

end Tilt

section Rate

variable {c A D p q N : ℕ}

/-- What holds of a power at one exponent holds from there on. -/
theorem pow_le_of_le {x y : ℕ} (hxy : x ≤ y) (h : c * x ^ N ≤ y ^ N) (hn : N ≤ n) :
    c * x ^ n ≤ y ^ n := by
  obtain ⟨d, rfl⟩ := Nat.exists_eq_add_of_le hn
  rw [pow_add, pow_add, ← mul_assoc]
  exact Nat.mul_le_mul h (Nat.pow_le_pow_left hxy d)

/-- A bound by powers whose exponents are a fixed share `p : q` of the whole, from one size on. -/
theorem rate (hxy : A ^ (p + q) ≤ D ^ (p + q) * (u ^ p * w ^ q))
    (hstart : c ^ (p + q) * (A ^ (p + q)) ^ N ≤ (D ^ (p + q) * (u ^ p * w ^ q)) ^ N) (hn : N ≤ n)
    (hpos : p + q ≠ 0)
    (hshare : u ^ (p * n) * w ^ (q * n) ≤ u ^ ((p + q) * l) * w ^ ((p + q) * (n - l))) :
    c * A ^ n ≤ D ^ n * (u ^ l * w ^ (n - l)) := by
  refine (Nat.pow_le_pow_iff_left hpos).mp ?_
  calc (c * A ^ n) ^ (p + q) = c ^ (p + q) * (A ^ (p + q)) ^ n := by
        rw [mul_pow, ← pow_mul, ← pow_mul, mul_comm n]
    _ ≤ (D ^ (p + q) * (u ^ p * w ^ q)) ^ n := pow_le_of_le hxy hstart hn
    _ = (D ^ (p + q)) ^ n * (u ^ (p * n) * w ^ (q * n)) := by
      rw [mul_pow, mul_pow, ← pow_mul u, ← pow_mul w]
    _ ≤ (D ^ (p + q)) ^ n * (u ^ ((p + q) * l) * w ^ ((p + q) * (n - l))) :=
      Nat.mul_le_mul_left _ hshare
    _ = (D ^ n * (u ^ l * w ^ (n - l))) ^ (p + q) := by
      rw [mul_pow, mul_pow, ← pow_mul, ← pow_mul, ← pow_mul, ← pow_mul, mul_comm n, mul_comm l,
        mul_comm (n - l)]

/-- More of the larger base than its share. -/
theorem share_up (h : w ≤ u) (hl : l ≤ n) (hshare : p * n ≤ (p + q) * l) :
    u ^ (p * n) * w ^ (q * n) ≤ u ^ ((p + q) * l) * w ^ ((p + q) * (n - l)) := by
  have htotal : (p + q) * l + (p + q) * (n - l) = p * n + q * n := by
    rw [← Nat.mul_add, Nat.add_sub_cancel' hl, Nat.add_mul]
  have hle : (p + q) * l ≤ p * n + q * n := by omega
  have hsub : p * n + q * n - (p + q) * l = (p + q) * (n - l) := by omega
  have hup := tilt_up h hshare hle
  rwa [Nat.add_sub_cancel_left, hsub] at hup

/-- Less of the smaller base than its share. -/
theorem share_down (h : u ≤ w) (hl : l ≤ n) (hshare : (p + q) * l ≤ p * n) :
    u ^ (p * n) * w ^ (q * n) ≤ u ^ ((p + q) * l) * w ^ ((p + q) * (n - l)) := by
  have htotal : (p + q) * l + (p + q) * (n - l) = p * n + q * n := by
    rw [← Nat.mul_add, Nat.add_sub_cancel' hl, Nat.add_mul]
  have hle : (p + q) * (n - l) ≤ q * n + p * n := by omega
  have hsub : q * n + p * n - (p + q) * (n - l) = (p + q) * l := by omega
  have hup := tilt_up h (show q * n ≤ (p + q) * (n - l) by omega) hle
  rw [Nat.add_sub_cancel_left, hsub] at hup
  rw [mul_comm (u ^ (p * n)), mul_comm (u ^ ((p + q) * l))]
  exact hup

end Rate

end Binomial
