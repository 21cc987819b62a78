import Kaine.Residency.Fit
import Mathlib.Algebra.Order.BigOperators.Group.List
import Mathlib.Algebra.Order.Ring.Nat
import Mathlib.Data.List.Induction

/-! What a fit report says of its budgets and needs. -/
namespace Kaine.Residency

variable {budgets : List Domain} {needs : List Need} {need : Need} {pin domain component : String}
  {budget : ℤ} {sizes : List (String × ℕ)}

/-- The needs of a domain. -/
def needsOf (needs : List Need) (domain : String) : List Need := needs.filter (·.domain = domain)

/-- The budget of a domain: the last one that is given. -/
def budgetOf (budgets : List Domain) (domain : String) : Option ℤ :=
  (budgets.filter (·.name = domain)).getLast?.bind Domain.budgetBytes

theorem needsOf_concat (needs : List Need) (need : Need) (domain : String) :
    needsOf (needs ++ [need]) domain =
      if need.domain = domain then needsOf needs domain ++ [need] else needsOf needs domain := by
  unfold needsOf
  rw [List.filter_append]
  split_ifs with h <;> simp [h]

theorem groups_concat (needs : List Need) (need : Need) :
    groupNeedsByDomain (needs ++ [need]) = addNeed (groupNeedsByDomain needs) need := by
  rw [groupNeedsByDomain, List.foldl_append]
  rfl

/-- Each domain with needs has them all in its group. -/
theorem lookup_groups (needs : List Need) (domain : String) :
    (groupNeedsByDomain needs).lookup domain = if needsOf needs domain =
      [] then none else some (needsOf needs domain) := by
  induction needs using List.reverseRecOn with
  | nil => rfl
  | append_singleton needs need ih =>
    rw [groups_concat, needsOf_concat, addNeed]
    by_cases h : need.domain = domain
    · rw [h, Assoc.lookup_assign_self, ih, if_pos rfl]
      have hne : needsOf needs domain ++ [need] ≠ [] :=
          List.append_ne_nil_of_right_ne_nil _ (List.cons_ne_nil _ _)
      rw [if_neg hne]
      split_ifs with hempty
      · rw [hempty]
        rfl
      · rfl
    · rw [Assoc.lookup_assign_of_ne (Ne.symm h), ih, if_neg h]

theorem groups_nodup (needs : List Need) : ((groupNeedsByDomain needs).map Prod.fst).Nodup := by
  induction needs using List.reverseRecOn with
  | nil => exact List.nodup_nil
  | append_singleton needs need ih =>
    rw [groups_concat]
    exact Assoc.nodup_assign ih

theorem mem_groups {group : List Need} :
    (domain, group) ∈ groupNeedsByDomain needs ↔ group = needsOf needs domain ∧ group ≠ [] := by
  have hlookup := lookup_groups needs domain
  constructor
  · intro h
    have hfound := Assoc.lookup_of_mem (groups_nodup needs) h
    rw [hlookup] at hfound
    split_ifs at hfound with hempty
    obtain rfl := Option.some.inj hfound
    exact ⟨rfl, hempty⟩
  · rintro ⟨rfl, hne⟩
    rw [if_neg hne] at hlookup
    exact Assoc.mem_of_lookup_eq_some hlookup

theorem lookup_budgets (budgets : List Domain) (domain : String) :
    ((Assoc.assignAll [] (budgets.map fun budget => (budget.name,
      budget))).lookup domain).bind Domain.budgetBytes =
      budgetOf budgets domain := by
  unfold budgetOf
  congr 1
  induction budgets using List.reverseRecOn with
  | nil => rfl
  | append_singleton budgets last ih =>
    have hassign : Assoc.assignAll [] ((budgets ++ [last]).map fun budget => (budget.name,
        budget)) = Assoc.assign (Assoc.assignAll [] (budgets.map fun budget => (budget.name,
          budget))) last.name last := by
      rw [List.map_append, Assoc.assignAll, List.foldl_append]
      rfl
    rw [hassign, List.filter_append]
    by_cases h : last.name = domain
    · subst h
      rw [Assoc.lookup_assign_self]
      simp
    · rw [Assoc.lookup_assign_of_ne (Ne.symm h), ih]
      simp [h]

/-- The fit that the report has for a domain. -/
def fitOf (budgets : List Domain) (pin : String) (domain : String)
    (needs : List Need) : DomainFit :=
  (fitDomain (Assoc.assignAll [] (budgets.map fun budget => (budget.name, budget))) pin true
    domain needs).1

/-- Nothing but a domain that co-resides leaves `co_resides` as it was. -/
theorem fitDomain_eq (byDomain : List (String × Domain)) (pin domain : String) (flag : Bool)
    (needs : List Need) :
    fitDomain byDomain pin flag domain needs =
      ((fitDomain byDomain pin true domain needs).1,
        flag && (fitDomain byDomain pin true domain needs).1.status = .coResides) := by
  unfold fitDomain
  dsimp only
  split_ifs with hmissing
  · simp
  · cases (byDomain.lookup domain).bind Domain.budgetBytes with
    | none => simp
    | some budget =>
      dsimp only
      split_ifs <;> simp

theorem report_eq (budgets : List Domain) (needs : List Need) (pin : String) :
    (fitReport budgets needs pin).domains =
      (groupNeedsByDomain needs).map (fun group => fitOf budgets pin group.1 group.2) ∧
    (fitReport budgets needs pin).coResides =
      (groupNeedsByDomain needs).all fun group => (fitOf budgets pin group.1 group.2).status =
        .coResides := by
  unfold fitReport
  dsimp only
  induction groupNeedsByDomain needs using List.reverseRecOn with
  | nil => exact ⟨rfl, rfl⟩
  | append_singleton groups group ih =>
    rw [List.foldl_append, List.foldl_cons, List.foldl_nil, fitDomain_eq, ih.1, ih.2]
    refine ⟨?_, ?_⟩
    · rw [List.map_append]
      rfl
    · rw [List.all_append, List.all_cons, List.all_nil, Bool.and_true]
      rfl

/-- What a need weighs on a budget is known. -/
def Need.Known (need : Need) : Prop := need.footprintBytes ≠ none ∨ need.estimateBytes ≠ none

theorem missing_iff : need.missing = true ↔ ¬need.Known := by
  unfold Need.missing Need.Known effectiveBytes
  cases need.footprintBytes <;> cases need.estimateBytes <;> simp

theorem any_missing : needs.any Need.missing = true ↔ ¬∀ need ∈ needs, need.Known := by
  rw [List.any_eq_true]
  simp only [missing_iff, not_forall, exists_prop]

/-- The four ways a domain can fit. -/
theorem fitOf_cases (budgets : List Domain) (pin domain : String) (needs : List Need) :
    ((¬∀ need ∈ needs, need.Known) ∨ budgetOf budgets domain = none) ∧
      (fitOf budgets pin domain needs).status = .unknownBudget ∧
        (fitOf budgets pin domain needs).pinned = none ∧
      (fitOf budgets pin domain needs).multiplexed = needs.map Need.component ∨
    (∀ need ∈ needs, need.Known) ∧ ∃ budget, budgetOf budgets domain = some budget ∧
      ((((needs.map Need.bytes).sum : ℕ) : ℤ) ≤ budget ∧ (fitOf budgets pin domain needs).status =
          .coResides ∧ (fitOf budgets pin domain needs).pinned = none ∨
        budget < ((needs.map Need.bytes).sum : ℕ) ∧
          (fitOf budgets pin domain needs).pinned = pinnedOf pin needs budget ∧
          (fitOf budgets pin domain needs).multiplexed =
            (needs.filter fun need => some need.component ≠ pinnedOf pin needs budget).map
              Need.component ∧
          (fitOf budgets pin domain needs).status =
            if (pinnedOf pin needs budget).isSome then .multiplex
            else if (largestOf (sizesOf needs) : ℤ) ≤ budget then .multiplex else .doesNotFit) := by
  unfold fitOf fitDomain
  rw [lookup_budgets]
  dsimp only
  by_cases hmissing : needs.any Need.missing = true
  · rw [if_pos hmissing]
    exact .inl ⟨.inl (any_missing.mp hmissing), rfl, rfl, rfl⟩
  · rw [if_neg hmissing]
    have hknown : ∀ need ∈ needs, need.Known := not_not.mp fun h => hmissing (any_missing.mpr h)
    cases budgetOf budgets domain with
    | none => exact .inl ⟨.inr rfl, rfl, rfl, rfl⟩
    | some budget =>
      refine .inr ⟨hknown, budget, rfl, ?_⟩
      dsimp only
      by_cases hfits : (((needs.map Need.bytes).sum : ℕ) : ℤ) ≤ budget
      · rw [if_pos hfits]
        exact .inl ⟨hfits, rfl, rfl⟩
      · rw [if_neg hfits]
        exact .inr ⟨not_le.mp hfits, rfl, rfl, rfl⟩

/-- A domain co-resides just where all is known and the figures sum to no more than the budget. -/
theorem coResides_iff : (fitOf budgets pin domain needs).status = .coResides ↔
    (∀ need ∈ needs, need.Known) ∧
      ∃ budget, budgetOf budgets domain = some budget ∧
        (((needs.map Need.bytes).sum : ℕ) : ℤ) ≤ budget := by
  rcases fitOf_cases budgets pin domain needs with ⟨hunknown, hstatus, -⟩ |
    ⟨hknown, budget, hbudget, ⟨hfits, hstatus, -⟩ | ⟨hover, -, -, hstatus⟩⟩
  · rw [hstatus]
    refine ⟨fun h => (by cases h), ?_⟩
    rintro ⟨hknown, budget, hbudget, -⟩
    rcases hunknown with h | h
    · exact absurd hknown h
    · cases h.symm.trans hbudget
  · exact ⟨fun _ => ⟨hknown, budget, hbudget, hfits⟩, fun _ => hstatus⟩
  · rw [hstatus]
    constructor
    · intro h
      split_ifs at h
    · rintro ⟨-, budget', hbudget', hfits⟩
      cases hbudget.symm.trans hbudget'
      exact absurd hfits (not_le.mpr hover)

/-- Where a domain does not co-reside, each of its needs is pinned or takes turns. -/
theorem pinned_or_multiplexed (hstatus : (fitOf budgets pin domain needs).status ≠ .coResides)
    (hneed : need ∈ needs) :
    (fitOf budgets pin domain needs).pinned = some need.component ∨
      need.component ∈ (fitOf budgets pin domain needs).multiplexed := by
  rcases fitOf_cases budgets pin domain needs with ⟨-, -, -, hmultiplexed⟩ |
    ⟨-, budget, -, ⟨-, hco, -⟩ | ⟨-, hpinned, hmultiplexed, -⟩⟩
  · exact .inr (hmultiplexed ▸ List.mem_map_of_mem hneed)
  · exact absurd hco hstatus
  · rw [hpinned, hmultiplexed]
    by_cases h : some need.component = pinnedOf pin needs budget
    · exact .inl h.symm
    · exact .inr (List.mem_map_of_mem (List.mem_filter.mpr ⟨hneed, decide_eq_true h⟩))

theorem largestOf_le {bound : ℕ} : largestOf sizes ≤ bound ↔ ∀ kv ∈ sizes, kv.2 ≤ bound := by
  unfold largestOf
  induction sizes using List.reverseRecOn with
  | nil => simp
  | append_singleton sizes kv ih =>
    rw [List.map_append, List.foldl_append]
    simp only [List.map_cons, List.map_nil, List.foldl_cons, List.foldl_nil, max_le_iff, ih,
      List.forall_mem_append, List.forall_mem_singleton]

theorem le_largestOf {kv : String × ℕ} (h : kv ∈ sizes) : kv.2 ≤ largestOf sizes :=
  largestOf_le.mp le_rfl kv h

/-- Something that exceeds every size exceeds the largest. -/
theorem largestOf_le_cast (h : sizes ≠ []) :
    (largestOf sizes : ℤ) ≤ budget ↔ ∀ kv ∈ sizes, (kv.2 : ℤ) ≤ budget := by
  constructor
  · intro hle kv hkv
    have hkv := le_largestOf hkv
    omega
  · intro hall
    obtain ⟨kv, rest, rfl⟩ := List.exists_cons_of_ne_nil h
    have hpos : (0 : ℤ) ≤ budget := (Int.natCast_nonneg kv.2).trans (hall kv List.mem_cons_self)
    obtain ⟨bound, rfl⟩ := Int.eq_ofNat_of_zero_le hpos
    exact Int.ofNat_le.mpr (largestOf_le.mpr fun kv hkv => Int.ofNat_le.mp (hall kv hkv))

theorem mem_candidatesOf (h : component ∈ candidatesOf pin needs sizes) :
    (sizes.lookup component).isSome = true ∨ component ∈ needs.map Need.component := by
  rcases List.mem_append.mp h with h | h
  · split_ifs at h with hpin
    · exact .inl (List.mem_singleton.mp h ▸ hpin)
    · cases h
  · obtain ⟨need, hneed, rfl⟩ := List.mem_map.mp h
    exact .inr (List.mem_map_of_mem ((SortBy.mem_sortBy _).mp (List.mem_filter.mp hneed).1))

section Distinct
variable (hdistinct : (needs.map Need.component).Nodup)
include hdistinct

theorem sizesOf_eq : sizesOf needs = needs.map fun need => (need.component, need.bytes) := by
  refine Assoc.assignAll_nil ?_
  rw [List.map_map]
  exact hdistinct

/-- What is pinned fits, and leaves room for any other need. -/
theorem pinned_fits (h : pinnedOf pin needs budget = some component) :
    ∃ need ∈ needs, need.component = component ∧ (need.bytes : ℤ) ≤ budget ∧
      ∀ other ∈ needs, other ≠ need → (need.bytes : ℤ) + other.bytes ≤ budget := by
  have hsizes := sizesOf_eq hdistinct
  have hfits := List.find?_some h
  rw [decide_eq_true_iff, hsizes] at hfits
  have hcomponent : component ∈ needs.map Need.component := by
    rcases mem_candidatesOf (List.mem_of_find?_eq_some h) with hfound | hmem
    · rw [hsizes] at hfound
      obtain ⟨bytes, hfound⟩ := Option.isSome_iff_exists.mp hfound
      obtain ⟨need, hneed, he⟩ := List.mem_map.mp (Assoc.mem_of_lookup_eq_some hfound)
      cases he
      exact List.mem_map_of_mem hneed
    · exact hmem
  obtain ⟨need, hneed, rfl⟩ := List.mem_map.mp hcomponent
  have hkeys : ((needs.map fun need => (need.component, need.bytes)).map Prod.fst).Nodup := by
    rw [List.map_map]
    exact hdistinct
  have hlookup : (needs.map fun need => (need.component, need.bytes)).lookup need.component =
    some need.bytes :=
    Assoc.lookup_of_mem hkeys (List.mem_map.mpr ⟨need, hneed, rfl⟩)
  rw [hlookup, Option.getD_some] at hfits
  refine ⟨need, hneed, rfl, by omega, fun other hother hne => ?_⟩
  have hname : other.component ≠ need.component := fun he =>
    hne (List.inj_on_of_nodup_map hdistinct hother hneed he)
  have hmem : (other.component, other.bytes) ∈
      (needs.map fun need => (need.component, need.bytes)).filter (·.1 ≠ need.component) :=
    List.mem_filter.mpr ⟨List.mem_map.mpr ⟨other, hother, rfl⟩, decide_eq_true hname⟩
  have hle := le_largestOf hmem
  unfold otherMax at hfits
  dsimp only at hle
  omega

theorem doesNotFit_iff (hne : needs ≠ []) : (fitOf budgets pin domain needs).status = .doesNotFit ↔
    (∀ need ∈ needs, need.Known) ∧
      ∃ budget, budgetOf budgets domain = some budget ∧ ∃ need ∈ needs, budget < need.bytes := by
  have hsizes := sizesOf_eq hdistinct
  rcases fitOf_cases budgets pin domain needs with ⟨hunknown, hstatus, -⟩ |
    ⟨hknown, budget, hbudget, ⟨hfits, hstatus, -⟩ | ⟨hover, -, -, hstatus⟩⟩
  · rw [hstatus]
    refine ⟨fun h => (by cases h), ?_⟩
    rintro ⟨hknown, budget, hbudget, -⟩
    rcases hunknown with h | h
    · exact absurd hknown h
    · cases h.symm.trans hbudget
  · rw [hstatus]
    refine ⟨fun h => (by cases h), ?_⟩
    rintro ⟨-, budget', hbudget', need, hneed, hlarge⟩
    cases hbudget.symm.trans hbudget'
    have hle := List.single_le_sum (fun _ _ => Nat.zero_le _) _
      (List.mem_map_of_mem (f := Need.bytes) hneed)
    omega
  · have hlargest : (largestOf (sizesOf needs) : ℤ) ≤ budget ↔
      ∀ need ∈ needs, (need.bytes : ℤ) ≤ budget := by
      rw [hsizes, largestOf_le_cast (by simpa using hne), List.forall_mem_map]
    have hpinned : (pinnedOf pin needs budget).isSome = true →
      ∀ need ∈ needs, (need.bytes : ℤ) ≤ budget := by
      intro hsome need hneed
      obtain ⟨component, hcomponent⟩ := Option.isSome_iff_exists.mp hsome
      obtain ⟨first, hfirst, -, hfits, hothers⟩ := pinned_fits hdistinct hcomponent
      by_cases he : need = first
      · exact he ▸ hfits
      · have hroom := hothers need hneed he
        omega
    rw [hstatus]
    constructor
    · intro h
      split_ifs at h with hsome hle
      rw [hlargest] at hle
      simp only [not_forall, not_le] at hle
      obtain ⟨need, hneed, hlarge⟩ := hle
      exact ⟨hknown, budget, hbudget, need, hneed, hlarge⟩
    · rintro ⟨-, budget', hbudget', need, hneed, hlarge⟩
      cases hbudget.symm.trans hbudget'
      have hall : ¬∀ need ∈ needs, (need.bytes : ℤ) ≤ budget :=
          fun hall => absurd hlarge (not_lt.mpr (hall need hneed))
      rw [if_neg fun hsome => hall (hpinned hsome), if_neg fun hle => hall (hlargest.mp hle)]

end Distinct

/-- The fits of a report are those of the domains with needs, one each. -/
theorem mem_domains {fit : DomainFit} : fit ∈ (fitReport budgets needs pin).domains ↔
    ∃ domain, needsOf needs domain ≠ [] ∧
      fit = fitOf budgets pin domain (needsOf needs domain) := by
  rw [(report_eq budgets needs pin).1, List.mem_map]
  constructor
  · rintro ⟨⟨domain, group⟩, hgroup, rfl⟩
    obtain ⟨rfl, hne⟩ := mem_groups.mp hgroup
    exact ⟨domain, hne, rfl⟩
  · rintro ⟨domain, hne, rfl⟩
    exact ⟨(domain, needsOf needs domain), mem_groups.mpr ⟨rfl, hne⟩, rfl⟩

/-- What a report says of a domain with needs; what it pins and what it finds too large, of a domain
that names each component once. -/
structure FitSound (budgets : List Domain) (needs : List Need) (domain : String)
    (fit : DomainFit) : Prop where
  coResides : fit.status = .coResides ↔ (∀ need ∈ needsOf needs domain, need.Known) ∧
    ∃ budget, budgetOf budgets domain = some budget ∧
      ((((needsOf needs domain).map Need.bytes).sum : ℕ) : ℤ) ≤ budget
  covered : fit.status ≠ .coResides → ∀ need ∈ needsOf needs domain,
    fit.pinned = some need.component ∨ need.component ∈ fit.multiplexed
  pinned : ((needsOf needs domain).map Need.component).Nodup →
    ∀ component, fit.pinned = some component → ∃ budget, budgetOf budgets domain = some budget ∧
      ∃ need ∈ needsOf needs domain, need.component = component ∧
      ∀ other ∈ needsOf needs domain, other ≠ need → (need.bytes : ℤ) + other.bytes ≤ budget
  doesNotFit : ((needsOf needs domain).map Need.component).Nodup → (fit.status = .doesNotFit ↔
    (∀ need ∈ needsOf needs domain, need.Known) ∧
      ∃ budget, budgetOf budgets domain = some budget ∧ ∃ need ∈ needsOf needs domain, budget <
        need.bytes)

theorem fitOf_domain (budgets : List Domain) (pin domain : String) (needs : List Need) :
    (fitOf budgets pin domain needs).domain = domain := by
  unfold fitOf fitDomain
  dsimp only
  split_ifs
  · rfl
  · cases ((Assoc.assignAll [] (budgets.map fun budget => (budget.name, budget))).lookup
        domain).bind Domain.budgetBytes with
    | none => rfl
    | some budget =>
      dsimp only
      split_ifs <;> rfl

theorem fit_report_sound (budgets : List Domain) (needs : List Need) (pin : String) :
    (∀ domain, (∃ fit ∈ (fitReport budgets needs pin).domains, fit.domain = domain) ↔
      needsOf needs domain ≠ []) ∧
    (∀ fit ∈ (fitReport budgets needs pin).domains, FitSound budgets needs fit.domain fit) ∧
    ((fitReport budgets needs pin).coResides = true ↔
      ∀ fit ∈ (fitReport budgets needs pin).domains, fit.status = .coResides) := by
  refine ⟨fun domain => ?_, fun fit hfit => ?_, ?_⟩
  · constructor
    · rintro ⟨fit, hfit, rfl⟩
      obtain ⟨domain, hne, rfl⟩ := mem_domains.mp hfit
      rwa [fitOf_domain]
    · exact fun hne => ⟨_, mem_domains.mpr ⟨domain, hne, rfl⟩, fitOf_domain _ _ _ _⟩
  · obtain ⟨domain, hne, rfl⟩ := mem_domains.mp hfit
    rw [fitOf_domain]
    refine ⟨coResides_iff, fun hstatus need hneed => pinned_or_multiplexed hstatus hneed,
      fun hdistinct component hpinned => ?_, fun hdistinct => doesNotFit_iff hdistinct hne⟩
    rcases fitOf_cases budgets pin domain (needsOf needs domain) with ⟨-, -, hnone, -⟩ |
      ⟨-, budget, hbudget, ⟨-, -, hnone⟩ | ⟨-, hsome, -⟩⟩
    · cases hnone.symm.trans hpinned
    · cases hnone.symm.trans hpinned
    · obtain ⟨need, hneed, hname, -, hroom⟩ := pinned_fits hdistinct (hsome.symm.trans hpinned)
      exact ⟨budget, hbudget, need, hneed, hname, hroom⟩
  · rw [(report_eq budgets needs pin).2, (report_eq budgets needs pin).1, List.all_eq_true,
      List.forall_mem_map]
    simp only [decide_eq_true_iff]

/-- A need beyond the budget, and one without a figure. -/
def unmeasured : List Need :=
  [{ component := "language", domain := "gpu", footprintBytes := some 10 },
    { component := "speech", domain := "gpu" }]

/-- Two needs of one component, the first beyond the budget. -/
def namedTwice : List Need :=
  [{ component := "language", domain := "gpu", footprintBytes := some 10 },
    { component := "language", domain := "gpu", footprintBytes := some 1 }]

/-- A need beyond its known budget does not make a domain unfit where another has no figure, nor
where a second need of its component hides it. -/
theorem oversize_unseen :
    (∃ need ∈ unmeasured, 5 < need.bytes) ∧
      (fitReport [⟨"gpu", some 5⟩] unmeasured "language").domains.map DomainFit.status =
        [.unknownBudget] ∧
    (∃ need ∈ namedTwice, 5 < need.bytes) ∧
      (fitReport [⟨"gpu", some 5⟩] namedTwice "language").domains.map (fun fit => (fit.status,
        fit.pinned)) = [(.multiplex, some "language")] := by
  decide

end Kaine.Residency
