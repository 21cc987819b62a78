import Mathlib.Data.List.Infix

/-! Hash chains: every link is the hash of the link before it and of a content. -/
namespace HashChain

variable {H C : Type*}

/-- A content in a chain, with the link it follows and the one it makes. -/
structure Item (H C : Type*) where
  prev : H
  content : C
  this : H
deriving DecidableEq

section Links

variable (link : H → C → H)

/-- The link at the end of the contents, from a first one. -/
def last (start : H) (cs : List C) : H := cs.foldl link start

/-- The contents with their links. -/
def chain (start : H) : List C → List (Item H C)
  | [] => []
  | c :: cs => ⟨start, c, link start c⟩ :: chain (link start c) cs

/-- Every item follows the one before it, and its link is made of its content. -/
def Linked (start : H) : List (Item H C) → Prop
  | [] => True
  | item :: items =>
    item.prev = start ∧ item.this = link start item.content ∧ Linked item.this items

/-- Among these items a link tells what it was made of, and none is the first one. -/
structure CollisionFree (start : H) (items : List (Item H C)) : Prop where
  injective : ∀ i ∈ items, ∀ j ∈ items,
    link i.prev i.content = link j.prev j.content → i.prev = j.prev ∧ i.content = j.content
  fresh : ∀ i ∈ items, link i.prev i.content ≠ start

end Links

variable {link : H → C → H} {start : H} {cs ds front rest : List C} {c : C} {item : Item H C}
  {items others : List (Item H C)}

@[simp] theorem last_nil : last link start [] = start := rfl

@[simp] theorem last_snoc : last link start (cs ++ [c]) = link (last link start cs) c := by
  rw [last, List.foldl_append]
  rfl

theorem chain_append :
    chain link start (cs ++ ds) = chain link start cs ++ chain link (last link start cs) ds := by
  induction cs generalizing start with
  | nil => rfl
  | cons c cs ih => exact congrArg _ ih

theorem linked_iff : Linked link start items ↔
    items = chain link start (items.map Item.content) := by
  induction items generalizing start with
  | nil => exact ⟨fun _ => rfl, fun _ => trivial⟩
  | cons item items ih =>
    obtain ⟨prev, content, this⟩ := item
    constructor
    · rintro ⟨hprev, hthis, hrest⟩
      dsimp only at hprev hthis hrest
      subst hprev hthis
      exact congrArg _ (ih.mp hrest)
    · intro h
      rw [List.map_cons, chain, List.cons.injEq, Item.mk.injEq] at h
      obtain ⟨⟨hprev, -, hthis⟩, hrest⟩ := h
      dsimp only at hprev hthis hrest
      subst hprev hthis
      exact ⟨rfl, rfl, ih.mpr hrest⟩

theorem linked_append : Linked link start (items ++ others) ↔
    Linked link start items ∧ Linked link (last link start (items.map Item.content)) others := by
  induction items generalizing start with
  | nil => exact ⟨fun h => ⟨trivial, h⟩, fun h => h.2⟩
  | cons item items ih =>
    obtain ⟨prev, content, this⟩ := item
    constructor
    · rintro ⟨hprev, hthis, hrest⟩
      dsimp only at hprev hthis hrest
      subst hprev hthis
      obtain ⟨hitems, hothers⟩ := ih.mp hrest
      exact ⟨⟨rfl, rfl, hitems⟩, hothers⟩
    · rintro ⟨⟨hprev, hthis, hrest⟩, hothers⟩
      dsimp only at hprev hthis hrest
      subst hprev hthis
      exact ⟨rfl, rfl, ih.mpr ⟨hrest, hothers⟩⟩

theorem mem_chain (h : item ∈ chain link start cs) :
    ∃ front c rest, cs = front ++ c :: rest ∧ item =
      ⟨last link start front, c, link (last link start front) c⟩ := by
  induction cs generalizing start with
  | nil => cases h
  | cons c cs ih =>
    rcases List.mem_cons.mp h with rfl | h
    · exact ⟨[], c, cs, rfl, rfl⟩
    · obtain ⟨front, d, rest, rfl, rfl⟩ := ih h
      exact ⟨c :: front, d, rest, rfl, rfl⟩

theorem mem_chain_of_append :
    ⟨last link start front, c, link (last link start front) c⟩ ∈
      chain link start (front ++ c :: rest) := by
  rw [chain_append]
  exact List.mem_append_right _ List.mem_cons_self

theorem chain_mono (h : front <+: cs) (hitem : item ∈ chain link start front) :
    item ∈ chain link start cs := by
  obtain ⟨rest, rfl⟩ := h
  rw [chain_append]
  exact List.mem_append_left _ hitem

/-- The link at the end of a chain tells all that stands in it. -/
theorem eq_of_last_eq (hfree : CollisionFree link start items)
    (hcs : ∀ i ∈ chain link start cs, i ∈ items) (hds : ∀ i ∈ chain link start ds, i ∈ items)
    (hlast : last link start cs = last link start ds) : cs = ds := by
  induction cs using List.reverseRecOn generalizing ds with
  | nil =>
    rcases List.eq_nil_or_concat' ds with rfl | ⟨ds, d, rfl⟩
    · rfl
    · rw [last_snoc] at hlast
      exact absurd hlast.symm (hfree.fresh _ (hds _ mem_chain_of_append))
  | append_singleton cs c ih =>
    rcases List.eq_nil_or_concat' ds with rfl | ⟨ds, d, rfl⟩
    · rw [last_snoc] at hlast
      exact absurd hlast (hfree.fresh _ (hcs _ mem_chain_of_append))
    · rw [last_snoc, last_snoc] at hlast
      obtain ⟨hprev, hcontent⟩ :=
        hfree.injective _ (hcs _ mem_chain_of_append) _ (hds _ mem_chain_of_append) hlast
      dsimp only at hprev hcontent
      rw [ih (fun i hi => hcs i (chain_mono (List.prefix_append ..) hi))
        (fun i hi => hds i (chain_mono (List.prefix_append ..) hi)) hprev, hcontent]

/-- Items of a chain that were moved, left out, repeated or given other contents make a chain only
where they are its first ones as they were. -/
theorem prefix_of_carried (hfree : CollisionFree link start items)
    (hcs : ∀ i ∈ chain link start cs, i ∈ items) (hds : ∀ i ∈ chain link start ds, i ∈ items)
    (hcarried : ∀ i ∈ chain link start ds, ∃ j ∈ chain link start cs, i.prev = j.prev ∧
      i.this = j.this) :
    ds <+: cs := by
  induction ds using List.reverseRecOn with
  | nil => exact List.nil_prefix
  | append_singleton ds d ih =>
    have hfront : ∀ i ∈ chain link start ds, i ∈ chain link start (ds ++ [d]) := fun i hi =>
      chain_mono (List.prefix_append ..) hi
    have hinit := ih (fun i hi => hds i (hfront i hi)) (fun i hi => hcarried i (hfront i hi))
    obtain ⟨j, hj, hprev, hthis⟩ := hcarried _ mem_chain_of_append
    obtain ⟨front, c, rest, rfl, rfl⟩ := mem_chain hj
    dsimp only at hprev hthis
    -- The link it follows is that of one place of the chain only, the one after what stands here
    -- already.
    have hplace : ds = front := eq_of_last_eq hfree (fun i hi => hcs i (chain_mono hinit hi))
      (fun i hi => hcs i (chain_mono (List.prefix_append ..) hi)) hprev
    subst hplace
    obtain ⟨-, hcontent⟩ :=
      hfree.injective _ (hds _ mem_chain_of_append) _ (hcs _ mem_chain_of_append) hthis
    dsimp only at hcontent
    rw [hcontent]
    exact ⟨rest, List.append_assoc ..⟩

end HashChain
