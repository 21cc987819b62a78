import Kaine.EpisodicMemory.AssociationTablesSafety
import Mathlib.Data.Sym.Sym2

/-! The index in every run, what a cap on links drops and which pairs are chosen. -/
namespace Kaine.EpisodicMemory
open AssociationTables

variable {B : Type*} {index : AssociationTables B} {link : Link B} {id ref : String}

/-- The index without some links. -/
def AssociationTables.without (index : AssociationTables B) (links : List (Link B)) :
    AssociationTables B :=
  links.foldl (fun index link => (index.removeLink link.id).2) index

theorem Indexed.without (h : Indexed index) (links : List (Link B)) :
    Indexed (index.without links) := by
  induction links generalizing index with
  | nil => exact h
  | cons link links ih => exact ih (h.removeLink link.id)

theorem without_append (index : AssociationTables B) (front back : List (Link B)) :
    index.without (front ++ back) = (index.without front).without back := List.foldl_append

theorem Indexed.mem_removeLink (h : Indexed index) :
    link ∈ (index.removeLink id).2.scan.links ↔ link ∈ index.scan.links ∧ link.id ≠ id := by
  rw [(h.removeLink id).mem_scan, h.mem_scan]
  cases hlink : index.links.lookup id with
  | none =>
    rw [removeLink_of_none hlink]
    refine ⟨fun hl => ⟨hl, ?_⟩, And.left⟩
    rintro rfl
    cases hlink.symm.trans hl
  | some old =>
    rw [removeLink_eq hlink]
    dsimp only
    by_cases hid : link.id = id
    · rw [hid, Assoc.lookup_remove_self]
      simp
    · rw [Assoc.lookup_remove_of_ne hid]
      simp [hid]

theorem Indexed.mem_without (h : Indexed index) (links : List (Link B)) :
    link ∈ (index.without links).scan.links ↔
      link ∈ index.scan.links ∧ ∀ gone ∈ links, link.id ≠ gone.id := by
  induction links generalizing index with
  | nil => simp [AssociationTables.without]
  | cons first links ih =>
    have hstep := ih (h.removeLink first.id)
    rw [h.mem_removeLink] at hstep
    rw [List.forall_mem_cons, ← and_assoc]
    exact hstep

/-- Without the front of its links a reference keeps the back. -/
theorem Indexed.linksOf_without (h : Indexed index) {front back : List (Link B)}
    (hperm : (index.scan.linksOf ref).Perm (front ++ back)) :
    ((index.without front).scan.linksOf ref).Perm back := by
  have hnodup := hperm.nodup_iff.mp (h.scan_linksOf_nodup ref)
  refine (List.perm_ext_iff_of_nodup ((h.without front).scan_linksOf_nodup ref)
    (List.nodup_append.mp hnodup).2.1).mpr fun link => ?_
  have hall : ∀ l, l ∈ front ++ back ↔ l ∈ index.scan.links ∧ l.joins ref := fun l =>
    hperm.mem_iff.symm.trans mem_scan_linksOf
  rw [mem_scan_linksOf, h.mem_without, and_right_comm, ← hall]
  constructor
  · rintro ⟨hmem, hids⟩
    rcases List.mem_append.mp hmem with hfront | hback
    · exact absurd rfl (hids link hfront)
    · exact hback
  · intro hback
    refine ⟨List.mem_append_right _ hback, fun gone hgone hid => ?_⟩
    have hl := ((hall link).mp (List.mem_append_right _ hback)).1
    have hg := ((hall gone).mp (List.mem_append_left _ hgone)).1
    obtain rfl := List.inj_on_of_nodup_map h.scan_nodup hl hg hid
    exact (List.nodup_append.mp hnodup).2.2 link hgone link hback rfl

theorem Indexed.degree_length (h : Indexed index) (ref : String) :
    index.degree ref = (index.scan.linksOf ref).length := h.degree_eq ref

theorem Indexed.linksOf_mono (h : Indexed index) (gone : List (Link B)) (ref : String)
    (hlink : link ∈ (index.without gone).scan.linksOf ref) : link ∈ index.scan.linksOf ref := by
  rw [mem_scan_linksOf] at hlink ⊢
  exact ⟨((h.mem_without gone).mp hlink.1).1, hlink.2⟩

theorem Indexed.degree_mono (h : Indexed index) (gone : List (Link B)) (ref : String) :
    (index.without gone).degree ref ≤ index.degree ref := by
  rw [h.degree_length, (h.without gone).degree_length]
  exact (((h.without gone).scan_linksOf_nodup ref).subperm fun link hlink =>
    h.linksOf_mono gone ref hlink).length_le

/-- A member of two lists in a row lies in one of them. -/
theorem split_of_append {α : Type*} {l r pre post : List α} {x : α}
    (h : l ++ r = pre ++ x :: post) : (∃ more, pre = l ++ more ∧ r = more ++ x :: post) ∨
      ∃ more, l = pre ++ x :: more := by
  rcases List.append_eq_append_iff.mp h with ⟨more, hpre, hrest⟩ | ⟨more, hl, hrest⟩
  · exact .inl ⟨more, hpre, hrest⟩
  · cases more with
    | nil => exact .inl ⟨[], by rw [hl, List.append_nil, List.append_nil], hrest.symm⟩
    | cons first more =>
      obtain ⟨rfl, -⟩ := List.cons.inj hrest
      exact .inr ⟨more, hl⟩

section Cap
variable [LinearOrder B] {nLink : ℤ} {done : List String} {removed : List (Link B)}

/-- What a cap of the references in `done` may have removed: each of them is left within it, and
each link went from one that had too many at that time and keeps none that is weaker. -/
structure Capped (index : AssociationTables B) (nLink : ℤ) (done : List String)
    (removed : List (Link B)) :
  Prop where
  within : ∀ ref ∈ done, (index.without removed).degree ref ≤ nLink
  excess : ∀ pre link post, removed = pre ++ link :: post → ∃ ref ∈ done,
    link ∈ (index.without pre).scan.linksOf ref ∧ nLink < (index.without pre).degree ref ∧
      ∀ kept ∈ (index.without removed).scan.linksOf ref, link.logBase ≤ kept.logBase

/-- The turn of one reference. -/
theorem Capped.turn (h : Indexed index) (hn : 0 ≤ nLink) (hcapped : Capped index nLink done removed)
    (ref : String) :
    ∃ removed', capRef nLink (removed, index.without removed) ref = some (removed',
      index.without removed') ∧ Capped index nLink (done ++ [ref]) removed' := by
  have hnow := h.without removed
  let key (link : Link B) := toLex (link.logBase, toLex (link.entityTime, link.id))
  let sorted := (index.without removed).scan.linksOf ref |>.insertionSort fun l m => key l ≤ key m
  let count := ((index.without removed).degree ref - nLink).toNat
  have hperm : ((index.without removed).scan.linksOf ref).Perm
    (sorted.take count ++ sorted.drop count) := by
    rw [List.take_append_drop]
    exact (List.perm_insertionSort _ _).symm
  have hlength : sorted.length = (index.without removed).degree ref := by
    rw [hnow.degree_length, List.length_insertionSort]
  have hsorted : sorted.Pairwise fun l m => key l ≤ key m := SortBy.pairwise_insertionSort key _
  have hexcess : (index.without removed).weakestExcess ref nLink = some (sorted.take count) := by
    rw [weakestExcess, hnow.linksOf_eq]
    rfl
  have hkept : ((index.without (removed ++ sorted.take count)).scan.linksOf ref).Perm
    (sorted.drop count) := by
    rw [without_append]
    exact hnow.linksOf_without hperm
  refine ⟨removed ++ sorted.take count, ?_, ?_, ?_⟩
  · rw [capRef, hexcess, without_append]
    rfl
  · intro r hr
    rcases List.mem_append.mp hr with hr | hr
    · have hwithin := hcapped.within r hr
      have hmono := hnow.degree_mono (sorted.take count) r
      rw [without_append]
      omega
    · rw [List.mem_singleton.mp hr, (h.without _).degree_length, hkept.length_eq,
        List.length_drop, hlength]
      omega
  · intro pre link post hsplit
    rcases split_of_append hsplit with ⟨more, hpre, hrest⟩ | ⟨more, hremoved⟩
    · -- A link of this turn: those before it leave the reference over the cap.
      have hmore : more.length < count := by
        have hlen := congrArg List.length hrest
        simp only [List.length_take, List.length_append, List.length_cons] at hlen
        omega
      have hfront : ((index.without removed).scan.linksOf ref).Perm (more ++
          (link :: post ++ sorted.drop count)) := by
        rw [← List.append_assoc, ← hrest]
        exact hperm
      have hleft := hnow.linksOf_without hfront
      rw [← without_append, ← hpre] at hleft
      refine ⟨ref, List.mem_append_right _ List.mem_cons_self, ?_, ?_, fun kept hmem => ?_⟩
      · exact hleft.mem_iff.mpr (List.mem_append_left _ List.mem_cons_self)
      · have htotal := hfront.length_eq
        rw [← hnow.degree_length, List.length_append] at htotal
        rw [(h.without pre).degree_length, hleft.length_eq]
        omega
      · have hdrop := hkept.mem_iff.mp hmem
        have hlink : link ∈ sorted.take count := hrest ▸ List.mem_append_right _ List.mem_cons_self
        rw [← List.take_append_drop count sorted] at hsorted
        have hle := (List.pairwise_append.mp hsorted).2.2 link hlink kept hdrop
        exact Prod.Lex.monotone_fst _ _ hle
    · obtain ⟨r, hr, hlink, hover, hweakest⟩ := hcapped.excess pre link more hremoved
      refine ⟨r, List.mem_append_left _ hr, hlink, hover, fun kept hmem => hweakest kept ?_⟩
      rw [without_append] at hmem
      exact hnow.linksOf_mono _ r hmem

theorem Capped.turns (h : Indexed index) (hn : 0 ≤ nLink) (refs : List String)
    (hcapped : Capped index nLink done removed) :
    ∃ removed', refs.foldlM (capRef nLink) (removed, index.without removed) =
      some (removed', index.without removed') ∧
      Capped index nLink (done ++ refs) removed' := by
  induction refs generalizing done removed with
  | nil => exact ⟨removed, rfl, by rwa [List.append_nil]⟩
  | cons ref refs ih =>
    obtain ⟨next, hnext, hcapped⟩ := hcapped.turn h hn ref
    obtain ⟨removed', hrest, hcapped⟩ := ih hcapped
    refine ⟨removed', ?_, by rwa [← List.append_cons] at hcapped⟩
    rw [List.foldlM_cons, hnext]
    exact hrest

theorem Indexed.capLinks_eq (h : Indexed index) (hn : 0 ≤ nLink) (refs : List String) :
    ∃ removed, index.capLinks refs nLink = some (removed, index.without removed) ∧
      Capped index nLink refs removed := by
  have hstart : Capped index nLink [] [] := by
    refine ⟨fun ref hr => (by cases hr), fun pre link post hsplit => ?_⟩
    cases pre <;> cases hsplit
  obtain ⟨removed, hrun, hcapped⟩ := hstart.turns h hn (refs.dedup.insertionSort (· ≤ ·))
  have hrefs : ∀ ref, ref ∈ [] ++ refs.dedup.insertionSort (· ≤ ·) ↔ ref ∈ refs := by
    intro ref
    rw [List.nil_append, (List.perm_insertionSort _ _).mem_iff, List.mem_dedup]
  refine ⟨removed, hrun, fun ref hr => hcapped.within ref ((hrefs ref).mpr hr),
    fun pre link post hsplit => ?_⟩
  obtain ⟨ref, hr, hover⟩ := hcapped.excess pre link post hsplit
  exact ⟨ref, (hrefs ref).mp hr, hover⟩

end Cap

/-- Dropping links is a sequence of changes of its own. -/
theorem without_after (ops : List (IndexOp B)) (links : List (Link B)) :
    (indexAfter ops).without links = indexAfter (ops ++ links.map fun link =>
      .removeLink link.id) := by
  rw [indexAfter, indexAfter, List.foldl_append, List.foldl_map]
  rfl

section Pairs
variable {S : Type*} {c c' : Candidate S}

/-- The references of a candidate, in no order. -/
def Candidate.pair (c : Candidate S) : Sym2 String := s(c.qRef, c.oldRef)

/-- Two candidates have one key when they are about the same two references. -/
theorem Candidate.key_eq_iff : c.key = c'.key ↔ c.pair = c'.pair := by
  unfold Candidate.key Candidate.pair
  rw [Sym2.eq_iff]
  split_ifs with h h' h' <;> rw [Prod.mk.injEq]
  · refine ⟨fun he => .inl he.symm, ?_⟩
    rintro (he | ⟨hq, hold⟩)
    · exact he.symm
    · rw [hq, hold] at h
      exact absurd h h'.asymm
  · refine ⟨fun he => .inr he.symm, ?_⟩
    rintro (⟨hq, hold⟩ | he)
    · rw [hq, hold] at h
      exact absurd h h'
    · exact he.symm
  · refine ⟨.inr, ?_⟩
    rintro (⟨hq, hold⟩ | he)
    · rw [← hq, ← hold] at h'
      exact absurd h' h
    · exact he
  · refine ⟨.inl, ?_⟩
    rintro (he | ⟨hq, hold⟩)
    · exact he
    · have hsame : c'.qRef = c'.oldRef := le_antisymm (not_lt.mp h') (hq ▸ hold ▸ not_lt.mp h)
      exact ⟨hq.trans hsame.symm, hold.trans hsame⟩

variable [LinearOrder S] {best seen : List (Candidate S)}

/-- One candidate of each pair seen so far, the best of that pair. -/
structure BestOf (seen best : List (Candidate S)) : Prop where
  keys : (best.map Candidate.key).Nodup
  mem : ∀ b ∈ best, b ∈ seen
  covers : ∀ c ∈ seen, ∃ b ∈ best, b.key = c.key ∧ c.sim ≤ b.sim

theorem keys_keepBest (best : List (Candidate S)) (c : Candidate S) :
    (keepBest best c).map Candidate.key =
      if c.key ∈ best.map Candidate.key then best.map Candidate.key
        else best.map Candidate.key ++ [c.key] := by
  induction best with
  | nil => rfl
  | cons current rest ih =>
    rw [keepBest]
    by_cases hkey : current.key = c.key
    · have hmem : c.key ∈ (current :: rest).map Candidate.key := hkey ▸ List.mem_cons_self
      rw [if_pos hkey, if_pos hmem, List.map_cons, List.map_cons]
      split_ifs
      · rw [hkey]
      · rfl
    · have hmem : c.key ∈ (current :: rest).map Candidate.key ↔ c.key ∈ rest.map Candidate.key := by
        rw [List.map_cons, List.mem_cons, or_iff_right (Ne.symm hkey)]
      rw [if_neg hkey, List.map_cons, ih]
      simp only [hmem]
      split_ifs <;> rfl

theorem mem_keepBest {b : Candidate S} (h : b ∈ keepBest best c) : b ∈ best ∨ b = c := by
  induction best with
  | nil => exact .inr (List.mem_singleton.mp h)
  | cons current rest ih =>
    rw [keepBest] at h
    split_ifs at h with hkey hsim
    · rcases List.mem_cons.mp h with rfl | h
      · exact .inr rfl
      · exact .inl (List.mem_cons_of_mem _ h)
    · exact .inl h
    · rcases List.mem_cons.mp h with rfl | h
      · exact .inl List.mem_cons_self
      · exact (ih h).imp_left (List.mem_cons_of_mem _)

/-- Each candidate so far, and the new one, has one of its pair that is no worse. -/
theorem exists_keepBest {c' : Candidate S} (h : c' ∈ best ∨ c' = c) :
    ∃ b ∈ keepBest best c, b.key = c'.key ∧ c'.sim ≤ b.sim := by
  induction best with
  | nil =>
    rcases h with h | rfl
    · cases h
    · exact ⟨c', List.mem_cons_self, rfl, le_rfl⟩
  | cons current rest ih =>
    rw [keepBest]
    by_cases hkey : current.key = c.key
    · rw [if_pos hkey]
      have hfirst : ∀ d : Candidate S, d = current ∨ d = c →
          (if current.sim < c.sim then c else current).key = d.key ∧
            d.sim ≤ (if current.sim < c.sim then c else current).sim := by
        rintro d (rfl | rfl) <;> split_ifs with hsim
        · exact ⟨hkey.symm, hsim.le⟩
        · exact ⟨rfl, le_rfl⟩
        · exact ⟨rfl, le_rfl⟩
        · exact ⟨hkey, not_lt.mp hsim⟩
      rcases h with h | rfl
      · rcases List.mem_cons.mp h with rfl | h
        · exact ⟨_, List.mem_cons_self, hfirst c' (.inl rfl)⟩
        · exact ⟨c', List.mem_cons_of_mem _ h, rfl, le_rfl⟩
      · exact ⟨_, List.mem_cons_self, hfirst c' (.inr rfl)⟩
    · rw [if_neg hkey]
      rcases h with h | rfl
      · rcases List.mem_cons.mp h with rfl | h
        · exact ⟨c', List.mem_cons_self, rfl, le_rfl⟩
        · obtain ⟨b, hb, hbest⟩ := ih (.inl h)
          exact ⟨b, List.mem_cons_of_mem _ hb, hbest⟩
      · obtain ⟨b, hb, hbest⟩ := ih (.inr rfl)
        exact ⟨b, List.mem_cons_of_mem _ hb, hbest⟩

theorem BestOf.keepBest (h : BestOf seen best) (c : Candidate S) :
    BestOf (seen ++ [c]) (keepBest best c) := by
  refine ⟨?_, fun b hb => ?_, fun c' hc' => ?_⟩
  · rw [keys_keepBest]
    split_ifs with hmem
    · exact h.keys
    · exact List.nodup_append_comm.mp (List.nodup_cons.mpr ⟨hmem, h.keys⟩)
  · rcases mem_keepBest hb with hb | rfl
    · exact List.mem_append_left _ (h.mem b hb)
    · exact List.mem_append_right _ List.mem_cons_self
  · rcases List.mem_append.mp hc' with hc' | hc'
    · obtain ⟨b, hb, hkey, hsim⟩ := h.covers c' hc'
      obtain ⟨b', hb', hkey', hsim'⟩ := exists_keepBest (c := c) (.inl hb)
      exact ⟨b', hb', hkey'.trans hkey, hsim.trans hsim'⟩
    · exact exists_keepBest (.inr (List.mem_singleton.mp hc'))

theorem bestOf_foldl (candidates : List (Candidate S)) :
    BestOf candidates (candidates.foldl Kaine.EpisodicMemory.keepBest []) := by
  induction candidates using List.reverseRecOn with
  | nil => exact ⟨List.nodup_nil, fun b hb => (by cases hb), fun c hc => (by cases hc)⟩
  | append_singleton candidates c ih =>
    rw [List.foldl_append]
    exact ih.keepBest c

/-- Of two candidates of one pair the one that is kept is the better. -/
theorem BestOf.sim_le (h : BestOf seen best) {b c : Candidate S} (hb : b ∈ best) (hc : c ∈ seen)
    (hkey : c.key = b.key) :
    c.sim ≤ b.sim := by
  obtain ⟨b', hb', hkey', hsim⟩ := h.covers c hc
  obtain rfl := List.inj_on_of_nodup_map h.keys hb' hb (hkey'.trans hkey)
  exact hsim

theorem selectPairs_best {candidates results : List (Candidate S)} {nPair : ℤ}
    (h : selectPairs candidates nPair = some results) :
    (results.map Candidate.pair).Nodup ∧
      ∀ r ∈ results, r ∈ candidates ∧ ∀ c ∈ candidates, c.pair = r.pair → c.sim ≤ r.sim := by
  have hbest := bestOf_foldl candidates
  unfold selectPairs at h
  dsimp only at h
  split_ifs at h with hneg
  obtain rfl := Option.some.inj h
  have hperm := List.perm_insertionSort (fun c c' : Candidate S =>
    toLex (OrderDual.toDual c.sim, toLex (c.qRef, c.oldRef)) ≤
      toLex (OrderDual.toDual c'.sim,
        toLex (c'.qRef, c'.oldRef))) (candidates.foldl Kaine.EpisodicMemory.keepBest [])
  have hpairs : ((candidates.foldl Kaine.EpisodicMemory.keepBest []).map Candidate.pair).Nodup := by
    refine List.Nodup.map_on (fun b hb b' hb' hpair => ?_) (hbest.keys.of_map Candidate.key)
    exact List.inj_on_of_nodup_map hbest.keys hb hb' (Candidate.key_eq_iff.mpr hpair)
  refine ⟨?_, fun r hr => ?_⟩
  · exact ((hperm.map Candidate.pair).nodup_iff.mpr hpairs).sublist ((List.take_sublist _ _).map _)
  · have hmem := hperm.mem_iff.mp (List.mem_of_mem_take hr)
    exact ⟨hbest.mem r hmem, fun c hc hpair =>
      hbest.sim_le hmem hc (Candidate.key_eq_iff.mpr hpair)⟩

end Pairs

/-- After every sequence of changes the index answers as a scan of its tables does. A cap leaves
each reference it names within the bound and drops only from those over it, the weakest first, and
of the candidates for a pair the best alone is chosen. -/
theorem index_sound [Neg B] [LinearOrder B] {S : Type*} [LinearOrder S] (ops : List (IndexOp B))
    (refs : List String)
    {nLink : ℤ} (hn : 0 ≤ nLink) (candidates : List (Candidate S)) (nPair : ℤ) :
    (∀ ref, (indexAfter ops).linksOf ref = some ((indexAfter ops).scan.linksOf ref) ∧
      (indexAfter ops).degree ref = (indexAfter ops).scan.degree ref ∧
      (indexAfter ops).partners ref = some ((indexAfter ops).scan.partners ref) ∧
      (indexAfter ops).nodeOf ref = (indexAfter ops).scan.nodeOf ref) ∧
    (IdsMatch (nodesOf ops) → ∀ id, (indexAfter ops).nodeById id =
      (indexAfter ops).scan.nodeById id) ∧
    (∃ removed, (indexAfter ops).capLinks refs nLink =
        some (removed, indexAfter (ops ++ removed.map fun link => .removeLink link.id)) ∧
      Capped (indexAfter ops) nLink refs removed) ∧
    ∀ results, selectPairs candidates nPair = some results →
      (results.map Candidate.pair).Nodup ∧
        ∀ r ∈ results, r ∈ candidates ∧ ∀ c ∈ candidates, c.pair = r.pair → c.sim ≤ r.sim := by
  have h := indexed_after ops
  refine ⟨fun ref => ⟨h.linksOf_eq ref, h.degree_eq ref, h.partners_eq ref, h.nodeOf_eq ref⟩,
    fun hids => ?_, ?_,
    fun results => selectPairs_best⟩
  · exact (nodesIndexed_after hids ops (List.Subset.refl _)).nodeById_eq hids
  · obtain ⟨removed, hrun, hcapped⟩ := h.capLinks_eq hn refs
    exact ⟨removed, without_after ops removed ▸ hrun, hcapped⟩

/-- A link that moves to other references under its id, and a stronger one beside it. -/
def movedOps : List (IndexOp ℤ) :=
  [.addLink ⟨"l1", "l1", "a", "b", 2, 0, 10⟩, .addLink ⟨"l1", "l1", "a", "c", 2, 0, 10⟩,
    .addLink ⟨"l2", "l2", "a", "d", 3, 0, 10⟩]

theorem index_sound_moved :
    (indexAfter movedOps).linksOf "b" = some [] ∧
      ((indexAfter movedOps).capLinks ["d", "a"] 1).map (fun capped => capped.1.map Link.id) =
        some ["l1"] ∧
      ∃ removed, (indexAfter movedOps).capLinks ["d", "a"] 1 =
          some (removed, indexAfter (movedOps ++ removed.map fun link => .removeLink link.id)) ∧
        Capped (indexAfter movedOps) 1 ["d", "a"] removed := by
  refine ⟨by decide, by decide, ?_⟩
  exact (index_sound movedOps ["d", "a"] (by decide) ([] : List (Candidate ℤ)) 1).2.2.1

end Kaine.EpisodicMemory
