import Kaine.EpisodicMemory.Associations
import Kaine.Lib.SortBy

/-! Every run of the association index against the tables that it indexes. -/
namespace Kaine.EpisodicMemory
open AssociationTables

variable {B : Type*} {index : AssociationTables B} {link : Link B} {id x ref r : String}
  {adj : List (String × List String)}

/-- The tables of an index, for a scan. -/
def AssociationTables.scan (index : AssociationTables B) : AssociationIndex B :=
  ⟨index.links.map Prod.snd, index.nodes.map Prod.snd⟩

def idsIn (adj : List (String × List String)) (ref : String) : List String :=
  (adj.lookup ref).getD []

theorem idsIn_join (id : String) (adj : List (String × List String)) (ref r : String) :
    idsIn (join id adj ref) r =
      if r = ref then (if id ∈ idsIn adj ref then idsIn adj ref else idsIn adj ref ++ [id])
        else idsIn adj r := by
  unfold idsIn join
  split_ifs with hr hin
  · rw [hr, Assoc.lookup_assign_self, if_pos hin, Option.getD_some]
  · rw [hr, Assoc.lookup_assign_self, if_neg hin, Option.getD_some]
  · rw [Assoc.lookup_assign_of_ne hr]

theorem idsIn_discard (id : String) (adj : List (String × List String)) (ref r : String) :
    idsIn (discard id adj ref) r = if r = ref then (idsIn adj ref).filter (· ≠ id)
      else idsIn adj r := by
  unfold idsIn discard
  cases hids : adj.lookup ref with
  | none =>
    split_ifs with hr
    · rw [hr, hids]
      rfl
    · rfl
  | some ids =>
    dsimp only
    split_ifs with hempty hr hr
    · rw [hr, Assoc.lookup_remove_self, Option.getD_some, hempty]
      rfl
    · rw [Assoc.lookup_remove_of_ne hr]
    · rw [hr, Assoc.lookup_assign_self]
      rfl
    · rw [Assoc.lookup_assign_of_ne hr]

theorem mem_idsIn_join : x ∈ idsIn (join id adj ref) r ↔ x ∈ idsIn adj r ∨ (x = id ∧ r = ref) := by
  rw [idsIn_join]
  split_ifs with hr hin
  · subst hr
    constructor
    · exact .inl
    · rintro (hx | ⟨rfl, -⟩)
      · exact hx
      · exact hin
  · subst hr
    simp
  · simp [hr]

theorem mem_idsIn_discard : x ∈ idsIn (discard id adj ref) r ↔
    x ∈ idsIn adj r ∧ ¬(x = id ∧ r = ref) := by
  rw [idsIn_discard]
  split_ifs with hr
  · subst hr
    simp
  · simp [hr]

theorem nodup_idsIn_join (h : ∀ r, (idsIn adj r).Nodup) (r : String) :
    (idsIn (join id adj ref) r).Nodup := by
  rw [idsIn_join]
  split_ifs with hr hin
  · exact h ref
  · exact List.nodup_append.mpr ⟨h ref, List.nodup_singleton id, fun a ha b hb => by
      rintro rfl
      exact hin (List.mem_singleton.mp hb ▸ ha)⟩
  · exact h r

theorem nodup_idsIn_discard (h : ∀ r, (idsIn adj r).Nodup) (r : String) :
    (idsIn (discard id adj ref) r).Nodup := by
  rw [idsIn_discard]
  split_ifs
  · exact (h ref).filter _
  · exact h r

/-- The index holds each link under its id, each node under its center, and for each reference the
links that it is a member of. -/
structure Indexed (index : AssociationTables B) : Prop where
  links_nodup : (index.links.map Prod.fst).Nodup
  links_id : ∀ kv ∈ index.links, kv.2.id = kv.1
  ids_nodup : ∀ ref, (index.idsOf ref).Nodup
  mem_ids : ∀ ref id, id ∈ index.idsOf ref ↔ ∃ link, index.links.lookup id = some link ∧
    link.joins ref = true
  nodes_nodup : (index.nodes.map Prod.fst).Nodup
  nodes_center : ∀ kv ∈ index.nodes, kv.2.center = kv.1

theorem joins_iff : link.joins ref = true ↔ ref = link.a ∨ ref = link.b := by
  rw [Link.joins, Bool.or_eq_true, decide_eq_true_iff, decide_eq_true_iff, eq_comm,
    @eq_comm _ link.b]

theorem indexed_empty : Indexed ({} : AssociationTables B) := by
  refine ⟨List.nodup_nil, fun kv h => (by cases h), fun _ => List.nodup_nil, fun ref id => ?_,
    List.nodup_nil, fun kv h => (by cases h)⟩
  refine ⟨fun h => (by cases h), ?_⟩
  rintro ⟨link, h, -⟩
  cases h

theorem Indexed.id_eq (h : Indexed index) (hlink : index.links.lookup id = some link) :
    link.id = id :=
  h.links_id _ (Assoc.mem_of_lookup_eq_some hlink)

theorem removeLink_eq (hlink : index.links.lookup id = some link) :
    (index.removeLink id).2 =
      { index with
        links := Assoc.remove index.links id
        adj := discard id (discard id index.adj link.a) link.b } := by
  rw [removeLink, hlink]
  rfl

theorem removeLink_of_none (hlink : index.links.lookup id = none) :
    (index.removeLink id).2 = index := by
  rw [removeLink, hlink]

theorem Indexed.removeLink (h : Indexed index) (id : String) : Indexed (index.removeLink id).2 := by
  cases hlink : index.links.lookup id with
  | none =>
    rw [removeLink_of_none hlink]
    exact h
  | some link =>
    rw [removeLink_eq hlink]
    refine { h with
      links_nodup := Assoc.nodup_remove h.links_nodup
      links_id := fun kv hkv => h.links_id kv (Assoc.mem_remove.mp hkv).1
      ids_nodup := nodup_idsIn_discard (nodup_idsIn_discard h.ids_nodup)
      mem_ids := fun ref x => ?_ }
    change x ∈ idsIn (discard id (discard id index.adj link.a) link.b) ref ↔ _
    rw [mem_idsIn_discard, mem_idsIn_discard]
    by_cases hx : x = id
    · subst hx
      rw [Assoc.lookup_remove_self]
      constructor
      · rintro ⟨⟨hmem, ha⟩, hb⟩
        obtain ⟨link', hlink', hjoins⟩ := (h.mem_ids ref x).mp hmem
        obtain rfl := Option.some.inj (hlink.symm.trans hlink')
        rcases joins_iff.mp hjoins with rfl | rfl
        · exact absurd ⟨rfl, rfl⟩ ha
        · exact absurd ⟨rfl, rfl⟩ hb
      · rintro ⟨link', hlink', -⟩
        cases hlink'
    · rw [Assoc.lookup_remove_of_ne hx]
      have hids := h.mem_ids ref x
      simp only [hx, false_and, not_false_eq_true, and_true]
      exact hids

theorem lookup_removeLink (index : AssociationTables B) (id : String) :
    (index.removeLink id).2.links.lookup id = none := by
  cases hlink : index.links.lookup id with
  | none =>
    rw [removeLink_of_none hlink]
    exact hlink
  | some link =>
    rw [removeLink_eq hlink]
    exact Assoc.lookup_remove_self _ _

/-- A link takes its place after what its id had is gone. -/
theorem addLink_eq (index : AssociationTables B) (link : Link B) :
    index.addLink link =
      { (index.removeLink link.id).2 with
        links := Assoc.assign (index.removeLink link.id).2.links link.id link
        adj := join link.id (join link.id (index.removeLink link.id).2.adj link.a) link.b } := by
  cases hlink : index.links.lookup link.id with
  | none =>
    rw [removeLink_of_none hlink, addLink, hlink]
    rfl
  | some old =>
    rw [addLink, hlink]
    rfl

theorem Indexed.addLink (h : Indexed index) (link : Link B) : Indexed (index.addLink link) := by
  have hnone := lookup_removeLink index link.id
  have h := h.removeLink link.id
  rw [addLink_eq]
  generalize (index.removeLink link.id).2 = index at h hnone ⊢
  refine { h with
    links_nodup := Assoc.nodup_assign h.links_nodup
    links_id := fun kv hkv => ?_
    ids_nodup := nodup_idsIn_join (nodup_idsIn_join h.ids_nodup)
    mem_ids := fun ref x => ?_ }
  · rcases Assoc.mem_of_mem_assign hkv with rfl | hkv
    · rfl
    · exact h.links_id kv hkv
  change x ∈ idsIn (join link.id (join link.id index.adj link.a) link.b) ref ↔ _
  rw [mem_idsIn_join, mem_idsIn_join]
  have hids := h.mem_ids ref x
  by_cases hx : x = link.id
  · subst hx
    rw [Assoc.lookup_assign_self]
    constructor
    · rintro ((hmem | ⟨-, ha⟩) | ⟨-, hb⟩)
      · obtain ⟨link', hlink', -⟩ := hids.mp hmem
        cases hnone.symm.trans hlink'
      · exact ⟨link, rfl, joins_iff.mpr (.inl ha)⟩
      · exact ⟨link, rfl, joins_iff.mpr (.inr hb)⟩
    · rintro ⟨link', hlink', hjoins⟩
      obtain rfl := Option.some.inj hlink'
      rcases joins_iff.mp hjoins with ha | hb
      · exact .inl (.inr ⟨rfl, ha⟩)
      · exact .inr ⟨rfl, hb⟩
  · rw [Assoc.lookup_assign_of_ne hx]
    simp only [hx, false_and, or_false]
    exact hids

theorem Indexed.setNode (h : Indexed index) (node : Node B) : Indexed (index.setNode node) :=
  { h with
    nodes_nodup := Assoc.nodup_assign h.nodes_nodup
    nodes_center := fun kv hkv => by
      rcases Assoc.mem_of_mem_assign hkv with rfl | hkv
      · rfl
      · exact h.nodes_center kv hkv }

theorem removeNode_eq {center : String} {node : Node B}
    (hnode : index.nodes.lookup center = some node) : (index.removeNode center).2 =
      { index with
        nodes := Assoc.remove index.nodes center
        nodeIdToCenter := Assoc.remove index.nodeIdToCenter node.id } := by
  rw [removeNode, hnode]

theorem removeNode_of_none {center : String} (hnode : index.nodes.lookup center = none) :
    (index.removeNode center).2 = index := by
  rw [removeNode, hnode]

theorem Indexed.removeNode (h : Indexed index) (center : String) :
    Indexed (index.removeNode center).2 := by
  cases hnode : index.nodes.lookup center with
  | none =>
    rw [removeNode_of_none hnode]
    exact h
  | some node =>
    rw [removeNode_eq hnode]
    exact { h with
      nodes_nodup := Assoc.nodup_remove h.nodes_nodup
      nodes_center := fun kv hkv => h.nodes_center kv (Assoc.mem_remove.mp hkv).1 }

theorem Indexed.perform (h : Indexed index) (op : IndexOp B) : Indexed (op.perform index) := by
  cases op with
  | addLink link => exact h.addLink link
  | removeLink linkId => exact h.removeLink linkId
  | setNode node => exact h.setNode node
  | removeNode center => exact h.removeNode center

theorem Indexed.run (h : Indexed index) (ops : List (IndexOp B)) :
    Indexed (ops.foldl IndexOp.perform index) := by
  induction ops generalizing index with
  | nil => exact h
  | cons op ops ih => exact ih (h.perform op)

theorem indexed_after (ops : List (IndexOp B)) : Indexed (indexAfter ops) := indexed_empty.run ops

theorem Indexed.scan_ids (h : Indexed index) :
    index.scan.links.map Link.id = index.links.map Prod.fst := by
  rw [scan, List.map_map]
  exact List.map_congr_left h.links_id

theorem Indexed.scan_nodup (h : Indexed index) :
    (index.scan.links.map Link.id).Nodup := h.scan_ids ▸ h.links_nodup

theorem Indexed.mem_scan (h : Indexed index) :
    link ∈ index.scan.links ↔ index.links.lookup link.id = some link := by
  constructor
  · intro hmem
    obtain ⟨⟨id, link'⟩, hkv, rfl⟩ := List.mem_map.mp hmem
    have hid : link'.id = id := h.links_id _ hkv
    exact Assoc.lookup_of_mem h.links_nodup (hid ▸ hkv)
  · intro hlink
    exact List.mem_map.mpr ⟨_, Assoc.mem_of_lookup_eq_some hlink, rfl⟩

theorem mem_scan_linksOf {tables : AssociationIndex B} :
    link ∈ tables.linksOf ref ↔ link ∈ tables.links ∧ link.joins ref := by
  rw [AssociationIndex.linksOf, (List.perm_insertionSort _ _).mem_iff, List.mem_filter]

theorem Indexed.scan_linksOf_nodup (h : Indexed index) (ref : String) :
    (index.scan.linksOf ref).Nodup :=
  (List.perm_insertionSort _ _).nodup_iff.mpr (h.scan_nodup.of_map.filter _)

/-- The links of a reference, id for id. -/
theorem Indexed.found (h : Indexed index) (ref : String) :
    ∃ links, (index.idsOf ref).mapM (fun id => index.links.lookup id) = some links ∧
      links.length = (index.idsOf ref).length ∧
        links.Perm (index.scan.links.filter (·.joins ref)) := by
  have hids : ∀ id ∈ index.idsOf ref, ∃ link, index.links.lookup id = some link ∧
      (index.links.lookup id = some link ∧ link.joins ref = true) := by
    intro id hid
    obtain ⟨link, hlink, hjoins⟩ := (h.mem_ids ref id).mp hid
    exact ⟨link, hlink, hlink, hjoins⟩
  obtain ⟨links, hlinks, hall⟩ := Assoc.exists_mapM hids
  have hmap : links.map Link.id = index.idsOf ref := by
    clear hlinks hids
    generalize index.idsOf ref = ids at hall
    induction hall with
    | nil => rfl
    | cons hfound _ ih => rw [List.map_cons, ih, h.id_eq hfound.1]
  have hnodup : links.Nodup := .of_map Link.id (hmap ▸ h.ids_nodup ref)
  refine ⟨links, hlinks, hall.length_eq.symm,
    (List.perm_ext_iff_of_nodup hnodup (h.scan_nodup.of_map.filter _)).mpr
    fun link => ?_⟩
  rw [List.mem_filter, h.mem_scan]
  constructor
  · intro hmem
    obtain ⟨id, -, hlink, hjoins⟩ := Assoc.exists_of_forall₂ hall hmem
    exact ⟨h.id_eq hlink ▸ hlink, hjoins⟩
  · rintro ⟨hlink, hjoins⟩
    have hid : link.id ∈ links.map Link.id :=
      hmap ▸ (h.mem_ids ref link.id).mpr ⟨link, hlink, hjoins⟩
    obtain ⟨link', hmem, hid⟩ := List.mem_map.mp hid
    obtain ⟨id', -, hlink', -⟩ := Assoc.exists_of_forall₂ hall hmem
    rw [← h.id_eq hlink', hid] at hlink'
    obtain rfl := Option.some.inj (hlink.symm.trans hlink')
    exact hmem

theorem Indexed.linksOf_eq (h : Indexed index) (ref : String) :
    index.linksOf ref = some (index.scan.linksOf ref) := by
  obtain ⟨links, hlinks, -, hperm⟩ := h.found ref
  rw [AssociationTables.linksOf, hlinks, Option.map_some, AssociationIndex.linksOf]
  refine congrArg some (SortBy.insertionSort_eq_of_perm (fun l hl m hm hid => ?_) hperm)
  have hl := (List.mem_filter.mp (hperm.mem_iff.mp hl)).1
  have hm := (List.mem_filter.mp (hperm.mem_iff.mp hm)).1
  exact List.inj_on_of_nodup_map h.scan_nodup hl hm hid

theorem Indexed.degree_eq (h : Indexed index) (ref : String) :
    index.degree ref = index.scan.degree ref := by
  obtain ⟨links, -, hlength, hperm⟩ := h.found ref
  rw [AssociationTables.degree, ← hlength, hperm.length_eq, AssociationIndex.degree,
    AssociationIndex.linksOf, List.length_insertionSort]

theorem Indexed.partners_eq [Neg B] [LinearOrder B] (h : Indexed index) (ref : String) :
    index.partners ref = some (index.scan.partners ref) := by
  have hjoins : (index.scan.linksOf ref).all (·.joins ref) = true :=
    List.all_eq_true.mpr fun link hlink => (mem_scan_linksOf.mp hlink).2
  rw [AssociationTables.partners, h.linksOf_eq ref, Option.bind_some, if_pos hjoins]
  rfl

theorem Indexed.nodeOf_eq (h : Indexed index) (center : String) :
    index.nodeOf center = index.scan.nodeOf center :=
  (Assoc.find?_map_snd h.nodes_center center).symm

/-- The nodes that a sequence of changes sets. -/
def nodesOf (ops : List (IndexOp B)) : List (Node B) :=
  ops.filterMap fun
    | .setNode node => some node
    | _ => none

/-- Each id leads to the center of the one node that has it, and each node is one of `nodes`. -/
structure NodesIndexed (nodes : List (Node B)) (index : AssociationTables B) : Prop where
  indexed : Indexed index
  mem : ∀ kv ∈ index.nodes, kv.2 ∈ nodes
  center : ∀ id center, index.nodeIdToCenter.lookup id = some center ↔
    ∃ node, index.nodes.lookup center = some node ∧ node.id = id

/-- No two nodes share an id or a center unless they share both. -/
def IdsMatch (nodes : List (Node B)) : Prop := ∀ n ∈ nodes, ∀ m ∈ nodes, n.id = m.id ↔
    n.center = m.center

theorem NodesIndexed.of_lookup {nodes : List (Node B)} (h : NodesIndexed nodes index)
    {center : String} {node : Node B}
    (hnode : index.nodes.lookup center = some node) : node ∈ nodes ∧ node.center = center :=
  ⟨h.mem _ (Assoc.mem_of_lookup_eq_some hnode),
    h.indexed.nodes_center _ (Assoc.mem_of_lookup_eq_some hnode)⟩

theorem NodesIndexed.setNode {nodes : List (Node B)} (h : NodesIndexed nodes index)
    (hids : IdsMatch nodes) {node : Node B} (hmem : node ∈ nodes) :
    NodesIndexed nodes (index.setNode node) := by
  refine ⟨h.indexed.setNode node, fun kv hkv => ?_, fun id center => ?_⟩
  · rcases Assoc.mem_of_mem_assign hkv with rfl | hkv
    · exact hmem
    · exact h.mem kv hkv
  change (Assoc.assign index.nodeIdToCenter node.id node.center).lookup id = some center ↔
    ∃ n, (Assoc.assign index.nodes node.center node).lookup center = some n ∧ n.id = id
  have hold := h.center id center
  by_cases hcenter : center = node.center
  · subst hcenter
    rw [Assoc.lookup_assign_self]
    by_cases hid : id = node.id
    · subst hid
      rw [Assoc.lookup_assign_self]
      exact ⟨fun _ => ⟨node, rfl, rfl⟩, fun _ => rfl⟩
    · rw [Assoc.lookup_assign_of_ne hid, hold]
      constructor
      · rintro ⟨n, hn, rfl⟩
        obtain ⟨hn, hc⟩ := h.of_lookup hn
        exact absurd ((hids n hn node hmem).mpr hc) hid
      · rintro ⟨n, hn, rfl⟩
        obtain rfl := Option.some.inj hn
        exact absurd rfl hid
  · rw [Assoc.lookup_assign_of_ne hcenter]
    by_cases hid : id = node.id
    · subst hid
      rw [Assoc.lookup_assign_self]
      constructor
      · intro he
        exact absurd (Option.some.inj he).symm hcenter
      · rintro ⟨n, hn, hid⟩
        obtain ⟨hn, hc⟩ := h.of_lookup hn
        exact absurd (hc.symm.trans ((hids n hn node hmem).mp hid)) hcenter
    · rw [Assoc.lookup_assign_of_ne hid]
      exact hold

theorem NodesIndexed.removeNode {nodes : List (Node B)} (h : NodesIndexed nodes index)
    (hids : IdsMatch nodes) (center : String) : NodesIndexed nodes (index.removeNode center).2 := by
  cases hnode : index.nodes.lookup center with
  | none =>
    rw [removeNode_of_none hnode]
    exact h
  | some node =>
    have hind := h.indexed.removeNode center
    rw [removeNode_eq hnode] at hind ⊢
    refine ⟨hind, fun kv hkv => h.mem kv (Assoc.mem_remove.mp hkv).1, fun id c => ?_⟩
    obtain ⟨hmem, hc⟩ := h.of_lookup hnode
    have hold := h.center id c
    dsimp only
    by_cases hid : id = node.id
    · subst hid
      rw [Assoc.lookup_remove_self]
      constructor
      · intro he
        cases he
      · rintro ⟨n, hn, hid⟩
        by_cases hcc : c = center
        · rw [hcc, Assoc.lookup_remove_self] at hn
          cases hn
        · rw [Assoc.lookup_remove_of_ne hcc] at hn
          obtain ⟨hn, hnc⟩ := h.of_lookup hn
          have he := (hids n hn node hmem).mp hid
          exact absurd (hnc.symm.trans (he.trans hc)) hcc
    · rw [Assoc.lookup_remove_of_ne hid, hold]
      by_cases hcc : c = center
      · rw [hcc, Assoc.lookup_remove_self, hnode]
        constructor
        · rintro ⟨n, hn, rfl⟩
          obtain rfl := Option.some.inj hn
          exact absurd rfl hid
        · rintro ⟨n, hn, -⟩
          cases hn
      · rw [Assoc.lookup_remove_of_ne hcc]

theorem removeLink_nodes (index : AssociationTables B) (id : String) :
    (index.removeLink id).2.nodes = index.nodes ∧ (index.removeLink id).2.nodeIdToCenter =
      index.nodeIdToCenter := by
  cases hlink : index.links.lookup id with
  | none =>
    rw [removeLink_of_none hlink]
    exact ⟨rfl, rfl⟩
  | some link =>
    rw [removeLink_eq hlink]
    exact ⟨rfl, rfl⟩

theorem NodesIndexed.of_nodes {nodes : List (Node B)} (h : NodesIndexed nodes index)
    {index' : AssociationTables B}
    (hind : Indexed index')
    (hnodes : index'.nodes = index.nodes ∧ index'.nodeIdToCenter = index.nodeIdToCenter) :
      NodesIndexed nodes index' :=
  ⟨hind, hnodes.1.symm ▸ h.mem, fun id center => by
    rw [hnodes.1, hnodes.2]
    exact h.center id center⟩

theorem NodesIndexed.perform {nodes : List (Node B)} (h : NodesIndexed nodes index)
    (hids : IdsMatch nodes) {op : IndexOp B} (hop : nodesOf [op] ⊆ nodes) :
    NodesIndexed nodes (op.perform index) := by
  cases op with
  | addLink link =>
    refine h.of_nodes (h.indexed.addLink link) ?_
    rw [IndexOp.perform, addLink_eq]
    exact removeLink_nodes index link.id
  | removeLink linkId =>
    exact h.of_nodes (h.indexed.removeLink linkId) (removeLink_nodes index linkId)
  | setNode node => exact h.setNode hids (hop List.mem_cons_self)
  | removeNode center => exact h.removeNode hids center

theorem nodesOf_append (ops ops' : List (IndexOp B)) :
    nodesOf (ops ++ ops') = nodesOf ops ++ nodesOf ops' :=
  List.filterMap_append

theorem nodesIndexed_after {nodes : List (Node B)} (hids : IdsMatch nodes) (ops : List (IndexOp B))
    (hops : nodesOf ops ⊆ nodes) : NodesIndexed nodes (indexAfter ops) := by
  induction ops using List.reverseRecOn with
  | nil =>
    refine ⟨indexed_empty, fun kv hkv => (by cases hkv),
      fun id center => ⟨fun h => (by cases h), ?_⟩⟩
    rintro ⟨node, hnode, -⟩
    cases hnode
  | append_singleton ops op ih =>
    rw [nodesOf_append, List.append_subset] at hops
    have hstep := (ih hops.1).perform hids hops.2
    rw [indexAfter, List.foldl_append]
    exact hstep

theorem NodesIndexed.nodeById_eq {nodes : List (Node B)} (h : NodesIndexed nodes index)
    (hids : IdsMatch nodes) (nodeId : String) :
    index.nodeById nodeId = index.scan.nodeById nodeId := by
  have hstored : ∀ node ∈ index.scan.nodes, node ∈ nodes ∧
    index.nodes.lookup node.center = some node := by
    intro node hnode
    obtain ⟨⟨center, node⟩, hkv, rfl⟩ := List.mem_map.mp hnode
    have hc : node.center = center := h.indexed.nodes_center _ hkv
    exact ⟨h.mem _ hkv, Assoc.lookup_of_mem h.indexed.nodes_nodup (hc ▸ hkv)⟩
  unfold AssociationTables.nodeById AssociationIndex.nodeById
  generalize pointKey nodeId = id
  cases hcenter : index.nodeIdToCenter.lookup id with
  | none =>
    rw [Option.bind_none, eq_comm, List.find?_eq_none]
    intro node hnode hid
    have hfound := (h.center id node.center).mpr ⟨node, (hstored node hnode).2,
      of_decide_eq_true hid⟩
    cases hcenter.symm.trans hfound
  | some center =>
    obtain ⟨node, hnode, hid⟩ := (h.center id center).mp hcenter
    rw [Option.bind_some, hnode, eq_comm]
    cases hfind : index.scan.nodes.find? (·.id = id) with
    | none =>
      have hmem : node ∈ index.scan.nodes :=
        List.mem_map.mpr ⟨_, Assoc.mem_of_lookup_eq_some hnode, rfl⟩
      exact absurd (decide_eq_true hid) (List.find?_eq_none.mp hfind node hmem)
    | some node' =>
      obtain ⟨hmem, hlookup⟩ := hstored node' (List.mem_of_find?_eq_some hfind)
      have hid' : node'.id = id := by simpa using List.find?_some hfind
      obtain ⟨hnodes, hc⟩ := h.of_lookup hnode
      have hsame := (hids node' hmem node hnodes).mp (hid'.trans hid.symm)
      rw [hsame, hc] at hlookup
      exact hlookup.symm.trans hnode

end Kaine.EpisodicMemory
