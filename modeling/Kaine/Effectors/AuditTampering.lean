import Kaine.Effectors.AuditLog

/-! What `verify` says of a log that was tampered with, and of two logs that end alike. -/
namespace Kaine.Effectors
open Py HashChain

variable {env : AuditEnv} {prev : String} {line : Text} {lines : List Text} {record : Dict}
  {item : Item String Text} {items : List (Item String Text)} {log other : Option Text}
  {texts lines' originals tampereds : List Text}
  {original tampered line' : Text} {items' : List (Item String Text)}

/-- The texts over which the records of a log are hashed. -/
def hashed (env : AuditEnv) (log : Option Text) : List Text :=
  ((nonblank (Text.lines (log.getD []))).filterMap (recordOf env)).filterMap fun record =>
    match Dict.get record "prev_hash", env.canonical (coreOf record) with
    | .str prev, some body => some (Text.ofString prev ++ body)
    | _, _ => none

/-- The hash tells these texts apart, and from the genesis. -/
structure AuditEnv.CollisionFree (env : AuditEnv) (texts : List Text) : Prop where
  injective : ∀ t ∈ texts, ∀ u ∈ texts, env.hexdigest t = env.hexdigest u → t = u
  fresh : ∀ t ∈ texts, env.hexdigest t ≠ genesisHash

/-- What a line says: the two hashes of its record, and the substance whatever the order of its
keys. -/
def entryOf (env : AuditEnv) (line : Text) : Option (Json × Dict × Json) :=
  (recordOf env line).map fun record =>
    (Dict.get record "prev_hash", (coreOf record).sorted, Dict.get record "this_hash")

/-- What the lines of a log say. -/
def entriesOf (env : AuditEnv) (text : Text) : List (Option (Json × Dict × Json)) :=
    (nonblank text.lines).map (entryOf env)

theorem recordOf_eq_some : recordOf env line = some record ↔
    env.loads line = .ok (.obj record) := by
  unfold recordOf
  cases env.loads line with
  | error e => simp [Except.toOption]
  | ok v => cases v <;> simp [Except.toOption, Json.asDict]

theorem exists_line (h : List.Forall₂ (Reads env) lines items) (hitem : item ∈ items) :
    ∃ line ∈ lines, Reads env line item := by
  induction h with
  | nil => cases hitem
  | cons hread h ih =>
    rcases List.mem_cons.mp hitem with rfl | hitem
    · exact ⟨_, List.mem_cons_self, hread⟩
    · obtain ⟨line, hline, hread⟩ := ih hitem
      exact ⟨line, List.mem_cons_of_mem _ hline, hread⟩

theorem exists_item (h : List.Forall₂ (Reads env) lines items) (hline : line ∈ lines) :
    ∃ item ∈ items, Reads env line item := by
  induction h with
  | nil => cases hline
  | cons hread h ih =>
    rcases List.mem_cons.mp hline with rfl | hline
    · exact ⟨_, List.mem_cons_self, hread⟩
    · obtain ⟨item, hitem, hread⟩ := ih hline
      exact ⟨item, List.mem_cons_of_mem _ hitem, hread⟩

theorem mem_hashed (hline : line ∈ nonblank (Text.lines (log.getD [])))
    (hread : Reads env line item) : Text.ofString item.prev ++ item.content ∈ hashed env log := by
  obtain ⟨record, hloads, hprev, hbody, -⟩ := hread
  refine List.mem_filterMap.mpr ⟨record,
    List.mem_filterMap.mpr ⟨line, hline, recordOf_eq_some.mpr hloads⟩, ?_⟩
  rw [hprev, hbody]

theorem length_prev (h : Linked env.link prev items) (hprev : prev.length = 64) :
    ∀ item ∈ items, item.prev.length = 64 := by
  induction items generalizing prev with
  | nil => simp
  | cons first items ih =>
    obtain ⟨hfirst, hthis, hrest⟩ := h
    intro item hitem
    rcases List.mem_cons.mp hitem with rfl | hitem
    · rw [hfirst, hprev]
    · exact ih hrest (hthis ▸ env.length_hexdigest _) item hitem

theorem ofString_injective {s s' : String} (h : Text.ofString s = Text.ofString s') : s = s' := by
  have hchar : Function.Injective CodePoint.ofChar := by
    intro c c' hc
    have hval := congrArg (fun p : CodePoint => p.val) hc
    exact Char.ext (UInt32.toNat_inj.mp hval)
  exact String.ext (List.map_injective_iff.mpr hchar h)

/-- Hashes that tell the texts of some items apart tell the items apart. -/
theorem AuditEnv.CollisionFree.apart (hfree : env.CollisionFree texts)
    (hmem : ∀ item ∈ items, Text.ofString item.prev ++ item.content ∈ texts)
    (hprev : ∀ item ∈ items, item.prev.length = 64) :
    HashChain.CollisionFree env.link genesisHash items where
  injective i hi j hj h := by
    have htext := hfree.injective _ (hmem i hi) _ (hmem j hj) h
    have hlength : (Text.ofString i.prev).length = (Text.ofString j.prev).length := by
      rw [Text.ofString, Text.ofString, List.length_map, List.length_map, String.length_toList,
        String.length_toList, hprev i hi, hprev j hj]
    obtain ⟨hlink, hcontent⟩ := List.append_inj htext hlength
    exact ⟨ofString_injective hlink, hcontent⟩
  fresh i hi := hfree.fresh _ (hmem i hi)

/-- The items of two logs are told apart by hashes that tell apart what is hashed in the logs. -/
theorem collisionFree_both (hfree : env.CollisionFree (hashed env log ++ hashed env other))
    (hlines : ∀ line ∈ lines, line ∈ nonblank (Text.lines (log.getD [])))
    (hothers : ∀ line ∈ lines', line ∈ nonblank (Text.lines (other.getD [])))
    (hreads : List.Forall₂ (Reads env) lines items)
    (hreads' : List.Forall₂ (Reads env) lines' items')
    (hlinked : Linked env.link genesisHash items) (hlinked' : Linked env.link genesisHash items') :
    HashChain.CollisionFree env.link genesisHash (items ++ items') := by
  have hgenesis : genesisHash.length = 64 := rfl
  refine hfree.apart (fun item hitem => ?_) fun item hitem => ?_
  · rcases List.mem_append.mp hitem with hitem | hitem
    · obtain ⟨line, hline, hread⟩ := exists_line hreads hitem
      exact List.mem_append_left _ (mem_hashed (hlines line hline) hread)
    · obtain ⟨line, hline, hread⟩ := exists_line hreads' hitem
      exact List.mem_append_right _ (mem_hashed (hothers line hline) hread)
  · rcases List.mem_append.mp hitem with hitem | hitem
    · exact length_prev hlinked hgenesis item hitem
    · exact length_prev hlinked' hgenesis item hitem

theorem thisHash_reads (hread : Reads env line item) : thisHash env line = item.this := by
  obtain ⟨record, hloads, -, -, hthis⟩ := hread
  rw [thisHash, hloads]
  dsimp only
  unfold Dict.get at hthis
  cases hlookup : record.lookup "this_hash" with
  | none =>
    rw [hlookup] at hthis
    cases hthis
  | some this =>
    rw [hlookup, Option.getD_some] at hthis
    rw [hthis]
    rfl

/-- The hash of the last record is the link at the end. -/
theorem lastHash_linked (hreads : List.Forall₂ (Reads env) lines items)
    (hlinked : Linked env.link prev items) :
    (lines.getLast?.map (thisHash env)).getD prev =
      last env.link prev (items.map Item.content) := by
  induction hreads generalizing prev with
  | nil => rfl
  | cons hread hreads ih =>
    obtain ⟨hprev, hthis, hrest⟩ := hlinked
    have hnext := ih hrest
    rw [List.map_cons, last, List.foldl_cons, ← hthis, ← last, ← hnext, List.getLast?_cons]
    cases List.getLast? _ with
    | none => exact thisHash_reads hread
    | some line => rfl

theorem sorted_contents (hreads : List.Forall₂ (Reads env) lines items)
    (hreads' : List.Forall₂ (Reads env) lines' items')
    (hcontents : items.map Item.content = items'.map Item.content) :
    ((lines.filterMap (recordOf env)).map coreOf).map Dict.sorted =
      ((lines'.filterMap (recordOf env)).map coreOf).map Dict.sorted := by
  induction hreads generalizing lines' items' with
  | nil =>
    cases hreads' with
    | nil => rfl
    | cons hread hreads => cases hcontents
  | cons hread hreads ih =>
    cases hreads' with
    | nil => cases hcontents
    | cons hread' hreads' =>
      rw [List.map_cons, List.map_cons, List.cons.injEq] at hcontents
      obtain ⟨record, hloads, -, hbody, -⟩ := hread
      obtain ⟨record', hloads', -, hbody', -⟩ := hread'
      rw [List.filterMap_cons_some (recordOf_eq_some.mpr hloads),
        List.filterMap_cons_some (recordOf_eq_some.mpr hloads'),
        List.map_cons, List.map_cons, List.map_cons, List.map_cons, ih hreads' hcontents.2,
        env.canonical_injective hbody (hcontents.1 ▸ hbody')]

/-- The walk that is over without a break, by the records it passed. -/
theorem verify_linked (h : verify env none log = some ⟨true, none, ""⟩) :
    ∃ items, List.Forall₂ (Reads env) (nonblank (Text.lines (log.getD []))) items ∧
      Linked env.link genesisHash items ∧
      lastHash env true log = last env.link genesisHash (items.map Item.content) := by
  cases log with
  | none => exact ⟨[], .nil, trivial, rfl⟩
  | some text =>
    obtain ⟨items, hreads, hlinked⟩ := verifyLines_ok h
    refine ⟨items, hreads, hlinked, ?_⟩
    rw [← lastHash_linked hreads hlinked, lastHash, if_pos rfl]

/-- Two logs that verify and end in the same hash hold the same records, whatever the order of their
keys. -/
theorem contents_eq_of_lastHash_eq (h : verify env none log = some ⟨true, none, ""⟩)
    (hother : verify env none other = some ⟨true, none, ""⟩)
    (hfree : env.CollisionFree (hashed env log ++ hashed env other))
    (hlast : lastHash env true log =
      lastHash env true other) :
    (contents env log).map Dict.sorted = (contents env other).map Dict.sorted := by
  obtain ⟨items, hreads, hlinked, hend⟩ := verify_linked h
  obtain ⟨items', hreads', hlinked', hend'⟩ := verify_linked hother
  have hitems := collisionFree_both hfree (fun _ => id) (fun _ => id) hreads hreads'
    hlinked hlinked'
  rw [hend, hend'] at hlast
  have hchain := linked_iff.mp hlinked
  have hchain' := linked_iff.mp hlinked'
  exact sorted_contents hreads hreads' (eq_of_last_eq hitems
    (fun i hi => List.mem_append_left _ (hchain ▸ hi))
    (fun i hi => List.mem_append_right _ (hchain' ▸ hi)) hlast)

theorem hashed_eq (log : Option Text)
    (hreads : List.Forall₂ (Reads env) (nonblank (Text.lines (log.getD []))) items) :
    hashed env log = items.map fun item => Text.ofString item.prev ++ item.content := by
  unfold hashed
  generalize nonblank (Text.lines (log.getD [])) = lines at hreads ⊢
  induction hreads with
  | nil => rfl
  | cons hread hreads ih =>
    obtain ⟨record, hloads, hprev, hbody, -⟩ := hread
    rw [List.filterMap_cons_some (recordOf_eq_some.mpr hloads), List.filterMap_cons, ih,
      hprev, hbody]
    rfl

section Sample

def firstItem : Item String Text := ⟨genesisHash, firstBody, firstHash⟩

def secondItem : Item String Text := ⟨firstHash, secondBody, secondHash⟩

theorem first_reads : Reads sampleEnv firstLine firstItem := by
  obtain ⟨body, hbody, -, hread⟩ := reads_line first_this first_dumps
  cases first_body.symm.trans hbody
  exact hread

theorem second_reads : Reads sampleEnv secondLine secondItem := by
  obtain ⟨body, hbody, -, hread⟩ := reads_line second_this second_dumps
  cases second_body.symm.trans hbody
  exact hread

theorem sample_oneLine : ∀ line ∈ [firstLine, secondLine], line.OneLine ∧ line.strip ≠ [] := by
  intro line hline
  obtain ⟨d, hdumps⟩ := recorded_both.dumped line hline
  exact ⟨dumps_oneLine hdumps, dumps_strip hdumps⟩

theorem lines_sample (h : ∀ line ∈ lines, line = [] ∨ line ∈ [firstLine, secondLine]) :
    Text.lines (recordText lines) = lines := by
  have honeLine : ∀ line ∈ lines, line.OneLine := by
    intro line hline
    rcases h line hline with rfl | hsample
    · intro c hc
      cases hc
    · exact (sample_oneLine line hsample).1
  have hlines := lines_recordText honeLine []
  rw [List.append_nil] at hlines
  rw [hlines]
  exact List.append_nil lines

theorem nonblank_sample (h : ∀ line ∈ lines, line ∈ [firstLine, secondLine]) :
    nonblank (Text.lines (recordText lines)) = lines := by
  rw [lines_sample fun line hline => .inr (h line hline)]
  exact nonblank_self fun line hline => (sample_oneLine line (h line hline)).2

theorem collisionFree_sample {texts : List Text}
    (h : ∀ t ∈ texts, t = Text.ofString genesisHash ++ firstBody ∨
      t = Text.ofString firstHash ++ secondBody) :
    sampleEnv.CollisionFree texts where
  injective t ht u hu heq := by
    have hne : firstHash ≠ secondHash := by decide
    rcases h t ht with rfl | rfl <;> rcases h u hu with rfl | rfl
    · rfl
    · exact absurd (first_link.symm.trans (heq.trans second_link)) hne
    · exact absurd (first_link.symm.trans (heq.symm.trans second_link)) hne
    · rfl
  fresh t ht heq := by
    rcases h t ht with rfl | rfl
    · exact absurd (first_link.symm.trans heq) (by decide)
    · exact absurd (second_link.symm.trans heq) (by decide)

/-- The log of both records, and the two exchanged. -/
def sampleLog : Text := recordText [firstLine, secondLine]

def exchangedLog : Text := recordText [secondLine, firstLine]

theorem verify_sampleLog : verify sampleEnv none (some sampleLog) = some ⟨true, none, ""⟩ :=
  verify_holds ⟨_, recorded_both, rfl⟩

theorem reads_sampleLog :
    List.Forall₂ (Reads sampleEnv) (nonblank sampleLog.lines) [firstItem, secondItem] := by
  rw [sampleLog, nonblank_sample fun _ => id]
  exact .cons first_reads (.cons second_reads .nil)

theorem nonblank_exchangedLog : nonblank exchangedLog.lines = [secondLine, firstLine] := by
  refine nonblank_sample fun line hline => ?_
  rcases List.mem_cons.mp hline with rfl | hline
  · exact .tail _ (.head _)
  · cases List.mem_singleton.mp hline
    exact .head _

theorem reads_exchangedLog :
    List.Forall₂ (Reads sampleEnv) (nonblank exchangedLog.lines) [secondItem, firstItem] := by
  rw [nonblank_exchangedLog]
  exact .cons second_reads (.cons first_reads .nil)

/-- The same records with a blank line between them. -/
def spacedLog : Text := recordText [firstLine, [], secondLine]

theorem lines_spacedLog : spacedLog.lines = [firstLine, [], secondLine] :=
  lines_sample (by simp)

theorem nonblank_spacedLog : nonblank spacedLog.lines = nonblank sampleLog.lines := by
  have hfirst := (sample_oneLine firstLine (.head _)).2
  have hsecond := (sample_oneLine secondLine (.tail _ (.head _))).2
  rw [sampleLog, nonblank_sample fun _ => id, lines_spacedLog, nonblank,
    List.filter_cons, if_pos (decide_eq_true hfirst), List.filter_cons, if_neg (by decide),
    List.filter_cons, if_pos (decide_eq_true hsecond), List.filter_nil]

theorem contents_eq_sample : spacedLog ≠ sampleLog ∧
    (contents sampleEnv (some spacedLog)).map Dict.sorted =
      (contents sampleEnv (some sampleLog)).map Dict.sorted := by
  constructor
  · intro h
    have hlength := congrArg List.length (congrArg Text.lines h)
    rw [lines_spacedLog, sampleLog, lines_sample fun _ => .inr] at hlength
    cases hlength
  · have hverify : verify sampleEnv none (some spacedLog) = some ⟨true, none, ""⟩ := by
      obtain ⟨items, hreads, hlinked⟩ := verifyLines_ok verify_sampleLog
      rw [← nonblank_spacedLog] at hreads
      exact verifyLines_iff.mpr ⟨items, hreads, hlinked⟩
    have hlast : lastHash sampleEnv true (some spacedLog) =
        lastHash sampleEnv true (some sampleLog) := by
      rw [lastHash, lastHash, nonblank_spacedLog]
    have hreads : List.Forall₂ (Reads sampleEnv) (nonblank spacedLog.lines)
        [firstItem, secondItem] := by
      rw [nonblank_spacedLog]
      exact reads_sampleLog
    refine contents_eq_of_lastHash_eq hverify verify_sampleLog (collisionFree_sample ?_) hlast
    rw [hashed_eq (some sampleLog) reads_sampleLog, hashed_eq (some spacedLog) hreads]
    simp [firstItem, secondItem]

end Sample

theorem reads_of_entryOf (h : entryOf env line' = entryOf env line) (hread : Reads env line item) :
    Reads env line' item := by
  obtain ⟨record, hloads, hprev, hbody, hthis⟩ := hread
  rw [entryOf, entryOf, recordOf_eq_some.mpr hloads, Option.map_some] at h
  obtain ⟨record', hrecord', hentry⟩ := Option.map_eq_some_iff.mp h
  rw [Prod.mk.injEq, Prod.mk.injEq] at hentry
  obtain ⟨hprev', hcore, hthis'⟩ := hentry
  refine ⟨record', recordOf_eq_some.mp hrecord', hprev'.trans hprev, ?_, hthis'.trans hthis⟩
  rw [← env.canonical_sorted, hcore, env.canonical_sorted, hbody]

theorem entryOf_eq (hread : Reads env line item) (hread' : Reads env line' item) :
    entryOf env line = entryOf env line' := by
  obtain ⟨record, hloads, hprev, hbody, hthis⟩ := hread
  obtain ⟨record', hloads', hprev', hbody', hthis'⟩ := hread'
  rw [entryOf, entryOf, recordOf_eq_some.mpr hloads, recordOf_eq_some.mpr hloads', Option.map_some,
    Option.map_some, hprev, hprev', hthis, hthis', env.canonical_injective hbody hbody']

theorem map_entryOf (hreads : List.Forall₂ (Reads env) lines items)
    (hreads' : List.Forall₂ (Reads env) lines' items) :
    lines.map (entryOf env) = lines'.map (entryOf env) := by
  induction hreads generalizing lines' with
  | nil =>
    cases hreads' with
    | nil => rfl
  | cons hread hreads ih =>
    cases hreads' with
    | cons hread' hreads' => rw [List.map_cons, List.map_cons, ih hreads', entryOf_eq hread hread']

theorem forall₂_of_map_entryOf (h : lines'.map (entryOf env) = lines.map (entryOf env))
    (hreads : List.Forall₂ (Reads env) lines items) : List.Forall₂ (Reads env) lines' items := by
  induction hreads generalizing lines' with
  | nil => rw [List.map_eq_nil_iff.mp h]; exact .nil
  | cons hread hreads ih =>
    cases lines' with
    | nil => cases h
    | cons line' lines' =>
      rw [List.map_cons, List.map_cons, List.cons.injEq] at h
      exact .cons (reads_of_entryOf h.1 hread) (ih h.2)

/-- Where lines say what the first lines of a chain say, they chain too. -/
theorem linked_of_init (h : lines'.map (entryOf env) <+: lines.map (entryOf env))
    (hreads : List.Forall₂ (Reads env) lines items) (hlinked : Linked env.link prev items) :
    ∃ items', List.Forall₂ (Reads env) lines' items' ∧ Linked env.link prev items' := by
  rw [List.prefix_iff_eq_take, ← List.map_take] at h
  refine ⟨items.take _, forall₂_of_map_entryOf h (List.forall₂_take _ hreads), ?_⟩
  rw [← List.take_append_drop (lines'.map (entryOf env)).length items] at hlinked
  exact (linked_append.mp hlinked).1

/-- Each record that the lines hold has the two hashes of a record of the originals. -/
def Carried (env : AuditEnv) (originals tampereds : List Text) : Prop :=
  ∀ line ∈ tampereds, ∀ record, recordOf env line = some record → ∃ original ∈ originals, ∃ record',
    recordOf env original = some record' ∧
      Dict.get record "prev_hash" = Dict.get record' "prev_hash" ∧
        Dict.get record "this_hash" = Dict.get record' "this_hash"

/-- Lines that carry the hashes of a chain's records and chain say what its first lines say. -/
theorem prefix_of_linked (hcarried : Carried env originals tampereds)
    (hreads : List.Forall₂ (Reads env) originals items)
    (hlinked : Linked env.link genesisHash items)
    (hreads' : List.Forall₂ (Reads env) tampereds items')
    (hlinked' : Linked env.link genesisHash items')
    (hfree : HashChain.CollisionFree env.link genesisHash (items ++ items')) :
    tampereds.map (entryOf env) <+: originals.map (entryOf env) := by
  have hchain := linked_iff.mp hlinked
  have hchain' := linked_iff.mp hlinked'
  have hinit := prefix_of_carried hfree (fun i hi => List.mem_append_left _ (hchain ▸ hi))
    (fun i hi => List.mem_append_right _ (hchain' ▸ hi)) ?_
  · obtain ⟨rest, hrest⟩ := hinit
    have hitems : items = items' ++
        chain env.link (last env.link genesisHash (items'.map Item.content)) rest := by
      rw [hchain, ← hrest, chain_append, ← hchain']
    have htake := List.forall₂_take_append _ _ _ (hitems ▸ hreads)
    rw [map_entryOf hreads' htake, List.map_take]
    exact List.take_prefix _ _
  · intro i hi
    rw [← hchain'] at hi
    obtain ⟨line, hline, record, hloads, hprev, -, hthis⟩ := exists_line hreads' hi
    obtain ⟨original, horiginal, record', hrecord', hprev', hthis'⟩ :=
      hcarried line hline record (recordOf_eq_some.mpr hloads)
    obtain ⟨j, hj, hread⟩ := exists_item hreads horiginal
    obtain ⟨other, hother, hp, -, ht⟩ := hread
    have hsame : other = record' := by
      rw [recordOf_eq_some.mpr hother] at hrecord'
      exact Option.some.inj hrecord'
    subst hsame
    rw [hprev, hp, Json.str.injEq] at hprev'
    rw [hthis, ht, Json.str.injEq] at hthis'
    exact ⟨j, hchain ▸ hj, hprev', hthis'⟩

theorem reads_unique {item' : Item String Text} (hread : Reads env line item)
    (hread' : Reads env line item') : item = item' := by
  obtain ⟨record, hloads, hprev, hbody, hthis⟩ := hread
  obtain ⟨record', hloads', hprev', hbody', hthis'⟩ := hread'
  rw [hloads, Except.ok.injEq, Json.obj.injEq] at hloads'
  subst hloads'
  rw [hprev, Json.str.injEq] at hprev'
  rw [hbody, Option.some.injEq] at hbody'
  rw [hthis, Json.str.injEq] at hthis'
  obtain ⟨prev, content, this⟩ := item
  obtain ⟨prev', content', this'⟩ := item'
  rw [Item.mk.injEq]
  exact ⟨hprev', hbody', hthis'⟩

/-- The items of lines with one more, by those of the lines. -/
theorem items_snoc (hreads : List.Forall₂ (Reads env) lines items)
    (hreads' : List.Forall₂ (Reads env) (lines ++ [line]) items') :
    ∃ item, items' = items ++ [item] ∧ Reads env line item := by
  induction hreads generalizing items' with
  | nil =>
    cases hreads' with
    | cons hread hnil =>
      cases hnil
      exact ⟨_, rfl, hread⟩
  | cons hread hreads ih =>
    cases hreads' with
    | cons hread' hreads' =>
      obtain ⟨item, rfl, hlast⟩ := ih hreads'
      exact ⟨item, by rw [reads_unique hread hread', List.cons_append], hlast⟩

/-- Of a log that verifies, lines that were edited with their hashes left as they were, moved, left
out or repeated verify only where they still say what its first lines say, and a break is reported
at the first line that does not. -/
theorem verify_tampered (h : verify env none (some original) = some ⟨true, none, ""⟩)
    (hcarried : Carried env (nonblank original.lines) (nonblank tampered.lines))
    (hfree : env.CollisionFree (hashed env (some original) ++ hashed env (some tampered))) :
    (verify env none (some tampered) = some ⟨true, none, ""⟩ ↔ entriesOf env tampered <+:
      entriesOf env original) ∧
      ∀ i detail, verify env none (some tampered) = some ⟨false, some i, detail⟩ →
        (entriesOf env tampered).take i <+: entriesOf env original ∧
          ¬ (entriesOf env tampered).take (i + 1) <+: entriesOf env original := by
  obtain ⟨items, hreads, hlinked⟩ := verifyLines_ok h
  refine ⟨⟨fun hok => ?_, fun hinit => ?_⟩, fun i detail hbroken => ?_⟩
  · obtain ⟨items', hreads', hlinked'⟩ := verifyLines_ok hok
    exact prefix_of_linked hcarried hreads hlinked hreads' hlinked'
      (collisionFree_both hfree (fun _ => id) (fun _ => id) hreads hreads' hlinked hlinked')
  · exact verifyLines_iff.mpr (linked_of_init hinit hreads hlinked)
  · obtain ⟨front, line, rest, items', hlines, hline, rfl, hreads', hlinked', hno⟩ :=
      verifyLines_broken hbroken
    have hnonblank : nonblank tampered.lines = nonblank front ++ line :: nonblank rest := by
      rw [hlines, nonblank, List.filter_append, List.filter_cons_of_pos (by simpa using hline)]
      rfl
    have hlength : 0 + items'.length = (nonblank front).length := by
      rw [Nat.zero_add, hreads'.length_eq]
    have hfront : ∀ other ∈ nonblank front, other ∈ nonblank tampered.lines := fun other hother =>
      hnonblank ▸ List.mem_append_left _ hother
    rw [entriesOf, hnonblank, hlength, ← List.map_take, ← List.map_take, List.take_left,
      List.take_add_one, List.take_left, List.getElem?_append_right (Nat.le_refl _), Nat.sub_self,
      List.getElem?_cons_zero, Option.toList_some]
    refine ⟨?_, fun hinit => ?_⟩
    · exact prefix_of_linked (fun other hother => hcarried other (hfront other hother)) hreads
        hlinked hreads' hlinked'
        (collisionFree_both hfree (fun _ => id) hfront hreads hreads' hlinked hlinked')
    · obtain ⟨all, hall, hlinkedAll⟩ := linked_of_init hinit hreads hlinked
      obtain ⟨item, rfl, hread⟩ := items_snoc hreads' hall
      exact hno item hread hlinkedAll

theorem verify_exchanged :
    (verify sampleEnv none (some exchangedLog) = some ⟨true, none, ""⟩ ↔
        entriesOf sampleEnv exchangedLog <+: entriesOf sampleEnv sampleLog) ∧
      ∀ i detail, verify sampleEnv none (some exchangedLog) = some ⟨false, some i, detail⟩ →
        (entriesOf sampleEnv exchangedLog).take i <+: entriesOf sampleEnv sampleLog ∧
          ¬ (entriesOf sampleEnv exchangedLog).take (i + 1) <+: entriesOf sampleEnv sampleLog := by
  refine verify_tampered verify_sampleLog ?_ (collisionFree_sample ?_)
  · intro line hline record hrecord
    refine ⟨line, ?_, record, hrecord, rfl, rfl⟩
    rw [nonblank_exchangedLog] at hline
    rw [sampleLog, nonblank_sample fun _ => id]
    exact (List.Perm.swap firstLine secondLine []).subset hline
  · rw [hashed_eq (some sampleLog) reads_sampleLog,
      hashed_eq (some exchangedLog) reads_exchangedLog]
    simp [firstItem, secondItem]

end Kaine.Effectors
