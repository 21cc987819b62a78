import Kaine.EpisodicMemory.BufferSafety
import Kaine.EpisodicMemory.Downscale

/-! No sleep strengthens a trace, and none weakens it twice, whatever write fails and wherever the
process ends. -/
namespace Kaine.EpisodicMemory
open Transition

section Owing
variable {B : Type} [AddCommGroup B] {spent : List B} {born : ℕ} {logBase : B}

/-- Below its first strength, a trace lacks some of the factors since its birth, each at most
once. -/
def Owes (spent : List B) (born : ℕ) (logBase : B) : Prop :=
  born ≤ spent.length ∧ ∃ lost : List B, lost.Sublist (spent.drop born) ∧
    logBase + spent.sum = lost.sum

theorem owes_new (spent : List B) : Owes spent spent.length (-spent.sum) :=
  ⟨le_rfl, [], List.nil_sublist _, neg_add_cancel _⟩

/-- It loses the factors that come later, -/
theorem Owes.append (h : Owes spent born logBase) (later : List B) :
    Owes (spent ++ later) born logBase := by
  obtain ⟨hborn, lost, hlost, hsum⟩ := h
  refine ⟨hborn.trans (by simp), lost ++ later, ?_, ?_⟩
  · rw [List.drop_append_of_le_length hborn]
    exact hlost.append_right later
  · rw [List.sum_append, ← add_assoc, hsum, List.sum_append]

/-- unless it is given them back. -/
theorem Owes.spared (h : Owes spent born logBase) (factor : B) :
    Owes (spent ++ [factor]) born (logBase - factor) := by
  obtain ⟨hborn, lost, hlost, hsum⟩ := h
  refine ⟨hborn.trans (by simp), lost, ?_, ?_⟩
  · rw [List.drop_append_of_le_length hborn]
    exact hlost.trans (List.sublist_append_left _ _)
  · rw [← hsum, List.sum_append, List.sum_singleton]
    abel

end Owing

section Points
variable {B V : Type}

def Point.born (point : Point B V) : ℕ := (point.payload.bornSleep.getD 0).toNat

/-- The same memory, with whatever log base. -/
def Point.Again (point before : Point B V) : Prop :=
  point.id = before.id ∧ point.vector = before.vector ∧ point.text = before.text

theorem rewritten_cases (updates : List (String × B)) (point : Point B V) :
    point.rewritten updates = point ∨
      ∃ logBase, (point.id, logBase) ∈ updates ∧
        point.rewritten updates = point.withLogBase logBase := by
  unfold Point.rewritten
  induction updates using List.reverseRecOn with
  | nil => exact .inl rfl
  | append_singleton updates update ih =>
    rw [List.foldl_append, List.foldl_cons, List.foldl_nil]
    generalize updates.foldl _ point = written at ih
    have hid : written.id = point.id := by
      rcases ih with rfl | ⟨logBase, -, rfl⟩
      · rfl
      · rfl
    have htwice : written.withLogBase update.2 = point.withLogBase update.2 := by
      rcases ih with rfl | ⟨logBase, -, rfl⟩
      · rfl
      · rfl
    split
    · rename_i heq
      exact .inr ⟨update.2, by simp [← hid, ← heq], htwice⟩
    · rcases ih with hsame | ⟨logBase, hmem, hnew⟩
      · exact .inl hsame
      · exact .inr ⟨logBase, List.mem_append_left _ hmem, hnew⟩

theorem rewritten_again (updates : List (String × B)) (point : Point B V) :
    (point.rewritten updates).Again point ∧ (point.rewritten updates).born = point.born := by
  rcases rewritten_cases updates point with h | ⟨logBase, -, h⟩
  · rw [h]
    exact ⟨⟨rfl, rfl, rfl⟩, rfl⟩
  · rw [h]
    exact ⟨⟨rfl, rfl, rfl⟩, rfl⟩

theorem shielded_subset (protect : List (Replayed B)) : shielded protect ⊆ protect := by
  unfold shielded
  induction protect using List.reverseRecOn with
  | nil => exact List.Subset.refl _
  | append_singleton protect last ih =>
    rw [List.foldl_append, List.foldl_cons, List.foldl_nil]
    have hseen := List.Subset.trans ih (List.subset_append_left protect [last])
    split
    · exact hseen
    · exact List.append_subset.2 ⟨hseen, List.subset_append_right _ _⟩

theorem filled_again (logBase : B) (point : Point B V) : (point.filled logBase).Again point := by
  unfold Point.filled
  split <;> exact ⟨rfl, rfl, rfl⟩

theorem isSome_filled (logBase : B) (point : Point B V) :
    (point.filled logBase).payload.logBase.isSome = true := by
  unfold Point.filled
  split
  · assumption
  · rfl

theorem part_subset {α : Type} (batch : Batch) (kind : Kind) (writes : List α) :
    batch.part kind writes ⊆ writes := by
  cases batch with
  | returned => exact List.Subset.refl _
  | raised written => exact List.take_subset _ _

/-- What a backfill does to the traces of a collection, wherever it ends. -/
theorem backfillStrength_points (logBase : B) (batch : Batch) (s : Storage B V) (kind : Kind) :
    ((s.backfillStrength logBase batch).points kind).map (·.id) = (s.points kind).map (·.id) ∧
      ∀ point ∈ (s.backfillStrength logBase batch).points kind, ∃ before ∈ s.points kind,
        point = before.filled logBase ∨ (point = before ∧
          (batch = .returned → kind ∉ traceKinds)) := by
  unfold Storage.backfillStrength
  dsimp only
  split
  · have hmap (points : List (Point B V)) :
        (points.map (Point.filled logBase)).map (·.id) = points.map (·.id) := by
      rw [List.map_map]
      exact List.map_congr_left fun point _ => (filled_again logBase point).1
    have hpart : batch.part kind (s.points kind) ++ (s.points kind).drop
        (batch.part kind (s.points kind)).length = s.points kind := by
      cases batch with
      | returned => simp [Batch.part]
      | raised written =>
        rcases Nat.le_total (written kind) (s.points kind).length with hle | hle
        · simp [Batch.part, hle]
        · simp [Batch.part, List.take_of_length_le hle]
    refine ⟨?_, fun point hpoint => ?_⟩
    · rw [List.map_append, hmap, List.length_map, ← List.map_append, hpart]
    · rcases List.mem_append.1 hpoint with hnew | hold
      · obtain ⟨before, hbefore, rfl⟩ := List.mem_map.1 hnew
        exact ⟨before, part_subset batch kind _ hbefore, .inl rfl⟩
      · refine ⟨point, List.mem_of_mem_drop hold, .inr ⟨rfl, ?_⟩⟩
        rintro rfl
        simp [Batch.part] at hold
  · exact ⟨rfl, fun point hpoint => ⟨point, hpoint, .inr ⟨rfl, fun _ => ‹_›⟩⟩⟩

end Points

section Traces
variable {B V : Type} [AddCommGroup B] [LinearOrder B] {spent spent' : List B}
  {ids ids' : List String} {replayed replayed' : List (Replayed B)}
  {points points' : Kind → List (Point B V)}

/-- What holds of the traces of a store under the factors that were spent. -/
structure Kept (spent : List B) (ids : List String) (replayed : List (Replayed B))
    (points : Kind → List (Point B V)) : Prop where
  owed : ∀ kind ∈ traceKinds, ∀ point ∈ points kind, ∀ logBase,
    point.payload.logBase = some logBase → Owes spent point.born logBase
  listed : ∀ kind ∈ traceKinds, ∀ point ∈ points kind, point.id ∈ ids
  nodup : ∀ kind ∈ traceKinds, ((points kind).map (·.id)).Nodup
  replayed_listed : ∀ trace ∈ replayed, trace.1 ∈ traceKinds ∧ trace.2.1 ∈ ids
  replayed_once : ∀ trace ∈ replayed, ∀ other ∈ replayed, trace.key = other.key → trace = other
  /-- A replayed trace owes no more now than it did when it was read. -/
  replayed_le : ∀ trace ∈ replayed, ∀ point ∈ points trace.1, point.id = trace.2.1 →
    Owes spent point.born trace.2.2 ∧ ∃ logBase, point.payload.logBase = some logBase ∧
      trace.2.2 ≤ logBase

/-- The replayed traces are forgotten, or read anew. -/
theorem Kept.reread (h : Kept spent ids replayed points)
    (hread : ∀ trace ∈ replayed', trace.1 ∈ traceKinds ∧
      ∃ point ∈ points trace.1, point.id = trace.2.1 ∧ point.payload.logBase = some trace.2.2) :
    Kept spent ids replayed' points where
  owed := h.owed
  listed := h.listed
  nodup := h.nodup
  replayed_listed trace htrace := by
    obtain ⟨hkind, point, hpoint, hid, -⟩ := hread trace htrace
    exact ⟨hkind, hid ▸ h.listed trace.1 hkind point hpoint⟩
  replayed_once trace htrace other hother hkey := by
    obtain ⟨kind, id, logBase⟩ := trace
    obtain ⟨kind', id', logBase'⟩ := other
    obtain ⟨rfl, rfl⟩ := Prod.mk.inj hkey
    obtain ⟨hkind, point, hpoint, hid, hlog⟩ := hread _ htrace
    obtain ⟨-, point', hpoint', hid', hlog'⟩ := hread _ hother
    have hsame : point = point' :=
      List.inj_on_of_nodup_map (h.nodup kind hkind) hpoint hpoint' (hid.trans hid'.symm)
    rw [hsame, hlog'] at hlog
    have hbase : logBase' = logBase := Option.some.inj hlog
    subst hbase
    rfl
  replayed_le trace htrace point hpoint hid := by
    obtain ⟨hkind, read, hmem, hread, hlog⟩ := hread trace htrace
    have hsame : point = read :=
      List.inj_on_of_nodup_map (h.nodup trace.1 hkind) hpoint hmem (hid.trans hread.symm)
    rw [hsame]
    exact ⟨h.owed trace.1 hkind read hmem _ hlog, trace.2.2, hlog, le_rfl⟩

/-- Traces are deleted. -/
theorem Kept.sublist (h : Kept spent ids replayed points)
    (hsub : ∀ kind, (points' kind).Sublist (points kind)) : Kept spent ids replayed points' where
  owed kind hkind point hpoint := h.owed kind hkind point ((hsub kind).subset hpoint)
  listed kind hkind point hpoint := h.listed kind hkind point ((hsub kind).subset hpoint)
  nodup kind hkind := (h.nodup kind hkind).sublist ((hsub kind).map _)
  replayed_listed := h.replayed_listed
  replayed_once := h.replayed_once
  replayed_le trace htrace point hpoint hid :=
    h.replayed_le trace htrace point ((hsub trace.1).subset hpoint) hid

/-- Traces get other log bases while more factors are spent. -/
theorem Kept.relabel (h : Kept spent ids replayed points)
    (hids : ∀ kind ∈ traceKinds, (points' kind).map (·.id) = (points kind).map (·.id))
    (hpoints : ∀ kind ∈ traceKinds, ∀ point ∈ points' kind, ∃ before ∈ points kind, point.id =
    before.id ∧
      (∀ logBase, point.payload.logBase = some logBase → Owes spent' point.born logBase) ∧
      ∀ trace ∈ replayed, trace.1 = kind → before.id = trace.2.1 →
      Owes spent' point.born trace.2.2 ∧
        ∃ logBase, point.payload.logBase = some logBase ∧ trace.2.2 ≤ logBase) :
    Kept spent' ids replayed points' where
  owed kind hkind point hpoint := by
    obtain ⟨before, -, -, howed, -⟩ := hpoints kind hkind point hpoint
    exact howed
  listed kind hkind point hpoint := by
    obtain ⟨before, hbefore, hid, -⟩ := hpoints kind hkind point hpoint
    exact hid ▸ h.listed kind hkind before hbefore
  nodup kind hkind := hids kind hkind ▸ h.nodup kind hkind
  replayed_listed := h.replayed_listed
  replayed_once := h.replayed_once
  replayed_le trace htrace point hpoint heq := by
    obtain ⟨before, -, hid, -, hle⟩ :=
      hpoints trace.1 (h.replayed_listed trace htrace).1 point hpoint
    exact hle trace htrace rfl (hid ▸ heq)

/-- More factors are spent. -/
theorem Kept.append (h : Kept spent ids replayed points) (later : List B) :
    Kept (spent ++ later) ids replayed points := by
  refine h.relabel (fun _ _ => rfl) fun kind hkind point hpoint => ⟨point, hpoint, rfl, ?_, ?_⟩
  · intro logBase hlog
    exact (h.owed kind hkind point hpoint logBase hlog).append later
  · rintro trace htrace rfl hid
    obtain ⟨howes, hle⟩ := h.replayed_le trace htrace point hpoint hid
    exact ⟨howes.append later, hle⟩

/-- New traces come behind the others, at their full strength. -/
theorem Kept.add (h : Kept spent ids replayed points) (hids : ids ⊆ ids')
    {added : Kind → List (Point B V)}
    (hpoints : ∀ kind ∈ traceKinds, points' kind = points kind ++ added kind)
    (hnodup : ∀ kind ∈ traceKinds, ((added kind).map (·.id)).Nodup)
    (hadded : ∀ kind ∈ traceKinds, ∀ point ∈ added kind, point.id ∉ ids ∧ point.id ∈ ids' ∧
      point.payload.logBase = some (-spent.sum) ∧ point.born = spent.length) :
    Kept spent ids' replayed points' where
  owed kind hkind point hpoint logBase hlog := by
    rw [hpoints kind hkind] at hpoint
    rcases List.mem_append.1 hpoint with hold | hnew
    · exact h.owed kind hkind point hold logBase hlog
    · obtain ⟨-, -, hbase, hborn⟩ := hadded kind hkind point hnew
      rw [hlog] at hbase
      rw [hborn, Option.some.inj hbase]
      exact owes_new spent
  listed kind hkind point hpoint := by
    rw [hpoints kind hkind] at hpoint
    rcases List.mem_append.1 hpoint with hold | hnew
    · exact hids (h.listed kind hkind point hold)
    · exact (hadded kind hkind point hnew).2.1
  nodup kind hkind := by
    rw [hpoints kind hkind, List.map_append]
    refine List.nodup_append.2 ⟨h.nodup kind hkind, hnodup kind hkind, ?_⟩
    intro id hold id' hnew heq
    obtain ⟨point, hpoint, rfl⟩ := List.mem_map.1 hold
    obtain ⟨new, hmem, rfl⟩ := List.mem_map.1 hnew
    exact (hadded kind hkind new hmem).1 (heq ▸ h.listed kind hkind point hpoint)
  replayed_listed trace htrace :=
    ⟨(h.replayed_listed trace htrace).1, hids (h.replayed_listed trace htrace).2⟩
  replayed_once := h.replayed_once
  replayed_le trace htrace point hpoint hid := by
    obtain ⟨hkind, hlisted⟩ := h.replayed_listed trace htrace
    rw [hpoints trace.1 hkind] at hpoint
    rcases List.mem_append.1 hpoint with hold | hnew
    · exact h.replayed_le trace htrace point hold hid
    · exact absurd (hid ▸ hlisted) (hadded trace.1 hkind point hnew).1

end Traces

section Fading
variable {B V : Type} [AddCommGroup B] [LinearOrder B] [Field V] [LinearOrder V]
  {config : Config B V} {ids ids' : List String} {gain gain' gain'' : B}
  {points points' points'' : Kind → List (Point B V)}

/-- Each trace is new, or was there before and has not gained strength since. -/
def Fades (config : Config B V) (ids : List String) (gain gain' : B)
    (points points' : Kind → List (Point B V)) : Prop :=
  ∀ kind ∈ traceKinds, ∀ point ∈ points' kind, point.id ∉ ids ∨
    ∃ before ∈ points kind, point.Again before ∧
      strengthUnder config gain' point ≤ strengthUnder config gain before

theorem Fades.trans (h : Fades config ids gain gain' points points')
    (h' : Fades config ids' gain' gain'' points' points'') (hids : ids ⊆ ids') :
    Fades config ids gain gain'' points points'' := by
  intro kind hkind point hpoint
  rcases h' kind hkind point hpoint with hnew | ⟨middle, hmiddle, ⟨hid, hvector, htext⟩, hle⟩
  · exact .inl fun hold => hnew (hids hold)
  · rcases h kind hkind middle hmiddle with hnew | ⟨before, hbefore, ⟨hid', hvector', htext'⟩, hle'⟩
    · exact .inl (hid ▸ hnew)
    · exact .inr ⟨before, hbefore, ⟨hid.trans hid', hvector.trans hvector', htext.trans htext'⟩,
        hle.trans hle'⟩

variable [IsOrderedAddMonoid B]

theorem strengthUnder_le (h : gain' ≤ gain) (point : Point B V) :
    strengthUnder config gain' point ≤ strengthUnder config gain point := by
  unfold strengthUnder
  cases point.payload.logBase with
  | none => exact le_rfl
  | some logBase => exact config.scale.exp_le_exp.2 (min_le_min_left 0 (add_le_add_right h logBase))

/-- Traces that stay do not gain strength where the gain does not grow. -/
theorem fades_of_subset (h : gain' ≤ gain) (hsub : ∀ kind ∈ traceKinds, ∀ point ∈ points' kind,
    point.id ∉ ids ∨ point ∈ points kind) : Fades config ids gain gain' points points' := by
  intro kind hkind point hpoint
  rcases hsub kind hkind point hpoint with hnew | hold
  · exact .inl hnew
  · exact .inr ⟨point, hold, ⟨rfl, rfl, rfl⟩, strengthUnder_le h point⟩

theorem fades_refl : Fades config ids gain gain points points :=
  fades_of_subset le_rfl fun _ _ _ hpoint => .inr hpoint

end Fading

section Working
variable {B V : Type} [AddCommGroup B] {core core' core'' : Core B V} {ids ids' ids'' : List String}

/-- What a process may do between two sleeps: it stores new traces at its gain, and writes its
record. -/
structure Works (ids ids' : List String) (core core' : Core B V) : Prop where
  minted : ids ⊆ ids'
  logGain : core'.strength.logGain = core.strength.logGain
  sleeps : core'.strength.sleeps = core.strength.sleeps
  record : core'.storage.record = core.storage.record ∨
    ∃ record, core'.storage.record = some record ∧ record.logGain = core.strength.logGain ∧
      record.sleeps = core.strength.sleeps
  points : ∃ added : Kind → List (Point B V), ∀ kind,
    core'.storage.points kind = core.storage.points kind ++ added kind ∧
      ((added kind).map (·.id)).Nodup ∧ ∀ point ∈ added kind, point.id ∉ ids ∧ point.id ∈ ids' ∧
        point.payload.logBase = some (-core.strength.logGain) ∧
          point.payload.bornSleep = some core.strength.sleeps

/-- The store stays as it is. -/
theorem works_of_same (hids : ids ⊆ ids') (hstorage : core'.storage = core.storage)
    (hgain : core'.strength.logGain = core.strength.logGain)
    (hsleeps : core'.strength.sleeps = core.strength.sleeps) : Works ids ids' core core' where
  minted := hids
  logGain := hgain
  sleeps := hsleeps
  record := .inl (by rw [hstorage])
  points := ⟨fun _ => [], fun kind => ⟨by rw [hstorage, List.append_nil], List.nodup_nil, by simp⟩⟩

theorem works_same (hstorage : core'.storage = core.storage)
    (hgain : core'.strength.logGain = core.strength.logGain)
    (hsleeps : core'.strength.sleeps = core.strength.sleeps) : Works ids ids core core' :=
  works_of_same (List.Subset.refl _) hstorage hgain hsleeps

theorem Works.trans (h : Works ids ids' core core') (h' : Works ids' ids'' core' core'') :
    Works ids ids'' core core'' where
  minted := List.Subset.trans h.minted h'.minted
  logGain := h'.logGain.trans h.logGain
  sleeps := h'.sleeps.trans h.sleeps
  record := by
    rcases h'.record with hsame | ⟨record, hrecord, hgain, hsleeps⟩
    · rw [hsame]
      exact h.record
    · exact .inr ⟨record, hrecord, hgain.trans h.logGain, hsleeps.trans h.sleeps⟩
  points := by
    obtain ⟨added, hadded⟩ := h.points
    obtain ⟨later, hlater⟩ := h'.points
    refine ⟨fun kind => added kind ++ later kind, fun kind => ⟨?_, ?_, fun point hpoint => ?_⟩⟩
    · rw [(hlater kind).1, (hadded kind).1, List.append_assoc]
    · rw [List.map_append]
      refine List.nodup_append.2 ⟨(hadded kind).2.1, (hlater kind).2.1, ?_⟩
      intro id hold id' hnew heq
      obtain ⟨point, hpoint, rfl⟩ := List.mem_map.1 hold
      obtain ⟨new, hmem, rfl⟩ := List.mem_map.1 hnew
      exact ((hlater kind).2.2 new hmem).1 (heq ▸ ((hadded kind).2.2 point hpoint).2.1)
    · rcases List.mem_append.1 hpoint with hold | hnew
      · obtain ⟨hfresh, hlisted, hlog, hborn⟩ := (hadded kind).2.2 point hold
        exact ⟨hfresh, h'.minted hlisted, hlog, hborn⟩
      · obtain ⟨hfresh, hlisted, hlog, hborn⟩ := (hlater kind).2.2 point hnew
        refine ⟨fun hold => hfresh (h.minted hold), hlisted, ?_, ?_⟩
        · rw [hlog, h.logGain]
        · rw [hborn, h.sleeps]

theorem Works.listed (h : Works ids ids' core core') {kind : Kind}
    (hcore : ∀ point ∈ core.storage.points kind, point.id ∈ ids) :
    ∀ point ∈ core'.storage.points kind, point.id ∈ ids' := by
  intro point hpoint
  obtain ⟨added, hadded⟩ := h.points
  rw [(hadded kind).1] at hpoint
  rcases List.mem_append.1 hpoint with hold | hnew
  · exact h.minted (hcore point hold)
  · exact ((hadded kind).2.2 point hnew).2.1

theorem Works.more (h : Works ids ids' core core') (hmore : ids' ⊆ ids'') :
    Works ids ids'' core core' :=
  h.trans (works_of_same hmore rfl rfl rfl)

/-- A record that is written, or not, keeps the gain. -/
theorem works_writeMeta (write : Write) {record : Meta B V}
    (hgain : record.logGain = core.strength.logGain)
    (hsleeps : record.sleeps = core.strength.sleeps) :
    Works ids ids core (core.writeMeta write record) := by
  unfold Core.writeMeta
  split
  · exact ⟨List.Subset.refl _, rfl, rfl, .inr ⟨record, rfl, hgain, hsleeps⟩,
      fun _ => [], fun kind => ⟨(List.append_nil _).symm, List.nodup_nil, by simp⟩⟩
  · exact works_same rfl rfl rfl

theorem works_counted (write : Write) {strength : Meta B V}
    (hgain : strength.logGain = core.strength.logGain)
    (hsleeps : strength.sleeps = core.strength.sleeps) :
    Works ids ids core (Core.writeMeta { core with strength := strength } write strength) := by
  have hset : Works ids ids core { core with strength := strength } := works_same rfl hgain hsleeps
  exact hset.trans (works_writeMeta write rfl rfl)

theorem works_upsert {kind : Kind} (hcore : ∀ point ∈ core.storage.points kind, point.id ∈ ids)
    (point : Point B V) (hfresh : point.id ∉ ids)
    (hlog : point.payload.logBase = some (-core.strength.logGain))
    (hborn : point.payload.bornSleep = some core.strength.sleeps)
    (hstrength : core'.strength = core.strength)
    (hstorage : core'.storage = core.storage.upsert kind point) :
    Works ids (ids ++ [point.id]) core core' where
  minted := List.subset_append_left _ _
  logGain := by rw [hstrength]
  sleeps := by rw [hstrength]
  record := by
    left
    rw [hstorage]
    unfold Storage.upsert
    split <;> rfl
  points := by
    have hnew : ∀ old ∈ core.storage.points kind, old.id ≠ point.id := fun old hold heq =>
      hfresh (heq ▸ hcore old hold)
    refine ⟨fun other => if other = kind then [point] else [], fun other => ?_⟩
    rw [hstorage, points_upsert hnew, points_setPoints]
    dsimp only
    split
    · rename_i heq
      subst heq
      refine ⟨rfl, by simp, fun added hadded => ?_⟩
      rw [List.mem_singleton.1 hadded]
      exact ⟨hfresh, by simp, hlog, hborn⟩
    · exact ⟨(List.append_nil _).symm, List.nodup_nil, by simp⟩

variable [LinearOrder B] [Field V] [LinearOrder V] {config : Config B V} {call : Call V}
  {memory : StoredMemory} {kind : Kind}

theorem works_persist (hcore : ∀ point ∈ core.storage.points kind, point.id ∈ ids)
    (hfresh : call.id ∉ ids) :
    Works ids (ids ++ [call.id]) core (core.persist config call memory kind).2 := by
  have hsame : Works ids (ids ++ [call.id]) core core :=
    works_of_same (List.subset_append_left _ _) rfl rfl rfl
  unfold Core.persist
  cases call.vector with
  | none => exact hsame
  | some vector =>
    dsimp only
    split
    · have hrefused (write : Write) : Works ids (ids ++ [call.id]) core
          (Core.writeMeta _ write
            { core.strength with persistRefusals := core.strength.persistRefusals + 1 }) :=
        hsame.trans (works_counted write rfl rfl)
      cases call.writeMeta with
      | returned => exact hrefused .returned
      | raised written => exact hrefused (.raised written)
    · have hstored {after : Core B V} (hstrength : after.strength = core.strength) :=
        works_upsert hcore ⟨call.id, vector, memory.text, core.stamped config memory,
          memory.affect.filter (· ≠ [])⟩ hfresh rfl rfl hstrength
      cases hupsert : call.upsert with
      | returned => exact hstored rfl rfl
      | raised written =>
        cases written with
        | true => exact hstored rfl rfl
        | false => exact hsame

variable (config) in
theorem works_drain {calls : ℕ → Call V} (hinjective : ∀ i j, (calls i).id = (calls j).id → i = j)
    (entries : List StoredMemory) (moved : ℕ) (batch : List (String × StoredMemory))
    (hcore : ∀ point ∈ core.storage.points .episodic, point.id ∈ ids)
    (hfresh : ∀ i, moved ≤ i → (calls i).id ∉ ids) :
    Works ids (ids ++ (List.range' moved entries.length).map fun i => (calls i).id) core
      (core.drain config calls entries moved batch).2.2 := by
  induction entries generalizing core ids moved batch with
  | nil => exact works_of_same (by simp) rfl rfl rfl
  | cons entry entries ih =>
    have hpop : Works ids ids core core.popLeft := works_same rfl rfl rfl
    have hstep : Works ids (ids ++ [(calls moved).id]) core
        (core.popLeft.persist config (calls moved) entry .episodic).2 :=
      hpop.trans (works_persist hcore (hfresh moved le_rfl))
    have hids : ids ++ (List.range' moved (entry :: entries).length).map (fun i => (calls i).id) =
        ids ++ [(calls moved).id] ++ (List.range' (moved + 1) entries.length).map fun i =>
          (calls i).id := by
      rw [List.length_cons, List.range'_succ, List.map_cons, List.append_assoc,
        List.singleton_append]
    have hlater (i : ℕ) (hi : moved + 1 ≤ i) : (calls i).id ∉ ids ++ [(calls moved).id] := by
      intro hmem
      rcases List.mem_append.1 hmem with hold | hsame
      · exact hfresh i (by omega) hold
      · have hindex := hinjective i moved (List.mem_singleton.1 hsame)
        omega
    have hrest (batch : List (String × StoredMemory)) :=
      ih (moved + 1) batch (hstep.listed hcore) hlater
    rw [hids]
    unfold Core.drain
    generalize core.popLeft.persist config (calls moved) entry .episodic = result at hstep hrest
    obtain ⟨answer, after⟩ := result
    cases answer with
    | error failure => exact hstep.more (List.subset_append_left _ _)
    | ok id =>
      cases id with
      | none => exact hstep.trans (hrest _)
      | some id => exact hstep.trans (hrest _)

theorem works_consolidateNow {calls : ℕ → Call V}
    (hinjective : ∀ i j, (calls i).id = (calls j).id → i = j)
    (hcore : ∀ point ∈ core.storage.points .episodic, point.id ∈ ids)
    (hfresh : ∀ i, (calls i).id ∉ ids) :
    Works ids (ids ++ (List.range core.shortTerm.length).map fun i => (calls i).id) core
      (core.consolidateNow config calls).2 := by
  obtain ⟨hshort, hstorage, hstrength, -⟩ := shortTerm_rebuild core
  have hrebuilt : Works ids ids core core.rebuildEmbeddingsIfDesynced :=
    works_same hstorage (congrArg Meta.logGain hstrength) (congrArg Meta.sleeps hstrength)
  have hdrained := works_drain config hinjective core.rebuildEmbeddingsIfDesynced.shortTerm 0 []
    (hrebuilt.listed hcore) fun i _ => hfresh i
  rw [hshort, ← List.range_eq_range'] at hdrained
  unfold Core.consolidateNow
  dsimp only
  rw [hshort]
  exact (hrebuilt.trans hdrained).trans (works_same rfl rfl rfl)

theorem works_store {collection : Collection}
    (hcore : ∀ kind ∈ traceKinds, ∀ point ∈ core.storage.points kind, point.id ∈ ids)
    (hfresh : call.id ∉ ids) :
    Works ids (ids ++ [call.id]) core (core.store config call memory collection).2 := by
  cases collection with
  | persisted kind hkind => exact works_persist (hcore kind hkind) hfresh
  | shortTerm =>
    obtain ⟨-, hstorage, hstrength, -⟩ := shortTerm_rebuild core
    have happended : Works ids (ids ++ [call.id]) core
      (core.rebuildEmbeddingsIfDesynced.append memory) :=
      works_of_same (List.subset_append_left _ _) hstorage (congrArg Meta.logGain hstrength)
        (congrArg Meta.sleeps hstrength)
    have hpop : Works ids ids core core.rebuildEmbeddingsIfDesynced.popLeft :=
      works_same hstorage (congrArg Meta.logGain hstrength) (congrArg Meta.sleeps hstrength)
    have hpersist (evicted : StoredMemory) : Works ids (ids ++ [call.id]) core
        (core.rebuildEmbeddingsIfDesynced.popLeft.persist config call evicted .episodic).2 :=
      hpop.trans (works_persist (hpop.listed (hcore .episodic (by decide))) hfresh)
    unfold Core.store
    dsimp only
    split
    · exact happended
    · rename_i evicted entries _
      split
      · have hmoved := hpersist evicted
        generalize core.rebuildEmbeddingsIfDesynced.popLeft.persist config call evicted .episodic =
          result at hmoved
        obtain ⟨answer, after⟩ := result
        cases answer with
        | error failure => exact hmoved
        | ok id => exact hmoved.trans (works_same rfl rfl rfl)
      · exact happended

end Working

/-- What a downscaling comes to, by how far it gets. -/
theorem downscale_cases {B V : Type} [AddCommGroup B] [LinearOrder B] [Field V] [LinearOrder V]
    (config : Config B V) (core : Core B V) (call : DownscaleCall) (protect : List (Replayed B)) :
    let after := (core.downscale config call protect).2
    let counts := !core.strength.importPending && call.reads && call.record.done
    let traces := shielded protect
    (counts = false ∧ (after = core ∨ ∃ blocked, after = Core.writeMeta
        { core with strength := { core.strength with blockedSleeps := blocked } } call.record
        { core.strength with blockedSleeps := blocked })) ∨
      (counts = true ∧
        (after =
          { core with
            storage := core.storage.writeMeta (core.scaledRecord config call.clock traces) } ∨
            (after.strength.logGain = core.strength.logGain + core.logF config ∧
            after.strength.sleeps = core.strength.sleeps + 1 ∧
            (∃ record, after.storage.record = some record ∧
              record.logGain = after.strength.logGain ∧ record.sleeps = after.strength.sleeps) ∧
            ∀ kind, after.storage.points kind = (core.storage.points kind).map
              (·.rewritten (call.points.part kind
                (updatesOf (· - core.logF config) traces kind)))))) := by
  intro after counts traces
  cases hpending : core.strength.importPending with
  | true =>
    refine .inl ⟨by simp [counts, hpending], .inr ⟨core.strength.blockedSleeps + 1, ?_⟩⟩
    unfold after Core.downscale
    rw [if_pos hpending]
    cases call.record <;> rfl
  | false =>
    unfold after counts Core.downscale
    rw [if_neg (by simp [hpending]), hpending]
    cases call.reads with
    | false => exact .inl ⟨rfl, .inl rfl⟩
    | true =>
      cases call.record with
      | raised written =>
        cases written with
        | true => exact .inr ⟨rfl, .inl rfl⟩
        | false => exact .inl ⟨rfl, .inl rfl⟩
      | returned =>
        simp only [Bool.not_true, Bool.not_false, Bool.false_eq_true, if_false]
        refine .inr ⟨rfl, .inr ?_⟩
        cases call.points with
        | raised written => exact ⟨rfl, rfl, ⟨_, rfl, rfl, rfl⟩, fun _ => rfl⟩
        | returned =>
          cases call.deferred with
          | false => exact ⟨rfl, rfl, ⟨_, rfl, rfl, rfl⟩, fun _ => rfl⟩
          | true =>
            cases call.again with
            | returned => exact ⟨rfl, rfl, ⟨_, rfl, rfl, rfl⟩, fun _ => rfl⟩
            | raised written =>
              cases written with
              | true => exact ⟨rfl, rfl, ⟨_, rfl, rfl, rfl⟩, fun _ => rfl⟩
              | false => exact ⟨rfl, rfl, ⟨_, rfl, rfl, rfl⟩, fun _ => rfl⟩

/-- What a start comes to: the record is made where there is none, and then the traces are
filled. -/
theorem initialized_cases {B V : Type} [AddCommGroup B] [LinearOrder B] [Field V] [LinearOrder V]
    (config : Config B V) (storage : Storage B V) (call : StartCall B) :
    let result := Core.initialized config storage call
    ∃ base, (base = storage ∨ (storage.record = none ∧
      base = storage.writeMeta (Core.freshRecord storage))) ∧
        ((result.1 = false ∧ result.2.storage = base) ∨ ∃ record, base.record = some record ∧
        Works [] [] { Core.unread (base.backfillStrength
          (-record.logGain) call.points) with strength :=
            record } result.2 ∧ (result.1 = true → call.points = .returned)) := by
  -- After the record is read, the process only writes its sums.
  have hread (base : Storage B V) (record : Meta B V) (fresh : Bool) :
      let read := Core.backfill { Core.unread base with strength := record } call fresh
      Works [] [] { Core.unread (base.backfillStrength
        (-record.logGain) call.points) with strength :=
          record } read.2 ∧ (read.1 = true → call.points = .returned) := by
    unfold Core.backfill
    dsimp only [Core.unread]
    cases call.points with
    | raised written => exact ⟨works_same rfl rfl rfl, by simp⟩
    | returned =>
      dsimp only
      split
      · exact ⟨works_counted call.filled rfl rfl, fun _ => rfl⟩
      · exact ⟨works_same rfl rfl rfl, fun _ => rfl⟩
  have hcount (core : Core B V) : Works [] [] core (core.recount config call).2 := by
    unfold Core.recount
    dsimp only
    split
    · exact works_counted call.again rfl rfl
    · exact works_same rfl rfl rfl
  have hresume (read : Bool × Core B V) : Works [] [] read.2 (Core.resume config read call).2 ∧
      ((Core.resume config read call).1 = true → read.1 = true) := by
    have hsame {core : Core B V} (hstorage : core.storage = read.2.storage)
        (hstrength : core.strength = read.2.strength) : Works [] [] read.2 core :=
      works_same hstorage (congrArg _ hstrength) (congrArg _ hstrength)
    unfold Core.resume
    cases read.1 with
    | false => exact ⟨hsame rfl rfl, by simp⟩
    | true =>
      refine ⟨?_, fun _ => rfl⟩
      cases call.assoc with
      | none => exact hsame rfl rfl
      | some assoc =>
        have hread : Works [] [] read.2 { read.2.resumeEntityTime
          call.clock with assoc := assoc } := hsame rfl rfl
        exact hread.trans (hcount _)
  have hstart {base : Storage B V} {record : Meta B V} (fresh : Bool) (hrecord : base.record =
    some record) :=
    (⟨hrecord, (hread base record fresh).1.trans (hresume _).1,
      fun hreturned => (hread base record fresh).2 ((hresume _).2 hreturned)⟩ :
      base.record = some record ∧ _ ∧ _)
  unfold Core.initialized
  cases call.ready with
  | false => exact ⟨storage, .inl rfl, .inl ⟨rfl, rfl⟩⟩
  | true =>
    unfold Core.initStrength
    cases hrecord : storage.record with
    | some record => exact ⟨storage, .inl rfl, .inr ⟨record, hstart false hrecord⟩⟩
    | none =>
      simp only [Bool.not_true, Bool.false_eq_true, if_false]
      split
      · exact ⟨storage, .inl rfl, .inl ⟨rfl, rfl⟩⟩
      · cases call.fresh with
        | returned => exact ⟨_, .inr ⟨trivial, rfl⟩, .inr ⟨_, hstart true rfl⟩⟩
        | raised written =>
          cases written with
          | true => exact ⟨_, .inr ⟨trivial, rfl⟩, .inl ⟨rfl, rfl⟩⟩
          | false => exact ⟨storage, .inl rfl, .inl ⟨rfl, rfl⟩⟩

section Sleeping
variable {B V : Type} [AddCommGroup B] [LinearOrder B] [Field V] {s t u : System B V}
  {ids : List String}

/-- A record counts its sleeps, and its gain is made of their factors. -/
def Counts (factors : List B) (record : Meta B V) : Prop :=
  0 ≤ record.sleeps ∧ record.sleeps.toNat ≤ factors.length ∧
    record.logGain = (factors.take record.sleeps.toNat).sum

structure System.Sound (s : System B V) : Prop where
  nonpos : ∀ factor ∈ s.factors, factor ≤ 0
  standing : Counts s.factors s.standing
  record : ∀ record, s.core.storage.record = some record →
    Counts s.factors record ∧ s.standing.sleeps ≤ record.sleeps
  running : s.running = true → s.core.storage.record.isSome = true ∧
    ∀ kind ∈ traceKinds, ∀ point ∈ s.core.storage.points kind, point.payload.logBase.isSome = true
  kept : Kept s.spent s.ids s.replayed s.core.storage.points

/-- What the factors come to with those of one sleep more. -/
theorem System.Sound.counts (h : s.Sound) (hrunning : s.running = true) {factor : B}
    {record : Meta B V} (hgain : record.logGain = s.core.strength.logGain + factor)
    (hsleeps : record.sleeps = s.core.strength.sleeps + 1) :
    Counts (s.spent ++ [factor]) record ∧ (s.spent ++ [factor]).take record.sleeps.toNat =
      s.spent ++ [factor] ∧ Counts (s.spent ++ [factor]) s.core.strength ∧
      (s.spent ++ [factor]).take s.core.strength.sleeps.toNat = s.spent := by
  obtain ⟨hnonneg, hlength, hsum⟩ := h.standing
  have hspent : s.spent.length = s.standing.sleeps.toNat :=
    List.length_take.trans (min_eq_left hlength)
  have hstanding : s.standing = s.core.strength := if_pos hrunning
  have hall : (s.spent ++ [factor]).length = record.sleeps.toNat := by
    rw [List.length_append, hspent, hsleeps, hstanding, List.length_singleton]
    rw [hstanding] at hnonneg
    omega
  rw [← hstanding] at hgain ⊢
  have htake : (s.spent ++ [factor]).take s.standing.sleeps.toNat = s.spent := by
    rw [← hspent, List.take_left]
  refine ⟨⟨?_, hall.ge, ?_⟩, List.take_of_length_le hall.le, ⟨hnonneg, ?_, ?_⟩, htake⟩
  · rw [hsleeps, ← hstanding]
    omega
  · rw [List.take_of_length_le hall.le, List.sum_append, List.sum_singleton, hgain, hsum]
    rfl
  · rw [List.length_append, hspent]
    exact Nat.le_add_right _ _
  · rw [htake, hsum]
    rfl

theorem System.Sound.nonpos_append (h : s.Sound) {factor : B} (hneg : factor ≤ 0) :
    ∀ f ∈ s.spent ++ [factor], f ≤ 0 := by
  intro f hf
  rcases List.mem_append.1 hf with hold | hlast
  · exact h.nonpos f (List.mem_of_mem_take hold)
  · exact List.mem_singleton.1 hlast ▸ hneg

theorem System.Sound.of_begins (h : s.Begins) : s.Sound := by
  obtain ⟨hidle, hreplayed, hfactors, hrecord, htraces⟩ := h
  have hstanding : s.standing = Core.freshRecord s.core.storage := by
    simp [System.standing, hidle, hrecord]
  refine ⟨by simp [hfactors], ?_, by simp [hrecord], by simp [hidle], ?_⟩
  · rw [hstanding, hfactors]
    exact ⟨le_rfl, le_rfl, rfl⟩
  · rw [hreplayed]
    refine ⟨fun kind hkind point hpoint logBase hlog => ?_, fun kind hkind point hpoint =>
      ((htraces kind hkind).2 point hpoint).2, fun kind hkind => (htraces kind hkind).1, by
        simp, by simp, by simp⟩
    rw [((htraces kind hkind).2 point hpoint).1] at hlog
    cases hlog

variable [LinearOrder V] {config : Config B V}

/-- What every step of the system keeps. -/
structure System.Leads (config : Config B V) (s t : System B V) : Prop where
  sound : t.Sound
  ids : s.ids ⊆ t.ids
  fades : Fades config s.ids s.standing.logGain t.standing.logGain s.core.storage.points
    t.core.storage.points

theorem System.Leads.trans (h : s.Leads config t) (h' : t.Leads config u) : s.Leads config u :=
  ⟨h'.sound, List.Subset.trans h.ids h'.ids, h.fades.trans h'.fades h.ids⟩

namespace System.Sound

/-- The traces of before trace strengths are given theirs, whether the start returns or not. -/
theorem filled (h : s.Sound) (hidle : s.running = false) (hreplayed : s.replayed = [])
    {record : Meta B V} (hrecord : s.core.storage.record = some record) (call : StartCall B)
    {running : Bool} {core : Core B V}
    (hworks : Works [] [] { Core.unread (s.core.storage.backfillStrength
      (-record.logGain) call.points) with
      strength := record } core) (hall : running = true → call.points = .returned) :
    s.Leads config { s with core := core, running := running } := by
  have hfilled := backfillStrength_points (-record.logGain) call.points s.core.storage
  obtain ⟨-, hgain, hsleeps, hwritten, added, hadded⟩ := hworks
  have hstanding : s.standing = record := by simp [System.standing, hidle, hrecord]
  have hrecord' : ∃ written, core.storage.record = some written ∧ written.logGain = record.logGain ∧
      written.sleeps = record.sleeps := by
    rcases hwritten with hsame | hnew
    · exact ⟨record, hsame.trans hrecord, rfl, rfl⟩
    · exact hnew
  obtain ⟨written, hdisk, hgain', hsleeps'⟩ := hrecord'
  have hnow : (System.standing { s with core := core, running := running }).logGain =
      record.logGain ∧ (System.standing { s with core := core, running := running }).sleeps =
        record.sleeps := by
    unfold System.standing
    cases running with
    | true => exact ⟨hgain, hsleeps⟩
    | false => simp [hdisk, hgain', hsleeps']
  have hspent : System.spent { s with core := core, running := running } = s.spent := by
    rw [System.spent, System.spent, hnow.2, hstanding]
  have hsum : record.logGain = s.spent.sum := by rw [← hstanding, h.standing.2.2]; rfl
  have hpoints (kind : Kind) : core.storage.points kind =
      (s.core.storage.backfillStrength (-record.logGain) call.points).points kind := by
    have hnone : added kind = [] := List.eq_nil_iff_forall_not_mem.2 fun point hpoint =>
      List.not_mem_nil ((hadded kind).2.2 point hpoint).2.1
    rw [(hadded kind).1, hnone, List.append_nil]
    rfl
  have hcase (kind : Kind) (point : Point B V) (hpoint : point ∈ core.storage.points kind) :
      ∃ before ∈ s.core.storage.points kind, point.Again before ∧
        (point = before ∧ (running = true → kind ∉ traceKinds) ∨
          point = before.filled (-record.logGain)) := by
    obtain ⟨before, hbefore, hnew | ⟨hold, hfail⟩⟩ := (hfilled kind).2 point (hpoints kind ▸ hpoint)
    · exact ⟨before, hbefore, hnew ▸ filled_again _ before, .inr hnew⟩
    · exact ⟨before, hbefore, hold ▸ ⟨rfl, rfl, rfl⟩,
        .inl ⟨hold, fun hreturned => hfail (hall hreturned)⟩⟩
  refine ⟨⟨h.nonpos, ?_, fun other hother => ?_, fun hreturned => ⟨hdisk ▸ rfl, ?_⟩, ?_⟩,
    List.Subset.refl _, ?_⟩
  · obtain ⟨hnonneg, hlength, -⟩ := hstanding ▸ h.standing
    unfold Counts
    rw [hnow.1, hnow.2]
    exact ⟨hnonneg, hlength, (hstanding ▸ h.standing).2.2⟩
  · obtain rfl : written = other := Option.some.inj (hdisk.symm.trans hother)
    unfold Counts
    rw [hnow.2, hgain', hsleeps']
    exact ⟨hstanding ▸ h.standing, le_rfl⟩
  · intro kind hkind point hpoint
    obtain ⟨before, -, -, ⟨-, hout⟩ | rfl⟩ := hcase kind point hpoint
    · exact absurd hkind (hout hreturned)
    · exact isSome_filled _ before
  · rw [hspent, hreplayed]
    refine (h.kept.reread (by simp)).relabel (fun kind _ => hpoints kind ▸ (hfilled kind).1)
      fun kind hkind point hpoint => ?_
    obtain ⟨before, hbefore, hagain, hnew⟩ := hcase kind point hpoint
    refine ⟨before, hbefore, hagain.1, fun logBase hlog => ?_, by simp⟩
    rcases hnew with ⟨rfl, -⟩ | rfl
    · exact h.kept.owed kind hkind point hbefore logBase hlog
    · unfold Point.filled at hlog ⊢
      split at hlog
      · rw [if_pos ‹_›]
        exact h.kept.owed kind hkind before hbefore logBase hlog
      · rw [if_neg ‹_›, ← Option.some.inj hlog, hsum]
        exact ⟨Nat.zero_le _, [], List.nil_sublist _, neg_add_cancel _⟩
  · intro kind _ point hpoint
    obtain ⟨before, hbefore, hagain, hnew⟩ := hcase kind point hpoint
    refine .inr ⟨before, hbefore, hagain, ?_⟩
    rw [hnow.1, hstanding]
    rcases hnew with ⟨rfl, -⟩ | rfl
    · exact le_rfl
    · unfold Point.filled
      split
      · exact le_rfl
      · rename_i hnone
        rw [strengthUnder, strengthUnder, Option.not_isSome_iff_eq_none.1 hnone]
        simp [config.scale.exp_zero]

variable [IsOrderedAddMonoid B]

/-- Work between two sleeps. -/
theorem works (h : s.Sound) (hrunning : s.running = true) {core : Core B V}
    (hworks : Works s.ids ids s.core core) :
    s.Leads config { s with core := core, ids := ids } := by
  obtain ⟨hids, hgain, hsleeps, hrecord, added, hpoints⟩ := hworks
  have hcounts := h.standing
  have hstanding : s.standing = s.core.strength := if_pos hrunning
  have hstanding' : System.standing { s with core := core, ids := ids } = core.strength :=
    if_pos hrunning
  have hspent : System.spent { s with core := core, ids := ids } = s.spent := by
    unfold System.spent
    rw [hstanding', hsleeps, ← hstanding]
  rw [hstanding] at hcounts
  obtain ⟨hnonneg, hlength, hsum⟩ := hcounts
  refine ⟨⟨h.nonpos, ?_, fun record hwritten => ?_,
    fun _ => ⟨?_, fun kind hkind point hpoint => ?_⟩, ?_⟩, hids, ?_⟩
  · rw [hstanding']
    unfold Counts
    rw [hgain, hsleeps]
    exact ⟨hnonneg, hlength, hsum⟩
  · rw [hstanding', hsleeps, ← hstanding]
    rcases hrecord with hsame | ⟨record', hnew, hgain', hsleeps'⟩
    · exact h.record record (hsame.symm.trans hwritten)
    · obtain rfl : record' = record := Option.some.inj (hnew.symm.trans hwritten)
      unfold Counts
      rw [hgain', hsleeps', hstanding]
      exact ⟨⟨hnonneg, hlength, hsum⟩, le_rfl⟩
  · rcases hrecord with hsame | ⟨record', hnew, -, -⟩
    · exact hsame ▸ (h.running hrunning).1
    · exact hnew ▸ rfl
  · rw [(hpoints kind).1] at hpoint
    rcases List.mem_append.1 hpoint with hold | hnew
    · exact (h.running hrunning).2 kind hkind point hold
    · rw [((hpoints kind).2.2 point hnew).2.2.1]
      rfl
  · rw [hspent]
    refine h.kept.add hids (fun kind _ => (hpoints kind).1) (fun kind _ => (hpoints kind).2.1)
      fun kind _ point hpoint => ?_
    obtain ⟨hfresh, hlisted, hlog, hborn⟩ := (hpoints kind).2.2 point hpoint
    refine ⟨hfresh, hlisted, ?_, ?_⟩
    · rw [hlog, hsum]
      unfold System.spent
      rw [hstanding]
    · unfold Point.born System.spent
      rw [hborn, hstanding, List.length_take, min_eq_left hlength]
      rfl
  · rw [hstanding', hgain, hstanding]
    refine fades_of_subset le_rfl fun kind _ point hpoint => ?_
    rw [(hpoints kind).1] at hpoint
    rcases List.mem_append.1 hpoint with hold | hnew
    · exact .inr hold
    · exact .inl ((hpoints kind).2.2 point hnew).1

theorem prune (h : s.Sound) (hrunning : s.running = true) (kind : Kind)
    (doomed : List (String × B × ℤ)) (deleted record : Write) :
    s.Leads config (s.perform config (.prune kind doomed deleted record)) := by
  have hdeleted : s.Leads config
      { s with
        core := { s.core with
          storage := s.core.storage.deletePoints kind (doomed.map Prod.fst) } } := by
    have hsub (other : Kind) :
        ((s.core.storage.deletePoints kind (doomed.map Prod.fst)).points other).Sublist
        (s.core.storage.points other) := by
      unfold Storage.deletePoints
      rw [points_setPoints]
      split
      · rename_i heq
        exact heq ▸ List.filter_sublist
      · exact List.Sublist.refl _
    have hstanding : System.standing
        { s with
          core := { s.core with
            storage := s.core.storage.deletePoints kind (doomed.map Prod.fst) } } =
          s.standing := by
      unfold System.standing
      dsimp only
      rw [if_pos hrunning, if_pos hrunning]
    refine ⟨⟨h.nonpos, ?_, ?_, fun _ => ⟨(h.running hrunning).1, fun kind hkind point hpoint => ?_⟩,
      ?_⟩, List.Subset.refl _, ?_⟩
    · rw [hstanding]
      exact h.standing
    · rw [hstanding]
      exact h.record
    · exact (h.running hrunning).2 kind hkind point ((hsub kind).subset hpoint)
    · unfold System.spent
      rw [hstanding]
      exact h.kept.sublist hsub
    · rw [hstanding]
      exact fades_of_subset le_rfl fun kind _ point hpoint => .inr ((hsub kind).subset hpoint)
  unfold System.perform Core.deleteDoomed
  cases deleted with
  | returned => exact hdeleted.trans (hdeleted.sound.works hrunning (works_counted record rfl rfl))
  | raised written =>
    cases written with
    | true => exact hdeleted
    | false => exact h.works hrunning (works_same rfl rfl rfl)

variable (config) in
/-- The traces after a sleep: the replayed ones keep their strength where they are written. -/
theorem scaled {spent : List B} {ids : List String} {replayed : List (Replayed B)}
    {points points' : Kind → List (Point B V)} {written : Kind → List (String × B)} {factor : B}
    (gain : B)
    (h : Kept spent ids replayed points) (hneg : factor ≤ 0)
    (hpoints : ∀ kind, points' kind = (points kind).map (·.rewritten (written kind)))
    (hwritten : ∀ kind, written kind ⊆ updatesOf (· - factor) (shielded replayed) kind) :
    Kept (spent ++ [factor]) ids replayed points' ∧
      Fades config ids gain (gain + factor) points points' := by
  have hcase (kind : Kind) (point : Point B V) (hpoint : point ∈ points kind) :
      (point.rewritten (written kind)).payload.logBase = point.payload.logBase ∨
        ∃ trace ∈ replayed, trace.1 = kind ∧ point.id = trace.2.1 ∧
          (point.rewritten (written kind)).payload.logBase = some (trace.2.2 - factor) := by
    rcases rewritten_cases (written kind) point with hsame | ⟨logBase, hmem, hnew⟩
    · exact .inl (by rw [hsame])
    · obtain ⟨trace, htrace, hupdate⟩ := List.mem_map.1 (hwritten kind hmem)
      obtain ⟨hid, rfl⟩ := Prod.mk.inj hupdate
      obtain ⟨hshielded, hkind⟩ := List.mem_filter.1 htrace
      refine .inr ⟨trace, shielded_subset replayed hshielded, by simpa using hkind, hid.symm, ?_⟩
      rw [hnew]
      rfl
  have hle (trace : Replayed B) : trace.2.2 ≤ trace.2.2 - factor := le_sub_self_iff _ |>.2 hneg
  constructor
  · refine h.relabel (fun kind _ => ?_) fun kind hkind point hpoint => ?_
    · rw [hpoints, List.map_map]
      exact List.map_congr_left fun point _ => (rewritten_again (written kind) point).1.1
    · rw [hpoints] at hpoint
      obtain ⟨before, hbefore, rfl⟩ := List.mem_map.1 hpoint
      obtain ⟨⟨hid, -⟩, hborn⟩ := rewritten_again (written kind) before
      refine ⟨before, hbefore, hid, ?_, ?_⟩
      · intro logBase hlog
        rw [hborn]
        rcases hcase kind before hbefore with hsame | ⟨trace, htrace, rfl, hread, hnew⟩
        · exact (h.owed kind hkind before hbefore logBase (hsame ▸ hlog)).append [factor]
        · obtain rfl : trace.2.2 - factor = logBase := Option.some.inj (hnew.symm.trans hlog)
          exact (h.replayed_le trace htrace before hbefore hread).1.spared factor
      · rintro trace htrace rfl hread
        obtain ⟨howes, logBase, hlog, hbelow⟩ := h.replayed_le trace htrace before hbefore hread
        refine ⟨hborn ▸ howes.append [factor], ?_⟩
        rcases hcase trace.1 before hbefore with hsame | ⟨other, hother, hkind', hread', hnew⟩
        · exact ⟨logBase, hsame.trans hlog, hbelow⟩
        · obtain rfl := h.replayed_once other hother trace htrace
            (Prod.ext hkind' (hread'.symm.trans hread))
          exact ⟨_, hnew, hle other⟩
  · intro kind hkind point hpoint
    rw [hpoints] at hpoint
    obtain ⟨before, hbefore, rfl⟩ := List.mem_map.1 hpoint
    refine .inr ⟨before, hbefore, (rewritten_again (written kind) before).1, ?_⟩
    rcases hcase kind before hbefore with hsame | ⟨trace, htrace, rfl, hread, hnew⟩
    · have hgain : gain + factor ≤ gain := add_le_of_nonpos_right hneg
      refine le_of_eq_of_le ?_ (strengthUnder_le hgain before)
      unfold strengthUnder
      rw [hsame]
    · obtain ⟨-, logBase, hlog, hbelow⟩ := h.replayed_le trace htrace before hbefore hread
      unfold strengthUnder
      rw [hnew, hlog]
      refine config.scale.exp_le_exp.2 (min_le_min_left 0 ?_)
      have hcancel : trace.2.2 - factor + (gain + factor) = trace.2.2 + gain := by abel
      rw [hcancel]
      exact add_le_add_left hbelow gain

/-- The record of a sleep is written, and the process has not taken it over. -/
theorem recorded (h : s.Sound) (hrunning : s.running = true) {factor : B} (hneg : factor ≤ 0)
    {record : Meta B V} (hgain : record.logGain = s.core.strength.logGain + factor)
    (hsleeps : record.sleeps = s.core.strength.sleeps + 1) :
    s.Leads config { s with
      core := { s.core with storage := s.core.storage.writeMeta record }
      factors := s.spent ++ [factor] } := by
  obtain ⟨hnew, -, hold, htake⟩ := h.counts hrunning hgain hsleeps
  refine ⟨⟨h.nonpos_append hneg, ?_, fun written hwritten => ?_,
    fun _ => ⟨rfl, (h.running hrunning).2⟩, ?_⟩, List.Subset.refl _, ?_⟩
  · rw [System.standing, if_pos hrunning]
    exact hold
  · rw [System.standing, if_pos hrunning, ← Option.some.inj hwritten]
    exact ⟨hnew, (Int.le_add_one le_rfl).trans hsleeps.ge⟩
  · rw [System.spent, System.standing, if_pos hrunning, htake]
    exact h.kept
  · rw [System.standing, System.standing, if_pos hrunning, if_pos hrunning]
    exact fades_refl

/-- The process takes the record over, and replayed traces are written. -/
theorem adopted (h : s.Sound) (hrunning : s.running = true) {factor : B} (hneg : factor ≤ 0)
    {record : Meta B V} (hgain : record.logGain = s.core.strength.logGain + factor)
    (hsleeps : record.sleeps = s.core.strength.sleeps + 1) {core : Core B V}
    {written : Kind → List (String × B)} (hrecord : core.storage.record = some record)
    (hgain' : core.strength.logGain = record.logGain)
    (hsleeps' : core.strength.sleeps = record.sleeps)
    (hpoints : ∀ kind, core.storage.points kind = (s.core.storage.points kind).map
      (·.rewritten (written kind)))
    (hwritten : ∀ kind, written kind ⊆ updatesOf (· - factor) (shielded s.replayed) kind) :
    s.Leads config { s with core := core, factors := s.spent ++ [factor] } := by
  obtain ⟨hnew, htake, -, -⟩ := h.counts hrunning hgain hsleeps
  obtain ⟨hkept, hfades⟩ := scaled config s.core.strength.logGain h.kept hneg hpoints hwritten
  refine ⟨⟨h.nonpos_append hneg, ?_, fun other hother => ?_, fun _ => ⟨hrecord ▸ rfl, ?_⟩, ?_⟩,
    List.Subset.refl _, ?_⟩
  · rw [System.standing, if_pos hrunning]
    unfold Counts
    rw [hgain', hsleeps']
    exact hnew
  · obtain rfl : record = other := Option.some.inj (hrecord.symm.trans hother)
    rw [System.standing, if_pos hrunning]
    exact ⟨hnew, hsleeps'.le⟩
  · intro kind hkind point hpoint
    rw [hpoints] at hpoint
    obtain ⟨before, hbefore, rfl⟩ := List.mem_map.1 hpoint
    rcases rewritten_cases (written kind) before with hsame | ⟨logBase, -, hset⟩
    · rw [hsame]
      exact (h.running hrunning).2 kind hkind before hbefore
    · rw [hset]
      rfl
  · rw [System.spent, System.standing, if_pos hrunning, hsleeps', htake]
    exact hkept
  · rw [System.standing, System.standing, if_pos hrunning, if_pos hrunning, hgain', hgain]
    exact hfades

/-- A sleep, wherever it ends. -/
theorem downscale (h : s.Sound) (hrunning : s.running = true) (call : DownscaleCall) :
    s.Leads config (s.perform config (.downscale call)) := by
  have hneg : s.core.logF config ≤ 0 := config.logFactor_nonpos _
  have hspent : s.factors.take s.core.strength.sleeps.toNat = s.spent := by
    rw [System.spent, System.standing, if_pos hrunning]
  have hsame : s.Leads config s := h.works hrunning (works_same rfl rfl rfl)
  unfold System.perform
  dsimp only
  rcases downscale_cases config s.core call s.replayed with
    ⟨hskips, hcore | ⟨blocked, hcore⟩⟩ | ⟨hcounts,
      hcore | ⟨hgain, hsleeps, ⟨record, hrecord, hgain', hsleeps'⟩, hpoints⟩⟩
  · rw [hskips, hcore]
    exact hsame
  · rw [hskips, hcore]
    exact h.works hrunning (works_counted call.record rfl rfl)
  · rw [hcounts, hcore, if_pos rfl, hspent]
    exact h.recorded hrunning hneg rfl rfl
  · rw [hcounts, if_pos rfl, hspent]
    exact h.adopted hrunning hneg (hgain'.trans hgain) (hsleeps'.trans hsleeps) hrecord hgain'.symm
      hsleeps'.symm hpoints fun kind => part_subset _ kind _

/-- A state counts at least as many sleeps, and its traces are the same. -/
theorem later (h : s.Sound) (hfactors : t.factors = s.factors) (hids : t.ids = s.ids)
    (hreplayed : t.replayed = []) (hpoints : t.core.storage.points = s.core.storage.points)
    (hcounts : Counts t.factors t.standing)
    (hle : s.standing.sleeps ≤ t.standing.sleeps) (hidle : t.running = false)
    (hrecord : ∀ record, t.core.storage.record = some record → t.standing = record) :
    s.Leads config t := by
  obtain ⟨tail, htail, hnonpos⟩ : ∃ tail, t.spent = s.spent ++ tail ∧
    ∀ factor ∈ tail, factor ≤ 0 := by
    refine ⟨(t.spent).drop s.standing.sleeps.toNat, ?_, fun factor hfactor => ?_⟩
    · have hfront : t.spent.take s.standing.sleeps.toNat = s.spent := by
        unfold System.spent
        rw [hfactors, List.take_take, min_eq_left (Int.toNat_le_toNat hle)]
      rw [← hfront, List.take_append_drop]
    · exact h.nonpos factor (hfactors ▸ List.mem_of_mem_take (List.mem_of_mem_drop hfactor))
  have hgain : t.standing.logGain ≤ s.standing.logGain := by
    have hsum : t.standing.logGain = s.standing.logGain + tail.sum := by
      rw [hcounts.2.2, h.standing.2.2, ← List.sum_append]
      exact congrArg List.sum htail
    rw [hsum]
    exact add_le_of_nonpos_right ((List.sum_le_card_nsmul tail 0 hnonpos).trans (nsmul_zero _).le)
  refine ⟨⟨hfactors ▸ h.nonpos, hcounts, fun record hwritten => ?_, fun hrunning => ?_, ?_⟩,
    hids ▸ List.Subset.refl _, ?_⟩
  · rw [← hrecord record hwritten]
    exact ⟨hcounts, le_rfl⟩
  · rw [hidle] at hrunning
    cases hrunning
  · rw [hpoints, htail, hids, hreplayed]
    exact (h.kept.append tail).reread (by simp)
  · rw [hpoints]
    exact fades_of_subset hgain fun _ _ _ hpoint => .inr hpoint

theorem crash (h : s.Sound) : s.Leads config { s with running := false, replayed := [] } := by
  have hrest : ∀ record, s.core.storage.record = some record →
      System.standing { s with running := false, replayed := [] } = record := by
    intro record hrecord
    simp [System.standing, hrecord]
  cases hrecord : s.core.storage.record with
  | some record =>
    obtain ⟨hcounts, hle⟩ := h.record record hrecord
    rw [← hrest record hrecord] at hcounts hle
    exact h.later rfl rfl rfl rfl hcounts hle rfl hrest
  | none =>
    have hidle : s.running = false := by
      by_contra hrunning
      simpa [hrecord] using (h.running (Bool.eq_true_of_not_eq_false hrunning)).1
    have hsame : System.standing { s with running := false, replayed := [] } = s.standing := by
      simp [System.standing, hidle]
    exact h.later rfl rfl rfl rfl (hsame ▸ h.standing)
      (congrArg Meta.sleeps hsame).ge rfl hrest

/-- A start, wherever it ends. -/
theorem start (h : s.Sound) (call : StartCall B) :
    s.Leads config (s.step config (.start call)) := by
  have hended : s.Leads config { s with running := false, replayed := [] } := h.crash
  obtain ⟨base, hbase, hresult⟩ := initialized_cases config s.core.storage call
  have hfounded : s.Leads config { s with
      core := { s.core with storage := base }, running := false, replayed := [] } := by
    rcases hbase with rfl | ⟨hnone, rfl⟩
    · exact hended
    · have hsame : System.standing { s with
          core := { s.core with
            storage := s.core.storage.writeMeta (Core.freshRecord s.core.storage) }
          running := false
          replayed := [] } = System.standing { s with running := false, replayed := [] } := by
        simp [System.standing, Storage.writeMeta, hnone]
      refine hended.trans (hended.sound.later rfl rfl rfl rfl (hsame ▸ hended.sound.standing)
        (congrArg Meta.sleeps hsame).ge rfl fun record hrecord => ?_)
      exact Option.some.inj hrecord
  unfold System.step
  dsimp only
  generalize Core.initialized config s.core.storage call = result at hresult
  obtain ⟨returned, core⟩ := result
  rcases hresult with ⟨hreturned, hstorage⟩ | ⟨record, hrecord, hworks, hall⟩
  · obtain rfl : returned = false := hreturned
    obtain rfl : core.storage = base := hstorage
    exact hfounded.trans (hfounded.sound.later rfl rfl rfl rfl hfounded.sound.standing le_rfl rfl
      fun record hrecord =>
      by simp [System.standing, show core.storage.record = some record from hrecord])
  · exact hfounded.trans (hfounded.sound.filled rfl rfl hrecord call hworks hall)

theorem step (h : s.Sound) {move : Move B V} (hmints : s.Mints move) :
    s.Leads config (s.step config move) := by
  cases move with
  | start call => exact h.start call
  | work work =>
    unfold System.step
    dsimp only
    split
    · rename_i hrunning
      cases work with
      | store call memory collection => exact h.works hrunning (works_store h.kept.listed hmints)
      | consolidate calls =>
        exact h.works hrunning (works_consolidateNow hmints.2
          (h.kept.listed .episodic (by decide)) hmints.1)
      | replay picks =>
        refine ⟨⟨h.nonpos, h.standing, h.record, h.running, h.kept.reread fun trace htrace => ?_⟩,
          List.Subset.refl _, fades_refl⟩
        obtain ⟨pick, -, hread⟩ := List.mem_filterMap.1 htrace
        obtain ⟨item, hitem, hlog⟩ := Option.bind_eq_some_iff.1 hread
        obtain ⟨logBase, hlogBase, rfl⟩ := Option.map_eq_some_iff.1 hlog
        obtain ⟨kind, hkind, hpoint⟩ :=
          List.mem_flatMap.1 (List.mem_of_mem_filter (List.mem_of_find?_eq_some hitem))
        obtain ⟨point, hmem, rfl⟩ := List.mem_map.1 hpoint
        exact ⟨hkind, point, hmem, rfl, hlogBase⟩
      | downscale call => exact h.downscale hrunning call
      | prune kind doomed deleted record => exact h.prune hrunning kind doomed deleted record
      | crash => exact h.crash
    · exact ⟨h, List.Subset.refl _, fades_refl⟩

theorem run (h : s.Sound) {moves : List (Move B V)} (hrun : Run (System.Moves config) s moves t) :
    s.Leads config t := by
  refine hrun.concat_induction (P := fun _ t => s.Leads config t)
    ⟨h, List.Subset.refl _, fades_refl⟩ ?_
  rintro moves t move u hleads ⟨hmints, rfl⟩
  exact hleads.trans (hleads.sound.step hmints)

end System.Sound

/-- Over any run, with writes that fail and processes that end anywhere, no trace gains strength. -/
theorem strength_never_rises [IsOrderedAddMonoid B] {first : System B V}
    {moves moves' : List (Move B V)} (hbegins : first.Begins)
    (hrun : Run (System.Moves config) first moves s)
    (hrun' : Run (System.Moves config) s moves' t) :
    ∀ kind ∈ traceKinds, ∀ point ∈ t.core.storage.points kind, point.id ∉ s.ids ∨
      ∃ before ∈ s.core.storage.points kind, point.Again before ∧
        t.strengthOf config point ≤ s.strengthOf config before :=
  (((System.Sound.of_begins hbegins).run hrun).sound.run hrun').fades

/-- A sleep halves the strength once for each new trace. -/
def halvingConfig : Config (Additive {q : ℚ // 0 < q}) ℚ :=
  { smallConfig with
    logFactor := fun n => .ofMul ⟨(1 / 2) ^ n, by positivity⟩
    logFactor_nonpos := fun n => pow_le_one₀ (a := (1 / 2 : ℚ)) (by norm_num) (by norm_num) }

def emptySystem : System (Additive {q : ℚ // 0 < q}) ℚ := { core := emptyCore, ids := [] }

def started : Move (Additive {q : ℚ // 0 < q}) ℚ :=
  .start ⟨true, 0, .returned, .returned, .returned, some {}, .returned⟩

/-- A start and a trace, and then a sleep that ends once its record is written, and another
start. -/
def firstWake : List (Move (Additive {q : ℚ // 0 < q}) ℚ) :=
  [started, .work (.store (kept "a") ⟨"first", [], none, 0, 0⟩ (.persisted .episodic))]

def brokenSleep : List (Move (Additive {q : ℚ // 0 < q}) ℚ) :=
  [.work (.replay [(.episodic, "a")]),
    .work (.downscale ⟨true, 1, .raised true, .returned, false, .returned⟩), .work .crash, started]

def woken : System (Additive {q : ℚ // 0 < q}) ℚ :=
  firstWake.foldl (System.step halvingConfig) emptySystem

def mended : System (Additive {q : ℚ // 0 < q}) ℚ :=
  brokenSleep.foldl (System.step halvingConfig) woken

theorem emptySystem_begins : emptySystem.Begins :=
  ⟨rfl, rfl, rfl, rfl, fun _ _ => ⟨List.nodup_nil, fun _ h => (List.not_mem_nil h).elim⟩⟩

theorem firstWake_run : Run (System.Moves halvingConfig) emptySystem firstWake woken :=
  .head ⟨trivial, rfl⟩ (.head ⟨List.not_mem_nil, rfl⟩ (.refl _))

theorem brokenSleep_run : Run (System.Moves halvingConfig) woken brokenSleep mended :=
  .head ⟨trivial, rfl⟩ (.head ⟨trivial,
    rfl⟩ (.head ⟨trivial, rfl⟩ (.head ⟨trivial, rfl⟩ (.refl _))))

theorem mended_episodic : mended.core.storage.points .episodic ≠ [] :=
  List.isEmpty_eq_false_iff.1 (by decide +kernel)

theorem strength_never_rises_sample :
    ∃ point ∈ mended.core.storage.points .episodic, ∃ before ∈ woken.core.storage.points .episodic,
      point.Again before ∧ mended.strengthOf halvingConfig point ≤
        woken.strengthOf halvingConfig before := by
  have hmem := List.head_mem mended_episodic
  have hstored : ((mended.core.storage.points .episodic).head mended_episodic).id ∈ woken.ids := by
    decide +kernel
  exact ⟨_, hmem, (strength_never_rises emptySystem_begins firstWake_run brokenSleep_run .episodic
    (by decide) _ hmem).resolve_left (not_not_intro hstored)⟩

/-- The strength of a trace is the product of factors of sleeps since its birth, each at most
once. -/
theorem strength_owed [IsOrderedAddMonoid B] {first : System B V} {moves : List (Move B V)}
    (hbegins : first.Begins) (hrun : Run (System.Moves config) first moves s)
    (hrunning : s.running = true) {kind : Kind}
    (hkind : kind ∈ traceKinds) {point : Point B V} (hpoint : point ∈ s.core.storage.points kind) :
    (s.spent.length : ℤ) = s.core.strength.sleeps ∧ s.core.strength.logGain = s.spent.sum ∧
      ∃ lost : List B, lost.Sublist (s.spent.drop point.born) ∧
        s.core.strengthOf config point.payload = config.scale.exp lost.sum := by
  have hsound := ((System.Sound.of_begins hbegins).run hrun).sound
  have hstanding : s.standing = s.core.strength := if_pos hrunning
  obtain ⟨hnonneg, hlength, hgain⟩ := hstanding ▸ hsound.standing
  have hspent : s.spent = s.factors.take s.core.strength.sleeps.toNat := by
    rw [System.spent, hstanding]
  rw [← hspent] at hgain
  obtain ⟨logBase, hlog⟩ :=
    Option.isSome_iff_exists.1 ((hsound.running hrunning).2 kind hkind point hpoint)
  obtain ⟨-, lost, hlost, hsum⟩ := hsound.kept.owed kind hkind point hpoint logBase hlog
  refine ⟨?_, hgain, lost, hlost, ?_⟩
  · rw [hspent, List.length_take, min_eq_left hlength, Int.toNat_of_nonneg hnonneg]
  · have hnonpos : lost.sum ≤ 0 := by
      refine (List.sum_le_card_nsmul lost 0 fun factor hfactor => hsound.nonpos factor ?_).trans
        (nsmul_zero _).le
      exact List.mem_of_mem_take (List.mem_of_mem_drop (hlost.subset hfactor))
    unfold Core.strengthOf Core.strengthAt
    rw [hlog, hgain, ← min_eq_right hnonpos, ← hsum]

theorem strength_owed_sample :
    ∃ point ∈ mended.core.storage.points .episodic,
      (mended.spent.length : ℤ) = mended.core.strength.sleeps ∧
        mended.core.strength.logGain = mended.spent.sum ∧
        ∃ lost : List (Additive {q : ℚ // 0 < q}), lost.Sublist (mended.spent.drop point.born) ∧
          mended.core.strengthOf halvingConfig point.payload =
            halvingConfig.scale.exp lost.sum := by
  have hmem := List.head_mem mended_episodic
  exact ⟨_, hmem, strength_owed emptySystem_begins (firstWake_run.append brokenSleep_run)
    (by decide +kernel) (show Kind.episodic ∈ traceKinds by decide) hmem⟩

end Sleeping

end Kaine.EpisodicMemory
