import Kaine.EpisodicMemory.Buffer
import Kaine.Lib.Transition

/-! No memory is lost between the buffer and the persistent store, where each that leaves the buffer
reaches the store. -/
namespace Kaine.EpisodicMemory
open Py Transition

/-- What a memory is, wherever it is kept. -/
structure Content where
  text : String
  payload : Dict
  affect : Option Dict
  entityTime : ℚ
deriving DecidableEq

def StoredMemory.content (memory : StoredMemory) : Content :=
  ⟨memory.text, unreserved memory.payload, memory.affect.filter (· ≠ []), memory.entityTime⟩

section
variable {B V : Type*}

def Point.content (point : Point B V) : Content :=
  ⟨point.text, point.payload.rest, point.affect, point.payload.entityTime⟩

def Storage.contents (s : Storage B V) (kind : Kind) : Multiset Content :=
  ((s.points kind).map Point.content : List Content)

/-- All traces of the persistent store. -/
def Storage.stored (s : Storage B V) : Multiset Content :=
  s.contents .episodic + s.contents .semantic + s.contents .procedural

def Core.buffered (core : Core B V) : Multiset Content :=
  (core.shortTerm.map StoredMemory.content : List Content)

/-- The process, with what `store` has accepted, what was there before or was written by a call that
raised, and what was pruned. -/
structure Account (B V : Type*) where
  core : Core B V
  accepted : Multiset Content := 0
  strays : Multiset Content
  pruned : Multiset Content := 0

def Account.start (core : Core B V) : Account B V where
  core := core
  strays := core.buffered + core.storage.stored

inductive Event (V : Type*)
  | store (call : Call V) (text : String) (payload affect : Option Dict) (ts entityNow : ℚ)
      (collection : Collection)
  | consolidate (calls : ℕ → Call V)
  | prune (kind : Kind) (ids : List String)

/-- The traces of one collection that a pruning deletes. -/
def Storage.doomed (s : Storage B V) (kind : Kind) (ids : List String) : Multiset Content :=
  if kind ∈ traceKinds then (((s.points kind).filter (·.id ∈ ids)).map Point.content : List Content)
    else 0

/-- Every memory is in one place. -/
def Account.Kept (a : Account B V) : Prop :=
  a.accepted + a.strays = a.core.buffered + a.core.storage.stored + a.pruned

variable {kind : Kind}

theorem points_setPoints (s : Storage B V) (kind : Kind) (points : List (Point B V))
    (other : Kind) : (s.setPoints kind points).points other = if other = kind then points
      else s.points other := by
  simp [Storage.setPoints, Function.update_apply]

theorem points_upsert {s : Storage B V} {point : Point B V}
    (hfresh : ∀ old ∈ s.points kind, old.id ≠ point.id) :
    s.upsert kind point = s.setPoints kind (s.points kind ++ [point]) := by
  unfold Storage.upsert
  rw [if_neg]
  simpa using hfresh

/-- A new trace is added to the stored ones. -/
theorem stored_upsert {s : Storage B V} {point : Point B V} (hkind : kind ∈ traceKinds)
    (hfresh : ∀ old ∈ s.points kind, old.id ≠ point.id) :
    (s.upsert kind point).stored = s.stored + {point.content} := by
  rw [points_upsert hfresh]
  have hcontents (other : Kind) : (s.setPoints kind (s.points kind ++ [point])).contents other =
      s.contents other + if other = kind then {point.content} else 0 := by
    unfold Storage.contents
    rw [points_setPoints]
    split
    · rename_i heq
      rw [heq, List.map_append, ← Multiset.coe_add]
      rfl
    · rw [add_zero]
  unfold Storage.stored
  rw [hcontents, hcontents, hcontents]
  cases kind with
  | episodic | semantic | procedural =>
    simp only [reduceCtorEq, if_true, if_false, add_zero]
    abel
  | links | schemas => simp [traceKinds] at hkind

/-- What a pruning deletes is no longer stored. -/
theorem stored_deletePoints (s : Storage B V) (kind : Kind) (ids : List String) :
    (s.deletePoints kind ids).stored + s.doomed kind ids = s.stored := by
  have hcontents (other : Kind) : (s.deletePoints kind ids).contents other +
      ((if other = kind then ((s.points kind).filter (·.id ∈ ids)).map Point.content
        else [] : List Content) : Multiset Content) =
        s.contents other := by
    unfold Storage.contents Storage.deletePoints
    rw [points_setPoints]
    split
    · rename_i heq
      rw [heq, Multiset.coe_add, ← List.map_append]
      refine Multiset.coe_eq_coe.2 (List.Perm.map _ ?_)
      simpa using (List.perm_append_comm.trans
        (List.filter_append_perm (·.id ∈ ids) (s.points kind)))
    · rw [Multiset.coe_nil, add_zero]
  unfold Storage.stored Storage.doomed
  rw [← hcontents .episodic, ← hcontents .semantic, ← hcontents .procedural]
  cases kind with
  | episodic | semantic | procedural =>
    simp only [traceKinds, List.mem_cons, reduceCtorEq, true_or, or_true, if_true, if_false,
      Multiset.coe_nil, add_zero]
    abel
  | links | schemas => simp [traceKinds]

theorem shortTerm_rebuild (core : Core B V) :
    core.rebuildEmbeddingsIfDesynced.shortTerm = core.shortTerm ∧
      core.rebuildEmbeddingsIfDesynced.storage = core.storage ∧
      core.rebuildEmbeddingsIfDesynced.strength = core.strength ∧
      core.rebuildEmbeddingsIfDesynced.wakeBytes = core.wakeBytes := by
  unfold Core.rebuildEmbeddingsIfDesynced
  split <;> exact ⟨rfl, rfl, rfl, rfl⟩

theorem buffered_append (core : Core B V) (memory : StoredMemory) :
    (core.append memory).buffered = core.buffered + {memory.content} := by
  unfold Core.buffered Core.append
  rw [List.map_append, ← Multiset.coe_add]
  rfl

end

variable {B V : Type*} [AddCommGroup B] [LinearOrder B] [Field V] [LinearOrder V]
  {config : Config B V} {core core' : Core B V} {call : Call V} {memory : StoredMemory}
  {kind : Kind}

/-- The memory of a persist is written: it is embedded, not refused, and its upsert is done. -/
def Call.Reaches (config : Config B V) (core : Core B V) (call : Call V) : Prop :=
  call.vector.isSome = true ∧ core.refuses config = false ∧ call.upsert.done = true

instance (config : Config B V) (core : Core B V) (call : Call V) :
    Decidable (call.Reaches config core) :=
  inferInstanceAs (Decidable (_ ∧ _))

def Account.act (config : Config B V) (a : Account B V) : Event V → Account B V
  | .store call text payload affect ts entityNow collection =>
    let memory := Core.memoryOf text payload affect ts entityNow
    let (answer, core) := a.core.store config call memory collection
    match collection, answer with
    | .shortTerm, .ok _ | .persisted _ _, .ok (some _) =>
      { a with core := core, accepted := a.accepted + {memory.content} }
    | .persisted _ _, .error _ =>
      { a with
        core := core
        strays := a.strays + if call.Reaches config a.core then {memory.content} else 0 }
    | .shortTerm, .error _ | .persisted _ _, .ok none => { a with core := core }
  | .consolidate calls => { a with core := (a.core.consolidateNow config calls).2 }
  | .prune kind ids =>
    let storage := a.core.storage.deletePoints kind ids
    { a with
      core := { a.core with storage := storage }
      pruned := a.pruned + a.core.storage.doomed kind ids }

/-- Each entry that `consolidate_now` takes out reaches the store. -/
def Drains (config : Config B V) (calls : ℕ → Call V) : List StoredMemory → ℕ → Core B V → Prop
  | [], _, _ => True
  | entry :: entries, moved, core =>
    (calls moved).Reaches config core ∧
      ((calls moved).upsert = .returned →
        Drains config calls entries (moved + 1)
          (core.popLeft.persist config (calls moved) entry .episodic).2)

/-- The condition on a step: each memory that leaves the buffer reaches the store. -/
def Reaching (config : Config B V) (a : Account B V) : Event V → Prop
  | .store call _ _ _ _ _ .shortTerm =>
    config.shortTermCapacity ≤ a.core.shortTerm.length → call.Reaches config a.core
  | .consolidate calls =>
    let core := a.core.rebuildEmbeddingsIfDesynced
    Drains config calls core.shortTerm 0 core
  | _ => True

/-- Minted ids are new. -/
def Minted (a : Account B V) : Event V → Prop
  | .store call .. => ∀ kind, ∀ point ∈ a.core.storage.points kind, point.id ≠ call.id
  | .consolidate calls =>
      (∀ i kind, ∀ point ∈ a.core.storage.points kind, point.id ≠ (calls i).id) ∧
      ∀ i j, (calls i).id = (calls j).id → i = j
  | .prune _ _ => True

/-- Calls as the steps of a run. -/
def Calls (config : Config B V) (a : Account B V) (event : Event V) (a' : Account B V) : Prop :=
  Minted a event ∧ a' = a.act config event

/-- A memory that reaches the store becomes a point of it. -/
theorem persist_reaches (h : call.Reaches config core) (memory : StoredMemory) (kind : Kind) :
    ∃ point : Point B V, point.id = call.id ∧
    point.content = memory.content ∧
    (core.persist config call memory kind).2.storage = core.storage.upsert kind point ∧
    (core.persist config call memory kind).2.shortTerm = core.shortTerm ∧
    ((core.persist config call memory kind).1 = .ok (some call.id) ∧ call.upsert = .returned ∨
      (core.persist config call memory kind).1 = .error .storage ∧ call.upsert ≠ .returned) := by
  obtain ⟨hvector, hrefuses, hdone⟩ := h
  obtain ⟨vector, hvector⟩ := Option.isSome_iff_exists.1 hvector
  refine ⟨⟨call.id, vector, memory.text, core.stamped config memory, memory.affect.filter (· ≠ [])⟩,
    rfl, rfl, ?_⟩
  unfold Core.persist
  rw [hvector]
  dsimp only
  rw [hrefuses, if_neg Bool.false_ne_true, if_pos hdone]
  cases hupsert : call.upsert with
  | returned => exact ⟨rfl, rfl, .inl ⟨rfl, rfl⟩⟩
  | raised written => exact ⟨rfl, rfl, .inr ⟨rfl, by simp⟩⟩

/-- One that does not reach it leaves the store and the buffer alone. -/
theorem persist_misses (h : ¬ call.Reaches config core) (memory : StoredMemory) (kind : Kind) :
    (core.persist config call memory kind).2.storage.points = core.storage.points ∧
    (core.persist config call memory kind).2.shortTerm = core.shortTerm ∧
    ∀ id, (core.persist config call memory kind).1 ≠ .ok (some id) := by
  unfold Core.persist
  cases hvector : call.vector with
  | none => exact ⟨rfl, rfl, by simp⟩
  | some vector =>
    dsimp only
    split
    · unfold Core.writeMeta
      cases hwrite : call.writeMeta with
      | returned => exact ⟨rfl, rfl, by simp⟩
      | raised written =>
        cases written with
        | true => exact ⟨rfl, rfl, by simp⟩
        | false => exact ⟨rfl, rfl, by simp⟩
    · rename_i hrefuses
      have hdone : call.upsert.done = false := by
        by_contra hdone
        exact h ⟨by simp [hvector], by simpa using hrefuses, by simpa using hdone⟩
      cases hupsert : call.upsert with
      | returned => simp [hupsert, Write.done] at hdone
      | raised written =>
        rw [hupsert] at hdone
        rw [hdone]
        exact ⟨rfl, rfl, by simp⟩

/-- What one persist of an entry that has left the buffer comes to. -/
theorem persist_moves (h : call.Reaches config core) (memory : StoredMemory)
    (hfresh : ∀ kind, ∀ point ∈ core.storage.points kind, point.id ≠ call.id) :
    (core.persist config call memory .episodic).2.storage.stored =
      core.storage.stored + {memory.content} ∧
    (core.persist config call memory .episodic).2.shortTerm = core.shortTerm := by
  obtain ⟨point, hid, hcontent, hstorage, hshort, -⟩ := persist_reaches h memory .episodic
  rw [hstorage, stored_upsert (by decide) (by simpa [hid] using hfresh .episodic), hcontent]
  exact ⟨rfl, hshort⟩

/-- The points after a persist are those before, and its own. -/
theorem persist_points (h : call.Reaches config core)
    (hfresh : ∀ kind, ∀ point ∈ core.storage.points kind, point.id ≠ call.id) {other : Kind}
    {point : Point B V}
    (hpoint : point ∈ (core.persist config call memory kind).2.storage.points other) :
    point ∈ core.storage.points other ∨ point.id = call.id := by
  obtain ⟨new, hid, -, hstorage, -⟩ := persist_reaches h memory kind
  rw [hstorage, points_upsert (by simpa [hid] using hfresh kind), points_setPoints] at hpoint
  split at hpoint
  · rename_i heq
    rcases List.mem_append.1 hpoint with hold | hnew
    · exact .inl (heq ▸ hold)
    · rw [List.mem_singleton.1 hnew]
      exact .inr hid
  · exact .inl hpoint

/-- The loop moves its entries, each to one place. -/
theorem drain_keeps {calls : ℕ → Call V} {entries : List StoredMemory} {moved : ℕ}
    (hentries : core.shortTerm = entries)
    (h : Drains config calls entries moved core)
    (hfresh : ∀ i, moved ≤ i → ∀ kind, ∀ point ∈ core.storage.points kind, point.id ≠ (calls i).id)
    (hinjective : ∀ i j, (calls i).id = (calls j).id → i = j)
    (batch : List (String × StoredMemory)) :
    (core.drain config calls entries moved batch).2.2.buffered +
        (core.drain config calls entries moved batch).2.2.storage.stored =
      core.buffered + core.storage.stored := by
  induction entries generalizing core moved batch with
  | nil => rfl
  | cons entry entries ih =>
    obtain ⟨hreaches, hrest⟩ := h
    have hpop : Call.Reaches config core.popLeft (calls moved) := hreaches
    have hmoves := persist_moves hpop entry (hfresh moved le_rfl)
    have hkept : (core.popLeft.persist config (calls moved) entry .episodic).2.buffered +
        (core.popLeft.persist config (calls moved) entry .episodic).2.storage.stored =
          core.buffered + core.storage.stored := by
      have hbuffered : core.buffered = {entry.content} + core.popLeft.buffered := by
        unfold Core.buffered Core.popLeft
        rw [hentries]
        rfl
      have hsame : (core.popLeft.persist config (calls moved) entry .episodic).2.buffered =
          core.popLeft.buffered := by
        unfold Core.buffered
        rw [hmoves.2]
      have hstored : core.popLeft.storage.stored = core.storage.stored := rfl
      rw [hsame, hmoves.1, hbuffered, hstored]
      abel
    obtain ⟨point, -, -, -, -, hanswer⟩ := persist_reaches hpop entry .episodic
    rcases hanswer with ⟨hok, hreturned⟩ | ⟨herror, -⟩
    · have hnext : (core.popLeft.persist config (calls moved) entry .episodic).2.shortTerm =
        entries := by
        rw [hmoves.2]
        simp [Core.popLeft, hentries]
      have hlater (i : ℕ) (hi : moved + 1 ≤ i) (kind : Kind) (point : Point B V)
          (hpoint : point ∈
            (core.popLeft.persist config (calls moved) entry .episodic).2.storage.points kind) :
          point.id ≠ (calls i).id := by
        rcases persist_points hpop (hfresh moved le_rfl) hpoint with hold | hnew
        · exact hfresh i (by omega) kind point hold
        · intro heq
          have hindex := hinjective moved i (hnew.symm.trans heq)
          omega
      have hrun := ih hnext (hrest hreturned) hlater (batch ++ [((calls moved).id, entry)])
      unfold Core.drain
      generalize core.popLeft.persist config (calls moved) entry .episodic = result
        at hok hrun hkept
      obtain ⟨answer, core'⟩ := result
      dsimp only at hok
      subst hok
      exact hrun.trans hkept
    · unfold Core.drain
      generalize core.popLeft.persist config (calls moved) entry .episodic = result at herror hkept
      obtain ⟨answer, core'⟩ := result
      dsimp only at herror
      subst herror
      exact hkept

/-- A memory joins the buffer; where the oldest must leave, it reaches the store. -/
theorem store_shortTerm (h : config.shortTermCapacity ≤ core.shortTerm.length →
      call.Reaches config core)
    (hfresh : ∀ kind, ∀ point ∈ core.storage.points kind, point.id ≠ call.id)
    (memory : StoredMemory) :
    (core.store config call memory .shortTerm).2.buffered +
        (core.store config call memory .shortTerm).2.storage.stored =
      core.buffered + core.storage.stored +
        match (core.store config call memory .shortTerm).1 with
        | .ok _ => {memory.content}
        | .error _ => 0 := by
  obtain ⟨hshort, hstorage, hstrength, hwake⟩ := shortTerm_rebuild core
  have hbuffered : core.rebuildEmbeddingsIfDesynced.buffered = core.buffered := by
    unfold Core.buffered
    rw [hshort]
  have happend : (core.rebuildEmbeddingsIfDesynced.append memory).buffered +
      (core.rebuildEmbeddingsIfDesynced.append memory).storage.stored =
        core.buffered + core.storage.stored + {memory.content} := by
    have hsame : (core.rebuildEmbeddingsIfDesynced.append memory).storage = core.storage := hstorage
    rw [buffered_append, hbuffered, hsame]
    abel
  have hreaches (hfull : config.shortTermCapacity ≤ core.shortTerm.length) :
      Call.Reaches config core.rebuildEmbeddingsIfDesynced.popLeft call := by
    obtain ⟨hvector, hrefuses, hdone⟩ := h hfull
    refine ⟨hvector, ?_, hdone⟩
    rw [← hrefuses]
    unfold Core.refuses Core.storeBytes Core.popLeft
    rw [hstrength, hwake]
  unfold Core.store
  dsimp only
  cases hentries : core.rebuildEmbeddingsIfDesynced.shortTerm with
  | nil => exact happend
  | cons evicted entries =>
    dsimp only
    rw [← hentries, hshort]
    split
    · rename_i hfull
      have hevicted : core.buffered =
          {evicted.content} + core.rebuildEmbeddingsIfDesynced.popLeft.buffered := by
        rw [← hbuffered]
        unfold Core.buffered Core.popLeft
        rw [hentries]
        rfl
      have hmoves := persist_moves (hreaches hfull) evicted
        (by simpa [Core.popLeft, hstorage] using hfresh)
      have hkept : (core.rebuildEmbeddingsIfDesynced.popLeft.persist config call evicted
          .episodic).2.buffered + (core.rebuildEmbeddingsIfDesynced.popLeft.persist config call
            evicted .episodic).2.storage.stored = core.buffered + core.storage.stored := by
        have hsame :
            (core.rebuildEmbeddingsIfDesynced.popLeft.persist config call evicted
              .episodic).2.buffered = core.rebuildEmbeddingsIfDesynced.popLeft.buffered := by
          unfold Core.buffered
          rw [hmoves.2]
        have hstored : core.rebuildEmbeddingsIfDesynced.popLeft.storage = core.storage := hstorage
        rw [hsame, hmoves.1, hevicted, hstored]
        abel
      generalize core.rebuildEmbeddingsIfDesynced.popLeft.persist config call evicted .episodic =
        result at hkept
      obtain ⟨answer, core'⟩ := result
      cases answer with
      | error failure =>
        dsimp only
        rw [add_zero]
        exact hkept
      | ok id =>
        dsimp only
        have hsame : (core'.append memory).storage = core'.storage := rfl
        rw [buffered_append, hsame, ← hkept]
        abel
    · exact happend

/-- A memory goes to a persistent collection, where it reaches it. -/
theorem store_persisted (config : Config B V)
    (hfresh : ∀ kind, ∀ point ∈ core.storage.points kind, point.id ≠ call.id)
    (memory : StoredMemory) (hkind : kind ∈ traceKinds) :
    (core.persist config call memory kind).2.buffered +
        (core.persist config call memory kind).2.storage.stored =
      core.buffered + core.storage.stored + (if call.Reaches config core then {memory.content}
        else 0) ∧
    (∀ id, (core.persist config call memory kind).1 = .ok (some id) → call.Reaches config core) ∧
    ((core.persist config call memory kind).1 = .ok none → ¬ call.Reaches config core) := by
  by_cases hreaches : call.Reaches config core
  · obtain ⟨point, hid, hcontent, hstorage, hshort, hanswer⟩ := persist_reaches hreaches memory kind
    refine ⟨?_, fun _ _ => hreaches, fun hnone => ?_⟩
    · have hbuffered : (core.persist config call memory kind).2.buffered = core.buffered := by
        unfold Core.buffered
        rw [hshort]
      rw [if_pos hreaches, hbuffered, hstorage,
        stored_upsert hkind (by simpa [hid] using hfresh kind), hcontent]
      abel
    · rw [hnone] at hanswer
      simp at hanswer
  · obtain ⟨hpoints, hshort, hanswer⟩ := persist_misses hreaches memory kind
    refine ⟨?_, fun id hid => absurd hid (hanswer id), fun _ => hreaches⟩
    have hbuffered : (core.persist config call memory kind).2.buffered = core.buffered := by
      unfold Core.buffered
      rw [hshort]
    have hstored : (core.persist config call memory kind).2.storage.stored =
      core.storage.stored := by
      unfold Storage.stored Storage.contents
      rw [hpoints]
    rw [if_neg hreaches, hbuffered, hstored, add_zero]

theorem Account.Kept.act {a : Account B V} {event : Event V} (h : a.Kept) (hminted : Minted a event)
    (hreaching : Reaching config a event) : (a.act config event).Kept := by
  unfold Account.Kept at h
  cases event with
  | store call text payload affect ts entityNow collection =>
    generalize hmemory : Core.memoryOf text payload affect ts entityNow = memory
    cases collection with
    | shortTerm =>
      have hstore := store_shortTerm hreaching hminted memory
      simp only [Account.act, hmemory]
      generalize a.core.store config call memory .shortTerm = result at hstore
      obtain ⟨answer, core'⟩ := result
      dsimp only at hstore
      cases answer with
      | ok id =>
        change a.accepted + {memory.content} + a.strays =
          core'.buffered + core'.storage.stored + a.pruned
        rw [hstore, add_right_comm, h]
        abel
      | error failure =>
        change a.accepted + a.strays = core'.buffered + core'.storage.stored + a.pruned
        rw [hstore, h, add_zero]
    | persisted kind hkind =>
      obtain ⟨hstore, hsome, hnone⟩ := store_persisted config hminted memory hkind
      simp only [Account.act, hmemory, Core.store]
      generalize a.core.persist config call memory kind = result at hstore hsome hnone
      obtain ⟨answer, core'⟩ := result
      dsimp only at hstore hsome hnone
      rcases answer with failure | _ | id
      · change a.accepted + (a.strays + if call.Reaches config a.core then {memory.content}
          else 0) = core'.buffered + core'.storage.stored + a.pruned
        rw [hstore, ← add_assoc, h]
        abel
      · change a.accepted + a.strays = core'.buffered + core'.storage.stored + a.pruned
        rw [hstore, if_neg (hnone rfl), h, add_zero]
      · change a.accepted + {memory.content} + a.strays =
          core'.buffered + core'.storage.stored + a.pruned
        rw [hstore, if_pos (hsome id rfl), add_right_comm, h]
        abel
  | consolidate calls =>
    obtain ⟨hshort, hstorage, hstrength, hwake⟩ := shortTerm_rebuild a.core
    obtain ⟨hfresh, hinjective⟩ := hminted
    have hdrain := drain_keeps rfl hreaching (fun i _ => by rw [hstorage]; exact hfresh i)
      hinjective []
    have hbuffered : a.core.rebuildEmbeddingsIfDesynced.buffered = a.core.buffered := by
      unfold Core.buffered
      rw [hshort]
    rw [hbuffered, hstorage] at hdrain
    change a.accepted + a.strays = (a.core.consolidateNow config calls).2.buffered +
      (a.core.consolidateNow config calls).2.storage.stored + a.pruned
    rw [h, ← hdrain]
    rfl
  | prune kind ids =>
    have hdeleted := stored_deletePoints a.core.storage kind ids
    change a.accepted + a.strays = a.core.buffered + (a.core.storage.deletePoints kind ids).stored +
      (a.pruned + a.core.storage.doomed kind ids)
    rw [h, ← hdeleted]
    abel

/-- Over any run in which each memory that leaves the buffer reaches the store, each that was
accepted is in one place: the buffer, the store, or among those that were pruned. -/
theorem memories_kept {core : Core B V} {events : List (Event V)} {a : Account B V}
    (hrun : Run (Guarded (Reaching config) (Calls config)) (.start core) events a) :
    a.accepted + a.strays = a.core.buffered + a.core.storage.stored + a.pruned ∧
      ∀ content ∈ a.accepted,
        content ∈ a.core.buffered ∨ content ∈ a.core.storage.stored ∨ content ∈ a.pruned := by
  have hkept : a.Kept := by
    refine hrun.invariant (P := Account.Kept) ?_ ?_
    · rintro a event a' ⟨hreaching, hminted, rfl⟩ h
      exact h.act hminted hreaching
    · simp [Account.Kept, Account.start]
  refine ⟨hkept, fun content hcontent => ?_⟩
  have hmem : content ∈ a.core.buffered + a.core.storage.stored + a.pruned := by
    rw [← hkept]
    exact Multiset.mem_add.2 (.inl hcontent)
  simpa [or_assoc] using hmem

/-- A buffer for one memory, and records of one byte. -/
def smallConfig : Config (Additive {q : ℚ // 0 < q}) ℚ where
  shortTermCapacity := 1
  budgetBytes := 1
  pruneFloor := 1 / 2
  scale := .rational
  logFactor _ := 0
  association := { simMin := 1 / 2, simDup := 1 }
  recordSize _ _ _ := 1
  capacity_pos := Nat.one_pos
  budget_pos := Int.one_pos
  floor_pos := by norm_num
  floor_lt := by norm_num
  logFactor_nonpos _ := le_rfl

def emptyCore : Core (Additive {q : ℚ // 0 < q}) ℚ where
  storage := ⟨fun _ => [], none⟩
  strength := ⟨0, 0, 0, 0, 0, false, 0, 0⟩

def remember (call : Call ℚ) (text : String) : Event ℚ := .store call text none none 0 0 .shortTerm

def kept (id : String) : Call ℚ := ⟨some [], id, .returned, .returned⟩

/-- The second memory moves the first to the store. -/
theorem memories_kept_evicted :
    let a := ((Account.start emptyCore).act smallConfig (remember (kept "a") "first")).act
      smallConfig (remember (kept "b") "second")
    ∀ content ∈ a.accepted,
      content ∈ a.core.buffered ∨ content ∈ a.core.storage.stored ∨ content ∈ a.pruned := by
  have hrun : Run (Guarded (Reaching smallConfig) (Calls smallConfig)) (.start emptyCore)
      [remember (kept "a") "first", remember (kept "b") "second"]
      (((Account.start emptyCore).act smallConfig (remember (kept "a") "first")).act smallConfig
        (remember (kept "b") "second")) := by
    refine .head ⟨fun hfull => ?_, ?_, rfl⟩ (.head ⟨fun _ => ?_, ?_, rfl⟩ (.refl _))
    · cases hfull
    · intro kind point hpoint
      cases hpoint
    · decide
    · intro kind point hpoint
      cases hpoint
  exact (memories_kept hrun).2

/-- The embedder fails while the first memory moves: neither it nor the second is anywhere. -/
theorem evicted_memory_lost :
    let a := ((Account.start emptyCore).act smallConfig (remember (kept "a") "first")).act
      smallConfig (remember ⟨none, "b", .returned, .returned⟩ "second")
    a.accepted ≠ 0 ∧ a.core.buffered = 0 ∧ a.core.storage.stored = 0 ∧ a.pruned = 0 := by
  decide

end Kaine.EpisodicMemory
