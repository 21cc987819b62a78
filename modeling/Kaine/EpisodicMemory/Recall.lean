import Kaine.EpisodicMemory.Associations
import Kaine.EpisodicMemory.Buffer

/-! Recall: the search windows that widen until the ranking is settled, and what is added to it
(`kaine/modules/episodic_memory/memory.py`). -/
namespace Kaine.EpisodicMemory
open Py Ranking

/-- `_RECALL_SEARCH_CAP`. -/
def recallSearchCap : ℕ := 4096

structure Hit (B V : Type*) where
  point : Point B V
  score : V
deriving DecidableEq

/-- What a search rests on: the square root, and the order in which the storage meets the points of
a collection, in which those of one similarity stay. -/
structure Backend (B V : Type*) where
  sqrt : V → V
  visit : Kind → List V → List (Point B V) → List (Point B V)
  visit_perm (kind : Kind) (query : List V)
    (points : List (Point B V)) : (visit kind query points).Perm points

/-- `InMemoryStorage`. -/
def Backend.inMemory (B : Type*) {V : Type*} (sqrt : V → V) : Backend B V where
  sqrt := sqrt
  visit _ _ points := points
  visit_perm _ _ _ := .rfl

/-- What a recall returns: a trace, a schema node with the text of its center and its members, or an
entry of the short-term buffer. -/
inductive Recollection (B V : Type*)
  | trace (kind : Kind) (point : Point B V)
  | node (node : Node B) (text : String) (members : List String)
  | shortTerm (index : ℕ) (memory : StoredMemory)
deriving DecidableEq

structure RecalledMemory (B V : Type*) where
  source : Recollection B V
  score : V
  similarity : V
  strength : V
deriving DecidableEq

def RecalledMemory.pointId {B V : Type*} (r : RecalledMemory B V) : String :=
  match r.source with
  | .trace _ point => point.id
  | .node node _ _ => node.id
  | .shortTerm index _ => s!"short_term:{index}"

/-- `same_space`. -/
def sameSpace (a b : Dict) : Bool :=
  ["model_id", "dim", "pooling", "normalized"].all fun key => (a.get key).itemEq (b.get key)

/-- The embedder: the vector of a text, none where it raises, and its space. -/
structure Embedder (V : Type*) where
  encode : String → Option (List V)
  space : Dict

variable {B V : Type} [AddCommGroup B] [LinearOrder B] [Field V] [LinearOrder V]
  (config : Config B V) (backend : Backend B V)

namespace Backend

/-- `_cosine`. -/
def cosine (a b : List V) : V :=
  let normA := backend.sqrt (a.map fun x => x * x).sum
  let normB := backend.sqrt (b.map fun x => x * x).sum
  if normA = 0 ∨ normB = 0 then 0 else (List.zipWith (· * ·) a b).sum / (normA * normB)

/-- `_cosine_similarity`, none where it raises. -/
def cosineSimilarity (a b : List V) : Option V :=
  if a.length = b.length then some (backend.cosine a b) else none

/-- All points of a collection, the most similar first. -/
def ranking (storage : Storage B V) (kind : Kind) (query : List V) : List (Hit B V) :=
  rankBy Hit.score ((backend.visit kind query (storage.points kind)).map fun point =>
    ⟨point, backend.cosine query point.vector⟩)

def search (storage : Storage B V) (kind : Kind) (query : List V) (limit : ℕ) : List (Hit B V) :=
  (backend.ranking storage kind query).take limit

end Backend

/-- `get_points` of the collection of a name, none where no collection has it; the buffer is not
stored. -/
def Storage.getPoints (storage : Storage B V) (name : String) (ids : List String) :
    Option (List (Point B V)) :=
  if name = "short_term" then some []
  else (traceKindNamed name).map fun kind =>
    ((storage.points kind).filter fun point => point.id ∈ ids.flatMap idForms).pwFilter
      (·.id ≠ ·.id)

namespace Core

/-- `_strength`, the weight of a link and the strength of a node. -/
def strengthAt (core : Core B V) (logBase : B) : V :=
  config.scale.exp (min 0 (logBase + core.strength.logGain))

def strengthOf (core : Core B V) (payload : Payload B) : V :=
  match payload.logBase with
  | none => 1
  | some logBase => core.strengthAt config logBase

/-- The `scored` of one window: what is similar at all, by strength and similarity. -/
def scored (core : Core B V) (kind : Kind) (hits : List (Hit B V)) : List (RecalledMemory B V) :=
  let entityTime (r : RecalledMemory B V) : ℚ :=
    match r.source with
    | .trace _ point => point.payload.entityTime
    | _ => 0
  rankBy (fun r => toLex (r.score, toLex (r.similarity, entityTime r)))
    ((hits.filter (0 < ·.score)).map fun hit =>
      let strength := core.strengthOf config hit.point.payload
      ⟨.trace kind hit.point, strength * hit.score, hit.score, strength⟩)

/-- Whether the window of the `m` most similar of `count` traces settles the first `k`. -/
def settled (k count m : ℕ) (hits : List (Hit B V)) (scored : List (RecalledMemory B V)) : Bool :=
  let floor := ((hits.map (·.score)).min?).getD 0
  hits.length < m || decide (floor ≤ 0) || (scored[k - 1]?).any (floor ≤ ·.score) || count ≤ m

/-- The loop of `recall`; none where the fuel runs out first. -/
def rankTraces (core : Core B V) (kind : Kind) (query : List V) (k : ℕ) :
    (fuel m : ℕ) → Option (List (RecalledMemory B V))
  | 0, _ => none
  | fuel + 1, m =>
    let count := (core.storage.points kind).length
    let hits := backend.search core.storage kind query m
    let scored := core.scored config kind hits
    if settled k count m hits scored || recallSearchCap ≤ m then some scored
    else rankTraces core kind query k fuel (min (m * 8) (min count recallSearchCap))

/-- The ranking of the last window, from the first window of `recall` on. -/
def rankedTraces (core : Core B V) (kind : Kind) (query : List V) (k : ℕ) :
    Option (List (RecalledMemory B V)) :=
  let count := (core.storage.points kind).length
  core.rankTraces config backend kind query k recallSearchCap
    (min (4 * k) (min (max count 1) recallSearchCap))

/-- The similar schema nodes of the kind, with their products. -/
def nodeEntries (core : Core B V) (kind : Kind) (query : List V) : List (RecalledMemory B V) :=
  let centered (node : Node B) : Bool := (splitRef node.center).any (·.1 = kind.name)
  if core.assoc.nodes.any centered then
    ((backend.search core.storage .schemas query core.assoc.nodes.length).filter
      (0 < ·.score)).filterMap fun hit =>
      ((core.assoc.nodeById hit.point.id).filter centered).map fun node =>
        let strength := core.strengthAt config node.logBase
        ⟨.node node "" [], strength * hit.score, hit.score, strength⟩
  else []

/-- The node's result, once it is kept. -/
def describeNode (core : Core B V) (kind : Kind) (r : RecalledMemory B V) :
    Option (RecalledMemory B V) :=
  match r.source with
  | .node node _ _ => do
    let (_, centerKey) ← splitRef node.center
    let centers ← core.storage.getPoints kind.name [centerKey]
    let members ← (core.assoc.partners node.center).mapM fun ref => (splitRef ref).map (·.2)
    return { r with source := .node node ((centers.head?.map (·.text)).getD "") members }
  | _ => some r

/-- The partners of the kept traces that are not kept themselves. -/
def queuePartners (core : Core B V) (kind : Kind) (kept : List (RecalledMemory B V)) :
    Option (List (String × String × String)) :=
  let keptKeys := kept.map fun r => pointKey r.pointId
  let refs := kept.flatMap fun r =>
    match r.source with
    | .trace _ point => core.assoc.partners (traceRef kind point.id)
    | _ => []
  refs.foldlM (fun queue ref => do
    let (name, key) ← splitRef ref
    return if key ∈ keptKeys ∨ key ∈ queue.map (·.2.2) then queue
      else queue ++ [(ref, name, key)]) []

/-- The result for one partner; a partner that is not stored has none. -/
def recallPartner (core : Core B V) (query : List V) (queue : List (String × String × String)) :
    String × String × String → Option (Option (RecalledMemory B V))
  | (ref, name, _) => do
    let keys := (queue.filter (·.2.1 = name)).map (·.2.2)
    let points ← core.storage.getPoints name keys
    match traceKindNamed name with
    | none => return none
    | some kind =>
      -- Of the fetched points with one reference the last is kept.
      match points.reverse.find? (traceRef kind ·.id = ref) with
      | none => return none
      | some point =>
        let similarity ← backend.cosineSimilarity query point.vector
        let strength := core.strengthOf config point.payload
        return some ⟨.trace kind point, strength * similarity, similarity, strength⟩

/-- The traces and the nodes in one ranking; of equals the traces come first. -/
def mergeNodes (core : Core B V) (kind : Kind) (query : List V)
    (ranked : List (RecalledMemory B V)) : List (RecalledMemory B V) :=
  let order (r : RecalledMemory B V) : ℤ :=
    match r.source with
    | .node _ _ _ => -1
    | _ => 0
  rankBy (fun r => toLex (r.score, toLex (r.similarity, order r)))
    (ranked ++ core.nodeEntries config backend kind query)

/-- `_recall_associations`, none where it raises. -/
def recallAssociations (core : Core B V) (kind : Kind) (query : List V) (k : ℕ)
    (ranked : List (RecalledMemory B V)) : Option (List (RecalledMemory B V)) := do
  let kept ← ((core.mergeNodes config backend kind query ranked).take k).mapM
    (core.describeNode kind)
  let queue ← core.queuePartners kind kept
  let partners ← queue.mapM (core.recallPartner config backend query queue)
  return kept ++ partners.reduceOption

/-- The embedding of a buffered entry: the one kept of it, where it is of the embedder's space. -/
def slotVector (embedder : Embedder V) (memory : StoredMemory) :
    Option (Dict × List V) → Option (List V)
  | some (space, vector) =>
    if sameSpace space embedder.space then some vector else embedder.encode memory.text
  | none => embedder.encode memory.text

/-- `_short_term_candidates`: those older than the window, and the embeddings after it. -/
def shortTermCandidates (core : Core B V) (embedder : Embedder V) (query : List V)
    (now exclude : ℚ) : Option (List (RecalledMemory B V) × Core B V) := do
  let core := core.rebuildEmbeddingsIfDesynced
  let slots ← (core.shortTerm.zip core.shortTermEmbeddings).mapM fun (memory, slot) =>
    if now - memory.entityTime < exclude then some (none, slot)
    else (slotVector embedder memory slot).map fun vector =>
      (some vector,
        some ((slot.filter (sameSpace ·.1 embedder.space)).getD (embedder.space, vector)))
  let scores ← slots.mapM fun (vector, _) => vector.elim (some none) fun v =>
    (backend.cosineSimilarity query v).map some
  let candidates := (core.shortTerm.zip scores).zipIdx.filterMap fun ((memory, score), index) =>
    (score.filter (0 < ·)).map fun score => ⟨.shortTerm index memory, score, score, 1⟩
  return (candidates, { core with shortTermEmbeddings := slots.map (·.2) })

/-- What `recall` finds in a collection. -/
def recallStored (core : Core B V) (kind : Kind) (query : List V) (k : ℕ) :
    Option (List (RecalledMemory B V)) :=
  if k = 0 then some []
  else (core.rankedTraces config backend kind query k).bind fun ranked =>
    if core.assoc.active then core.recallAssociations config backend kind query k (ranked.take k)
    else some (ranked.take k)

/-- What `recall` adds of the buffer. -/
def mergeShortTerm (core : Core B V) (embedder : Embedder V) (query : List V) (k : ℕ)
    (now exclude : ℚ) (results : List (RecalledMemory B V)) :
    Option (List (RecalledMemory B V) × Core B V) :=
  if 0 < exclude ∧ core.shortTerm ≠ [] then
    (core.shortTermCandidates backend embedder query now exclude).map fun (candidates, core) =>
      if candidates = [] then (results, core)
      else ((rankBy (fun r => toLex (r.score, r.similarity)) (results ++ candidates)).take k, core)
  else some (results, core)

/-- `recall` of a persisted collection, none where it raises. -/
def «recall» (core : Core B V) (embedder : Embedder V) (queryText : String) (k : ℕ) (kind : Kind)
    (now exclude : ℚ) : Option (List (RecalledMemory B V) × Core B V) := do
  let query ← embedder.encode queryText
  let results ← core.recallStored config backend kind query k
  core.mergeShortTerm backend embedder query k now exclude results

end Core

/-- Whether a trace is from before the wake, and inside the similarity band. -/
def Hit.inBand (params : AssociationParams V) (wakeSleep : ℤ) (hit : Hit B V) : Bool :=
  params.simMin ≤ hit.score && decide (hit.score < params.simDup) &&
    hit.point.payload.bornSleep.any (· < wakeSleep)

/-- The pass of `_band_neighbours` over the hits of a window: what it has found, and whether it
returns. -/
def scanBand (params : AssociationParams V) (wakeSleep : ℤ) :
    (hits results : List (Hit B V)) → List (Hit B V) × Bool
  | [], results => (results, false)
  | hit :: hits, results =>
    if hit.score < params.simMin then (results, true)
    else if params.simDup ≤ hit.score then scanBand params wakeSleep hits results
    else if hit.point.payload.bornSleep.all (wakeSleep ≤ ·)
      then scanBand params wakeSleep hits results
    else if params.nPair ≤ (results ++ [hit]).length then (results ++ [hit], true)
    else scanBand params wakeSleep hits (results ++ [hit])

/-- The loop of `_band_neighbours`; none where the fuel runs out first. -/
def Core.bandWindow (core : Core B V) (kind : Kind) (query : List V) (wakeSleep : ℤ)
    (params : AssociationParams V) : (fuel m : ℕ) → Option (List (Hit B V))
  | 0, _ => none
  | fuel + 1, m =>
    let count := (core.storage.points kind).length
    let hits := backend.search core.storage kind query m
    let found := scanBand params wakeSleep hits []
    if found.2 || hits.length < m || count ≤ m || recallSearchCap ≤ m then some found.1
    else bandWindow core kind query wakeSleep params fuel (min (m * 8) (min count recallSearchCap))

/-- `_band_neighbours`. -/
def Core.bandNeighbours (core : Core B V) (kind : Kind) (query : List V) (wakeSleep : ℤ)
    (params : AssociationParams V) : Option (List (String × V)) :=
  let count := (core.storage.points kind).length
  if kind ∉ traceKinds ∨ count = 0 then some []
  else
    let window := min (max (4 * params.nPair) 32) (min count recallSearchCap)
    (core.bandWindow backend kind query wakeSleep params recallSearchCap window).map
      (List.map fun hit => (traceRef kind hit.point.id, hit.score))

end Kaine.EpisodicMemory
