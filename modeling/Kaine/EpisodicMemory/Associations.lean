import Kaine.EpisodicMemory.Types
import Kaine.Lib.Ranking
import Mathlib.Data.String.Basic

/-! References to traces, and the index of the links between them and of their schema nodes
(`kaine/modules/episodic_memory/associations.py`). The tables of the association index, the cap on
links and the choice of pairs (`kaine/modules/episodic_memory/associations.py`). -/
namespace Kaine.EpisodicMemory
open Ranking

def Kind.name : Kind → String
  | .episodic => "episodic"
  | .semantic => "semantic"
  | .procedural => "procedural"
  | .links => "links"
  | .schemas => "schemas"

/-- The trace collection of a name. -/
def traceKindNamed (name : String) : Option Kind := traceKinds.find? (·.name = name)

/-- The text without any occurrence of a pattern; `skip` characters of the last one are still to
go. -/
def removeAll (pattern : List Char) : (skip : ℕ) → List Char → List Char
  | _, [] => []
  | skip + 1, _ :: cs => removeAll pattern skip cs
  | 0, c :: cs =>
    if pattern.isPrefixOf (c :: cs) then removeAll pattern (pattern.length - 1) cs
    else c :: removeAll pattern 0 cs

/-- `str.strip` of the characters. -/
def stripOf (chars cs : List Char) : List Char :=
  ((cs.dropWhile (· ∈ chars)).reverse.dropWhile (· ∈ chars)).reverse

def isHexDigit (c : Char) : Bool := c.isDigit || ('a' ≤ c && c ≤ 'f') || ('A' ≤ c && c ≤ 'F')

/-- `uuid.UUID(s).hex`, none where it raises: 32 hexadecimal digits, where braces, hyphens and a URN
prefix are optional. -/
def uuidHex (s : String) : Option String :=
  let plain := removeAll "uuid:".toList 0 (removeAll "urn:".toList 0 s.toList)
  let digits := (stripOf ['{', '}'] plain).filter (· ≠ '-')
  if digits.length = 32 ∧ digits.all isHexDigit then some (String.ofList (digits.map Char.toLower))
    else none

/-- `str(uuid.UUID(hex=hex))`. -/
def dashed (hex : String) : String :=
  let cs := hex.toList
  String.ofList (cs.take 8 ++ '-' :: (cs.drop 8).take 4 ++ '-' :: (cs.drop 12).take 4 ++
    '-' :: (cs.drop 16).take 4 ++ '-' :: cs.drop 20)

def pointKey (pointId : String) : String := (uuidHex pointId).getD pointId

/-- `_id_forms`. -/
def idForms (pointId : String) : List String :=
  pointId :: (match uuidHex pointId with | some hex => [hex, dashed hex] | none => [])

def traceRef (kind : Kind) (pointId : String) : String := kind.name ++ ":" ++ pointKey pointId

/-- The kind and the key of a reference, none where it raises. -/
def splitRef (ref : String) : Option (String × String) :=
  match ref.toList.span (· ≠ ':') with
  | (kind, _ :: key) =>
    if kind = [] ∨ key = [] then none else some (String.ofList kind, String.ofList key)
  | (_, []) => none

variable {B : Type*}

/-- The partner of `ref`, a member of the link. -/
def Link.other (link : Link B) (ref : String) : String := if ref = link.a then link.b else link.a

def Link.joins (link : Link B) (ref : String) : Bool := link.a = ref || link.b = ref

namespace AssociationIndex

/-- `AssociationIndex.__bool__`. -/
def active (index : AssociationIndex B) : Bool := !index.links.isEmpty || !index.nodes.isEmpty

def linksOf (index : AssociationIndex B) (ref : String) : List (Link B) :=
  (index.links.filter (·.joins ref)).insertionSort fun l m => l.id ≤ m.id

def degree (index : AssociationIndex B) (ref : String) : ℕ := (index.linksOf ref).length

def partners [Neg B] [LinearOrder B] (index : AssociationIndex B) (ref : String) : List String :=
  let key (link : Link B) := toLex (-link.logBase, toLex (-link.entityTime, link.other ref))
  ((index.linksOf ref).insertionSort fun l m => key l ≤ key m).map (·.other ref)

def nodeOf (index : AssociationIndex B) (center : String) : Option (Node B) :=
  index.nodes.find? (·.center = center)

def nodeById (index : AssociationIndex B) (id : String) : Option (Node B) :=
  index.nodes.find? (·.id = pointKey id)

end AssociationIndex

theorem span_append {p : Char → Bool} {front back : List Char} {c : Char}
    (hfront : ∀ d ∈ front, p d = true) (hc : p c = false) :
    (front ++ c :: back).span p = (front, c :: back) := by
  rw [List.span_eq_takeWhile_dropWhile, List.takeWhile_append_of_pos hfront,
    List.dropWhile_append_of_pos hfront, List.takeWhile_cons_of_neg (by simp [hc]),
    List.dropWhile_cons_of_neg (by simp [hc]), List.append_nil]

theorem splitRef_traceRef (kind : Kind) (id : String) :
    splitRef (traceRef kind id) = if pointKey id = "" then none
      else some (kind.name, pointKey id) := by
  have hcolon : ∀ d ∈ kind.name.toList, (decide (d ≠ ':')) = true := by
    refine List.all_eq_true.mp ?_
    cases kind <;> decide
  have hlist : (traceRef kind id).toList = kind.name.toList ++ ':' :: (pointKey id).toList := by
    simp [traceRef]
  have hkind : kind.name.toList ≠ [] := by
    cases kind <;> decide
  unfold splitRef
  rw [hlist, span_append hcolon (by decide)]
  simp [hkind]

/-- The index as it is kept: the links of each reference beside the link table, the center of each
node id beside the node table. -/
structure AssociationTables (B : Type*) where
  links : List (String × Link B) := []
  nodes : List (String × Node B) := []
  adj : List (String × List String) := []
  nodeIdToCenter : List (String × String) := []

/-- The set of a reference with a link more. -/
def join (linkId : String) (adj : List (String × List String)) (ref : String) :
    List (String × List String) :=
  let ids := (adj.lookup ref).getD []
  Assoc.assign adj ref (if linkId ∈ ids then ids else ids ++ [linkId])

/-- The set of a reference without a link: an empty one goes. -/
def discard (linkId : String) (adj : List (String × List String)) (ref : String) :
    List (String × List String) :=
  match adj.lookup ref with
  | none => adj
  | some ids =>
    if ids.filter (· ≠ linkId) = [] then Assoc.remove adj ref
    else Assoc.assign adj ref (ids.filter (· ≠ linkId))

namespace AssociationTables

def removeLink (index : AssociationTables B) (linkId : String) :
    Option (Link B) × AssociationTables B :=
  match index.links.lookup linkId with
  | none => (none, index)
  | some link =>
    (some link,
      { index with
        links := Assoc.remove index.links linkId
        adj := [link.a, link.b].foldl (discard linkId) index.adj })

def addLink (index : AssociationTables B) (link : Link B) : AssociationTables B :=
  let index := if (index.links.lookup link.id).isSome then (index.removeLink link.id).2 else index
  { index with
    links := Assoc.assign index.links link.id link
    adj := [link.a, link.b].foldl (join link.id) index.adj }

/-- The ids of the links of a reference. -/
def idsOf (index : AssociationTables B) (ref : String) : List String :=
  (index.adj.lookup ref).getD []

/-- None is a `KeyError`. -/
def linksOf (index : AssociationTables B) (ref : String) : Option (List (Link B)) :=
  ((index.idsOf ref).mapM fun id => index.links.lookup id).map fun links =>
    links.insertionSort fun l m => l.id ≤ m.id

def degree (index : AssociationTables B) (ref : String) : ℕ := (index.idsOf ref).length

/-- None is a `KeyError`, or the `ValueError` of a link that `ref` is no member of. -/
def partners [Neg B] [LinearOrder B] (index : AssociationTables B) (ref : String) :
    Option (List String) :=
  let key (link : Link B) := toLex (-link.logBase, toLex (-link.entityTime, link.other ref))
  (index.linksOf ref).bind fun links =>
    if links.all (·.joins ref) then some ((links.insertionSort fun l m => key l ≤
      key m).map (·.other ref)) else none

def weakestExcess [LinearOrder B] (index : AssociationTables B) (ref : String) (nLink : ℤ) :
    Option (List (Link B)) :=
  let key (link : Link B) := toLex (link.logBase, toLex (link.entityTime, link.id))
  (index.linksOf ref).map fun links =>
    (links.insertionSort fun l m => key l ≤ key m).take (index.degree ref - nLink).toNat

def setNode (index : AssociationTables B) (node : Node B) : AssociationTables B :=
  { index with
    nodes := Assoc.assign index.nodes node.center node
    nodeIdToCenter := Assoc.assign index.nodeIdToCenter node.id node.center }

def removeNode (index : AssociationTables B) (center : String) :
    Option (Node B) × AssociationTables B :=
  match index.nodes.lookup center with
  | none => (none, index)
  | some node =>
    (some node,
      { index with
        nodes := Assoc.remove index.nodes center
        nodeIdToCenter := Assoc.remove index.nodeIdToCenter node.id })

def nodeOf (index : AssociationTables B) (center : String) : Option (Node B) :=
  index.nodes.lookup center

def nodeById (index : AssociationTables B) (nodeId : String) : Option (Node B) :=
  (index.nodeIdToCenter.lookup (pointKey nodeId)).bind fun center => index.nodes.lookup center

/-- The turn of a reference: what it drops is settled before the first link goes. -/
def capRef [LinearOrder B] (nLink : ℤ) (s : List (Link B) × AssociationTables B) (ref : String) :
    Option (List (Link B) × AssociationTables B) :=
  (s.2.weakestExcess ref nLink).map fun excess =>
    (s.1 ++ excess, excess.foldl (fun index link => (index.removeLink link.id).2) s.2)

/-- `cap_links`: the removed links and the index that is left. -/
def capLinks [LinearOrder B] (index : AssociationTables B) (refs : List String) (nLink : ℤ) :
    Option (List (Link B) × AssociationTables B) :=
  (refs.dedup.insertionSort (· ≤ ·)).foldlM (capRef nLink) ([], index)

end AssociationTables

inductive IndexOp (B : Type*) where
  | addLink (link : Link B)
  | removeLink (linkId : String)
  | setNode (node : Node B)
  | removeNode (center : String)

def IndexOp.perform (index : AssociationTables B) : IndexOp B → AssociationTables B
  | .addLink link => index.addLink link
  | .removeLink linkId => (index.removeLink linkId).2
  | .setNode node => index.setNode node
  | .removeNode center => (index.removeNode center).2

/-- The index after a sequence of changes. -/
def indexAfter (ops : List (IndexOp B)) : AssociationTables B := ops.foldl IndexOp.perform {}

/-- A pair of references and their similarity. -/
structure Candidate (S : Type*) where
  qRef : String
  oldRef : String
  sim : S
  deriving DecidableEq

variable {S : Type*}

/-- `tuple(sorted((q_ref, old_ref)))`. -/
def Candidate.key (c : Candidate S) : String × String :=
  if c.oldRef < c.qRef then (c.oldRef, c.qRef) else (c.qRef, c.oldRef)

/-- The best candidates so far, one for each key, with one more. -/
def keepBest [LinearOrder S] : List (Candidate S) → Candidate S → List (Candidate S)
  | [], c => [c]
  | current :: rest, c =>
    if current.key = c.key then (if current.sim < c.sim then c else current) :: rest
    else current :: keepBest rest c

/-- None is the `ValueError`. -/
def selectPairs [LinearOrder S] (candidates : List (Candidate S)) (nPair : ℤ) :
    Option (List (Candidate S)) :=
  let key (c : Candidate S) := toLex (OrderDual.toDual c.sim, toLex (c.qRef, c.oldRef))
  if nPair < 0 then none
  else
    some (((candidates.foldl keepBest []).insertionSort fun c c' => key c ≤ key c').take
      nPair.toNat)

end Kaine.EpisodicMemory
