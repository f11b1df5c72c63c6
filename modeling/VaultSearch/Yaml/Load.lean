import VaultSearch.Yaml.Node
import VaultSearch.Yaml.Value

namespace VaultSearch.Yaml

open Text

namespace Graph

def node (g : Graph) (id : NodeId) : Node := g.getD id ⟨.other, .scalar []⟩

def pairs (g : Graph) (id : NodeId) : List (NodeId × NodeId) :=
  match (g.node id).content with
  | .mapping ps => ps
  | _ => []

def setPairs (g : Graph) (id : NodeId) (ps : List (NodeId × NodeId)) : Graph :=
  g.setIfInBounds id ⟨(g.node id).tag, .mapping ps⟩

def isMapping (g : Graph) (id : NodeId) : Bool :=
  match (g.node id).content with
  | .mapping _ => true
  | _ => false

def pairCount (g : Graph) : Nat := (g.toList.map fun n => match n.content with
  | .mapping ps => ps.length
  | _ => 0).foldl (· + ·) 0

def plainKeys (g : Graph) (id : NodeId) : Graph :=
  (g.pairs id).foldl (fun g (k, _) =>
    let n := g.node k
    if n.tag = .value then g.setIfInBounds k ⟨.str, n.content⟩ else g) g

def firstMerge (g : Graph) : List (NodeId × NodeId) → Option (NodeId × List (NodeId × NodeId))
  | [] => none
  | (k, v) :: ps =>
    if (g.node k).tag = .merge then some (v, ps)
    else (g.firstMerge ps).map fun (target, rest) => (target, (k, v) :: rest)

/-- Replaces merges by the pairs that they merge in, in front of the other pairs. `merged` are those
found so far. -/
def flattenFrom : Nat → Graph → NodeId → List (NodeId × NodeId) → Except Failure Graph
  | 0, _, _, _ => .error .malformed
  | n + 1, g, id, merged => do
    let g := g.plainKeys id
    match g.firstMerge (g.pairs id) with
    | none => .ok (g.setPairs id (merged ++ g.pairs id))
    | some (target, rest) =>
      let g := g.setPairs id rest
      match (g.node target).content with
      | .scalar _ => .error .malformed
      | .mapping _ =>
        let g ← flattenFrom n g target []
        flattenFrom n g id (merged ++ g.pairs target)
      | .sequence items =>
        let (g, lists) ← items.foldlM (fun (g, lists) item =>
          if g.isMapping item then (flattenFrom n g item []).map fun g => (g, g.pairs item :: lists)
          else .error .malformed) (g, [])
        flattenFrom n g id (merged ++ lists.flatten)

def flatten (g : Graph) (id : NodeId) : Except Failure Graph := flattenFrom (g.pairCount + 1) g id []

/-- The text of a scalar; a mapping gives that of its equals sign. -/
def scalarText : Nat → Graph → NodeId → Except Failure Text
  | 0, _, _ => .error .malformed
  | n + 1, g, id =>
    match (g.node id).content with
    | .scalar t => .ok t
    | .sequence _ => .error .malformed
    | .mapping ps => match ps.find? fun (k, _) => (g.node k).tag = .value with
      | some (_, v) => scalarText n g v
      | none => .error .malformed

end Graph

inductive Part
  | scalar (s : Scalar)
  | list (items : List NodeId)
  | map (entries : List (Scalar × NodeId))
  | set (members : List Scalar)
  | pairs (entries : List (NodeId × NodeId))

/-- The parts found so far, and the collections that are still to be looked into, oldest first. -/
structure Loader where
  graph : Graph
  parts : Array (Option Part)
  queue : List NodeId := []

namespace Loader

def part? (l : Loader) (id : NodeId) : Option Part := l.parts.getD id none

def setPart (l : Loader) (id : NodeId) (p : Part) : Loader :=
  { l with parts := l.parts.setIfInBounds id (some p) }

def isCollection (t : Tag) : Bool :=
  t = .seq || t = .map || t = .set || t = .omap || t = .pairs

/-- Finds the value of a scalar, or puts a collection off. -/
def visit (l : Loader) (id : NodeId) : Except Failure Loader := do
  if (l.part? id).isSome then .ok l
  else
    let tag := (l.graph.node id).tag
    if isCollection tag then .ok { l.setPart id (.list []) with queue := l.queue ++ [id] }
    else if tag = .merge || tag = .value || tag = .other then .error .malformed
    else
      let t ← l.graph.scalarText (l.graph.size + 1) id
      if tag = .timestamp && l.graph.isMapping id then .error .timestampOfMapping
      else (Scalar.ofText id tag t).map fun s => l.setPart id (.scalar s)

def visitAll (l : Loader) (ids : List NodeId) : Except Failure Loader := ids.foldlM visit l

def key? (l : Loader) (id : NodeId) : Except Failure Scalar :=
  match l.part? id with
  | some (.scalar s) => .ok s
  | _ => .error .malformed

def visitEntries : Loader → List (Scalar × NodeId) → List (NodeId × NodeId) →
    Except Failure (Loader × List (Scalar × NodeId))
  | l, es, [] => .ok (l, es)
  | l, es, (k, v) :: ps => do
    let l ← l.visit k
    let s ← l.key? k
    let l ← l.visit v
    visitEntries l (putUnder Scalar.sameKey s v es) ps

def visitPairs : Loader → List NodeId → Except Failure (Loader × List (NodeId × NodeId))
  | l, [] => .ok (l, [])
  | l, id :: ids => do
    match (l.graph.node id).content with
    | .mapping [(k, v)] =>
      let l ← l.visit k
      let l ← l.visit v
      let (l, ps) ← visitPairs l ids
      .ok (l, (k, v) :: ps)
    | _ => .error .malformed

def openMapping (l : Loader) (id : NodeId) : Except Failure (Loader × List (Scalar × NodeId)) := do
  if l.graph.isMapping id then
    let g ← l.graph.flatten id
    visitEntries { l with graph := g } [] (g.pairs id)
  else .error .malformed

def enter (l : Loader) (id : NodeId) : Except Failure Loader := do
  match (l.graph.node id).tag, (l.graph.node id).content with
  | .seq, .sequence items => (l.visitAll items).map (·.setPart id (.list items))
  | .map, _ => (l.openMapping id).map fun (l, es) => l.setPart id (.map es)
  | .set, _ => (l.openMapping id).map fun (l, es) => l.setPart id (.set (es.map Prod.fst))
  | .omap, .sequence items | .pairs, .sequence items =>
    (l.visitPairs items).map fun (l, ps) => l.setPart id (.pairs ps)
  | _, _ => .error .malformed

def run : Nat → Loader → Except Failure Loader
  | 0, l => .ok l
  | n + 1, l =>
    match l.queue with
    | [] => .ok l
    | id :: queue => do run n (← enter { l with queue := queue } id)

def isMap (l : Loader) (id : NodeId) : Bool :=
  match l.part? id with
  | some (.map _) => true
  | _ => false

/-- The label of a pair, which is no node of its own. -/
def tupleLabel (l : Loader) (id : NodeId) (place : Nat) : Nat := l.parts.size * (place + 1) + id

/-- Puts the parts together. A collection in `path` encloses the place. -/
def value : Nat → Loader → List NodeId → NodeId → Value
  | 0, _, _, _ => .null
  | n + 1, l, path, id =>
    if path.elem id then .again (if l.isMap id then .map else .list) id
    else
      let below := value n l (id :: path)
      match l.part? id with
      | none => .null
      | some (.scalar s) => .scalar s
      | some (.list items) => .list (some id) (items.map below)
      | some (.map es) => .map (some id) (es.map fun (k, v) => (.scalar k, below v))
      | some (.set ks) => .set (some id) ks
      | some (.pairs ps) => .list (some id) (ps.mapIdx fun place (k, v) =>
          .tuple (some (l.tupleLabel id place)) (below k) (below v))

end Loader

def load (t : Text) : Except Failure Value := do
  match ← Graph.ofText t with
  | none => .ok .null
  | some (g, root) =>
    let l ← Loader.visit ⟨g, Array.replicate g.size none, []⟩ root
    let l ← Loader.run (g.size + 1) l
    .ok (l.value (l.parts.size + 1) [] root)

end VaultSearch.Yaml
