import FlowGraph.Graph.Basic

/-!
Edits of a graph. Every edit gives its outcome together with the graph it leaves behind, since an
edit that fails halfway leaves the part it has done. A frozen graph refuses edits through the
graph, and a frozen block refuses edits of its own.
-/
namespace FlowGraph

namespace Graph

/-- Replaces one block; nothing changes when there is no such block or the replacement fails. -/
def updateBlock (g : Graph) (b : Int) (f : Block → Except Fault Block) : Except Fault Graph :=
  match Position.resolve? g.blocks.length b with
  | none => .error (.ofPosition b .noBlock)
  | some p =>
    match g.blocks[p]? with
    | none => .error .noBlock
    | some block =>
      match f block with
      | .ok changed => .ok { g with blocks := g.blocks.set p changed }
      | .error fault => .error fault

/-- The outcome of a change that is done as a whole or not at all. -/
def commit (g : Graph) : Except Fault Graph → Except Fault Unit × Graph
  | .ok changed => (.ok (), changed)
  | .error fault => (.error fault, g)

/-- Adds an edge to the list of edges, then to its source's list, then to its target's. -/
def addEdge (g : Graph) (source target : Int) (kind : EdgeKind) : Except Fault Edge × Graph :=
  if g.frozen then (.error (.failure .frozenGraph), g)
  else
    let edge : Edge := ⟨g.edges.length, source, target, kind⟩
    let listed := { g with edges := g.edges ++ [edge] }
    match listed.updateBlock source (Block.append .outgoing edge.id) with
    | .error fault => (.error fault, listed)
    | .ok left =>
      match left.updateBlock target (Block.append .incoming edge.id) with
      | .error fault => (.error fault, left)
      | .ok joined => (.ok edge, joined)

def markTerminal (g : Graph) (b : Int) : Except Fault Unit × Graph :=
  if g.frozen then (.error (.failure .frozenGraph), g)
  else g.commit (g.updateBlock b (Block.assign (.terminal true)))

/-- Freezes blocks from the front, up to the first that is frozen already. -/
def freezeBlocks : List Block → Except Fault Unit × List Block
  | [] => (.ok (), [])
  | b :: rest =>
    match b.freeze with
    | .error fault => (.error fault, b :: rest)
    | .ok frozen =>
      let (outcome, others) := freezeBlocks rest
      (outcome, frozen :: others)

def freeze (g : Graph) : Except Fault Unit × Graph :=
  if g.frozen then (.ok (), g)
  else match freezeBlocks g.blocks with
    | (.ok (), blocks) => (.ok (), { g with blocks, frozen := true })
    | (.error fault, blocks) => (.error fault, { g with blocks })

end Graph

inductive Edit
  | addEdge (source target : Int) (kind : EdgeKind)
  | markTerminal (block : Int)
  | freeze
  | freezeBlock (block : Int)
  | append (side : Side) (block edge : Int)
  | remove (side : Side) (block edge : Int)
  | assign (block : Int) (content : Attribute)
  deriving DecidableEq, Repr

namespace Edit

/-- Carries out an edit. Only adding an edge has something to give back. -/
def apply (g : Graph) : Edit → Except Fault (Option Edge) × Graph
  | addEdge source target kind =>
    let (outcome, after) := g.addEdge source target kind
    (outcome.map some, after)
  | markTerminal b => plain (g.markTerminal b)
  | freeze => plain g.freeze
  | freezeBlock b => plain (g.commit (g.updateBlock b Block.freeze))
  | append side b e => plain (g.commit (g.updateBlock b (Block.append side e)))
  | remove side b e => plain (g.commit (g.updateBlock b (Block.remove side e)))
  | assign b a => plain (g.commit (g.updateBlock b (Block.assign a)))
where
  plain (r : Except Fault Unit × Graph) : Except Fault (Option Edge) × Graph :=
    (r.1.map fun _ => none, r.2)

/-- The graph after a sequence of edits, failing ones included. -/
def run (g : Graph) (edits : List Edit) : Graph :=
  edits.foldl (fun acc e => (e.apply acc).2) g

end Edit

end FlowGraph
