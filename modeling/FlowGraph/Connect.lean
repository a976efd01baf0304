import FlowGraph.Graph.Edit

/-!
Connecting blocks. The last instruction of a block demands certain block starts: a branch its
target and then the index after it, a jump its target, a leaving instruction nothing, and any
other the block's own stop. All demands of a block are looked up before any of its edges is made.
A block that ends in a leaving instruction is marked terminal instead.
-/
namespace FlowGraph

namespace Graph

/-- The ids of the blocks that start where the demands lead. -/
def supply (g : Graph) (source : Int) :
    List (Int × EdgeKind) → Except Fault (List (Int × EdgeKind))
  | [] => .ok []
  | (index, kind) :: rest =>
    match g.startingAt? index with
    | none => .error (.failure (.danglingTarget source index))
    | some target =>
      match g.supply source rest with
      | .ok more => .ok ((target, kind) :: more)
      | .error fault => .error fault

def addEdges (g : Graph) (source : Int) : List (Int × EdgeKind) → Except Fault (List Edge) × Graph
  | [] => (.ok [], g)
  | (target, kind) :: rest =>
    match g.addEdge source target kind with
    | (.error fault, after) => (.error fault, after)
    | (.ok edge, after) =>
      match after.addEdges source rest with
      | (.error fault, last) => (.error fault, last)
      | (.ok edges, last) => (.ok (edge :: edges), last)

/-- Makes an edge for each demand, once all of them are found to lead to blocks. -/
def follow (g : Graph) (source : Int) (demands : List (Int × EdgeKind)) :
    Except Fault (List Edge) × Graph :=
  match g.supply source demands with
  | .error fault => (.error fault, g)
  | .ok arcs => g.addEdges source arcs

def leaveAt (g : Graph) (b : Int) : Except Fault (List Edge) × Graph :=
  match g.markTerminal b with
  | (.error fault, after) => (.error fault, after)
  | (.ok (), after) => (.ok [], after)

def connectBlock (g : Graph) (b : Block) : Except Fault (List Edge) × Graph :=
  match g.terminator b.id with
  | .error fault => (.error fault, g)
  | .ok last =>
    if last.kind = .conditionalJump then
      g.follow b.id [(last.goal, .trueBranch), (last.index.toInt + 1, .falseBranch)]
    else if last.kind = .unconditionalJump then g.follow b.id [(last.goal, .fallthrough)]
    else if last.kind.isTerminal then g.leaveAt b.id
    else g.follow b.id [(b.stop, .fallthrough)]

def connectBlocks (g : Graph) : List Block → Except Fault (List Edge) × Graph
  | [] => (.ok [], g)
  | b :: rest =>
    match g.connectBlock b with
    | (.error fault, after) => (.error fault, after)
    | (.ok edges, after) =>
      match after.connectBlocks rest with
      | (.error fault, last) => (.error fault, last)
      | (.ok more, last) => (.ok (edges ++ more), last)

/-- Connects every block in turn, and gives the edges made, in order. -/
def connect (g : Graph) : Except Fault (List Edge) × Graph := g.connectBlocks g.blocks

end Graph

end FlowGraph
