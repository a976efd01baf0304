import FlowGraph.Graph.Reach

/-!
The whole view of a graph at once. Its parts are worked out in the order of the fields, and the
first that cannot be had decides how the view fails.
-/
namespace FlowGraph

structure Summary where
  entry : Int
  exit : Int
  exits : List Int
  successors : List (List Int)
  predecessors : List (List Int)
  reachable : List Int
  unreachable : List Int
  deriving DecidableEq, Repr

namespace Graph

def positions (g : Graph) : List Int :=
  (List.range g.blocks.length).map fun (p : Nat) => (p : Int)

def summary (g : Graph) : Except Fault Summary := do
  let entry ← g.entry
  let exit ← g.exit
  let successors ← g.positions.mapM g.successors
  let predecessors ← g.positions.mapM g.predecessors
  let reachable ← g.reachable
  let unreachable ← g.unreachable
  .ok { entry, exit, exits := g.exits, successors, predecessors,
        reachable := ascending reachable, unreachable }

end Graph

end FlowGraph
