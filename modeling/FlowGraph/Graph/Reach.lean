import FlowGraph.Graph.Basic

/-!
Reachability from the entry. The search is breadth first. Every id enters the queue at most once,
and besides the entry only targets of edges enter it, so the number of edges bounds the run.
-/
namespace FlowGraph.Graph

/-- Works off a queue of seen blocks whose successors have not been looked at. -/
def explore (g : Graph) : Nat → List Int → List Int → Except Fault (List Int)
  | 0, _, seen => .ok seen
  | _ + 1, [], seen => .ok seen
  | fuel + 1, b :: queue, seen => do
    let next ← g.successors b
    let fresh := next.filter (· ∉ seen)
    g.explore fuel (queue ++ fresh) (seen ++ fresh)

/-- The reachable block ids, in the order they are found. -/
def reachable (g : Graph) : Except Fault (List Int) := do
  let entry ← g.entry
  g.explore (g.edges.length + 2) [entry] [entry]

/-- The ids of the blocks that the search does not find, in block order. -/
def unreachable (g : Graph) : Except Fault (List Int) := do
  let seen ← g.reachable
  .ok ((g.blocks.map (·.id)).filter (· ∉ seen))

end FlowGraph.Graph
