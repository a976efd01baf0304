import FlowGraph.Graph.Basic

/-!
Partition of a stream into blocks. Each block runs from one start to the next, and the last one to
the end of the stream. Index zero is always a start, and starts outside the stream are passed
over, so that any list of integers gives a partition without gaps.
-/
namespace FlowGraph

/-- Blocks between consecutive starts, numbered from `id` on; the last one ends at `stop`. -/
def cutBlocks (stop : Int) : Int → List Int → List Block
  | _, [] => []
  | id, [start] => [{ id, start, stop }]
  | id, start :: next :: rest =>
    { id, start, stop := next } :: cutBlocks stop (id + 1) (next :: rest)

namespace Stream

def blockStarts (s : Stream) (leaders : List Int) : List Int :=
  ascendingSet (0 :: leaders.filter s.inRange)

def partition (s : Stream) (leaders : List Int) : Except Failure Graph :=
  if s.length = 0 then .error .empty
  else .ok (Graph.ofBlocks s (cutBlocks s.length 0 (s.blockStarts leaders)))

end Stream

end FlowGraph
