import FlowGraph.Ordered
import FlowGraph.Stream

/-!
Leaders: the indices at which a basic block has to start. They are the first index, every target
of a branch or jump, and the index after a branch or jump when there is one. A target outside the
stream is refused, and the first such instruction in stream order is the one named.
-/
namespace FlowGraph

namespace Stream

/-- The first branch or jump that leads outside the stream. -/
def strayJump? (s : Stream) : Option Instruction :=
  s.jumps.find? fun i => !s.inRange i.goal

/-- Where blocks start because of one branch or jump. -/
def leadersOfJump (s : Stream) (i : Instruction) : List Int :=
  i.goal :: (if i.index.toInt + 1 < s.length then [i.index.toInt + 1] else [])

def leaders (s : Stream) : Except Failure (List Int) :=
  if s.length = 0 then .ok []
  else match s.strayJump? with
    | some i => .error (.malformedTarget i.index i.goal s.length)
    | none => .ok (ascendingSet (0 :: s.jumps.flatMap s.leadersOfJump))

end Stream

end FlowGraph
