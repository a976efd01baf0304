import FlowGraph.Block
import FlowGraph.Ordered
import FlowGraph.Stream

/-!
Control-flow graphs and their queries. Blocks stand in an arena and are reached by signed
position; edges stand in the order of their creation. The table of starts is drawn up once, when
the graph is made, and later changes to a block do not reach it.
-/
namespace FlowGraph

structure Graph where
  stream : Stream
  blocks : List Block
  edges : List Edge := []
  /-- Start and id of every block as it was given, in the order given. -/
  table : List (Int × Int)
  frozen : Bool := false

namespace Graph

/-- The id that stands for the exit of a method without exactly one returning block. -/
def virtualExit : Int := -1

def ofBlocks (stream : Stream) (blocks : List Block) : Graph :=
  { stream, blocks, table := blocks.map fun b => (b.start, b.id) }

def text (g : Graph) : String :=
  let blocks := g.blocks.length
  let edges := g.edges.length
  s!"ControlFlowGraph(blocks={blocks}, edges={edges})"

def block (g : Graph) (b : Int) : Except Fault Block :=
  match Position.get? g.blocks b with
  | some block => .ok block
  | none => .error (.ofPosition b .noBlock)

def edge (g : Graph) (e : Int) : Except Fault Edge :=
  match Position.get? g.edges e with
  | some edge => .ok edge
  | none => .error (.ofPosition e .noEdge)

def instruction (g : Graph) (i : Int) : Except Fault Instruction := g.stream.instruction i

/-- The id of the block that starts at an index; of several such blocks the last one given. -/
def startingAt? (g : Graph) (i : Int) : Option Int :=
  (g.table.reverse.find? fun entry => entry.1 == i).map (·.2)

def entry (g : Graph) : Except Fault Int :=
  match g.startingAt? 0 with
  | some id => .ok id
  | none => .error .noEntry

/-- The last instruction of a block, by position in the stream. -/
def terminator (g : Graph) (b : Int) : Except Fault Instruction := do
  let block ← g.block b
  g.instruction block.lastIndex

def exits (g : Graph) : List Int := (g.blocks.filter (·.terminal)).map (·.id)

/-- The ids of the terminal blocks that end in a return. -/
def returning (g : Graph) : List Block → Except Fault (List Int)
  | [] => .ok []
  | b :: rest =>
    if b.terminal then do
      let last ← g.terminator b.id
      let ids ← g.returning rest
      .ok (if last.kind = .ret then b.id :: ids else ids)
    else g.returning rest

/-- The only returning block, or the virtual exit when there is none or more than one. -/
def exit (g : Graph) : Except Fault Int := do
  match ← g.returning g.blocks with
  | [id] => .ok id
  | _ => .ok virtualExit

/-- Where a key would go in a list by halving, after its equals. The list is meant to be
ascending; on any other list the result is what halving gives. -/
def upperBound (keys : List Int) (x : Int) : Nat → Nat → Nat → Nat
  | 0, low, _ => low
  | fuel + 1, low, high =>
    if low < high then
      let middle := (low + high) / 2
      if x < keys.getD middle 0 then upperBound keys x fuel low middle
      else upperBound keys x fuel (middle + 1) high
    else low

/-- The id of the block that holds an instruction, sought among the starts in the table. -/
def containing (g : Graph) (i : Int) : Except Fault Int :=
  if g.stream.inRange i then do
    let starts := g.table.map (·.1)
    let place := upperBound starts i starts.length 0 starts.length
    let block ← g.block ((place : Int) - 1)
    .ok block.id
  else .error (.outsideStream i g.stream.length)

def instructions (g : Graph) (b : Int) : Except Fault (List Instruction) := do
  let block ← g.block b
  .ok (g.stream.slice block.start block.stop)

def edgesOf (g : Graph) (side : Side) (b : Int) : Except Fault (List Edge) := do
  let block ← g.block b
  (block.edges side).mapM g.edge

/-- The blocks that a block's outgoing edges lead to, each once. -/
def successors (g : Graph) (b : Int) : Except Fault (List Int) := do
  let edges ← g.edgesOf .outgoing b
  .ok (distinct (edges.map (·.target)))

/-- The blocks that a block's incoming edges come from, each once. -/
def predecessors (g : Graph) (b : Int) : Except Fault (List Int) := do
  let edges ← g.edgesOf .incoming b
  .ok (distinct (edges.map (·.source)))

end Graph

end FlowGraph
