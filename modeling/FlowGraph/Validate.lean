import FlowGraph.Graph.Reach

/-!
Validation of a graph. The checks run in a fixed order: the entry, the partition, the edges'
endpoints with the blocks' lists of edges, and the terminators. Reachability is worked out only
when there is one entry and every endpoint is sound. A graph is never changed by being checked.
-/
namespace FlowGraph

structure Report where
  violations : List Violation
  unreachable : List Int
  deriving DecidableEq, Repr

namespace Report

def passed (r : Report) : Bool := r.violations.isEmpty

def invariants (r : Report) : List String := r.violations.map fun v => v.invariant.name

/-- A report with violations is a failure. -/
def check (r : Report) : Except Fault Unit :=
  if r.passed then .ok () else .error (.failure (.invalidGraph r.violations))

end Report

namespace Graph

def entries (g : Graph) : List Int := (g.blocks.filter fun b => b.start == 0).map (·.id)

def entryViolations (g : Graph) : List Violation :=
  let count := g.entries.length
  if count = 1 then []
  else
    [{ invariant := .singleEntry, blocks := g.entries,
       detail := s!"{count} blocks start at index 0" }]

/-- What is wrong with a block at a position whose predecessors reach up to `expected`. -/
def placeViolations (position : Nat) (expected : Int) (b : Block) : List Violation :=
  let fault := fun (detail : String) =>
    ({ invariant := .partition, blocks := [b.id], detail } : Violation)
  (if b.id = position then [] else [fault s!"block id {b.id} stored at position {position}"]) ++
  (if b.start = expected then []
    else
      let sort := if expected < b.start then "gap" else "overlap"
      [fault s!"{sort} before index {b.start}"]) ++
  (if b.stop ≤ b.start then [fault "empty block"] else [])

/-- The violations of the blocks from a position on, and how far the blocks reach. -/
def walkBlocks (position : Nat) (expected : Int) : List Block → List Violation × Int
  | [] => ([], expected)
  | b :: rest =>
    let (later, reached) := walkBlocks (position + 1) (max expected b.stop) rest
    (placeViolations position expected b ++ later, reached)

def partitionViolations (g : Graph) : List Violation :=
  let (violations, reached) := walkBlocks 0 0 g.blocks
  let length := g.stream.length
  if reached = length then violations
  else violations ++ [{
    invariant := .partition
    blocks := (g.blocks.getLast?.map (·.id)).toList
    detail := s!"blocks cover {reached} of {length} instructions" }]

def hasBlock (g : Graph) (b : Int) : Bool := decide (0 ≤ b ∧ b < g.blocks.length)

def hasEdge (g : Graph) (e : Int) : Bool := decide (0 ≤ e ∧ e < g.edges.length)

/-- The list of outgoing edges of the block at a position. -/
def outgoingAt (g : Graph) (b : Int) : List Int :=
  ((Position.get? g.blocks b).map (·.outgoing)).getD []

def endpointViolation? (g : Graph) (e : Edge) : Option Violation :=
  if ¬ (g.hasBlock e.source ∧ g.hasBlock e.target) then
    some { invariant := .edgeEndpoints, edges := [e.id],
           detail := "edge refers to a missing block" }
  else if e.id ∉ g.outgoingAt e.source then
    some { invariant := .edgeEndpoints, blocks := [e.source], edges := [e.id],
           detail := "edge not listed by its source" }
  else none

def endpointViolations (g : Graph) : List Violation := g.edges.filterMap g.endpointViolation?

/-- The listed edges of a block that do not exist or start elsewhere. -/
def strayEdges (g : Graph) (b : Block) : List Int :=
  b.outgoing.filter fun e =>
    !g.hasEdge e || (Position.get? g.edges e).any fun edge => edge.source != b.id

def strayViolation? (g : Graph) (b : Block) : Option Violation :=
  let stray := g.strayEdges b
  if stray.isEmpty then none
  else some { invariant := .edgeEndpoints, blocks := [b.id], edges := stray,
              detail := "outgoing edge with another source" }

/-- The edges that lead to a block, provided it exists. -/
def arrivals (g : Graph) (b : Int) : List Int :=
  (g.edges.filter fun e => e.target == b && g.hasBlock b).map (·.id)

/-- The ids that stand in one list and not in the other, ascending. -/
def difference (xs ys : List Int) : List Int :=
  ascendingSet (xs.filter (· ∉ ys) ++ ys.filter (· ∉ xs))

def mirrorViolation? (g : Graph) (b : Block) : Option Violation :=
  let expected := ascending (g.arrivals b.id)
  if ascending b.incoming = expected then none
  else some { invariant := .incomingMirror, blocks := [b.id],
              edges := difference b.incoming expected,
              detail := "incoming edges do not mirror outgoing edges" }

def listViolations (g : Graph) : List Violation :=
  g.blocks.flatMap fun b => (g.strayViolation? b).toList ++ (g.mirrorViolation? b).toList

/-- How many edges leave a block that ends in a given kind of instruction, and of which kinds. -/
def expectedKinds (k : Kind) : List EdgeKind :=
  if k = .conditionalJump then [.falseBranch, .trueBranch]
  else if k.isTerminal then []
  else [.fallthrough]

/-- The violations of jumps at the indices `index, index + 1, ...` within a block. -/
def innerJumps (g : Graph) (b : Block) : Nat → Int → Except Fault (List Violation)
  | 0, _ => .ok []
  | count + 1, index => do
    let i ← g.instruction index
    let rest ← g.innerJumps b count (index + 1)
    if i.kind.isJump then
      .ok ({ invariant := .jumpNotLast, blocks := [b.id],
             detail := s!"jump at index {index} inside block" } :: rest)
    else .ok rest

/-- Names of edge kinds as a quoted list. -/
def kindsText (kinds : List EdgeKind) : String :=
  (Value.list (kinds.map fun k => .text k.name)).literal

/-- The kinds of the existing edges that a block lists, in alphabetical order. -/
def outgoingKinds (g : Graph) (b : Block) : List EdgeKind :=
  let kinds := (b.outgoing.filter g.hasEdge).filterMap fun e =>
    (Position.get? g.edges e).map (·.kind)
  sortBy (fun x y => decide (x.rank ≤ y.rank)) kinds

def exitViolation? (g : Graph) (b : Block) (last : Instruction) : Option Violation :=
  let expected := expectedKinds last.kind
  let kinds := g.outgoingKinds b
  let count := b.outgoing.length
  if count ≠ expected.length ∨ b.terminal ≠ last.kind.isTerminal then
    let name := last.kind.name
    some { invariant := .terminatorArity, blocks := [b.id], edges := b.outgoing,
           detail := s!"{name} terminator with {count} outgoing edges" }
  else if kinds ≠ expected then
    some { invariant := .branchKinds, blocks := [b.id], edges := b.outgoing,
           detail := "edge kinds " ++ kindsText kinds }
  else none

/-- Blocks that are empty or run past the stream are left to the partition check. -/
def blockViolations (g : Graph) (b : Block) : Except Fault (List Violation) :=
  if b.stop ≤ b.start ∨ (g.stream.length : Int) < b.stop then .ok []
  else do
    let jumps ← g.innerJumps b (b.lastIndex - b.start).toNat b.start
    let last ← g.instruction b.lastIndex
    .ok (jumps ++ (g.exitViolation? b last).toList)

def terminatorViolations (g : Graph) : List Block → Except Fault (List Violation)
  | [] => .ok []
  | b :: rest => do
    let here ← g.blockViolations b
    let later ← g.terminatorViolations rest
    .ok (here ++ later)

/-- Every edge joins blocks that exist and is listed by its source, and no block lists a stray
edge. -/
def endpointsSound (g : Graph) : Bool :=
  g.endpointViolations.isEmpty && g.blocks.all fun b => (g.strayEdges b).isEmpty

def validate (g : Graph) : Except Fault Report := do
  let terminators ← g.terminatorViolations g.blocks
  let violations :=
    g.entryViolations ++ g.partitionViolations ++ g.endpointViolations ++ g.listViolations ++
      terminators
  let unreachable ← if g.entries.length = 1 ∧ g.endpointsSound then g.unreachable else .ok []
  .ok { violations, unreachable }

end Graph

end FlowGraph
