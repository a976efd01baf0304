import FlowGraph.Connect
import FlowGraph.Event
import FlowGraph.Leaders
import FlowGraph.Partition
import FlowGraph.Settings
import FlowGraph.Validate

/-!
Building the graph of one method: leaders, partition, edges, validation, freezing. The record of a
build keeps what each stage found, the events along the way, and the graph or the reason there is
none.
-/
namespace FlowGraph

/-- An edge asked for by its endpoints and the name of its kind. -/
structure Arc where
  source : Int
  target : Int
  kind : String
  deriving DecidableEq, Repr

structure BuildOptions where
  method : Option String := none
  validate : Bool := Settings.standard.validate
  /-- Edges added after the stream's own and before validation. -/
  extra : List Arc := []

structure BuildRecord where
  leaders : List Int := []
  report : Option Report := none
  events : List Event := []
  /-- The graph in its last state, once there is one. -/
  graph : Option Graph := none
  outcome : Except Fault Graph

namespace Graph

def addArcs (g : Graph) : List Arc → Except Fault Unit × Graph
  | [] => (.ok (), g)
  | a :: rest =>
    match EdgeKind.ofName? a.kind with
    | none => (.error (.unknownEdgeKind (.text a.kind)), g)
    | some kind =>
      match g.addEdge a.source a.target kind with
      | (.error fault, after) => (.error fault, after)
      | (.ok _, after) => after.addArcs rest

end Graph

/-- What a stage of a build leaves behind. -/
structure Stage where
  outcome : Except Fault Unit
  graph : Graph
  events : List Event := []
  report : Option Report := none

/-- Goes on with the next stage unless this one failed. -/
def Stage.andThen (stage : Stage) (next : Graph → Stage) : Stage :=
  match stage.outcome with
  | .error _ => stage
  | .ok () =>
    let later := next stage.graph
    { later with
      events := stage.events ++ later.events
      report := later.report <|> stage.report }

namespace Stream

/-- Fails unless the last instruction leaves the method. -/
def checkTerminator (s : Stream) : Except Failure Unit :=
  match s.instructions.getLast? with
  | none => .error .empty
  | some last =>
    if last.kind.isTerminal then .ok () else .error (.missingTerminator last.index last.kind)

end Stream

namespace Graph

def terminatorStage (g : Graph) : Stage :=
  { outcome := g.stream.checkTerminator.mapError .failure, graph := g }

def connectStage (g : Graph) : Stage :=
  match g.connect with
  | (.error fault, after) => { outcome := .error fault, graph := after }
  | (.ok edges, after) =>
    { outcome := .ok (), graph := after,
      events := [.edgesConnected edges.length g.blocks.length] }

def extraStage (extra : List Arc) (g : Graph) : Stage :=
  let (outcome, after) := g.addArcs extra
  { outcome, graph := after }

/-- The event that tells how a validation went. -/
def reportEvent (g : Graph) (r : Report) : Event :=
  if r.passed then .graphValidated g.blocks.length g.edges.length r.unreachable.length
  else .validationFailed r.invariants

def validationStage (options : BuildOptions) (g : Graph) : Stage :=
  if options.validate then
    match g.validate with
    | .error fault => { outcome := .error fault, graph := g }
    | .ok report =>
      let dead :=
        if report.passed ∧ report.unreachable ≠ [] then
          [Event.unreachableBlocks options.method report.unreachable]
        else []
      { outcome := report.check, graph := g, events := g.reportEvent report :: dead,
        report := some report }
  else { outcome := .ok (), graph := g, events := [.validationSkipped options.method] }

def freezeStage (options : BuildOptions) (g : Graph) : Stage :=
  match g.freeze with
  | (.error fault, after) => { outcome := .error fault, graph := after }
  | (.ok (), after) =>
    { outcome := .ok (), graph := after,
      events :=
        [.graphBuilt options.method g.stream.length after.blocks.length after.edges.length] }

/-- Everything after the partition. -/
def complete (g : Graph) (options : BuildOptions) : Stage :=
  g.terminatorStage
    |>.andThen connectStage
    |>.andThen (extraStage options.extra)
    |>.andThen (validationStage options)
    |>.andThen (freezeStage options)

end Graph

namespace Stream

def leaderEvents (s : Stream) (leaders : List Int) : List Event :=
  if s.length = 0 then [] else [.leadersDetected leaders.length s.length]

def build (s : Stream) (options : BuildOptions) : BuildRecord :=
  match s.leaders with
  | .error reason => { outcome := .error (.failure reason) }
  | .ok leaders =>
    match s.partition leaders with
    | .error reason =>
      { leaders, events := s.leaderEvents leaders, outcome := .error (.failure reason) }
    | .ok g =>
      let stage := g.complete options
      { leaders
        report := stage.report
        events :=
          s.leaderEvents leaders ++ .streamPartitioned g.blocks.length s.length :: stage.events
        graph := some stage.graph
        outcome := stage.outcome.map fun () => stage.graph }

end Stream

/-- A stream to be built, with what has come of it so far. -/
structure Builder where
  stream : Stream
  options : BuildOptions
  /-- The record of the last build that was carried out. -/
  record : Option BuildRecord := none
  /-- The graph of a build that went well. -/
  kept : Option Graph := none

/-- Hands out the graph that is kept, or else carries out a build and keeps its graph if there is
one. -/
def Builder.build (b : Builder) : Except Fault Graph × Builder :=
  match b.kept with
  | some g => (.ok g, b)
  | none =>
    let record := b.stream.build b.options
    (record.outcome, { b with record := some record, kept := record.outcome.toOption })

/-- The frozen graph of a method body. -/
def buildGraph (instructions : List Instruction) (options : BuildOptions) : Except Fault Graph :=
  match Stream.ofList instructions with
  | .error reason => .error (.failure reason)
  | .ok s => (s.build options).outcome

end FlowGraph
