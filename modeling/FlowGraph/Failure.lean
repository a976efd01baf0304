import FlowGraph.Instruction
import FlowGraph.Violation

/-!
Reasons why a method cannot be analysed. Each reason has a name and one sentence that states it.
-/
namespace FlowGraph

/-- What a decoded instruction can get wrong. -/
inductive Breach
  | misplaced (declared : Index)
  | missingTarget (kind : Kind)
  | strayTarget (kind : Kind)
  /-- A breach that the decoder states in its own words. -/
  | stated (reason : String)
  deriving DecidableEq, Repr

def Breach.reason : Breach → String
  | .misplaced declared =>
    let shown := declared.text
    s!"index {shown} does not match its position"
  | .missingTarget kind => kind.name ++ " without a target"
  | .strayTarget kind => kind.name ++ " must not carry a jump target"
  | .stated reason => reason

/-- What a listing document can get wrong. -/
inductive ListingFault
  | notMapping
  | noMethod
  | instructionsNotList (method : String)
  | recordNotMapping (position : Nat) (record : Value)
  | noKind (position : Nat)
  | unknownKind (position : Nat) (kind : Value)
  | wrongIndex (position : Nat) (index : Value)
  | badTarget (position : Nat) (target : Value)
  | duplicate (method : String)
  | invalidText
  /-- A fault stated in somebody else's words. -/
  | stated (message : String)

def ListingFault.message : ListingFault → String
  | .notMapping => "Listing must be a mapping with 'method' and 'instructions'"
  | .noMethod => "Listing has no method name"
  | .instructionsNotList method => s!"Instructions of {method} must be a list"
  | .recordNotMapping position record =>
    s!"Instruction {position} must be a mapping, got " ++ record.typeName
  | .noKind position => s!"Instruction {position} has no kind"
  | .unknownKind position kind => s!"Instruction {position} has unknown kind " ++ kind.literal
  | .wrongIndex position index => s!"Instruction {position} declares index " ++ index.literal
  | .badTarget position target =>
    s!"Instruction {position} has non-integer target " ++ target.literal
  | .duplicate method => s!"Duplicate listing for method {method}"
  | .invalidText => "Invalid YAML"
  | .stated message => message

inductive Failure
  | malformedTarget (index : Index) (target length : Int)
  | emptyStream (message : String)
  | danglingTarget (block target : Int)
  | invalidGraph (violations : List Violation)
  | contract (position : Int) (breach : Breach)
  | missingTerminator (index : Index) (kind : Kind)
  | frozen (message : String)
  | listing (fault : ListingFault)
  /-- A failure of no particular sort. -/
  | general (message : String)

namespace Failure

/-- A stream without instructions has no entry block. -/
def empty : Failure := emptyStream "Instruction stream is empty"

def frozenGraph : Failure := frozen "Control flow graph is frozen; build a new graph instead"

def frozenBlock (id : Int) : Failure := frozen s!"Block {id} belongs to a frozen graph"

/-- Why a last instruction does not end its method. -/
def terminatorReason (kind : Kind) : String :=
  "method body ends with " ++ kind.name ++ ", not return/throw"

def name : Failure → String
  | malformedTarget .. => "MalformedTarget"
  | emptyStream _ => "EmptyStream"
  | danglingTarget .. => "DanglingTarget"
  | invalidGraph _ => "InvalidGraph"
  | contract .. => "DecoderContractViolation"
  | missingTerminator .. => "MissingTerminator"
  | frozen _ => "FrozenGraphError"
  | listing _ => "ListingError"
  | general _ => "CFGError"

/-- The names of a failure and of the wider sorts it belongs to, narrowest first. -/
def names (f : Failure) : List String :=
  match f with
  | general _ => [f.name]
  | missingTerminator .. => [f.name, "DecoderContractViolation", "CFGError"]
  | _ => [f.name, "CFGError"]

def message : Failure → String
  | malformedTarget index target length =>
    let shown := index.text
    s!"Jump at index {shown} targets {target}, outside stream of length {length}"
  | emptyStream text => text
  | danglingTarget block target =>
    s!"Block {block} leads to index {target}, which does not start a block"
  | invalidGraph violations =>
    let count := violations.length
    let names := ", ".intercalate (violations.map fun v => v.invariant.name)
    s!"Graph violates {count} invariant(s): {names}"
  | contract position breach => s!"Instruction {position}: " ++ breach.reason
  | missingTerminator index kind => "Instruction " ++ index.text ++ ": " ++ terminatorReason kind
  | frozen text => text
  | listing fault => fault.message
  | general text => text

end Failure

end FlowGraph
