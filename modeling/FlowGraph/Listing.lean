import FlowGraph.Failure
import FlowGraph.Text.Case

/-!
Listings: documents that name a method and list its instructions. Faults are looked for from the
outside in, and among the instructions from the front, so that the first one is the one reported.
-/
namespace FlowGraph.Listing

/-- A kind in any case, from the display text of whatever value the record holds. -/
def kindOf? (v : Value) : Option Kind := Kind.ofName? (Text.lower v.display)

/-- The index a record declares: its position unless it says otherwise. -/
def indexOf (position : Nat) (entries : List (Value × Value)) : Except ListingFault Index :=
  match Value.field? entries "index" with
  | none => .ok (.number position)
  | some v =>
    let declared : Option Index := match v with
      | .int i => some (.number i)
      | .bool b => some (.flag b)
      | _ => none
    match declared.filter fun i => i.toInt? == some (position : Int) with
    | some i => .ok i
    | none => .error (.wrongIndex position v)

def targetOf (position : Nat) (entries : List (Value × Value)) :
    Except ListingFault (Option Int) :=
  match Value.field entries "target" with
  | .null => .ok none
  | .int t => .ok (some t)
  | v => .error (.badTarget position v)

def instruction (position : Nat) (record : Value) : Except ListingFault Instruction :=
  match record with
  | .map entries =>
    match Value.field? entries "kind" with
    | none => .error (.noKind position)
    | some written =>
      match kindOf? written with
      | none => .error (.unknownKind position written)
      | some kind => do
        let index ← indexOf position entries
        let target ← targetOf position entries
        .ok { kind, index, target, opcode := Value.field entries "op",
              line := Value.field entries "line" }
  | v => .error (.recordNotMapping position v)

def instructions (position : Nat) : List Value → Except ListingFault (List Instruction)
  | [] => .ok []
  | record :: rest => do
    let first ← instruction position record
    let others ← instructions (position + 1) rest
    .ok (first :: others)

/-- A method as a document gives it. Names are told apart by code points. -/
structure Method where
  name : List Text.CodePoint
  body : List Instruction

/-- The name as it is shown, with the instructions. -/
def Method.entry (m : Method) : String × List Instruction := (Text.shown m.name, m.body)

/-- The method of one document. -/
def ofDocument (document : Value) : Except ListingFault Method :=
  match document with
  | .map entries =>
    let method := Value.field entries "method"
    if method.isTrue then
      match Value.field entries "instructions" with
      | .null => .ok ⟨method.codes, []⟩
      | .list records => (instructions 0 records).map fun body => ⟨method.codes, body⟩
      | _ => .error (.instructionsNotList method.display)
    else .error .noMethod
  | _ => .error .notMapping

def isNull : Value → Bool
  | .null => true
  | _ => false

/-- Adds the methods of further documents to those already read. -/
def readAll (methods : List Method) : List Value → Except ListingFault (List Method)
  | [] => .ok methods
  | document :: rest => do
    let method ← ofDocument document
    if methods.any fun m => m.name == method.name then
      .error (.duplicate (Text.shown method.name))
    else readAll (methods ++ [method]) rest

/-- The methods of several documents in order; null documents are passed over. -/
def ofDocuments (documents : List Value) : Except ListingFault (List Method) :=
  readAll [] (documents.filter fun d => !isNull d)

end FlowGraph.Listing
