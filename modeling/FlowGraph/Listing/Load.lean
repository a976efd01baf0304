import FlowGraph.Listing
import FlowGraph.Yaml.Read

/-!
Listings from text. A text that is no data document is a fault of the listing; a scalar that names
no value is reported as it is. Of a document only the parts that a listing asks for are looked
into, and each of these is a value on its own, even if the document around it comes up in it
again. Files may end their lines in any of the usual ways.
-/
namespace FlowGraph.Listing

inductive LoadFault
  | listing (fault : ListingFault)
  | scalar (fault : Yaml.Fault)

def ofYaml {α : Type} : Except Yaml.Fault α → Except LoadFault α
  | .ok a => .ok a
  | .error .invalid => .error (.listing .invalidText)
  | .error fault => .error (.scalar fault)

/-- The names under which a listing's document holds something. -/
def documentNames : List String := ["method", "instructions"]

/-- The names under which an instruction's record holds something. -/
def recordNames : List String := ["kind", "index", "target", "op", "line"]

/-- The entries with certain names, each seen in a way that depends on the name. -/
def namedEntries (names : List String) (view : String → Yaml.Datum → Value)
    (entries : List (Yaml.Datum × Yaml.Datum)) : List (Value × Value) :=
  entries.filterMap fun (key, datum) => match key with
    | .scalar (.text name) =>
      if names.contains name then some (.text name, view name datum) else none
    | _ => none

def recordView (d : Yaml.Document) (value : Yaml.Datum → Value) (record : Yaml.Datum) : Value :=
  match record with
  | .collection number =>
    match d.collection number with
    | .map entries => .map (namedEntries recordNames (fun _ datum => value datum) entries)
    | _ => d.outline record
  | _ => d.outline record

def recordsView (d : Yaml.Document) (value : Yaml.Datum → Value) (records : Yaml.Datum) : Value :=
  match records with
  | .collection number =>
    match d.collection number with
    | .list items => .list (items.map (recordView d value))
    | .pairs items => .list (items.map fun _ => .pair .null .null)
    | _ => d.outline records
  | _ => d.outline records

/-- A document as far as a listing looks into it. -/
def documentView (d : Yaml.Document) : Value :=
  let value := d.value d.settled
  match d.root with
  | .collection number =>
    match d.collection number with
    | .map entries =>
      let view := fun (name : String) (datum : Yaml.Datum) =>
        if name == "method" then value datum else recordsView d value datum
      .map (namedEntries documentNames view entries)
    | _ => d.outline d.root
  | _ => d.outline d.root

/-- The one method of a text. -/
def loadOne (text : String) : Except LoadFault Method := do
  let document ← ofYaml (Yaml.readOne text)
  (ofDocument (documentView document)).mapError .listing

/-- The methods of a text with any number of documents. -/
def loadAll (text : String) : Except LoadFault (List Method) := do
  let documents ← ofYaml (Yaml.readAll text)
  (ofDocuments (documents.map documentView)).mapError .listing

/-- Turns every end of line into a line feed. -/
def unifyLines : List Char → List Char
  | [] => []
  | '\r' :: '\n' :: cs => '\n' :: unifyLines cs
  | '\r' :: cs => '\n' :: unifyLines cs
  | c :: cs => c :: unifyLines cs

/-- The methods of a file's text. -/
def loadFile (text : String) : Except LoadFault (List Method) :=
  loadAll (String.ofList (unifyLines text.toList))

end FlowGraph.Listing
