import FlowGraph.Settings

/-!
Setting up the log. The first call that names a known renderer decides renderer and threshold for
good. A level is a name in any case; one that is not known stands for `INFO`. The names of the
record format and of the table of such formats are no levels and are refused.
-/
namespace FlowGraph.Logging

inductive Renderer
  | console
  | json
  deriving DecidableEq, Repr

def Renderer.all : List Renderer := [.console, .json]

def Renderer.name : Renderer → String
  | .console => "console"
  | .json => "json"

def Renderer.ofName? (s : String) : Option Renderer := Renderer.all.find? fun r => r.name == s

inductive Fault
  | unknownRenderer (name : String)
  | unknownLevel
  | notLevel
  deriving DecidableEq, Repr

/-- The format of a plain record. -/
def recordFormat : String := "%(levelname)s:%(name)s:%(message)s"

/-- The table of record formats, by the mark of the style they are written in. -/
def formatTable : String :=
  "\x7b'%': (<class 'logging.PercentStyle'>, '%(levelname)s:%(name)s:%(message)s'), " ++
    "'\x7b': (<class 'logging.StrFormatStyle'>, " ++
    "'\x7blevelname\x7d:\x7bname\x7d:\x7bmessage\x7d'), " ++
    "'$': (<class 'logging.StringTemplateStyle'>, " ++
    "'$\x7blevelname\x7d:$\x7bname\x7d:$\x7bmessage\x7d')\x7d"

def Fault.message : Fault → String
  | .unknownRenderer name =>
    let known := ", ".intercalate (Renderer.all.map fun r => Text.quoted r.name)
    "Unknown log renderer " ++ Text.quoted name ++ s!", expected one of ({known})"
  | .unknownLevel => "Unknown level: " ++ Text.quoted recordFormat
  | .notLevel => "Level not an integer or a valid string: " ++ formatTable

def infoThreshold : Nat := 20

def thresholds : List (String × Nat) := [
  ("NOTSET", 0), ("DEBUG", 10), ("INFO", infoThreshold), ("WARNING", 30), ("WARN", 30),
  ("ERROR", 40), ("CRITICAL", 50), ("FATAL", 50)]

def threshold (level : String) : Except Fault Nat :=
  let name := Text.upper level
  if name == "BASIC_FORMAT" then .error .unknownLevel
  else if name == "_STYLES" then .error .notLevel
  else .ok ((thresholds.lookup name).getD infoThreshold)

/-- The state of the log: no renderer until it is set up. -/
structure State where
  renderer : Option Renderer := none
  threshold : Nat := 30
  deriving DecidableEq, Repr

/-- The record that tells of a successful setup, at level info. -/
structure Record where
  level : String
  renderer : String
  deriving DecidableEq, Repr

def Record.title : String := "Logging configured"

/-- Sets up the log unless that is done already. The record is written only if the threshold lets
level info through. -/
def configure (level renderer : String) (s : State) : Except Fault (Option Record) × State :=
  if s.renderer.isSome then (.ok none, s)
  else match Renderer.ofName? renderer with
    | none => (.error (.unknownRenderer renderer), s)
    | some r =>
      match threshold level with
      | .error fault => (.error fault, s)
      | .ok t =>
        (.ok (if t ≤ infoThreshold then some { level, renderer } else none),
          { renderer := some r, threshold := t })

end FlowGraph.Logging
