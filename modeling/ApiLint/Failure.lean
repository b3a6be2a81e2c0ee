import ApiLint.Json.Problem
import ApiLint.Numeral.Notation
import ApiLint.Toml.Text
import ApiLint.Tree
import ApiLint.Value.Display
import ApiLint.Yaml.Fault

/-! What can go wrong. A failure that belongs to one document carries its name; a configuration
fails as a whole, with all its problems; the rest are faults of files, texts and values that
nothing takes in hand. -/
namespace ApiLint

/-- Why one of the two engines gave up on a document. -/
inductive EngineFault
  /-- Following references came to no end. -/
  | endlessReferences
  /-- The structure check broke down. -/
  | checkFailed (text : Text)
  /-- The rule engine's answer is not JSON; of its text the start is kept. -/
  | unreadableAnswer (start : Text)
  /-- The rule engine's answer is not a list. -/
  | strangeAnswer (start : Text)
  /-- The rule engine says that it failed. -/
  | refused (detail : Text)
  /-- There is no such program. -/
  | noProgram (name : Text)
  /-- The rule engine took too long. -/
  | timedOut (seconds : Float)

/-- The words for an engine's fault; `document` names the document. -/
def EngineFault.message (document : Text) : EngineFault → Text
  | endlessReferences => "Reference resolution did not terminate for " ++ document
  | checkFailed text => "Validation engine failed for " ++ document ++ ": " ++ text
  | unreadableAnswer start => "Failed to parse Spectral output: " ++ start
  | strangeAnswer start => "Unexpected Spectral output: " ++ start
  | refused detail => "Spectral failed on " ++ document ++ ": " ++ detail
  | noProgram name => name ++ " not found - install: npm install -g @stoplight/spectral-cli"
  | timedOut seconds =>
    s!"Spectral timed out after {Numeral.secondsText seconds}s on " ++ document

/-- How a value is used in a way that its kind does not allow. -/
inductive Misuse
  /-- It is asked for an entry or for its entries; `operation` is what was tried. -/
  | notMapping (kind operation : String)
  | notIterable (kind : String)
  /-- It is used as a key. -/
  | notKey (kind : String)
  /-- It is shown where only a text can be. -/
  | notText (kind : String)
  /-- It has no place that could be set. -/
  | notChangeable (kind : String)
  /-- It has no parts that could be asked for. -/
  | noParts (kind : String)
  /-- Its parts have numbers, and it is asked for one by something else. -/
  | notNumber (kind : String)
  /-- What could not be emptied is emptied. -/
  | notClearable (kind : String)
  /-- It is a row of items that are no pairs. -/
  | notPairs
  /-- The first item of an empty list is asked for. -/
  | noItem
  /-- An item is asked for at a place that a row has not. -/
  | noPlace (kind : String)
  /-- A mapping without this key is asked for its value. -/
  | noEntry (key : Value)
  /-- Infinity is used as a place in a list. -/
  | infinitePlace

/-- The words for a misuse. -/
def Misuse.message : Misuse → Text
  | notMapping kind operation => s!"'{kind}' object has no attribute '{operation}'"
  | notIterable kind => s!"'{kind}' object is not iterable"
  | notKey kind => s!"unhashable type: '{kind}'"
  | notText kind => s!"object of type '{kind}' has no len()"
  | notChangeable kind => s!"'{kind}' object does not support item assignment"
  | noParts kind => s!"'{kind}' object is not subscriptable"
  | notNumber kind => s!"{kind} indices must be integers or slices"
  | notClearable kind => s!"'{kind}' object has no attribute 'clear'"
  | notPairs => "dictionary update sequence element #0 has length 1; 2 is required"
  | noItem => "tuple index out of range"
  | noPlace kind => s!"{kind} index out of range"
  | noEntry key => key.literal
  | infinitePlace => "cannot convert float infinity to integer"

/-- What can go wrong. -/
inductive Failure
  | file (fault : FileFault) (name : Text)
  | undecodable (fault : Text.Utf8.Fault)
  | json (mistake : Json.Mistake)
  | yaml (fault : Yaml.Fault)
  | toml (fault : Toml.Fault)
  | number (fault : Numeral.Fault)
  /-- A document is not JSON. -/
  | badJson (mistake : Json.Mistake) (document : Path)
  /-- A document is not YAML. -/
  | badYaml (document : Path)
  /-- A document's name says neither JSON nor YAML. -/
  | unsupported (document : Path)
  /-- A document is no description of an API. -/
  | noDescriptor (document : Path)
  | engine (fault : EngineFault) (document : Option Path)
  | invalidConfig (problems : List Text)
  | misuse (m : Misuse)
  /-- A walk over a value that contains itself comes to no end. It was given up at a mapping, or at
  something else. -/
  | endless (inMapping : Bool := false)
  /-- An output holds what is no character. -/
  | unwritable (fault : Text.Unencodable)
  /-- The rule engine's program could not be run, for a reason that it does not give. -/
  | process

namespace Failure

/-- What a document must declare. -/
def descriptorMessage : Text :=
  "Neither a `openapi` property nor a `swagger` property with the value of \"2.0\" was found"

def problemLines (problems : List Text) : Text :=
  Text.joined "\n" (problems.map fun problem => "  - " ++ problem)

/-- The words for a failure. -/
def message : Failure → Text
  | file fault name => fault.message name
  | undecodable fault => fault.message
  | json mistake => mistake.message
  | yaml fault => fault.message
  | toml fault => fault.message
  | number fault => fault.message
  | badJson mistake document =>
    mistake.problem.message ++ " in " ++ document.text ++
      s!" (line {mistake.line} column {mistake.column})"
  | badYaml document => "Invalid YAML in " ++ document.text ++ ": " ++ Yaml.Fault.malformed.message
  | unsupported _ => "Unable to parse file"
  | noDescriptor _ => descriptorMessage
  | engine fault document => fault.message ((document.map Path.text).getD "None")
  | invalidConfig problems => "Invalid configuration:\n" ++ problemLines problems
  | misuse m => m.message
  | endless inMapping =>
    "maximum recursion depth exceeded" ++
      (if inMapping then " while calling a Python object" else "")
  | unwritable fault => fault.message
  | process => ""

/-- The document that a failure belongs to, if it is the failure of one. -/
def document? : Failure → Option Path
  | badJson _ document | badYaml document | unsupported document | noDescriptor document =>
    some document
  | engine _ document => document
  | _ => none

def isNoDescriptor : Failure → Bool
  | noDescriptor _ => true
  | _ => false

end Failure

/-- What is asked of a file, whose fault is a failure. -/
def Failure.ofFile {α : Type} (ask : Path → Except FileFault α) (path : Path) :
    Except Failure α :=
  (ask path).mapError fun fault => .file fault path.text

def Failure.ofJson : Json.Fault → Failure
  | .mistake m => .json m
  | .numeral f => .number f

end ApiLint
