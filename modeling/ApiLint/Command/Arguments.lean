import ApiLint.Text

/-! The words that the command is called with. Options and files may be mixed; after two hyphens on
their own only files follow. Short options can share one hyphen, and the value of the last one can
follow it at once. -/
namespace ApiLint.Command

/-- What the command is asked for. -/
structure Arguments where
  files : List Text := []
  config : Option Text := none
  rulesets : List Text := []
  verbose : Bool := false
  version : Bool := false
  deriving DecidableEq, Repr

/-- How the words can be wrong. -/
inductive UsageFault
  | unknownOption (name : Text)
  /-- An option that has a value is the last word. -/
  | missingValue (name : Text)
  /-- A value is given to an option that has none. -/
  | surplusValue (name : Text)
  deriving DecidableEq, Repr

def UsageFault.message : UsageFault → Text
  | unknownOption name => "No such option: " ++ name
  | missingValue name => "Option '" ++ name ++ "' requires an argument."
  | surplusValue name => "Option '" ++ name ++ "' does not take a value."

namespace Arguments

/-- What an option does: it sets something, or it takes a value. -/
inductive Action
  | flag (set : Arguments → Arguments)
  | valued (set : Text → Arguments → Arguments)

/-- Asks for a configuration file; the last one that is asked for counts. -/
def setConfig (value : Text) (a : Arguments) : Arguments :=
  { a with config := some value }

/-- Asks for a ruleset more. -/
def addRuleset (value : Text) (a : Arguments) : Arguments :=
  { a with rulesets := a.rulesets ++ [value] }

def addFile (name : Text) (a : Arguments) : Arguments :=
  { a with files := a.files ++ [name] }

def setVerbose (a : Arguments) : Arguments :=
  { a with verbose := true }

def setVersion (a : Arguments) : Arguments :=
  { a with version := true }

/-- The options with a word for their name. -/
def long? (name : Text) : Option Action :=
  if name = "config" then some (.valued setConfig)
  else if name = "ruleset" then some (.valued addRuleset)
  else if name = "verbose" then some (.flag setVerbose)
  else if name = "version" then some (.flag setVersion)
  else none

/-- The options with a letter for their name. -/
def short? : CodePoint → Option Action
  | .char 'c' => some (.valued setConfig)
  | .char 'r' => some (.valued addRuleset)
  | .char 'v' => some (.flag setVerbose)
  | _ => none

/-- What a word of options leads to: the request so far, and the option that still needs a value,
with its name. -/
abbrev Pending := Arguments × Option (Text × (Text → Arguments → Arguments))

/-- Reads the letters behind one hyphen. -/
def readShort (a : Arguments) : Text → Except UsageFault Pending
  | [] => .ok (a, none)
  | c :: rest =>
    let name : Text := ['-', c]
    match short? c with
    | none => .error (.unknownOption name)
    | some (.flag set) => readShort (set a) rest
    | some (.valued set) =>
      if rest.isEmpty then .ok (a, some (name, set)) else .ok (set rest a, none)

/-- Reads the characters behind two hyphens. -/
def readLong (a : Arguments) (t : Text) : Except UsageFault Pending :=
  let word := t.takeWhile (· ≠ .char '=')
  let name := "--" ++ word
  match long? word, t.drop word.length with
  | none, _ => .error (.unknownOption name)
  | some (.flag set), [] => .ok (set a, none)
  | some (.flag _), _ :: _ => .error (.surplusValue name)
  | some (.valued set), [] => .ok (a, some (name, set))
  | some (.valued set), _ :: value => .ok (set value a, none)

/-- Reads one word; a hyphen on its own is a file. -/
def readWord (a : Arguments) (word : Text) : Except UsageFault Pending :=
  match word with
  | .char '-' :: .char '-' :: rest => readLong a rest
  | .char '-' :: c :: rest => readShort a (c :: rest)
  | _ => .ok (addFile word a, none)

/-- Reads words behind what was read before. -/
def readAll (a : Arguments) : List Text → Except UsageFault Arguments
  | [] => .ok a
  | word :: rest =>
    if word = "--" then .ok { a with files := a.files ++ rest }
    else
      match readWord a word, rest with
      | .error fault, _ => .error fault
      | .ok (a, none), rest => readAll a rest
      | .ok (_, some (name, _)), [] => .error (.missingValue name)
      | .ok (a, some (_, set)), value :: rest => readAll (set value a) rest

/-- What the words of a call ask for. -/
def read (words : List Text) : Except UsageFault Arguments :=
  readAll {} words

end Arguments

end ApiLint.Command
