import ApiLint.Yaml.Cursor

/-! The tokens of a YAML text. Indentation is made explicit: a token opens each block collection
and one closes it, and a token stands in front of every key, also of one without a question mark.
Where a text is not YAML, a token with the fault is the last one. -/
namespace ApiLint.Yaml

/-- A line in front of a document that tells how to read it. -/
inductive Directive
  | version (major : Nat)
  | tagHandle (handle uri : String)
  | other
  deriving DecidableEq, Repr

/-- What a token is. -/
inductive TokenKind
  | directive (d : Directive)
  | documentStart
  | documentEnd
  | streamEnd
  | blockSequenceStart
  | blockMappingStart
  | blockEnd
  | flowSequenceStart
  | flowSequenceEnd
  | flowMappingStart
  | flowMappingEnd
  | blockEntry
  | flowEntry
  | key
  | value
  | alias (name : String)
  | anchor (name : String)
  /-- A tag: its handle, if it is not written in full, and the rest. -/
  | tag (handle : Option String) (suffix : String)
  | scalar (text : Text) (plain : Bool)
  /-- What cannot be read. Nothing comes after it. -/
  | broken (fault : Fault)
  deriving DecidableEq, Repr

/-- A token and where it starts. -/
structure Token where
  kind : TokenKind
  mark : Mark
  deriving DecidableEq, Repr

end ApiLint.Yaml
