import ApiLint.Toml.Item

/-! TOML documents, line by line. A table may be opened once by a header of its own; a table that
keys with dots have made may not be opened by a later header, and a table or an array that is
written as a value stays as it is. -/
namespace ApiLint.Toml

/-- What the lines read so far say. -/
structure Progress where
  entries : Entries := []
  /-- The table that the next keys belong to. -/
  header : List String := []
  /-- The tables that no header may open again. -/
  opened : List (List String) := []
  /-- The tables that keys with dots have made since the last header. -/
  dotted : List (List String) := []
  /-- The values that nothing can be added to. -/
  frozen : List (List String) := []

namespace Progress

/-- The start of a header: what keys with dots have made before it is closed to headers. -/
def endSection (p : Progress) : Progress :=
  { p with opened := p.dotted ++ p.opened, dotted := [] }

/-- A header that opens a table. -/
def openTable (key : List String) (p : Progress) : Except Fault Progress :=
  if p.opened.contains key || isFrozen p.frozen key then .error .malformed
  else
    match changeAt true some key p.entries with
    | none => .error .malformed
    | some entries => .ok { p with entries, header := key, opened := key :: p.opened }

/-- A header that adds a table to an array of tables; what was opened inside the one before may be
opened again. -/
def addTable (key : List String) (p : Progress) : Except Fault Progress :=
  if isFrozen p.frozen key then .error .malformed
  else
    match key.getLast? with
    | none => .error .malformed
    | some stem =>
      match changeAt true (Toml.addTable stem) key.dropLast p.entries with
      | none => .error .malformed
      | some entries =>
        let outside (paths : List (List String)) := paths.filter (!key.isPrefixOf ·)
        .ok { p with
          entries, header := key, opened := key :: outside p.opened, frozen := outside p.frozen }

/-- The tables that a key with dots leads through, below a header. -/
def passed (header key : List String) : List (List String) :=
  (List.range (key.length - 1)).map fun n => header ++ key.take (n + 1)

/-- A key with its value. -/
def addEntry (key : List String) (value : Value) (p : Progress) : Except Fault Progress :=
  let through := passed p.header key
  let parent := p.header ++ key.dropLast
  if through.any p.opened.contains || isFrozen p.frozen parent then .error .malformed
  else
    match key.getLast? with
    | none => .error .malformed
    | some stem =>
      match changeAt true (addNew stem value) parent p.entries with
      | none => .error .malformed
      | some entries =>
        .ok { p with
          entries, dotted := through ++ p.dotted
          frozen := if isClosed value then (p.header ++ key) :: p.frozen else p.frozen }

/-- A header line from behind its brackets on; `close` is what must follow the key. -/
def headerLine (change : List String → Progress → Except Fault Progress) (close cs : List Char)
    (p : Progress) : Except Fault (Progress × List Char) := do
  let cs := skipBlanks cs
  let (key, rest) ← readKey (cs.length + 1) cs
  let p ← change key p.endSection
  if close.isPrefixOf rest then return (p, rest.drop close.length) else .error .malformed

/-- The statement of a line, if there is one, and what follows it. -/
def statement (cs : List Char) (p : Progress) : Except Fault (Progress × List Char) :=
  match cs with
  | '[' :: '[' :: rest => headerLine addTable [']', ']'] rest p
  | '[' :: rest => headerLine openTable [']'] rest p
  | c :: rest =>
    if isBareKey c || c = '"' || c = '\'' then do
      match ← readKey (rest.length + 2) (c :: rest) with
      | (key, '=' :: rest) =>
        let (value, rest) ← readItem (2 * rest.length + 4) (skipBlanks rest)
        return (← p.addEntry key value, rest)
      | _ => .error .malformed
    else .ok (p, c :: rest)
  | [] => .ok (p, [])

/-- Reads the lines that are left. Behind a statement a line may hold a comment. -/
def run : (fuel : Nat) → List Char → Progress → Except Fault Progress
  | 0, _, _ => .error .malformed
  | fuel + 1, cs, p => do
    let (p, rest) ← p.statement (skipBlanks cs)
    match ← skipComment (skipBlanks rest) with
    | [] => return p
    | '\n' :: rest => run fuel rest p
    | _ => .error .malformed
termination_by structural fuel => fuel

end Progress

/-- A text with line ends of two characters made one. -/
def plainLineEnds : List Char → List Char
  | '\r' :: '\n' :: rest => '\n' :: plainLineEnds rest
  | c :: rest => c :: plainLineEnds rest
  | [] => []

def read (text : List Char) : Except Fault Value := do
  let p ← Progress.run (text.length + 1) (plainLineEnds text) {}
  return .map p.entries

end ApiLint.Toml
