import ApiLint.Toml.Number
import ApiLint.Toml.Table

/-! Values behind a key: strings, truth values, numbers, dates and times, arrays, and tables in
braces. -/
namespace ApiLint.Toml

/-- A value that is not put together from others, if one starts here. -/
def readSimple? (cs : List Char) : Option (Except Fault (Value × List Char)) :=
  match cs with
  | 't' :: 'r' :: 'u' :: 'e' :: rest => some (.ok (.bool true, rest))
  | 'f' :: 'a' :: 'l' :: 's' :: 'e' :: rest => some (.ok (.bool false, rest))
  | cs =>
    ((readString? cs).map fun r => r.map fun (text, rest) => (.str (Text.ofChars text), rest))
      <|> readMoment? cs
      <|> ((readTime? cs).map fun (time, rest) => .ok (.time time, rest))
      <|> ((readBased? cs).map .ok)
      <|> readDecimal? cs
      <|> ((readNamed? cs).map .ok)

/-- The table in braces that is read so far, and the paths of the values in it that are closed. -/
structure Inline where
  entries : Entries := []
  frozen : List (List String) := []

/-- The table with an entry more. -/
def Inline.add (key : List String) (value : Value) (t : Inline) : Except Fault Inline :=
  if isFrozen t.frozen key then .error .malformed
  else
    match key.getLast? with
    | none => .error .malformed
    | some stem =>
      match changeAt false (addNew stem value) key.dropLast t.entries with
      | none => .error .malformed
      | some entries =>
        .ok ⟨entries, if isClosed value then key :: t.frozen else t.frozen⟩

mutual

/-- The value that starts here. -/
def readItem : (fuel : Nat) → List Char → Except Fault (Value × List Char)
  | 0, _ => .error .malformed
  | fuel + 1, cs =>
    match cs with
    | '[' :: rest =>
      match skipGap (rest.length + 1) rest with
      | .error e => .error e
      | .ok (']' :: rest) => .ok (.list [], rest)
      | .ok rest => (readArray fuel rest).map fun (items, rest) => (.list items, rest)
    | '{' :: rest =>
      match skipBlanks rest with
      | '}' :: rest => .ok (.map [], rest)
      | rest => (readInline fuel {} rest).map fun (entries, rest) => (.map entries, rest)
    | cs => (readSimple? cs).getD (.error .malformed)
termination_by structural fuel => fuel

/-- The items of an array from the next one on, and what follows its bracket. -/
def readArray : (fuel : Nat) → List Char → Except Fault (List Value × List Char)
  | 0, _ => .error .malformed
  | fuel + 1, cs => do
    let (item, rest) ← readItem fuel cs
    match ← skipGap (rest.length + 1) rest with
    | ']' :: rest => return ([item], rest)
    | ',' :: rest =>
      match ← skipGap (rest.length + 1) rest with
      | ']' :: rest => return ([item], rest)
      | rest =>
        let (items, rest) ← readArray fuel rest
        return (item :: items, rest)
    | _ => .error .malformed

/-- The entries between braces from the next one on, and what follows the closing brace. -/
def readInline : (fuel : Nat) → Inline → List Char → Except Fault (Entries × List Char)
  | 0, _, _ => .error .malformed
  | fuel + 1, table, cs => do
    match ← readKey (cs.length + 1) cs with
    | (key, '=' :: rest) =>
      let (value, rest) ← readItem fuel (skipBlanks rest)
      let table ← table.add key value
      match skipBlanks rest with
      | '}' :: rest => return (table.entries, rest)
      | ',' :: rest => readInline fuel table (skipBlanks rest)
      | _ => .error .malformed
    | _ => .error .malformed

end

end ApiLint.Toml
