import ApiLint.Numeral.Reading
import ApiLint.Text.Hex

/-! The parts of a TOML text that hold no values: blanks, comments, keys and strings. -/
namespace ApiLint.Toml

/-- Why a text is not TOML. -/
inductive Fault
  | malformed
  /-- A whole number that is too long to be read. -/
  | number (fault : Numeral.Fault)
  deriving DecidableEq, Repr

def Fault.message : Fault → Text
  | malformed => "<toml error>"
  | number fault => fault.message

/-- A control character that strings and comments may not hold. -/
def isControl (c : Char) : Bool :=
  (c.toNat < 0x20 || c.toNat = 0x7F) && c ≠ '\t'

def isBlank (c : Char) : Bool :=
  c = ' ' || c = '\t'

def skipBlanks (cs : List Char) : List Char :=
  cs.dropWhile isBlank

def skipComment : List Char → Except Fault (List Char)
  | '#' :: rest =>
    if (rest.takeWhile (· ≠ '\n')).any isControl then .error .malformed
    else .ok (rest.dropWhile (· ≠ '\n'))
  | cs => .ok cs

/-- What follows blanks, line ends and comments. -/
def skipGap : (fuel : Nat) → List Char → Except Fault (List Char)
  | 0, cs => .ok cs
  | fuel + 1, cs =>
    match cs.dropWhile fun c => isBlank c || c = '\n' with
    | '#' :: rest => do skipGap fuel (← skipComment ('#' :: rest))
    | cs => .ok cs

/-- The character that a one-letter escape stands for. -/
def escaped? : Char → Option Char
  | 'b' => some '\x08'
  | 't' => some '\t'
  | 'n' => some '\n'
  | 'f' => some '\x0C'
  | 'r' => some '\r'
  | '"' => some '"'
  | '\\' => some '\\'
  | _ => none

/-- The character with a code of so many digits, and what follows them. -/
def readCode (width : Nat) (cs : List Char) : Except Fault (Char × List Char) :=
  let digits := cs.take width
  match Text.hexNumber? digits with
  | some code =>
    if digits.length = width ∧ code.isValidChar then .ok (Char.ofNat code, cs.drop width)
    else .error .malformed
  | none => .error .malformed

/-- What follows the line end that a backslash cancels, with the blanks behind it, when nothing but
blanks stands before it. -/
def skipLineEnd (cs : List Char) : Except Fault (List Char) :=
  match skipBlanks cs with
  | [] => .ok []
  | '\n' :: rest => .ok (rest.dropWhile fun c => isBlank c || c = '\n')
  | _ => .error .malformed

/-- The text that an escape stands for, from behind its backslash on. -/
def readEscape (multiline : Bool) : List Char → Except Fault (List Char × List Char)
  | [] => .error .malformed
  | c :: rest =>
    if multiline && (isBlank c || c = '\n') then
      (skipLineEnd (c :: rest)).map fun rest => ([], rest)
    else if c = 'u' then (readCode 4 rest).map fun (d, rest) => ([d], rest)
    else if c = 'U' then (readCode 8 rest).map fun (d, rest) => ([d], rest)
    else
      match escaped? c with
      | some d => .ok ([d], rest)
      | none => .error .malformed

/-- The text up to the closing quote, or the three closing quotes of a string of several lines. -/
def readBasic (multiline : Bool) : (fuel : Nat) → List Char → Except Fault (List Char × List Char)
  | 0, _ => .error .malformed
  | fuel + 1, cs =>
    let more (text : List Char) (rest : List Char) : Except Fault (List Char × List Char) :=
      (readBasic multiline fuel rest).map fun (cs, rest) => (text ++ cs, rest)
    match cs with
    | [] => .error .malformed
    | '\\' :: rest =>
      match readEscape multiline rest with
      | .error e => .error e
      | .ok (text, rest) => more text rest
    | '"' :: rest =>
      if !multiline then .ok ([], rest)
      else
        match rest with
        | '"' :: '"' :: rest => .ok ([], rest)
        | rest => more ['"'] rest
    | c :: rest =>
      if isControl c && !(multiline && c = '\n') then .error .malformed else more [c] rest

/-- The text up to the closing apostrophe, or the three closing ones. -/
def readLiteral (multiline : Bool) : List Char → Except Fault (List Char × List Char)
  | [] => .error .malformed
  | '\'' :: rest =>
    if !multiline then .ok ([], rest)
    else
      match rest with
      | '\'' :: '\'' :: rest => .ok ([], rest)
      | rest => (readLiteral multiline rest).map fun (cs, rest) => ('\'' :: cs, rest)
  | c :: rest =>
    if isControl c && !(multiline && c = '\n') then .error .malformed
    else (readLiteral multiline rest).map fun (cs, rest) => (c :: cs, rest)

/-- A string of several lines may end with up to two quotes of its own. -/
def extraQuotes (quote : Char) (text rest : List Char) : List Char × List Char :=
  let extra := (rest.take 2).takeWhile (· = quote)
  (text ++ extra, rest.drop extra.length)

/-- A string without the line end that its first line may start with. -/
def dropFirstLineEnd : List Char → List Char
  | '\n' :: rest => rest
  | cs => cs

/-- The string that starts here, with one quote or with three, if one starts here. -/
def readString? (cs : List Char) : Option (Except Fault (List Char × List Char)) :=
  match cs with
  | '"' :: '"' :: '"' :: rest =>
    some ((readBasic true (rest.length + 1) (dropFirstLineEnd rest)).map fun (text, rest) =>
      extraQuotes '"' text rest)
  | '"' :: rest => some (readBasic false (rest.length + 1) rest)
  | '\'' :: '\'' :: '\'' :: rest =>
    some ((readLiteral true (dropFirstLineEnd rest)).map fun (text, rest) =>
      extraQuotes '\'' text rest)
  | '\'' :: rest => some (readLiteral false rest)
  | _ => none

/-- Whether a character may stand in a key without quotes. -/
def isBareKey (c : Char) : Bool :=
  ('0' ≤ c && c ≤ '9') || ('a' ≤ c && c ≤ 'z') || ('A' ≤ c && c ≤ 'Z') || c = '-' || c = '_'

/-- A part of a key: bare, or a string of one line. -/
def readKeyPart : List Char → Except Fault (String × List Char)
  | '"' :: rest =>
    (readBasic false (rest.length + 1) rest).map fun (cs, rest) => (String.ofList cs, rest)
  | '\'' :: rest => (readLiteral false rest).map fun (cs, rest) => (String.ofList cs, rest)
  | cs =>
    let name := cs.takeWhile isBareKey
    if name.isEmpty then .error .malformed
    else .ok (String.ofList name, cs.dropWhile isBareKey)

/-- The parts of a key, with dots between them, and what follows the key and its blanks. -/
def readKey : (fuel : Nat) → List Char → Except Fault (List String × List Char)
  | 0, _ => .error .malformed
  | fuel + 1, cs => do
    let (part, rest) ← readKeyPart cs
    match skipBlanks rest with
    | '.' :: rest =>
      let (parts, rest) ← readKey fuel (skipBlanks rest)
      return (part :: parts, rest)
    | rest => return ([part], rest)

end ApiLint.Toml
