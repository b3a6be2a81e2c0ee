import ApiLint.Failure

/-! Laying one configuration over another. Mappings are laid over each other key by key; any other
value takes the place of the one below, except null, which leaves it as it is. -/
namespace ApiLint.Config

mutual

/-- A value laid over another one, or over nothing. A mapping that contains itself still stands
wherever it did, when it is laid over another one. -/
def overlayValue (below : Option Value) : Value → Value
  | .map entries =>
    match below.map Value.opened with
    | some (.map base) => .map (overlay base entries)
    | _ => .map entries
  | .loop label (.map entries) =>
    match below.map Value.opened with
    | some (.map base) =>
      .map (Value.fillEntries label (.loop label (.map entries)) (overlay base entries))
    | _ => .loop label (.map entries)
  | v => v
termination_by structural v => v

/-- Entries laid over others. Keys that are new come last. -/
def overlay (base : Entries) : List (Value × Value) → Entries
  | [] => base
  | (_, .null) :: entries => overlay base entries
  | (key, value) :: entries =>
    overlay (Entries.put key (overlayValue (Entries.find? key base) value) base) entries

end

/-- A pair in a row of pairs, as an entry. -/
def asPair (v : Value) : Except Misuse (Value × Value) :=
  match v.elements? with
  | none => .error (.notIterable v.kindName)
  | some [key, value] => if key.isKey then .ok (key, value) else .error (.notKey key.kindName)
  | some _ => .error .notPairs

/-- The entries that a value stands for: those of a mapping, or a row of pairs. -/
def asEntries (v : Value) : Except Misuse Entries :=
  match v.opened with
  | .map entries => .ok entries
  | _ =>
    match v.elements? with
    | none => .error (.notIterable v.kindName)
    | some items => (items.mapM asPair).map Entries.ofPairs

/-- A value laid over another one, both of which must stand for mappings. -/
def overlayAny (base top : Value) : Except Misuse Value := do
  let below ← asEntries base
  match top.opened with
  | .map entries => return .map (overlay below entries)
  | v => throw (.notMapping v.kindName "items")

end ApiLint.Config
