import PlanFeatures.Toml.Document
import PlanFeatures.Toml.Scalar
import PlanFeatures.Toml.Text

/-!
# Reading TOML

Every scanner that calls itself has fuel.  A value takes three of it before it
reads its first character, so four for each character of the text are enough.
-/

namespace PlanFeatures.Toml

open Scan

/-- Dotted keys have fewer parts, and values are nested less deep. -/
def depthLimit : Nat := 80

/-! ## Keys -/

def simpleKey (fuel : Nat) : Scan String :=
  basicString fuel <|> literalString <|> String.ofList <$> run1 isBareKeyPart

/-- The parts of a key, with a point and perhaps blanks between them. -/
def keyParts : (fuel : Nat) → Scan (List String)
  | 0 => failure
  | fuel + 1 => do
    blanks
    let part ← simpleKey fuel
    blanks
    (do mark '.'; return part :: (← keyParts fuel)) <|> pure [part]

def key (fuel : Nat) : Scan (List String) := do
  let parts ← keyParts fuel
  if depthLimit ≤ parts.length then failure else return parts

/-- The parts of a key before the last one, and the last one. -/
def splitKey (parts : List String) : Scan (List String × String) :=
  match parts.getLast? with
  | some last => return (parts.dropLast, last)
  | none => failure

/-! ## Values -/

mutual

/-- A value at a depth. -/
def value : (fuel depth : Nat) → Scan Value
  | 0, _ => failure
  | fuel + 1, depth =>
    Value.string <$> text fuel <|> array fuel (depth + 1) <|> inlineTable fuel (depth + 1)
      <|> scalar

/-- Values in brackets, over any number of lines. -/
def array : (fuel depth : Nat) → Scan Value
  | 0, _ => failure
  | fuel + 1, depth => do
    if depthLimit ≤ depth then failure
    mark '['
    let items ← items fuel depth
    emptyLines fuel
    mark ']'
    return .array items

/-- Values with commas between them, and perhaps one after the last. -/
def items : (fuel depth : Nat) → Scan (List Value)
  | 0, _ => failure
  | fuel + 1, depth =>
    (do
      emptyLines fuel
      let v ← value fuel depth
      emptyLines fuel
      let rest ← (do mark ','; items fuel depth) <|> pure []
      return v :: rest)
    <|> pure []

/-- Keys with values in braces, on one line. -/
def inlineTable : (fuel depth : Nat) → Scan Value
  | 0, _ => failure
  | fuel + 1, depth => do
    if depthLimit ≤ depth then failure
    mark '\x7b'
    let entries ← (do
      let first ← pair fuel depth []
      morePairs fuel depth first) <|> pure []
    blanks
    mark '\x7d'
    return .table (Entry.toPairs entries)

/-- A key with its value, added to those before it. -/
def pair : (fuel depth : Nat) → Entries → Scan Entries
  | 0, _, _ => failure
  | fuel + 1, depth, entries => do
    let (path, last) ← splitKey (← key fuel)
    mark '='
    blanks
    let v ← value fuel depth
    blanks
    match entries.insert path last v with
    | some entries => return entries
    | none => failure

/-- Further keys with values, each after a comma. -/
def morePairs : (fuel depth : Nat) → Entries → Scan Entries
  | 0, _, _ => failure
  | fuel + 1, depth, entries =>
    (do
      mark ','
      let entries ← pair fuel depth entries
      morePairs fuel depth entries)
    <|> pure entries

end

/-! ## Documents -/

def keyValue (fuel : Nat) : Scan Statement := do
  let (path, last) ← splitKey (← key fuel)
  mark '='
  blanks
  let v ← value fuel 0
  lineEnd
  return .keyValue path last v

def header (fuel : Nat) : Scan Statement := do
  mark '['
  let path ← key fuel
  mark ']'
  lineEnd
  return .header path

def arrayHeader (fuel : Nat) : Scan Statement := do
  word ['[', '[']
  let path ← key fuel
  word [']', ']']
  lineEnd
  return .arrayHeader path

/-- A line, if it is not empty, or a part of a text up to the end of a line. -/
def line (fuel : Nat) : Scan (Option Statement) :=
  (do discard (optional comment); newline; return none)
    <|> (do comment; finish; return none)
    <|> some <$> arrayHeader fuel <|> some <$> header fuel <|> some <$> keyValue fuel

/-- All statements up to the end of the text. -/
def statements : (fuel : Nat) → Scan (List Statement)
  | 0 => failure
  | fuel + 1 => do
    blanks
    (do finish; return []) <|> do
      let statement ← line fuel
      let rest ← statements fuel
      return statement.toList ++ rest

/-- The keys and values of a document.  A byte order mark may stand before it. -/
def parse (source : String) : Option (List (String × Value)) := do
  let s := source.toList
  let s := if s.head? = some '\uFEFF' then s.tail else s
  let found ← Scan.all? (statements (4 * (s.length + 1))) s
  Document.ofStatements found

end PlanFeatures.Toml
