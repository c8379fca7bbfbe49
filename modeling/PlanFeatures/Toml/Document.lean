import PlanFeatures.Toml.Value

/-!
# TOML documents

A document is a list of statements: headers, which name the table that the
following keys belong to, and keys with values.  A table is defined once.  Tables
on the way to a header or along a dotted key come into being by themselves: a
header may define such a table later if no dotted key made it, and only tables
that dotted keys made can be extended by dotted keys.
-/

namespace PlanFeatures.Toml

inductive Statement where
  | header (path : List String)
  /-- Adds a table to an array of tables. -/
  | arrayHeader (path : List String)
  /-- The path holds the parts of a dotted key before the last one. -/
  | keyValue (path : List String) (key : String) (value : Value)
deriving Repr

/-- What a key of a table under construction stands for. -/
inductive Entry where
  | value (v : Value)
  /-- A table that has come into being by itself is implicit. -/
  | table (isImplicit isDotted : Bool) (entries : List (String × Entry))
  | tables (items : List (List (String × Entry)))

abbrev Entries := List (String × Entry)

namespace Entries

/-- Changes the entry of a key that is there. -/
def replace (es : Entries) (key : String) (e : Entry) : Entries :=
  es.map fun (k, old) => if k = key then (k, e) else (k, old)

/-- Changes the table at the end of a path.  Missing tables on the way are made;
`dotted` tells whether a dotted key leads there.  The change is told whether the
table was made by a dotted key. -/
def descend (dotted : Bool) (change : (isDotted : Bool) → Entries → Option Entries) :
    (path : List String) → (isDotted : Bool) → Entries → Option Entries
  | [], isDotted, es => change isDotted es
  | key :: path, _, es =>
    match es.lookup key with
    | none => do
      let inner ← descend dotted change path dotted []
      return es ++ [(key, .table true dotted inner)]
    | some (.value _) => none
    | some (.tables items) => do
      let last ← items.getLast?
      let last ← descend dotted change path false last
      return es.replace key (.tables (items.dropLast ++ [last]))
    | some (.table isImplicit isDotted inner) =>
      if dotted ∧ ¬ isImplicit then none
      else do
        let inner ← descend dotted change path isDotted inner
        return es.replace key (.table isImplicit isDotted inner)

/-- Adds a key with a value to a table, or to one inside it for a dotted key. -/
def insert (path : List String) (key : String) (v : Value) : Entries → Option Entries :=
  descend true
    (fun isDotted es =>
      if isDotted = path.isEmpty ∨ (es.lookup key).isSome then none
      else some (es ++ [(key, .value v)]))
    path false

/-- Defines the table of a header. -/
def define (key : String) (es : Entries) : Option Entries :=
  match es.lookup key with
  | none => some (es ++ [(key, .table false false [])])
  | some (.table true false inner) => some (es.replace key (.table false false inner))
  | some _ => none

/-- Adds a table to the array of tables of a header. -/
def append (key : String) (es : Entries) : Option Entries :=
  match es.lookup key with
  | none => some (es ++ [(key, .tables [[]])])
  | some (.tables items) => some (es.replace key (.tables (items ++ [[]])))
  | some _ => none

/-- Changes the table that holds the last key of a path. -/
def atParent (path : List String) (change : String → Entries → Option Entries) (es : Entries) :
    Option Entries := do
  let key ← path.getLast?
  descend false (fun _ => change key) path.dropLast false es

end Entries

mutual

def Entry.toValue : Entry → Value
  | .value v => v
  | .table _ _ entries => .table (Entry.toPairs entries)
  | .tables items => .array (Entry.toTables items)

def Entry.toPairs : List (String × Entry) → List (String × Value)
  | [] => []
  | (key, e) :: rest => (key, e.toValue) :: Entry.toPairs rest

def Entry.toTables : List (List (String × Entry)) → List Value
  | [] => []
  | entries :: rest => .table (Entry.toPairs entries) :: Entry.toTables rest

end

/-- A document so far, with the path of the header that holds now. -/
structure Document where
  entries : Entries
  current : List String

namespace Document

def empty : Document := ⟨[], []⟩

def add (d : Document) : Statement → Option Document
  | .header path => do return ⟨← d.entries.atParent path Entries.define, path⟩
  | .arrayHeader path => do return ⟨← d.entries.atParent path Entries.append, path⟩
  | .keyValue path key v => do
    let entries ← d.entries.descend false (fun _ => Entries.insert path key v) d.current false
    return { d with entries }

/-- The keys and values that statements define, if no statement contradicts an
earlier one. -/
def ofStatements (statements : List Statement) : Option (List (String × Value)) := do
  let d ← statements.foldlM add empty
  return Entry.toPairs d.entries

end Document
end PlanFeatures.Toml
