import PlanFeatures.Term.Character

/-!
# Terms

A term is a name, optionally with terms as arguments in parentheses:
`c_some(r_primitive(on,0,1),c_top)`.  Blanks may stand before a name, a
parenthesis or a comma, and after the whole term.

Arguments that are not well formed up to their closing parenthesis are given up
altogether: the term then ends right after its name.  So a text is refused in one
of two ways only, for want of a first name or for what follows the first term.
-/

namespace PlanFeatures

inductive Term where
  | node (name : String) (args : List Term)
deriving Repr

namespace Term

def name : Term → String
  | node name _ => name

def args : Term → List Term
  | node _ args => args

/-- The name of a term that has no arguments. -/
def symbol? : Term → Option String
  | node name [] => some name
  | node _ (_ :: _) => none

mutual

/-- Every name of the term with its depth, the name of a term before those of
its arguments. -/
def outline (depth : Nat) : Term → List (Nat × String)
  | node name args => (depth, name) :: outlineAll (depth + 1) args

def outlineAll (depth : Nat) : List Term → List (Nat × String)
  | [] => []
  | t :: ts => outline depth t ++ outlineAll depth ts

end

/-! ## Reading -/

def skipBlanks (s : List Char) : List Char := s.dropWhile isTermBlank

/-- The given character, after blanks. -/
def readMark? (mark : Char) (s : List Char) : Option (List Char) :=
  match skipBlanks s with
  | [] => none
  | c :: rest => if c = mark then some rest else none

/-- A name, after blanks. -/
def readName? (s : List Char) : Option (String × List Char) :=
  let s := skipBlanks s
  match s.takeWhile isNamePart with
  | [] => none
  | c :: cs => some (String.ofList (c :: cs), s.dropWhile isNamePart)

mutual

/-- A term.  The fuel bounds the number of characters that are read. -/
def read? : (fuel : Nat) → List Char → Option (Term × List Char)
  | 0, _ => none
  | fuel + 1, s => do
    let (name, rest) ← readName? s
    match readArgs? fuel rest with
    | some (args, rest) => return (node name args, rest)
    | none => return (node name [], rest)

/-- Arguments with their parentheses. -/
def readArgs? : (fuel : Nat) → List Char → Option (List Term × List Char)
  | 0, _ => none
  | fuel + 1, s => do
    let s ← readMark? '(' s
    let (args, s) :=
      match read? fuel s with
      | none => ([], s)
      | some (t, s) =>
        let (ts, s) := readMore fuel s
        (t :: ts, s)
    return (args, ← readMark? ')' s)

/-- Further arguments, each after a comma. -/
def readMore : (fuel : Nat) → List Char → List Term × List Char
  | 0, s => ([], s)
  | fuel + 1, s =>
    match (readMark? ',' s).bind (read? fuel) with
    | none => ([], s)
    | some (t, rest) =>
      let (ts, rest) := readMore fuel rest
      (t :: ts, rest)

end

/-- Why a text is no term.  The rest of the text from the fault on is kept. -/
inductive Fault where
  /-- No name stands at the start. -/
  | noName (rest : List Char)
  /-- Something follows the term. -/
  | trailing (rest : List Char)
deriving DecidableEq, Repr

/-- The term that a whole text stands for. -/
def parse (text : String) : Except Fault Term :=
  let s := text.toList
  match read? (s.length + 1) s with
  | none => .error (.noName (skipBlanks s))
  | some (t, rest) =>
    match skipBlanks rest with
    | [] => .ok t
    | rest => .error (.trailing rest)

end Term
end PlanFeatures
