/-!
# Scanners

A scanner reads a value off the front of a text, or fails.  Of two scanners joined
by `<|>` the second starts where the first did.
-/

namespace PlanFeatures.Toml

abbrev Scan := StateT (List Char) Option

namespace Scan
variable {α : Type}

/-- The next character, which has to satisfy a condition. -/
def satisfy (p : Char → Bool) : Scan Char
  | [] => none
  | c :: rest => if p c then some (c, rest) else none

/-- A given character. -/
def mark (c : Char) : Scan Unit := discard (satisfy (· == c))

/-- Given characters in a row. -/
def word (cs : List Char) : Scan Unit := cs.forM mark

/-- The longest run of characters that satisfy a condition. -/
def run (p : Char → Bool) : Scan (List Char) := fun s => some (s.takeWhile p, s.dropWhile p)

/-- The longest run, which must not be empty. -/
def run1 (p : Char → Bool) : Scan (List Char) := do
  let cs ← run p
  if cs.isEmpty then failure else return cs

/-- The end of the text. -/
def finish : Scan Unit
  | [] => some ((), [])
  | _ :: _ => none

/-- The value of a scanner that reads all of a text. -/
def all? (p : Scan α) (s : List Char) : Option α :=
  match p s with
  | some (a, []) => some a
  | _ => none

end Scan

/-! ## Blanks, comments and line ends -/

def isBlank (c : Char) : Bool := c == ' ' || c == '\t'

/-- A tab, or a character that is neither a control character nor DEL. -/
def isPrintable (c : Char) : Bool := c == '\t' || (0x20 ≤ c.toNat && c.toNat ≠ 0x7F)

open Scan

def blanks : Scan Unit := discard (run isBlank)

/-- A line feed, with or without a carriage return before it. -/
def newline : Scan Unit := mark '\n' <|> word ['\r', '\n']

def comment : Scan Unit := do
  mark '#'
  discard (run isPrintable)

/-- The end of a line or of the text, after blanks and perhaps a comment. -/
def lineEnd : Scan Unit := do
  blanks
  discard (optional comment)
  newline <|> finish

/-- Blanks and line ends, at most as many lines as there is fuel. -/
def blankLines : (fuel : Nat) → Scan Unit
  | 0 => blanks
  | fuel + 1 => do
    blanks
    (do newline; blankLines fuel) <|> pure ()

/-- Blanks, comments and line ends, at most as many lines as there is fuel. -/
def emptyLines : (fuel : Nat) → Scan Unit
  | 0 => blanks
  | fuel + 1 => do
    blanks
    (do discard (optional comment); newline; emptyLines fuel) <|> pure ()

/-! ## Hexadecimal digits -/

def isHexDigit (c : Char) : Bool :=
  c.isDigit || ('a' ≤ c && c ≤ 'f') || ('A' ≤ c && c ≤ 'F')

/-- The value of a digit; letters count from ten on. -/
def digitValue (c : Char) : Nat :=
  if c.isDigit then c.toNat - '0'.toNat
  else if 'a' ≤ c ∧ c ≤ 'f' then c.toNat - 'a'.toNat + 10
  else c.toNat - 'A'.toNat + 10

end PlanFeatures.Toml
