import PlanFeatures.Toml.Scan

/-!
# TOML strings

Strings stand between quotation marks, where a backslash starts an escape, or
between apostrophes, where it does not.  With three marks on either side they may
go over several lines; a line end right after the opening marks does not count.
-/

namespace PlanFeatures.Toml

open Scan

/-! ## Escapes -/

/-- The character whose number is written with a fixed count of hexadecimal
digits. -/
def codePoint (digits : Nat) : Scan Char := do
  let n ← (List.range digits).foldlM
    (fun n _ => return 16 * n + digitValue (← satisfy isHexDigit)) 0
  if Nat.isValidChar n then return Char.ofNat n else failure

/-- What follows the backslash of an escape. -/
def escaped : Scan Char := do
  match ← satisfy fun _ => true with
  | 'b' => return '\x08'
  | 't' => return '\t'
  | 'n' => return '\n'
  | 'f' => return '\x0c'
  | 'r' => return '\r'
  | '"' => return '"'
  | '\\' => return '\\'
  | 'u' => codePoint 4
  | 'U' => codePoint 8
  | _ => failure

/-! ## Strings of one line -/

/-- The rest of a string in quotation marks.  The fuel bounds the number of
characters. -/
def basicRest : (fuel : Nat) → Scan (List Char)
  | 0 => failure
  | fuel + 1 => do
    let c ← satisfy isPrintable
    if c == '"' then return []
    else
      let c ← if c == '\\' then escaped else pure c
      return c :: (← basicRest fuel)

def basicString (fuel : Nat) : Scan String := do
  mark '"'
  return String.ofList (← basicRest fuel)

def literalString : Scan String := do
  mark '\''
  let cs ← run fun c => isPrintable c && c != '\''
  mark '\''
  return String.ofList cs

/-! ## Strings of several lines -/

/-- The marks that end a string of several lines, if it ends here: three of them
close it, and up to two before those belong to it. -/
def closing (quote : Char) : Scan (List Char) := do
  let quotes ← run1 (· == quote)
  if quotes.length < 3 ∨ 5 < quotes.length then failure else return quotes.drop 3

/-- One or two marks that do not end the string. -/
def innerQuotes (quote : Char) : Scan (List Char) := do
  let quotes ← run1 (· == quote)
  if 3 ≤ quotes.length then failure else return quotes

/-- A backslash at the end of a line, with all blanks and line ends after it. -/
def lineContinuation (fuel : Nat) : Scan (List Char) := do
  mark '\\'
  blanks
  newline
  blankLines fuel
  return []

def lineBreak : Scan (List Char) := do
  newline
  return ['\n']

/-- One piece of a string of several lines in quotation marks. -/
def basicPiece (fuel : Nat) : Scan (List Char) :=
  let plain : Scan (List Char) := run1 fun c => isPrintable c && c != '"' && c != '\\'
  let escape : Scan (List Char) := do
    mark '\\'
    return [← escaped]
  plain <|> innerQuotes '"' <|> lineContinuation fuel <|> escape <|> lineBreak

/-- One piece of a string of several lines in apostrophes. -/
def literalPiece : Scan (List Char) :=
  let plain : Scan (List Char) := run1 fun c => isPrintable c && c != '\''
  plain <|> innerQuotes '\'' <|> lineBreak

/-- The rest of a string of several lines. -/
def multilineRest (quote : Char) (piece : Scan (List Char)) : (fuel : Nat) → Scan (List Char)
  | 0 => failure
  | fuel + 1 =>
    closing quote <|> do
      let cs ← piece
      return cs ++ (← multilineRest quote piece fuel)

def multiline (quote : Char) (piece : Scan (List Char)) (fuel : Nat) : Scan String := do
  word [quote, quote, quote]
  discard (optional newline)
  return String.ofList (← multilineRest quote piece fuel)

/-- A string of any form.  The fuel bounds the number of characters. -/
def text (fuel : Nat) : Scan String :=
  multiline '"' (basicPiece fuel) fuel <|> basicString fuel
    <|> multiline '\'' literalPiece fuel <|> literalString

end PlanFeatures.Toml
