import PlanFeatures.Term.Parser

/-!
# Diagnostics of terms

The message for a text that is no term shows the line of the fault with a caret
below the first character that does not fit.  The caret is placed by the number
of bytes before that character, so it stands further to the right after
characters outside ASCII.
-/

namespace PlanFeatures.Term

/-- Number of bytes of the UTF-8 form. -/
def byteCount (s : List Char) : Nat := s.foldr (fun c k => c.utf8Size + k) 0

/-- The characters before the first line end, which is a line feed with or
without a carriage return before it. -/
def firstLine : List Char → List Char
  | [] => []
  | '\n' :: _ => []
  | '\r' :: '\n' :: _ => []
  | c :: rest => c :: firstLine rest

/-- Drops white space at the end. -/
def trimRight (s : List Char) : List Char := (s.reverse.dropWhile isWhiteSpace).reverse

namespace Fault

def rest : Fault → List Char
  | noName rest | trailing rest => rest

/-- Name of what was looked for in vain. -/
def label : Fault → String
  | noName _ => "TakeWhile1"
  | trailing _ => "Eof"

/-- The message for a fault of a text. -/
def message (f : Fault) (text : String) : String :=
  let text := text.toList
  if text.isEmpty then s!"0: in {f.label}, got empty input\n\n"
  else
    let before := text.take (text.length - f.rest.length)
    let lineNumber := before.count '\n' + 1
    let sameLine := (before.reverse.takeWhile (· ≠ '\n')).reverse
    let line := trimRight (firstLine (sameLine ++ f.rest))
    let caret := String.ofList (List.replicate (byteCount sameLine) ' ' ++ ['^'])
    s!"0: at line {lineNumber}, in {f.label}:\n{String.ofList line}\n{caret}\n\n"

end Fault
end PlanFeatures.Term
