import PlanFeatures.Number.Decimal
import PlanFeatures.Toml.Scan
import PlanFeatures.Toml.Value

/-!
# TOML numbers, dates and times

Underscores may stand between two digits of a number.  Integers have 64 bits and
a sign.  A number that starts with a zero has no other digit before its point.
-/

namespace PlanFeatures.Toml

open Scan

/-! ## Digits -/

/-- Digits with underscores between them, which are dropped. -/
def digitsOf (isDigit : Char → Bool) : Scan (List Char) := do
  let first ← satisfy isDigit
  let rest ← go
  return first :: rest
where
  go : Scan (List Char) := fun s => some (digits s, remainder s)
  digits : List Char → List Char
    | '_' :: c :: rest => if isDigit c then c :: digits rest else []
    | c :: rest => if isDigit c then c :: digits rest else []
    | [] => []
  remainder : List Char → List Char
    | '_' :: c :: rest => if isDigit c then remainder rest else '_' :: c :: rest
    | c :: rest => if isDigit c then remainder rest else c :: rest
    | [] => []

/-- An optional sign; tells whether it is a minus. -/
def sign : Scan Bool := do
  match ← optional (satisfy fun c => c == '+' || c == '-') with
  | some c => return c == '-'
  | none => return false

/-- Digits of a decimal number, without zeros before others. -/
def decimalDigits : Scan (List Char) :=
  (do
    let digits ← digitsOf Char.isDigit
    if digits.head? = some '0' then failure else return digits)
  <|> (do mark '0'; return ['0'])

/-! ## Integers -/

/-- An integer has to fit into 64 bits. -/
def fitting (i : Int) : Scan Int :=
  if Int64.minValue.toInt ≤ i ∧ i ≤ Int64.maxValue.toInt then return i else failure

/-- An integer in a base other than ten. -/
def baseInteger (letter : Char) (base : Nat) : Scan Int := do
  word ['0', letter]
  let digits ← digitsOf fun c => isHexDigit c && digitValue c < base
  fitting (digits.foldl (fun n c => base * n + digitValue c) 0 : Nat)

def decimalInteger : Scan Int := do
  let negative ← sign
  let n : Int := Decimal.ofDigits (← decimalDigits)
  fitting (if negative then -n else n)

def integer : Scan Int :=
  baseInteger 'x' 16 <|> baseInteger 'o' 8 <|> baseInteger 'b' 2 <|> decimalInteger

/-! ## Floats -/

def fraction : Scan (List Char) := do
  mark '.'
  digitsOf Char.isDigit

def exponent : Scan Int := do
  discard (satisfy fun c => c == 'e' || c == 'E')
  let negative ← sign
  let n : Int := Decimal.ofDigits (← digitsOf Char.isDigit)
  return if negative then -n else n

/-- A number with a fraction, an exponent or both.  It must not be too large, but
may be too far below zero. -/
def decimalFloat : Scan Binary64 := do
  let negative ← sign
  let whole ← decimalDigits
  let places ← optional fraction
  let power ← if places.isSome then optional exponent else some <$> exponent
  let places := places.getD []
  let digits := Decimal.ofDigits (whole ++ places)
  let x := Decimal.toBinary negative ⟨digits, power.getD 0 - places.length⟩
  if x = .infinity false then failure else return x

def specialFloat : Scan Binary64 := do
  let negative ← sign
  (do word ['i', 'n', 'f']; return .infinity negative)
    <|> (do word ['n', 'a', 'n']; return .nan)

/-! ## Dates and times -/

/-- A number written with a fixed count of digits. -/
def fixedDigits (count : Nat) : Scan (List Char) :=
  (List.range count).mapM fun _ => satisfy Char.isDigit

/-- Digits that stand for a number within bounds. -/
def bounded (count low high : Nat) : Scan (List Char) := do
  let digits ← fixedDigits count
  let n := Decimal.ofDigits digits
  if low ≤ n ∧ n ≤ high then return digits else failure

def isLeapYear (year : Nat) : Bool := year % 4 = 0 ∧ (year % 100 ≠ 0 ∨ year % 400 = 0)

def daysInMonth (year month : Nat) : Nat :=
  if month = 2 then if isLeapYear year then 29 else 28
  else if month = 4 ∨ month = 6 ∨ month = 9 ∨ month = 11 then 30
  else 31

def date : Scan (List Char) := do
  let year ← fixedDigits 4
  mark '-'
  let month ← bounded 2 1 12
  mark '-'
  let day ← bounded 2 1 (daysInMonth (Decimal.ofDigits year) (Decimal.ofDigits month))
  return year ++ '-' :: month ++ '-' :: day

/-- Seconds may be leap seconds and may have a fraction. -/
def time : Scan (List Char) := do
  let hour ← bounded 2 0 23
  mark ':'
  let minute ← bounded 2 0 59
  mark ':'
  let second ← bounded 2 0 60
  let places ← optional do
    mark '.'
    run1 Char.isDigit
  let places := places.elim [] ('.' :: ·)
  return hour ++ ':' :: minute ++ ':' :: second ++ places

/-- The difference from universal time. -/
def offset : Scan (List Char) :=
  (do
    let c ← satisfy fun c => c == 'Z' || c == 'z'
    return [c])
  <|> (do
    let c ← satisfy fun c => c == '+' || c == '-'
    let hour ← bounded 2 0 23
    mark ':'
    let minute ← bounded 2 0 59
    return c :: hour ++ ':' :: minute)

/-- A date, a time, or a date and a time, which may have an offset. -/
def datetime : Scan String :=
  (do
  let day ← date
    let moment ← optional do
      discard (satisfy fun c => c == 'T' || c == 't' || c == ' ')
      let clock ← time
      let shift ← optional offset
      return 'T' :: clock ++ shift.getD []
    return String.ofList (day ++ moment.getD []))
  <|> String.ofList <$> time

/-! ## Scalars -/

def boolean : Scan Bool :=
  (do word "true".toList; return true) <|> (do word "false".toList; return false)

/-- A number, date, time or truth value. -/
def scalar : Scan Value :=
  Value.datetime <$> datetime <|> Value.float <$> decimalFloat <|> Value.integer <$> integer
    <|> Value.float <$> specialFloat <|> Value.boolean <$> boolean

end PlanFeatures.Toml
