import PlanFeatures.Number.Binary64

/-!
# Decimal texts of binary numbers

`Decimal.toBinary` reads a decimal as the nearest binary number.  `shortest` is
the decimal with the fewest digits that reads back as a given number; of two such
it is the nearer one, of two equally near the larger.  The digits are written
without an exponent.
-/

namespace PlanFeatures

/-- `digits * 10 ^ exponent`. -/
structure Decimal where
  digits : Nat
  exponent : Int
deriving DecidableEq, Repr

namespace Decimal

/-- Number of decimal digits, at least one. -/
def digitCount (n : Nat) : Nat := (Nat.toDigits 10 n).length

/-- The value in units, as numerator and denominator. -/
def units (d : Decimal) : Nat × Nat :=
  let scaled := d.digits <<< Binary64.unitBits
  match d.exponent with
  | .ofNat e => (scaled * Nat.pow 10 e, 1)
  | .negSucc e => (scaled, Nat.pow 10 (e + 1))

/-- The number with a sign whose magnitude is nearest to the decimal.  Decimals
from `10 ^ 400` on are out of range, those below `10 ^ (-400)` go to zero. -/
def toBinary (negative : Bool) (d : Decimal) : Binary64 :=
  let place := digitCount d.digits + d.exponent
  if d.digits = 0 ∨ place < -400 then .ofUnits negative 0 1
  else if 400 < place then .infinity negative
  else
    let (num, den) := d.units
    .ofUnits negative num den

/-! ## Reading texts -/

def isDigits (s : List Char) : Bool := s.all Char.isDigit

/-- The number that decimal digits stand for. -/
def ofDigits (s : List Char) : Nat := Nat.ofDigitChars 10 s 0

/-- A whole number with an optional sign. -/
def readExponent? (s : List Char) : Option Int :=
  let (negative, digits) :=
    match s with
    | '-' :: rest => (true, rest)
    | '+' :: rest => (false, rest)
    | _ => (false, s)
  if digits.isEmpty ∨ ¬ isDigits digits then none
  else some (if negative then -(ofDigits digits : Int) else ofDigits digits)

/-- A decimal without a sign: digits with at most one point among them, and
optionally the letter `e` and an exponent. -/
def read? (s : List Char) : Option Decimal := do
  let isMark : Char → Bool := fun c => c == 'e' || c == 'E'
  let mantissa := s.takeWhile fun c => !isMark c
  let exponent ← match s.dropWhile fun c => !isMark c with
    | [] => some 0
    | _ :: rest => readExponent? rest
  let whole := mantissa.takeWhile (· ≠ '.')
  let fraction := (mantissa.dropWhile (· ≠ '.')).drop 1
  if whole.isEmpty ∧ fraction.isEmpty ∨ ¬ isDigits whole ∨ ¬ isDigits fraction then none
  else some ⟨ofDigits (whole ++ fraction), exponent - fraction.length⟩

/-! ## Writing numbers -/

/-- The exponent of the first digit of a positive value in units. -/
def leadingExponent (units : Nat) : Int :=
  let whole := units >>> Binary64.unitBits
  if whole ≠ 0 then digitCount whole - 1
  else
    -- Multiplication by `10 ^ 400` makes the whole part positive.
    (digitCount ((units * Nat.pow 10 400) >>> Binary64.unitBits) : Int) - 401

/-- The two neighbours of a value on the grid of the multiples of `10 ^ exponent`,
the nearer one first, and the larger one first when they are equally near. -/
def neighbours (units : Nat) (exponent : Int) : List Decimal :=
  let (num, den) :=
    match exponent with
    | .ofNat e => (units, Nat.pow 10 e <<< Binary64.unitBits)
    | .negSucc e => (units * Nat.pow 10 (e + 1), 1 <<< Binary64.unitBits)
  let below := num / den
  if 2 * (num % den) < den then [⟨below, exponent⟩, ⟨below + 1, exponent⟩]
  else [⟨below + 1, exponent⟩, ⟨below, exponent⟩]

/-- A value in units written out in full. -/
def exact (units : Nat) : Decimal := ⟨units * Nat.pow 5 Binary64.unitBits, -Binary64.unitBits⟩

/-- The shortest decimal that reads back as a positive finite number.  Seventeen
digits are always enough. -/
def shortest (x : Binary64) : Decimal :=
  let units := x.units
  let leading := leadingExponent units
  let candidates := (List.range 17).flatMap fun n => neighbours units (leading - Int.ofNat n)
  (candidates.find? fun d => (d.toBinary false).magnitudeBits = x.magnitudeBits).getD (exact units)

/-- Digits with as many of them behind the point as the exponent says. -/
def text (d : Decimal) : String :=
  let digits := Nat.toDigits 10 d.digits
  match d.exponent with
  | .ofNat e => String.ofList (digits ++ if d.digits = 0 then [] else List.replicate e '0')
  | .negSucc e =>
    -- There are `e + 1` places behind the point.
    let padded := List.replicate (e + 2 - digits.length) '0' ++ digits
    let whole := padded.take (padded.length - (e + 1))
    let fraction := (padded.drop whole.length).reverse.dropWhile (· == '0') |>.reverse
    String.ofList (if fraction.isEmpty then whole else whole ++ '.' :: fraction)

end Decimal

namespace Binary64

/-- The number that a decimal text stands for: an optional sign before digits, or
before `inf` or `nan`. -/
def ofText? (text : String) : Option Binary64 :=
  let (negative, s) :=
    match text.toList with
    | '-' :: rest => (true, rest)
    | '+' :: rest => (false, rest)
    | s => (false, s)
  if s = "inf".toList then some (infinity negative)
  else if s = "nan".toList then some nan
  else (Decimal.read? s).map (Decimal.toBinary negative)

/-- The shortest text that reads back, without an exponent and without a point
where none is needed. -/
def text (x : Binary64) : String :=
  if x.isNaN then "NaN"
  else
    let sign := if x.isNegative then "-" else ""
    if !x.isFinite then sign ++ "inf"
    else if x.units = 0 then sign ++ "0"
    else sign ++ (Decimal.shortest x).text

end Binary64
end PlanFeatures
