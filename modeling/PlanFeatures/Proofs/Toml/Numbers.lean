import PlanFeatures.Proofs.Number.DecimalTexts
import PlanFeatures.Proofs.Toml.Scanning

/-!
# Numbers at the end of a line

Digits up to the end of a line are an integer; with a point and more digits they are a float.
Neither is taken for a date or a time, which have a hyphen or a colon after their first digits.
-/

namespace PlanFeatures.Toml

open Scan

variable {cs places rest s : List Char}

/-! ## Digits -/

theorem not_underscore {c : Char} (digit : c.isDigit = true) : c ≠ '_' := by
  rintro rfl
  cases digit

/-- What digits end before. -/
def EndsDigits (rest : List Char) : Prop := ∃ c tail, rest = c :: tail ∧ c.isDigit = false ∧ c ≠ '_'

theorem digits_append (digits : ∀ c ∈ cs, c.isDigit = true) (ends : EndsDigits rest) :
    digitsOf.digits Char.isDigit (cs ++ rest) = cs ∧
      digitsOf.remainder Char.isDigit (cs ++ rest) = rest := by
  induction cs with
  | nil =>
    obtain ⟨c, tail, rfl, other, plain⟩ := ends
    simp [digitsOf.digits, digitsOf.remainder, other, plain]
  | cons c cs ih =>
    obtain ⟨digit, digits⟩ := List.forall_mem_cons.mp digits
    obtain ⟨found, left⟩ := ih digits
    simp [digitsOf.digits, digitsOf.remainder, digit, not_underscore digit, found, left]

theorem digitsOf_append (some : cs ≠ []) (digits : ∀ c ∈ cs, c.isDigit = true)
    (ends : EndsDigits rest) : digitsOf Char.isDigit (cs ++ rest) = Option.some (cs, rest) := by
  obtain ⟨c, cs, rfl⟩ := List.exists_cons_of_ne_nil some
  obtain ⟨digit, digits⟩ := List.forall_mem_cons.mp digits
  obtain ⟨found, left⟩ := digits_append digits ends
  rw [digitsOf, List.cons_append, bind_of_some _ (satisfy_cons digit)]
  have more : digitsOf.go Char.isDigit (cs ++ rest) = Option.some (cs, rest) := by
    rw [digitsOf.go, found, left]
  exact bind_of_some _ more

theorem decimalDigits_append (whole : IsWhole cs) (ends : EndsDigits rest) :
    decimalDigits (cs ++ rest) = some (cs, rest) := by
  obtain ⟨c, tail, head, -⟩ := whole.head
  have read := digitsOf_append (by simp [head]) whole.digits ends
  obtain zero | ⟨d, more, same, leading⟩ := whole.leading
  · -- A single zero is refused as digits and read as a mark.
    refine (orElse_of_none ?_).trans ?_
    · rw [bind_of_some _ read, zero]
      rfl
    · rw [zero]
      exact bind_of_some _ (mark_cons '0' rest)
  · refine orElse_of_some ?_
    rw [bind_of_some _ read, same, if_neg (by simpa using leading)]
    rfl

theorem sign_of_digit {c : Char} (digit : c.isDigit = true) :
    sign (c :: rest) = some (false, c :: rest) := by
  have none : satisfy (fun c => c == '+' || c == '-') (c :: rest) = none := by
    refine satisfy_eq_none fun d head => ?_
    cases head
    simp only [Bool.or_eq_false_iff, beq_eq_false_iff_ne]
    constructor <;> rintro rfl <;> cases digit
  exact bind_of_some _ (optional_of_none none)

theorem sign_whole (whole : IsWhole cs) : sign (cs ++ rest) = some (false, cs ++ rest) := by
  obtain ⟨c, tail, rfl, digit⟩ := whole.head
  exact sign_of_digit digit

/-! ## Dates and times -/

/-- Digits that are read stand before those that are left. -/
theorem dropWhile_of_mapM_satisfy {ds : List Char} :
    ∀ {l : List Nat} {s : List Char}, (l.mapM fun _ => satisfy Char.isDigit) s = some (ds, rest) →
      s.dropWhile Char.isDigit = rest.dropWhile Char.isDigit := by
  intro l
  induction l generalizing ds with
  | nil =>
    intro s read
    cases read
    rfl
  | cons _ l ih =>
    intro s read
    rw [List.mapM_cons] at read
    obtain ⟨c, tail, first, read⟩ := of_bind_eq_some read
    obtain ⟨ds, left, more, last⟩ := of_bind_eq_some read
    obtain ⟨rfl, digit⟩ := of_satisfy_eq_some first
    cases last
    rw [List.dropWhile_cons_of_pos digit]
    exact ih more

theorem bounded_reads {count low high : Nat} {ds : List Char}
    (read : bounded count low high s = some (ds, rest)) :
    s.dropWhile Char.isDigit = rest.dropWhile Char.isDigit := by
  obtain ⟨digits, left, first, last⟩ := of_bind_eq_some read
  dsimp only at last
  split at last
  · cases last
    exact dropWhile_of_mapM_satisfy first
  · cases last

/-- A scanner that takes digits and a mark behind them fails where other digits or another
character follow. -/
theorem bind_mark_eq_none {α : Type} {p : Scan (List Char)} {c : Char}
    {f : List Char → Scan α}
    (reads : ∀ ds rest, p s = some (ds, rest) →
      s.dropWhile Char.isDigit = rest.dropWhile Char.isDigit)
    (mark : c.isDigit = false) (other : (s.dropWhile Char.isDigit).head? ≠ some c) :
    (do let ds ← p; Scan.mark c; f ds) s = none := by
  cases first : p s with
  | none => exact bind_of_none _ first
  | some x =>
    obtain ⟨ds, rest⟩ := x
    rw [bind_of_some _ first]
    refine bind_of_none _ (mark_eq_none fun head => other ?_)
    obtain ⟨tail, rfl⟩ := List.head?_eq_some_iff.mp head
    rw [reads ds _ first, List.dropWhile_cons_of_neg (by simp [mark])]
    rfl

theorem datetime_eq_none (date : (s.dropWhile Char.isDigit).head? ≠ some '-')
    (time : (s.dropWhile Char.isDigit).head? ≠ some ':') : datetime s = none := by
  have noDate : Toml.date s = none :=
    bind_mark_eq_none (fun _ _ => dropWhile_of_mapM_satisfy) rfl date
  have noTime : Toml.time s = none := bind_mark_eq_none (fun _ _ => bounded_reads) rfl time
  exact (orElse_of_none (bind_of_none _ noDate)).trans (map_of_none _ noTime)

/-! ## Integers and floats -/

theorem endsDigits_newline (rest : List Char) : EndsDigits ('\n' :: rest) :=
  ⟨'\n', rest, rfl, rfl, by decide⟩

theorem endsDigits_point (rest : List Char) : EndsDigits ('.' :: rest) :=
  ⟨'.', rest, rfl, rfl, by decide⟩

theorem datetime_whole {c : Char} (whole : IsWhole cs) (digit : c.isDigit = false)
    (date : c ≠ '-') (time : c ≠ ':') : datetime (cs ++ c :: rest) = none := by
  have left : (cs ++ c :: rest).dropWhile Char.isDigit = c :: rest := by
    rw [List.dropWhile_append_of_pos whole.digits, List.dropWhile_cons_of_neg (by simp [digit])]
  exact datetime_eq_none (by simpa [left] using date) (by simpa [left] using time)

theorem exponent_newline (rest : List Char) : exponent ('\n' :: rest) = none :=
  bind_of_none _ (discard_of_none (satisfy_eq_none fun c head => by cases head; rfl))

theorem decimalFloat_whole (whole : IsWhole cs) : decimalFloat (cs ++ '\n' :: rest) = none := by
  have noPlaces : fraction ('\n' :: rest) = none := bind_of_none _ (mark_eq_none (by simp))
  rw [decimalFloat, bind_of_some _ (sign_whole whole),
    bind_of_some _ (decimalDigits_append whole (endsDigits_newline rest)),
    bind_of_some _ (optional_of_none noPlaces)]
  exact bind_of_none _ (map_of_none _ (exponent_newline rest))

theorem decimalFloat_places {x : Binary64} (whole : IsWhole cs) (some : places ≠ [])
    (digits : ∀ c ∈ places, c.isDigit = true)
    (value : Decimal.toBinary false ⟨Decimal.ofDigits (cs ++ places), -(places.length : Int)⟩ = x)
    (finite : x ≠ .infinity false) :
    decimalFloat (cs ++ '.' :: places ++ '\n' :: rest) = Option.some (x, '\n' :: rest) := by
  have read : fraction ('.' :: places ++ '\n' :: rest) = Option.some (places, '\n' :: rest) :=
    (bind_of_some _ (mark_cons '.' (places ++ '\n' :: rest))).trans
      (digitsOf_append some digits (endsDigits_newline rest))
  rw [List.append_assoc, decimalFloat, bind_of_some _ (sign_whole whole)]
  refine (bind_of_some _ (decimalDigits_append whole (endsDigits_point _))).trans ?_
  refine (bind_of_some _ (optional_of_some read)).trans ?_
  refine (bind_of_some _ (optional_of_none (exponent_newline rest))).trans ?_
  have exponent : (0 : Int) - places.length = -(places.length : Int) := Int.zero_sub _
  simp only [Option.getD_some, Option.getD_none, exponent, value, if_neg finite]
  rfl

/-- Digits without a letter among them have the base ten. -/
theorem baseInteger_whole {letter : Char} (base : Nat) (whole : IsWhole cs)
    (other : letter ≠ '\n') (noDigit : letter.isDigit = false) :
    baseInteger letter base (cs ++ '\n' :: rest) = none := by
  refine bind_of_none _ ?_
  obtain ⟨c, tail, rfl, -⟩ := whole.head
  -- Only a zero could start the prefix of a base, and no letter follows it.
  by_cases zero : c = '0'
  · subst zero
    refine (bind_of_some _ (mark_cons '0' _)).trans (bind_of_none _ (mark_eq_none fun head => ?_))
    cases tail with
    | nil => exact other (by simpa using head.symm)
    | cons d tail =>
      have digit := whole.digits d (by simp)
      obtain rfl : d = letter := by simpa using head
      rw [noDigit] at digit
      cases digit
  · exact word_cons_eq_none (by simpa using zero)

theorem integer_whole (whole : IsWhole cs)
    (fits : (Decimal.ofDigits cs : Int) ≤ Int64.maxValue.toInt) :
    integer (cs ++ '\n' :: rest) = some ((Decimal.ofDigits cs : Int), '\n' :: rest) := by
  have none : ∀ letter base, letter ≠ '\n' → letter.isDigit = false →
      baseInteger letter base (cs ++ '\n' :: rest) = none :=
    fun _ base => baseInteger_whole base whole
  refine (orElse_of_none (none 'x' 16 (by decide) rfl)).trans ?_
  refine (orElse_of_none (none 'o' 8 (by decide) rfl)).trans ?_
  refine (orElse_of_none (none 'b' 2 (by decide) rfl)).trans ?_
  rw [decimalInteger, bind_of_some _ (sign_whole whole),
    bind_of_some _ (decimalDigits_append whole (endsDigits_newline rest)), fitting]
  have low : Int64.minValue.toInt ≤ (Decimal.ofDigits cs : Int) :=
    Int.le_trans (by decide) (Int.natCast_nonneg _)
  exact congrFun (if_pos ⟨low, fits⟩) _

/-! ## Scalars -/

theorem scalar_integer (whole : IsWhole cs)
    (fits : (Decimal.ofDigits cs : Int) ≤ Int64.maxValue.toInt) :
    scalar (cs ++ '\n' :: rest) = some (.integer (Decimal.ofDigits cs : Int), '\n' :: rest) := by
  have noDate : datetime (cs ++ '\n' :: rest) = none :=
    datetime_whole whole rfl (by decide) (by decide)
  refine (orElse_of_none (map_of_none _ noDate)).trans ?_
  refine (orElse_of_none (map_of_none _ (decimalFloat_whole whole))).trans ?_
  exact orElse_of_some (map_of_some _ (integer_whole whole fits))

theorem scalar_float {x : Binary64} (whole : IsWhole cs) (some : places ≠ [])
    (digits : ∀ c ∈ places, c.isDigit = true)
    (value : Decimal.toBinary false ⟨Decimal.ofDigits (cs ++ places), -(places.length : Int)⟩ = x)
    (finite : x ≠ .infinity false) :
    scalar (cs ++ '.' :: places ++ '\n' :: rest) = Option.some (.float x, '\n' :: rest) := by
  have noDate : datetime (cs ++ '.' :: places ++ '\n' :: rest) = none := by
    rw [List.append_assoc]
    exact datetime_whole whole rfl (by decide) (by decide)
  refine (orElse_of_none (map_of_none _ noDate)).trans ?_
  exact orElse_of_some (map_of_some _ (decimalFloat_places whole some digits value finite))

theorem scalar_boolean (b : Bool) :
    scalar ((toString b).toList ++ '\n' :: rest) = some (.boolean b, '\n' :: rest) := by
  cases b <;> rfl

end PlanFeatures.Toml
