import PlanFeatures.Proofs.Toml.Numbers

/-!
# Values at the end of a line

Besides numbers and truth values these are lists of strings in quotation marks, with a comma and
a blank between two of them.  The fuel has to exceed the length of the text.
-/

namespace PlanFeatures.Toml

open Scan

variable {cs rest s : List Char} {fuel depth : Nat}

/-! ## Strings -/

/-- Characters that stand for themselves in a string in quotation marks. -/
def isPlain (c : Char) : Bool := isPrintable c && c != '"' && c != '\\'

theorem isPlain_iff {c : Char} : isPlain c = true ↔ isPrintable c = true ∧ c ≠ '"' ∧ c ≠ '\\' := by
  simp [isPlain, and_assoc]

theorem basicRest_append (plain : ∀ c ∈ cs, isPlain c = true) (enough : cs.length < fuel) :
    basicRest fuel (cs ++ '"' :: rest) = some (cs, rest) := by
  induction cs generalizing fuel with
  | nil =>
    obtain ⟨fuel, rfl⟩ := Nat.exists_eq_add_of_lt enough
    exact bind_of_some _ (satisfy_cons rfl)
  | cons c cs ih =>
    obtain ⟨fuel, rfl⟩ : ∃ k, fuel = k + 1 := ⟨fuel - 1, by simp at enough; omega⟩
    obtain ⟨first, plain⟩ := List.forall_mem_cons.mp plain
    obtain ⟨printable, quote, backslash⟩ := isPlain_iff.mp first
    have more := ih plain (Nat.lt_of_succ_lt_succ enough)
    rw [basicRest, List.cons_append, bind_of_some _ (satisfy_cons printable)]
    simp only [beq_iff_eq, if_neg quote, if_neg backslash]
    exact (bind_of_some _ rfl).trans (bind_of_some _ more)

/-- A string in quotation marks. -/
def quoted (s : String) : List Char := '"' :: s.toList ++ ['"']

/-- A string that can stand in quotation marks as it is.  Empty quotation marks could start a
string of several lines. -/
structure Quotable (s : String) : Prop where
  some : s.toList ≠ []
  plain : ∀ c ∈ s.toList, isPlain c = true

theorem text_quoted {s : String} (plain : Quotable s) (enough : s.toList.length < fuel) :
    text fuel (quoted s ++ rest) = some (s, rest) := by
  obtain ⟨c, cs, characters⟩ := List.exists_cons_of_ne_nil plain.some
  have split : quoted s ++ rest = '"' :: (s.toList ++ '"' :: rest) := by simp [quoted]
  have other : c ≠ '"' := (isPlain_iff.mp (plain.plain c (by simp [characters]))).2.1
  have short : multiline '"' (basicPiece fuel) fuel (quoted s ++ rest) = none := by
    refine bind_of_none _ ?_
    rw [split]
    refine (bind_of_some _ (mark_cons '"' _)).trans (word_cons_eq_none ?_)
    simpa [characters] using other
  refine (orElse_of_none short).trans (orElse_of_some ?_)
  rw [split, basicString, bind_of_some _ (mark_cons '"' _),
    bind_of_some _ (basicRest_append plain.plain enough)]
  exact congrArg (fun t => some (t, rest)) String.ofList_toList

/-! ## Values by their first character -/

theorem text_eq_none (quote : s.head? ≠ some '"') (apostrophe : s.head? ≠ some '\'') :
    text fuel s = none := by
  refine (orElse_of_none (bind_of_none _ (word_cons_eq_none quote))).trans ?_
  refine (orElse_of_none (bind_of_none _ (mark_eq_none quote))).trans ?_
  refine (orElse_of_none (bind_of_none _ (word_cons_eq_none apostrophe))).trans ?_
  exact bind_of_none _ (mark_eq_none apostrophe)

theorem array_eq_none (other : s.head? ≠ some '[') : array fuel depth s = none := by
  cases fuel with
  | zero =>
    rw [array]
    rfl
  | succ fuel =>
    rw [array]
    split
    · rfl
    · exact bind_of_none _ (mark_eq_none other)

theorem inlineTable_eq_none (other : s.head? ≠ some '\x7b') : inlineTable fuel depth s = none := by
  cases fuel with
  | zero =>
    rw [inlineTable]
    rfl
  | succ fuel =>
    rw [inlineTable]
    split
    · rfl
    · exact bind_of_none _ (mark_eq_none other)

theorem visible_of_isBareKeyPart {c : Char} (bare : isBareKeyPart c = true) : Visible (c :: s) := by
  refine ⟨c, rfl, ?_⟩
  simp only [isBlank, Bool.or_eq_false_iff, beq_eq_false_iff_ne]
  refine ⟨⟨?_, ?_⟩, ?_, ?_, ?_⟩ <;> rintro rfl <;> cases bare

theorem not_mark_of_isBareKeyPart {c : Char} (bare : isBareKeyPart c = true) :
    c ≠ '"' ∧ c ≠ '\'' ∧ c ≠ '[' ∧ c ≠ '\x7b' := by
  refine ⟨?_, ?_, ?_, ?_⟩ <;> rintro rfl <;> cases bare

/-- A value that no mark opens is a scalar. -/
theorem value_eq_scalar {c : Char}
    (other : c ≠ '"' ∧ c ≠ '\'' ∧ c ≠ '[' ∧ c ≠ '\x7b') :
    value (fuel + 1) depth (c :: s) = scalar (c :: s) := by
  obtain ⟨quote, apostrophe, bracket, brace⟩ := other
  rw [value]
  refine (orElse_of_none (map_of_none _ (text_eq_none ?_ ?_))).trans ?_
  · simpa using quote
  · simpa using apostrophe
  refine (orElse_of_none (array_eq_none (by simpa using bracket))).trans ?_
  exact orElse_of_none (inlineTable_eq_none (by simpa using brace))

theorem value_bracket (fuel depth : Nat) (rest : List Char) :
    value fuel depth (']' :: rest) = none := by
  cases fuel with
  | zero =>
    rw [value]
    rfl
  | succ fuel =>
    rw [value_eq_scalar (by decide)]
    rfl

theorem value_quoted {s : String} (plain : Quotable s) (enough : s.toList.length < fuel) :
    value (fuel + 1) depth (quoted s ++ rest) = some (.string s, rest) := by
  rw [value]
  exact orElse_of_some (map_of_some _ (text_quoted plain enough))

/-! ## Lists of strings -/

/-- Strings with a comma and a blank between two of them. -/
def listed (names : List String) : List Char := [',', ' '].intercalate (names.map quoted)

theorem listed_singleton (name : String) : listed [name] = quoted name := List.intercalate_singleton

theorem listed_cons (name : String) {names : List String} (some : names ≠ []) :
    listed (name :: names) = quoted name ++ ',' :: ' ' :: listed names := by
  obtain ⟨next, names, rfl⟩ := List.exists_cons_of_ne_nil some
  simp [listed]

theorem length_quoted (name : String) : (quoted name).length = name.toList.length + 2 := by
  simp [quoted]

theorem visible_quoted (name : String) (rest : List Char) : Visible (quoted name ++ rest) :=
  ⟨'"', rfl, by decide⟩

theorem visible_comma (rest : List Char) : Visible (',' :: rest) := ⟨',', rfl, by decide⟩

theorem visible_bracket (rest : List Char) : Visible (']' :: rest) := ⟨']', rfl, by decide⟩

theorem Visible.dropWhile (visible : Visible s) : s.dropWhile isBlank = s := by
  obtain ⟨c, head, blank, -⟩ := visible
  obtain ⟨cs, rfl⟩ := List.head?_eq_some_iff.mp head
  exact List.dropWhile_cons_of_neg (by simp [blank])

theorem visible_listed {names : List String} (some : names ≠ []) (rest : List Char) :
    Visible (listed names ++ rest) := by
  obtain ⟨name, names, rfl⟩ := List.exists_cons_of_ne_nil some
  by_cases last : names = []
  · subst last
    rw [listed_singleton]
    exact visible_quoted name rest
  · rw [listed_cons name last, List.append_assoc]
    exact visible_quoted name _

/-- The first string of a list, and what is found behind it. -/
theorem items_quoted {name : String} {left : List Char} {found : List Value}
    (quotable : Quotable name) (enough : name.toList.length < fuel)
    (front : s.dropWhile isBlank = quoted name ++ left) (visible : Visible left)
    (more : ((do mark ','; items (fuel + 1) depth) <|> pure []) left = some (found, rest)) :
    items (fuel + 2) depth s = some (.string name :: found, rest) := by
  have start : Visible (s.dropWhile isBlank) := front ▸ visible_quoted name left
  have behind : emptyLines (fuel + 1) left = some (⟨⟩, left) := by
    rw [emptyLines_visible _ (visible.dropWhile.symm ▸ visible), visible.dropWhile]
  have first := emptyLines_visible (fuel + 1) start
  rw [front] at first
  rw [items]
  refine orElse_of_some ((bind_of_some _ first).trans ?_)
  refine (bind_of_some _ (value_quoted quotable enough)).trans ?_
  refine (bind_of_some _ behind).trans ?_
  exact bind_of_some _ more

theorem items_listed {names : List String} (some : names ≠ [])
    (quotable : ∀ n ∈ names, Quotable n) (enough : (listed names).length < fuel)
    (front : s.dropWhile isBlank = listed names ++ ']' :: rest) :
    items fuel depth s = Option.some (names.map Value.string, ']' :: rest) := by
  -- The text may start with the blank that the comma before it left.
  induction names generalizing fuel s with
  | nil => exact absurd rfl some
  | cons name names ih =>
    obtain ⟨first, quotable⟩ := List.forall_mem_cons.mp quotable
    by_cases last : names = []
    · subst last
      rw [listed_singleton, length_quoted] at enough
      obtain ⟨fuel, rfl⟩ : ∃ k, fuel = k + 2 := ⟨fuel - 2, by omega⟩
      rw [listed_singleton] at front
      refine items_quoted first (by omega) front (visible_bracket rest) (orElse_of_none ?_)
      exact bind_of_none _ (mark_eq_none (by simp))
    · have more := listed_cons name last
      rw [more, List.length_append, length_quoted, List.length_cons, List.length_cons] at enough
      obtain ⟨fuel, rfl⟩ : ∃ k, fuel = k + 2 := ⟨fuel - 2, by omega⟩
      rw [more, List.append_assoc] at front
      have left : (' ' :: (listed names ++ ']' :: rest)).dropWhile isBlank
          = listed names ++ ']' :: rest :=
        (visible_listed last (']' :: rest)).dropWhile
      refine items_quoted first (by omega) front (visible_comma _) (orElse_of_some ?_)
      exact (bind_of_some _ (mark_cons ',' _)).trans (ih last quotable (by omega) left)

/-- A list of strings in brackets. -/
theorem value_listed {names : List String} (quotable : ∀ n ∈ names, Quotable n)
    (enough : (listed names).length + 2 < fuel) (shallow : depth + 1 < depthLimit) :
    value fuel depth ('[' :: listed names ++ ']' :: rest)
      = some (.array (names.map Value.string), rest) := by
  obtain ⟨fuel, rfl⟩ : ∃ k, fuel = k + 3 := ⟨fuel - 3, by omega⟩
  have found : items (fuel + 1) (depth + 1) (listed names ++ ']' :: rest)
      = some (names.map Value.string, ']' :: rest) := by
    by_cases none : names = []
    · subst none
      have stop : emptyLines fuel (']' :: rest) = some (⟨⟩, ']' :: rest) :=
        emptyLines_visible fuel (visible_bracket rest)
      rw [items]
      exact orElse_of_none ((bind_of_some _ stop).trans (bind_of_none _ (value_bracket _ _ rest)))
    · exact items_listed none quotable (by omega) (visible_listed none _).dropWhile
  have close : emptyLines (fuel + 1) (']' :: rest) = some (⟨⟩, ']' :: rest) :=
    emptyLines_visible _ (visible_bracket rest)
  have noText : text (fuel + 2) ('[' :: listed names ++ ']' :: rest) = none :=
    text_eq_none (by simp) (by simp)
  rw [value]
  refine (orElse_of_none (map_of_none _ noText)).trans (orElse_of_some ?_)
  rw [array, if_neg (by omega)]
  refine (bind_of_some _ (mark_cons '[' _)).trans ?_
  refine (bind_of_some _ found).trans ?_
  refine (bind_of_some _ close).trans ?_
  exact bind_of_some _ (mark_cons ']' rest)

/-! ## Texts of values -/

/-- A text that is read as a value up to the end of a line. -/
structure Reads (text : List Char) (v : Value) : Prop where
  visible : ∀ rest, Visible (text ++ rest)
  reads : ∀ fuel rest, text.length < fuel →
    value fuel 0 (text ++ '\n' :: rest) = some (v, '\n' :: rest)

theorem reads_of_scalar {c : Char} {v : Value} (front : isBareKeyPart c = true)
    (found : ∀ rest, scalar (c :: cs ++ '\n' :: rest) = some (v, '\n' :: rest)) :
    Reads (c :: cs) v where
  visible := fun _ => visible_of_isBareKeyPart front
  reads := fun fuel rest enough => by
    obtain ⟨fuel, rfl⟩ : ∃ k, fuel = k + 1 := ⟨fuel - 1, by omega⟩
    exact (value_eq_scalar (not_mark_of_isBareKeyPart front)).trans (found rest)

theorem isBareKeyPart_of_isDigit {c : Char} (digit : c.isDigit = true) :
    isBareKeyPart c = true := by
  simp [isBareKeyPart, Char.isAlphanum, digit]

theorem reads_integer {n : Nat} (fits : (n : Int) ≤ Int64.maxValue.toInt) :
    Reads (toString n).toList (.integer n) := by
  have digits : (toString n).toList = Nat.toDigits 10 n := by simp [toString]
  have whole := Decimal.isWhole_toDigits n
  have same := Decimal.ofDigits_toDigits n
  rw [digits]
  generalize Nat.toDigits 10 n = cs at whole same
  subst same
  obtain ⟨c, tail, rfl, digit⟩ := whole.head
  exact reads_of_scalar (isBareKeyPart_of_isDigit digit) fun rest => scalar_integer whole fits

theorem reads_float {x : Binary64} {places : List Char} (whole : IsWhole cs) (some : places ≠ [])
    (digits : ∀ c ∈ places, c.isDigit = true)
    (value : Decimal.toBinary false ⟨Decimal.ofDigits (cs ++ places), -(places.length : Int)⟩ = x)
    (finite : x ≠ .infinity false) : Reads (cs ++ '.' :: places) (.float x) := by
  obtain ⟨c, tail, rfl, digit⟩ := whole.head
  refine reads_of_scalar (isBareKeyPart_of_isDigit digit) fun rest => ?_
  have found : scalar ((c :: tail) ++ '.' :: places ++ '\n' :: rest) = _ :=
    scalar_float whole some digits value finite
  exact found

theorem reads_boolean (b : Bool) : Reads (toString b).toList (.boolean b) := by
  cases b
  · exact reads_of_scalar (by decide) fun _ => scalar_boolean false
  · exact reads_of_scalar (by decide) fun _ => scalar_boolean true

theorem reads_strings {names : List String} (quotable : ∀ n ∈ names, Quotable n) :
    Reads ('[' :: listed names ++ [']']) (.array (names.map Value.string)) where
  visible := fun _ => ⟨'[', rfl, by decide⟩
  reads := fun fuel rest enough => by
    have short : (listed names).length + 2 < fuel := by simpa using enough
    rw [List.append_assoc]
    exact value_listed quotable short (by decide)

end PlanFeatures.Toml
