import PlanFeatures.Store.Printer
import PlanFeatures.Term.Parser

/-!
# Terms are read back from their texts

The text of a term has no blanks and stands for that term alone, provided that its
names are made of the characters that names are made of.  What the reader does at the
end of a term depends on the next character: a name would go on with a character of a
name, and a parenthesis would open arguments.  Inside a text a term is followed by a
comma, a closing parenthesis or nothing, none of which goes on with the term.
-/

namespace PlanFeatures

/-- Names that can be read: not empty, and of characters that names are made of. -/
def IsName (name : String) : Prop :=
  name ≠ "" ∧ ∀ c ∈ name.toList, isNamePart c = true

theorem IsName.visible {name : String} (named : IsName name) :
    ∀ c ∈ name.toList, isTermBlank c = false := by
  intro c member
  cases blank : isTermBlank c with
  | false => rfl
  | true =>
    have part := named.2 c member
    rw [not_isNamePart_of_isTermBlank blank] at part
    cases part

namespace Term

mutual

/-- The name, followed by the texts of the arguments in parentheses if there are any. -/
def text : Term → String
  | node name args => applicationText name (texts args)

def texts : List Term → List String
  | [] => []
  | t :: ts => text t :: texts ts

end

mutual

/-- All names of the term can be read. -/
def Named : Term → Prop
  | node name args => IsName name ∧ AllNamed args

def AllNamed : List Term → Prop
  | [] => True
  | t :: ts => Named t ∧ AllNamed ts

end

/-! ## Texts as characters -/

/-- The texts of further arguments, each after a comma. -/
def moreChars : List Term → List Char
  | [] => []
  | t :: ts => ',' :: (t.text.toList ++ moreChars ts)

theorem toList_intercalate_texts (t : Term) (ts : List Term) :
    (String.intercalate "," (texts (t :: ts))).toList = t.text.toList ++ moreChars ts := by
  induction ts generalizing t with
  | nil => simp [texts, moreChars]
  | cons u us ih =>
    have rest := ih u
    simp only [texts] at rest ⊢
    rw [String.intercalate_cons_cons, String.toList_append, rest]
    simp [moreChars]

theorem toList_text_nil (name : String) : (node name []).text.toList = name.toList := by
  simp [text, texts, applicationText]

theorem toList_text_cons (name : String) (t : Term) (ts : List Term) :
    (node name (t :: ts)).text.toList
      = name.toList ++ '(' :: (t.text.toList ++ (moreChars ts ++ [')'])) := by
  have args := toList_intercalate_texts t ts
  simp only [texts] at args
  simp [text, texts, applicationText, args]

/-! ## What follows a term -/

/-- Nothing, a comma or a closing parenthesis. -/
def Ends (rest : List Char) : Prop :=
  ∀ c, rest.head? = some c → c = ',' ∨ c = ')'

theorem ends_nil : Ends [] := by
  intro c head
  cases head

theorem ends_close (rest : List Char) : Ends (')' :: rest) := by
  intro c head
  exact Or.inr (Option.some.inj head).symm

theorem ends_moreChars (ts : List Term) (rest : List Char) :
    Ends (moreChars ts ++ ')' :: rest) := by
  cases ts with
  | nil => exact ends_close rest
  | cons t ts => exact fun c head => Or.inl (Option.some.inj head).symm

theorem Ends.takeWhile_eq_nil {rest : List Char} (ends : Ends rest) :
    rest.takeWhile isNamePart = [] := by
  cases rest with
  | nil => rfl
  | cons c rest => rcases ends c rfl with rfl | rfl <;> rfl

theorem Ends.dropWhile_eq_self {rest : List Char} (ends : Ends rest) :
    rest.dropWhile isNamePart = rest := by
  cases rest with
  | nil => rfl
  | cons c rest => rcases ends c rfl with rfl | rfl <;> rfl

theorem Ends.readMark?_eq_none {rest : List Char} (ends : Ends rest) :
    readMark? '(' rest = none := by
  cases rest with
  | nil => rfl
  | cons c rest => rcases ends c rfl with rfl | rfl <;> rfl

theorem Ends.readArgs?_eq_none {rest : List Char} (ends : Ends rest) (fuel : Nat) :
    readArgs? fuel rest = none := by
  cases fuel with
  | zero => rfl
  | succ fuel => rw [readArgs?, ends.readMark?_eq_none]; rfl

/-! ## Reading -/

/-- A name ends where no character of a name follows. -/
theorem readName?_append {name : String} (named : IsName name) {rest : List Char}
    (stop : rest.takeWhile isNamePart = []) (keep : rest.dropWhile isNamePart = rest) :
    readName? (name.toList ++ rest) = some (name, rest) := by
  have start : skipBlanks (name.toList ++ rest) = name.toList ++ rest := by
    cases chars : name.toList with
    | nil => exact absurd (String.toList_eq_nil_iff.mp chars) named.1
    | cons c cs =>
      have visible := named.visible c (chars ▸ List.mem_cons_self)
      simp [skipBlanks, visible]
  have taken : (name.toList ++ rest).takeWhile isNamePart = name.toList := by
    rw [List.takeWhile_append_of_pos named.2, stop, List.append_nil]
  have dropped : (name.toList ++ rest).dropWhile isNamePart = rest := by
    rw [List.dropWhile_append_of_pos named.2, keep]
  simp only [readName?, start, taken, dropped]
  cases chars : name.toList with
  | nil => exact absurd (String.toList_eq_nil_iff.mp chars) named.1
  | cons c cs => simp [← chars]

theorem readMark?_cons {mark : Char} (visible : isTermBlank mark = false) (rest : List Char) :
    readMark? mark (mark :: rest) = some rest := by
  simp [readMark?, skipBlanks, visible]

theorem readMore_close (fuel : Nat) (rest : List Char) :
    readMore fuel (')' :: rest) = ([], ')' :: rest) := by
  cases fuel <;> rfl

mutual

/-- A term is read back from its text, whatever follows it. -/
theorem read?_text : ∀ (t : Term), t.Named → ∀ {rest : List Char} {fuel : Nat}, Ends rest →
    t.text.toList.length < fuel → read? fuel (t.text.toList ++ rest) = some (t, rest)
  | node name [], named, rest, fuel, ends, enough => by
    cases fuel with
    | zero => exact absurd enough (Nat.not_lt_zero _)
    | succ fuel =>
      rw [toList_text_nil, read?,
        readName?_append named.1 ends.takeWhile_eq_nil ends.dropWhile_eq_self]
      simp only [Option.bind_eq_bind, Option.bind_some, ends.readArgs?_eq_none]
      rfl
  | node name (t :: ts), named, rest, fuel, ends, enough => by
    obtain ⟨plain, first, more⟩ := named
    rw [toList_text_cons] at enough ⊢
    simp only [List.length_append, List.length_cons, List.length_nil] at enough
    obtain ⟨fuel, rfl⟩ : ∃ k, fuel = k + 2 := ⟨fuel - 2, by omega⟩
    have head := read?_text t first (ends_moreChars ts rest)
      (show t.text.toList.length < fuel by omega)
    have tail := readMore_text ts more rest (show (moreChars ts).length < fuel by omega)
    simp only [List.append_assoc, List.cons_append, List.nil_append] at head ⊢
    rw [read?, readName?_append plain rfl rfl]
    simp only [Option.bind_eq_bind, Option.bind_some]
    rw [readArgs?, readMark?_cons rfl]
    simp only [Option.bind_eq_bind, Option.bind_some, head, tail]
    rw [readMark?_cons rfl]
    rfl

theorem readMore_text : ∀ (ts : List Term), AllNamed ts → ∀ {fuel : Nat} (rest : List Char),
    (moreChars ts).length < fuel →
    readMore fuel (moreChars ts ++ ')' :: rest) = (ts, ')' :: rest)
  | [], _, fuel, rest, _ => readMore_close fuel rest
  | t :: ts, named, fuel, rest, enough => by
    obtain ⟨first, more⟩ := named
    simp only [moreChars, List.length_cons, List.length_append] at enough
    obtain ⟨fuel, rfl⟩ : ∃ k, fuel = k + 1 := ⟨fuel - 1, by omega⟩
    have head := read?_text t first (ends_moreChars ts rest)
      (show t.text.toList.length < fuel by omega)
    have tail := readMore_text ts more rest (show (moreChars ts).length < fuel by omega)
    simp only [moreChars, List.cons_append, List.append_assoc]
    rw [readMore, readMark?_cons rfl]
    simp only [Option.bind_some, head, tail]

end

theorem parse_text {t : Term} (named : t.Named) : parse t.text = .ok t := by
  have whole := read?_text t named ends_nil (Nat.lt_succ_self t.text.toList.length)
  rw [List.append_nil] at whole
  simp only [parse, whole]
  rfl

end Term
end PlanFeatures
