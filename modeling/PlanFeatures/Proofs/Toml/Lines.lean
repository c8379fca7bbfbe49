import PlanFeatures.Proofs.Toml.Values

/-!
# Documents line by line

A line that holds a key and a value, a header or nothing is read as such wherever it stands, and
a text that consists of such lines as the statements on them.
-/

namespace PlanFeatures.Toml

open Scan

variable {cs rest s : List Char} {fuel : Nat} {v : Value}

/-! ## Keys -/

theorem IsBare.head {key : String} (bare : IsBare key) :
    ∃ c cs, key.toList = c :: cs ∧ isBareKeyPart c = true := by
  obtain ⟨c, cs, characters⟩ := List.exists_cons_of_ne_nil bare.some
  exact ⟨c, cs, characters, bare.plain c (by simp [characters])⟩

theorem IsBare.visible {key : String} (bare : IsBare key) (rest : List Char) :
    Visible (key.toList ++ rest) := by
  obtain ⟨c, cs, characters, first⟩ := bare.head
  rw [characters]
  exact visible_of_isBareKeyPart first

theorem simpleKey_bare {key : String} (bare : IsBare key)
    (stop : ∀ c, rest.head? = some c → isBareKeyPart c = false) :
    simpleKey fuel (key.toList ++ rest) = some (key, rest) := by
  obtain ⟨c, cs, characters, first⟩ := bare.head
  obtain ⟨quote, apostrophe, -, -⟩ := not_mark_of_isBareKeyPart first
  have noBasic : basicString fuel (key.toList ++ rest) = none :=
    bind_of_none _ (mark_eq_none (by simpa [characters] using quote))
  have noLiteral : literalString (key.toList ++ rest) = none :=
    bind_of_none _ (mark_eq_none (by simpa [characters] using apostrophe))
  refine (orElse_of_none noBasic).trans ((orElse_of_none noLiteral).trans ?_)
  rw [map_of_some _ (run1_append bare.some bare.plain stop), String.ofList_toList]

/-- A key without points in it. -/
theorem key_bare {name : String} (bare : IsBare name) (some : 0 < fuel)
    (stop : ∀ c, rest.head? = Option.some c → isBareKeyPart c = false)
    (last : (rest.dropWhile isBlank).head? ≠ Option.some '.') :
    key fuel (name.toList ++ rest) = Option.some ([name], rest.dropWhile isBlank) := by
  obtain ⟨fuel, rfl⟩ := Nat.exists_eq_add_of_lt some
  have parts : keyParts (0 + fuel + 1) (name.toList ++ rest)
      = Option.some ([name], rest.dropWhile isBlank) := by
    rw [keyParts, bind_of_some _ (bare.visible rest).blanks,
      bind_of_some _ (simpleKey_bare bare stop)]
    exact (bind_of_some _ (blanks_eq rest)).trans
      (orElse_of_none (bind_of_none _ (mark_eq_none last)))
  exact bind_of_some _ parts

/-! ## Lines -/

/-- A line, and the statement on it. -/
structure IsLine (text : List Char) (found : Option Statement) : Prop where
  some : text ≠ []
  start : text.head? ≠ Option.some '\uFEFF'
  blanks : ∀ rest, Toml.blanks (text ++ rest) = Option.some (⟨⟩, text ++ rest)
  reads : ∀ fuel rest, text.length < fuel → line fuel (text ++ rest) = Option.some (found, rest)

theorem isLine_empty : IsLine ['\n'] none where
  some := by simp
  start := by simp
  blanks := fun _ => rfl
  reads := fun fuel rest _ => by
    have noComment : comment ('\n' :: rest) = Option.none :=
      bind_of_none _ (mark_eq_none (by simp))
    exact orElse_of_some ((bind_of_some _ (discard_of_some (optional_of_none noComment))).trans
      (bind_of_some _ (orElse_of_some (mark_cons '\n' rest))))

/-- A visible line is no comment and not empty. -/
theorem line_visible (visible : Visible s) :
    line fuel s
      = (some <$> arrayHeader fuel <|> some <$> header fuel <|> some <$> keyValue fuel) s := by
  refine (orElse_of_none ?_).trans (orElse_of_none (bind_of_none _ visible.comment))
  exact (bind_of_some _ (discard_of_some (optional_of_none visible.comment))).trans
    (bind_of_none _ visible.newline)

/-- A key with the text of its value. -/
def keyValueText (key : String) (text : List Char) : List Char :=
  key.toList ++ ' ' :: '=' :: ' ' :: text ++ ['\n']

theorem keyValueText_append (name : String) (text rest : List Char) :
    keyValueText name text ++ rest
      = name.toList ++ ' ' :: '=' :: ' ' :: (text ++ '\n' :: rest) := by
  simp [keyValueText]

theorem visible_keyValueText {name : String} (bare : IsBare name) (text rest : List Char) :
    Visible (keyValueText name text ++ rest) := by
  rw [keyValueText_append]
  exact bare.visible _

theorem keyValue_reads {name : String} {text : List Char} (bare : IsBare name)
    (reads : Reads text v) (enough : text.length < fuel) :
    keyValue fuel (keyValueText name text ++ rest) = some (.keyValue [] name v, rest) := by
  have found : key fuel (name.toList ++ ' ' :: '=' :: ' ' :: (text ++ '\n' :: rest))
      = some ([name], '=' :: ' ' :: (text ++ '\n' :: rest)) :=
    key_bare bare (Nat.zero_lt_of_lt enough) (fun c head => by cases head; rfl) (by simp [isBlank])
  have front : blanks (' ' :: (text ++ '\n' :: rest)) = some (⟨⟩, text ++ '\n' :: rest) :=
    (reads.visible _).blanks
  rw [keyValueText_append, keyValue, bind_of_some _ found]
  refine (bind_of_some (p := splitKey [name]) (a := ([], name)) _ rfl).trans ?_
  refine (bind_of_some _ (mark_cons '=' _)).trans ((bind_of_some _ front).trans ?_)
  refine (bind_of_some _ (reads.reads fuel rest enough)).trans ?_
  exact bind_of_some _ (lineEnd_newline rest)

theorem isLine_keyValue {name : String} {text : List Char} (bare : IsBare name)
    (reads : Reads text v) : IsLine (keyValueText name text) (some (.keyValue [] name v)) where
  some := by simp [keyValueText]
  start := by
    obtain ⟨c, cs, characters, first⟩ := bare.head
    have other : c ≠ '\uFEFF' := by
      rintro rfl
      cases first
    simpa [keyValueText, characters] using other
  blanks := fun rest => (visible_keyValueText bare text rest).blanks
  reads := fun fuel rest enough => by
    obtain ⟨c, cs, characters, first⟩ := bare.head
    have noBracket : (keyValueText name text ++ rest).head? ≠ Option.some '[' := by
      simpa [keyValueText, characters] using (not_mark_of_isBareKeyPart first).2.2.1
    have short : text.length < fuel := by
      simp only [keyValueText, List.length_append, List.length_cons] at enough
      omega
    refine (line_visible (visible_keyValueText bare text rest)).trans ?_
    refine (orElse_of_none (map_of_none _ (bind_of_none _ (word_cons_eq_none noBracket)))).trans ?_
    refine (orElse_of_none (map_of_none _ (bind_of_none _ (mark_eq_none noBracket)))).trans ?_
    exact map_of_some _ (keyValue_reads bare reads short)

/-- The name of a table in brackets. -/
def headerText (name : String) : List Char := '[' :: name.toList ++ [']', '\n']

theorem header_reads {name : String} (bare : IsBare name) (some : 0 < fuel) :
    header fuel (headerText name ++ rest) = Option.some (.header [name], rest) := by
  have split : headerText name ++ rest = '[' :: (name.toList ++ ']' :: '\n' :: rest) := by
    simp [headerText]
  have found : key fuel (name.toList ++ ']' :: '\n' :: rest)
      = Option.some ([name], ']' :: '\n' :: rest) :=
    key_bare bare some (fun c head => by cases head; rfl) (by simp [isBlank])
  rw [split, header, bind_of_some _ (mark_cons '[' _)]
  refine (bind_of_some _ found).trans ((bind_of_some _ (mark_cons ']' _)).trans ?_)
  exact bind_of_some _ (lineEnd_newline rest)

theorem isLine_header {name : String} (bare : IsBare name) :
    IsLine (headerText name) (some (.header [name])) where
  some := by simp [headerText]
  start := by simp [headerText]
  blanks := fun _ => rfl
  reads := fun fuel rest enough => by
    obtain ⟨c, cs, characters, first⟩ := bare.head
    have visible : Visible (headerText name ++ rest) := ⟨'[', rfl, by decide⟩
    have single : word ['[', '['] (headerText name ++ rest) = none := by
      refine (bind_of_some _ (mark_cons '[' _)).trans (word_cons_eq_none ?_)
      simpa [characters] using (not_mark_of_isBareKeyPart first).2.2.1
    refine (line_visible visible).trans ?_
    refine (orElse_of_none (map_of_none _ (bind_of_none _ single))).trans (orElse_of_some ?_)
    exact map_of_some _ (header_reads bare (Nat.zero_lt_of_lt enough))

/-! ## Documents -/

theorem statements_lines {lines : List (List Char × Option Statement)}
    (isLine : ∀ l ∈ lines, IsLine l.1 l.2)
    (enough : (lines.flatMap Prod.fst).length + 1 < fuel) :
    statements fuel (lines.flatMap Prod.fst) = some (lines.filterMap Prod.snd, []) := by
  induction lines generalizing fuel with
  | nil =>
    obtain ⟨fuel, rfl⟩ := Nat.exists_eq_add_of_lt enough
    rfl
  | cons l lines ih =>
    -- Each line takes one of the fuel and at least one character.
    obtain ⟨text, found⟩ := l
    obtain ⟨first, others⟩ := List.forall_mem_cons.mp isLine
    obtain ⟨fuel, rfl⟩ : ∃ k, fuel = k + 1 := ⟨fuel - 1, by omega⟩
    have some : 0 < text.length := List.length_pos_iff.mpr first.some
    rw [List.flatMap_cons, List.length_append] at enough
    dsimp only at first enough
    have unfinished : finish (text ++ lines.flatMap Prod.fst) = none := by
      obtain ⟨c, cs, rfl⟩ := List.exists_cons_of_ne_nil first.some
      rfl
    rw [List.flatMap_cons, statements, bind_of_some _ (first.blanks _)]
    refine (orElse_of_none (bind_of_none _ unfinished)).trans ?_
    refine (bind_of_some _ (first.reads fuel _ (by omega))).trans ?_
    refine (bind_of_some _ (ih others (by omega))).trans ?_
    cases found <;> rfl

theorem head_lines {lines : List (List Char × Option Statement)}
    (isLine : ∀ l ∈ lines, IsLine l.1 l.2) : (lines.flatMap Prod.fst).head? ≠ some '\uFEFF' := by
  cases lines with
  | nil => simp
  | cons l lines =>
    have first := isLine l List.mem_cons_self
    obtain ⟨c, cs, characters⟩ := List.exists_cons_of_ne_nil first.some
    simpa [characters] using first.start

/-- A text of lines is read line by line. -/
theorem parse_lines {source : String} {lines : List (List Char × Option Statement)}
    (isLine : ∀ l ∈ lines, IsLine l.1 l.2) (characters : source.toList = lines.flatMap Prod.fst) :
    parse source = Document.ofStatements (lines.filterMap Prod.snd) := by
  have start : source.toList.head? ≠ some '\uFEFF' := characters ▸ head_lines isLine
  have enough : (lines.flatMap Prod.fst).length + 1 < 4 * (source.toList.length + 1) := by
    rw [← characters]
    omega
  have found := statements_lines isLine enough
  rw [← characters] at found
  have all : Scan.all? (statements (4 * (source.toList.length + 1))) source.toList
      = some (lines.filterMap Prod.snd) := by
    rw [Scan.all?, found]
  unfold parse
  dsimp only
  rw [if_neg start, all]
  rfl

end PlanFeatures.Toml
