import PlanFeatures.Toml.Parser

/-!
# Scanners step by step

What a scanner does at the front of a text follows from what its parts do there.  The laws below
take it apart: a scanner goes on with what the one before it has left, and of two alternatives
the second starts where the first one did.
-/

namespace PlanFeatures.Toml
namespace Scan

variable {α β : Type} {p q : Scan α} {s rest : List Char} {a : α}

theorem bind_of_some (f : α → Scan β) (first : p s = some (a, rest)) :
    (p >>= f) s = f a rest := by
  show (p s).bind _ = _
  rw [first]
  rfl

theorem bind_of_none (f : α → Scan β) (first : p s = none) : (p >>= f) s = none := by
  show (p s).bind _ = _
  rw [first]
  rfl

theorem of_bind_eq_some {f : α → Scan β} {b : β × List Char} (whole : (p >>= f) s = some b) :
    ∃ a rest, p s = some (a, rest) ∧ f a rest = some b := by
  cases first : p s with
  | none =>
    rw [bind_of_none f first] at whole
    cases whole
  | some x => exact ⟨x.1, x.2, rfl, (bind_of_some f first).symm.trans whole⟩

theorem map_of_some (f : α → β) (first : p s = some (a, rest)) :
    (f <$> p) s = some (f a, rest) := by
  show (p s).bind _ = _
  rw [first]
  rfl

theorem map_of_none (f : α → β) (first : p s = none) : (f <$> p) s = none := by
  show (p s).bind _ = _
  rw [first]
  rfl

theorem orElse_of_some {b : α × List Char} (first : p s = some b) : (p <|> q) s = some b := by
  show (p s).orElse _ = _
  rw [first]
  rfl

theorem orElse_of_none (first : p s = none) : (p <|> q) s = q s := by
  show (p s).orElse _ = _
  rw [first]
  rfl

theorem optional_of_some (first : p s = some (a, rest)) :
    (optional p) s = some (some a, rest) :=
  orElse_of_some (map_of_some some first)

theorem optional_of_none (first : p s = none) : (optional p) s = some (none, s) :=
  orElse_of_none (map_of_none some first)

theorem discard_of_some (first : p s = some (a, rest)) : (discard p) s = some (⟨⟩, rest) :=
  map_of_some _ first

theorem discard_of_none (first : p s = none) : (discard p) s = none := map_of_none _ first

/-! ## Characters -/

theorem satisfy_cons {p : Char → Bool} {c : Char} (fits : p c = true) :
    satisfy p (c :: rest) = some (c, rest) := if_pos fits

theorem satisfy_eq_none {p : Char → Bool} (stop : ∀ c, s.head? = some c → p c = false) :
    satisfy p s = none := by
  cases s with
  | nil => rfl
  | cons c rest => exact if_neg (by simp [stop c rfl])

theorem of_satisfy_eq_some {p : Char → Bool} {c : Char} (read : satisfy p s = some (c, rest)) :
    s = c :: rest ∧ p c = true := by
  cases s with
  | nil => cases read
  | cons d ds =>
    rw [satisfy] at read
    split at read
    next fits =>
      cases read
      exact ⟨rfl, fits⟩
    next => cases read

theorem mark_cons (c : Char) (rest : List Char) : mark c (c :: rest) = some (⟨⟩, rest) :=
  discard_of_some (satisfy_cons (by simp))

theorem mark_eq_none {c : Char} (other : s.head? ≠ some c) : mark c s = none := by
  refine discard_of_none (satisfy_eq_none fun d head => ?_)
  simp only [beq_eq_false_iff_ne]
  rintro rfl
  exact other head

theorem word_cons_eq_none {c : Char} {cs : List Char} (other : s.head? ≠ some c) :
    word (c :: cs) s = none :=
  bind_of_none _ (mark_eq_none other)

/-- A run goes up to the first character that does not belong to it. -/
theorem run_append {p : Char → Bool} {cs : List Char} (fits : ∀ c ∈ cs, p c = true)
    (stop : ∀ c, rest.head? = some c → p c = false) : run p (cs ++ rest) = some (cs, rest) := by
  have none : rest.takeWhile p = [] ∧ rest.dropWhile p = rest := by
    cases rest with
    | nil => exact ⟨rfl, rfl⟩
    | cons c rest => simp [stop c rfl]
  rw [run, List.takeWhile_append_of_pos fits, List.dropWhile_append_of_pos fits, none.1, none.2,
    List.append_nil]

theorem run1_append {p : Char → Bool} {cs : List Char} (some : cs ≠ [])
    (fits : ∀ c ∈ cs, p c = true) (stop : ∀ c, rest.head? = Option.some c → p c = false) :
    run1 p (cs ++ rest) = Option.some (cs, rest) := by
  rw [run1, bind_of_some _ (run_append fits stop), if_neg (by simpa using some)]
  rfl

end Scan

open Scan

variable {s rest : List Char}

/-! ## Blanks and ends of lines -/

theorem blanks_eq (s : List Char) : blanks s = some (⟨⟩, s.dropWhile isBlank) := rfl

/-- No character that a line could end with, and no blank before one. -/
def Visible (s : List Char) : Prop :=
  ∃ c, s.head? = some c ∧ isBlank c = false ∧ c ≠ '#' ∧ c ≠ '\n' ∧ c ≠ '\r'

theorem Visible.blanks (visible : Visible s) : Toml.blanks s = some (⟨⟩, s) := by
  obtain ⟨c, head, blank, -⟩ := visible
  obtain ⟨cs, rfl⟩ := List.head?_eq_some_iff.mp head
  rw [blanks_eq, List.dropWhile_cons_of_neg (by simp [blank])]

theorem Visible.comment (visible : Visible s) : Toml.comment s = none := by
  obtain ⟨c, head, -, other, -⟩ := visible
  exact bind_of_none _ (mark_eq_none (by simp [head, other]))

theorem Visible.newline (visible : Visible s) : Toml.newline s = none := by
  obtain ⟨c, head, -, -, feed, return_⟩ := visible
  exact (orElse_of_none (mark_eq_none (by simp [head, feed]))).trans
    (word_cons_eq_none (by simp [head, return_]))

/-- There is no line end to skip before something visible. -/
theorem emptyLines_visible (fuel : Nat) (visible : Visible (s.dropWhile isBlank)) :
    emptyLines fuel s = some (⟨⟩, s.dropWhile isBlank) := by
  cases fuel with
  | zero => rfl
  | succ fuel =>
    rw [emptyLines, bind_of_some _ (blanks_eq s)]
    refine orElse_of_none ?_
    rw [bind_of_some _ (discard_of_some (optional_of_none visible.comment))]
    exact bind_of_none _ visible.newline

theorem lineEnd_newline (rest : List Char) : lineEnd ('\n' :: rest) = some (⟨⟩, rest) := by
  have comment : Toml.comment ('\n' :: rest) = none := bind_of_none _ (mark_eq_none (by simp))
  rw [lineEnd, bind_of_some _ (blanks_eq _)]
  exact (bind_of_some _ (discard_of_some (optional_of_none comment))).trans
    (orElse_of_some (orElse_of_some (mark_cons '\n' rest)))

end PlanFeatures.Toml
