import PlanFeatures.Proofs.Grammar.Declared
import PlanFeatures.Proofs.Store.Printing
import PlanFeatures.Store.Reader

/-!
# Typed terms

A term is typed over a vocabulary when it spells an expression: its name is the name of
a rule, and its arguments are what the rule takes, in number and kind.  Symbols are terms
without arguments, which name a predicate or a constant of the vocabulary or are decimal
numerals.  A term spells at most one expression, with one rule application for each name
of a rule in the term.
-/

namespace PlanFeatures

/-! ## Symbols -/

/-- The characters are the decimal digits of a number. -/
structure Digits (cs : List Char) (n : Nat) : Prop where
  some : cs ≠ []
  digits : ∀ c ∈ cs, c.isDigit = true
  value : Nat.ofDigitChars 10 cs 0 = n

/-- The name is a decimal numeral of a word of 32 bits, without a sign or with a plus sign before
it. -/
structure Numeral (name : String) (n : Nat) : Prop where
  spelled : Digits name.toList n ∨ ∃ cs, name.toList = '+' :: cs ∧ Digits cs n
  narrow : n < UInt32.size

theorem Digits.withoutPlus_eq {cs : List Char} {n : Nat} (spelled : Digits cs n) :
    withoutPlus cs = cs := by
  unfold withoutPlus
  split
  next tail => cases spelled.digits '+' List.mem_cons_self
  next => rfl

/-- The digits of a numeral are what is left without its sign. -/
theorem digits_withoutPlus_iff {cs : List Char} {n : Nat} :
    Digits (withoutPlus cs) n ↔ Digits cs n ∨ ∃ tail, cs = '+' :: tail ∧ Digits tail n := by
  constructor
  · intro spelled
    unfold withoutPlus at spelled
    split at spelled
    next tail => exact .inr ⟨tail, rfl, spelled⟩
    next => exact .inl spelled
  · rintro (plain | ⟨tail, rfl, signed⟩)
    · rwa [plain.withoutPlus_eq]
    · exact signed

theorem readPosition?_iff {name : String} {n : Nat} :
    readPosition? name = some n ↔ Numeral name n := by
  have numeral : Numeral name n ↔ Digits (withoutPlus name.toList) n ∧ n < UInt32.size :=
    ⟨fun ⟨spelled, narrow⟩ => ⟨digits_withoutPlus_iff.mpr spelled, narrow⟩,
      fun ⟨spelled, narrow⟩ => ⟨digits_withoutPlus_iff.mp spelled, narrow⟩⟩
  rw [numeral]
  simp only [readPosition?]
  generalize withoutPlus name.toList = cs
  constructor
  · intro read
    split at read
    next => cases read
    next whole =>
      split at read
      next narrow =>
        cases read
        obtain ⟨visible, digits⟩ : cs ≠ [] ∧ ∀ c ∈ cs, c.isDigit = true := by
          simpa [not_or] using whole
        exact ⟨⟨visible, digits, rfl⟩, narrow⟩
      next => cases read
  · rintro ⟨⟨visible, digits, rfl⟩, narrow⟩
    have whole : ¬ (cs.isEmpty = true ∨ ¬ cs.all Char.isDigit = true) := by
      simpa [not_or] using ⟨visible, digits⟩
    rw [if_neg whole, if_pos narrow]

/-- The arguments of a leaf, as names. -/
inductive Leaf.Spelled (v : Vocabulary) : Leaf → List String → Prop
  | conceptPrimitive {p : PredicateId} {i : Nat} {name first : String} :
      v.findPredicate? name = some p → Numeral first i →
      Spelled v (.conceptPrimitive p i) [name, first]
  | rolePrimitive {p : PredicateId} {i j : Nat} {name first second : String} :
      v.findPredicate? name = some p → Numeral first i → Numeral second j →
      Spelled v (.rolePrimitive p i j) [name, first, second]
  | booleanNullary {p : PredicateId} {name : String} :
      v.findPredicate? name = some p → Spelled v (.booleanNullary p) [name]
  | conceptOneOf {k : ConstantId} {name : String} :
      v.findConstant? name = some k → Spelled v (.conceptOneOf k) [name]
  | conceptBot : Spelled v .conceptBot []
  | conceptTop : Spelled v .conceptTop []
  | roleTop : Spelled v .roleTop []

namespace Term

/-- The term spells the expression. -/
inductive Typed (v : Vocabulary) : Term → Expr → Prop
  | leaf {l : Leaf} {names : List String} : l.Spelled v names → l.Declared v →
      Typed v (.node l.rule.name (names.map ofSymbol)) (.leaf l)
  | projection {t : Term} {a : Expr} {first : String} {i : Nat} : Typed v t a →
      a.kind = .role → Numeral first i → i ≤ 1 →
      Typed v (.node Rule.conceptProjection.name [t, ofSymbol first])
        (.unary (.conceptProjection i) a)
  | unary {op : UnaryOp} {t : Term} {a : Expr} : op.rule ≠ .conceptProjection → Typed v t a →
      a.kind = op.operand → Typed v (.node op.rule.name [t]) (.unary op a)
  | binary {op : BinaryOp} {t u : Term} {a b : Expr} : Typed v t a → Typed v u b →
      a.kind = op.left → b.kind = op.right →
      Typed v (.node op.rule.name [t, u]) (.binary op a b)
  | distance {t u w : Term} {a r b : Expr} : Typed v t a → Typed v u r → Typed v w b →
      a.kind = .concept → r.kind = .role → b.kind = .concept →
      Typed v (.node Rule.numericalDistance.name [t, u, w]) (.distance a r b)

mutual

/-- Number of the names of rules in a term.  What stands for a symbol is not counted,
whatever its name is. -/
def ruleNames : Term → Nat
  | node name args =>
    match Rule.ofName? name, args with
    | some .conceptProjection, t :: _ => 1 + ruleNames t
    | some rule, args => if rule.takesSymbols then 1 else 1 + ruleNamesAll args
    | none, _ => 0

def ruleNamesAll : List Term → Nat
  | [] => 0
  | t :: ts => ruleNames t + ruleNamesAll ts

end

/-- A term within a term, at any depth. -/
inductive Within (u : Term) : Term → Prop
  | here : Within u u
  | argument {name : String} {args : List Term} {t : Term} : t ∈ args → Within u t →
      Within u (.node name args)

variable {v : Vocabulary} {t : Term} {e : Expr}

theorem Typed.formed (typed : t.Typed v e) : e.Over v := by
  induction typed with
  | leaf _ declared => exact ⟨trivial, declared⟩
  | projection _ kind _ low ih => exact ⟨⟨kind, ih.wellKinded⟩, low, ih.declared⟩
  | @unary op _ _ other _ kind ih =>
    exact ⟨⟨kind, ih.wellKinded⟩, UnaryOp.declared_of_mem_plain (UnaryOp.mem_plain other),
      ih.declared⟩
  | binary _ _ kindA kindB iha ihb =>
    exact ⟨⟨kindA, kindB, iha.wellKinded, ihb.wellKinded⟩, iha.declared, ihb.declared⟩
  | distance _ _ _ kindA kindR kindB iha ihr ihb =>
    exact ⟨⟨kindA, kindR, kindB, iha.wellKinded, ihr.wellKinded, ihb.wellKinded⟩,
      iha.declared, ihr.declared, ihb.declared⟩

theorem ruleNames_projection (t : Term) (args : List Term) :
    (node Rule.conceptProjection.name (t :: args)).ruleNames = 1 + t.ruleNames := by
  simp only [ruleNames, Rule.ofName?_name]

theorem ruleNames_composite {rule : Rule} (operandsOnly : rule.takesSymbols = false)
    (args : List Term) : (node rule.name args).ruleNames = 1 + ruleNamesAll args := by
  unfold ruleNames
  rw [Rule.ofName?_name]
  cases rule <;> first | rfl | cases operandsOnly

theorem Typed.complexity_eq (typed : t.Typed v e) : e.complexity = t.ruleNames := by
  induction typed with
  | @leaf l names spelled _ =>
    unfold ruleNames
    rw [Rule.ofName?_name]
    cases spelled <;> rfl
  | projection _ _ _ _ ih => rw [ruleNames_projection, Expr.complexity, ih]
  | @unary op _ _ other _ _ ih =>
    have operandsOnly : op.rule.takesSymbols = false := by
      cases op <;> first | rfl | exact absurd rfl other
    rw [ruleNames_composite operandsOnly, Expr.complexity, ih]
    rfl
  | @binary op _ _ _ _ _ _ _ _ iha ihb =>
    have operandsOnly : op.rule.takesSymbols = false := by cases op <;> rfl
    rw [ruleNames_composite operandsOnly, Expr.complexity, iha, ihb]
    rfl
  | distance _ _ _ _ _ _ iha ihr ihb =>
    rw [ruleNames_composite rfl, Expr.complexity, iha, ihr, ihb]
    rfl

end Term
end PlanFeatures
