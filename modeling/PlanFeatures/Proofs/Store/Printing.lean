import PlanFeatures.Proofs.Domain.Names
import PlanFeatures.Proofs.Store.WellFormed
import PlanFeatures.Store.Printer

/-!
# Texts of stored expressions

The text of a stored expression is the text of a term that its tree determines.  So it
does not depend on the store that the expression is in, only on the vocabulary, and when
the names of the vocabulary can be read, the text can.
-/

namespace PlanFeatures

/-- A name without arguments. -/
def Term.ofSymbol (name : String) : Term := .node name []

namespace Expr

/-- The term that stands for an expression. -/
def term (v : Vocabulary) : Expr → Term
  | leaf l => .node l.rule.name ((v.leafArguments l).map Term.ofSymbol)
  | unary (.conceptProjection i) r =>
    .node Rule.conceptProjection.name [r.term v, Term.ofSymbol (toString i)]
  | unary op a => .node op.rule.name [a.term v]
  | binary op a b => .node op.rule.name [a.term v, b.term v]
  | distance a r b => .node Rule.numericalDistance.name [a.term v, r.term v, b.term v]

theorem term_unary {op : UnaryOp} (other : op.rule ≠ .conceptProjection) (v : Vocabulary)
    (a : Expr) : (unary op a).term v = .node op.rule.name [a.term v] := by
  cases op with
  | conceptProjection i => exact absurd rfl other
  | _ => rfl

end Expr

/-! ## Printing -/

theorem Term.text_ofSymbol (name : String) : (Term.ofSymbol name).text = name := by
  simp [Term.ofSymbol, Term.text, Term.texts, applicationText]

theorem Term.texts_eq_map (ts : List Term) : Term.texts ts = ts.map Term.text := by
  induction ts with
  | nil => rfl
  | cons t ts ih => rw [Term.texts, ih, List.map_cons]

theorem Term.text_node (name : String) (args : List Term) :
    (Term.node name args).text = applicationText name (args.map Term.text) := by
  rw [Term.text, Term.texts_eq_map]

namespace Store

theorem argumentTexts_unary {s : Store} {operandText : Handle → String} {op : UnaryOp}
    (other : op.rule ≠ .conceptProjection) (a : Nat) :
    s.argumentTexts operandText (.unary op a) = [operandText ⟨op.operand, a⟩] := by
  cases op with
  | conceptProjection i => exact absurd rfl other
  | _ => rfl

/-- A node is printed as its tree, if its operands are. -/
theorem applicationText_of_tree? {s : Store} {operandText : Handle → String} {node : Node}
    {t : Expr} (tree : node.tree? s.trees = some t)
    (operands : ∀ h ∈ node.operands, ∀ x, s.trees h.index = some x →
      operandText h = (x.term s.vocabulary).text) :
    applicationText node.rule.name (s.argumentTexts operandText node)
      = (t.term s.vocabulary).text := by
  cases node with
  | leaf l =>
    rw [Node.tree?_leaf.mp tree, Expr.term, Term.text_node, List.map_map]
    have plain : Term.text ∘ Term.ofSymbol = id := funext Term.text_ofSymbol
    rw [plain, List.map_id]
    rfl
  | unary op a =>
    obtain ⟨x, hx, rfl⟩ := Node.tree?_unary.mp tree
    have first := operands _ (Node.operand_mem op a) x hx
    by_cases projection : op.rule = .conceptProjection
    · obtain ⟨i, rfl⟩ : ∃ i, op = .conceptProjection i := by
        cases op <;> first | exact ⟨_, rfl⟩ | cases projection
      rw [Expr.term, Term.text_node, List.map_cons, List.map_cons, Term.text_ofSymbol, ← first]
      rfl
    · rw [argumentTexts_unary projection, Expr.term_unary projection, Term.text_node,
        List.map_cons, ← first]
      rfl
  | binary op a b =>
    obtain ⟨x, y, hx, hy, rfl⟩ := Node.tree?_binary.mp tree
    have left := operands _ (Node.left_mem op a b) x hx
    have right := operands _ (Node.right_mem op a b) y hy
    rw [Expr.term, Term.text_node, List.map_cons, List.map_cons, ← left, ← right]
    rfl
  | distance a r b =>
    obtain ⟨x, y, z, hx, hy, hz, rfl⟩ := Node.tree?_distance.mp tree
    have source := operands _ (Node.source_mem a r b) x hx
    have role := operands _ (Node.role_mem a r b) y hy
    have target := operands _ (Node.target_mem a r b) z hz
    rw [Expr.term, Term.text_node, List.map_cons, List.map_cons, List.map_cons, ← source, ← role,
      ← target]
    rfl

theorem Grounded.textBelow_eq {s : Store} (grounded : s.Grounded) {fuel : Nat} {h : Handle}
    {t : Expr} (enough : h.index < fuel) (has : s.Has h) (tree : s.tree? h = some t) :
    s.textBelow fuel h = (t.term s.vocabulary).text := by
  induction fuel generalizing h t with
  | zero => omega
  | succ fuel ih =>
    obtain ⟨node, stored⟩ := has.node
    simp only [textBelow, stored]
    refine applicationText_of_tree? ((grounded.trees_eq stored).symm.trans tree) ?_
    intro operand member x found
    have earlier := grounded.earlier stored operand member
    exact ih (by omega) (grounded.has stored operand member) found

/-- A stored expression is printed as its tree. -/
theorem Grounded.text_eq {s : Store} (grounded : s.Grounded) {h : Handle} {t : Expr}
    (has : s.Has h) (tree : s.tree? h = some t) : s.text h = (t.term s.vocabulary).text :=
  grounded.textBelow_eq (Nat.lt_succ_self _) has tree

end Store

/-! ## Texts that can be read -/

theorem isName_ruleName (r : Rule) : IsName r.name := by
  cases r <;> exact ⟨by decide, List.all_eq_true.mp (by decide)⟩

theorem toList_toString (n : Nat) : (toString n).toList = Nat.toDigits 10 n := by
  simp [toString]

theorem isDigit_of_mem_toString {n : Nat} {c : Char} (member : c ∈ (toString n).toList) :
    c.isDigit = true := by
  rw [toList_toString] at member
  exact Nat.isDigit_of_mem_toDigits (by decide) (by decide) member

theorem isName_toString (n : Nat) : IsName (toString n) := by
  constructor
  · intro empty
    have none : (toString n).toList = [] := String.toList_eq_nil_iff.mpr empty
    rw [toList_toString] at none
    exact Nat.toDigits_ne_nil none
  · intro c member
    have alphanumeric : c.isAlphanum = true := by
      rw [Char.isAlphanum, isDigit_of_mem_toString member, Bool.or_true]
    simp [isNamePart, isAlphanumeric_of_isAlphanum alphanumeric]

theorem Term.named_ofSymbol {name : String} (plain : IsName name) : (ofSymbol name).Named :=
  ⟨plain, trivial⟩

theorem Term.allNamed_iff {ts : List Term} : AllNamed ts ↔ ∀ t ∈ ts, t.Named := by
  induction ts with
  | nil => simp [AllNamed]
  | cons t ts ih => simp [AllNamed, ih]

theorem Vocabulary.predicateText_eq {v : Vocabulary} {p : PredicateId} {predicate : Predicate}
    (known : v.predicate? p = some predicate) : v.predicateText p = predicate.name := by
  simp [predicateText, known]

theorem Vocabulary.constantText_eq {v : Vocabulary} {k : ConstantId} {name : String}
    (known : v.constant? k = some name) : v.constantText k = name := by
  simp [constantText, known]

theorem Leaf.isName_argument {v : Vocabulary} (plain : v.Plain) {l : Leaf}
    (declared : l.Declared v) : ∀ name ∈ v.leafArguments l, IsName name := by
  cases l with
  | conceptPrimitive p i =>
    obtain ⟨predicate, known, _⟩ := declared
    simp only [Vocabulary.leafArguments, Vocabulary.predicateText_eq known, List.forall_mem_cons,
      List.not_mem_nil, false_imp_iff, implies_true, and_true]
    exact ⟨plain.predicates known, isName_toString i⟩
  | rolePrimitive p i j =>
    obtain ⟨predicate, known, _⟩ := declared
    simp only [Vocabulary.leafArguments, Vocabulary.predicateText_eq known, List.forall_mem_cons,
      List.not_mem_nil, false_imp_iff, implies_true, and_true]
    exact ⟨plain.predicates known, isName_toString i, isName_toString j⟩
  | booleanNullary p =>
    obtain ⟨predicate, known, _⟩ := declared
    simp only [Vocabulary.leafArguments, Vocabulary.predicateText_eq known, List.forall_mem_cons,
      List.not_mem_nil, false_imp_iff, implies_true, and_true]
    exact plain.predicates known
  | conceptOneOf k =>
    obtain ⟨name, known⟩ := declared
    simp only [Vocabulary.leafArguments, Vocabulary.constantText_eq known, List.forall_mem_cons,
      List.not_mem_nil, false_imp_iff, implies_true, and_true]
    exact plain.constants known
  | conceptBot | conceptTop | roleTop => exact fun _ member => absurd member List.not_mem_nil

theorem Expr.named_term {v : Vocabulary} (plain : v.Plain) {t : Expr} (declared : t.Declared v) :
    (t.term v).Named := by
  induction t with
  | leaf l =>
    refine ⟨isName_ruleName _, Term.allNamed_iff.mpr fun t member => ?_⟩
    obtain ⟨name, argument, rfl⟩ := List.mem_map.mp member
    exact Term.named_ofSymbol (Leaf.isName_argument plain declared name argument)
  | unary op a ih =>
    have operand := ih declared.2
    cases op with
    | conceptProjection i =>
      exact ⟨isName_ruleName _, operand, Term.named_ofSymbol (isName_toString i), trivial⟩
    | _ => exact ⟨isName_ruleName _, operand, trivial⟩
  | binary op a b iha ihb =>
    exact ⟨isName_ruleName _, iha declared.1, ihb declared.2, trivial⟩
  | distance a r b iha ihr ihb =>
    exact ⟨isName_ruleName _, iha declared.1, ihr declared.2.1, ihb declared.2.2, trivial⟩

end PlanFeatures
