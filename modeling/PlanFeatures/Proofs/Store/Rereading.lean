import Mathlib.Data.List.Forall2
import PlanFeatures.Proofs.Meaning.Trees
import PlanFeatures.Proofs.Store.Known
import PlanFeatures.Proofs.Term.Typing

/-!
# Texts of expressions are read back

In a store over a vocabulary without ambiguous names, building the term of a normal
expression never fails and gives a handle of that expression.  A store that knows the
expression stays as it is.
-/

namespace PlanFeatures

/-! ## Positions -/

/-- The positions are words of 32 bits; numerals of greater ones are refused. -/
def Leaf.Narrow : Leaf → Prop
  | conceptPrimitive _ i => i < UInt32.size
  | rolePrimitive _ i j => i < UInt32.size ∧ j < UInt32.size
  | conceptBot | conceptTop | conceptOneOf _ | roleTop | booleanNullary _ => True

namespace Expr

def Narrow : Expr → Prop
  | leaf l => l.Narrow
  | unary _ a => a.Narrow
  | binary _ a b => a.Narrow ∧ b.Narrow
  | distance a r b => a.Narrow ∧ r.Narrow ∧ b.Narrow

end Expr

theorem numeral_toString {n : Nat} (narrow : n < UInt32.size) : Numeral (toString n) n where
  spelled := by
    refine .inl ⟨?_, fun c member => isDigit_of_mem_toString member, ?_⟩
    · rw [toList_toString]
      exact Nat.toDigits_ne_nil
    · rw [toList_toString, Nat.ofDigitChars_ten_toDigits]
  narrow := narrow

/-- The arguments of a declared leaf spell it. -/
theorem Leaf.Declared.spelled {v : Vocabulary} {l : Leaf} (declared : l.Declared v)
    (separate : v.Separate) (narrow : l.Narrow) : l.Spelled v (v.leafArguments l) := by
  cases l with
  | conceptPrimitive p i =>
    obtain ⟨predicate, known, _⟩ := declared
    rw [Vocabulary.leafArguments, Vocabulary.predicateText_eq known]
    exact .conceptPrimitive (separate.findPredicate? known) (numeral_toString narrow)
  | rolePrimitive p i j =>
    obtain ⟨predicate, known, _⟩ := declared
    rw [Vocabulary.leafArguments, Vocabulary.predicateText_eq known]
    exact .rolePrimitive (separate.findPredicate? known) (numeral_toString narrow.1)
      (numeral_toString narrow.2)
  | booleanNullary p =>
    obtain ⟨predicate, known, _⟩ := declared
    rw [Vocabulary.leafArguments, Vocabulary.predicateText_eq known]
    exact .booleanNullary (separate.findPredicate? known)
  | conceptOneOf k =>
    obtain ⟨name, known⟩ := declared
    rw [Vocabulary.leafArguments, Vocabulary.constantText_eq known]
    exact .conceptOneOf (separate.findConstant? known)
  | conceptBot => exact .conceptBot
  | conceptTop => exact .conceptTop
  | roleTop => exact .roleTop

namespace Build
variable {s : Store} {text : String} {rule : Rule}

/-! ## Symbols -/

section
variable {done : Handle → Store → Prop} {stopped : ExpressionError → Store → Prop} {name : String}

theorem readPosition_bind {n : Nat} (numeral : Numeral name n) {next : Nat → Build Handle} :
    Outcome (readPosition text rule (.ofSymbol name) >>= next) s done stopped
      ↔ Outcome (next n) s done stopped := by
  have found := readPosition?_iff.mpr numeral
  simp only [readPosition, readSymbol, Term.ofSymbol, Term.symbol?, Outcome.bind_iff,
    Outcome.pure_iff, found]

theorem readPredicate_bind {p : PredicateId} (found : s.vocabulary.findPredicate? name = some p)
    {next : PredicateId → Build Handle} :
    Outcome (readPredicate text rule (.ofSymbol name) >>= next) s done stopped
      ↔ Outcome (next p) s done stopped := by
  simp only [readPredicate, readSymbol, Term.ofSymbol, Term.symbol?, Outcome.bind_iff,
    Outcome.pure_iff, Outcome.get_iff, found]

theorem readConstant_bind {k : ConstantId} (found : s.vocabulary.findConstant? name = some k)
    {next : ConstantId → Build Handle} :
    Outcome (readConstant text rule (.ofSymbol name) >>= next) s done stopped
      ↔ Outcome (next k) s done stopped := by
  simp only [readConstant, readSymbol, Term.ofSymbol, Term.symbol?, Outcome.bind_iff,
    Outcome.pure_iff, Outcome.get_iff, found]

end

/-! ## Leaves and nodes -/

theorem intern_given (wf : s.WellFormed) {node : Node} (operands : ∀ h ∈ node.operands, s.Has h)
    (declared : node.Declared s.vocabulary) {t : Expr} (tree : node.tree? s.trees = some t)
    (formed : t.WellKinded) (normal : t.Normal) :
    Outcome (intern node) s (s.Given t) fun _ _ => False := by
  rw [Outcome, run_intern operands]
  exact wf.insert_given operands declared tree formed normal

/-- A declared leaf passes all checks. -/
theorem leaf_given_of_declared (wf : s.WellFormed) {l : Leaf} (declared : l.Declared s.vocabulary) :
    Outcome (leaf l) s (s.Given (.leaf l)) fun _ _ => False := by
  have passed : (Node.leaf l).Declared s.vocabulary := declared
  have last : Outcome (intern (.leaf l)) s (s.Given (.leaf l)) fun _ _ => False :=
    intern_given wf (fun _ member => absurd member List.not_mem_nil) passed rfl trivial trivial
  cases l with
  | conceptPrimitive p i =>
    obtain ⟨predicate, known, inside⟩ := declared
    simpa only [leaf, Build.declared, checkPosition, Outcome.bind_iff, Outcome.get_iff, known,
      Outcome.pure_iff, if_pos inside] using last
  | rolePrimitive p i j =>
    obtain ⟨predicate, known, first, second⟩ := declared
    simpa only [leaf, Build.declared, checkPosition, Outcome.bind_iff, Outcome.get_iff, known,
      Outcome.pure_iff, if_pos first, if_pos second] using last
  | booleanNullary p =>
    obtain ⟨predicate, known, nullary⟩ := declared
    simpa only [leaf, Build.declared, Outcome.bind_iff, Outcome.get_iff, known,
      Outcome.pure_iff, nullary, ne_eq, not_true_eq_false, if_false] using last
  | conceptOneOf k =>
    obtain ⟨name, known⟩ := declared
    simpa only [leaf, Outcome.bind_iff, Outcome.get_iff, known, Option.isNone_some,
      Bool.false_eq_true, if_false] using last
  | conceptBot | conceptTop | roleTop => exact last

theorem composite_unary {op : UnaryOp} (other : op.rule ≠ .conceptProjection) {h : Handle}
    (kind : h.kind = op.operand) :
    composite op.rule [h] = intern (.unary op h.index) := by
  obtain ⟨k, i⟩ := h
  cases kind
  cases op with
  | conceptProjection i => exact absurd rfl other
  | _ => rfl

theorem composite_binary (op : BinaryOp) {g h : Handle} (left : g.kind = op.left)
    (right : h.kind = op.right) :
    composite op.rule [g, h] = intern (.binary op g.index h.index) := by
  obtain ⟨k, i⟩ := g
  obtain ⟨l, j⟩ := h
  cases left
  cases right
  cases op <;> rfl

theorem composite_distance {a r b : Handle} (source : a.kind = .concept) (role : r.kind = .role)
    (target : b.kind = .concept) :
    composite .numericalDistance [a, r, b] = intern (.distance a.index r.index b.index) := by
  obtain ⟨k, i⟩ := a
  obtain ⟨l, j⟩ := r
  obtain ⟨m, n⟩ := b
  cases source
  cases role
  cases target
  rfl

/-! ## Terms -/

theorem ofTerm_composite {rule : Rule} (operandsOnly : rule.takesSymbols = false)
    (args : List Term) :
    ofTerm text (.node rule.name args) = (do composite rule (← ofTerms text args)) := by
  unfold ofTerm
  rw [Rule.ofName?_name]
  cases rule <;> first | rfl | cases operandsOnly

theorem ofTerm_leaf (wf : s.WellFormed) {l : Leaf} {names : List String}
    (spelled : l.Spelled s.vocabulary names) (declared : l.Declared s.vocabulary) :
    Outcome (ofTerm text (.node l.rule.name (names.map .ofSymbol))) s (s.Given (.leaf l))
      fun _ _ => False := by
  have last := leaf_given_of_declared wf declared
  unfold ofTerm
  rw [Rule.ofName?_name]
  cases spelled with
  | conceptPrimitive found first =>
    simp only [Leaf.rule, List.map]
    rw [readPredicate_bind found, readPosition_bind first]
    exact last
  | rolePrimitive found first second =>
    simp only [Leaf.rule, List.map]
    rw [readPredicate_bind found, readPosition_bind first, readPosition_bind second]
    exact last
  | booleanNullary found =>
    simp only [Leaf.rule, List.map]
    rw [readPredicate_bind found]
    exact last
  | conceptOneOf found =>
    simp only [Leaf.rule, List.map]
    rw [readConstant_bind found]
    exact last
  | conceptBot | conceptTop | roleTop => exact last

/-- In every store over the vocabulary the term of the tree is built. -/
def Reads (text : String) (v : Vocabulary) (t : Expr) : Prop :=
  ∀ s : Store, s.WellFormed → s.vocabulary = v →
    Outcome (ofTerm text (t.term v)) s (s.Given t) fun _ _ => False

theorem ofTerms_given {v : Vocabulary} {ts : List Expr} (reads : ∀ t ∈ ts, Reads text v t)
    (wf : s.WellFormed) (vocabulary : s.vocabulary = v) :
    Outcome (ofTerms text (ts.map (Expr.term v))) s
      (fun hs s' => s.Later s' ∧ List.Forall₂ (fun h t => s'.Has h ∧ s'.Represents h t) hs ts ∧
        ((∀ t ∈ ts, s.Knows t) → s' = s))
      fun _ _ => False := by
  induction ts generalizing s with
  | nil =>
    unfold ofTerms
    exact ⟨wf.later, .nil, fun _ => rfl⟩
  | cons t ts ih =>
    obtain ⟨first, rest⟩ := List.forall_mem_cons.mp reads
    rw [List.map_cons, ofTerms, Outcome.bind_iff]
    refine (first s wf vocabulary).imp_done ?_
    intro h s₁ given
    rw [Outcome.bind_iff]
    refine (ih rest given.later.wellFormed
      (given.later.grown.vocabulary.trans vocabulary)).imp_done ?_
    rintro hs s₂ ⟨later, stand, settled⟩
    refine ⟨given.later.trans later, ?_, ?_⟩
    · exact .cons ⟨later.grown.has given.has, later.grown.represents given.has given.stands⟩ stand
    · intro known
      obtain ⟨knownFirst, knownRest⟩ := List.forall_mem_cons.mp known
      have same := given.known knownFirst
      subst same
      exact settled knownRest

/-- A node is built once its operands are. -/
theorem intern_after {s₁ : Store} {node : Node} {t : Expr} (later : s.Later s₁)
    (settled : s.Knows t → s₁ = s) (formed : t.WellKinded) (normal : t.Normal)
    (operands : ∀ h ∈ node.operands, s₁.Has h)
    (declared : node.Declared s₁.vocabulary) (tree : node.tree? s₁.trees = some t) :
    Outcome (intern node) s₁ (s.Given t) fun _ _ => False :=
  (intern_given later.wellFormed operands declared tree formed normal).imp_done
    fun _ _ given => given.after later settled

section
variable {v : Vocabulary}

theorem Reads.unary {op : UnaryOp} {a : Expr} (operand : Reads text v a)
    (formed : (Expr.unary op a).Over v) (normal : (Expr.unary op a).Normal) :
    Reads text v (.unary op a) := by
  intro s wf vocabulary
  by_cases projection : op.rule = .conceptProjection
  · obtain ⟨i, rfl⟩ : ∃ i, op = .conceptProjection i := by
      cases op <;> first | exact ⟨_, rfl⟩ | cases projection
    unfold Expr.term ofTerm
    rw [Rule.ofName?_name]
    dsimp only
    rw [Outcome.bind_iff]
    refine (operand s wf vocabulary).imp_done ?_
    intro role s₁ given
    have isRole : role.kind = .role := given.stands.kind.symm.trans formed.wellKinded.1
    have low : i ≤ 1 := formed.declared.1
    have narrow : i < UInt32.size := Nat.lt_of_le_of_lt low (by decide)
    simp only [isRole, ne_eq, not_true_eq_false, if_false]
    rw [readPosition_bind (numeral_toString narrow)]
    simp only [Build.projection, isRole, ne_eq, not_true_eq_false, if_false, Nat.not_lt.mpr low]
    refine intern_after given.later ?_ formed.wellKinded normal ?_ low ?_
    · exact fun known => given.known (wf.knows_unary known)
    · intro h member
      rw [List.mem_singleton.mp member, UnaryOp.operand, ← isRole]
      exact given.has
    · exact Node.tree?_unary.mpr ⟨a, given.stands.tree, rfl⟩
  · have operandsOnly : op.rule.takesSymbols = false := by
      cases op <;> first | rfl | exact absurd rfl projection
    have operands := ofTerms_given (List.forall_mem_singleton.mpr operand) wf vocabulary
    rw [Expr.term_unary projection, ofTerm_composite operandsOnly, Outcome.bind_iff]
    refine operands.imp_done ?_
    rintro _ s₁ ⟨later, (_ | ⟨⟨has, stands⟩, _ | _⟩), settled⟩
    have kind := stands.kind.symm.trans formed.wellKinded.1
    rw [composite_unary projection kind]
    refine intern_after later ?_ formed.wellKinded normal ?_ formed.declared.1 ?_
    · exact fun known => settled (List.forall_mem_singleton.mpr (wf.knows_unary known))
    · intro h member
      rw [List.mem_singleton.mp member, ← kind]
      exact has
    · exact Node.tree?_unary.mpr ⟨a, stands.tree, rfl⟩

theorem Reads.binary {op : BinaryOp} {a b : Expr} (left : Reads text v a) (right : Reads text v b)
    (formed : (Expr.binary op a b).Over v) (normal : (Expr.binary op a b).Normal) :
    Reads text v (.binary op a b) := by
  intro s wf vocabulary
  have operandsOnly : op.rule.takesSymbols = false := by cases op <;> rfl
  have both : ∀ t ∈ [a, b], Reads text v t := by simpa using ⟨left, right⟩
  have operands := ofTerms_given both wf vocabulary
  rw [Expr.term, ofTerm_composite operandsOnly, Outcome.bind_iff]
  refine operands.imp_done ?_
  rintro _ s₁ ⟨later, (_ | ⟨⟨hasA, standsA⟩, (_ | ⟨⟨hasB, standsB⟩, _ | _⟩)⟩), settled⟩
  have kindA := standsA.kind.symm.trans formed.wellKinded.1
  have kindB := standsB.kind.symm.trans formed.wellKinded.2.1
  rw [composite_binary op kindA kindB]
  refine intern_after later ?_ formed.wellKinded normal ?_ trivial ?_
  · intro known
    exact settled (by simpa using wf.knows_binary known)
  · intro h member
    rcases List.mem_cons.mp member with rfl | member
    · exact kindA ▸ hasA
    · rw [List.mem_singleton.mp member, ← kindB]
      exact hasB
  · exact Node.tree?_binary.mpr ⟨a, b, standsA.tree, standsB.tree, rfl⟩

theorem Reads.distance {a r b : Expr} (source : Reads text v a) (role : Reads text v r)
    (target : Reads text v b) (formed : (Expr.distance a r b).Over v)
    (normal : (Expr.distance a r b).Normal) : Reads text v (.distance a r b) := by
  intro s wf vocabulary
  have all : ∀ t ∈ [a, r, b], Reads text v t := by simpa using ⟨source, role, target⟩
  have operands := ofTerms_given all wf vocabulary
  rw [Expr.term, ofTerm_composite rfl, Outcome.bind_iff]
  refine operands.imp_done ?_
  rintro _ s₁ ⟨later,
    (_ | ⟨⟨hasA, standsA⟩, (_ | ⟨⟨hasR, standsR⟩, (_ | ⟨⟨hasB, standsB⟩, _ | _⟩)⟩)⟩), settled⟩
  obtain ⟨kindA, kindR, kindB, _⟩ := formed.wellKinded
  have kindA := standsA.kind.symm.trans kindA
  have kindR := standsR.kind.symm.trans kindR
  have kindB := standsB.kind.symm.trans kindB
  rw [composite_distance kindA kindR kindB]
  refine intern_after later ?_ formed.wellKinded normal ?_ trivial ?_
  · intro known
    exact settled (by simpa using wf.knows_distance known)
  · intro h member
    rcases List.mem_cons.mp member with rfl | member
    · exact kindA ▸ hasA
    · rcases List.mem_cons.mp member with rfl | member
      · exact kindR ▸ hasR
      · rw [List.mem_singleton.mp member, ← kindB]
        exact hasB
  · exact Node.tree?_distance.mpr ⟨a, r, b, standsA.tree, standsR.tree, standsB.tree, rfl⟩

/-- The term of a normal expression is built in every store. -/
theorem reads_of_normal (separate : v.Separate) {t : Expr} (formed : t.Over v) (normal : t.Normal)
    (narrow : t.Narrow) : Reads text v t := by
  induction t with
  | leaf l =>
    intro s wf vocabulary
    subst vocabulary
    exact ofTerm_leaf wf (formed.declared.spelled separate narrow) formed.declared
  | unary op a ih => exact (ih formed.unary normal narrow).unary formed normal
  | binary op a b iha ihb =>
    have left := iha formed.binary.1 normal.2.1 narrow.1
    have right := ihb formed.binary.2 normal.2.2 narrow.2
    exact left.binary right formed normal
  | distance a r b iha ihr ihb =>
    have source := iha formed.distance.1 normal.1 narrow.1
    have role := ihr formed.distance.2.1 normal.2.1 narrow.2.1
    have target := ihb formed.distance.2.2 normal.2.2 narrow.2.2
    exact source.distance role target formed normal

/-- The text of a normal expression is read in every store. -/
theorem read_term_outcome (separate : v.Separate) (plain : v.Plain) {t : Expr} (formed : t.Over v)
    (normal : t.Normal) (narrow : t.Narrow) (wf : s.WellFormed) (vocabulary : s.vocabulary = v) :
    Outcome (read (t.term v).text) s (s.Given t) fun _ _ => False := by
  rw [read, Term.parse_text (Expr.named_term plain formed.declared)]
  exact reads_of_normal separate formed normal narrow s wf vocabulary

end

end Build
end PlanFeatures
