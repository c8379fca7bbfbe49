import PlanFeatures.Proofs.Grammar.NormalForm
import PlanFeatures.Proofs.Store.Printing
import PlanFeatures.Proofs.Store.Reachable

/-!
# Texts that identify expressions

Names stand in a text as they are.  If the parentheses within each name match, those of the
whole text do, so the arguments of an expression end at the first parenthesis that closes what
none of them opened.  The text of an operand then ends where its own arguments do, or with the
name of its rule, and different expressions have different texts.  A name that closes a
parenthesis which it has not opened can make two expressions look the same.
-/

namespace PlanFeatures

/-! ## Matching parentheses -/

/-- The number of open parentheses after a character, if it closes none that is not open. -/
def parenthesis (opened : Nat) (c : Char) : Option Nat :=
  if c = '(' then some (opened + 1)
  else if c = ')' then if opened = 0 then none else some (opened - 1)
  else some opened

/-- Each parenthesis that is opened is closed later, and only those are closed. -/
def Balanced (text : List Char) : Prop := text.foldlM parenthesis 0 = some 0

instance (text : List Char) : Decidable (Balanced text) :=
  inferInstanceAs (Decidable (text.foldlM parenthesis 0 = some 0))

/-- What is balanced leaves the parentheses around it open. -/
theorem parenthesis_shift {text : List Char} {n m : Nat} (k : Nat)
    (ends : text.foldlM parenthesis n = some m) :
    text.foldlM parenthesis (n + k) = some (m + k) := by
  induction text generalizing n with
  | nil => exact congrArg (fun i => some (i + k)) (Option.some.inj ends)
  | cons c rest ih =>
    obtain ⟨next, step, later⟩ := Option.bind_eq_some_iff.mp ends
    have shifted : parenthesis (n + k) c = some (next + k) := by
      unfold parenthesis at step ⊢
      split at step
      next opens => rw [if_pos opens, ← Option.some.inj step, Nat.add_right_comm]
      next other =>
        rw [if_neg other]
        split at step
        next closes =>
          split at step
          next => cases step
          next some =>
            rw [if_pos closes, if_neg (by omega), ← Option.some.inj step]
            exact congrArg _ (by omega)
        next inside => rw [if_neg inside, ← Option.some.inj step]
    rw [List.foldlM_cons, shifted]
    exact ih later

theorem Balanced.append {xs ys : List Char} (left : Balanced xs) (right : Balanced ys) :
    Balanced (xs ++ ys) := by
  rw [Balanced, List.foldlM_append, left]
  exact right

theorem Balanced.enclosed {xs : List Char} (inside : Balanced xs) :
    Balanced ('(' :: (xs ++ [')'])) := by
  rw [Balanced, List.foldlM_cons]
  show (xs ++ [')']).foldlM parenthesis (0 + 1) = some 0
  rw [List.foldlM_append, parenthesis_shift 1 inside]
  rfl

theorem balanced_of_plain {text : List Char} (plain : ∀ c ∈ text, c ≠ '(' ∧ c ≠ ')') :
    Balanced text := by
  induction text with
  | nil => rfl
  | cons c rest ih =>
    obtain ⟨notOpens, notCloses⟩ := plain c List.mem_cons_self
    have step : parenthesis 0 c = some 0 := by
      rw [parenthesis, if_neg notOpens, if_neg notCloses]
    rw [Balanced, List.foldlM_cons, step]
    exact ih fun d member => plain d (List.mem_cons_of_mem _ member)

/-- A closing parenthesis after a balanced text is the first one that closes what the text has
not opened. -/
theorem Balanced.close_inj {xs ys rest rest' : List Char} (left : Balanced xs)
    (right : Balanced ys) (same : xs ++ ')' :: rest = ys ++ ')' :: rest') :
    xs = ys ∧ rest = rest' := by
  -- Otherwise one of the texts goes on with the parenthesis after the other one.
  have stuck : ∀ {us vs zs : List Char}, Balanced us → Balanced vs → us ≠ vs ++ ')' :: zs := by
    intro us vs zs whole part longer
    rw [Balanced, longer, List.foldlM_append, part] at whole
    cases whole
  rcases List.append_eq_append_iff.mp same with ⟨zs, longer, split⟩ | ⟨zs, longer, split⟩
  · cases zs with
    | nil => exact ⟨by simp [longer], (List.cons.inj split).2⟩
    | cons z zs =>
      obtain ⟨rfl, -⟩ := List.cons.inj split
      exact absurd longer (stuck right left)
  · cases zs with
    | nil => exact ⟨by simp [longer], (List.cons.inj split).2.symm⟩
    | cons z zs =>
      obtain ⟨rfl, -⟩ := List.cons.inj split
      exact absurd longer (stuck left right)

/-! ## Applications of rules -/

/-- Further arguments, each after a comma. -/
def further (args : List String) : List Char := args.flatMap fun a => ',' :: a.toList

/-- The arguments with commas between them. -/
def argumentChars (args : List String) : List Char := (String.intercalate "," args).toList

theorem argumentChars_cons (a : String) (args : List String) :
    argumentChars (a :: args) = a.toList ++ further args := by
  induction args generalizing a with
  | nil => simp [argumentChars, further]
  | cons b args ih =>
    have rest := ih b
    rw [argumentChars] at rest ⊢
    rw [String.intercalate_cons_cons, String.toList_append, rest]
    simp [further]

theorem toList_applicationText (name : String) (args : List String) :
    (applicationText name args).toList =
      name.toList ++ if args = [] then [] else '(' :: (argumentChars args ++ [')']) := by
  cases args <;> simp [applicationText, argumentChars]

theorem balanced_argumentChars {args : List String} (balanced : ∀ a ∈ args, Balanced a.toList) :
    Balanced (argumentChars args) := by
  have more : ∀ {args : List String}, (∀ a ∈ args, Balanced a.toList) →
      Balanced (further args) := by
    intro args balanced
    induction args with
    | nil => rfl
    | cons a args ih =>
      obtain ⟨first, rest⟩ := List.forall_mem_cons.mp balanced
      have comma : Balanced [','] := rfl
      exact comma.append (first.append (ih rest))
  cases args with
  | nil => rfl
  | cons a args =>
    obtain ⟨first, rest⟩ := List.forall_mem_cons.mp balanced
    exact argumentChars_cons a args ▸ first.append (more rest)

theorem ne_parenthesis_of_isNamePart {c : Char} (part : isNamePart c = true) :
    c ≠ '(' ∧ c ≠ ')' := by
  constructor <;> (rintro rfl; revert part; decide)

theorem balanced_ruleName (r : Rule) : Balanced r.name.toList :=
  balanced_of_plain fun c member => ne_parenthesis_of_isNamePart ((isName_ruleName r).2 c member)

theorem balanced_numeral (n : Nat) : Balanced (toString n).toList :=
  balanced_of_plain fun c member => ne_parenthesis_of_isNamePart ((isName_toString n).2 c member)

theorem balanced_application (r : Rule) {args : List String}
    (balanced : ∀ a ∈ args, Balanced a.toList) :
    Balanced (applicationText r.name args).toList := by
  rw [toList_applicationText]
  refine (balanced_ruleName r).append ?_
  split
  next => rfl
  next => exact (balanced_argumentChars balanced).enclosed

theorem Rule.name_injective {r q : Rule} (same : r.name = q.name) : r = q := by
  have found := ofName?_name r
  rw [same, ofName?_name] at found
  exact (Option.some.inj found).symm

/-- An application ends where its text does, whatever follows it, and its text determines the
rule and the arguments with their commas. -/
theorem application_inj {r q : Rule} {as bs : List String} {rest rest' : List Char}
    (balanced : ∀ a ∈ as, Balanced a.toList) (balanced' : ∀ b ∈ bs, Balanced b.toList)
    (ends : Term.Ends rest) (ends' : Term.Ends rest')
    (same : (applicationText r.name as).toList ++ rest
      = (applicationText q.name bs).toList ++ rest') :
    r = q ∧ (as = [] ↔ bs = []) ∧ argumentChars as = argumentChars bs ∧ rest = rest' := by
  -- The name of the rule is what stands before the first parenthesis, comma or end.
  have name : ∀ {r : Rule} {as : List String} {rest : List Char}, Term.Ends rest →
      ((applicationText r.name as).toList ++ rest).takeWhile isNamePart = r.name.toList := by
    intro r as rest ends
    rw [toList_applicationText, List.append_assoc,
      List.takeWhile_append_of_pos (isName_ruleName r).2]
    cases as with
    | nil => simp [ends.takeWhile_eq_nil]
    | cons a as =>
      have stop : isNamePart '(' = false := by decide
      simp [stop]
  have rules : r = q := by
    have taken := congrArg (List.takeWhile isNamePart) same
    rw [name ends, name ends'] at taken
    exact Rule.name_injective (String.toList_inj.mp taken)
  subst rules
  rw [toList_applicationText, toList_applicationText, List.append_assoc, List.append_assoc] at same
  have tails := List.append_cancel_left same
  have opens : ∀ {rest cs : List Char}, Term.Ends rest → rest ≠ '(' :: cs := by
    rintro rest cs ends rfl
    rcases ends '(' rfl with mark | mark <;> cases mark
  cases as with
  | nil =>
    cases bs with
    | nil => exact ⟨rfl, Iff.rfl, rfl, tails⟩
    | cons b bs => exact absurd tails (opens ends)
  | cons a as =>
    cases bs with
    | nil => exact absurd tails.symm (opens ends')
    | cons b bs =>
      simp only [reduceCtorEq, if_false, List.cons_append, List.append_assoc, List.nil_append]
        at tails
      obtain ⟨inside, after⟩ := (balanced_argumentChars balanced).close_inj
        (balanced_argumentChars balanced') (List.cons.inj tails).2
      exact ⟨rfl, by simp, inside, after⟩

/-! ## Leaves -/

/-- What stands before and after the last comma. -/
theorem last_comma_inj {xs ys ds es : List Char} (plain : ',' ∉ ds) (plain' : ',' ∉ es)
    (same : xs ++ ',' :: ds = ys ++ ',' :: es) : xs = ys ∧ ds = es := by
  rcases List.append_eq_append_iff.mp same with ⟨zs, longer, split⟩ | ⟨zs, longer, split⟩
  · cases zs with
    | nil => exact ⟨by simp [longer], (List.cons.inj split).2⟩
    | cons z zs =>
      obtain ⟨-, later⟩ := List.cons.inj split
      exact absurd (later ▸ List.mem_append_right zs List.mem_cons_self) plain
  · cases zs with
    | nil => exact ⟨by simp [longer], (List.cons.inj split).2.symm⟩
    | cons z zs =>
      obtain ⟨-, later⟩ := List.cons.inj split
      exact absurd (later ▸ List.mem_append_right zs List.mem_cons_self) plain'

theorem comma_not_mem_toString (n : Nat) : ',' ∉ (toString n).toList := fun member =>
  absurd (isDigit_of_mem_toString member) (by decide)

theorem toString_nat_injective {n m : Nat} (same : (toString n).toList = (toString m).toList) :
    n = m := by
  rw [toList_toString, toList_toString] at same
  rw [← Nat.ofDigitChars_ten_toDigits (n := n), same, Nat.ofDigitChars_ten_toDigits]

/-- A list whose last argument is a numeral determines the numeral and the other arguments. -/
theorem numeral_last_inj {xs ys : List Char} {n m : Nat}
    (same : xs ++ ',' :: (toString n).toList = ys ++ ',' :: (toString m).toList) :
    xs = ys ∧ n = m := by
  obtain ⟨before, after⟩ :=
    last_comma_inj (comma_not_mem_toString n) (comma_not_mem_toString m) same
  exact ⟨before, toString_nat_injective after⟩

namespace Vocabulary
variable {v : Vocabulary}

/-- The parentheses within each name match. -/
structure Balanced (v : Vocabulary) : Prop where
  predicates : ∀ {p : PredicateId} {predicate : Predicate},
    v.predicate? p = some predicate → PlanFeatures.Balanced predicate.name.toList
  constants : ∀ {k : ConstantId} {name : String},
    v.constant? k = some name → PlanFeatures.Balanced name.toList

theorem Separate.eq_of_predicateText (separate : v.Separate) {p q : PredicateId}
    (known : ∃ predicate, v.predicate? p = some predicate)
    (known' : ∃ predicate, v.predicate? q = some predicate)
    (same : (v.predicateText p).toList = (v.predicateText q).toList) : p = q := by
  obtain ⟨predicate, found⟩ := known
  obtain ⟨predicate', found'⟩ := known'
  rw [predicateText_eq found, predicateText_eq found'] at same
  have index := separate.predicates _ _ _ _ found found' (String.toList_inj.mp same)
  cases p
  cases q
  exact congrArg PredicateId.mk index

theorem Separate.eq_of_constantText (separate : v.Separate) {k l : ConstantId}
    (known : ∃ name, v.constant? k = some name) (known' : ∃ name, v.constant? l = some name)
    (same : (v.constantText k).toList = (v.constantText l).toList) : k = l := by
  obtain ⟨name, found⟩ := known
  obtain ⟨name', found'⟩ := known'
  rw [constantText_eq found, constantText_eq found'] at same
  have index := separate.constants _ _ _ _ found found' (String.toList_inj.mp same)
  cases k
  cases l
  exact congrArg ConstantId.mk index

end Vocabulary

namespace Leaf
variable {v : Vocabulary}

theorem balanced_arguments (balanced : v.Balanced) {l : Leaf} (declared : l.Declared v) :
    ∀ a ∈ v.leafArguments l, Balanced a.toList := by
  cases l with
  | conceptPrimitive p i =>
    obtain ⟨predicate, known, _⟩ := declared
    rw [Vocabulary.leafArguments, Vocabulary.predicateText_eq known]
    exact List.forall_mem_cons.mpr ⟨balanced.predicates known,
      List.forall_mem_singleton.mpr (balanced_numeral i)⟩
  | rolePrimitive p i j =>
    obtain ⟨predicate, known, _⟩ := declared
    rw [Vocabulary.leafArguments, Vocabulary.predicateText_eq known]
    exact List.forall_mem_cons.mpr ⟨balanced.predicates known,
      List.forall_mem_cons.mpr ⟨balanced_numeral i,
        List.forall_mem_singleton.mpr (balanced_numeral j)⟩⟩
  | booleanNullary p =>
    obtain ⟨predicate, known, _⟩ := declared
    rw [Vocabulary.leafArguments, Vocabulary.predicateText_eq known]
    exact List.forall_mem_singleton.mpr (balanced.predicates known)
  | conceptOneOf k =>
    obtain ⟨name, known⟩ := declared
    rw [Vocabulary.leafArguments, Vocabulary.constantText_eq known]
    exact List.forall_mem_singleton.mpr (balanced.constants known)
  | conceptBot | conceptTop | roleTop => exact fun _ member => absurd member List.not_mem_nil

/-- Names may hold commas: what is not the name comes after the last ones. -/
theorem eq_of_arguments (separate : v.Separate) {l m : Leaf} (declared : l.Declared v)
    (declared' : m.Declared v) (rule : l.rule = m.rule)
    (same : argumentChars (v.leafArguments l) = argumentChars (v.leafArguments m)) : l = m := by
  cases l <;> cases m <;> first | rfl | cases rule
  case conceptPrimitive p i q j =>
    obtain ⟨predicate, known, _⟩ := declared
    obtain ⟨predicate', known', _⟩ := declared'
    simp only [Vocabulary.leafArguments, argumentChars_cons, further, List.flatMap_cons,
      List.flatMap_nil, List.append_nil] at same
    obtain ⟨name, rfl⟩ := numeral_last_inj same
    rw [separate.eq_of_predicateText ⟨_, known⟩ ⟨_, known'⟩ name]
  case rolePrimitive p i j q i' j' =>
    obtain ⟨predicate, known, _⟩ := declared
    obtain ⟨predicate', known', _⟩ := declared'
    simp only [Vocabulary.leafArguments, argumentChars_cons, further, List.flatMap_cons,
      List.flatMap_nil, List.append_nil] at same
    rw [← List.append_assoc, ← List.append_assoc] at same
    obtain ⟨before, rfl⟩ := numeral_last_inj same
    obtain ⟨name, rfl⟩ := numeral_last_inj before
    rw [separate.eq_of_predicateText ⟨_, known⟩ ⟨_, known'⟩ name]
  case booleanNullary p q =>
    obtain ⟨predicate, known, _⟩ := declared
    obtain ⟨predicate', known', _⟩ := declared'
    simp only [Vocabulary.leafArguments, argumentChars_cons, further, List.flatMap_nil,
      List.append_nil] at same
    rw [separate.eq_of_predicateText ⟨_, known⟩ ⟨_, known'⟩ same]
  case conceptOneOf k k' =>
    simp only [Vocabulary.leafArguments, argumentChars_cons, further, List.flatMap_nil,
      List.append_nil] at same
    rw [separate.eq_of_constantText declared declared' same]

end Leaf

/-! ## Expressions -/

/-- Texts of the arguments after the operand. -/
def UnaryOp.positions : UnaryOp → List String
  | conceptProjection i => [toString i]
  | _ => []

theorem UnaryOp.symbols_of_positions {op other : UnaryOp} (rule : op.rule = other.rule)
    (same : further op.positions = further other.positions) : op.symbols = other.symbols := by
  cases op <;> cases other <;> first | rfl | cases rule
  case conceptProjection i j =>
    simp only [positions, further, List.flatMap_cons, List.flatMap_nil, List.append_nil] at same
    rw [toString_nat_injective (List.cons.inj same).2]

theorem UnaryOp.balanced_positions (op : UnaryOp) : ∀ a ∈ op.positions, Balanced a.toList := by
  cases op with
  | conceptProjection i => exact List.forall_mem_singleton.mpr (balanced_numeral i)
  | _ => exact fun _ member => absurd member List.not_mem_nil

namespace Expr
variable {v : Vocabulary}

/-- The text of an expression. -/
def text (v : Vocabulary) (t : Expr) : String := (t.term v).text

/-- Texts of the arguments at the root. -/
def arguments (v : Vocabulary) : Expr → List String
  | leaf l => v.leafArguments l
  | unary op a => a.text v :: op.positions
  | binary _ a b => [a.text v, b.text v]
  | distance a r b => [a.text v, r.text v, b.text v]

theorem text_eq (v : Vocabulary) (t : Expr) :
    t.text v = applicationText t.rule.name (t.arguments v) := by
  cases t with
  | leaf l =>
    have plain : Term.text ∘ Term.ofSymbol = id := funext Term.text_ofSymbol
    rw [text, term, Term.text_node, List.map_map, plain, List.map_id]
    rfl
  | unary op a =>
    cases op with
    | conceptProjection i =>
      rw [text, term, Term.text_node, List.map_cons, List.map_cons, Term.text_ofSymbol]
      rfl
    | _ => exact Term.text_node ..
  | binary op a b => exact Term.text_node ..
  | distance a r b => exact Term.text_node ..

theorem balanced_arguments (balanced : v.Balanced) {t : Expr} (declared : t.Declared v) :
    ∀ a ∈ t.arguments v, Balanced a.toList := by
  have text : ∀ {x : Expr}, (∀ a ∈ x.arguments v, Balanced a.toList) →
      Balanced (x.text v).toList := by
    intro x arguments
    rw [text_eq]
    exact balanced_application x.rule arguments
  induction t with
  | leaf l => exact l.balanced_arguments balanced declared
  | unary op a ih =>
    exact List.forall_mem_cons.mpr ⟨text (ih declared.2), op.balanced_positions⟩
  | binary op a b iha ihb =>
    exact List.forall_mem_cons.mpr ⟨text (iha declared.1),
      List.forall_mem_singleton.mpr (text (ihb declared.2))⟩
  | distance a r b iha ihr ihb =>
    exact List.forall_mem_cons.mpr ⟨text (iha declared.1),
      List.forall_mem_cons.mpr ⟨text (ihr declared.2.1),
        List.forall_mem_singleton.mpr (text (ihb declared.2.2))⟩⟩

/-- A text ends in the same place whatever follows it. -/
theorem text_prefix (balanced : v.Balanced) {x y : Expr} (declared : x.Declared v)
    (declared' : y.Declared v) {rest rest' : List Char} (ends : Term.Ends rest)
    (ends' : Term.Ends rest')
    (same : (x.text v).toList ++ rest = (y.text v).toList ++ rest') :
    x.text v = y.text v ∧ rest = rest' := by
  rw [text_eq, text_eq] at same
  obtain ⟨rule, empty, arguments, after⟩ := application_inj
    (balanced_arguments balanced declared) (balanced_arguments balanced declared') ends ends' same
  refine ⟨String.toList_inj.mp ?_, after⟩
  rw [text_eq, text_eq, toList_applicationText, toList_applicationText, rule, arguments]
  simp only [empty]

theorem ends_further (args : List String) : Term.Ends (further args) := by
  cases args with
  | nil => exact Term.ends_nil
  | cons a args => exact fun c head => Or.inl (Option.some.inj head).symm

/-- The text of the first operand ends where the other arguments start. -/
theorem operand_inj (balanced : v.Balanced) {x y : Expr} (declared : x.Declared v)
    (declared' : y.Declared v) {as bs : List String}
    (same : argumentChars (x.text v :: as) = argumentChars (y.text v :: bs)) :
    x.text v = y.text v ∧ further as = further bs := by
  rw [argumentChars_cons, argumentChars_cons] at same
  exact text_prefix balanced declared declared' (ends_further as) (ends_further bs) same

theorem further_operand_inj (balanced : v.Balanced) {x y : Expr} (declared : x.Declared v)
    (declared' : y.Declared v) {as bs : List String}
    (same : further (x.text v :: as) = further (y.text v :: bs)) :
    x.text v = y.text v ∧ further as = further bs := by
  have behind : (x.text v).toList ++ further as = (y.text v).toList ++ further bs :=
    (List.cons.inj same).2
  exact text_prefix balanced declared declared' (ends_further as) (ends_further bs) behind

/-- What stands at the roots of expressions with one text. -/
theorem roots_of_text (balanced : v.Balanced) {x y : Expr} (declared : x.Declared v)
    (declared' : y.Declared v) (same : x.text v = y.text v) :
    x.rule = y.rule ∧ argumentChars (x.arguments v) = argumentChars (y.arguments v) := by
  rw [text_eq, text_eq] at same
  obtain ⟨rule, _, arguments, _⟩ := application_inj (balanced_arguments balanced declared)
    (balanced_arguments balanced declared') Term.ends_nil Term.ends_nil
    (congrArg (·.toList ++ []) same)
  exact ⟨rule, arguments⟩

/-- Expressions with one text are the same. -/
theorem eq_of_text (separate : v.Separate) (balanced : v.Balanced) {x y : Expr} (formed : x.Over v)
    (formed' : y.Over v) (same : x.text v = y.text v) : x = y := by
  -- The rule at the root is the name that the text starts with; it fixes the number of operands,
  -- whose texts follow each other.
  obtain ⟨kinds, declared⟩ := formed
  obtain ⟨kinds', declared'⟩ := formed'
  induction x generalizing y with
  | leaf l =>
    obtain ⟨rule, arguments⟩ := roots_of_text balanced declared declared' same
    have shape := congrArg Rule.operandCount rule
    cases y <;> simp [operandCount_rule] at shape
    case leaf m => rw [Leaf.eq_of_arguments separate declared declared' rule arguments]
  | unary op a ih =>
    obtain ⟨rule, arguments⟩ := roots_of_text balanced declared declared' same
    have shape := congrArg Rule.operandCount rule
    cases y <;> simp [operandCount_rule] at shape
    case unary op' b =>
      obtain ⟨first, positions⟩ := operand_inj balanced declared.2 declared'.2 arguments
      obtain rfl := ih first kinds.2 declared.2 kinds'.2 declared'.2
      have operator : op = op' := UnaryOp.eq_of_labels rule
        (UnaryOp.symbols_of_positions rule positions) (kinds.1.symm.trans kinds'.1)
      rw [operator]
  | binary op a b iha ihb =>
    obtain ⟨rule, arguments⟩ := roots_of_text balanced declared declared' same
    have shape := congrArg Rule.operandCount rule
    cases y <;> simp [operandCount_rule] at shape
    case binary op' c d =>
      obtain ⟨first, others⟩ := operand_inj balanced declared.1 declared'.1 arguments
      obtain ⟨second, _⟩ := further_operand_inj balanced declared.2 declared'.2 others
      obtain ⟨kindA, _, kindsA, kindsB⟩ := kinds
      obtain ⟨kindC, _, kindsC, kindsD⟩ := kinds'
      obtain rfl := iha first kindsA declared.1 kindsC declared'.1
      obtain rfl := ihb second kindsB declared.2 kindsD declared'.2
      rw [BinaryOp.eq_of_labels rule (kindA.symm.trans kindC)]
  | distance a r b iha ihr ihb =>
    obtain ⟨rule, arguments⟩ := roots_of_text balanced declared declared' same
    have shape := congrArg Rule.operandCount rule
    cases y <;> simp [operandCount_rule] at shape
    case distance c q d =>
      obtain ⟨declaredA, declaredR, declaredB⟩ := declared
      obtain ⟨declaredC, declaredQ, declaredD⟩ := declared'
      obtain ⟨first, others⟩ := operand_inj balanced declaredA declaredC arguments
      obtain ⟨second, others⟩ := further_operand_inj balanced declaredR declaredQ others
      obtain ⟨third, _⟩ := further_operand_inj balanced declaredB declaredD others
      obtain ⟨_, _, _, kindsA, kindsR, kindsB⟩ := kinds
      obtain ⟨_, _, _, kindsC, kindsQ, kindsD⟩ := kinds'
      rw [iha first kindsA declaredA kindsC declaredC, ihr second kindsR declaredR kindsQ declaredQ,
        ihb third kindsB declaredB kindsD declaredD]

end Expr

/-! ## Stored expressions -/

namespace Store

/-- Two handles that a store has given out never have one text, if the parentheses within each
name match. -/
theorem Reachable.text_ne {s : Store} {issued : List Handle} (reachable : s.Reachable issued)
    (made : s.vocabulary.Made) (balanced : s.vocabulary.Balanced) {h g : Handle}
    (owned : h ∈ issued) (owned' : g ∈ issued) (different : h ≠ g) : s.text h ≠ s.text g := by
  intro same
  obtain ⟨wf, has⟩ := reachable.sound
  obtain ⟨x, stands⟩ := wf.represents (has h owned)
  obtain ⟨y, stands'⟩ := wf.represents (has g owned')
  rw [wf.text_eq (has h owned) stands.tree, wf.text_eq (has g owned') stands'.tree] at same
  obtain rfl := Expr.eq_of_text made.separate balanced stands.formed stands'.formed same
  exact different (wf.eq_of_tree (has h owned) (has g owned') stands.tree stands'.tree)

/-! ## Names with parentheses -/

/-- Constants that are declared one after the other. -/
def constantsOnly (names : List String) : Vocabulary :=
  names.foldl (fun v name => (v.addConstant name).2) .empty

theorem made_constantsOnly (names : List String) : (constantsOnly names).Made :=
  List.foldlRecOn names _ .empty fun _ made name _ => .constant made name

theorem balanced_of_names {v : Vocabulary}
    (predicates : ∀ predicate ∈ v.predicates, PlanFeatures.Balanced predicate.name.toList)
    (constants : ∀ name ∈ v.constants, PlanFeatures.Balanced name.toList) : v.Balanced where
  predicates known := predicates _ (Array.mem_of_getElem? known)
  constants known := constants _ (Array.mem_of_getElem? known)

theorem exists_nested : ∃ (s : Store) (issued : List Handle), s.Reachable issued ∧
    s.vocabulary = constantsOnly ["a,b", "(a)"] ∧ ⟨.concept, 3⟩ ∈ issued ∧
    ⟨.concept, 4⟩ ∈ issued ∧ s.text ⟨.concept, 3⟩ = "c_diff(c_one_of(a,b),c_one_of((a)))" := by
  have none : Reachable ⟨constantsOnly ["a,b", "(a)"], ⟨#[], 1, ∅⟩, #[]⟩ [] :=
    @Reachable.new _ 0 _ rfl
  have list := none.call (.leaf (.conceptOneOf ⟨0⟩)) (by decide) trivial
  have nested := list.call (.leaf (.conceptOneOf ⟨1⟩)) (by decide) trivial
  have forth := nested.call (.composite .conceptDiff [⟨.concept, 1⟩, ⟨.concept, 2⟩])
    (by decide +kernel) trivial
  have back := forth.call (.composite .conceptDiff [⟨.concept, 2⟩, ⟨.concept, 1⟩])
    (by decide +kernel) trivial
  exact ⟨_, _, back, by decide +kernel, by decide +kernel, by decide +kernel, by decide +kernel⟩

/-- Names may have commas and matching parentheses in them. -/
theorem text_ne_nested : ∃ (s : Store) (issued : List Handle), s.Reachable issued ∧
    s.text ⟨.concept, 3⟩ = "c_diff(c_one_of(a,b),c_one_of((a)))" ∧
    s.text ⟨.concept, 3⟩ ≠ s.text ⟨.concept, 4⟩ := by
  obtain ⟨s, issued, reachable, vocabulary, first, second, text⟩ := exists_nested
  have made : s.vocabulary.Made := vocabulary ▸ made_constantsOnly _
  have balanced : s.vocabulary.Balanced :=
    vocabulary ▸ balanced_of_names (by decide +kernel) (by decide +kernel)
  exact ⟨s, issued, reachable, text, reachable.text_ne made balanced first second (by decide)⟩

theorem exists_unbalanced : ∃ (s : Store) (issued : List Handle), s.Reachable issued ∧
    s.vocabulary = constantsOnly ["a", "b),c_one_of(c", "a),c_one_of(b", "c"] ∧
    ⟨.concept, 5⟩ ∈ issued ∧ ⟨.concept, 6⟩ ∈ issued ∧
    s.text ⟨.concept, 5⟩ = "c_diff(c_one_of(a),c_one_of(b),c_one_of(c))" ∧
    s.text ⟨.concept, 6⟩ = "c_diff(c_one_of(a),c_one_of(b),c_one_of(c))" := by
  have none : Reachable ⟨constantsOnly ["a", "b),c_one_of(c", "a),c_one_of(b", "c"],
      ⟨#[], 1, ∅⟩, #[]⟩ [] := @Reachable.new _ 0 _ rfl
  have a := none.call (.leaf (.conceptOneOf ⟨0⟩)) (by decide) trivial
  have bc := a.call (.leaf (.conceptOneOf ⟨1⟩)) (by decide) trivial
  have ab := bc.call (.leaf (.conceptOneOf ⟨2⟩)) (by decide) trivial
  have c := ab.call (.leaf (.conceptOneOf ⟨3⟩)) (by decide) trivial
  have left := c.call (.composite .conceptDiff [⟨.concept, 1⟩, ⟨.concept, 2⟩])
    (by decide +kernel) trivial
  have right := left.call (.composite .conceptDiff [⟨.concept, 3⟩, ⟨.concept, 4⟩])
    (by decide +kernel) trivial
  exact ⟨_, _, right, by decide +kernel, by decide +kernel, by decide +kernel,
    by decide +kernel, by decide +kernel⟩

/-- Not every text identifies its expression: a constant whose name closes a parenthesis that it
has not opened makes two expressions look the same. -/
theorem text_does_not_identify : ¬ ∀ (s : Store) (issued : List Handle),
    s.Reachable issued → s.vocabulary.Made →
      ∀ h ∈ issued, ∀ g ∈ issued, h ≠ g → s.text h ≠ s.text g := by
  intro always
  obtain ⟨s, issued, reachable, vocabulary, first, second, text, text'⟩ := exists_unbalanced
  have made : s.vocabulary.Made := vocabulary ▸ made_constantsOnly _
  exact always s issued reachable made _ first _ second (by decide) (text.trans text'.symm)

end Store
end PlanFeatures
