import Mathlib.Data.List.Forall2
import PlanFeatures.Proofs.Meaning.Trees
import PlanFeatures.Proofs.Store.Building
import PlanFeatures.Proofs.Term.Typing

/-!
# What is read is typed

The reader builds an expression only from a term that is typed over the vocabulary of the
store, and gives a handle of the expression that the term spells.  It checks a part of the
typing, and the constructors of leaves and the operators check the others; together they
check all of it.  On the way only interpretations of terms within the given one are added,
and they stay when the whole is refused.
-/

namespace PlanFeatures

namespace Store
variable {s s₁ s' : Store} {h : Handle} {t : Expr} {p q : Term → Prop}

/-- The handle is of an expression of the store that is alike the tree. -/
structure StandsFor (s : Store) (h : Handle) (t : Expr) : Prop where
  has : s.Has h
  tree : ∃ u, s.Represents h u ∧ u.Alike t

theorem StandsFor.kind (stands : s.StandsFor h t) : h.kind = t.kind := by
  obtain ⟨u, represents, alike⟩ := stands.tree
  exact represents.kind.symm.trans alike.kind_eq

theorem StandsFor.extends (stands : s.StandsFor h t) (grown : s.Extends s') : s'.StandsFor h t := by
  obtain ⟨u, represents, alike⟩ := stands.tree
  exact ⟨grown.has stands.has, u, grown.represents stands.has represents, alike⟩

/-- All that is new in the later store is interpretations of certain terms. -/
def AddsOnly (s : Store) (terms : Term → Prop) (s' : Store) : Prop :=
  ∀ h, s'.Has h → s.Has h ∨ ∃ u e, terms u ∧ u.Typed s.vocabulary e ∧ s'.StandsFor h e

theorem AddsOnly.refl (s : Store) (p : Term → Prop) : s.AddsOnly p s := fun _ has => .inl has

theorem AddsOnly.imp (adds : s.AddsOnly p s') (sub : ∀ u, p u → q u) : s.AddsOnly q s' := by
  intro h has
  rcases adds h has with old | ⟨u, e, inside, typed, stands⟩
  · exact .inl old
  · exact .inr ⟨u, e, sub u inside, typed, stands⟩

theorem AddsOnly.trans (first : s.AddsOnly p s₁) (grown : s.Extends s₁)
    (second : s₁.AddsOnly p s') (grown' : s₁.Extends s') : s.AddsOnly p s' := by
  intro h has
  rcases second h has with old | ⟨u, e, inside, typed, stands⟩
  · rcases first h old with older | ⟨u, e, inside, typed, stands⟩
    · exact .inl older
    · exact .inr ⟨u, e, inside, typed, stands.extends grown'⟩
  · exact .inr ⟨u, e, inside, grown.vocabulary ▸ typed, stands⟩

theorem Inserted.addsOnly {node : Node} {h : Handle} {t : Term} {e : Expr}
    (added : s.Inserted node h s') (here : p t) (typed : t.Typed s.vocabulary e)
    (stands : s'.StandsFor h e) : s.AddsOnly p s' := by
  intro g has
  rcases added.only has with old | rfl
  · exact .inl old
  · exact .inr ⟨t, e, here, typed, stands⟩

theorem Inserted.stands {node : Node} {h : Handle} {u e : Expr} (added : s.Inserted node h s')
    (operands : ∀ h ∈ node.operands, s.Has h) (tree : node.tree? s.trees = some u)
    (alike : u.Alike e) : s'.StandsFor h e := by
  obtain ⟨x, represents, alikeX⟩ := added.represents operands tree
  exact ⟨added.has, x, represents, alikeX.trans alike⟩

end Store

theorem Rule.name_of_ofName? {name : String} {rule : Rule} (found : Rule.ofName? name = some rule) :
    rule.name = name := by
  simpa using List.find?_some found

namespace Build
variable {s : Store} {text : String}

/-! ## Terms -/

section
variable {rule : Rule} {t : Term}

theorem readSymbol_outcome :
    Outcome (readSymbol text rule t) s (fun name s' => s' = s ∧ t = .ofSymbol name)
      fun error s' => s' = s ∧ error.Regular := by
  obtain ⟨name, args⟩ := t
  cases args with
  | nil => exact ⟨rfl, rfl⟩
  | cons t ts => exact ⟨rfl, by rintro h ⟨⟩⟩

theorem readPosition_outcome :
    Outcome (readPosition text rule t) s
      (fun i s' => s' = s ∧ ∃ name, t = .ofSymbol name ∧ Numeral name i)
      fun error s' => s' = s ∧ error.Regular := by
  simp only [readPosition, Outcome.bind_iff]
  refine readSymbol_outcome.imp_done ?_
  rintro name _ ⟨rfl, rfl⟩
  split
  next i found => exact ⟨rfl, name, rfl, readPosition?_iff.mp found⟩
  next => exact ⟨rfl, by rintro h ⟨⟩⟩

theorem readPredicate_outcome :
    Outcome (readPredicate text rule t) s
      (fun p s' => s' = s ∧ ∃ name, t = .ofSymbol name ∧ s.vocabulary.findPredicate? name = some p)
      fun error s' => s' = s ∧ error.Regular := by
  simp only [readPredicate, Outcome.bind_iff]
  refine readSymbol_outcome.imp_done ?_
  rintro name _ ⟨rfl, rfl⟩
  rw [Outcome.get_iff]
  split
  next p found => exact ⟨rfl, name, rfl, found⟩
  next => exact ⟨rfl, by rintro h ⟨⟩⟩

theorem readConstant_outcome :
    Outcome (readConstant text rule t) s
      (fun k s' => s' = s ∧ ∃ name, t = .ofSymbol name ∧ s.vocabulary.findConstant? name = some k)
      fun error s' => s' = s ∧ error.Regular := by
  simp only [readConstant, Outcome.bind_iff]
  refine readSymbol_outcome.imp_done ?_
  rintro name _ ⟨rfl, rfl⟩
  rw [Outcome.get_iff]
  split
  next k found => exact ⟨rfl, name, rfl, found⟩
  next => exact ⟨rfl, by rintro h ⟨⟩⟩

end

/-- The term is typed, and the handle is of the expression that it spells. -/
structure Understood (s : Store) (t : Term) (h : Handle) (s' : Store) : Prop where
  later : s.Later s'
  typed : ∃ e, t.Typed s.vocabulary e ∧ s'.StandsFor h e
  adds : s.AddsOnly (fun u => u.Within t) s'

/-- What a refusal leaves behind. -/
structure Refused (s : Store) (t : Term) (error : ExpressionError) (s' : Store) : Prop where
  later : s.Later s'
  regular : error.Regular
  adds : s.AddsOnly (fun u => u.Within t) s'

abbrev Checks (s : Store) (m : Build Handle) (t : Term) : Prop :=
  Outcome m s (Understood s t) (Refused s t)

section
variable {t : Term}

theorem refused_here (wf : s.WellFormed) {error : ExpressionError} (regular : error.Regular) :
    Refused s t error s :=
  ⟨wf.later, regular, .refl s _⟩

theorem Understood.inserted {node : Node} {h : Handle} {u e : Expr} {s' : Store}
    (added : s.Inserted node h s') (operands : ∀ h ∈ node.operands, s.Has h)
    (tree : node.tree? s.trees = some u) (alike : u.Alike e) (typed : t.Typed s.vocabulary e) :
    Understood s t h s' :=
  have stands := added.stands operands tree alike
  ⟨added.later, ⟨e, typed, stands⟩, added.addsOnly .here typed stands⟩

/-- Looking a name up changes nothing. -/
theorem checks_bind {α : Type} {m : Build α} {f : α → Build Handle} {found : α → Prop}
    (wf : s.WellFormed)
    (look : Outcome m s (fun a s' => s' = s ∧ found a) fun error s' => s' = s ∧ error.Regular)
    (next : ∀ a, found a → Checks s (f a) t) : Checks s (m >>= f) t := by
  rw [Checks, Outcome.bind_iff]
  refine look.imp ?_ ?_
  · rintro a _ ⟨rfl, here⟩
    exact next a here
  · rintro error _ ⟨rfl, regular⟩
    exact refused_here wf regular

/-- Terms within this one have been built before. -/
theorem Checks.after {s₁ : Store} {m : Build Handle} (later : s.Later s₁)
    (adds : s.AddsOnly (fun u => u.Within t) s₁) (checks : Checks s₁ m t) :
    Outcome m s₁ (Understood s t) (Refused s t) := by
  refine checks.imp ?_ ?_
  · rintro h s' ⟨later', ⟨e, typed, stands⟩, adds'⟩
    exact ⟨later.trans later', ⟨e, later.grown.vocabulary ▸ typed, stands⟩,
      adds.trans later.grown adds' later'.grown⟩
  · rintro error s' ⟨later', regular, adds'⟩
    exact ⟨later.trans later', regular, adds.trans later.grown adds' later'.grown⟩

theorem leaf_checks (wf : s.WellFormed) {l : Leaf} {names : List String}
    (spelled : l.Spelled s.vocabulary names) :
    Checks s (leaf l) (.node l.rule.name (names.map .ofSymbol)) := by
  refine (leaf_outcome wf l).imp ?_ ?_
  · intro h s' added
    have operands : ∀ h ∈ (Node.leaf l).operands, s.Has h := by
      intro h member
      cases member
    -- The store is well formed after the call, so the leaf has passed all checks.
    obtain ⟨x, represents, alike⟩ := added.represents operands rfl
    cases alike
    have declared := represents.formed.declared
    rw [added.grown.vocabulary] at declared
    exact .inserted added operands rfl (.leaf l) (.leaf spelled declared)
  · rintro error _ ⟨rfl, regular⟩
    exact refused_here wf regular

theorem projection_checks (wf : s.WellFormed) {role : Handle} {t : Term} {a : Expr}
    {name : String} {i : Nat} (typed : t.Typed s.vocabulary a) (stands : s.StandsFor role a)
    (isRole : role.kind = .role) (numeral : Numeral name i) :
    Checks s (projection role i) (.node Rule.conceptProjection.name [t, .ofSymbol name]) := by
  obtain ⟨x, represents, alike⟩ := stands.tree
  have kind : a.kind = .role := stands.kind.symm.trans isRole
  by_cases outside : 1 < i
  · simp only [projection, isRole, ne_eq, not_true_eq_false, if_false, if_pos outside]
    exact refused_here wf (by rintro h ⟨⟩)
  · have low : i ≤ 1 := Nat.not_lt.mp outside
    have operands : ∀ h ∈ (Node.unary (.conceptProjection i) role.index).operands, s.Has h := by
      simp only [Node.operands, List.forall_mem_singleton, UnaryOp.operand]
      exact isRole ▸ stands.has
    simp only [projection, isRole, ne_eq, not_true_eq_false, if_false, if_neg outside]
    apply (intern_outcome wf operands low).imp_total
    intro h s' added
    exact .inserted added operands (Node.tree?_unary.mpr ⟨x, represents.tree, rfl⟩)
      (.unary _ alike) (.projection typed kind numeral low)

/-- The node has a tree that is alike what the rule spells over the terms. -/
def NodeSpells (s : Store) (node : Node) (rule : Rule) (ts : List Term) : Prop :=
  ∃ u e, node.tree? s.trees = some u ∧ u.Alike e ∧
    (Term.node rule.name ts).Typed s.vocabulary e

theorem nodeSpells_unary {rule : Rule} {h : Handle} {t : Term} {a : Expr} {node : Node}
    (made : Node.ofOperands? rule [h] = some node) (typed : t.Typed s.vocabulary a)
    (stands : s.StandsFor h a) : NodeSpells s node rule [t] := by
  obtain ⟨x, represents, alike⟩ := stands.tree
  obtain ⟨op, found, rfl⟩ := Option.map_eq_some_iff.mp made
  obtain ⟨rfl, operand⟩ : op.rule = rule ∧ op.operand = h.kind := by
    simpa using List.find?_some found
  have other : op.rule ≠ .conceptProjection := by
    have plain := List.mem_of_find?_eq_some found
    intro same
    cases op with
    | conceptProjection i => simp [UnaryOp.plain] at plain
    | _ => cases same
  exact ⟨_, _, Node.tree?_unary.mpr ⟨x, represents.tree, rfl⟩, .unary op alike,
    .unary other typed (stands.kind.symm.trans operand.symm)⟩

theorem nodeSpells_binary {rule : Rule} {g h : Handle} {t u : Term} {a b : Expr} {node : Node}
    (made : Node.ofOperands? rule [g, h] = some node) (typedA : t.Typed s.vocabulary a)
    (typedB : u.Typed s.vocabulary b) (standsA : s.StandsFor g a) (standsB : s.StandsFor h b) :
    NodeSpells s node rule [t, u] := by
  obtain ⟨x, representsX, alikeX⟩ := standsA.tree
  obtain ⟨y, representsY, alikeY⟩ := standsB.tree
  obtain ⟨op, found, rfl⟩ := Option.map_eq_some_iff.mp made
  obtain ⟨rfl, left, right⟩ : op.rule = rule ∧ op.left = g.kind ∧ op.right = h.kind := by
    simpa using List.find?_some found
  exact ⟨_, _, Node.tree?_binary.mpr ⟨x, y, representsX.tree, representsY.tree, rfl⟩,
    .binary op alikeX alikeY, .binary typedA typedB (standsA.kind.symm.trans left.symm)
      (standsB.kind.symm.trans right.symm)⟩

theorem nodeSpells_distance {rule : Rule} {f g h : Handle} {t u w : Term} {a r b : Expr}
    {node : Node} (made : Node.ofOperands? rule [f, g, h] = some node)
    (typedA : t.Typed s.vocabulary a) (typedR : u.Typed s.vocabulary r)
    (typedB : w.Typed s.vocabulary b) (standsA : s.StandsFor f a) (standsR : s.StandsFor g r)
    (standsB : s.StandsFor h b) : NodeSpells s node rule [t, u, w] := by
  obtain ⟨x, representsX, alikeX⟩ := standsA.tree
  obtain ⟨y, representsY, alikeY⟩ := standsR.tree
  obtain ⟨z, representsZ, alikeZ⟩ := standsB.tree
  simp only [Node.ofOperands?, Option.ite_none_right_eq_some, Option.some.injEq] at made
  obtain ⟨⟨rfl, kindA, kindR, kindB⟩, rfl⟩ := made
  exact ⟨_, _, Node.tree?_distance.mpr
    ⟨x, y, z, representsX.tree, representsY.tree, representsZ.tree, rfl⟩,
    .distance alikeX alikeY alikeZ, .distance typedA typedR typedB
      (standsA.kind.symm.trans kindA) (standsR.kind.symm.trans kindR)
      (standsB.kind.symm.trans kindB)⟩

theorem nodeSpells_of_ofOperands? {rule : Rule} {hs : List Handle} {ts : List Term}
    {es : List Expr} {node : Node} (made : Node.ofOperands? rule hs = some node)
    (typed : List.Forall₂ (Term.Typed s.vocabulary) ts es)
    (stand : List.Forall₂ s.StandsFor hs es) : NodeSpells s node rule ts := by
  -- No rule takes more than three operands.
  cases stand with
  | nil => cases made
  | cons standsA stand =>
    cases typed with | cons typedA typed =>
    cases stand with
    | nil =>
      cases typed
      exact nodeSpells_unary made typedA standsA
    | cons standsB stand =>
      cases typed with | cons typedB typed =>
      cases stand with
      | nil =>
        cases typed
        exact nodeSpells_binary made typedA typedB standsA standsB
      | cons standsC stand =>
        cases typed with | cons typedC typed =>
        cases stand with
        | nil =>
          cases typed
          exact nodeSpells_distance made typedA typedB typedC standsA standsB standsC
        | cons _ _ => cases made

theorem has_of_stand {hs : List Handle} {es : List Expr}
    (stand : List.Forall₂ s.StandsFor hs es) : ∀ h ∈ hs, s.Has h := by
  induction stand with
  | nil => exact fun h member => absurd member List.not_mem_nil
  | cons stands _ ih => exact List.forall_mem_cons.mpr ⟨stands.has, ih⟩

theorem composite_checks (wf : s.WellFormed) (rule : Rule) {hs : List Handle} {ts : List Term}
    {es : List Expr} (typed : List.Forall₂ (Term.Typed s.vocabulary) ts es)
    (stand : List.Forall₂ s.StandsFor hs es) :
    Checks s (composite rule hs) (.node rule.name ts) := by
  unfold composite
  split
  next => exact refused_here wf (by rintro h ⟨⟩)
  next =>
    split
    next node made =>
      obtain ⟨same, declared⟩ := Node.ofOperands?_spec made s.vocabulary
      have operands : ∀ h ∈ node.operands, s.Has h := by
        rw [same]
        exact has_of_stand stand
      obtain ⟨u, e, tree, alike, whole⟩ := nodeSpells_of_ofOperands? made typed stand
      apply (intern_outcome wf operands declared).imp_total
      exact fun h s' added => .inserted added operands tree alike whole
    next => exact refused_here wf (by rintro h ⟨⟩)

end

mutual

theorem ofTerm_checks (text : String) : ∀ (t : Term) {s : Store}, s.WellFormed →
    Checks s (ofTerm text t) t
  | .node name args, s, wf => by
    unfold ofTerm
    split
    next rule known =>
      obtain rfl := Rule.name_of_ofName? known
      split
      next p i =>
        refine checks_bind wf readPredicate_outcome ?_
        rintro predicate ⟨name, rfl, found⟩
        refine checks_bind wf readPosition_outcome ?_
        rintro first ⟨digits, rfl, numeral⟩
        exact leaf_checks wf (.conceptPrimitive found numeral)
      next p i j =>
        refine checks_bind wf readPredicate_outcome ?_
        rintro predicate ⟨name, rfl, found⟩
        refine checks_bind wf readPosition_outcome ?_
        rintro first ⟨digits, rfl, numeral⟩
        refine checks_bind wf readPosition_outcome ?_
        rintro second ⟨digits', rfl, numeral'⟩
        exact leaf_checks wf (.rolePrimitive found numeral numeral')
      next p =>
        refine checks_bind wf readPredicate_outcome ?_
        rintro predicate ⟨name, rfl, found⟩
        exact leaf_checks wf (.booleanNullary found)
      next k =>
        refine checks_bind wf readConstant_outcome ?_
        rintro constant ⟨name, rfl, found⟩
        exact leaf_checks wf (.conceptOneOf found)
      next r i =>
        rw [Checks, Outcome.bind_iff]
        refine (ofTerm_checks text r wf).imp ?_ ?_
        · rintro role s₁ ⟨later, ⟨a, typed, stands⟩, adds⟩
          refine Checks.after later (adds.imp fun u => .argument List.mem_cons_self) ?_
          by_cases isRole : role.kind = .role
          · simp only [isRole, ne_eq, not_true_eq_false, if_false]
            refine checks_bind later.wellFormed readPosition_outcome ?_
            rintro position ⟨digits, rfl, numeral⟩
            exact projection_checks later.wellFormed (later.grown.vocabulary ▸ typed) stands isRole
              numeral
          · simp only [ne_eq, isRole, not_false_eq_true, if_true]
            exact refused_here later.wellFormed (by rintro h ⟨⟩)
        · rintro error s₁ ⟨later, regular, adds⟩
          exact ⟨later, regular, adds.imp fun u => .argument List.mem_cons_self⟩
      next => exact leaf_checks wf .conceptBot
      next => exact leaf_checks wf .conceptTop
      next => exact leaf_checks wf .roleTop
      next =>
        split
        next => exact refused_here wf (by rintro h ⟨⟩)
        next =>
          rw [Checks, Outcome.bind_iff]
          refine (ofTerms_checks text args wf).imp ?_ ?_
          · rintro hs s₁ ⟨later, ⟨es, typed, stand⟩, adds⟩
            have typed₁ := typed.imp fun _ _ typed => later.grown.vocabulary.symm ▸ typed
            refine Checks.after later ?_ (composite_checks later.wellFormed rule typed₁ stand)
            exact adds.imp fun u ⟨t, member, within⟩ => .argument member within
          · rintro error s₁ ⟨later, regular, adds⟩
            exact ⟨later, regular, adds.imp fun u ⟨t, member, within⟩ => .argument member within⟩
    next => exact refused_here wf (by rintro h ⟨⟩)
termination_by t => sizeOf t
decreasing_by
  all_goals subst_vars
  all_goals simp only [Term.node.sizeOf_spec, List.cons.sizeOf_spec]
  all_goals omega

theorem ofTerms_checks (text : String) : ∀ (ts : List Term) {s : Store}, s.WellFormed →
    Outcome (ofTerms text ts) s
      (fun hs s' => s.Later s' ∧
        (∃ es, List.Forall₂ (Term.Typed s.vocabulary) ts es ∧ List.Forall₂ s'.StandsFor hs es) ∧
        s.AddsOnly (fun u => ∃ t ∈ ts, u.Within t) s')
      (fun error s' => s.Later s' ∧ error.Regular ∧ s.AddsOnly (fun u => ∃ t ∈ ts, u.Within t) s')
  | [], s, wf => by
    unfold ofTerms
    exact ⟨wf.later, ⟨[], .nil, .nil⟩, .refl s _⟩
  | t :: ts, s, wf => by
    unfold ofTerms
    rw [Outcome.bind_iff]
    refine (ofTerm_checks text t wf).imp ?_ ?_
    · rintro h s₁ ⟨later, ⟨e, typed, stands⟩, adds⟩
      have before : s.AddsOnly (fun u => ∃ t' ∈ t :: ts, u.Within t') s₁ :=
        adds.imp fun u within => ⟨t, List.mem_cons_self, within⟩
      rw [Outcome.bind_iff]
      refine (ofTerms_checks text ts later.wellFormed).imp ?_ ?_
      · rintro hs s₂ ⟨later', ⟨es, more, stand⟩, adds'⟩
        have after := adds'.imp fun u ⟨t', member, within⟩ =>
          (⟨t', List.mem_cons_of_mem t member, within⟩ : ∃ t' ∈ t :: ts, u.Within t')
        refine ⟨later.trans later', ⟨e :: es, .cons typed ?_, .cons ?_ stand⟩, ?_⟩
        · exact more.imp fun _ _ typed => later.grown.vocabulary ▸ typed
        · exact stands.extends later'.grown
        · exact before.trans later.grown after later'.grown
      · rintro error s₂ ⟨later', regular, adds'⟩
        have after := adds'.imp fun u ⟨t', member, within⟩ =>
          (⟨t', List.mem_cons_of_mem t member, within⟩ : ∃ t' ∈ t :: ts, u.Within t')
        exact ⟨later.trans later', regular, before.trans later.grown after later'.grown⟩
    · rintro error s₁ ⟨later, regular, adds⟩
      exact ⟨later, regular, adds.imp fun u within => ⟨t, List.mem_cons_self, within⟩⟩
termination_by ts => sizeOf ts

end

/-! ## Texts -/

theorem read_outcome (wf : s.WellFormed) (text : String) : Built s (read text) := by
  unfold read
  split
  next t _ =>
    refine (ofTerm_checks text t wf).imp ?_ fun _ _ refused => refused.later
    rintro h s' ⟨later, ⟨e, _, stands⟩, _⟩
    exact ⟨later, stands.has⟩
  next => exact wf.later

theorem readKind_outcome (wf : s.WellFormed) (expected : Kind) (text : String) :
    Built s (readKind expected text) := by
  simp only [readKind, Built, Outcome.bind_iff]
  refine (read_outcome wf text).imp_done ?_
  rintro h s₁ ⟨later, has⟩
  split
  next => exact ⟨later, has⟩
  next =>
    rw [Outcome.bind_iff, Outcome.get_iff]
    split <;> exact later

end Build
end PlanFeatures
