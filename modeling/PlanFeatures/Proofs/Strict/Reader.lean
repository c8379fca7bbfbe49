import PlanFeatures.Proofs.Store.Typing
import PlanFeatures.Proofs.Strict.Store

/-!
# Terms are built without a fault

A strict reader adds the expressions of a term strictly.  The operands of a node have been
built by then, so they are in the store, and together they have as many rule applications as
there are rule names in the arguments.  As long as the rule names of the whole term can be
counted with a word, nothing is at fault.
-/

namespace PlanFeatures

namespace Store
variable {s : Store}

theorem StandsFor.complexity? {h : Handle} {e : Expr} (stands : s.StandsFor h e) :
    s.complexity? h = some e.complexity := by
  obtain ⟨u, represents, alike⟩ := stands.tree
  rw [represents.complexity, alike.complexity_eq]

theorem StandsFor.complexity {h : Handle} {e : Expr} (stands : s.StandsFor h e) :
    s.complexity h = e.complexity :=
  complexity_of_complexity? stands.complexity?

/-- A rule applied to terms has one rule application more than they have rule names. -/
theorem complexity_of_stand {v : Vocabulary} {hs : List Handle} {ts : List Term} {es : List Expr}
    (typed : List.Forall₂ (Term.Typed v) ts es) (stand : List.Forall₂ s.StandsFor hs es) :
    hs.foldr (fun h n => s.complexity h + n) 1 = 1 + Term.ruleNamesAll ts := by
  induction stand generalizing ts with
  | nil =>
    cases typed
    rfl
  | cons stands _ ih =>
    cases typed with | cons here typed =>
    rw [List.foldr_cons, ih typed, stands.complexity, here.complexity_eq, Term.ruleNamesAll]
    omega

end Store

/-! ## Strict building -/

/-- Building expressions with steps that may give faults. -/
abbrev StrictBuild := ExceptT ExpressionError (StateT Store (Except Fault))

namespace StrictBuild
variable {α β : Type}

/-- A strict computation as a step of building. -/
def attempt (x : Except Fault α) : StrictBuild α := fun s => x.map fun a => (.ok a, s)

/-- A computation none of whose steps can give a fault. -/
def lift (m : Build α) : StrictBuild α := fun s => .ok (m.run s)

/-- Adds an expression, whose operands have to be in the store. -/
def intern (node : Node) : StrictBuild Handle := do
  let (h, store) ← attempt (Strict.insert (← get) node)
  set store
  return h

def leaf (l : Leaf) : StrictBuild Handle := do
  lift (Build.checkLeaf l)
  intern (.leaf l)

/-- The objects at a position of a role's pairs. -/
def projection (role : Handle) (position : Nat) : StrictBuild Handle := do
  if role.kind ≠ .role then throw (.operandKinds .conceptProjection [role.kind])
  if 1 < position then throw (.projectionPosition role position)
  intern (.unary (.conceptProjection position) role.index)

/-- A rule applied to expressions. -/
def composite (rule : Rule) (operands : List Handle) : StrictBuild Handle :=
  if rule.takesSymbols then throw (.notComposite rule)
  else
    match Node.ofOperands? rule operands with
    | some node => intern node
    | none => throw (.operandKinds rule (operands.map Handle.kind))

mutual

/-- Builds the expression that a term stands for. -/
def ofTerm (text : String) : Term → StrictBuild Handle
  | .node name args => do
    let some rule := Rule.ofName? name | lift (Build.refuse text (.unknownRule name))
    match rule, args with
    | .conceptBot, [] => leaf .conceptBot
    | .conceptTop, [] => leaf .conceptTop
    | .roleTop, [] => leaf .roleTop
    | .conceptPrimitive, [p, i] =>
      leaf (.conceptPrimitive (← lift (Build.readPredicate text rule p))
        (← lift (Build.readPosition text rule i)))
    | .rolePrimitive, [p, i, j] =>
      leaf (.rolePrimitive (← lift (Build.readPredicate text rule p))
        (← lift (Build.readPosition text rule i)) (← lift (Build.readPosition text rule j)))
    | .booleanNullary, [p] => leaf (.booleanNullary (← lift (Build.readPredicate text rule p)))
    | .conceptOneOf, [k] => leaf (.conceptOneOf (← lift (Build.readConstant text rule k)))
    | .conceptProjection, [r, i] =>
      let role ← ofTerm text r
      if role.kind ≠ .role then throw (.operandKinds rule [role.kind])
      projection role (← lift (Build.readPosition text rule i))
    | rule, args =>
      if rule.takesSymbols then lift (Build.refuse text (.arguments rule))
      else composite rule (← ofTerms text args)

/-- Builds the expressions of several terms from left to right. -/
def ofTerms (text : String) : List Term → StrictBuild (List Handle)
  | [] => return []
  | t :: ts => return (← ofTerm text t) :: (← ofTerms text ts)

end

/-- The strict computation does what the other one does, so it meets with no fault. -/
def Agrees (x : StrictBuild α) (m : Build α) (s : Store) : Prop := x.run s = .ok (m.run s)

theorem run_bind (x : StrictBuild α) (f : α → StrictBuild β) (s : Store) :
    (x >>= f).run s = x.run s >>= fun
      | (.ok a, s') => (f a).run s'
      | (.error e, s') => .ok (.error e, s') := by
  show (x.run s >>= fun p => ExceptT.bindCont f p.1 p.2) = _
  congr
  funext ⟨r, s'⟩
  cases r <;> rfl

namespace Agrees
variable {s : Store}

theorem lift (m : Build α) (s : Store) : Agrees (StrictBuild.lift m) m s := rfl

theorem pure (a : α) (s : Store) : Agrees (Pure.pure a) (Pure.pure a) s := rfl

theorem refused (e : ExpressionError) (s : Store) :
    Agrees (throw e : StrictBuild α) (throw e) s := rfl

theorem bind {x : StrictBuild α} {m : Build α} {f : α → StrictBuild β} {g : α → Build β}
    {done : α → Store → Prop} {stopped : ExpressionError → Store → Prop} (first : Agrees x m s)
    (outcome : Outcome m s done stopped) (next : ∀ a s', done a s' → Agrees (f a) (g a) s') :
    Agrees (x >>= f) (m >>= g) s := by
  unfold Agrees at *
  unfold Outcome at outcome
  rw [run_bind, first, PlanFeatures.run_bind]
  revert outcome
  rcases m.run s with ⟨r, s'⟩
  cases r with
  | ok a => exact next a s'
  | error e => exact fun _ => rfl

end Agrees

variable {s : Store}

theorem intern_agrees (wf : s.WellFormed) {node : Node} (operands : ∀ h ∈ node.operands, s.Has h)
    (fits : Store.applications s.complexity node < UInt32.size) :
    Agrees (intern node) (Build.intern node) s := by
  have strict : (attempt (Strict.insert s node)).run s = .ok (.ok (s.insert node), s) := by
    rw [Strict.insert_ok wf operands fits]
    rfl
  show (attempt (Strict.insert s node) >>= _).run s = _
  rw [run_bind, strict, Build.run_intern operands]
  rfl

theorem leaf_agrees (wf : s.WellFormed) (l : Leaf) : Agrees (leaf l) (Build.leaf l) s := by
  rw [Build.leaf_eq]
  refine (Agrees.lift _ s).bind (Build.checkLeaf_outcome l) ?_
  rintro _ s' ⟨rfl, _⟩
  have operands : ∀ h ∈ (Node.leaf l).operands, s'.Has h := by
    intro h member
    cases member
  have fits : Store.applications s'.complexity (.leaf l) < UInt32.size := by
    show 1 < UInt32.size
    decide
  exact intern_agrees wf operands fits

theorem projection_agrees (wf : s.WellFormed) {role : Handle} (has : s.Has role)
    (fits : 1 + s.complexity role < UInt32.size) (position : Nat) :
    Agrees (projection role position) (Build.projection role position) s := by
  by_cases isRole : role.kind = .role
  · simp only [projection, Build.projection, isRole, ne_eq, not_true_eq_false, if_false]
    split
    next => exact .refused _ s
    next =>
      have operands : (Node.unary (.conceptProjection position) role.index).operands = [role] := by
        simp only [Node.operands, UnaryOp.operand, ← isRole]
      refine intern_agrees wf ?_ ?_
      · rw [operands]
        exact List.forall_mem_singleton.mpr has
      · rw [Store.applications, operands, List.foldr_cons, List.foldr_nil]
        omega
  · simp only [projection, Build.projection, ne_eq, isRole, not_false_eq_true, if_true]
    exact .refused _ s

theorem composite_agrees (wf : s.WellFormed) (rule : Rule) {hs : List Handle}
    (has : ∀ h ∈ hs, s.Has h) (fits : hs.foldr (fun h n => s.complexity h + n) 1 < UInt32.size) :
    Agrees (composite rule hs) (Build.composite rule hs) s := by
  unfold composite Build.composite
  by_cases symbols : rule.takesSymbols = true
  · simp only [symbols, if_true]
    exact .refused _ s
  · simp only [if_neg symbols]
    cases made : Node.ofOperands? rule hs with
    | some node =>
      obtain ⟨rfl, _⟩ := Node.ofOperands?_spec made s.vocabulary
      exact intern_agrees wf has fits
    | none => exact .refused _ s

/-! ## Terms -/

/-- Looking a name up changes nothing. -/
theorem Agrees.look {m : Build α} {f : α → StrictBuild β} {g : α → Build β} {found : α → Prop}
    {stopped : ExpressionError → Store → Prop}
    (look : Outcome m s (fun a s' => s' = s ∧ found a) stopped)
    (next : ∀ a, Agrees (f a) (g a) s) : Agrees (StrictBuild.lift m >>= f) (m >>= g) s := by
  refine (Agrees.lift m s).bind look ?_
  rintro a _ ⟨rfl, _⟩
  exact next a

mutual

theorem ofTerm_agrees (text : String) : ∀ (t : Term) {s : Store}, s.WellFormed →
    t.ruleNames < UInt32.size → Agrees (ofTerm text t) (Build.ofTerm text t) s
  | .node name args, s, wf, fits => by
    unfold ofTerm Build.ofTerm
    cases known : Rule.ofName? name with
    | none => exact .lift _ s
    | some rule =>
      obtain rfl := Rule.name_of_ofName? known
      dsimp only
      split
      next => exact leaf_agrees wf _
      next => exact leaf_agrees wf _
      next => exact leaf_agrees wf _
      next p i =>
        exact .look Build.readPredicate_outcome fun _ => .look Build.readPosition_outcome fun _ =>
          leaf_agrees wf _
      next p i j =>
        exact .look Build.readPredicate_outcome fun _ => .look Build.readPosition_outcome fun _ =>
          .look Build.readPosition_outcome fun _ => leaf_agrees wf _
      next p => exact .look Build.readPredicate_outcome fun _ => leaf_agrees wf _
      next k => exact .look Build.readConstant_outcome fun _ => leaf_agrees wf _
      next r i =>
        rw [Term.ruleNames_projection] at fits
        refine (ofTerm_agrees text r wf (by omega)).bind (Build.ofTerm_checks text r wf) ?_
        rintro role s₁ ⟨later, ⟨e, typed, stands⟩, _⟩
        rw [← typed.complexity_eq, ← stands.complexity] at fits
        split
        next => exact .refused _ s₁
        next =>
          exact .look Build.readPosition_outcome fun position =>
            projection_agrees later.wellFormed stands.has fits position
      next =>
        simp only
        split
        next => exact .lift _ s
        next operandsOnly =>
          rw [Term.ruleNames_composite (Bool.eq_false_iff.mpr operandsOnly)] at fits
          refine (ofTerms_agrees text args wf (by omega)).bind
            (Build.ofTerms_checks text args wf) ?_
          rintro hs s₁ ⟨later, ⟨es, typed, stand⟩, _⟩
          have counted := Store.complexity_of_stand typed stand
          exact composite_agrees later.wellFormed rule (Build.has_of_stand stand) (by omega)

theorem ofTerms_agrees (text : String) : ∀ (ts : List Term) {s : Store}, s.WellFormed →
    Term.ruleNamesAll ts < UInt32.size → Agrees (ofTerms text ts) (Build.ofTerms text ts) s
  | [], s, wf, fits => by
    unfold ofTerms Build.ofTerms
    exact .pure _ s
  | t :: ts, s, wf, fits => by
    unfold ofTerms Build.ofTerms
    unfold Term.ruleNamesAll at fits
    refine (ofTerm_agrees text t wf (by omega)).bind (Build.ofTerm_checks text t wf) ?_
    rintro h s₁ ⟨later, _, _⟩
    refine (ofTerms_agrees text ts later.wellFormed (by omega)).bind
      (Build.ofTerms_checks text ts later.wellFormed) ?_
    exact fun hs s₂ _ => .pure _ s₂

end

end StrictBuild

/-! ## Terms over reachable stores -/

namespace Store

/-- A term is built exactly when it is typed.  The handle is then of the expression that the
term spells, up to the order of operands whose order does not matter.  A refusal is never for
an operand that the store does not have, and no step is at fault when the rule names of the
term can be counted with a word. -/
theorem Reachable.build_exact {s : Store} {issued : List Handle} (reachable : s.Reachable issued)
    (text : String) (t : Term) :
    ((∃ h s', (Build.ofTerm text t).run s = (.ok h, s')) ↔ ∃ e, t.Typed s.vocabulary e) ∧
    (∀ h s', (Build.ofTerm text t).run s = (.ok h, s') →
      (∀ e, t.Typed s.vocabulary e → s'.StandsFor h e) ∧ s'.complexity? h = some t.ruleNames) ∧
    (∀ error s', (Build.ofTerm text t).run s = (.error error, s') → error.Regular) ∧
    (t.ruleNames < UInt32.size →
      (StrictBuild.ofTerm text t).run s = .ok ((Build.ofTerm text t).run s)) := by
  have wf := reachable.wellFormed
  have checks := Build.ofTerm_checks text t wf
  refine ⟨⟨?_, ?_⟩, fun h s' run => ⟨?_, ?_⟩, fun error s' run => (checks.error run).regular,
    StrictBuild.ofTerm_agrees text t wf⟩
  · rintro ⟨h, s', run⟩
    obtain ⟨e, typed, _⟩ := (checks.ok run).typed
    exact ⟨e, typed⟩
  · rintro ⟨e, typed⟩
    have accepted : Build.Accepts text s.vocabulary t e := Build.accepts_of_typed typed
    obtain ⟨h, s', run, _⟩ := (accepted s wf rfl).exists_ok
    exact ⟨h, s', run⟩
  · intro e typed
    exact ((Build.accepts_of_typed typed s wf rfl).ok run).2
  · obtain ⟨e, typed, stands⟩ := (checks.ok run).typed
    rw [stands.complexity?, typed.complexity_eq]

namespace Blocks

/-- The objects that something is on, among them not the block with a name. -/
def covered : Term :=
  .node "c_diff"
    [.node "c_projection" [.node "r_primitive" [.ofSymbol "on", .ofSymbol "0", .ofSymbol "1"],
      .ofSymbol "+01"], .node "c_one_of" [.ofSymbol "b-1"]]

def coveredExpr : Expr :=
  .binary .conceptDiff (.unary (.conceptProjection 1) (.leaf (.rolePrimitive ⟨0⟩ 0 1)))
    (.leaf (.conceptOneOf ⟨0⟩))

theorem covered_typed : covered.Typed vocabulary coveredExpr := by
  have on : (Leaf.rolePrimitive ⟨0⟩ 0 1).Spelled vocabulary ["on", "0", "1"] :=
    .rolePrimitive (by decide +kernel) (readPosition?_iff.mp (by decide +kernel))
      (readPosition?_iff.mp (by decide +kernel))
  have named : (Leaf.conceptOneOf ⟨0⟩).Spelled vocabulary ["b-1"] :=
    .conceptOneOf (by decide +kernel)
  have last : Numeral "+01" 1 := readPosition?_iff.mp (by decide +kernel)
  have second := Term.Typed.projection (.leaf on ⟨⟨"on", 2⟩, rfl, by decide, by decide⟩) rfl last
    (by decide)
  exact @Term.Typed.binary _ .conceptDiff _ _ _ _ second (.leaf named ⟨"b-1", rfl⟩) rfl rfl

end Blocks

theorem build_exact_blocks :
    ∃ h s', (StrictBuild.ofTerm "" Blocks.covered).run Blocks.store = .ok (.ok h, s') ∧
      s'.StandsFor h Blocks.coveredExpr ∧ s'.complexity? h = some 4 := by
  obtain ⟨accepted, made, _, strict⟩ := Blocks.store_reachable.build_exact "" Blocks.covered
  obtain ⟨h, s', run⟩ := accepted.mpr ⟨_, Blocks.covered_typed⟩
  obtain ⟨stands, complexity⟩ := made h s' run
  refine ⟨h, s', ?_, stands _ Blocks.covered_typed, complexity⟩
  rw [strict (by decide +kernel), run]

/-- An operand that the store does not have is a fault. -/
example : ((StrictBuild.composite .conceptNot [⟨.concept, 7⟩]).run Blocks.store).map (fun _ => ())
    = .error (.foreignOperand ⟨.concept, 7⟩) := by
  decide +kernel

end Store
end PlanFeatures
