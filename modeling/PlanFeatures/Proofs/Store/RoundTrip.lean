import PlanFeatures.Proofs.Store.Reachable
import PlanFeatures.Proofs.Store.Rereading

/-!
# Printing and reading are inverse to each other

The text of an expression that a store has given out is read back by that store as the
same handle, and nothing is added.  Every other store over the same vocabulary reads it as
an expression that has the same kind, text, complexity and values.
-/

namespace PlanFeatures.Store

/-- The positions that the stored expressions name are words of 32 bits. -/
def Narrow (s : Store) : Prop :=
  ∀ (i : Nat) (l : Leaf), s.table.get? i = some (.leaf l) → l.Narrow

/-- Positions are below the arity, so they are words of 32 bits if the arities are. -/
theorem WellFormed.narrow_of_arity {s : Store} (wf : s.WellFormed)
    (arities : ∀ p predicate, s.vocabulary.predicate? p = some predicate →
      predicate.arity ≤ UInt32.size) : s.Narrow := by
  intro i l stored
  have declared := wf.declared stored
  cases l with
  | conceptPrimitive p i =>
    obtain ⟨predicate, known, inside⟩ := declared
    exact Nat.lt_of_lt_of_le inside (arities p predicate known)
  | rolePrimitive p i j =>
    obtain ⟨predicate, known, first, second⟩ := declared
    have bound := arities p predicate known
    exact ⟨Nat.lt_of_lt_of_le first bound, Nat.lt_of_lt_of_le second bound⟩
  | conceptBot | conceptTop | conceptOneOf _ | roleTop | booleanNullary _ => trivial

theorem Grounded.narrow_tree {s : Store} (grounded : s.Grounded) (narrow : s.Narrow) {t : Expr}
    (known : s.Knows t) : t.Narrow := by
  induction t with
  | leaf l =>
    obtain ⟨h, ⟨node, stored, _⟩, tree⟩ := known
    obtain rfl := Node.of_tree?_leaf ((grounded.trees_eq stored).symm.trans tree)
    exact narrow _ l stored
  | unary op a ih => exact ih (grounded.knows_unary known)
  | binary op a b iha ihb =>
    obtain ⟨left, right⟩ := grounded.knows_binary known
    exact ⟨iha left, ihb right⟩
  | distance a r b iha ihr ihb =>
    obtain ⟨source, role, target⟩ := grounded.knows_distance known
    exact ⟨iha source, ihr role, ihb target⟩

/-! ## One expression in two stores -/

/-- The handle `g` of `s'` is to its owner what `h` is to the owner of `s`. -/
structure Copied (s : Store) (h : Handle) (s' : Store) (g : Handle) : Prop where
  kind : g.kind = h.kind
  text : s'.text g = s.text h
  complexity : ∃ n, s.complexity? h = some n ∧ s'.complexity? g = some n
  value : ∀ state : State, state.Over s.vocabulary →
    ∃ d, s.evaluate h state = .ok d ∧ s'.evaluate g state = .ok d

/-- All of it is determined by the tree. -/
theorem copied_of_represents {s s' : Store} {h g : Handle} {t : Expr} (wf : s.WellFormed)
    (wf' : s'.WellFormed) (vocabulary : s'.vocabulary = s.vocabulary) (has : s.Has h)
    (stands : s.Represents h t) (has' : s'.Has g) (stands' : s'.Represents g t) :
    s.Copied h s' g where
  kind := stands'.kind.symm.trans stands.kind
  text := by rw [wf.text_eq has stands.tree, wf'.text_eq has' stands'.tree, vocabulary]
  complexity := ⟨t.complexity, stands.complexity, stands'.complexity⟩
  value state belongs := by
    obtain ⟨d, value, _⟩ := Expr.denote_ok belongs stands.formed
    refine ⟨d, ?_, ?_⟩
    · rw [wf.evaluate_eq belongs has stands, value]
    · rw [wf'.evaluate_eq (vocabulary ▸ belongs) has' stands', value]

theorem Reachable.read_text {s : Store} {issued : List Handle} (reachable : s.Reachable issued)
    (made : s.vocabulary.Made) (plain : s.vocabulary.Plain) (narrow : s.Narrow) {h : Handle}
    (owned : h ∈ issued) :
    (Build.read (s.text h)).run s = (.ok h, s) ∧
      ∀ {other : Store} {others : List Handle}, other.Reachable others →
        other.vocabulary = s.vocabulary →
          ∃ g other', (Build.read (s.text h)).run other = (.ok g, other') ∧ s.Copied h other' g := by
  obtain ⟨wf, has⟩ := reachable.sound
  obtain ⟨t, stands⟩ := wf.represents (has h owned)
  have short := wf.narrow_tree narrow (stands.knows (has h owned))
  have text := wf.text_eq (has h owned) stands.tree
  -- Every store over the vocabulary builds the tree; this one has it already.
  have built : ∀ {other : Store}, other.WellFormed → other.vocabulary = s.vocabulary →
      ∃ g other', (Build.read (s.text h)).run other = (.ok g, other') ∧ other.Given t g other' := by
    intro other wf' vocabulary
    have outcome := Build.read_term_outcome made.separate plain stands.formed stands.normal short
      wf' vocabulary
    rw [← text] at outcome
    rcases run : (Build.read (s.text h)).run other with ⟨result, other'⟩
    cases result with
    | ok g => exact ⟨g, other', rfl, outcome.ok run⟩
    | error e => exact (outcome.error run).elim
  constructor
  · obtain ⟨g, s', run, given⟩ := built wf rfl
    obtain rfl := given.known (stands.knows (has h owned))
    rw [run, wf.eq_of_tree given.has (has h owned) given.stands.tree stands.tree]
  · intro other others reachable' vocabulary
    obtain ⟨g, other', run, given⟩ := built reachable'.wellFormed vocabulary
    have vocabulary' := given.later.grown.vocabulary.trans vocabulary
    exact ⟨g, other', run, copied_of_represents wf given.later.wellFormed vocabulary'
      (has h owned) stands given.has given.stands⟩

/-! ## An expression of two stores -/

namespace Blocks

/-- Blocks on each other, one of which has a name. -/
def vocabulary : Vocabulary := ⟨#[⟨"on", 2⟩], #["b-1"]⟩

theorem vocabulary_made : vocabulary.Made := by
  have first : Vocabulary.empty.addPredicate "on" 2 = .ok (⟨0⟩, ⟨#[⟨"on", 2⟩], #[]⟩) := by
    simp [Vocabulary.addPredicate, Vocabulary.findPredicate?, Vocabulary.empty]
  have second : (⟨#[⟨"on", 2⟩], #[]⟩ : Vocabulary).addConstant "b-1" = (⟨0⟩, vocabulary) := by
    simp [Vocabulary.addConstant, Vocabulary.findConstant?, vocabulary]
  have made := Vocabulary.Made.constant (.predicate .empty first) "b-1"
  rwa [second] at made

theorem predicate_eq {p : PredicateId} {predicate : Predicate}
    (known : vocabulary.predicate? p = some predicate) : predicate = ⟨"on", 2⟩ := by
  simpa [vocabulary] using Array.mem_of_getElem? known

theorem constant_eq {k : ConstantId} {name : String}
    (known : vocabulary.constant? k = some name) : name = "b-1" := by
  simpa [vocabulary] using Array.mem_of_getElem? known

theorem vocabulary_plain : vocabulary.Plain where
  predicates known := by
    rw [predicate_eq known]
    exact ⟨by decide, List.all_eq_true.mp (by decide)⟩
  constants known := by
    rw [constant_eq known]
    exact ⟨by decide, List.all_eq_true.mp (by decide)⟩

theorem narrow_of_wellFormed {s : Store} (wf : s.WellFormed) (same : s.vocabulary = vocabulary) :
    s.Narrow :=
  wf.narrow_of_arity fun p predicate known => by
    rw [same] at known
    rw [predicate_eq known]
    decide

def store : Store := ⟨vocabulary, ⟨#[], 1, ∅⟩, #[]⟩

theorem store_reachable : store.Reachable [] := @Store.Reachable.new vocabulary 0 store rfl

/-- A store that has read an intersection whose operands are not in structural order. -/
theorem exists_reachable : ∃ s : Store, s.Reachable [⟨.concept, 4⟩] ∧ s.vocabulary = vocabulary ∧
    s.text ⟨.concept, 4⟩ = "c_and(c_one_of(b-1),c_projection(r_primitive(on,0,1),1))" := by
  have read := store_reachable.call
    (.read "c_and(c_projection(r_primitive(on,0,1),1), c_one_of(b-1))")
    (fun _ member => absurd member List.not_mem_nil) trivial
  have issued : (Call.run store (.read
      "c_and(c_projection(r_primitive(on,0,1),1), c_one_of(b-1))")).1 = [⟨.concept, 4⟩] := by
    decide +kernel
  rw [issued] at read
  exact ⟨_, read, by decide +kernel, by decide +kernel⟩

end Blocks

/-- The operands of an intersection are printed in their structural order, and the text is
read back as the handle that was given out. -/
theorem read_text_blocks :
    ∃ s : Store, s.Reachable [⟨.concept, 4⟩] ∧
      s.text ⟨.concept, 4⟩ = "c_and(c_one_of(b-1),c_projection(r_primitive(on,0,1),1))" ∧
      (Build.read (s.text ⟨.concept, 4⟩)).run s = (.ok ⟨.concept, 4⟩, s) ∧
      ∃ g other, (Build.read (s.text ⟨.concept, 4⟩)).run Blocks.store = (.ok g, other) ∧
        s.Copied ⟨.concept, 4⟩ other g := by
  obtain ⟨s, reachable, same, text⟩ := Blocks.exists_reachable
  have again := reachable.read_text (same ▸ Blocks.vocabulary_made) (same ▸ Blocks.vocabulary_plain)
    (Blocks.narrow_of_wellFormed reachable.wellFormed same) (List.mem_singleton_self _)
  exact ⟨s, reachable, text, again.1, again.2 Blocks.store_reachable same.symm⟩

end PlanFeatures.Store
