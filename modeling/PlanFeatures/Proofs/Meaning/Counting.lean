import Mathlib.Data.Fintype.EquivFin
import PlanFeatures.Proofs.Meaning.Correctness

/-!
# Counts are exact below the size of a word

A count is kept in a word of 32 bits.  It is the number of members as long as that number fits,
and the remainder otherwise.  Below the largest word a count is zero only for what is empty,
it grows with what it counts, and it is never the word for something out of reach.  Sets of
objects are small enough whenever the objects are, but 65536 objects have 2 ^ 32 pairs: there the
count of all pairs is zero.
-/

namespace PlanFeatures

/-! ## Numbers of members -/

namespace Extension
variable {n : Nat}

/-- The number of objects in a set, of pairs in a relation. -/
def size : Extension n → Nat
  | concept set => set.card
  | role relation => relation.card
  | boolean _ | numerical _ => 0

/-- Everything in the one is in the other. -/
def Within : Extension n → Extension n → Prop
  | concept c, concept d => c.toSet ⊆ d.toSet
  | role r, role t => ∀ x y, r.Holds x y → t.Holds x y
  | _, _ => False

theorem size_le_of_within {d e : Extension n} (within : d.Within e) : d.size ≤ e.size := by
  cases d <;> cases e <;> simp only [Within] at within
  case concept.concept c c' =>
    simp only [size, ObjectSet.card_eq_ncard]
    exact Set.ncard_le_ncard within
  case role.role r t =>
    simp only [size, Relation.card_eq_ncard]
    have subset : {p : Fin n × Fin n | r.Holds p.1 p.2} ⊆ {p | t.Holds p.1 p.2} := by
      intro pair related
      exact within pair.1 pair.2 related
    exact Set.ncard_le_ncard subset

theorem size_le_objects {d : Extension n} (kind : d.kind = .concept) : d.size ≤ n := by
  cases d <;> simp only [Extension.kind, reduceCtorEq] at kind
  case concept c => exact c.card_le

theorem size_le_pairs {d : Extension n} (kind : d.kind = .role) : d.size ≤ n * n := by
  cases d <;> simp only [Extension.kind, reduceCtorEq] at kind
  case role r =>
    have all : Nat.card (Fin n × Fin n) = n * n := by simp
    rw [size, Relation.card_eq_ncard, ← all, ← Set.ncard_univ]
    exact Set.ncard_le_ncard (Set.subset_univ _)

theorem size_full : (role (n := n) .full).size = n * n := by
  have all : {p : Fin n × Fin n | (Relation.full : Relation n).Holds p.1 p.2} = Set.univ := by
    ext pair
    simp [Relation.holds_full]
  simp [size, Relation.card_eq_ncard, all, Set.ncard_univ]

end Extension

/-! ## Words -/

theorem toNat_toUInt32 (k : Nat) : k.toUInt32.toNat = k % UInt32.size := by
  simp [Nat.toUInt32]

theorem toNat_unreachable : unreachable.toNat = UInt32.size - 1 := by decide

/-! ## Operators that count -/

section
variable {s : State} {op : UnaryOp} {d : Extension s.objectCount}

theorem UnaryOp.count_apply (counts : op.rule = .numericalCount) (kind : d.kind = op.operand) :
    op.apply s d = .ok (.numerical d.size.toUInt32) := by
  cases op <;> simp only [UnaryOp.rule, reduceCtorEq] at counts <;> cases d <;>
    simp only [UnaryOp.operand, Extension.kind, reduceCtorEq] at kind <;> rfl

theorem UnaryOp.empty_apply (asks : op.rule = .booleanEmpty) (kind : d.kind = op.operand) :
    ∃ b, op.apply s d = .ok (.boolean b) ∧ (b = true ↔ d.size = 0) := by
  cases op <;> simp only [UnaryOp.rule, reduceCtorEq] at asks <;> cases d <;>
    simp only [UnaryOp.operand, Extension.kind, reduceCtorEq] at kind
  case emptyConcept.concept c =>
    refine ⟨c.isEmpty, rfl, ?_⟩
    rw [Extension.size, ObjectSet.card_eq_ncard, Set.ncard_eq_zero, ObjectSet.isEmpty_iff_toSet]
  case emptyRole.role r =>
    refine ⟨r.isEmpty, rfl, ?_⟩
    rw [Extension.size, Relation.card_eq_ncard, Set.ncard_eq_zero, Relation.isEmpty_iff_holds,
      Set.eq_empty_iff_forall_notMem]
    simp

/-- A stored operator is applied to what its operand denotes. -/
theorem Store.WellFormed.evaluate_unary {store : Store} (wf : store.WellFormed)
    (belongs : s.Over store.vocabulary) {h : Handle} {a : Nat} (has : store.Has h)
    (stored : store.node? h = some (.unary op a)) :
    ∃ d, store.evaluate ⟨op.operand, a⟩ s = .ok d ∧ d.kind = op.operand ∧
      store.evaluate h s = op.apply s d := by
  have operand : store.Has ⟨op.operand, a⟩ := wf.has stored _ (Node.operand_mem op a)
  obtain ⟨x, standsX⟩ := wf.represents operand
  obtain ⟨t, standsT⟩ := wf.represents has
  obtain ⟨d, value, kind⟩ := Expr.denote_ok belongs standsX.formed
  have spell := (wf.trees_eq stored).symm.trans standsT.tree
  obtain ⟨y, tree, rfl⟩ := Node.tree?_unary.mp spell
  cases tree.symm.trans standsX.tree
  refine ⟨d, ?_, kind.trans standsX.kind, ?_⟩
  · rw [wf.evaluate_eq belongs operand standsX, value]
  · rw [wf.evaluate_eq belongs has standsT, Expr.denote_unary value]

end

/-! ## Counting in stores -/

namespace Store

/-- The handle `h` is that of an operator of the rule, applied to the expression `operand`. -/
def Applies (store : Store) (rule : Rule) (h operand : Handle) : Prop :=
  ∃ op a, store.node? h = some (.unary op a) ∧ op.rule = rule ∧ operand = ⟨op.operand, a⟩

section
variable {store : Store} (wf : store.WellFormed) {s : State} (belongs : s.Over store.vocabulary)
  {h operand : Handle} (has : store.Has h)
include wf belongs has

theorem WellFormed.evaluate_count (counts : store.Applies .numericalCount h operand) :
    ∃ d, store.evaluate operand s = .ok d ∧ d.kind = operand.kind ∧
      store.evaluate h s = .ok (.numerical d.size.toUInt32) := by
  obtain ⟨op, a, stored, rule, rfl⟩ := counts
  obtain ⟨d, value, kind, applied⟩ := wf.evaluate_unary belongs has stored
  exact ⟨d, value, kind, applied.trans (UnaryOp.count_apply rule kind)⟩

theorem WellFormed.evaluate_empty (asks : store.Applies .booleanEmpty h operand) :
    ∃ d b, store.evaluate operand s = .ok d ∧ store.evaluate h s = .ok (.boolean b) ∧
      (b = true ↔ d.size = 0) := by
  obtain ⟨op, a, stored, rule, rfl⟩ := asks
  obtain ⟨d, value, kind, applied⟩ := wf.evaluate_unary belongs has stored
  obtain ⟨b, result, means⟩ := UnaryOp.empty_apply rule kind
  exact ⟨d, b, value, applied.trans result, means⟩

end

/-- A count is the number of members modulo `2 ^ 32`.  With fewer than `2 ^ 32 - 1` members it is
that number, never the word for something out of reach, zero only for what is empty, and no
smaller than the counts of parts. -/
theorem Reachable.count_modular {store : Store} {issued : List Handle}
    (reachable : store.Reachable issued) {s : State} (belongs : s.Over store.vocabulary)
    {count operand : Handle} (owned : count ∈ issued)
    (counts : store.Applies .numericalCount count operand) :
    ∃ d value, store.evaluate operand s = .ok d ∧ store.evaluate count s = .ok (.numerical value) ∧
      value.toNat = d.size % UInt32.size ∧ (value.toNat = d.size ↔ d.size < UInt32.size) ∧
      (operand.kind = .concept → d.size ≤ s.objectCount) ∧
      (operand.kind = .role → d.size ≤ s.objectCount * s.objectCount) ∧
      (d.size < UInt32.size - 1 → value ≠ unreachable ∧
        (∀ h ∈ issued, store.Applies .booleanEmpty h operand →
          ∃ b, store.evaluate h s = .ok (.boolean b) ∧ (b = true ↔ value = 0)) ∧
        ∀ h ∈ issued, ∀ part e, store.Applies .numericalCount h part →
          store.evaluate part s = .ok e → e.Within d →
          ∃ less, store.evaluate h s = .ok (.numerical less) ∧ less ≤ value) := by
  obtain ⟨wf, has⟩ := reachable.sound
  obtain ⟨d, denotes, kind, value⟩ := wf.evaluate_count belongs (has count owned) counts
  have word := toNat_toUInt32 d.size
  refine ⟨d, d.size.toUInt32, denotes, value, word, ?_, fun concept => ?_, fun role => ?_, ?_⟩
  · rw [word, Nat.mod_eq_iff_lt (by decide)]
  · exact Extension.size_le_objects (kind.trans concept)
  · exact Extension.size_le_pairs (kind.trans role)
  · intro few
    have fits : d.size < UInt32.size := by omega
    rw [Nat.mod_eq_of_lt fits] at word
    refine ⟨?_, ?_, ?_⟩
    · intro far
      rw [far, toNat_unreachable] at word
      omega
    · intro h member asks
      obtain ⟨d', b, denotes', answer, means⟩ := wf.evaluate_empty belongs (has h member) asks
      cases denotes.symm.trans denotes'
      refine ⟨b, answer, ?_⟩
      rw [means, ← UInt32.toNat_inj, word]
      rfl
    · intro h member part e countsPart denotesPart within
      obtain ⟨e', denotes', _, value'⟩ := wf.evaluate_count belongs (has h member) countsPart
      cases denotesPart.symm.trans denotes'
      have smaller := Extension.size_le_of_within within
      refine ⟨e.size.toUInt32, value', ?_⟩
      rw [UInt32.le_iff_toNat_le, word, toNat_toUInt32,
        Nat.mod_eq_of_lt (Nat.lt_of_le_of_lt smaller fits)]
      exact smaller

/-- One block is on another one, and so one pair is counted. -/
theorem count_modular_blocks :
    ∃ store : Store, store.Reachable [⟨.numerical, 2⟩] ∧
      store.Applies .numericalCount ⟨.numerical, 2⟩ ⟨.role, 1⟩ ∧
      store.evaluate ⟨.numerical, 2⟩ Blocks.state = .ok (.numerical 1) ∧
      ∃ d value, store.evaluate ⟨.role, 1⟩ Blocks.state = .ok d ∧
        store.evaluate ⟨.numerical, 2⟩ Blocks.state = .ok (.numerical value) ∧
        value.toNat = d.size % UInt32.size ∧ d.size ≤ 4 := by
  have read := Blocks.store_reachable.call (.read "n_count(r_primitive(on,0,1))")
    (fun _ member => absurd member List.not_mem_nil) trivial
  have issued : (Call.run Blocks.store (.read "n_count(r_primitive(on,0,1))")).1
      = [⟨.numerical, 2⟩] := by
    decide +kernel
  rw [issued] at read
  have counts : Applies (Call.run Blocks.store (.read "n_count(r_primitive(on,0,1))")).2
      .numericalCount ⟨.numerical, 2⟩ ⟨.role, 1⟩ :=
    ⟨.countRole, 1, by decide +kernel, rfl, rfl⟩
  have belongs : Blocks.state.Over
      (Call.run Blocks.store (.read "n_count(r_primitive(on,0,1))")).2.vocabulary :=
    ⟨Blocks.problem_made, by decide +kernel⟩
  have pairs : Blocks.state.objectCount * Blocks.state.objectCount = 4 := by decide +kernel
  obtain ⟨d, value, denotes, counted, word, _, _, few, _⟩ :=
    read.count_modular belongs (List.mem_singleton_self _) counts
  exact ⟨_, read, counts, by decide +kernel, d, value, denotes, counted, word,
    (few rfl).trans_eq pairs⟩

end Store

/-! ## Problems of every size -/

theorem exists_new_name (names : Array String) : ∃ name, name ∉ names := by
  obtain ⟨name, absent⟩ := Infinite.exists_notMem_finset names.toList.toFinset
  exact ⟨name, by simpa using absent⟩

namespace Problem

theorem addObject_new {p : Problem} {name : String} (absent : name ∉ p.objects) :
    (p.addObject name).2 = { p with objects := p.objects.push name } := by
  have none : p.findObject? name = none := by
    simp only [findObject?, Option.map_eq_none_iff, Array.findIdx?_eq_none_iff]
    intro other member
    simpa using fun same : other = name => absent (same ▸ member)
  simp [addObject, none]

/-- Objects can be added one by one. -/
theorem exists_objectCount (v : Vocabulary) {n : Nat} (least : (new 0 v).objectCount ≤ n) :
    ∃ p : Problem, p.Made ∧ p.vocabulary = v ∧ p.objectCount = n := by
  induction n, least using Nat.le_induction with
  | base =>
    exact ⟨new 0 v, .new 0 v, (addObjects_grown _ _).1.vocabulary, rfl⟩
  | succ n _ ih =>
    obtain ⟨p, made, vocabulary, count⟩ := ih
    obtain ⟨name, absent⟩ := exists_new_name p.objects
    refine ⟨_, .object made name, ?_, ?_⟩
    · rw [addObject_new absent]
      exact vocabulary
    · rw [addObject_new absent, ← count]
      simp [objectCount]

end Problem

/-! ## Where counts are wrong -/

namespace Store

/-- The relation of all pairs, its count, and whether it is empty. -/
theorem exists_counted_top : ∃ store : Store,
    store.Reachable [⟨.boolean, 3⟩, ⟨.numerical, 2⟩, ⟨.role, 1⟩] ∧ store.vocabulary = .empty ∧
      store.node? ⟨.role, 1⟩ = some (.leaf .roleTop) ∧
      store.Applies .numericalCount ⟨.numerical, 2⟩ ⟨.role, 1⟩ ∧
      store.Applies .booleanEmpty ⟨.boolean, 3⟩ ⟨.role, 1⟩ := by
  have none : Reachable ⟨.empty, ⟨#[], 1, ∅⟩, #[]⟩ [] := @Reachable.new .empty 0 _ rfl
  have top := none.call (.leaf .roleTop) (by decide) trivial
  have count := top.call (.composite .numericalCount [⟨.role, 1⟩]) (by decide +kernel) trivial
  have empty := count.call (.composite .booleanEmpty [⟨.role, 1⟩]) (by decide +kernel) trivial
  exact ⟨_, empty, by decide +kernel, by decide +kernel,
    ⟨.countRole, 1, by decide +kernel, rfl, rfl⟩, ⟨.emptyRole, 1, by decide +kernel, rfl, rfl⟩⟩

theorem WellFormed.evaluate_top {store : Store} (wf : store.WellFormed) {s : State}
    (belongs : s.Over store.vocabulary) {h : Handle} (has : store.Has h)
    (stored : store.node? h = some (.leaf .roleTop)) :
    store.evaluate h s = .ok (.role .full) := by
  obtain ⟨t, stands⟩ := wf.represents has
  cases Node.tree?_leaf.mp ((wf.trees_eq stored).symm.trans stands.tree)
  rw [wf.evaluate_eq belongs has stands]
  rfl

/-- Among 65536 objects there are `2 ^ 32` pairs, and their count is zero although there are
some. -/
theorem count_of_all_pairs_wraps :
    ∃ (store : Store) (issued : List Handle) (s : State), store.Reachable issued ∧
      s.Over store.vocabulary ∧ s.objectCount = 65536 ∧
      ∃ count ∈ issued, ∃ empty ∈ issued, ∃ all,
        store.Applies .numericalCount count all ∧ store.Applies .booleanEmpty empty all ∧
        (∃ d, store.evaluate all s = .ok d ∧ d.size = 4294967296) ∧
        store.evaluate count s = .ok (.numerical 0) ∧
        store.evaluate empty s = .ok (.boolean false) := by
  obtain ⟨store, reachable, vocabulary, top, counts, asks⟩ := exists_counted_top
  obtain ⟨p, made, same, objects⟩ := Problem.exists_objectCount .empty (n := 65536) (by decide)
  obtain ⟨wf, has⟩ := reachable.sound
  have belongs : (⟨p, []⟩ : State).Over store.vocabulary := ⟨made, same.trans vocabulary.symm⟩
  have denotes := wf.evaluate_top belongs (has ⟨.role, 1⟩ (by simp)) top
  obtain ⟨d, denotes', _, count⟩ :=
    wf.evaluate_count belongs (has ⟨.numerical, 2⟩ (by simp)) counts
  obtain ⟨e, b, denotes'', empty, means⟩ :=
    wf.evaluate_empty belongs (has ⟨.boolean, 3⟩ (by simp)) asks
  cases denotes.symm.trans denotes'
  cases denotes.symm.trans denotes''
  have pairs : (Extension.role (n := p.objectCount) .full).size = 4294967296 := by
    rw [Extension.size_full, objects]
  have zero : (4294967296 : Nat).toUInt32 = 0 := by decide
  refine ⟨store, _, ⟨p, []⟩, reachable, belongs, objects, _, List.mem_of_getElem? (i := 1) rfl, _,
    List.mem_of_getElem? (i := 0) rfl, ⟨.role, 1⟩, counts, asks, ⟨_, denotes, pairs⟩, ?_, ?_⟩
  · rw [count]
    exact congrArg (fun k => Except.ok (Extension.numerical k))
      ((congrArg Nat.toUInt32 pairs).trans zero)
  · have some : b = false := by
      rw [← Bool.not_eq_true, means]
      intro none
      exact absurd (pairs.symm.trans none) (by decide)
    rw [empty, some]

end Store
end PlanFeatures
