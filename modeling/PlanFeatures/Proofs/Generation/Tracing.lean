import Mathlib.Algebra.GroupWithZero.Nat
import PlanFeatures.Proofs.Generation.Agenda
import PlanFeatures.Proofs.Generation.Runs

/-!
# A run goes through its agenda

At any time the candidates that have been considered are the first ones of the agenda,
each under the handle that the store gave for it.  Since the agenda lists no expression
twice, the next candidate has a handle that has not been seen: it is never known, so
every candidate is evaluated.
-/

namespace PlanFeatures

/-! ## Counts -/

namespace Statistics
variable {s : Statistics} {r q : Rule} {f : RuleCounts → RuleCounts}

theorem rule_eq (s : Statistics) (r : Rule) :
    s.rule r = getElem s.counts r.position.val r.position_lt := rfl

theorem rule_modifyRule :
    (s.modifyRule r f).rule q = if r = q then f (s.rule r) else s.rule q := by
  rw [rule_eq, modifyRule, Vector.getElem_set]
  by_cases same : r = q
  · rw [if_pos same, if_pos (congrArg (fun r => r.position.val) same)]
  · rw [if_neg same, if_neg fun places => same (Rule.position_injective places), rule_eq]

theorem known_modifyRule (keeps : ∀ c, (f c).known = c.known) :
    ((s.modifyRule r f).rule q).known = (s.rule q).known := by
  rw [rule_modifyRule]
  split
  next same => rw [keeps, same]
  next => rfl

/-! ### Sums over rules -/

/-- What some rules have of a count, altogether. -/
def sum (count : RuleCounts → Nat) (rules : List Rule) (s : Statistics) : Nat :=
  (rules.map fun r => count (s.rule r)).sum

theorem sum_modifyRule {count : RuleCounts → Nat} {m : Nat}
    (grows : ∀ c, count (f c) = count c + m) {rules : List Rule} (nodup : rules.Nodup) :
    (s.modifyRule r f).sum count rules = s.sum count rules + if r ∈ rules then m else 0 := by
  induction rules with
  | nil => rfl
  | cons q rest ih =>
    obtain ⟨first, nodup⟩ := List.nodup_cons.mp nodup
    have here : count ((s.modifyRule r f).rule q) = count (s.rule q) + if r = q then m else 0 := by
      rw [rule_modifyRule]
      split
      next same => rw [grows, same]
      next => rfl
    have later := ih nodup
    simp only [sum, List.map_cons, List.sum_cons, List.mem_cons] at later ⊢
    rw [here, later]
    -- The rule is the first one, or a later one, or not listed at all.
    by_cases same : r = q
    · subst same
      simp only [first, true_or, if_true, if_false]
      omega
    · simp only [same, false_or, if_false]
      omega

theorem counts_eq (s : Statistics) : s.counts.toList = Rule.all.map s.rule := by
  apply List.ext_getElem
  · simp [Rule.all_length]
  · intro i inside inside'
    rw [List.length_map] at inside'
    have place := Rule.position_get ⟨i, inside'⟩
    rw [List.get_eq_getElem] at place
    simp [rule_eq, place]

theorem foldl_add (counts : List RuleCounts) (c : RuleCounts) :
    counts.foldl .add c = c.add ⟨(counts.map RuleCounts.candidates).sum,
      (counts.map RuleCounts.kept).sum, (counts.map RuleCounts.duplicates).sum,
      (counts.map RuleCounts.known).sum⟩ := by
  induction counts generalizing c with
  | nil => rfl
  | cons d rest ih => simp [ih, RuleCounts.add, Nat.add_assoc]

/-- The totals are the sums over all rules. -/
theorem total_eq (s : Statistics) :
    s.total = ⟨s.sum RuleCounts.candidates Rule.all, s.sum RuleCounts.kept Rule.all,
      s.sum RuleCounts.duplicates Rule.all, s.sum RuleCounts.known Rule.all⟩ := by
  rw [total, ← Vector.foldl_toList, foldl_add, counts_eq]
  simp [RuleCounts.add, RuleCounts.zero, sum, Function.comp_def]

theorem candidates_modifyRule {m : Nat} (grows : ∀ c, (f c).candidates = c.candidates + m) :
    (s.modifyRule r f).total.candidates = s.total.candidates + m := by
  simp only [total_eq, sum_modifyRule grows Rule.nodup_all, r.mem_all, if_true]

theorem candidates_record (registration : Registration) :
    (s.modifyRule r (·.record registration)).total.candidates = s.total.candidates := by
  refine @candidates_modifyRule s r _ 0 fun c => ?_
  cases registration <;> rfl

end Statistics

/-! ## Handles of candidates -/

/-- Nodes with alike trees are one node, but for the order of operands that does not
matter. -/
theorem Store.WellFormed.eq_or_swapped {s : Store} (wf : s.WellFormed) {m n : Node} {t u : Expr}
    (hasM : ∀ g ∈ m.operands, s.Has g) (hasN : ∀ g ∈ n.operands, s.Has g)
    (treeM : m.tree? s.trees = some t) (treeN : n.tree? s.trees = some u) (alike : Expr.Alike t u) :
    m = n ∨ ∃ op a b, op.rule.isCommutative = true ∧ m = .binary op a b ∧ n = .binary op b a := by
  have operand : ∀ {g h : Handle} {x y : Expr}, s.Has g → s.Has h → s.trees g.index = some x →
      s.trees h.index = some y → Expr.Alike x y → g.index = h.index := by
    intro g h x y hasG hasH treeG treeH alike
    obtain ⟨_, standsG⟩ := wf.represents hasG
    obtain ⟨_, standsH⟩ := wf.represents hasH
    cases standsG.tree.symm.trans treeG
    cases standsH.tree.symm.trans treeH
    exact congrArg Handle.index ((wf.eq_iff_alike hasG hasH standsG standsH).mpr alike)
  cases alike with
  | leaf l =>
    obtain rfl := Node.of_tree?_leaf treeM
    obtain rfl := Node.of_tree?_leaf treeN
    exact Or.inl rfl
  | unary op inner =>
    obtain ⟨a, rfl, foundA⟩ := Node.of_tree?_unary treeM
    obtain ⟨b, rfl, foundB⟩ := Node.of_tree?_unary treeN
    have same := operand (hasM _ (Node.operand_mem op a)) (hasN _ (Node.operand_mem op b)) foundA
      foundB inner
    exact Or.inl (congrArg (Node.unary op) same)
  | binary op left right =>
    obtain ⟨a, b, rfl, foundA, foundB⟩ := Node.of_tree?_binary treeM
    obtain ⟨c, d, rfl, foundC, foundD⟩ := Node.of_tree?_binary treeN
    have first := operand (hasM _ (Node.left_mem op a b)) (hasN _ (Node.left_mem op c d)) foundA
      foundC left
    have second := operand (hasM _ (Node.right_mem op a b)) (hasN _ (Node.right_mem op c d)) foundB
      foundD right
    exact Or.inl (congrArg₂ (Node.binary op) first second)
  | swapped op commutative left right =>
    obtain ⟨a, b, rfl, foundA, foundB⟩ := Node.of_tree?_binary treeM
    obtain ⟨c, d, rfl, foundC, foundD⟩ := Node.of_tree?_binary treeN
    have first := operand (hasM _ (Node.left_mem op a b)) (hasN _ (Node.right_mem op c d)) foundA
      foundD left
    have second := operand (hasM _ (Node.right_mem op a b)) (hasN _ (Node.left_mem op c d)) foundB
      foundC right
    cases first
    cases second
    exact Or.inr ⟨op, a, b, commutative, rfl, rfl⟩
  | distance source role target =>
    obtain ⟨a, r, b, rfl, foundA, foundR, foundB⟩ := Node.of_tree?_distance treeM
    obtain ⟨c, q, d, rfl, foundC, foundQ, foundD⟩ := Node.of_tree?_distance treeN
    have first := operand (hasM _ (Node.source_mem a r b)) (hasN _ (Node.source_mem c q d)) foundA
      foundC source
    have second := operand (hasM _ (Node.role_mem a r b)) (hasN _ (Node.role_mem c q d)) foundR
      foundQ role
    have third := operand (hasM _ (Node.target_mem a r b)) (hasN _ (Node.target_mem c q d)) foundB
      foundD target
    cases first
    cases second
    cases third
    exact Or.inl rfl

namespace Session
variable {base : Store} {states : List State} {config : Config} {k : Nat} {s s' : Session}
  {node : Node}

/-- What the run goes through up to the layer at hand. -/
def agenda (s : Session) (config : Config) : List Node :=
  s.frontier.agenda s.store.vocabulary config (s.frontier.layers.size + 1)

section
variable (sound : s.Sound base states config k)
include sound

theorem Sound.separate : s.frontier.Separate :=
  sound.layered.separate sound.representatives.nodup

theorem Sound.nodup_agenda : (s.agenda config).Nodup :=
  Frontier.nodup_agenda sound.separate s.store.vocabulary config (s.frontier.layers.size + 1)

theorem Sound.has_of_agenda (member : node ∈ s.agenda config) :
    ∀ g ∈ node.operands, s.store.Has g := by
  intro g operand
  obtain ⟨j, rule, positive, _, member⟩ := Frontier.of_mem_agenda member
  have candidate := Frontier.candidate_of_mem sound.separate positive member
  obtain ⟨_, kept⟩ := sound.operand_kept candidate g operand
  exact sound.has_kept kept

/-- Different candidates have different handles. -/
theorem Sound.eq_of_interned {other : Node} {h : Handle} (member : node ∈ s.agenda config)
    (member' : other ∈ s.agenda config) (interned : s.store.Interned h node)
    (interned' : s.store.Interned h other) : node = other := by
  obtain ⟨t, u, tree, stands, alike⟩ := interned.tree
  obtain ⟨t', u', tree', stands', alike'⟩ := interned'.tree
  cases stands.unique stands'
  rcases sound.wellFormed.eq_or_swapped (sound.has_of_agenda member) (sound.has_of_agenda member')
    tree tree' (alike.symm.trans alike') with same | ⟨op, a, b, commutative, rfl, rfl⟩
  · exact same
  · exact absurd member' (Frontier.swapped_not_mem_agenda sound.separate commutative member)

end

/-! ## Traces -/

/-- The first candidates of the agenda have been considered, under handles of their own, and
the others have not. -/
structure Traced (config : Config) (s : Session) (done : List (Handle × Node)) (todo : List Node) :
    Prop where
  agenda : done.map Prod.snd ++ todo = s.agenda config
  interned : ∀ p ∈ done, s.store.Interned p.1 p.2
  seen : ∀ i, s.representatives.seen.contains i = true ↔ ∃ p ∈ done, p.1.index = i
  unknown : ∀ rule, (s.statistics.rule rule).known = 0
  candidates : s.statistics.total.candidates = done.length

/-- What neither a look at the clock nor a registration changes. -/
structure Undisturbed (s s' : Session) : Prop where
  store : s'.store = s.store
  frontier : s'.frontier = s.frontier
  seen : s'.representatives.seen = s.representatives.seen
  known : ∀ rule, (s'.statistics.rule rule).known = (s.statistics.rule rule).known
  candidates : s'.statistics.total.candidates = s.statistics.total.candidates
  evaluations : s'.statistics.evaluations = s.statistics.evaluations

theorem undisturbed_looks (s : Session) (n : Nat) : s.Undisturbed { s with looks := n } :=
  ⟨rfl, rfl, rfl, fun _ => rfl, rfl, rfl⟩

theorem Undisturbed.trans {s'' : Session} (first : s.Undisturbed s')
    (second : s'.Undisturbed s'') : s.Undisturbed s'' where
  store := second.store.trans first.store
  frontier := second.frontier.trans first.frontier
  seen := second.seen.trans first.seen
  known rule := (second.known rule).trans (first.known rule)
  candidates := second.candidates.trans first.candidates
  evaluations := second.evaluations.trans first.evaluations

/-- What considering a new candidate changes. -/
structure Added (rule : Rule) (node : Node) (h : Handle) (s s' : Session) : Prop where
  inserted : s.store.Inserted node h s'.store
  kept : s'.representatives.kept = s.representatives.kept
  features : s'.features = s.features
  statistics : s'.statistics = s.statistics.modifyRule rule .addCandidate

variable {done : List (Handle × Node)} {todo : List Node}

theorem Traced.undisturbed (traced : s.Traced config done todo) (same : s.Undisturbed s') :
    s'.Traced config done todo where
  agenda := by rw [traced.agenda, Session.agenda, Session.agenda, same.store, same.frontier]
  interned := same.store ▸ traced.interned
  seen := same.seen ▸ traced.seen
  unknown rule := (same.known rule).trans (traced.unknown rule)
  candidates := same.candidates.trans traced.candidates

end Session

namespace Search
open Session
variable {base : Store} {states : List State} {config : Config} {k : Nat} {s : Session}
  {node : Node} {done : List (Handle × Node)} {todo : List Node}

theorem checkClock_undisturbed (clock : Clock) (s : Session) :
    Outcome (checkClock clock) s (fun _ s' => s.Undisturbed s') (fun _ s' => s.Undisturbed s') := by
  simp only [checkClock, Outcome.bind_iff, Outcome.modifyGet_iff]
  split
  next => exact s.undisturbed_looks (s.looks + 1)
  next => exact s.undisturbed_looks (s.looks + 1)

theorem register_undisturbed (featureLimit : Nat) (rule : Rule) (h : Handle)
    (vector : ExtensionVector) (s : Session) :
    Outcome (register featureLimit rule h vector) s (fun _ s' => s.Undisturbed s')
      (fun _ s' => s.Undisturbed s') := by
  simp only [register, count, Outcome.bind_iff, Outcome.modify_iff, Outcome.modifyGet_iff]
  rcases Representatives.insert_cases s.representatives h vector with
    ⟨g, _, _, inserted⟩ | ⟨_, inserted⟩
  · simp only [inserted, reduceCtorEq, if_false, Outcome.pure_iff]
    exact {
      store := rfl
      frontier := rfl
      seen := rfl
      known := fun _ => Statistics.known_modifyRule fun _ => rfl
      candidates := Statistics.candidates_record _
      evaluations := rfl }
  · have kept : ∀ features layer log looks, s.Undisturbed
        ⟨s.store, s.representatives.keep h vector, layer, s.frontier, features,
          s.statistics.modifyRule rule (·.record .kept), looks, log⟩ := fun _ _ _ _ => {
      store := rfl
      frontier := rfl
      seen := rfl
      known := fun _ => Statistics.known_modifyRule fun _ => rfl
      candidates := Statistics.candidates_record _
      evaluations := rfl }
    simp only [inserted, if_true]
    split
    next =>
      simp only [emit, Outcome.bind_iff, Outcome.get_iff]
      split
      next => exact kept _ _ _ _
      next =>
        simp only [Outcome.bind_iff, Outcome.get_iff, Outcome.modify_iff]
        split <;> exact kept _ _ _ _
    next => exact kept _ _ _ _

/-! ## Considering candidates -/

/-- The next candidate of the agenda gets a handle that has not been seen. -/
theorem consider_traced (sound : s.Sound base states config k)
    (traced : s.Traced config done (node :: todo)) (declared : node.Declared base.vocabulary)
    (rule : Rule) :
    Outcome (consider rule node) s
      (fun result s' => ∃ h, result = some (h, node) ∧ s.Added rule node h s' ∧
        s'.Traced config (done ++ [(h, node)]) todo)
      (fun _ _ => False) := by
  have next : node ∈ s.agenda config :=
    traced.agenda ▸ List.mem_append_right _ List.mem_cons_self
  have operands := sound.has_of_agenda next
  simp only [consider, count, Outcome.bind_iff, Outcome.modify_iff, Outcome.modifyGet_iff]
  refine (intern_outcome sound operands declared).imp_done ?_
  rintro h _ ⟨store, added, rfl⟩
  have interned := added.interned sound.wellFormed operands
  have sound' := sound.grow added.later
  have agenda : ({ s with store } : Session).agenda config = s.agenda config := by
    rw [Session.agenda, Session.agenda, added.grown.vocabulary]
  have unseen : s.representatives.seen.contains h.index = false := by
    cases contained : s.representatives.seen.contains h.index with
    | false => rfl
    | true =>
      -- An earlier candidate with this handle would be the same node.
      obtain ⟨p, member, same⟩ := (traced.seen _).mp contained
      have before := (traced.interned p member).extends added.grown
      have earlier : p.2 ∈ s.agenda config :=
        traced.agenda ▸ List.mem_append_left _ (List.mem_map_of_mem member)
      rw [before.has.eq_of_index interned.has same] at before
      have repeated : p.2 = node :=
        sound'.eq_of_interned (agenda ▸ earlier) (agenda ▸ next) before interned
      have nodup := sound.nodup_agenda
      rw [← traced.agenda] at nodup
      exact absurd repeated ((List.nodup_append.mp nodup).2.2 p.2 (List.mem_map_of_mem member) node
        List.mem_cons_self)
  have new : (s.representatives.markSeen h).1 = true := by
    simp [Representatives.markSeen, unseen]
  rw [if_pos new, Outcome.pure_iff]
  refine ⟨h, rfl, ⟨added, rfl, rfl, rfl⟩, ?_⟩
  exact {
    agenda := by
      rw [List.map_append, List.append_assoc]
      exact traced.agenda.trans agenda.symm
    interned := by
      intro p member
      rcases List.mem_append.mp member with before | last
      · exact (traced.interned p before).extends added.grown
      · rw [List.mem_singleton.mp last]
        exact interned
    seen := by
      intro i
      simp only [Representatives.markSeen, Std.TreeSet.contains_insert, Bool.or_eq_true,
        beq_iff_eq, Nat.compare_eq_eq, traced.seen, List.mem_append, List.mem_singleton,
        or_and_right, exists_or, exists_eq_left]
      exact Or.comm
    unknown := fun q => by
      have same := @Statistics.known_modifyRule s.statistics rule q .addCandidate fun _ => rfl
      exact same.trans (traced.unknown q)
    candidates := by
      rw [List.length_append, ← traced.candidates]
      exact Statistics.candidates_modifyRule fun _ => rfl }

end Search
end PlanFeatures
