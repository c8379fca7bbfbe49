import PlanFeatures.Proofs.Generation.Invariants
import PlanFeatures.Proofs.Generation.Unrepeated

/-!
# What is kept obeys the configuration throughout

Whatever a run keeps was one of its candidates, since only what has been considered is
registered.  So its operands come from closed layers, where they were kept, and it is
allowed by the configuration in all its parts.  The store may have had the expression
before the run; what is said is about the stored expression, however it came about.
-/

namespace PlanFeatures

/-! ## Kept expressions were considered -/

namespace Session
variable {s s' : Session}

/-- Only what has been considered is kept. -/
def Considered (s : Session) : Prop := ∀ h vector, (h, vector) ∈ s.representatives.kept → s.Seen h

theorem Considered.marks (considered : s.Considered) (marks : s.Marks s') : s'.Considered :=
  fun h vector kept => marks.seen h (considered h vector (marks.kept ▸ kept))

end Session

namespace Search
open Session
variable {s : Session}

theorem register_considered (considered : s.Considered) {h : Handle} (seen : s.Seen h)
    (featureLimit : Nat) (rule : Rule) (vector : ExtensionVector) :
    Outcome (register featureLimit rule h vector) s
      (fun _ s' => s'.Considered ∧ ∀ g, s.Seen g → s'.Seen g) (fun _ s' => s'.Considered) := by
  have kept : ∀ g w, (g, w) ∈ (s.representatives.keep h vector).kept → s.Seen g := by
    intro g w member
    rcases List.mem_cons.mp member with new | old
    · cases new
      exact seen
    · exact considered g w old
  simp only [register, count, Outcome.bind_iff, Outcome.modify_iff, Outcome.modifyGet_iff]
  rcases Representatives.insert_cases s.representatives h vector with
    ⟨g, _, _, inserted⟩ | ⟨_, inserted⟩
  · simp only [inserted, reduceCtorEq, if_false, Outcome.pure_iff]
    exact ⟨considered, fun _ seen => seen⟩
  · simp only [inserted, if_true]
    split
    next =>
      simp only [emit, fail, Outcome.bind_iff, Outcome.get_iff]
      split
      next => exact kept
      next =>
        simp only [Outcome.bind_iff, Outcome.get_iff, Outcome.modify_iff]
        split
        next => exact kept
        next => exact ⟨kept, fun _ seen => seen⟩
    next => exact ⟨kept, fun _ seen => seen⟩

theorem processBatch_considered (considered : s.Considered) (config : Config) (clock : Clock)
    (rule : Rule) (batch : List Node) :
    Outcome (processBatch config clock rule batch) s (fun _ s' => s'.Considered)
      (fun _ s' => s'.Considered) := by
  simp only [processBatch_eq, Outcome.bind_iff, Outcome.modify_iff]
  refine (checkClock_marks clock s).imp ?_ fun _ _ stop => considered.marks stop.1
  intro _ s₁ marks₁
  have considered₁ := considered.marks marks₁
  refine (considerAll_marks rule batch s₁).imp ?_ fun _ _ stop => considered₁.marks stop.1
  rintro results s₂ ⟨marks₂, seen₂⟩
  have considered₂ := considered₁.marks marks₂
  refine (evaluateAll_unchanged _ s₂).imp ?_ fun _ _ stop => stop.1 ▸ considered₂
  rintro vectors s₃ rfl
  -- What is left to register has been considered.
  let invariant (rest : List ((Handle × Node) × ExtensionVector)) (s' : Session) : Prop :=
    s'.Considered ∧ ∀ q ∈ rest, s'.Seen q.1.1
  have start : invariant ((results.filterMap id).zip vectors)
      { s₃ with statistics.evaluations := s₃.statistics.evaluations + vectors.length } := by
    refine ⟨considered₂, fun q member => ?_⟩
    exact seen₂ q.1 (List.of_mem_zip member).1
  refine (Outcome.forM_of_invariant invariant ?_ _ start).imp_done fun _ _ last => last.1
  rintro ⟨⟨h, node⟩, vector⟩ rest s₄ ⟨considered₄, seen₄⟩
  refine (register_considered considered₄ (seen₄ _ List.mem_cons_self) config.featureLimit rule
    vector).imp_done ?_
  rintro _ s₅ ⟨considered₅, seen₅⟩
  exact ⟨considered₅, fun q member => seen₅ _ (seen₄ q (List.mem_cons_of_mem _ member))⟩

end Search

theorem after_considered (config : Config) (clock : Clock) (states : List State) (store : Store) :
    (Session.after config clock states store).Considered := by
  have start : (Session.start store states).Considered :=
    fun h vector kept => absurd kept List.not_mem_nil
  have outcome := Search.enumerate_keeps
    (fun rule batch s considered =>
      Search.processBatch_considered considered config clock rule batch)
    (fun _ _ considered => considered) start
  unfold Session.after
  rcases run : (Search.enumerate config clock).run (.start store states) with ⟨result, s⟩
  cases result with
  | ok => exact outcome.ok run
  | error e => exact outcome.error run

/-! ## Gates -/

/-- What a configuration asks of an expression that is kept. -/
structure Expr.Gated (config : Config) (e : Expr) : Prop where
  enabled : ∀ x ∈ e.parts, config.rules.isEnabled x.rule = true
  concepts : ∀ x ∈ e.parts, x.kind = .concept → x.complexity ≤ config.limits.concept
  roles : ∀ x ∈ e.parts, x.kind = .role → x.complexity ≤ config.limits.role
  boolean : e.kind = .boolean → e.complexity ≤ config.limits.boolean
  count : e.rule = .numericalCount → e.complexity ≤ config.limits.count
  distance : e.rule = .numericalDistance → e.complexity ≤ config.limits.distance
  positions : ∀ p i j, .leaf (.rolePrimitive p i j) ∈ e.parts → i < j

theorem Expr.Expressible.gated {config : Config} {e : Expr}
    (expressible : e.Expressible config.limits config.rules) : e.Gated config := by
  have root := expressible.root.2
  constructor
  · exact expressible.enabled
  · intro x part kind
    have within := expressible.within x part
    rw [Expr.kind] at kind
    rwa [Limits.forRule, kind] at within
  · intro x part kind
    have within := expressible.within x part
    rw [Expr.kind] at kind
    rwa [Limits.forRule, kind] at within
  · intro kind
    rw [Expr.kind] at kind
    rwa [Limits.forRule, kind] at root
  · intro rule
    rwa [rule] at root
  · intro rule
    rwa [rule] at root
  · intro p i j part
    exact expressible.ascending _ part

/-- Every kept expression obeys the configuration, is listed in the layer of its complexity
unless it is a feature, and has operands that are kept and listed in closed layers below. -/
def Session.Gated (config : Config) (s : Session) : Prop :=
  ∀ h vector, (h, vector) ∈ s.representatives.kept →
    ∃ e node, s.store.tree? h = some e ∧ s.store.node? h = some node ∧ e.kind = h.kind ∧
      s.store.complexity? h = some e.complexity ∧ e.Gated config ∧
      (h.kind.isFeature = false →
        h.index ∈ (s.frontier.close s.layer).layer h.kind e.complexity) ∧
      ∀ g ∈ node.operands, (∃ w, (g, w) ∈ s.representatives.kept) ∧
        ∃ i, i < e.complexity ∧ s.store.complexity? g = some i ∧ g.index ∈ s.frontier.layer g.kind i

namespace Session
variable {base : Store} {states : List State} {config : Config} {k : Nat} {s : Session}

/-- A handle that has been considered belongs to a candidate, which has its operands. -/
theorem Sound.candidate_of_seen (sound : s.Sound base states config k) {todo : List Node}
    (evaluated : s.Evaluated config todo) {h : Handle} (has : s.store.Has h) (seen : s.Seen h)
    {node : Node} (stored : s.store.node? h = some node) :
    ∃ other rule j, s.frontier.Candidate s.store.vocabulary rule j other ∧
      s.store.Interned h other ∧ ∀ g ∈ node.operands, g ∈ other.operands := by
  obtain ⟨done, traced, _⟩ := evaluated
  obtain ⟨⟨_, other⟩, member, same⟩ := (traced.seen _).mp seen
  have interned := traced.interned _ member
  rw [interned.has.eq_of_index has same] at interned
  have listed : other ∈ s.agenda config :=
    traced.agenda ▸ List.mem_append_left _ (List.mem_map_of_mem member)
  obtain ⟨j, rule, positive, _, there⟩ := Frontier.of_mem_agenda listed
  have candidate := Frontier.candidate_of_mem sound.separate positive there
  refine ⟨other, rule, j, candidate, interned, ?_⟩
  obtain ⟨t, u, tree, stands, alike⟩ := interned.tree
  have spell := (sound.wellFormed.trees_eq stored).symm.trans stands.tree
  rcases sound.wellFormed.eq_or_swapped (sound.wellFormed.has stored)
    (sound.has_of_agenda listed) spell tree alike with rfl | ⟨op, a, b, commutative, rfl, rfl⟩
  · exact fun g operand => operand
  · -- Both operands of a commutative operator are of one kind.
    have kinds := BinaryOp.left_eq_right commutative
    intro g operand
    simp only [Node.operands, kinds, List.mem_cons, List.not_mem_nil, or_false] at operand ⊢
    exact operand.symm

theorem Sound.gated (sound : s.Sound base states config k) {todo : List Node}
    (evaluated : s.Evaluated config todo) (considered : s.Considered) : s.Gated config := by
  intro h vector kept
  have has := sound.has_kept kept
  obtain ⟨e, stands⟩ := sound.wellFormed.represents has
  obtain ⟨node, stored⟩ := has.node
  have expressible := (sound.allowed kept stands.tree).expressible
  obtain ⟨other, rule, j, candidate, interned, operands⟩ :=
    sound.candidate_of_seen evaluated has (considered h vector kept) stored
  obtain ⟨t, u, tree, stands', alike⟩ := interned.tree
  cases stands.unique stands'
  have complexity : e.complexity = j :=
    alike.complexity_eq.trans (sound.complexity_of_candidate candidate tree)
  refine ⟨e, node, stands.tree, stored, stands.kind, stands.complexity, expressible.gated, ?_, ?_⟩
  · intro operand
    rw [sound.layered.listed h.kind operand, Store.mem_keptAt]
    exact ⟨vector, kept, Store.complexity_of_complexity? stands.complexity⟩
  · intro g operand
    obtain ⟨i, below, listed⟩ := candidate.operands g (operands g operand)
    obtain ⟨_, w, keptG, counted⟩ := sound.layered.of_mem_layer listed
    obtain ⟨x, standsG⟩ := sound.wellFormed.represents (sound.has_kept keptG)
    refine ⟨⟨w, keptG⟩, i, complexity ▸ below, ?_, listed⟩
    rw [standsG.complexity, ← Store.complexity_of_complexity? standsG.complexity]
    exact congrArg some counted

end Session

/-- A run over a sample that is not refused keeps its features and what their operands are,
and all of it obeys the configuration, whatever stops the run. -/
theorem kept_gated {store : Store} {issued : List Handle} (reachable : store.Reachable issued)
    {config : Config} (valid : config.validate = .ok ()) {states : List State}
    (accepted : checkSample store.vocabulary states = .ok ())
    (made : ∀ state ∈ states, state.problem.Made) (clock : Clock) :
    ∃ g, generate config clock states store
        = (.ok g, (Session.after config clock states store).store) ∧
      (∀ f ∈ g.features, ∃ vector,
        (f.handle, vector) ∈ (Session.after config clock states store).representatives.kept) ∧
      (Session.after config clock states store).Gated config := by
  have wf := reachable.wellFormed
  obtain ⟨⟨k, sound⟩, todo, evaluated⟩ :=
    after_rested config clock wf (over_of_checkSample accepted made)
  obtain ⟨g, result, features, _⟩ := generate_ok config clock wf valid accepted made
  refine ⟨g, result, fun f member => ?_,
    sound.gated evaluated (after_considered config clock states store)⟩
  rw [features] at member
  exact (sound.emitted.mem.mp ⟨f, Array.mem_toList_iff.mp member, rfl⟩).2

/-- The lamps that are not lit are kept in layer 2, over the lit lamps of layer 1. -/
theorem kept_gated_lamps :
    (Session.after Lamps.boolean Lamps.clock Lamps.states Lamps.store).frontier.layers.toList.map
        Layer.concepts = [[1, 2], [3, 4], [], []] ∧
      ∃ g, generate Lamps.boolean Lamps.clock Lamps.states Lamps.store
          = (.ok g, (Session.after Lamps.boolean Lamps.clock Lamps.states Lamps.store).store) ∧
        (∀ f ∈ g.features, ∃ vector, (f.handle, vector) ∈
          (Session.after Lamps.boolean Lamps.clock Lamps.states Lamps.store).representatives.kept) ∧
        (Session.after Lamps.boolean Lamps.clock Lamps.states Lamps.store).Gated Lamps.boolean :=
  ⟨by decide +kernel, kept_gated Lamps.store_reachable (by decide +kernel) (by decide +kernel)
    Lamps.states_made Lamps.clock⟩

end PlanFeatures
