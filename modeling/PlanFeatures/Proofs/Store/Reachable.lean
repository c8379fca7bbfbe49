import PlanFeatures.Proofs.Generation.Runs
import PlanFeatures.Proofs.Store.Reading

/-!
# Stores that callers can reach

A caller starts with an empty store and calls the constructors, the reader and runs of
the generator, in any order, with the handles that the store has given out.  Calls may
fail; what they added before stays.  All stores that are reached in this way are well
formed, and have every expression whose handle they gave out.
-/

namespace PlanFeatures

/-- What a caller can ask of a store. -/
inductive Call where
  | leaf (leaf : Leaf)
  | primitive (predicate : PredicateId) (kind : Kind)
  | projection (role : Handle) (position : Nat)
  | composite (rule : Rule) (operands : List Handle)
  | read (text : String)
  | readKind (expected : Kind) (text : String)
  | generate (config : Config) (clock : Clock) (states : List State)
  /-- All expressions of the store. -/
  | handles
  /-- The operands of an expression. -/
  | operands (h : Handle)

namespace Call

/-- The handles that the caller has to bring along. -/
def arguments : Call → List Handle
  | projection role _ => [role]
  | composite _ args => args
  | operands h => [h]
  | leaf _ | primitive .. | read _ | readKind .. | generate .. | handles => []

/-- The problems of a sample have been made by declarations. -/
def Proper : Call → Prop
  | generate _ _ states => ∀ s ∈ states, s.problem.Made
  | _ => True

/-- What a constructor gives out, and the store after it. -/
def built (store : Store) (m : Build Handle) : List Handle × Store :=
  match m.run store with
  | (.ok h, store) => ([h], store)
  | (.error _, store) => ([], store)

/-- The handles that the call gives out, and the store after it. -/
def run (store : Store) : Call → List Handle × Store
  | leaf l => built store (Build.leaf l)
  | primitive p kind => built store (Build.primitive p kind)
  | projection role i => built store (Build.projection role i)
  | composite rule args => built store (Build.composite rule args)
  | read text => built store (Build.read text)
  | readKind expected text => built store (Build.readKind expected text)
  | generate config clock states =>
    match PlanFeatures.generate config clock states store with
    | (.ok g, store) => (g.features.map Feature.handle, store)
    | (.error _, store) => ([], store)
  | handles => (store.handles, store)
  | operands h => ((store.node? h).elim [] Node.operands, store)

end Call

namespace Store

/-- A store that a caller can reach, with the handles given out so far. -/
inductive Reachable : Store → List Handle → Prop where
  | new {v : Vocabulary} {bits : Nat} {s : Store} (made : empty? v bits = some s) : Reachable s []
  | call {s : Store} {issued : List Handle} (before : Reachable s issued) (c : Call)
      (owned : ∀ h ∈ c.arguments, h ∈ issued) (proper : c.Proper) :
      Reachable (c.run s).2 ((c.run s).1 ++ issued)

/-- A store that its owner can reach from another one, with the handles given out so far. -/
inductive Continues (s : Store) (issued : List Handle) : Store → List Handle → Prop where
  | here : Continues s issued s issued
  | call {s' : Store} {issued' : List Handle} (before : Continues s issued s' issued') (c : Call)
      (owned : ∀ h ∈ c.arguments, h ∈ issued') (proper : c.Proper) :
      Continues s issued (c.run s').2 ((c.run s').1 ++ issued')

/-! ## One call -/

/-- A call leaves a store that has grown and has the expressions that it gives out. -/
abbrev Answered (s : Store) (result : List Handle × Store) : Prop :=
  s.Later result.2 ∧ ∀ h ∈ result.1, result.2.Has h

theorem answered_of_built {s : Store} {m : Build Handle} (built : Build.Built s m) :
    s.Answered (Call.built s m) := by
  unfold Call.built
  rcases run : m.run s with ⟨result, s'⟩
  cases result with
  | ok h =>
    obtain ⟨later, has⟩ := built.ok run
    exact ⟨later, fun g member => List.mem_singleton.mp member ▸ has⟩
  | error e => exact ⟨built.error run, fun g member => absurd member List.not_mem_nil⟩

theorem answered_generate {s : Store} (wf : s.WellFormed) (config : Config) (clock : Clock)
    {states : List State} (made : ∀ state ∈ states, state.problem.Made) :
    s.Answered (Call.run s (.generate config clock states)) := by
  rcases generate_cases config clock states s with ⟨e, refused⟩ | ⟨valid, accepted, _⟩
  · simp only [Call.run, refused]
    exact ⟨wf.later, fun h member => absurd member List.not_mem_nil⟩
  · obtain ⟨g, result, features, _⟩ := generate_ok config clock wf valid accepted made
    obtain ⟨k, sound⟩ := after_sound config clock wf (over_of_checkSample accepted made)
    simp only [Call.run, result, features]
    refine ⟨sound.later, fun h member => ?_⟩
    obtain ⟨feature, inside, rfl⟩ := List.mem_map.mp member
    obtain ⟨_, vector, kept⟩ := sound.emitted.mem.mp ⟨feature, Array.mem_toList_iff.mp inside, rfl⟩
    exact sound.has_kept kept

theorem has_of_mem_handles {s : Store} {h : Handle} (member : h ∈ s.handles) : s.Has h := by
  simp only [handles, UniqueTable.toList, List.map_map, List.mem_map, Prod.exists] at member
  obtain ⟨node, i, place, rfl⟩ := member
  have stored : s.table.values[i]? = some node := by
    simpa using List.mk_mem_zipIdx_iff_getElem?.mp place
  exact ⟨node, stored, rfl⟩

theorem answered {s : Store} (wf : s.WellFormed) (c : Call) (has : ∀ h ∈ c.arguments, s.Has h)
    (proper : c.Proper) : s.Answered (c.run s) := by
  cases c with
  | leaf l => exact answered_of_built (Build.built_of_outcome wf (Build.leaf_given wf l))
  | primitive p kind =>
    exact answered_of_built (Build.built_of_outcome wf (Build.primitive_outcome wf p kind))
  | projection role i =>
    have operand := has role List.mem_cons_self
    exact answered_of_built (Build.built_of_outcome wf (Build.projection_outcome wf operand i))
  | composite rule operands =>
    exact answered_of_built (Build.built_of_outcome wf (Build.composite_outcome wf rule has))
  | read text => exact answered_of_built (Build.read_outcome wf text)
  | readKind expected text => exact answered_of_built (Build.readKind_outcome wf expected text)
  | generate config clock states => exact answered_generate wf config clock proper
  | handles => exact ⟨wf.later, fun h member => has_of_mem_handles member⟩
  | operands h =>
    refine ⟨wf.later, fun g member => ?_⟩
    obtain ⟨node, stored, _⟩ := has h List.mem_cons_self
    simp only [Call.run, stored, Option.elim] at member
    exact wf.has stored g member

/-! ## Histories of calls -/

/-- A call gets handles that the store has, and what it leaves has grown, so it has all
handles that were given out before. -/
theorem called {s : Store} {issued : List Handle} (wf : s.WellFormed) (has : ∀ h ∈ issued, s.Has h)
    (c : Call) (owned : ∀ h ∈ c.arguments, h ∈ issued) (proper : c.Proper) :
    s.Later (c.run s).2 ∧ ∀ h ∈ (c.run s).1 ++ issued, (c.run s).2.Has h := by
  obtain ⟨later, given⟩ := answered wf c (fun h member => has h (owned h member)) proper
  refine ⟨later, fun h member => ?_⟩
  rcases List.mem_append.mp member with new | old
  · exact given h new
  · exact later.grown.has (has h old)

theorem Reachable.sound {s : Store} {issued : List Handle} (reachable : s.Reachable issued) :
    s.WellFormed ∧ ∀ h ∈ issued, s.Has h := by
  induction reachable with
  | new made => exact ⟨wellFormed_empty? made, fun h member => absurd member List.not_mem_nil⟩
  | @call s issued _ c owned proper ih =>
    obtain ⟨later, has⟩ := called ih.1 ih.2 c owned proper
    exact ⟨later.wellFormed, has⟩

theorem Continues.later {s s' : Store} {issued issued' : List Handle}
    (continues : s.Continues issued s' issued') (wf : s.WellFormed) (has : ∀ h ∈ issued, s.Has h) :
    s.Later s' ∧ ∀ h ∈ issued', s'.Has h := by
  induction continues with
  | here => exact ⟨wf.later, has⟩
  | @call s' issued' _ c owned proper ih =>
    obtain ⟨later, has'⟩ := called ih.1.wellFormed ih.2 c owned proper
    exact ⟨ih.1.trans later, has'⟩

theorem Reachable.wellFormed {s : Store} {issued : List Handle} (reachable : s.Reachable issued) :
    s.WellFormed :=
  reachable.sound.1

/-- What a store owes to the caller who holds some of its handles. -/
structure Exact (s : Store) (issued : List Handle) : Prop where
  /-- The operands of a node come before it and are of the kinds that the node takes. -/
  operands : ∀ h node, s.node? h = some node → ∀ operand ∈ node.operands,
    operand.index < h.index ∧ ∃ child, s.node? operand = some child ∧ child.kind = operand.kind
  /-- A handle has the kind of its node. -/
  kinds : ∀ h ∈ issued, ∃ node, s.node? h = some node ∧ node.kind = h.kind
  /-- The complexity of a handle is the number of rule applications in its tree. -/
  complexities : ∀ h ∈ issued, ∃ t, s.tree? h = some t ∧ s.complexity? h = some t.complexity
  /-- Two handles are equal exactly when their trees are alike. -/
  alike : ∀ a ∈ issued, ∀ b ∈ issued, ∃ x y, s.tree? a = some x ∧ s.tree? b = some y ∧
    (a = b ↔ Expr.Alike x y)

/-- Hash-consing is exact in every store that a caller can reach. -/
theorem Reachable.hash_consing_exact {s : Store} {issued : List Handle}
    (reachable : s.Reachable issued) : s.Exact issued := by
  obtain ⟨wf, has⟩ := reachable.sound
  constructor
  · intro h node stored operand member
    exact ⟨wf.earlier stored operand member, wf.has stored operand member⟩
  · exact has
  · intro h member
    obtain ⟨t, stands⟩ := wf.represents (has h member)
    exact ⟨t, stands.tree, stands.complexity⟩
  · intro a memberA b memberB
    obtain ⟨x, standsA⟩ := wf.represents (has a memberA)
    obtain ⟨y, standsB⟩ := wf.represents (has b memberB)
    exact ⟨x, y, standsA.tree, standsB.tree,
      wf.eq_iff_alike (has a memberA) (has b memberB) standsA standsB⟩

/-- Both orders of two operands whose order does not matter give the third handle. -/
theorem hash_consing_exact_swapped :
    ∃ (s : Store) (issued : List Handle), s.Reachable issued ∧
      issued = [⟨.concept, 3⟩, ⟨.concept, 3⟩, ⟨.concept, 2⟩, ⟨.concept, 1⟩] ∧ s.Exact issued := by
  have none : Reachable ⟨.empty, ⟨#[], 1, ∅⟩, #[]⟩ [] := @Reachable.new .empty 0 _ rfl
  have top := none.call (.leaf .conceptTop) (by decide) trivial
  have bot := top.call (.leaf .conceptBot) (by decide) trivial
  have first := bot.call (.composite .conceptAnd [⟨.concept, 1⟩, ⟨.concept, 2⟩]) (by decide +kernel)
    trivial
  have second := first.call (.composite .conceptAnd [⟨.concept, 2⟩, ⟨.concept, 1⟩])
    (by decide +kernel) trivial
  exact ⟨_, _, second, by decide +kernel, second.hash_consing_exact⟩

end Store
end PlanFeatures
