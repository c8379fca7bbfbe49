import PlanFeatures.Proofs.Store.History

/-!
# Handles stay valid

Whatever a store is asked for later, what it says about a handle that it has given out
stays as it is, and so does the order of two such handles.  A call that fails leaves the
store as it was, but for the reader: of a term that is refused, the terms within it that
were built before the refusal stay.
-/

namespace PlanFeatures
namespace Store
variable {s s' : Store} {h g : Handle}

/-- All that can be asked about the handle is the same in the later store. -/
structure Keeps (s s' : Store) (h : Handle) : Prop where
  node : ∃ node, s.node? h = some node ∧ node.kind = h.kind ∧ s'.node? h = some node
  complexity : ∃ n, s.complexity? h = some n ∧ s'.complexity? h = some n
  text : s'.text h = s.text h
  value : ∀ state : State, s'.evaluate h state = s.evaluate h state

/-! ## Extensions -/

theorem foldlM_congr {α β ε : Type} {f g : β → α → Except ε β} {as : List α}
    (same : ∀ a ∈ as, ∀ b, f b a = g b a) (b : β) : as.foldlM f b = as.foldlM g b := by
  induction as generalizing b with
  | nil => rfl
  | cons a rest ih =>
    rw [List.foldlM_cons, List.foldlM_cons, same a List.mem_cons_self]
    exact bind_congr fun b' => ih (fun a member => same a (List.mem_cons_of_mem _ member)) b'

/-- An expression is evaluated from itself and its operands, and these are where they were. -/
theorem Extends.evaluateBelow_eq (grown : s.Extends s') (grounded : s.Grounded) (state : State)
    {fuel : Nat} (memo : Memo state.objectCount) (has : s.Has h) :
    s'.evaluateBelow state fuel memo h = s.evaluateBelow state fuel memo h := by
  induction fuel generalizing h memo with
  | zero => rfl
  | succ fuel ih =>
    obtain ⟨node, stored⟩ := has.node
    have stored' : s'.node? h = some node := grown.get? stored
    unfold evaluateBelow
    split
    next => rfl
    next =>
      rw [stored, stored']
      have operands := foldlM_congr
        (fun g member memo => ih memo (grounded.has stored g member)) memo
      simp only [operands]

theorem Extends.evaluate_eq (grown : s.Extends s') (grounded : s.Grounded) (has : s.Has h)
    (state : State) : s'.evaluate h state = s.evaluate h state := by
  rw [evaluate, evaluate, grown.evaluateBelow_eq grounded state ∅ has]

theorem Later.keeps (later : s.Later s') (wf : s.WellFormed) (has : s.Has h) :
    s.Keeps s' h where
  node :=
    have ⟨node, stored, kind⟩ := has
    ⟨node, stored, kind, later.grown.get? stored⟩
  complexity :=
    have ⟨t, represents⟩ := wf.represents has
    ⟨t.complexity, represents.complexity, later.grown.complexity? represents.complexity⟩
  text := by
    obtain ⟨t, represents⟩ := wf.represents has
    have represents' := later.grown.represents has represents
    rw [wf.text_eq has represents.tree,
      later.wellFormed.text_eq (later.grown.has has) represents'.tree, later.grown.vocabulary]
  value := later.grown.evaluate_eq wf.toGrounded has

theorem Later.order_eq (later : s.Later s') (wf : s.WellFormed) (has : s.Has h) (has' : s.Has g) :
    ∃ o, s.order? h g = some o ∧ s'.order? h g = some o := by
  obtain ⟨x, represents⟩ := wf.represents has
  obtain ⟨y, represents'⟩ := wf.represents has'
  -- Both stores compare the same two trees.
  refine ⟨x.order y, ?_, ?_⟩
  · rw [order?_eq has has', wf.order_eq has has' represents.tree represents'.tree]
  · have after := later.grown.has has
    have after' := later.grown.has has'
    rw [order?_eq after after', later.wellFormed.order_eq after after'
      (later.grown.represents has represents).tree (later.grown.represents has' represents').tree]

end Store

/-! ## Failing calls -/

/-- The call ends with an error. -/
def Call.Fails (s : Store) : Call → Prop
  | leaf l => ∃ e, ((Build.leaf l).run s).1 = .error e
  | primitive p kind => ∃ e, ((Build.primitive p kind).run s).1 = .error e
  | projection role i => ∃ e, ((Build.projection role i).run s).1 = .error e
  | composite rule args => ∃ e, ((Build.composite rule args).run s).1 = .error e
  | read text => ∃ e, ((Build.read text).run s).1 = .error e
  | readKind expected text => ∃ e, ((Build.readKind expected text).run s).1 = .error e
  | generate config clock states =>
    ∃ e, (PlanFeatures.generate config clock states s).1 = .error e
  | handles | operands _ => False

/-- What a failed call may leave behind: nothing, but for a text that is a term. -/
def Call.Leaves (s s' : Store) : Call → Prop
  | read text | readKind _ text =>
    (∀ fault, Term.parse text = .error fault → s' = s) ∧
      ∀ t, Term.parse text = .ok t → s.AddsOnly (fun u => u.Within t) s'
  | leaf _ | primitive .. | projection .. | composite .. | generate .. | handles | operands _ =>
    s' = s

namespace Store
variable {s : Store}

theorem unchanged_of_error {m : Build Handle} {done : Handle → Store → Prop}
    (outcome : Outcome m s done fun _ s' => s' = s) {e : ExpressionError}
    (error : (m.run s).1 = .error e) : (Call.built s m).2 = s := by
  rcases run : m.run s with ⟨result, s'⟩
  rw [run] at error
  cases error
  unfold Call.built
  rw [run]
  exact outcome.error run

theorem adds_of_outcome {m : Build Handle} {terms : Term → Prop}
    (outcome : Outcome m s (fun _ s' => s.AddsOnly terms s') fun _ s' => s.AddsOnly terms s') :
    s.AddsOnly terms (Call.built s m).2 := by
  unfold Call.built
  rcases run : m.run s with ⟨result, s'⟩
  cases result with
  | ok h => exact outcome.ok run
  | error e => exact outcome.error run

theorem read_adds (wf : s.WellFormed) {text : String} {t : Term}
    (parsed : Term.parse text = .ok t) :
    Outcome (Build.read text) s (fun _ s' => s.AddsOnly (fun u => u.Within t) s')
      fun _ s' => s.AddsOnly (fun u => u.Within t) s' := by
  rw [Build.read, parsed]
  exact (Build.ofTerm_checks text t wf).imp (fun _ _ understood => understood.adds)
    fun _ _ refused => refused.adds

theorem readKind_adds (wf : s.WellFormed) (expected : Kind) {text : String} {t : Term}
    (parsed : Term.parse text = .ok t) :
    Outcome (Build.readKind expected text) s (fun _ s' => s.AddsOnly (fun u => u.Within t) s')
      fun _ s' => s.AddsOnly (fun u => u.Within t) s' := by
  simp only [Build.readKind, Outcome.bind_iff]
  refine (read_adds wf parsed).imp_done fun h s₁ adds => ?_
  split
  next => exact adds
  next =>
    rw [Outcome.bind_iff, Outcome.get_iff]
    split <;> exact adds

/-- A text that is no term is refused before anything is built. -/
theorem read_malformed {text : String} {fault : Term.Fault}
    (parsed : Term.parse text = .error fault) :
    Outcome (Build.read text) s (fun _ _ => False) fun _ s' => s' = s := by
  rw [Build.read, parsed]
  rfl

theorem readKind_malformed (expected : Kind) {text : String} {fault : Term.Fault}
    (parsed : Term.parse text = .error fault) :
    Outcome (Build.readKind expected text) s (fun _ _ => False) fun _ s' => s' = s := by
  simp only [Build.readKind, Outcome.bind_iff]
  exact (read_malformed parsed).imp_done fun _ _ impossible => impossible.elim

theorem WellFormed.leaves_of_fails (wf : s.WellFormed) (c : Call)
    (has : ∀ h ∈ c.arguments, s.Has h) (proper : c.Proper) (fails : c.Fails s) :
    c.Leaves s (c.run s).2 := by
  cases c with
  | leaf l =>
    obtain ⟨e, error⟩ := fails
    exact unchanged_of_error (Build.leaf_given wf l) error
  | primitive p kind =>
    obtain ⟨e, error⟩ := fails
    exact unchanged_of_error (Build.primitive_outcome wf p kind) error
  | projection role i =>
    obtain ⟨e, error⟩ := fails
    exact unchanged_of_error (Build.projection_outcome wf (has role List.mem_cons_self) i) error
  | composite rule operands =>
    obtain ⟨e, error⟩ := fails
    exact unchanged_of_error (Build.composite_outcome wf rule has) error
  | read text =>
    obtain ⟨e, error⟩ := fails
    exact ⟨fun fault parsed => unchanged_of_error (read_malformed parsed) error,
      fun t parsed => adds_of_outcome (read_adds wf parsed)⟩
  | readKind expected text =>
    obtain ⟨e, error⟩ := fails
    exact ⟨fun fault parsed => unchanged_of_error (readKind_malformed expected parsed) error,
      fun t parsed => adds_of_outcome (readKind_adds wf expected parsed)⟩
  | generate config clock states =>
    obtain ⟨e, error⟩ := fails
    rcases generate_cases config clock states s with ⟨e', refused⟩ | ⟨valid, accepted, _⟩
    · simp only [Call.Leaves, Call.run, refused]
    · -- An accepted run gives a result, however it ends.
      obtain ⟨g, result, _⟩ := generate_ok config clock wf valid accepted proper
      rw [result] at error
      cases error
  | handles | operands h => exact fails.elim

/-- Handles stay valid for ever, and what a failing call leaves behind is known. -/
theorem Reachable.handles_permanent {s : Store} {issued : List Handle}
    (reachable : s.Reachable issued) :
    (∀ s' issued', s.Continues issued s' issued' → ∀ h ∈ issued, s.Keeps s' h ∧
      ∀ g ∈ issued, ∃ o, s.order? h g = some o ∧ s'.order? h g = some o) ∧
    ∀ c : Call, (∀ h ∈ c.arguments, h ∈ issued) → c.Proper → c.Fails s →
      c.Leaves s (c.run s).2 := by
  obtain ⟨wf, has⟩ := reachable.sound
  constructor
  · intro s' issued' continues h owned
    obtain ⟨later, _⟩ := continues.later wf has
    exact ⟨later.keeps wf (has h owned), fun g owned' =>
      later.order_eq wf (has h owned) (has g owned')⟩
  · intro c owned proper fails
    exact wf.leaves_of_fails c (fun h member => has h (owned h member)) proper fails

namespace Blocks

def topStore : Store := (Call.run store (.leaf .conceptTop)).2

theorem topStore_reachable : topStore.Reachable [⟨.concept, 1⟩] := by
  have top := store_reachable.call (.leaf .conceptTop)
    (fun _ member => absurd member List.not_mem_nil) trivial
  have issued : (Call.run store (.leaf .conceptTop)).1 = [⟨.concept, 1⟩] := by decide +kernel
  rwa [issued] at top

/-- The second operand is refused when the first has been built. -/
def halfRead : Call := .read "c_and(c_bot, c_none)"

theorem halfRead_fails : halfRead.Fails topStore :=
  ⟨.unreadable "c_and(c_bot, c_none)" (.unknownRule "c_none"), by decide +kernel⟩

end Blocks

theorem handles_permanent_blocks :
    Blocks.topStore.Keeps (Blocks.halfRead.run Blocks.topStore).2 ⟨.concept, 1⟩ ∧
      Blocks.halfRead.Leaves Blocks.topStore (Blocks.halfRead.run Blocks.topStore).2 ∧
      (Blocks.halfRead.run Blocks.topStore).2.size = 2 := by
  have owned : ∀ h ∈ Blocks.halfRead.arguments, h ∈ [(⟨.concept, 1⟩ : Handle)] :=
    fun _ member => absurd member List.not_mem_nil
  obtain ⟨keeps, leaves⟩ := Blocks.topStore_reachable.handles_permanent
  have continues := Continues.call (s := Blocks.topStore) .here Blocks.halfRead owned trivial
  exact ⟨(keeps _ _ continues _ (List.mem_singleton_self _)).1,
    leaves Blocks.halfRead owned trivial Blocks.halfRead_fails, by decide +kernel⟩

end Store
end PlanFeatures
