import PlanFeatures.Proofs.Generation.Session

/-!
# Steps of a run

Every step of a run keeps the invariant.  Adding a candidate, computing its vector
and registering it never fail: the operands of candidates were kept, so they are in
the store and their vectors are known.  The only ways to stop are the two limits,
and a run that stops is sound as well.
-/

namespace PlanFeatures

/-! ## Candidates at hand -/

/-- An expression with its vector that may be registered in layer `k`. -/
structure Ready (states : List State) (config : Config) (k : Nat) (store : Store) (h : Handle)
    (vector : ExtensionVector) : Prop where
  denotes : store.Denotes states h vector
  complexity : store.complexity h = k
  allowed : ∀ {t}, store.tree? h = some t → t.Admitted store.vocabulary config states

theorem BinaryOp.left_eq_right_of_needsDistinct {op : BinaryOp} (needed : op.needsDistinct = true) :
    op.left = op.right := by
  revert needed
  cases op <;> decide

namespace Session
variable {base : Store} {states : List State} {config : Config} {k : Nat} {s : Session}
  {v : Vocabulary} {rule : Rule} {node : Node} {h : Handle}

section
variable (sound : s.Sound base states config k)
include sound

theorem Sound.has_kept {vector : ExtensionVector} (member : (h, vector) ∈ s.representatives.kept) :
    s.store.Has h :=
  (sound.representatives.denotes member).has

theorem Sound.represents_kept {vector : ExtensionVector} {x : Expr}
    (member : (h, vector) ∈ s.representatives.kept) (tree : s.store.trees h.index = some x) :
    s.store.Represents h x := by
  obtain ⟨t, stands⟩ := sound.wellFormed.represents (sound.has_kept member)
  cases stands.tree.symm.trans tree
  exact stands

theorem Sound.operand_kept {j : Nat} (candidate : s.frontier.Candidate v rule j node) :
    ∀ g ∈ node.operands, ∃ vector, (g, vector) ∈ s.representatives.kept := by
  intro g operand
  obtain ⟨i, _, member⟩ := candidate.operands g operand
  obtain ⟨_, vector, kept, _⟩ := sound.layered.of_mem_layer member
  exact ⟨vector, kept⟩

theorem Sound.over_of_candidate (candidate : s.frontier.Candidate base.vocabulary rule k node)
    {t : Expr} (tree : node.tree? s.store.trees = some t) : t.Over base.vocabulary := by
  have operands : ∀ g ∈ node.operands, ∀ x, s.store.trees g.index = some x →
      s.store.Represents g x := by
    intro g operand x found
    obtain ⟨vector, kept⟩ := sound.operand_kept candidate g operand
    exact sound.represents_kept kept found
  constructor
  · exact Store.wellKinded_of_tree? tree fun g operand x found =>
      ⟨(operands g operand x found).kind, (operands g operand x found).formed.wellKinded⟩
  · refine Store.declared_of_tree? candidate.declared tree fun g operand x found => ?_
    rw [← sound.vocabulary]
    exact (operands g operand x found).formed.declared

theorem Sound.applications_of_candidate {j : Nat} (candidate : s.frontier.Candidate v rule j node) :
    Store.applications s.store.complexity node = j := by
  refine candidate.applications _ fun g _ i member => ?_
  obtain ⟨_, _, _, complexity⟩ := sound.layered.of_mem_layer member
  exact complexity

theorem Sound.complexity_of_candidate {j : Nat} (candidate : s.frontier.Candidate v rule j node)
    {t : Expr} (tree : node.tree? s.store.trees = some t) : t.complexity = j := by
  rw [← sound.applications_of_candidate candidate]
  refine (Store.applications_of_tree? tree fun g operand x found => ?_).symm
  obtain ⟨vector, kept⟩ := sound.operand_kept candidate g operand
  exact Store.complexity_of_complexity? (sound.represents_kept kept found).complexity

theorem Sound.allowed_of_candidate (candidate : s.frontier.Candidate base.vocabulary rule k node)
    (enabled : config.rules.isEnabled rule = true) (within : k ≤ config.limits.forRule rule)
    {t : Expr} (tree : node.tree? s.store.trees = some t) :
    t.Admitted base.vocabulary config states := by
  have complexity := sound.complexity_of_candidate candidate tree
  have operands : ∀ g ∈ node.operands, ∀ x, s.store.trees g.index = some x →
      x.Admitted base.vocabulary config states := by
    intro g operand x found
    obtain ⟨vector, kept⟩ := sound.operand_kept candidate g operand
    exact sound.allowed kept found
  constructor
  · refine Node.expressible_of_tree? tree ?_ ?_ candidate.ascending fun g operand x found =>
      (operands g operand x found).expressible
    · rw [candidate.rule]
      exact enabled
    · rw [candidate.rule, complexity]
      exact within
  · exact Node.counted_of_tree? tree candidate.counted fun g operand x found =>
      (operands g operand x found).counted
  · refine Node.distinct_of_tree? tree ?_ fun g operand x found =>
      (operands g operand x found).distinct
    rintro op a b x y rfl hx hy needed same
    -- Two representatives of one kind with one vector would be the same.
    obtain ⟨vector, keptA⟩ := sound.operand_kept candidate _ (Node.left_mem op a b)
    obtain ⟨vector', keptB⟩ := sound.operand_kept candidate _ (Node.right_mem op a b)
    have valueA := (sound.representatives.denotes keptA).vector_eq hx
    have valueB := (sound.representatives.denotes keptB).vector_eq hy
    obtain rfl : vector = vector' := Except.ok.inj (valueA.symm.trans (same.trans valueB))
    have kinds := BinaryOp.left_eq_right_of_needsDistinct needed
    have handles := sound.representatives.handle_unique keptA keptB kinds
    exact candidate.distinct op a b rfl needed (congrArg Handle.index handles)

/-- A candidate that has been added to the store, with its vector, may be registered. -/
theorem Sound.ready (sample : ∀ state ∈ states, state.Over base.vocabulary)
    (candidate : s.frontier.Candidate base.vocabulary rule k node)
    (enabled : config.rules.isEnabled rule = true) (within : k ≤ config.limits.forRule rule)
    (interned : s.store.Interned h node) :
    ∃ vector, s.representatives.evaluator.compute node = .ok vector ∧
      Ready states config k s.store h vector := by
  obtain ⟨t, u, tree, stands, alike⟩ := interned.tree
  have formed := sound.over_of_candidate candidate tree
  have formedU := stands.formed
  rw [sound.vocabulary] at formedU
  obtain ⟨vector, value⟩ := Expr.vector_ok sample formed
  refine ⟨vector, ?_, ⟨interned.has, u, stands, ?_⟩, ?_, ?_⟩
  · rw [← value]
    exact sound.representatives.compute_eq sample formed tree (sound.operand_kept candidate)
  · rw [(alike.agree sample formedU).vector_eq, value]
  · rw [Store.complexity_of_complexity? stands.complexity, alike.complexity_eq]
    exact sound.complexity_of_candidate candidate tree
  · intro x found
    cases found.symm.trans stands.tree
    rw [sound.vocabulary]
    exact (sound.allowed_of_candidate candidate enabled within tree).alike alike.symm sample formed

end

/-! ## Sessions between steps -/

/-- Every expression that has been considered is logged or pending. -/
def Settled (s : Session) (pending : List (Handle × Node)) : Prop :=
  ∀ i, s.representatives.seen.contains i = true →
    (∃ h registration, (h, registration) ∈ s.log ∧ h.index = i) ∨ ∃ p ∈ pending, p.1.index = i

/-- Where a run may stop: at one of its limits, and soundly. -/
def Halted (base : Store) (states : List State) (config : Config) (e : Stop) (s : Session) : Prop :=
  (∀ g, e ≠ .failure g) ∧ ∃ k, s.Sound base states config k

end Session

namespace Search
variable {base : Store} {states : List State} {config : Config} {k : Nat} {s : Session}
  {node : Node}

/-! ## Looking at the clock -/

theorem checkClock_outcome (sound : s.Sound base states config k) (clock : Clock) :
    Outcome (checkClock clock) s
      (fun _ s' => s'.Sound base states config k ∧ s.Onward s' ∧ s'.log = s.log ∧
        s'.representatives = s.representatives)
      (Session.Halted base states config) := by
  have looked := sound.aside s.statistics (s.looks + 1)
  simp only [checkClock, Outcome.bind_iff, Outcome.modifyGet_iff]
  split
  next => exact ⟨by simp, k, looked⟩
  next => exact ⟨looked, ⟨.refl _, rfl, id, id⟩, rfl, rfl⟩

/-! ## Considering candidates -/

theorem intern_outcome (sound : s.Sound base states config k)
    (operands : ∀ g ∈ node.operands, s.store.Has g) (declared : node.Declared base.vocabulary) :
    Outcome (intern node) s
      (fun h s' => ∃ store, s.store.Inserted node h store ∧ s' = { s with store })
      (fun _ _ => False) := by
  have declared' : node.Declared s.store.vocabulary := sound.vocabulary ▸ declared
  have built := Build.intern_outcome sound.wellFormed operands declared'
  simp only [intern, Outcome.bind_iff, Outcome.modifyGet_iff]
  rcases run : (Build.intern node).run s.store with ⟨result, store⟩
  cases result with
  | ok h => exact ⟨store, built.ok run, rfl⟩
  | error e => exact (built.error run).elim

/-- What has become of a run when a candidate has been considered. -/
structure Considered (base : Store) (states : List State) (config : Config) (k : Nat)
    (node : Node) (s : Session) (result : Option (Handle × Node)) (s' : Session) : Prop where
  sound : s'.Sound base states config k
  onward : s.Onward s'
  log : s'.log = s.log
  interned : ∃ h, s'.store.Interned h node ∧ s'.representatives.seen.contains h.index = true ∧
    (result = some (h, node) ∨ result = none) ∧
    ∀ i, s'.representatives.seen.contains i = true →
      s.representatives.seen.contains i = true ∨ i = h.index ∧ result = some (h, node)

theorem consider_outcome (sound : s.Sound base states config k)
    (operands : ∀ g ∈ node.operands, s.store.Has g) (declared : node.Declared base.vocabulary)
    (rule : Rule) :
    Outcome (consider rule node) s (Considered base states config k node s)
      (fun _ _ => False) := by
  simp only [consider, count, Outcome.bind_iff, Outcome.modify_iff, Outcome.modifyGet_iff]
  refine (intern_outcome sound operands declared).imp_done ?_
  rintro h _ ⟨store, added, rfl⟩
  have interned := added.interned sound.wellFormed operands
  have marked := fun statistics =>
    ((sound.grow added.later).markSeen h).aside statistics s.looks
  have onward : ∀ statistics, s.Onward
      ⟨store, (s.representatives.markSeen h).2, s.layer, s.frontier, s.features, statistics,
        s.looks, s.log⟩ := fun statistics =>
    ⟨added.grown, rfl, id, fun seen => by simp [Representatives.markSeen, seen]⟩
  have seen : ∀ i, (s.representatives.markSeen h).2.seen.contains i = true →
      s.representatives.seen.contains i = true ∨ i = h.index := by
    intro i member
    simp only [Representatives.markSeen, Std.TreeSet.contains_insert, Bool.or_eq_true,
      beq_iff_eq, Nat.compare_eq_eq] at member
    exact member.symm.imp id Eq.symm
  have here : (s.representatives.markSeen h).2.seen.contains h.index = true := by
    simp [Representatives.markSeen]
  split
  next =>
    exact ⟨marked _, onward _, rfl, h, interned, here, Or.inl rfl, fun i member =>
      (seen i member).imp id fun same => ⟨same, rfl⟩⟩
  next old =>
    refine ⟨marked _, onward _, rfl, h, interned, here, Or.inr rfl, fun i member => Or.inl ?_⟩
    rcases seen i member with before | rfl
    · exact before
    · simpa [Representatives.markSeen] using old

/-! ## Registering candidates -/

/-- What has become of a run when a candidate has been registered. -/
structure Registered (base : Store) (states : List State) (config : Config) (k : Nat)
    (h : Handle) (s s' : Session) : Prop where
  sound : s'.Sound base states config k
  onward : s.Onward s'
  store : s'.store = s.store
  seen : s'.representatives.seen = s.representatives.seen
  log : ∀ {x}, x ∈ s.log → x ∈ s'.log
  logged : ∃ registration, (h, registration) ∈ s'.log

theorem push_feature (l : Layer) {h : Handle} (feature : h.kind.isFeature = true) :
    l.push h = l := by
  cases of : h.kind <;> simp_all [Layer.push, Kind.isFeature]

theorem register_outcome (sound : s.Sound base states config k) {h : Handle}
    {vector : ExtensionVector} (ready : Ready states config k s.store h vector)
    (featureLimit : Nat) (rule : Rule) :
    Outcome (register featureLimit rule h vector) s
      (fun _ s' => Registered base states config k h s s')
      (Session.Halted base states config) := by
  simp only [register, count, Outcome.bind_iff, Outcome.modify_iff, Outcome.modifyGet_iff]
  rcases Representatives.insert_cases s.representatives h vector with
    ⟨g, kept, kind, inserted⟩ | ⟨fresh, inserted⟩
  · -- What was kept is from this layer or a closed one, hence not more complex.
    have complexity : s.store.complexity g ≤ s.store.complexity h :=
      ready.complexity ▸ sound.layered.bound kept
    have logged := sound.logged.duplicate ready.denotes (sound.representatives.denotes kept) kept
      kind complexity
    simp only [inserted, reduceCtorEq, if_false, Outcome.pure_iff]
    exact {
      sound := ⟨sound.later, sound.representatives, sound.allowed, sound.layered, sound.emitted,
        logged⟩
      onward := ⟨.refl _, rfl, id, id⟩
      store := rfl
      seen := rfl
      log := List.mem_cons_of_mem _
      logged := ⟨_, List.mem_cons_self⟩ }
  · have representatives := sound.representatives.keep ready.denotes fresh
    have allowed : ∀ {g w t}, (g, w) ∈ (s.representatives.keep h vector).kept →
        s.store.tree? g = some t → t.Admitted base.vocabulary config states := by
      intro g w t member tree
      rcases List.mem_cons.mp member with new | old
      · cases new; exact sound.vocabulary ▸ ready.allowed tree
      · exact sound.allowed old tree
    have layered := sound.layered.keep vector ready.complexity
    have logged := sound.logged.keep ready.denotes fresh
    simp only [inserted, if_true]
    cases feature : h.kind.isFeature with
    | true =>
      obtain ⟨t, stands⟩ := sound.wellFormed.represents ready.denotes.has
      have made : Feature.ofHandle? s.store h = some ⟨h, t.complexity, s.store.text h⟩ := by
        simp [Feature.ofHandle?, feature, stands.complexity]
      have complexity := Store.complexity_of_complexity? stands.complexity
      have emitted := sound.emitted.keep_feature vector ⟨h, t.complexity, s.store.text h⟩ feature
        complexity
      -- Features are no operands, so the layer at hand stays as it is.
      rw [push_feature s.layer feature] at layered
      simp only [emit, made, Outcome.bind_iff, Outcome.get_iff, Outcome.modify_iff, if_true]
      split
      next =>
        exact ⟨by simp, k, sound.later, representatives, allowed, layered,
          emitted, logged⟩
      next =>
        exact {
          sound := ⟨sound.later, representatives, allowed, layered, emitted, logged⟩
          onward := ⟨.refl _, rfl, List.mem_cons_of_mem _, id⟩
          store := rfl
          seen := rfl
          log := List.mem_cons_of_mem _
          logged := ⟨_, List.mem_cons_self⟩ }
    | false =>
      have emitted := sound.emitted.keep_operand vector feature
      simp only [Bool.false_eq_true, if_false, Outcome.modify_iff]
      exact {
        sound := ⟨sound.later, representatives, allowed, layered, emitted, logged⟩
        onward := ⟨.refl _, rfl, List.mem_cons_of_mem _, id⟩
        store := rfl
        seen := rfl
        log := List.mem_cons_of_mem _
        logged := ⟨_, List.mem_cons_self⟩ }

end Search
end PlanFeatures
