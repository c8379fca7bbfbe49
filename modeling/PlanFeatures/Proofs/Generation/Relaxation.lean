import PlanFeatures.Proofs.Generation.Exhaustive

/-!
# Larger configurations

With higher limits or more rules a run may keep other expressions, in other layers, and
build all later candidates from those.  Still nothing is lost: each feature of the
smaller run has a tree that its configuration allows and that has distinct operands.
The larger configuration allows the tree as well, and whether operands are distinct
depends on the sample alone.  So the larger run, when it is completed, has kept
something for that tree.
-/

namespace PlanFeatures

variable {base : Store} {states : List State} {config : Config} {k : Nat} {s : Session}

/-- A feature has a tree that the configuration allows. -/
theorem Session.Sound.exists_tree (sound : s.Sound base states config k) {f : Feature}
    (member : f ∈ s.features) :
    ∃ t, s.store.Has f.handle ∧ s.store.Represents f.handle t ∧ f.handle.kind.isFeature = true ∧
      f.complexity = t.complexity ∧ t.Admitted base.vocabulary config states := by
  obtain ⟨feature, vector, kept⟩ := sound.emitted.mem.mp ⟨f, member, rfl⟩
  have has := sound.has_kept kept
  obtain ⟨t, stands⟩ := sound.wellFormed.represents has
  refine ⟨t, has, stands, feature, ?_, sound.allowed kept stands.tree⟩
  rw [← sound.emitted.counted f member, Store.complexity_of_complexity? stands.complexity]

/-- Two runs over one sample, from stores over one vocabulary: if every limit of the first
is at most that of the second, every rule that is on in the first is on in the second, and
the second run is completed, then each feature of the first has its match among those of
the second, of the same kind, with the same values and not more complex. -/
theorem relaxation_keeps_features {store₁ store₂ : Store} {issued₁ issued₂ : List Handle}
    (reachable₁ : store₁.Reachable issued₁) (reachable₂ : store₂.Reachable issued₂)
    (vocabulary : store₁.vocabulary = store₂.vocabulary) {config₁ config₂ : Config}
    (limits : config₁.limits.Le config₂.limits)
    (rules : ∀ rule, config₁.rules.isEnabled rule = true → config₂.rules.isEnabled rule = true)
    {clock₁ clock₂ : Clock} {states : List State} (made : ∀ state ∈ states, state.problem.Made)
    {g₁ g₂ : Generation} {store₁' store₂' : Store}
    (run₁ : generate config₁ clock₁ states store₁ = (.ok g₁, store₁'))
    (run₂ : generate config₂ clock₂ states store₂ = (.ok g₂, store₂'))
    (completed : g₂.status = .completed) {f : Feature} (member : f ∈ g₁.features) :
    ∃ f' ∈ g₂.features, f'.handle.kind = f.handle.kind ∧ f'.complexity ≤ f.complexity ∧
      ∀ state ∈ states, ∃ x, f.value store₁' state = .ok x ∧ f'.value store₂' state = .ok x := by
  obtain ⟨_, accepted₁, rfl, features₁, _⟩ := generated_of_eq reachable₁.wellFormed made run₁
  obtain ⟨valid₂, accepted₂, rfl, features₂, finished₂⟩ :=
    generated_of_eq reachable₂.wellFormed made run₂
  have over₁ := over_of_checkSample accepted₁ made
  have over₂ := over_of_checkSample accepted₂ made
  obtain ⟨k, sound₁⟩ := after_sound config₁ clock₁ reachable₁.wellFormed over₁
  obtain ⟨sound₂, done₂⟩ := finished₂ completed
  rw [features₁, Array.mem_toList_iff] at member
  obtain ⟨t, has, stands, feature, complexity, admitted⟩ := sound₁.exists_tree member
  have formed : t.Over store₂.vocabulary := by
    rw [← vocabulary, ← sound₁.vocabulary]
    exact stands.formed
  obtain ⟨h, vector, kept, kind, value, bound⟩ := sound₂.keeps_of_expressible done₂ over₂
    (Config.concept_pos valid₂) formed (vocabulary ▸ admitted.counted)
    (admitted.expressible.mono limits rules) (Or.inr admitted.distinct)
  have kinds : h.kind = f.handle.kind := kind.trans stands.kind
  obtain ⟨f', member', rfl⟩ := sound₂.emitted.mem.mpr ⟨kinds ▸ feature, vector, kept⟩
  obtain ⟨u, stands', value'⟩ := (sound₂.representatives.denotes kept).tree
  refine ⟨f', features₂ ▸ Array.mem_toList_iff.mpr member', kinds, ?_, ?_⟩
  · rw [← sound₂.emitted.counted f' member', complexity]
    exact bound
  · intro state inSample
    have sample₁ : ∀ state ∈ states, state.Over _ := sound₁.vocabulary ▸ over₁
    have sample₂ : ∀ state ∈ states, state.Over _ := sound₂.vocabulary ▸ over₂
    obtain ⟨d, x, evaluated, found, shape⟩ := sound₁.exists_value sample₁ member inSample
    obtain ⟨d', x', evaluated', found', shape'⟩ := sound₂.exists_value sample₂ member' inSample
    -- Both trees have the vector, so both features are read off one extension.
    have agree := Expr.agree_of_vector value value' state inSample
    rw [sound₁.wellFormed.evaluate_eq (sample₁ state inSample) has stands] at evaluated
    rw [sound₂.wellFormed.evaluate_eq (sample₂ state inSample) (sound₂.has_kept kept) stands']
      at evaluated'
    obtain rfl : d = d' := Except.ok.inj (evaluated.symm.trans (agree.trans evaluated'))
    obtain rfl : x = x' := Option.some.inj (shape.symm.trans shape')
    exact ⟨x, found, found'⟩

/-- Whether any lamp is lit, without and with complements and intersections. -/
theorem relaxation_keeps_features_lamps :
    ∃ g₁ g₂ store₁ store₂,
      generate (Lamps.config [.conceptPrimitive, .booleanEmpty] ⟨1, 1, 2, 1, 1⟩) Lamps.clock
          Lamps.states Lamps.store = (.ok g₁, store₁) ∧
        generate Lamps.boolean Lamps.clock Lamps.states Lamps.store = (.ok g₂, store₂) ∧
        ∃ f ∈ g₁.features, ∃ f' ∈ g₂.features, f'.complexity ≤ f.complexity ∧
          ∀ state ∈ Lamps.states, ∃ x, f.value store₁ state = .ok x ∧
            f'.value store₂ state = .ok x := by
  have some₁ : (generate (Lamps.config [.conceptPrimitive, .booleanEmpty] ⟨1, 1, 2, 1, 1⟩)
      Lamps.clock Lamps.states Lamps.store).1.toOption.map (fun g => g.features.map Feature.handle)
        = some [⟨.boolean, 2⟩] := by decide +kernel
  have some₂ : (generate Lamps.boolean Lamps.clock Lamps.states Lamps.store).1.toOption.map
      Generation.status = some .completed := by decide +kernel
  obtain ⟨g₁, store₁, run₁, handles⟩ := exists_generate some₁
  obtain ⟨g₂, store₂, run₂, completed⟩ := exists_generate some₂
  obtain ⟨f, member⟩ : ∃ f, f ∈ g₁.features := by
    cases features : g₁.features with
    | nil => rw [features] at handles; cases handles
    | cons f _ => exact ⟨f, List.mem_cons_self⟩
  obtain ⟨f', member', _, complexity, values⟩ :=
    relaxation_keeps_features Lamps.store_reachable Lamps.store_reachable rfl
      ⟨by decide, by decide, by decide, by decide, by decide⟩
      (fun rule enabled => by revert enabled; cases rule <;> decide +kernel)
      Lamps.states_made run₁ run₂ completed member
  exact ⟨g₁, g₂, store₁, store₂, run₁, run₂, f, member, f', member', complexity, values⟩

end PlanFeatures
