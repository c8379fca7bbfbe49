import Mathlib.Combinatorics.Enumerative.DoubleCounting
import PlanFeatures.Proofs.Generation.Relaxation

/-!
# Larger samples

More states tell more expressions apart, so a run over a larger sample keeps other
representatives, in other layers.  What is kept over the smaller sample has distinct operands
there, and operands that differ in a state of the smaller sample differ in the larger one.
So the larger run, when it is completed, has kept something for each of those trees.  Two
features of the smaller run differ in a state of its sample, so nothing stands for both.
-/

namespace PlanFeatures

/-- Operands that are distinct over some states are distinct over more. -/
theorem Expr.Distinct.enlarge {v : Vocabulary} {few more : List State} {e : Expr}
    (distinct : e.Distinct few) (larger : few ⊆ more) (sample : ∀ s ∈ more, s.Over v)
    (formed : e.Over v) : e.Distinct more := by
  intro op a b part needed same
  -- Operands with one vector over more states agree in all of them, so in the few as well.
  apply distinct op a b part needed
  obtain ⟨formedA, _⟩ := (formed.part part).binary
  obtain ⟨vector, value⟩ := Expr.vector_ok sample formedA
  have agree : a.Agree more b := Expr.agree_of_vector value (same ▸ value)
  have fewer : a.Agree few b := fun s member => agree s (larger member)
  exact fewer.vector_eq

/-- What a feature is to the owner of one store, `g` is to the owner of another: it is of the
same kind, it has the same value in every state of a sample, and it is not more complex. -/
structure Feature.MatchedBy (states : List State) (store₁ store₂ : Store) (f g : Feature) :
    Prop where
  kind : g.handle.kind = f.handle.kind
  complexity : g.complexity ≤ f.complexity
  value : ∀ state ∈ states, ∃ x, f.value store₁ state = .ok x ∧ g.value store₂ state = .ok x

namespace Session
variable {base₁ base₂ : Store} {few more : List State} {config : Config} {k : Nat}
  {s₁ s₂ : Session}

/-- A completed run over more states has a match for every feature of a run over fewer. -/
theorem Sound.exists_match (sound₁ : s₁.Sound base₁ few config k)
    (sound₂ : s₂.Sound base₂ more config (config.limits.max + 1))
    (done₂ : s₂.Done base₂ more config (config.limits.max + 1))
    (valid : config.validate = .ok ()) (vocabulary : base₁.vocabulary = base₂.vocabulary)
    (larger : few ⊆ more) (sample : ∀ state ∈ more, state.Over base₂.vocabulary) {f : Feature}
    (member : f ∈ s₁.features) :
    ∃ g ∈ s₂.features, f.MatchedBy few s₁.store s₂.store g := by
  obtain ⟨t, has, stands, feature, complexity, admitted⟩ := sound₁.exists_tree member
  have formed : t.Over base₂.vocabulary := by
    rw [← vocabulary, ← sound₁.vocabulary]
    exact stands.formed
  -- The second run has kept something for the tree of the feature.
  obtain ⟨h, vector, kept, kind, value, bound⟩ := sound₂.keeps_of_expressible done₂ sample
    (Config.concept_pos valid) formed (vocabulary ▸ admitted.counted) admitted.expressible
    (Or.inr (admitted.distinct.enlarge larger sample formed))
  have kinds : h.kind = f.handle.kind := kind.trans stands.kind
  obtain ⟨g, member', rfl⟩ := sound₂.emitted.mem.mpr ⟨kinds ▸ feature, vector, kept⟩
  obtain ⟨u, stands', value'⟩ := (sound₂.representatives.denotes kept).tree
  have agree := Expr.agree_of_vector value value'
  have sample₂ : ∀ state ∈ more, state.Over s₂.store.vocabulary := sound₂.vocabulary ▸ sample
  have sample₁ : ∀ state ∈ few, state.Over s₁.store.vocabulary := by
    intro state inFew
    rw [sound₁.vocabulary, vocabulary]
    exact sample state (larger inFew)
  refine ⟨g, member', kinds, ?_, ?_⟩
  · rw [complexity, ← sound₂.emitted.counted g member']
    exact bound
  · intro state inFew
    have inMore := larger inFew
    obtain ⟨d, x, evaluated, found, shape⟩ := sound₁.exists_value sample₁ member inFew
    obtain ⟨d', x', evaluated', found', shape'⟩ := sound₂.exists_value sample₂ member' inMore
    -- Both trees denote the same in all states of the larger sample.
    rw [sound₁.wellFormed.evaluate_eq (sample₁ state inFew) has stands] at evaluated
    rw [sound₂.wellFormed.evaluate_eq (sample₂ state inMore) (sound₂.has_kept kept) stands',
      ← agree state inMore, evaluated] at evaluated'
    cases evaluated'
    cases shape.symm.trans shape'
    exact ⟨x, found, found'⟩

/-- Nothing matches two features of a run. -/
theorem Sound.eq_of_matched (sound : s₁.Sound base₁ few config k)
    (sample : ∀ state ∈ few, state.Over base₁.vocabulary) {store : Store} {f f' g : Feature}
    (member : f ∈ s₁.features) (member' : f' ∈ s₁.features)
    (first : f.MatchedBy few s₁.store store g) (second : f'.MatchedBy few s₁.store store g) :
    f = f' := by
  have sample₁ : ∀ state ∈ few, state.Over s₁.store.vocabulary := sound.vocabulary ▸ sample
  obtain ⟨i, placeI⟩ := Array.mem_iff_getElem?.mp member
  obtain ⟨j, placeJ⟩ := Array.mem_iff_getElem?.mp member'
  by_cases same : i = j
  · subst same
    exact Option.some.inj (placeI.symm.trans placeJ)
  · have kind := first.kind.symm.trans second.kind
    obtain ⟨state, inSample, differ⟩ := sound.features_differ sample₁ placeI placeJ same kind
    obtain ⟨x, value, here⟩ := first.value state inSample
    obtain ⟨y, value', there⟩ := second.value state inSample
    rw [value, value', ← here, ← there] at differ
    exact absurd rfl differ

theorem Sound.nodup_features (sound : s₁.Sound base₁ few config k) :
    s₁.features.toList.Nodup := by
  apply List.Nodup.of_map Feature.handle
  rw [sound.emitted.handles, List.nodup_reverse]
  exact sound.representatives.nodup.filter _

end Session

/-- Items that are matched by different items of a list are not more than those. -/
theorem length_le_of_matched {α β : Type} [DecidableEq α] [DecidableEq β] {R : α → β → Prop}
    {as : List α} {bs : List β} (nodup : as.Nodup) (total : ∀ a ∈ as, ∃ b ∈ bs, R a b)
    (apart : ∀ a ∈ as, ∀ a' ∈ as, ∀ b, R a b → R a' b → a = a') : as.length ≤ bs.length := by
  have fewer : as.toFinset.card ≤ bs.toFinset.card := by
    apply Finset.card_le_card_of_forall_subsingleton R
    · intro a member
      obtain ⟨b, inside, related⟩ := total a (List.mem_toFinset.mp member)
      exact ⟨b, List.mem_toFinset.mpr inside, related⟩
    · rintro b _ a ⟨member, related⟩ a' ⟨member', related'⟩
      exact apart a (List.mem_toFinset.mp member) a' (List.mem_toFinset.mp member') b related
        related'
  rw [List.toFinset_card_of_nodup nodup] at fewer
  exact Nat.le_trans fewer bs.toFinset_card_le

/-- The number of features of a kind. -/
def Generation.count (g : Generation) (kind : Kind) : Nat :=
  g.features.countP fun f => f.handle.kind = kind

/-- Two runs with one configuration, from stores over one vocabulary, the second of which has
all states of the first in its sample.  If it is completed, it has a match for every feature
of the first, whatever the status of that one.  Different features have different matches, so
the second run has at least as many features of each kind. -/
theorem larger_sample_keeps_features {store₁ store₂ : Store} {issued₁ issued₂ : List Handle}
    (reachable₁ : store₁.Reachable issued₁) (reachable₂ : store₂.Reachable issued₂)
    (vocabulary : store₁.vocabulary = store₂.vocabulary) {config : Config}
    (valid : config.validate = .ok ()) (clock₁ clock₂ : Clock) {few more : List State}
    (larger : few ⊆ more) (accepted₁ : checkSample store₁.vocabulary few = .ok ())
    (accepted₂ : checkSample store₂.vocabulary more = .ok ())
    (made : ∀ state ∈ more, state.problem.Made) :
    ∃ g₁ g₂ store₁' store₂', generate config clock₁ few store₁ = (.ok g₁, store₁') ∧
      generate config clock₂ more store₂ = (.ok g₂, store₂') ∧
      (g₂.status = .completed →
        (∀ f ∈ g₁.features, ∃ g ∈ g₂.features, f.MatchedBy few store₁' store₂' g) ∧
        (∀ f ∈ g₁.features, ∀ f' ∈ g₁.features, ∀ g, f.MatchedBy few store₁' store₂' g →
          f'.MatchedBy few store₁' store₂' g → f = f') ∧
        ∀ kind, g₁.count kind ≤ g₂.count kind) := by
  have made₁ : ∀ state ∈ few, state.problem.Made := fun state member => made state (larger member)
  have sample₁ := over_of_checkSample accepted₁ made₁
  have sample₂ := over_of_checkSample accepted₂ made
  obtain ⟨g₁, result₁, features₁, _⟩ :=
    generate_ok config clock₁ reachable₁.wellFormed valid accepted₁ made₁
  obtain ⟨g₂, result₂, features₂, finished⟩ :=
    generate_ok config clock₂ reachable₂.wellFormed valid accepted₂ made
  obtain ⟨k, sound₁⟩ := after_sound config clock₁ reachable₁.wellFormed sample₁
  refine ⟨g₁, g₂, _, _, result₁, result₂, fun completed => ?_⟩
  obtain ⟨sound₂, done₂⟩ := finished completed
  generalize Session.after config clock₁ few store₁ = s₁ at features₁ sound₁
  generalize Session.after config clock₂ more store₂ = s₂ at features₂ sound₂ done₂
  have total : ∀ f ∈ g₁.features, ∃ g ∈ g₂.features, f.MatchedBy few s₁.store s₂.store g := by
    intro f member
    rw [features₁, Array.mem_toList_iff] at member
    obtain ⟨g, member', matched⟩ :=
      sound₁.exists_match sound₂ done₂ valid vocabulary larger sample₂ member
    exact ⟨g, features₂ ▸ Array.mem_toList_iff.mpr member', matched⟩
  have apart : ∀ f ∈ g₁.features, ∀ f' ∈ g₁.features, ∀ g, f.MatchedBy few s₁.store s₂.store g →
      f'.MatchedBy few s₁.store s₂.store g → f = f' := by
    intro f member f' member' g first second
    rw [features₁, Array.mem_toList_iff] at member member'
    exact sound₁.eq_of_matched sample₁ member member' first second
  refine ⟨total, apart, fun kind => ?_⟩
  have nodup : g₁.features.Nodup := features₁ ▸ sound₁.nodup_features
  rw [Generation.count, Generation.count, List.countP_eq_length_filter,
    List.countP_eq_length_filter]
  apply length_le_of_matched (nodup.filter _)
  · intro f member
    obtain ⟨inside, ofKind⟩ := List.mem_filter.mp member
    obtain ⟨g, member', matched⟩ := total f inside
    refine ⟨g, List.mem_filter.mpr ⟨member', ?_⟩, matched⟩
    rw [matched.kind]
    exact ofKind
  · intro f member f' member' g first second
    exact apart f (List.mem_of_mem_filter member) f' (List.mem_of_mem_filter member') g first second

/-- With the first lamp lit, no lamps and unlit lamps are not told from each other; the second
state, in which no lamp is lit, makes a third feature of them. -/
theorem larger_sample_keeps_features_lamps :
    ∃ g₁ g₂ store₁ store₂,
      generate Lamps.boolean Lamps.clock (Lamps.states.take 1) Lamps.store = (.ok g₁, store₁) ∧
        generate Lamps.boolean Lamps.clock Lamps.states Lamps.store = (.ok g₂, store₂) ∧
        (∀ f ∈ g₁.features, ∃ g ∈ g₂.features,
          f.MatchedBy (Lamps.states.take 1) store₁ store₂ g) ∧
        g₁.count .boolean = 2 ∧ g₂.count .boolean = 3 ∧
        g₁.count .boolean ≤ g₂.count .boolean := by
  have some₁ : (generate Lamps.boolean Lamps.clock (Lamps.states.take 1)
      Lamps.store).1.toOption.map (fun g => g.count .boolean) = some 2 := by decide +kernel
  have some₂ : (generate Lamps.boolean Lamps.clock Lamps.states Lamps.store).1.toOption.map
      (fun g => (g.status, g.count .boolean)) = some (.completed, 3) := by decide +kernel
  have valid : Lamps.boolean.validate = .ok () := by decide +kernel
  have accepted₁ : checkSample Lamps.vocabulary (Lamps.states.take 1) = .ok () := by decide +kernel
  have accepted₂ : checkSample Lamps.vocabulary Lamps.states = .ok () := by decide +kernel
  obtain ⟨g₁, g₂, store₁, store₂, run₁, run₂, kept⟩ :=
    larger_sample_keeps_features Lamps.store_reachable Lamps.store_reachable rfl valid Lamps.clock
      Lamps.clock (List.take_subset 1 Lamps.states) accepted₁ accepted₂ Lamps.states_made
  rw [run₁] at some₁
  rw [run₂] at some₂
  obtain ⟨completed, three⟩ := Prod.mk.inj (Option.some.inj some₂)
  obtain ⟨total, _, counts⟩ := kept completed
  exact ⟨g₁, g₂, store₁, store₂, run₁, run₂, total, Option.some.inj some₁, three,
    counts .boolean⟩

end PlanFeatures
