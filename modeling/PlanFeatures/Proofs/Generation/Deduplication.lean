import PlanFeatures.Proofs.Store.Reachable

/-!
# Deduplication

What a run keeps is told apart by its values in the states of the sample, and what it
drops as a duplicate has the values of what it kept.  The values are those of the plain
evaluation of the stored expressions in single states, whatever was computed from nodes
and kept in the cache.
-/

namespace PlanFeatures

/-! ## Vectors and evaluation -/

section
variable {store : Store} {states : List State} {g h : Handle} {vector vector' : ExtensionVector}

/-- The entries of the vector of a stored expression are what it evaluates to. -/
theorem Store.Denotes.evaluate (denotes : store.Denotes states h vector) (wf : store.WellFormed)
    (sample : ∀ s ∈ states, s.Over store.vocabulary) :
    vector.length = states.length ∧ ∀ (i : Nat) (s : State), states[i]? = some s →
      ∃ d, store.evaluate h s = .ok d ∧ vector[i]? = some ⟨s.objectCount, d⟩ := by
  obtain ⟨t, stands, value⟩ := denotes.tree
  obtain ⟨length, places⟩ := Expr.vector_getElem? value
  refine ⟨length, fun i s found => ?_⟩
  obtain ⟨d, denoted, there⟩ := places i s found
  refine ⟨d, ?_, there⟩
  rw [wf.evaluate_eq (sample s (List.mem_of_getElem? found)) denotes.has stands, denoted]

/-- Two stored expressions have one vector exactly when they evaluate to the same in
every state. -/
theorem Store.Denotes.vector_eq_iff (first : store.Denotes states g vector)
    (second : store.Denotes states h vector') (wf : store.WellFormed)
    (sample : ∀ s ∈ states, s.Over store.vocabulary) :
    vector = vector' ↔ ∀ s ∈ states, store.evaluate g s = store.evaluate h s := by
  obtain ⟨t, standsG, valueG⟩ := first.tree
  obtain ⟨u, standsH, valueH⟩ := second.tree
  have agree_iff : t.Agree states u ↔ ∀ s ∈ states, store.evaluate g s = store.evaluate h s := by
    refine forall₂_congr fun s member => ?_
    rw [wf.evaluate_eq (sample s member) first.has standsG,
      wf.evaluate_eq (sample s member) second.has standsH]
  rw [← agree_iff]
  constructor
  · rintro rfl
    exact Expr.agree_of_vector valueG valueH
  · intro agree
    exact Except.ok.inj (valueG.symm.trans (agree.vector_eq.trans valueH))

/-- A boolean or numerical has a value wherever it evaluates to something of its kind. -/
theorem Feature.exists_value {f : Feature} {s : State} {d : Extension s.objectCount}
    (value : store.evaluate f.handle s = .ok d) (kind : d.kind = f.handle.kind)
    (feature : f.handle.kind.isFeature = true) :
    ∃ x, f.value store s = .ok x ∧ FeatureValue.ofExtension? d = some x := by
  rw [← kind] at feature
  cases d with
  | boolean b => exact ⟨.boolean b, by rw [Feature.value, value]; rfl, rfl⟩
  | numerical n => exact ⟨.numerical n, by rw [Feature.value, value]; rfl, rfl⟩
  | concept set => cases feature
  | role relation => cases feature

/-- Extensions of one kind with the same value are the same. -/
theorem FeatureValue.ofExtension?_inj {n : Nat} {d e : Extension n} {x : FeatureValue}
    (first : ofExtension? d = some x) (second : ofExtension? e = some x) : d = e := by
  cases d <;> cases e <;> simp_all [ofExtension?] <;> subst first <;> simp_all

end

/-! ## Histories -/

theorem History.suffix {store : Store} {states : List State}
    {later log : List (Handle × Registration)} (history : History store states (later ++ log)) :
    History store states log := by
  induction later with
  | nil => exact history
  | cons entry later ih =>
    cases history with
    | kept past _ _ => exact ih past
    | duplicate past _ _ _ _ _ => exact ih past

/-- A duplicate was logged after the expression that it duplicates, and that one before all
others of its kind with its vector. -/
theorem History.of_duplicate {store : Store} {states : List State}
    {later earlier : List (Handle × Registration)} {h g : Handle}
    (history : History store states (later ++ (h, .duplicate g) :: earlier)) :
    ∃ vector, store.Denotes states h vector ∧ store.Denotes states g vector ∧ g.kind = h.kind ∧
      store.complexity g ≤ store.complexity h ∧
      ∃ between before, earlier = between ++ (g, .kept) :: before ∧
        ∀ r registration, (r, registration) ∈ before → r.kind = g.kind →
          ∃ other, store.Denotes states r other ∧ other ≠ vector := by
  -- Seen from the duplicate, and then from the expression that it duplicates, which was
  -- logged as the first one of its kind with its vector.
  cases history.suffix with
  | @duplicate _ _ _ vector past denotes same kind complexity member =>
    obtain ⟨between, before, split⟩ := List.append_of_mem member
    refine ⟨vector, denotes, same, kind, complexity, between, before, split, ?_⟩
    rw [split] at past
    cases past.suffix with
    | kept _ denotes' first =>
      cases same.unique denotes'
      exact first

/-! ## The run -/

namespace Session
variable {base : Store} {states : List State} {config : Config} {k : Nat} {s : Session}
  (sound : s.Sound base states config k)
include sound

theorem Sound.feature_handles {i j : Nat} {f f' : Feature} (first : s.features[i]? = some f)
    (second : s.features[j]? = some f') (differ : i ≠ j) : f.handle ≠ f'.handle := by
  have nodup : (s.features.toList.map Feature.handle).Nodup := by
    rw [sound.emitted.handles, List.nodup_reverse]
    exact sound.representatives.nodup.filter _
  have placeI : (s.features.toList.map Feature.handle)[i]? = some f.handle := by
    simp [first]
  have placeJ : (s.features.toList.map Feature.handle)[j]? = some f'.handle := by
    simp [second]
  intro same
  rw [← same] at placeJ
  obtain ⟨boundI, valueI⟩ := List.getElem?_eq_some_iff.mp placeI
  obtain ⟨boundJ, valueJ⟩ := List.getElem?_eq_some_iff.mp placeJ
  exact differ ((List.Nodup.getElem_inj_iff nodup).mp (valueI.trans valueJ.symm))

/-- Different kept expressions of one kind differ in some state. -/
theorem Sound.exists_differ (sample : ∀ state ∈ states, state.Over s.store.vocabulary)
    {g h : Handle} {v w : ExtensionVector} (keptG : (g, v) ∈ s.representatives.kept)
    (keptH : (h, w) ∈ s.representatives.kept) (kind : g.kind = h.kind) (differ : g ≠ h) :
    ∃ state ∈ states, s.store.evaluate g state ≠ s.store.evaluate h state := by
  rcases Classical.em (∃ state ∈ states, s.store.evaluate g state ≠ s.store.evaluate h state) with
    found | none
  · exact found
  · have same : ∀ state ∈ states, s.store.evaluate g state = s.store.evaluate h state :=
      fun state member => Classical.byContradiction fun unequal => none ⟨state, member, unequal⟩
    have vectors := ((sound.representatives.denotes keptG).vector_eq_iff
      (sound.representatives.denotes keptH) sound.wellFormed sample).mpr same
    exact absurd (sound.representatives.handle_unique keptG (vectors ▸ keptH) kind) differ

theorem Sound.exists_value (sample : ∀ state ∈ states, state.Over s.store.vocabulary) {f : Feature}
    (member : f ∈ s.features) {state : State} (inSample : state ∈ states) :
    ∃ d x, s.store.evaluate f.handle state = .ok d ∧ f.value s.store state = .ok x ∧
      FeatureValue.ofExtension? d = some x := by
  obtain ⟨feature, vector, kept⟩ := sound.emitted.mem.mp ⟨f, member, rfl⟩
  have has := sound.has_kept kept
  obtain ⟨t, stands⟩ := sound.wellFormed.represents has
  obtain ⟨d, value, kind⟩ := Expr.denote_ok (sample state inSample) stands.formed
  have evaluated := (sound.wellFormed.evaluate_eq (sample state inSample) has stands).trans value
  obtain ⟨x, found, shape⟩ := Feature.exists_value evaluated (kind.trans stands.kind) feature
  exact ⟨d, x, evaluated, found, shape⟩

/-- Different features of one kind differ in their value in some state. -/
theorem Sound.features_differ (sample : ∀ state ∈ states, state.Over s.store.vocabulary) {i j : Nat}
    {f f' : Feature} (first : s.features[i]? = some f) (second : s.features[j]? = some f')
    (differ : i ≠ j) (kind : f.handle.kind = f'.handle.kind) :
    ∃ state ∈ states, f.value s.store state ≠ f'.value s.store state := by
  have member := Array.mem_of_getElem? first
  have member' := Array.mem_of_getElem? second
  obtain ⟨_, v, kept⟩ := sound.emitted.mem.mp ⟨f, member, rfl⟩
  obtain ⟨_, w, kept'⟩ := sound.emitted.mem.mp ⟨f', member', rfl⟩
  obtain ⟨state, inSample, unequal⟩ := sound.exists_differ sample kept kept' kind
    (sound.feature_handles first second differ)
  -- The value of a feature tells its extension.
  refine ⟨state, inSample, fun same => unequal ?_⟩
  obtain ⟨d, x, evaluated, value, shape⟩ := sound.exists_value sample member inSample
  obtain ⟨d', x', evaluated', value', shape'⟩ := sound.exists_value sample member' inSample
  obtain rfl : x = x' := Except.ok.inj (value.symm.trans (same.trans value'))
  rw [evaluated, evaluated', FeatureValue.ofExtension?_inj shape shape']

theorem Sound.of_duplicate (sample : ∀ state ∈ states, state.Over s.store.vocabulary)
    {later earlier : List (Handle × Registration)} {h g : Handle}
    (logged : s.log = later ++ (h, .duplicate g) :: earlier) :
    g.kind = h.kind ∧ s.store.complexity g ≤ s.store.complexity h ∧
      (∀ state ∈ states, s.store.evaluate g state = s.store.evaluate h state) ∧
      ∃ between before, earlier = between ++ (g, .kept) :: before ∧
        ∀ r registration, (r, registration) ∈ before → r.kind = h.kind →
          ∃ state ∈ states, s.store.evaluate r state ≠ s.store.evaluate h state := by
  have history := sound.logged.history
  rw [logged] at history
  obtain ⟨vector, denotes, same, kind, complexity, between, before, split, first⟩ :=
    history.of_duplicate
  refine ⟨kind, complexity, (same.vector_eq_iff denotes sound.wellFormed sample).mp rfl, between,
    before, split, fun r registration member kindR => ?_⟩
  obtain ⟨other, denotesR, differ⟩ := first r registration member (kindR.trans kind.symm)
  refine Classical.byContradiction fun none => differ ?_
  refine (denotesR.vector_eq_iff denotes sound.wellFormed sample).mpr fun state inSample => ?_
  exact Classical.byContradiction fun unequal => none ⟨state, inSample, unequal⟩

end Session

/-- What deduplication promises of a run, wherever it stops. -/
structure Session.Deduplicated (states : List State) (s : Session) : Prop where
  /-- The vector of a kept expression is in the cache, and it is what plain evaluation gives
  in every state. -/
  cached : ∀ h vector, (h, vector) ∈ s.representatives.kept →
    s.representatives.evaluator.cache.peek? h.index = some vector ∧
      vector.length = states.length ∧ ∀ (i : Nat) (state : State), states[i]? = some state →
        ∃ d, s.store.evaluate h state = .ok d ∧ vector[i]? = some ⟨state.objectCount, d⟩
  /-- Two kept expressions of one kind differ in some state. -/
  kept : ∀ g v h w, (g, v) ∈ s.representatives.kept → (h, w) ∈ s.representatives.kept →
    g.kind = h.kind → g ≠ h →
      ∃ state ∈ states, s.store.evaluate g state ≠ s.store.evaluate h state
  /-- Two features of one kind differ in some state. -/
  features : ∀ (i j : Nat) (f f' : Feature), s.features[i]? = some f → s.features[j]? = some f' →
    i ≠ j → f.handle.kind = f'.handle.kind →
      ∃ state ∈ states, f.value s.store state ≠ f'.value s.store state
  /-- A duplicate has the kind and the values of what it duplicates, which is not more complex
  and was the first of the kind with these values. -/
  duplicates : ∀ later h g earlier, s.log = later ++ (h, .duplicate g) :: earlier →
    g.kind = h.kind ∧ s.store.complexity g ≤ s.store.complexity h ∧
      (∀ state ∈ states, s.store.evaluate g state = s.store.evaluate h state) ∧
      ∃ between before, earlier = between ++ (g, .kept) :: before ∧
        ∀ r registration, (r, registration) ∈ before → r.kind = h.kind →
          ∃ state ∈ states, s.store.evaluate r state ≠ s.store.evaluate h state

/-- A run over a sample that is not refused gives its features, whatever stops it, and its
deduplication is sound. -/
theorem deduplication_sound {store : Store} {issued : List Handle}
    (reachable : store.Reachable issued) {config : Config} (valid : config.validate = .ok ())
    {states : List State} (accepted : checkSample store.vocabulary states = .ok ())
    (made : ∀ state ∈ states, state.problem.Made) (clock : Clock) :
    (∃ g, generate config clock states store
          = (.ok g, (Session.after config clock states store).store) ∧
        g.features = (Session.after config clock states store).features.toList) ∧
      (Session.after config clock states store).Deduplicated states := by
  have wf := reachable.wellFormed
  have formed := over_of_checkSample accepted made
  obtain ⟨g, result, features, _⟩ := generate_ok config clock wf valid accepted made
  obtain ⟨k, sound⟩ := after_sound config clock wf formed
  have sample : ∀ state ∈ states, state.Over _ := sound.vocabulary ▸ formed
  refine ⟨⟨g, result, features⟩, ?_⟩
  constructor
  · intro h vector kept
    exact ⟨sound.representatives.cached kept,
      (sound.representatives.denotes kept).evaluate sound.wellFormed sample⟩
  · intro g v h w keptG keptH
    exact sound.exists_differ sample keptG keptH
  · intro i j f f'
    exact sound.features_differ sample
  · intro later h g earlier
    exact sound.of_duplicate sample

/-! ## A run over two states -/

namespace Lamps

/-- Lamps that are lit or not. -/
def vocabulary : Vocabulary := ⟨#[⟨"lit", 1⟩], #[]⟩

/-- Two lamps, the first of which can be lit. -/
def problem : Problem :=
  match (Problem.new 0 vocabulary).addAtom "lit" ["first"] false with
  | .ok (_, p) => (p.addObject "second").2
  | .error _ => .new 0 vocabulary

theorem problem_made : problem.Made := by
  unfold problem
  split
  next added => exact .object (.atom (.new 0 vocabulary) added) "second"
  next => exact .new 0 vocabulary

/-- The first lamp is lit, or none is. -/
def states : List State := [⟨problem, [⟨0⟩]⟩, ⟨problem, []⟩]

theorem states_made : ∀ state ∈ states, state.problem.Made := by
  intro state member
  simp only [states, List.mem_cons, List.not_mem_nil, or_false] at member
  rcases member with rfl | rfl <;> exact problem_made

def store : Store := ⟨vocabulary, ⟨#[], 1, ∅⟩, #[]⟩

theorem store_reachable : store.Reachable [] := @Store.Reachable.new vocabulary 0 store rfl

/-- Time is never up. -/
def clock : Clock := fun _ => false

def config (rules : List Rule) (limits : Limits) : Config :=
  { Config.default with limits, rules := .only rules }

/-- Intersections and complements of what is lit. -/
def boolean : Config :=
  config [.conceptPrimitive, .conceptTop, .conceptNot, .conceptAnd, .booleanEmpty] ⟨3, 1, 4, 1, 1⟩

end Lamps

/-- The intersection of the lit lamps and all lamps duplicates the lit lamps. -/
theorem deduplication_sound_lamps :
    (Session.after Lamps.boolean Lamps.clock Lamps.states Lamps.store).log[4]?
        = some (⟨.concept, 7⟩, .duplicate ⟨.concept, 1⟩) ∧
      (Session.after Lamps.boolean Lamps.clock Lamps.states Lamps.store).Deduplicated
        Lamps.states :=
  ⟨by decide +kernel, (deduplication_sound Lamps.store_reachable (by decide +kernel)
    (by decide +kernel) Lamps.states_made Lamps.clock).2⟩

end PlanFeatures
