import PlanFeatures.Proofs.Generation.Dropping

/-!
# The past of a store does not matter

Runs over one sample with one configuration give the same features, counts and status
whatever stores they start from, unless the time is up.  The stores may have been used
before in different ways, so the handles differ, but not the expressions.  A run that is
repeated on a store finds all its candidates there: it gives the same handles and adds
nothing.
-/

namespace PlanFeatures

open List

/-! ## Results of two runs -/

/-- The features are the same to the owners of the stores, but for their handles. -/
structure Feature.Same (store₁ store₂ : Store) (f g : Feature) : Prop where
  kind : f.handle.kind = g.handle.kind
  text : f.text = g.text
  complexity : f.complexity = g.complexity
  value : ∀ state : State, state.Over store₁.vocabulary →
    ∃ x, f.value store₁ state = .ok x ∧ g.value store₂ state = .ok x

/-- The runs gave the same, but for the sizes of the stores. -/
structure Generation.Same (store₁ store₂ : Store) (g₁ g₂ : Generation) : Prop where
  status : g₁.status = g₂.status
  statistics : { g₁.statistics with storeSize := g₂.statistics.storeSize } = g₂.statistics
  features : Forall₂ (Feature.Same store₁ store₂) g₁.features g₂.features

namespace Session
variable {base₁ base₂ : Store} {states : List State} {config : Config} {k₁ k₂ : Nat}
  {s₁ s₂ : Session}

/-- The features are the same, whatever the rules of the second run and the counts. -/
theorem Alongside.features_same {counted : Statistics → Statistics → Prop} {config₂ : Config}
    (alongside : Alongside counted base₂ s₁ s₂) (sound₁ : s₁.Sound base₁ states config k₁)
    (sound₂ : s₂.Sound base₂ states config₂ k₂) (vocabulary : base₂.vocabulary = base₁.vocabulary) :
    Forall₂ (Feature.Same s₁.store s₂.store) s₁.features.toList s₂.features.toList := by
  have vocabulary' : s₂.store.vocabulary = s₁.store.vocabulary := by
    rw [sound₁.vocabulary, sound₂.vocabulary, vocabulary]
  have feature : ∀ f ∈ s₁.features.toList, f.handle.kind.isFeature = true := fun f member =>
    (sound₁.emitted.mem.mp ⟨f, Array.mem_toList_iff.mp member, rfl⟩).1
  have both := (forall₂_and_left _ _).mpr ⟨feature, alongside.features⟩
  refine both.imp fun f g pair => ?_
  obtain ⟨isFeature, same⟩ := pair
  exact {
    kind := same.twins.kind
    text := same.text
    complexity := same.complexity
    value := fun state belongs => same.twins.exists_value sound₁.wellFormed sound₂.wellFormed
      vocabulary' isFeature belongs }

theorem Alongside.same (alongside : Alongside Eq base₂ s₁ s₂)
    (sound₁ : s₁.Sound base₁ states config k₁)
    (sound₂ : s₂.Sound base₂ states config k₂) (vocabulary : base₂.vocabulary = base₁.vocabulary)
    (status : Status) :
    (s₁.finish status).Same s₁.store s₂.store (s₂.finish status) where
  status := rfl
  statistics := by
    -- As many vectors are remembered as expressions were kept.
    have cached : s₁.representatives.evaluator.cache.size
        = s₂.representatives.evaluator.cache.size := by
      rw [sound₁.representatives.cacheSize, sound₂.representatives.cacheSize,
        alongside.kept.length_eq]
    simp only [finish, alongside.statistics, cached]
  features := alongside.features_same sound₁ sound₂ vocabulary

/-- A run alongside one that has ended in an earlier store gives the same handles and adds
nothing. -/
theorem Alongside.repeated (alongside : Alongside Eq base₂ s₁ s₂)
    (sound₂ : s₂.Sound base₂ states config k₂) (grown : s₁.store.Extends base₂) :
    s₂.features = s₁.features ∧ s₂.store = base₂ := by
  have later := sound₂.later
  -- In the later store a handle of the earlier one is its own twin.
  have own : ∀ {h g}, s₁.store.Twins s₂.store h g → g = h := by
    intro h g twins
    obtain ⟨t, stands, stands'⟩ := twins.tree
    have grown' := grown.trans later.grown
    exact later.wellFormed.eq_of_tree twins.right (grown'.has twins.left) stands'.tree
      (grown'.represents twins.left stands).tree
  constructor
  · refine Array.toList_inj.mp (Eq.symm ?_)
    rw [← forall₂_eq_eq_eq]
    refine alongside.features.imp fun f g same => ?_
    obtain ⟨twins, complexity, text⟩ := same
    cases f
    cases g
    simp only [Feature.mk.injEq]
    exact ⟨(own twins).symm, complexity, text⟩
  · refine later.unchanged ?_
    have all : ∀ h, s₂.store.Has h → h.index ≤ base₂.size := by
      intro h has
      rcases alongside.added h has with before | ⟨g, twins⟩
      · exact before.bound.2
      · exact own twins ▸ (grown.has twins.left).bound.2
    -- The last expression is one of them, so there are no more than before.
    rcases Nat.eq_zero_or_pos s₂.store.size with none | some
    · exact none ▸ Nat.zero_le _
    · obtain ⟨kind, has⟩ := Store.exists_has some (Nat.le_refl s₂.store.size)
      exact all _ has

end Session

/-! ## Two runs -/

theorem not_timedOut {ended : Except Stop Unit × Session} {status : Status}
    (stopped : Status.of? ended.1 = some status) (live : status ≠ .timeLimitReached) :
    ¬ Search.TimedOut ended := by
  intro out
  rw [Search.TimedOut.eq_def] at out
  rw [out] at stopped
  exact live (Option.some.inj stopped).symm

/-- Searches that go on together and do not run out of time end with one status. -/
theorem Search.Paired.of_status {m₁ m₂ : Search Unit} {s₁ s₂ : Session}
    {related : Session → Session → Prop}
    (paired : Paired m₁ m₂ s₁ s₂ (fun _ _ s₁' s₂' => related s₁' s₂') related)
    {status₁ status₂ : Status} (ended₁ : Status.of? (m₁.run s₁).1 = some status₁)
    (ended₂ : Status.of? (m₂.run s₂).1 = some status₂) (live₁ : status₁ ≠ .timeLimitReached)
    (live₂ : status₂ ≠ .timeLimitReached) :
    status₁ = status₂ ∧ related (m₁.run s₁).2 (m₂.run s₂).2 := by
  have together := paired (not_timedOut ended₁ live₁) (not_timedOut ended₂ live₂)
  revert together ended₁ ended₂
  rcases m₁.run s₁ with ⟨r₁, s₁'⟩
  rcases m₂.run s₂ with ⟨r₂, s₂'⟩
  cases r₁ <;> cases r₂
  case ok.ok =>
    intro ended₁ ended₂ related
    exact ⟨Option.some.inj (ended₁.symm.trans ended₂), related⟩
  case error.error =>
    rintro ended₁ ended₂ ⟨rfl, related⟩
    exact ⟨Option.some.inj (ended₁.symm.trans ended₂), related⟩
  case ok.error | error.ok => exact fun _ _ => False.elim

section
variable {store₁ store₂ : Store} (wf₁ : store₁.WellFormed) (wf₂ : store₂.WellFormed)
  (vocabulary : store₂.vocabulary = store₁.vocabulary) {config : Config} {states : List State}
include wf₁ wf₂ vocabulary

theorem after_alongside (sample : ∀ state ∈ states, state.Over store₁.vocabulary)
    {clock₁ clock₂ : Clock} {status₁ status₂ : Status}
    (ended₁ : Status.of? ((Search.enumerate config clock₁).run (.start store₁ states)).1
      = some status₁)
    (ended₂ : Status.of? ((Search.enumerate config clock₂).run (.start store₂ states)).1
      = some status₂)
    (live₁ : status₁ ≠ .timeLimitReached) (live₂ : status₂ ≠ .timeLimitReached) :
    status₁ = status₂ ∧ Session.Alongside Eq store₂ (Session.after config clock₁ states store₁)
      (Session.after config clock₂ states store₂) := by
  exact (Search.enumerate_paired vocabulary sample wf₁ wf₂ config clock₁ clock₂).of_status ended₁
    ended₂ live₁ live₂

/-- Two runs give the same, if neither runs out of time. -/
theorem generate_same (valid : config.validate = .ok ())
    (accepted : checkSample store₁.vocabulary states = .ok ())
    (made : ∀ state ∈ states, state.problem.Made) (clock₁ clock₂ : Clock) :
    ∃ status₁ status₂,
      generate config clock₁ states store₁
        = (.ok ((Session.after config clock₁ states store₁).finish status₁),
          (Session.after config clock₁ states store₁).store) ∧
      generate config clock₂ states store₂
        = (.ok ((Session.after config clock₂ states store₂).finish status₂),
          (Session.after config clock₂ states store₂).store) ∧
      (status₁ ≠ .timeLimitReached → status₂ ≠ .timeLimitReached →
        status₁ = status₂ ∧ Session.Alongside Eq store₂ (Session.after config clock₁ states store₁)
          (Session.after config clock₂ states store₂)) := by
  obtain ⟨status₁, ended₁, result₁⟩ := generate_finish config clock₁ wf₁ valid accepted made
  obtain ⟨status₂, ended₂, result₂⟩ :=
    generate_finish config clock₂ wf₂ valid (vocabulary ▸ accepted) made
  exact ⟨status₁, status₂, result₁, result₂,
    after_alongside wf₁ wf₂ vocabulary (over_of_checkSample accepted made) ended₁ ended₂⟩

end

/-- What a run gives does not depend on what was done with its store before, unless the time
is up.  However the store is used afterwards, the run can be repeated: it gives the same
handles and adds nothing. -/
theorem generation_independent {store₁ store₂ : Store} {issued₁ issued₂ : List Handle}
    (reachable₁ : store₁.Reachable issued₁) (reachable₂ : store₂.Reachable issued₂)
    (vocabulary : store₂.vocabulary = store₁.vocabulary) {config : Config}
    (valid : config.validate = .ok ()) {states : List State}
    (accepted : checkSample store₁.vocabulary states = .ok ())
    (made : ∀ state ∈ states, state.problem.Made) (clock₁ clock₂ : Clock) :
    ∃ g₁ g₂ store₁' store₂',
      generate config clock₁ states store₁ = (.ok g₁, store₁') ∧
      generate config clock₂ states store₂ = (.ok g₂, store₂') ∧
      (g₁.status ≠ .timeLimitReached → g₂.status ≠ .timeLimitReached →
        g₁.Same store₁' store₂' g₂) ∧
      ∀ {later : Store} {issued : List Handle},
        store₁'.Continues (g₁.features.map Feature.handle ++ issued₁) later issued →
          ∀ clock, ∃ g later', generate config clock states later = (.ok g, later') ∧
            (g₁.status ≠ .timeLimitReached → g.status ≠ .timeLimitReached →
              g.status = g₁.status ∧ g.features = g₁.features ∧ later' = later) := by
  have wf₁ := reachable₁.wellFormed
  have wf₂ := reachable₂.wellFormed
  have sample := over_of_checkSample accepted made
  obtain ⟨_, sound₁⟩ := after_sound config clock₁ wf₁ sample
  obtain ⟨_, sound₂⟩ := after_sound config clock₂ wf₂ (vocabulary ▸ sample)
  obtain ⟨status₁, status₂, result₁, result₂, same⟩ :=
    generate_same wf₁ wf₂ vocabulary valid accepted made clock₁ clock₂
  refine ⟨_, _, _, _, result₁, result₂, fun live₁ live₂ => ?_, ?_⟩
  · obtain ⟨rfl, alongside⟩ := same live₁ live₂
    exact alongside.same sound₁ sound₂ vocabulary status₁
  · intro later issued continues clock
    -- The run is a call, and all later calls keep what it left.
    have called := Store.called wf₁ reachable₁.sound.2 (.generate config clock₁ states)
      (fun h member => absurd member List.not_mem_nil) made
    simp only [Call.run, result₁] at called
    have kept := (continues.later called.1.wellFormed called.2).1
    have grown := called.1.grown.trans kept.grown
    have vocabulary' : later.vocabulary = store₁.vocabulary := grown.vocabulary
    obtain ⟨_, again⟩ := after_sound config clock kept.wellFormed (vocabulary' ▸ sample)
    obtain ⟨status₁', status, result₁', result, same⟩ :=
      generate_same wf₁ kept.wellFormed vocabulary' valid accepted made clock₁ clock
    obtain rfl : status₁ = status₁' :=
      congrArg Generation.status (Except.ok.inj (Prod.mk.inj (result₁.symm.trans result₁')).1)
    refine ⟨_, _, result, fun live₁ live => ?_⟩
    obtain ⟨rfl, alongside⟩ := same live₁ live
    obtain ⟨features, unchanged⟩ := alongside.repeated again kept.grown
    exact ⟨rfl, congrArg Array.toList features, unchanged⟩

namespace Lamps

/-- A store with eight buckets that has read an intersection. -/
def usedStore : Store :=
  ((Call.read "c_and(c_bot,c_not(c_top))").run ⟨vocabulary, ⟨#[], 8, ∅⟩, #[]⟩).2

theorem usedStore_reachable : ∃ issued, usedStore.Reachable issued :=
  have new := @Store.Reachable.new vocabulary 3 ⟨vocabulary, ⟨#[], 8, ∅⟩, #[]⟩ rfl
  ⟨_, new.call (.read "c_and(c_bot,c_not(c_top))") (fun _ member => absurd member List.not_mem_nil)
    trivial⟩

end Lamps

/-- The three features have other handles in the used store, and the same handles in a second
run. -/
theorem generation_independent_lamps :
    ∃ g₁ g₂ g store₁ store₂,
      generate Lamps.boolean Lamps.clock Lamps.states Lamps.store = (.ok g₁, store₁) ∧
        generate Lamps.boolean Lamps.clock Lamps.states Lamps.usedStore = (.ok g₂, store₂) ∧
        g₁.features.map Feature.handle = [⟨.boolean, 5⟩, ⟨.boolean, 6⟩, ⟨.boolean, 11⟩] ∧
        g₂.features.map Feature.handle = [⟨.boolean, 7⟩, ⟨.boolean, 8⟩, ⟨.boolean, 13⟩] ∧
        g₁.Same store₁ store₂ g₂ ∧
        generate Lamps.boolean Lamps.clock Lamps.states store₁ = (.ok g, store₁) ∧
        g.features = g₁.features := by
  have some₁ : (generate Lamps.boolean Lamps.clock Lamps.states Lamps.store).1.toOption.map
      (fun g => (g.status, g.features.map Feature.handle))
        = some (.completed, [⟨.boolean, 5⟩, ⟨.boolean, 6⟩, ⟨.boolean, 11⟩]) := by decide +kernel
  have some₂ : (generate Lamps.boolean Lamps.clock Lamps.states Lamps.usedStore).1.toOption.map
      (fun g => (g.status, g.features.map Feature.handle))
        = some (.completed, [⟨.boolean, 7⟩, ⟨.boolean, 8⟩, ⟨.boolean, 13⟩]) := by decide +kernel
  have again : (generate Lamps.boolean Lamps.clock Lamps.states
      (generate Lamps.boolean Lamps.clock Lamps.states Lamps.store).2).1.toOption.map
        Generation.status = some .completed := by decide +kernel
  have valid : Lamps.boolean.validate = .ok () := by decide +kernel
  have accepted : checkSample Lamps.vocabulary Lamps.states = .ok () := by decide +kernel
  obtain ⟨issued, reachable⟩ := Lamps.usedStore_reachable
  obtain ⟨g₁, g₂, store₁, store₂, run₁, run₂, same, repeated⟩ :=
    generation_independent Lamps.store_reachable reachable (by decide +kernel) valid accepted
      Lamps.states_made Lamps.clock Lamps.clock
  obtain ⟨g, later, run, agree⟩ := repeated .here Lamps.clock
  rw [run₁] at some₁ again
  rw [run₂] at some₂
  rw [run] at again
  obtain ⟨status₁, handles₁⟩ := Prod.mk.inj (Option.some.inj some₁)
  obtain ⟨status₂, handles₂⟩ := Prod.mk.inj (Option.some.inj some₂)
  have status := Option.some.inj again
  obtain ⟨_, features, rfl⟩ := agree (by rw [status₁]; decide) (by rw [status]; decide)
  exact ⟨g₁, g₂, g, later, store₂, run₁, run₂, handles₁, handles₂,
    same (by rw [status₁]; decide) (by rw [status₂]; decide), run, features⟩

end PlanFeatures
