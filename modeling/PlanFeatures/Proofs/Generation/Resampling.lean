import PlanFeatures.Proofs.Generation.Batching
import PlanFeatures.Proofs.Generation.Independence

/-!
# The order of a sample does not matter

Two samples with the same states give vectors of other lengths and in other orders, but the
same expressions have equal vectors over both.  A run sees no more of a vector than which
kept expression has it, so two runs from one store over such samples take the same steps,
with the same handles.  All that differs are the vectors that they remember.
-/

namespace PlanFeatures

open List

/-- Expressions with one vector over a sample have one vector over any part of it. -/
theorem Store.Denotes.vector_eq_of_subset {store : Store} {states part : List State}
    {g h : Handle} {vector v w : ExtensionVector} (first : store.Denotes states g vector)
    (second : store.Denotes states h vector) (inside : part ⊆ states)
    (firstPart : store.Denotes part g v) (secondPart : store.Denotes part h w) : v = w := by
  obtain ⟨t, stands, value⟩ := first.tree
  obtain ⟨u, stands', value'⟩ := second.tree
  have agree := Expr.agree_of_vector value value'
  have partly : t.Agree part u := fun state member => agree state (inside member)
  have there := firstPart.vector_eq stands.tree
  rw [partly.vector_eq, secondPart.vector_eq stands'.tree] at there
  exact (Except.ok.inj there).symm

namespace Representatives
variable {store : Store} {states₁ states₂ : List State} {r r₁ r₂ : Representatives}
  {g h : Handle} {v₁ v₂ : ExtensionVector}

/-- What has been registered is told apart by its vector as before. -/
theorem Sound.insert (sound : r.Sound store states₁) (denotes : store.Denotes states₁ h v₁) :
    (r.insert h v₁).2.Sound store states₁ := by
  rcases r.insert_cases h v₁ with ⟨_, _, _, inserted⟩ | ⟨fresh, inserted⟩
  · rw [inserted]
    exact sound
  · rw [inserted]
    exact sound.keep denotes fresh

section
variable (sound₁ : r₁.Sound store states₁) (sound₂ : r₂.Sound store states₂)
  (denotes₁ : store.Denotes states₁ h v₁) (denotes₂ : store.Denotes states₂ h v₂)
include sound₁ sound₂ denotes₁ denotes₂

/-- What represents an expression over one sample represents it over the other. -/
theorem Sound.kept_of_subset (inside : states₂ ⊆ states₁)
    (kept : r₁.kept.map Prod.fst = r₂.kept.map Prod.fst) (member : (g, v₁) ∈ r₁.kept) :
    (g, v₂) ∈ r₂.kept := by
  have both : g ∈ r₂.kept.map Prod.fst := kept ▸ mem_map_of_mem member
  obtain ⟨⟨_, w⟩, member', rfl⟩ := mem_map.mp both
  have same := (sound₁.denotes member).vector_eq_of_subset denotes₁ inside
    (sound₂.denotes member') denotes₂
  exact same ▸ member'

/-- The expression is kept over both samples, or it is a duplicate of one expression over
both. -/
theorem Sound.insert_same (same : ∀ state, state ∈ states₁ ↔ state ∈ states₂)
    (kept : r₁.kept.map Prod.fst = r₂.kept.map Prod.fst) :
    (r₁.insert h v₁).1 = (r₂.insert h v₂).1 ∧
      (r₁.insert h v₁).2.kept.map Prod.fst = (r₂.insert h v₂).2.kept.map Prod.fst := by
  have forth : states₁ ⊆ states₂ := fun state => (same state).mp
  have back : states₂ ⊆ states₁ := fun state => (same state).mpr
  -- What represents the expression in one run is kept, and represents it, in the other one, so
  -- it is not new to one run and a duplicate to the other.
  rcases r₁.insert_cases h v₁ with ⟨g₁, kept₁, kind₁, inserted₁⟩ | ⟨fresh₁, inserted₁⟩ <;>
  rcases r₂.insert_cases h v₂ with ⟨g₂, kept₂, kind₂, inserted₂⟩ | ⟨fresh₂, inserted₂⟩
  · have kept₁' := sound₁.kept_of_subset sound₂ denotes₁ denotes₂ back kept kept₁
    obtain rfl := sound₂.handle_unique kept₁' kept₂ (kind₁.trans kind₂.symm)
    rw [inserted₁, inserted₂]
    exact ⟨rfl, kept⟩
  · have kept₁' := sound₁.kept_of_subset sound₂ denotes₁ denotes₂ back kept kept₁
    exact absurd kind₁ (fresh₂ g₁ kept₁')
  · have kept₂' := sound₂.kept_of_subset sound₁ denotes₂ denotes₁ forth kept.symm kept₂
    exact absurd kind₂ (fresh₁ g₂ kept₂')
  · rw [inserted₁, inserted₂]
    exact ⟨rfl, congrArg (h :: ·) kept⟩

end

end Representatives

namespace Session
variable {base : Store} {states₁ states₂ : List State} {config : Config} {k k₁ k₂ : Nat}
  {s₁ s₂ : Session}

/-- Two runs know the same, but for the vectors. -/
structure Resampled (s₁ s₂ : Session) : Prop where
  store : s₁.store = s₂.store
  seen : s₁.representatives.seen = s₂.representatives.seen
  kept : s₁.representatives.kept.map Prod.fst = s₂.representatives.kept.map Prod.fst
  layer : s₁.layer = s₂.layer
  frontier : s₁.frontier = s₂.frontier
  features : s₁.features = s₂.features
  statistics : s₁.statistics = s₂.statistics
  log : s₁.log = s₂.log

theorem resampled_start (store : Store) (states₁ states₂ : List State) :
    Resampled (start store states₁) (start store states₂) :=
  ⟨rfl, rfl, rfl, rfl, rfl, rfl, rfl, rfl⟩

theorem Resampled.finish_eq (same : Resampled s₁ s₂) (sound₁ : s₁.Sound base states₁ config k₁)
    (sound₂ : s₂.Sound base states₂ config k₂) (status : Status) :
    s₁.finish status = s₂.finish status := by
  -- As many vectors are remembered as expressions were kept.
  have length : s₁.representatives.kept.length = s₂.representatives.kept.length := by
    rw [← length_map Prod.fst, same.kept, length_map]
  simp only [finish, sound₁.representatives.cacheSize, sound₂.representatives.cacheSize, length,
    same.store, same.features, same.statistics]

/-- Two runs from one store in layer `k` that know the same between batches. -/
structure Rerun (base : Store) (states₁ states₂ : List State) (config : Config) (k : Nat)
    (s₁ s₂ : Session) : Prop where
  first : s₁.Sound base states₁ config k
  second : s₂.Sound base states₂ config k
  settled₁ : s₁.Settled []
  settled₂ : s₂.Settled []
  same : Resampled s₁ s₂

end Session

namespace Search
open Session
variable {base : Store} {states₁ states₂ : List State} {config : Config} {k : Nat}
  {s₁ s₂ : Session}

/-! ## Candidates -/

theorem intern_resampled (same : Resampled s₁ s₂) (node : Node) :
    Paired (intern node) (intern node) s₁ s₂ (fun h g s₁' s₂' => h = g ∧ Resampled s₁' s₂')
      Resampled := by
  simp only [intern, Paired.modifyGet_bind_iff]
  rw [same.store]
  rcases (Build.intern node).run s₂.store with ⟨result, store⟩
  cases result with
  | ok h => exact Paired.pure ⟨rfl, { same with store := rfl }⟩
  | error e => exact Paired.throw _ { same with store := rfl }

theorem consider_resampled (same : Resampled s₁ s₂) (rule : Rule) (node : Node) :
    Paired (consider rule node) (consider rule node) s₁ s₂
      (fun result₁ result₂ s₁' s₂' => result₁ = result₂ ∧ Resampled s₁' s₂') Resampled := by
  unfold consider
  refine (intern_resampled same node).bind ?_
  rintro h _ s₁' s₂' ⟨rfl, same'⟩
  simp only [count, Representatives.markSeen, Paired.modify_bind_iff, Paired.modifyGet_bind_iff,
    same'.seen, same'.statistics]
  split
  next => exact Paired.pure ⟨rfl, { same' with seen := rfl, statistics := rfl }⟩
  next =>
    rw [Paired.modify_bind_iff]
    exact Paired.pure ⟨rfl, { same' with seen := rfl, statistics := rfl }⟩

theorem considerAll_resampled (same : Resampled s₁ s₂) (rule : Rule) (batch : List Node) :
    Paired (batch.mapM (consider rule)) (batch.mapM (consider rule)) s₁ s₂
      (fun results₁ results₂ s₁' s₂' => results₁ = results₂ ∧ Resampled s₁' s₂') Resampled := by
  let invariant (_ _ : List Node) (results₁ results₂ : List (Option (Handle × Node)))
      (s₁' s₂' : Session) : Prop :=
    results₁ = results₂ ∧ Resampled s₁' s₂'
  have start : invariant batch batch [] [] s₁ s₂ := ⟨rfl, same⟩
  refine Paired.mapM (R := Eq) invariant ?_ (forall₂_refl _) [] [] start
  rintro node _ _ _ results _ s₁' s₂' rfl ⟨rfl, same'⟩
  refine (consider_resampled same' rule node).imp_done ?_
  rintro result _ s₁'' s₂'' ⟨rfl, same''⟩
  exact ⟨rfl, same''⟩

/-- What is registered next in both runs: one expression with its vectors over the two
samples. -/
structure Item (store : Store) (states₁ states₂ : List State)
    (x y : (Handle × Node) × ExtensionVector) : Prop where
  same : x.1 = y.1
  left : store.Denotes states₁ x.1.1 x.2
  right : store.Denotes states₂ y.1.1 y.2

theorem forall₂_items {store : Store} {fresh : List (Handle × Node)}
    {vectors₁ vectors₂ : List ExtensionVector} (length₁ : vectors₁.length = fresh.length)
    (length₂ : vectors₂.length = fresh.length)
    (left : ∀ q ∈ fresh.zip vectors₁, store.Denotes states₁ q.1.1 q.2)
    (right : ∀ q ∈ fresh.zip vectors₂, store.Denotes states₂ q.1.1 q.2) :
    Forall₂ (Item store states₁ states₂) (fresh.zip vectors₁) (fresh.zip vectors₂) := by
  rw [forall₂_iff_zip]
  constructor
  · rw [length_zip, length_zip, length₁, length₂]
  · intro x y member
    obtain ⟨i, bound, place⟩ := mem_iff_getElem.mp member
    rw [getElem_zip] at place
    obtain ⟨rfl, rfl⟩ := Prod.mk.inj place
    exact {
      same := by simp only [getElem_zip]
      left := left _ (getElem_mem _)
      right := right _ (getElem_mem _) }

section
variable (same : ∀ state, state ∈ states₁ ↔ state ∈ states₂)
include same

/-- Two runs that know the same and tell expressions apart over their samples. -/
structure Registering (store : Store) (states₁ states₂ : List State) (s₁ s₂ : Session) :
    Prop where
  same : Resampled s₁ s₂
  left : s₁.representatives.Sound store states₁
  right : s₂.representatives.Sound store states₂

theorem register_resampled {store : Store} (knows : Registering store states₁ states₂ s₁ s₂)
    {h : Handle} {v₁ v₂ : ExtensionVector} (denotes₁ : store.Denotes states₁ h v₁)
    (denotes₂ : store.Denotes states₂ h v₂) (featureLimit : Nat) (rule : Rule) :
    Paired (register featureLimit rule h v₁) (register featureLimit rule h v₂) s₁ s₂
      (fun _ _ s₁' s₂' => Registering store states₁ states₂ s₁' s₂') Resampled := by
  obtain ⟨resampled, left, right⟩ := knows
  obtain ⟨registration, kept⟩ := left.insert_same right denotes₁ denotes₂ same resampled.kept
  have seen : (s₁.representatives.insert h v₁).2.seen
      = (s₂.representatives.insert h v₂).2.seen := by
    rw [insert_seen, insert_seen, resampled.seen]
  refine Paired.of_run (run_register featureLimit rule h v₁ s₁)
    (run_register featureLimit rule h v₂ s₂) ?_
  rw [registration, resampled.statistics, resampled.log]
  have settled : ∀ layer features, Resampled
      { s₁ with
        representatives := (s₁.representatives.insert h v₁).2
        statistics := s₂.statistics.modifyRule rule
          (·.record (s₂.representatives.insert h v₂).1)
        log := (h, (s₂.representatives.insert h v₂).1) :: s₂.log, layer, features }
      { s₂ with
        representatives := (s₂.representatives.insert h v₂).2
        statistics := s₂.statistics.modifyRule rule
          (·.record (s₂.representatives.insert h v₂).1)
        log := (h, (s₂.representatives.insert h v₂).1) :: s₂.log, layer, features } :=
    fun _ _ => ⟨resampled.store, seen, kept, rfl, resampled.frontier, rfl, rfl, rfl⟩
  refine Paired.imp (settle_paired ?_ ?_ ?_ featureLimit _) ?_ ?_
  · exact congrArg (Feature.ofHandle? · h) resampled.store
  · exact resampled.layer
  · exact resampled.features
  · rintro _ _ _ _ ⟨layer, features, rfl, rfl⟩
    exact ⟨settled layer features, left.insert denotes₁, right.insert denotes₂⟩
  · rintro _ _ ⟨layer, features, rfl, rfl⟩
    exact settled layer features

theorem registerAll_resampled {store : Store} (knows : Registering store states₁ states₂ s₁ s₂)
    {items₁ items₂ : List ((Handle × Node) × ExtensionVector)}
    (items : Forall₂ (Item store states₁ states₂) items₁ items₂) (featureLimit : Nat)
    (rule : Rule) :
    Paired (items₁.forM fun q => register featureLimit rule q.1.1 q.2)
      (items₂.forM fun q => register featureLimit rule q.1.1 q.2) s₁ s₂
      (fun _ _ s₁' s₂' => Resampled s₁' s₂') Resampled := by
  let invariant (_ _ : List ((Handle × Node) × ExtensionVector)) (s₁' s₂' : Session) : Prop :=
    Registering store states₁ states₂ s₁' s₂'
  refine (Paired.forM invariant ?_ items knows).imp_done fun _ _ _ _ last => last.same
  rintro ⟨⟨h, node⟩, v₁⟩ ⟨_, v₂⟩ _ _ s₁' s₂' ⟨rfl, denotes₁, denotes₂⟩ knows'
  exact register_resampled same knows' denotes₁ denotes₂ featureLimit rule

/-! ## Batches -/

variable (sample₁ : ∀ state ∈ states₁, state.Over base.vocabulary)
  (sample₂ : ∀ state ∈ states₂, state.Over base.vocabulary)
include sample₁ sample₂

theorem processBatch_resampled (rerun : Rerun base states₁ states₂ config k s₁ s₂)
    {batch : List Node} (proposed : ∀ node ∈ batch, Proposed base config k s₁.frontier node)
    (clock₁ clock₂ : Clock) (rule : Rule) :
    Paired (processBatch config clock₁ rule batch) (processBatch config clock₂ rule batch) s₁ s₂
      (fun _ _ s₁' s₂' => Resampled s₁' s₂') Resampled := by
  obtain ⟨sound₁, sound₂, settled₁, settled₂, resampled⟩ := rerun
  rw [processBatch_eq, processBatch_eq]
  refine (checkClock_paired clock₁ clock₂ s₁ s₂).bind ?_
  rintro _ _ _ _ ⟨rfl, rfl⟩
  have looked : Resampled { s₁ with looks := s₁.looks + 1 } { s₂ with looks := s₂.looks + 1 } :=
    { resampled with store := resampled.store }
  -- Interning gives the same handles; the outcomes of both runs say what they are handles of.
  have considered := (considerAll_resampled looked rule batch).and
    (considerAll_outcome (sound₁.aside s₁.statistics (s₁.looks + 1)) settled₁ proposed rule)
    (considerAll_outcome (sound₂.aside s₂.statistics (s₂.looks + 1)) settled₂
      (resampled.frontier ▸ proposed) rule)
  refine (considered.imp (fun _ _ _ _ => id) fun _ _ stop => stop.1).bind ?_
  rintro results _ s₁' s₂' ⟨⟨rfl, resampled'⟩, considered₁, considered₂⟩
  have ready₁ : ∀ p ∈ results.filterMap id,
      Proposed base config k s₁'.frontier p.2 ∧ s₁'.store.Interned p.1 p.2 := fun p member =>
    ⟨considered₁.onward.proposed (proposed _ (considered₁.fresh p member).1),
      (considered₁.fresh p member).2⟩
  have ready₂ : ∀ p ∈ results.filterMap id,
      Proposed base config k s₂'.frontier p.2 ∧ s₂'.store.Interned p.1 p.2 := by
    rw [← resampled'.frontier, ← resampled'.store]
    exact ready₁
  have evaluated₁ := evaluateAll_outcome considered₁.sound sample₁ ready₁
  have evaluated₂ := evaluateAll_outcome considered₂.sound sample₂ ready₂
  refine Paired.bind (Paired.of_outcomes evaluated₁ evaluated₂ fun _ _ _ _ first second =>
    And.intro first second) ?_
  rintro vectors₁ vectors₂ s₁' s₂' ⟨⟨rfl, length₁, vectors₁⟩, rfl, length₂, vectors₂⟩
  rw [Paired.modify_bind_iff, length₁, length₂]
  -- Evaluation gives other vectors of the same expressions.
  have items : Forall₂ (Item s₁'.store states₁ states₂) _ _ :=
    forall₂_items length₁ length₂ (fun q member => (vectors₁ q member).denotes)
      (resampled'.store ▸ fun q member => (vectors₂ q member).denotes)
  refine registerAll_resampled same ?_ items config.featureLimit rule
  exact {
    same := { resampled' with statistics := by rw [resampled'.statistics] }
    left := considered₁.sound.representatives
    right := resampled'.store ▸ considered₂.sound.representatives }

theorem processBatch_rerun (rerun : Rerun base states₁ states₂ config k s₁ s₂)
    {batch : List Node} (proposed : ∀ node ∈ batch, Proposed base config k s₁.frontier node)
    (clock₁ clock₂ : Clock) (rule : Rule) :
    Paired (processBatch config clock₁ rule batch) (processBatch config clock₂ rule batch) s₁ s₂
      (fun _ _ s₁' s₂' => Rerun base states₁ states₂ config k s₁' s₂' ∧ s₁.Onward s₁')
      Resampled := by
  have processed := (processBatch_resampled same sample₁ sample₂ rerun proposed clock₁ clock₂
    rule).and (processBatch_outcome rerun.first rerun.settled₁ sample₁ proposed clock₁ rule)
    (processBatch_outcome rerun.second rerun.settled₂ sample₂
      (rerun.same.frontier ▸ proposed) clock₂ rule)
  refine processed.imp ?_ fun _ _ stop => stop.1
  rintro _ _ s₁' s₂' ⟨resampled, ⟨sound₁, onward₁, settled₁, _⟩, sound₂, _, settled₂, _⟩
  exact ⟨⟨sound₁, sound₂, settled₁, settled₂, resampled⟩, onward₁⟩

/-! ## Rules and layers -/

theorem processRule_rerun (rerun : Rerun base states₁ states₂ config k s₁ s₂) {rule : Rule}
    (enabled : config.rules.isEnabled rule = true) (clock₁ clock₂ : Clock) :
    Paired (processRule config clock₁ k rule) (processRule config clock₂ k rule) s₁ s₂
      (fun _ _ s₁' s₂' => Rerun base states₁ states₂ config k s₁' s₂') Resampled := by
  rw [processRule_eq, processRule_eq]
  split
  next within =>
    have proposed := fun node => @rerun.first.proposed _ _ _ _ _ rule enabled within node
    rw [Paired.get_bind_iff, ← rerun.same.frontier, ← rerun.same.store, rerun.first.vocabulary]
    revert proposed
    generalize s₁.frontier.candidates base.vocabulary rule k = candidates
    intro proposed
    let invariant (rest _ : List (List Node)) (s₁' s₂' : Session) : Prop :=
      Rerun base states₁ states₂ config k s₁' s₂' ∧ s₁.Onward s₁' ∧
        ∀ node ∈ rest.flatten, node ∈ candidates
    have start : invariant (batches config.batchSize candidates)
        (batches config.batchSize candidates) s₁ s₂ := by
      refine ⟨rerun, .refl s₁, ?_⟩
      rw [flatten_batches]
      exact fun node member => member
    refine (Paired.forM (R := Eq) invariant ?_ (forall₂_refl _) start).imp_done
      fun _ _ _ _ last => last.1
    rintro batch _ rest _ s₁' s₂' rfl ⟨rerun', onward, inside⟩
    have here : ∀ node ∈ batch, Proposed base config k s₁'.frontier node := fun node member =>
      onward.proposed (proposed node (inside node (mem_append_left _ member)))
    refine (processBatch_rerun same sample₁ sample₂ rerun' here clock₁ clock₂ rule).imp_done ?_
    rintro _ _ s₁'' s₂'' ⟨rerun'', more⟩
    exact ⟨rerun'', onward.trans more, fun node member =>
      inside node (mem_append_right _ member)⟩
  next => exact Paired.pure rerun

theorem processRules_rerun (rerun : Rerun base states₁ states₂ config k s₁ s₂)
    (clock₁ clock₂ : Clock) :
    Paired (config.rules.enabled.forM (processRule config clock₁ k))
      (config.rules.enabled.forM (processRule config clock₂ k)) s₁ s₂
      (fun _ _ s₁' s₂' => Rerun base states₁ states₂ config k s₁' s₂') Resampled := by
  let invariant (rest _ : List Rule) (s₁' s₂' : Session) : Prop :=
    Rerun base states₁ states₂ config k s₁' s₂' ∧
      ∀ rule ∈ rest, config.rules.isEnabled rule = true
  have start : invariant config.rules.enabled config.rules.enabled s₁ s₂ :=
    ⟨rerun, fun rule member => (mem_filter.mp member).2⟩
  refine (Paired.forM (R := Eq) invariant ?_ (forall₂_refl _) start).imp_done
    fun _ _ _ _ last => last.1
  rintro rule _ rest _ s₁' s₂' rfl ⟨rerun', enabled⟩
  refine (processRule_rerun same sample₁ sample₂ rerun' (enabled rule mem_cons_self) clock₁
    clock₂).imp_done ?_
  exact fun _ _ _ _ rerun'' => ⟨rerun'', fun r member => enabled r (mem_cons_of_mem _ member)⟩

omit same sample₁ sample₂ in
theorem closeLayer_rerun (rerun : Rerun base states₁ states₂ config k s₁ s₂) :
    Paired (closeLayer k) (closeLayer k) s₁ s₂
      (fun _ _ s₁' s₂' => Rerun base states₁ states₂ config (k + 1) s₁' s₂') Resampled := by
  obtain ⟨sound₁, sound₂, settled₁, settled₂, same⟩ := rerun
  refine Paired.modify ⟨sound₁.close _, sound₂.close _, settled₁, settled₂, ?_⟩
  exact { same with
    layer := rfl
    frontier := by rw [same.frontier, same.layer]
    statistics := by rw [same.statistics] }

/-- Whole runs know the same at their ends. -/
theorem enumerate_resampled (wf : base.WellFormed) (config : Config) (clock₁ clock₂ : Clock) :
    Paired (enumerate config clock₁) (enumerate config clock₂) (Session.start base states₁)
      (Session.start base states₂) (fun _ _ s₁' s₂' => Resampled s₁' s₂') Resampled := by
  have nothing : ∀ states, (Session.start base states).Settled [] := by
    intro states i seen
    simp [Session.start, Representatives.new] at seen
  have start : Rerun base states₁ states₂ config 1 (Session.start base states₁)
      (Session.start base states₂) :=
    ⟨sound_start wf states₁ config, sound_start wf states₂ config, nothing states₁,
      nothing states₂, resampled_start base states₁ states₂⟩
  refine (Paired.forM_range' (Rerun base states₁ states₂ config) ?_ 1 config.limits.max
    start).imp_done fun _ _ _ _ rerun => rerun.same
  intro k s₁ s₂ rerun
  refine (processRules_rerun same sample₁ sample₂ rerun clock₁ clock₂).bind ?_
  exact fun _ _ _ _ rerun' => closeLayer_rerun rerun'

end

end Search

/-! ## Two samples -/

/-- Runs from one store over the same states give the same, if neither runs out of time. -/
theorem generate_resampled {store : Store} (wf : store.WellFormed) {config : Config}
    (valid : config.validate = .ok ()) {states₁ states₂ : List State}
    (same : ∀ state, state ∈ states₁ ↔ state ∈ states₂)
    (accepted₁ : checkSample store.vocabulary states₁ = .ok ())
    (accepted₂ : checkSample store.vocabulary states₂ = .ok ())
    (made : ∀ state ∈ states₁, state.problem.Made) (clock₁ clock₂ : Clock) :
    ∃ g₁ g₂ store₁' store₂', generate config clock₁ states₁ store = (.ok g₁, store₁') ∧
      generate config clock₂ states₂ store = (.ok g₂, store₂') ∧
      (g₁.status ≠ .timeLimitReached → g₂.status ≠ .timeLimitReached →
        g₁ = g₂ ∧ store₁' = store₂') := by
  have made₂ : ∀ state ∈ states₂, state.problem.Made := fun state member =>
    made state ((same state).mpr member)
  have sample₁ := over_of_checkSample accepted₁ made
  have sample₂ := over_of_checkSample accepted₂ made₂
  obtain ⟨status₁, ended₁, result₁⟩ := generate_finish config clock₁ wf valid accepted₁ made
  obtain ⟨status₂, ended₂, result₂⟩ := generate_finish config clock₂ wf valid accepted₂ made₂
  refine ⟨_, _, _, _, result₁, result₂, fun live₁ live₂ => ?_⟩
  obtain ⟨_, sound₁⟩ := after_sound config clock₁ wf sample₁
  obtain ⟨_, sound₂⟩ := after_sound config clock₂ wf sample₂
  obtain ⟨rfl, resampled⟩ := (Search.enumerate_resampled same sample₁ sample₂ wf config clock₁
    clock₂).of_status ended₁ ended₂ live₁ live₂
  exact ⟨resampled.finish_eq sound₁ sound₂ status₁, resampled.store⟩

/-- What a run gives depends on the set of states of its sample, not on their order and not
on how often they occur: runs from one store give the same features with the same handles,
the same status and the same counts, and they leave the same store.  A run from another store
over the vocabulary gives the same, but for handles and the size of its store. -/
theorem generation_of_same_states {store : Store} {issued : List Handle}
    (reachable : store.Reachable issued) {config : Config} (valid : config.validate = .ok ())
    {states₁ states₂ : List State} (same : ∀ state, state ∈ states₁ ↔ state ∈ states₂)
    (accepted₁ : checkSample store.vocabulary states₁ = .ok ())
    (accepted₂ : checkSample store.vocabulary states₂ = .ok ())
    (made : ∀ state ∈ states₁, state.problem.Made) (clock₁ clock₂ : Clock) :
    ∃ g₁ g₂ store₁' store₂', generate config clock₁ states₁ store = (.ok g₁, store₁') ∧
      generate config clock₂ states₂ store = (.ok g₂, store₂') ∧
      (g₁.status ≠ .timeLimitReached → g₂.status ≠ .timeLimitReached →
        g₁ = g₂ ∧ store₁' = store₂') ∧
      ∀ {other : Store} {issued' : List Handle}, other.Reachable issued' →
        other.vocabulary = store.vocabulary →
          ∃ g other', generate config clock₂ states₂ other = (.ok g, other') ∧
            (g₁.status ≠ .timeLimitReached → g.status ≠ .timeLimitReached →
              g₁.Same store₁' other' g) := by
  have wf := reachable.wellFormed
  obtain ⟨g₁, g₂, store₁', store₂', result₁, result₂, equal⟩ :=
    generate_resampled wf valid same accepted₁ accepted₂ made clock₁ clock₂
  refine ⟨g₁, g₂, store₁', store₂', result₁, result₂, equal, ?_⟩
  intro other issued' reachable' vocabulary
  have wf' := reachable'.wellFormed
  have sample₁ := over_of_checkSample accepted₁ made
  -- Between the two runs stands one over the first sample from the other store, which is
  -- never out of time.
  obtain ⟨status₁, ended₁, result₁'⟩ := generate_finish config clock₁ wf valid accepted₁ made
  obtain ⟨status, ended, result⟩ := generate_finish config (fun _ => false) wf' valid
    (vocabulary ▸ accepted₁) made
  obtain ⟨h, g, other₁, other₂, run, run₂, equal'⟩ := generate_resampled wf' valid same
    (vocabulary ▸ accepted₁) (vocabulary ▸ accepted₂) made (fun _ => false) clock₂
  refine ⟨g, other₂, run₂, fun live₁ live => ?_⟩
  cases result₁.symm.trans result₁'
  cases run.symm.trans result
  have live' := inTime_of_idle (fun _ => rfl) ended
  obtain ⟨rfl, rfl⟩ := equal' live' live
  obtain ⟨rfl, alongside⟩ := after_alongside wf wf' vocabulary sample₁ ended₁ ended live₁ live'
  obtain ⟨_, sound₁⟩ := after_sound config clock₁ wf sample₁
  obtain ⟨_, sound⟩ := after_sound config (fun _ => false) wf' (vocabulary ▸ sample₁)
  exact alongside.same sound₁ sound vocabulary status₁

/-- The two states of the lamps in the other order, the first one twice. -/
theorem generation_of_same_states_lamps :
    ∃ g g' store store',
      generate Lamps.boolean Lamps.clock Lamps.states Lamps.store = (.ok g, store) ∧
        generate Lamps.boolean Lamps.clock (Lamps.states.reverse ++ Lamps.states.take 1)
          Lamps.store = (.ok g, store) ∧
        g.features.map Feature.handle = [⟨.boolean, 5⟩, ⟨.boolean, 6⟩, ⟨.boolean, 11⟩] ∧
        generate Lamps.boolean Lamps.clock (Lamps.states.reverse ++ Lamps.states.take 1)
          Lamps.usedStore = (.ok g', store') ∧
        g.Same store store' g' := by
  have some₁ : (generate Lamps.boolean Lamps.clock Lamps.states Lamps.store).1.toOption.map
      (fun g => (g.status, g.features.map Feature.handle))
        = some (.completed, [⟨.boolean, 5⟩, ⟨.boolean, 6⟩, ⟨.boolean, 11⟩]) := by decide +kernel
  have some₂ : (generate Lamps.boolean Lamps.clock (Lamps.states.reverse ++ Lamps.states.take 1)
      Lamps.store).1.toOption.map Generation.status = some .completed := by decide +kernel
  have some₃ : (generate Lamps.boolean Lamps.clock (Lamps.states.reverse ++ Lamps.states.take 1)
      Lamps.usedStore).1.toOption.map Generation.status = some .completed := by decide +kernel
  have valid : Lamps.boolean.validate = .ok () := by decide +kernel
  have accepted₁ : checkSample Lamps.vocabulary Lamps.states = .ok () := by decide +kernel
  have accepted₂ : checkSample Lamps.vocabulary (Lamps.states.reverse ++ Lamps.states.take 1)
      = .ok () := by decide +kernel
  have same : ∀ state, state ∈ Lamps.states
      ↔ state ∈ Lamps.states.reverse ++ Lamps.states.take 1 := by
    intro state
    rw [mem_append, mem_reverse]
    exact ⟨Or.inl, fun member => member.elim id fun first => mem_of_mem_take first⟩
  obtain ⟨issued, reachable⟩ := Lamps.usedStore_reachable
  obtain ⟨g₁, g₂, store₁, store₂, run₁, run₂, equal, others⟩ :=
    generation_of_same_states Lamps.store_reachable valid same accepted₁ accepted₂
      Lamps.states_made Lamps.clock Lamps.clock
  obtain ⟨g, store, run, similar⟩ := others reachable (by decide +kernel)
  rw [run₁] at some₁
  rw [run₂] at some₂
  rw [run] at some₃
  obtain ⟨status₁, handles⟩ := Prod.mk.inj (Option.some.inj some₁)
  have status₂ := Option.some.inj some₂
  have status₃ := Option.some.inj some₃
  obtain ⟨rfl, rfl⟩ := equal (by rw [status₁]; decide) (by rw [status₂]; decide)
  exact ⟨g₁, g, store₁, store, run₁, run₂, handles, run,
    similar (by rw [status₁]; decide) (by rw [status₃]; decide)⟩

end PlanFeatures
