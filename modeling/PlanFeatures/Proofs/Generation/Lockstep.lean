import PlanFeatures.Proofs.Generation.Paired
import PlanFeatures.Proofs.Generation.Steady
import PlanFeatures.Proofs.Generation.Twins

/-!
# Two runs in lockstep

Two runs over one sample, with two stores and configurations that differ at most in their
rules, take the same steps for a rule that both have on, as long as neither runs out of
time.  What they keep are twins, their features as well, and what they count remains
related.  A step sees no more of its store than twins have in common: the trees of
candidates, the vectors of the trees, and which operands are the same.
-/

namespace PlanFeatures

open List

/-- A configuration with other rules. -/
def Config.withRules (config : Config) (rules : RuleSet) : Config := { config with rules }

/-- A relation between the counts of two runs survives that both count for a rule. -/
structure Statistics.Stable (counted : Statistics → Statistics → Prop) (rule : Rule) : Prop where
  counts : ∀ {t u : Statistics}, counted t u → ∀ f,
    counted (t.modifyRule rule f) (u.modifyRule rule f)
  evaluations : ∀ {t u : Statistics}, counted t u → ∀ n,
    counted { t with evaluations := t.evaluations + n } { u with evaluations := u.evaluations + n }

namespace Session
variable {counted : Statistics → Statistics → Prop} {base base₂ : Store} {s₁ s₂ : Session}

/-- The features of two runs that take the same steps. -/
structure SameFeature (s s' : Store) (f g : Feature) : Prop where
  twins : s.Twins s' f.handle g.handle
  complexity : f.complexity = g.complexity
  text : f.text = g.text

theorem SameFeature.extends {s s' u u' : Store} {f g : Feature} (same : SameFeature s s' f g)
    (grown : s.Extends u) (grown' : s'.Extends u') : SameFeature u u' f g :=
  ⟨same.twins.extends grown grown', same.complexity, same.text⟩

/-- What two runs have in common, the second of which started from a store. -/
structure Alongside (counted : Statistics → Statistics → Prop) (base₂ : Store)
    (s₁ s₂ : Session) : Prop where
  kept : Forall₂ (fun x y => s₁.store.Twins s₂.store x.1 y.1 ∧ x.2 = y.2) s₁.representatives.kept
    s₂.representatives.kept
  features : Forall₂ (SameFeature s₁.store s₂.store) s₁.features.toList s₂.features.toList
  statistics : counted s₁.statistics s₂.statistics
  /-- What the second run has added is in the store of the first. -/
  added : ∀ h, s₂.store.Has h → base₂.Has h ∨ ∃ g, s₁.store.Twins s₂.store g h

theorem Alongside.start (zero : counted .zero .zero) (base₁ base₂ : Store) (states : List State) :
    Alongside counted base₂ (start base₁ states) (start base₂ states) where
  kept := .nil
  features := .nil
  statistics := zero
  added _ has := Or.inl has

/-- Only stores, representatives, features and counts matter. -/
theorem Alongside.aside (alongside : Alongside counted base₂ s₁ s₂) {s₁' s₂' : Session}
    (store₁ : s₁'.store = s₁.store) (store₂ : s₂'.store = s₂.store)
    (kept₁ : s₁'.representatives = s₁.representatives)
    (kept₂ : s₂'.representatives = s₂.representatives) (features₁ : s₁'.features = s₁.features)
    (features₂ : s₂'.features = s₂.features) (statistics : counted s₁'.statistics s₂'.statistics) :
    Alongside counted base₂ s₁' s₂' where
  kept := by rw [store₁, store₂, kept₁, kept₂]; exact alongside.kept
  features := by rw [store₁, store₂, features₁, features₂]; exact alongside.features
  statistics := statistics
  added := by rw [store₁, store₂]; exact alongside.added

/-- Both runs consider a candidate that is new to them. -/
theorem Alongside.considered (alongside : Alongside counted base₂ s₁ s₂) {s₁' s₂' : Session}
    {rule : Rule} (stable : Statistics.Stable counted rule) {m n : Node} {h g : Handle}
    (first : s₁.Added rule m h s₁') (second : s₂.Added rule n g s₂')
    (twins : s₁'.store.Twins s₂'.store h g) : Alongside counted base₂ s₁' s₂' where
  kept := by
    rw [first.kept, second.kept]
    exact alongside.kept.imp fun _ _ same =>
      ⟨same.1.extends first.inserted.grown second.inserted.grown, same.2⟩
  features := by
    rw [first.features, second.features]
    exact alongside.features.imp fun _ _ same =>
      same.extends first.inserted.grown second.inserted.grown
  statistics := by
    rw [first.statistics, second.statistics]
    exact stable.counts alongside.statistics _
  added h' has := by
    rcases second.inserted.only has with before | rfl
    · refine (alongside.added h' before).imp id ?_
      rintro ⟨g', same⟩
      exact ⟨g', same.extends first.inserted.grown second.inserted.grown⟩
    · exact Or.inr ⟨h, twins⟩

/-- A kind and vector are represented in both runs or in none. -/
theorem Alongside.represented (alongside : Alongside counted base₂ s₁ s₂) (kind : Kind)
    (vector : ExtensionVector) :
    (∃ r, (r, vector) ∈ s₁.representatives.kept ∧ r.kind = kind)
      ↔ ∃ r, (r, vector) ∈ s₂.representatives.kept ∧ r.kind = kind := by
  have keys : s₁.representatives.kept.map (fun x => (x.1.kind, x.2))
      = s₂.representatives.kept.map fun x => (x.1.kind, x.2) := by
    rw [← forall₂_eq_eq_eq]
    exact rel_map (fun _ _ same => Prod.ext same.1.kind same.2) alongside.kept
  have mem_keys : ∀ kept : List (Handle × ExtensionVector),
      (kind, vector) ∈ kept.map (fun x => (x.1.kind, x.2))
        ↔ ∃ r, (r, vector) ∈ kept ∧ r.kind = kind := by
    intro kept
    simp only [mem_map, Prod.mk.injEq, Prod.exists, exists_eq_right_right]
  rw [← mem_keys, ← mem_keys, keys]

/-! ## Layers -/

theorem forall₂_keptAt {s s' : Store} {kept kept' : List (Handle × ExtensionVector)}
    (related : Forall₂ (fun x y => s.Twins s' x.1 y.1 ∧ x.2 = y.2) kept kept') (kind : Kind)
    (k : Nat) : Forall₂ (s.SameTree s') (s.keptAt kept kind k) (s'.keptAt kept' kind k) := by
  have handles : Forall₂ (s.Twins s') (kept.map Prod.fst) (kept'.map Prod.fst) :=
    rel_map (fun _ _ same => same.1) related
  refine rel_reverse (rel_map (fun _ _ twins => twins.sameTree) (rel_filter ?_ handles))
  intro h g twins
  simp only [decide_eq_true_eq, twins.kind, twins.complexity]

theorem Alongside.layers (alongside : Alongside counted base₂ s₁ s₂) {states : List State}
    {config₁ config₂ : Config} {k : Nat} (sound₁ : s₁.Sound base states config₁ k)
    (sound₂ : s₂.Sound base₂ states config₂ k) (kind : Kind) (i : Nat) :
    Forall₂ (s₁.store.SameTree s₂.store) (s₁.frontier.layer kind i) (s₂.frontier.layer kind i) := by
  have size₁ := sound₁.layered.size
  have size₂ := sound₂.layered.size
  by_cases beyond : s₁.frontier.layers.size < i
  · rw [Frontier.layer_of_size_lt beyond, Frontier.layer_of_size_lt (by omega)]
    exact .nil
  · cases feature : kind.isFeature with
    | true =>
      rw [Frontier.layer_of_isFeature feature, Frontier.layer_of_isFeature feature]
      exact .nil
    | false =>
      -- The closed layers list what was kept.
      rw [← Frontier.layer_close (l := s₁.layer) (by omega), sound₁.layered.listed kind feature i,
        ← Frontier.layer_close (l := s₂.layer) (by omega), sound₂.layered.listed kind feature i]
      exact forall₂_keptAt alongside.kept kind i

end Session

/-- Twins have the same vectors, place by place. -/
theorem forall₂_zip_vectors {s s' : Store} {states : List State}
    {fresh fresh' : List (Handle × Node)}
    (twins : Forall₂ (fun p q => s.Twins s' p.1 q.1) fresh fresh')
    {vectors vectors' : List ExtensionVector} (length : vectors.length = fresh.length)
    (length' : vectors'.length = fresh'.length)
    (denotes : ∀ q ∈ fresh.zip vectors, s.Denotes states q.1.1 q.2)
    (denotes' : ∀ q ∈ fresh'.zip vectors', s'.Denotes states q.1.1 q.2) :
    Forall₂ (fun x y => s.Twins s' x.1.1 y.1.1 ∧ x.2 = y.2) (fresh.zip vectors)
      (fresh'.zip vectors') := by
  induction twins generalizing vectors vectors' with
  | nil => exact .nil
  | cons here _ ih =>
    cases vectors with
    | nil => cases length
    | cons v vectors =>
      cases vectors' with
      | nil => cases length'
      | cons v' vectors' =>
        have same := here.vector_eq (denotes _ List.mem_cons_self) (denotes' _ List.mem_cons_self)
        exact .cons ⟨here, same⟩ (ih (Nat.succ.inj length) (Nat.succ.inj length')
          (fun q member => denotes q (List.mem_cons_of_mem _ member))
          (fun q member => denotes' q (List.mem_cons_of_mem _ member)))

namespace Search
open Session
variable {counted : Statistics → Statistics → Prop} {base₁ base₂ : Store} {states : List State}
  {config : Config} {rules : RuleSet} {k : Nat} {rule : Rule} {s₁ s₂ : Session}
  {stopped : Session → Session → Prop}

/-! ## Steps -/

theorem checkClock_paired (clock₁ clock₂ : Clock) (s₁ s₂ : Session) :
    Paired (checkClock clock₁) (checkClock clock₂) s₁ s₂
      (fun _ _ s₁' s₂' => s₁' = { s₁ with looks := s₁.looks + 1 } ∧
        s₂' = { s₂ with looks := s₂.looks + 1 })
      stopped := by
  simp only [checkClock, Paired.modifyGet_bind_iff]
  intro live₁ live₂
  split at live₁
  next => exact absurd rfl live₁
  next early₁ =>
    split at live₂
    next => exact absurd rfl live₂
    next early₂ =>
      rw [if_neg early₁, if_neg early₂]
      exact ⟨rfl, rfl⟩

section
variable (stable : Statistics.Stable counted rule)
include stable

/-- Both candidates are duplicates, or both are kept. -/
theorem register_paired (wf₁ : s₁.store.WellFormed) (wf₂ : s₂.store.WellFormed)
    (vocabulary : s₂.store.vocabulary = s₁.store.vocabulary)
    (alongside : Alongside counted base₂ s₁ s₂) {h g : Handle}
    (twins : s₁.store.Twins s₂.store h g) (vector : ExtensionVector) (featureLimit : Nat) :
    Paired (register featureLimit rule h vector) (register featureLimit rule g vector) s₁ s₂
      (fun _ _ s₁' s₂' => Alongside counted base₂ s₁' s₂' ∧ s₁'.store = s₁.store ∧
        s₂'.store = s₂.store)
      (Alongside counted base₂) := by
  have represented := alongside.represented h.kind vector
  obtain ⟨kept, features, statistics, added⟩ := alongside
  simp only [register, count, Paired.modifyGet_bind_iff, Paired.modify_bind_iff]
  rcases Representatives.insert_cases s₁.representatives h vector with
    ⟨r₁, kept₁, kind₁, inserted₁⟩ | ⟨fresh₁, inserted₁⟩ <;>
  rcases Representatives.insert_cases s₂.representatives g vector with
    ⟨r₂, kept₂, kind₂, inserted₂⟩ | ⟨fresh₂, inserted₂⟩
  · simp only [inserted₁, inserted₂, reduceCtorEq, if_false]
    -- Both are counted as duplicates, whatever they are duplicates of.
    have statistics' := stable.counts statistics (·.record (.duplicate r₁))
    exact Paired.pure ⟨⟨kept, features, statistics', added⟩, rfl, rfl⟩
  · obtain ⟨r, member, kind⟩ := represented.mp ⟨r₁, kept₁, kind₁⟩
    exact absurd (kind.trans twins.kind) (fresh₂ r member)
  · obtain ⟨r, member, kind⟩ := represented.mpr ⟨r₂, kept₂, kind₂.trans twins.kind.symm⟩
    exact absurd kind (fresh₁ r member)
  · simp only [inserted₁, inserted₂, if_true]
    have kept' : Forall₂ (fun x y => s₁.store.Twins s₂.store x.1 y.1 ∧ x.2 = y.2)
        ((h, vector) :: s₁.representatives.kept) ((g, vector) :: s₂.representatives.kept) :=
      .cons ⟨twins, rfl⟩ kept
    have statistics' := stable.counts statistics (·.record .kept)
    rw [← twins.kind]
    cases feature : h.kind.isFeature with
    | true =>
      obtain ⟨same, text, ⟨n, counted₁, counted₂⟩, _⟩ := twins.copied wf₁ wf₂ vocabulary
      have made₁ : Feature.ofHandle? s₁.store h = some ⟨h, n, s₁.store.text h⟩ := by
        simp [Feature.ofHandle?, feature, counted₁]
      have made₂ : Feature.ofHandle? s₂.store g = some ⟨g, n, s₁.store.text h⟩ := by
        simp [Feature.ofHandle?, same, feature, counted₂, text]
      have features' : Forall₂ (SameFeature s₁.store s₂.store)
          (s₁.features.push ⟨h, n, s₁.store.text h⟩).toList
          (s₂.features.push ⟨g, n, s₁.store.text h⟩).toList := by
        rw [Array.toList_push, Array.toList_push]
        exact rel_append features (.cons ⟨twins, rfl, rfl⟩ .nil)
      have size : (s₁.features.push ⟨h, n, s₁.store.text h⟩).size
          = (s₂.features.push ⟨g, n, s₁.store.text h⟩).size := features'.length_eq
      simp only [emit, if_true, Paired.get_bind_iff, made₁, made₂, Paired.modify_bind_iff, size]
      split
      next => exact Paired.throw _ ⟨kept', features', statistics', added⟩
      next => exact Paired.pure ⟨⟨kept', features', statistics', added⟩, rfl, rfl⟩
    | false =>
      simp only [Bool.false_eq_true, if_false]
      exact Paired.modify ⟨⟨kept', features, statistics', added⟩, rfl, rfl⟩

theorem registerAll_paired (wf₁ : s₁.store.WellFormed) (wf₂ : s₂.store.WellFormed)
    (vocabulary : s₂.store.vocabulary = s₁.store.vocabulary)
    (alongside : Alongside counted base₂ s₁ s₂)
    {items₁ items₂ : List ((Handle × Node) × ExtensionVector)}
    (related : Forall₂ (fun x y => s₁.store.Twins s₂.store x.1.1 y.1.1 ∧ x.2 = y.2) items₁ items₂)
    (featureLimit : Nat) :
    Paired (items₁.forM fun q => register featureLimit rule q.1.1 q.2)
      (items₂.forM fun q => register featureLimit rule q.1.1 q.2) s₁ s₂
      (fun _ _ s₁' s₂' => Alongside counted base₂ s₁' s₂') (Alongside counted base₂) := by
  let invariant (_ _ : List ((Handle × Node) × ExtensionVector)) (s₁' s₂' : Session) : Prop :=
    Alongside counted base₂ s₁' s₂' ∧ s₁'.store = s₁.store ∧ s₂'.store = s₂.store
  refine (Paired.forM invariant ?_ related ⟨alongside, rfl, rfl⟩).imp_done
    fun _ _ _ _ last => last.1
  rintro ⟨⟨h, m⟩, vector⟩ ⟨⟨g, n⟩, _⟩ rest₁ rest₂ s₁' s₂' ⟨twins, rfl⟩ ⟨alongside', store₁, store₂⟩
  rw [← store₁, ← store₂] at twins vocabulary
  refine (register_paired stable (store₁ ▸ wf₁) (store₂ ▸ wf₂) vocabulary alongside' twins vector
    featureLimit).imp_done ?_
  rintro _ _ s₁'' s₂'' ⟨alongside'', same₁, same₂⟩
  exact ⟨alongside'', same₁.trans store₁, same₂.trans store₂⟩

/-! ## Batches -/

theorem considerAll_paired {config₁ config₂ : Config} (alongside : Alongside counted base₂ s₁ s₂)
    (sound₁ : s₁.Sound base₁ states config₁ k) (sound₂ : s₂.Sound base₂ states config₂ k)
    {done₁ done₂ : List (Handle × Node)} {todo₁ todo₂ batch₁ batch₂ : List Node}
    (traced₁ : s₁.Traced config₁ done₁ (batch₁ ++ todo₁))
    (traced₂ : s₂.Traced config₂ done₂ (batch₂ ++ todo₂))
    (proposed₁ : ∀ node ∈ batch₁, Proposed base₁ config₁ k s₁.frontier node)
    (proposed₂ : ∀ node ∈ batch₂, Proposed base₂ config₂ k s₂.frontier node)
    (spells : Forall₂ (s₁.store.Spells s₂.store) batch₁ batch₂) :
    Paired (batch₁.mapM (consider rule)) (batch₂.mapM (consider rule)) s₁ s₂
      (fun results₁ results₂ s₁' s₂' => ∃ fresh₁ fresh₂, results₁ = fresh₁.map some ∧
        results₂ = fresh₂.map some ∧
        Considering base₁ states config₁ k done₁ todo₁ batch₁ s₁ [] fresh₁ s₁' ∧
        Considering base₂ states config₂ k done₂ todo₂ batch₂ s₂ [] fresh₂ s₂' ∧
        Forall₂ (fun p q => s₁'.store.Twins s₂'.store p.1 q.1) fresh₁ fresh₂ ∧
        Alongside counted base₂ s₁' s₂')
      stopped := by
  let invariant (rest₁ rest₂ : List Node) (results₁ results₂ : List (Option (Handle × Node)))
      (s₁' s₂' : Session) : Prop :=
    ∃ fresh₁ fresh₂, results₁ = fresh₁.map some ∧ results₂ = fresh₂.map some ∧
      Considering base₁ states config₁ k done₁ todo₁ batch₁ s₁ rest₁ fresh₁ s₁' ∧
      Considering base₂ states config₂ k done₂ todo₂ batch₂ s₂ rest₂ fresh₂ s₂' ∧
      Forall₂ (fun p q => s₁'.store.Twins s₂'.store p.1 q.1) fresh₁ fresh₂ ∧
      Alongside counted base₂ s₁' s₂'
  have start : invariant batch₁ batch₂ [] [] s₁ s₂ :=
    ⟨[], [], rfl, rfl, considering_start sound₁ traced₁, considering_start sound₂ traced₂, .nil,
      alongside⟩
  refine Paired.mapM invariant ?_ spells [] [] start
  rintro m n rest₁ rest₂ _ _ s₁' s₂' spells
    ⟨fresh₁, fresh₂, rfl, rfl, considering₁, considering₂, twins, alongside'⟩
  refine Paired.of_outcomes (considering₁.step proposed₁ rule) (considering₂.step proposed₂ rule) ?_
  rintro _ _ s₁'' s₂'' ⟨h, rfl, added₁, considering₁'⟩ ⟨g, rfl, added₂, considering₂'⟩
  -- The new handles stand for the tree that both nodes spell.
  have last : ∀ {done fresh : List (Handle × Node)} {p : Handle × Node},
      p ∈ done ++ (fresh ++ [p]) := fun {done fresh p} => by simp
  have interned₁ := considering₁'.traced.interned _ last
  have interned₂ := considering₂'.traced.interned _ last
  have here := Store.twins_of_interned
    (spells.extends considering₁'.onward.store considering₂'.onward.store) interned₁ interned₂
  have twins' : Forall₂ (fun p q => s₁''.store.Twins s₂''.store p.1 q.1) (fresh₁ ++ [(h, m)])
      (fresh₂ ++ [(g, n)]) := by
    refine rel_append (twins.imp fun _ _ same => ?_) (.cons here .nil)
    exact same.extends added₁.inserted.grown added₂.inserted.grown
  exact ⟨fresh₁ ++ [(h, m)], fresh₂ ++ [(g, n)], by rw [map_append]; rfl, by rw [map_append]; rfl,
    considering₁', considering₂', twins', alongside'.considered stable added₁ added₂ here⟩

/-- Two steady runs at corresponding places of their agendas. -/
structure Lockstep (counted : Statistics → Statistics → Prop) (base₁ base₂ : Store)
    (states : List State) (config : Config) (rules : RuleSet) (k : Nat) (todo₁ todo₂ : List Node)
    (s₁ s₂ : Session) : Prop where
  first : s₁.Steady base₁ states config k todo₁
  second : s₂.Steady base₂ states (config.withRules rules) k todo₂
  alongside : Alongside counted base₂ s₁ s₂

variable (vocabulary : base₂.vocabulary = base₁.vocabulary)
  (sample : ∀ state ∈ states, state.Over base₁.vocabulary) {todo₁ todo₂ : List Node}
include vocabulary sample

theorem processBatch_alongside {batch₁ batch₂ : List Node}
    (lockstep : Lockstep counted base₁ base₂ states config rules k (batch₁ ++ todo₁)
      (batch₂ ++ todo₂) s₁ s₂)
    (proposed₁ : ∀ node ∈ batch₁, Proposed base₁ config k s₁.frontier node)
    (proposed₂ : ∀ node ∈ batch₂, Proposed base₂ (config.withRules rules) k s₂.frontier node)
    (spells : Forall₂ (s₁.store.Spells s₂.store) batch₁ batch₂) (clock₁ clock₂ : Clock) :
    Paired (processBatch config clock₁ rule batch₁)
      (processBatch (config.withRules rules) clock₂ rule batch₂) s₁ s₂
      (fun _ _ s₁' s₂' => Alongside counted base₂ s₁' s₂') (Alongside counted base₂) := by
  obtain ⟨⟨sound₁, _, done₁, traced₁, _⟩, ⟨sound₂, _, done₂, traced₂, _⟩, alongside⟩ := lockstep
  have sample₂ : ∀ state ∈ states, state.Over base₂.vocabulary := vocabulary ▸ sample
  rw [processBatch_eq, processBatch_eq]
  refine (checkClock_paired clock₁ clock₂ s₁ s₂).bind ?_
  rintro _ _ _ _ ⟨rfl, rfl⟩
  have looked₁ := s₁.undisturbed_looks (s₁.looks + 1)
  have looked₂ := s₂.undisturbed_looks (s₂.looks + 1)
  have alongside' : Alongside counted base₂ { s₁ with looks := s₁.looks + 1 }
      { s₂ with looks := s₂.looks + 1 } :=
    alongside.aside rfl rfl rfl rfl rfl rfl alongside.statistics
  refine (considerAll_paired stable alongside' (sound₁.aside s₁.statistics (s₁.looks + 1))
    (sound₂.aside s₂.statistics (s₂.looks + 1)) (traced₁.undisturbed looked₁)
    (traced₂.undisturbed looked₂) proposed₁ proposed₂ spells).bind ?_
  rintro _ _ s₁' s₂' ⟨fresh₁, fresh₂, rfl, rfl, considering₁, considering₂, twins, alongside'⟩
  have results₁ : (fresh₁.map some).filterMap id = fresh₁ := by simp
  have results₂ : (fresh₂.map some).filterMap id = fresh₂ := by simp
  simp only [results₁, results₂]
  have evaluated₁ := evaluateAll_outcome considering₁.sound sample (considering₁.proposed proposed₁)
  have evaluated₂ :=
    evaluateAll_outcome considering₂.sound sample₂ (considering₂.proposed proposed₂)
  refine Paired.bind (Paired.of_outcomes evaluated₁ evaluated₂ fun _ _ _ _ first second =>
    And.intro first second) ?_
  rintro vectors₁ vectors₂ s₁' s₂' ⟨⟨rfl, length₁, ready₁⟩, rfl, length₂, ready₂⟩
  rw [Paired.modify_bind_iff]
  have items := forall₂_zip_vectors twins length₁ length₂
    (fun q member => (ready₁ q member).denotes) fun q member => (ready₂ q member).denotes
  have count : vectors₁.length = vectors₂.length := by
    rw [length₁, length₂, twins.length_eq]
  let counted₁ : Session :=
    { s₁' with statistics.evaluations := s₁'.statistics.evaluations + vectors₁.length }
  let counted₂ : Session :=
    { s₂' with statistics.evaluations := s₂'.statistics.evaluations + vectors₂.length }
  have evaluations : Alongside counted base₂ counted₁ counted₂ := by
    refine alongside'.aside rfl rfl rfl rfl rfl rfl ?_
    simp only [counted₁, counted₂, count]
    exact stable.evaluations alongside'.statistics _
  have vocabulary' : counted₂.store.vocabulary = counted₁.store.vocabulary := by
    rw [considering₁.sound.vocabulary, considering₂.sound.vocabulary, vocabulary]
  have wf₁ : counted₁.store.WellFormed := considering₁.sound.wellFormed
  have wf₂ : counted₂.store.WellFormed := considering₂.sound.wellFormed
  exact registerAll_paired stable wf₁ wf₂ vocabulary' evaluations items config.featureLimit

theorem processBatch_paired {batch₁ batch₂ : List Node}
    (lockstep : Lockstep counted base₁ base₂ states config rules k (batch₁ ++ todo₁)
      (batch₂ ++ todo₂) s₁ s₂)
    (proposed₁ : ∀ node ∈ batch₁, Proposed base₁ config k s₁.frontier node)
    (proposed₂ : ∀ node ∈ batch₂, Proposed base₂ (config.withRules rules) k s₂.frontier node)
    (spells : Forall₂ (s₁.store.Spells s₂.store) batch₁ batch₂) (clock₁ clock₂ : Clock) :
    Paired (processBatch config clock₁ rule batch₁)
      (processBatch (config.withRules rules) clock₂ rule batch₂) s₁ s₂
      (fun _ _ s₁' s₂' => Lockstep counted base₁ base₂ states config rules k todo₁ todo₂ s₁' s₂' ∧
        s₁.Onward s₁' ∧ s₂.Onward s₂')
      (Alongside counted base₂) := by
  have sample₂ : ∀ state ∈ states, state.Over base₂.vocabulary := vocabulary ▸ sample
  have processed := processBatch_alongside stable vocabulary sample lockstep proposed₁ proposed₂
    spells clock₁ clock₂
  refine (processed.and (processBatch_steady sample lockstep.first proposed₁ clock₁ rule)
    (processBatch_steady sample₂ lockstep.second proposed₂ clock₂ rule)).imp ?_
    fun _ _ stop => stop.1
  rintro _ _ s₁' s₂' ⟨alongside, ⟨steady₁, onward₁⟩, steady₂, onward₂⟩
  exact ⟨⟨steady₁, steady₂, alongside⟩, onward₁, onward₂⟩

/-! ## Rules and layers -/

/-- A rule that is on in both runs. -/
theorem processRule_paired (enabled₁ : config.rules.isEnabled rule = true)
    (enabled₂ : rules.isEnabled rule = true)
    (lockstep : Lockstep counted base₁ base₂ states config rules k
      (s₁.frontier.permitted base₁.vocabulary config k rule ++ todo₁)
      (s₂.frontier.permitted base₂.vocabulary config k rule ++ todo₂) s₁ s₂)
    (clock₁ clock₂ : Clock) :
    Paired (processRule config clock₁ k rule) (processRule (config.withRules rules) clock₂ k rule)
      s₁ s₂
      (fun _ _ s₁' s₂' => Lockstep counted base₁ base₂ states config rules k todo₁ todo₂ s₁' s₂' ∧
        s₁.Onward s₁' ∧ s₂.Onward s₂')
      (Alongside counted base₂) := by
  obtain ⟨steady₁, steady₂, alongside⟩ := lockstep
  have limits : (config.withRules rules).limits = config.limits := rfl
  rw [processRule_eq, processRule_eq]
  unfold Frontier.permitted at steady₁ steady₂
  rw [limits]
  split
  next within =>
    rw [if_pos within] at steady₁ steady₂
    rw [Paired.get_bind_iff, steady₁.sound.vocabulary, steady₂.sound.vocabulary]
    have spells : Forall₂ (s₁.store.Spells s₂.store)
        (s₁.frontier.candidates base₁.vocabulary rule k)
        (s₂.frontier.candidates base₂.vocabulary rule k) := by
      rw [vocabulary]
      exact Frontier.forall₂_candidates steady₁.sound.wellFormed steady₂.sound.wellFormed
        (alongside.layers steady₁.sound steady₂.sound) _ rule k
    have proposed₁ := fun node => @steady₁.sound.proposed _ _ _ _ _ rule enabled₁ within node
    have proposed₂ := fun node => @steady₂.sound.proposed _ _ _ _ _ rule enabled₂ within node
    revert proposed₁ proposed₂ spells steady₁ steady₂
    generalize s₁.frontier.candidates base₁.vocabulary rule k = candidates₁
    generalize s₂.frontier.candidates base₂.vocabulary rule k = candidates₂
    intro steady₁ steady₂ spells proposed₁ proposed₂
    let invariant (rest₁ rest₂ : List (List Node)) (s₁' s₂' : Session) : Prop :=
      Lockstep counted base₁ base₂ states config rules k (rest₁.flatten ++ todo₁)
          (rest₂.flatten ++ todo₂) s₁' s₂' ∧
        (s₁.Onward s₁' ∧ ∀ node ∈ rest₁.flatten, node ∈ candidates₁) ∧
        s₂.Onward s₂' ∧ ∀ node ∈ rest₂.flatten, node ∈ candidates₂
    have start : invariant (batches config.batchSize candidates₁)
        (batches config.batchSize candidates₂) s₁ s₂ := by
      refine ⟨?_, ⟨.refl s₁, ?_⟩, .refl s₂, ?_⟩
      · rw [flatten_batches, flatten_batches]
        exact ⟨steady₁, steady₂, alongside⟩
      · rw [flatten_batches]
        exact fun node member => member
      · rw [flatten_batches]
        exact fun node member => member
    refine (Paired.forM invariant ?_ (forall₂_batches config.batchSize spells) start).imp_done ?_
    · rintro batch₁ batch₂ rest₁ rest₂ s₁' s₂' related
        ⟨lockstep, ⟨onward₁, inside₁⟩, onward₂, inside₂⟩
      have here₁ : ∀ node ∈ batch₁, Proposed base₁ config k s₁'.frontier node :=
        fun node member =>
          onward₁.proposed (proposed₁ node (inside₁ node (mem_append_left _ member)))
      have here₂ : ∀ node ∈ batch₂, Proposed base₂ (config.withRules rules) k s₂'.frontier node :=
        fun node member =>
          onward₂.proposed (proposed₂ node (inside₂ node (mem_append_left _ member)))
      rw [flatten_cons, flatten_cons, append_assoc, append_assoc] at lockstep
      refine (processBatch_paired stable vocabulary sample lockstep here₁ here₂
        (related.imp fun _ _ spells => spells.extends onward₁.store onward₂.store) clock₁
        clock₂).imp_done ?_
      rintro _ _ s₁'' s₂'' ⟨lockstep', more₁, more₂⟩
      exact ⟨lockstep',
        ⟨onward₁.trans more₁, fun node member => inside₁ node (mem_append_right _ member)⟩,
        onward₂.trans more₂, fun node member => inside₂ node (mem_append_right _ member)⟩
    · rintro _ _ s₁' s₂' ⟨lockstep, ⟨onward₁, _⟩, onward₂, _⟩
      exact ⟨lockstep, onward₁, onward₂⟩
  next beyond =>
    rw [if_neg beyond] at steady₁ steady₂
    exact Paired.pure ⟨⟨steady₁, steady₂, alongside⟩, .refl s₁, .refl s₂⟩

end

end Search
end PlanFeatures
