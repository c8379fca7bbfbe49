import PlanFeatures.Proofs.Generation.Batches

/-!
# Whole runs

A run is sound wherever it stops, and it never fails.  A run that comes to its end
has represented every candidate: for each complexity and each rule that is on and
within its limit, all the nodes that the rule builds from kept operands.
-/

namespace PlanFeatures

namespace Session
variable {base : Store} {states : List State} {config : Config} {k : Nat} {s s' : Session}

theorem Sound.proposed (sound : s.Sound base states config k) {rule : Rule}
    (enabled : config.rules.isEnabled rule = true) (within : k ≤ config.limits.forRule rule)
    {node : Node} (member : node ∈ s.frontier.candidates base.vocabulary rule k) :
    Proposed base config k s.frontier node := by
  have positive : 0 < k := by
    have size := sound.layered.size
    omega
  have separate := sound.layered.separate sound.representatives.nodup
  have candidate := Frontier.candidate_of_mem separate positive member
  exact {
    candidate := candidate.rule.symm ▸ candidate
    enabled := candidate.rule.symm ▸ enabled
    within := candidate.rule.symm ▸ within }

/-- All candidates of the rules that are on are represented, up to layer `k`. -/
def Done (base : Store) (states : List State) (config : Config) (k : Nat) (s : Session) : Prop :=
  ∀ j, 0 < j → j < k → ∀ rule, config.rules.isEnabled rule = true →
    j ≤ config.limits.forRule rule →
      ∀ node ∈ s.frontier.candidates base.vocabulary rule j, s.Covers states node

end Session

namespace Search
open Session
variable {base : Store} {states : List State} {config : Config} {k : Nat} {s : Session}
  (sample : ∀ state ∈ states, state.Over base.vocabulary)
include sample

/-! ## Rules -/

theorem processRule_outcome (sound : s.Sound base states config k) (settled : s.Settled [])
    {rule : Rule} (enabled : config.rules.isEnabled rule = true) (clock : Clock) :
    Outcome (processRule config clock k rule) s
      (fun _ s' => s'.Sound base states config k ∧ s.Onward s' ∧ s'.Settled [] ∧
        (k ≤ config.limits.forRule rule →
          ∀ node ∈ s.frontier.candidates base.vocabulary rule k, s'.Covers states node))
      (Halted base states config) := by
  rw [processRule_eq]
  split
  next within =>
    simp only [Outcome.bind_iff, Outcome.get_iff]
    rw [sound.vocabulary]
    have proposed := fun node => @sound.proposed _ _ _ _ _ rule enabled within node
    revert proposed
    generalize s.frontier.candidates base.vocabulary rule k = candidates
    intro proposed
    -- A candidate is in a batch that is left or it is represented.
    let invariant (rest : List (List Node)) (s' : Session) : Prop :=
      s'.Sound base states config k ∧ s.Onward s' ∧ s'.Settled [] ∧
        (∀ node ∈ rest.flatten, node ∈ candidates) ∧
        ∀ node ∈ candidates, node ∈ rest.flatten ∨ s'.Covers states node
    have start : invariant (batches config.batchSize candidates) s := by
      refine ⟨sound, .refl s, settled, ?_, ?_⟩
      · rw [flatten_batches]
        exact fun node member => member
      · rw [flatten_batches]
        exact fun node member => Or.inl member
    refine (Outcome.forM_of_invariant invariant ?_ _ start).imp_done ?_
    · rintro batch rest s₁ ⟨sound₁, onward₁, settled₁, inside, covered⟩
      have proposed₁ : ∀ node ∈ batch, Proposed base config k s₁.frontier node :=
        fun node member =>
          onward₁.proposed (proposed node (inside node (List.mem_append_left _ member)))
      refine (processBatch_outcome sound₁ settled₁ sample proposed₁ clock rule).imp_done ?_
      rintro _ s₂ ⟨sound₂, onward₂, settled₂, here⟩
      refine ⟨sound₂, onward₁.trans onward₂, settled₂, fun node member =>
        inside node (List.mem_append_right _ member), fun node member => ?_⟩
      rcases covered node member with left | covers
      · exact (List.mem_append.mp left).symm.imp id (here node)
      · exact Or.inr (covers.onward sound₁ onward₂)
    · rintro _ s' ⟨sound', onward, settled', _, covered⟩
      exact ⟨sound', onward, settled', fun _ node member =>
        (covered node member).resolve_left List.not_mem_nil⟩
  next beyond => exact ⟨sound, .refl s, settled, fun within => absurd within beyond⟩

theorem processRules_outcome (sound : s.Sound base states config k) (settled : s.Settled [])
    (clock : Clock) :
    Outcome (config.rules.enabled.forM (processRule config clock k)) s
      (fun _ s' => s'.Sound base states config k ∧ s.Onward s' ∧ s'.Settled [] ∧
        ∀ rule, config.rules.isEnabled rule = true → k ≤ config.limits.forRule rule →
          ∀ node ∈ s.frontier.candidates base.vocabulary rule k, s'.Covers states node)
      (Halted base states config) := by
  let invariant (rest : List Rule) (s' : Session) : Prop :=
    s'.Sound base states config k ∧ s.Onward s' ∧ s'.Settled [] ∧
      (∀ rule ∈ rest, config.rules.isEnabled rule = true) ∧
      ∀ rule, config.rules.isEnabled rule = true → k ≤ config.limits.forRule rule →
        rule ∈ rest ∨ ∀ node ∈ s.frontier.candidates base.vocabulary rule k, s'.Covers states node
  have start : invariant config.rules.enabled s :=
    ⟨sound, .refl s, settled, fun rule member => (List.mem_filter.mp member).2,
      fun rule enabled _ => Or.inl (List.mem_filter.mpr ⟨rule.mem_all, enabled⟩)⟩
  refine (Outcome.forM_of_invariant invariant ?_ _ start).imp_done ?_
  · rintro rule rest s₁ ⟨sound₁, onward₁, settled₁, enabled, covered⟩
    have processed :=
      processRule_outcome sample sound₁ settled₁ (enabled rule List.mem_cons_self) clock
    refine processed.imp_done ?_
    rintro _ s₂ ⟨sound₂, onward₂, settled₂, here⟩
    rw [onward₁.frontier] at here
    refine ⟨sound₂, onward₁.trans onward₂, settled₂, fun r member =>
      enabled r (List.mem_cons_of_mem _ member), fun r on within => ?_⟩
    rcases covered r on within with left | covers
    · rcases List.mem_cons.mp left with rfl | left
      · exact Or.inr (here within)
      · exact Or.inl left
    · exact Or.inr fun node member => (covers node member).onward sound₁ onward₂
  · rintro _ s' ⟨sound', onward, settled', _, covered⟩
    exact ⟨sound', onward, settled', fun rule on within =>
      (covered rule on within).resolve_left List.not_mem_nil⟩

/-! ## Layers -/

omit sample in
theorem closeLayer_outcome (sound : s.Sound base states config k) (settled : s.Settled [])
    (done : s.Done base states config (k + 1)) :
    Outcome (closeLayer k) s
      (fun _ s' => s'.Sound base states config (k + 1) ∧ s'.Settled [] ∧
        s'.Done base states config (k + 1))
      (Halted base states config) := by
  simp only [closeLayer, Outcome.modify_iff]
  refine ⟨sound.close _, settled, ?_⟩
  intro j positive below rule enabled within node member
  have size := sound.layered.size
  -- Candidates take their operands from lower layers than their own, which were closed before.
  have same : (s.frontier.close s.layer).candidates base.vocabulary rule j
      = s.frontier.candidates base.vocabulary rule j :=
    Frontier.candidates_congr fun kind i less => Frontier.layer_close (by omega)
  rw [same] at member
  exact done j positive below rule enabled within node member

theorem enumerate_outcome (wf : base.WellFormed) (config : Config) (clock : Clock) :
    Outcome (enumerate config clock) (Session.start base states)
      (fun _ s' => s'.Sound base states config (config.limits.max + 1) ∧ s'.Settled [] ∧
        s'.Done base states config (config.limits.max + 1))
      (Halted base states config) := by
  -- Layer `k` is at hand, and those before it are done.
  let invariant (k : Nat) (s : Session) : Prop :=
    s.Sound base states config k ∧ s.Settled [] ∧ s.Done base states config k
  have nothing : (Session.start base states).Settled [] := by
    intro i seen
    simp [Session.start, Representatives.new] at seen
  have start : invariant 1 (Session.start base states) :=
    ⟨sound_start wf states config, nothing, fun j positive below => by omega⟩
  rw [Nat.add_comm config.limits.max 1]
  refine Outcome.forM_range'_of_invariant invariant ?_ 1 config.limits.max start
  rintro k s ⟨sound, settled, done⟩
  rw [Outcome.bind_iff]
  refine (processRules_outcome sample sound settled clock).imp_done ?_
  rintro _ s₁ ⟨sound₁, onward₁, settled₁, here⟩
  refine closeLayer_outcome sound₁ settled₁ ?_
  intro j positive below rule enabled within node member
  rw [onward₁.frontier] at member
  rcases Nat.lt_succ_iff_lt_or_eq.mp below with earlier | rfl
  · exact (done j positive earlier rule enabled within node member).onward sound onward₁
  · exact here rule enabled within node member

end Search

/-! ## Generation -/

theorem checkSample_ok {v : Vocabulary} {states : List State}
    (accepted : checkSample v states = .ok ()) :
    states ≠ [] ∧ ∀ s ∈ states, s.problem.vocabulary = v := by
  unfold checkSample at accepted
  split at accepted
  next => cases accepted
  next nonempty =>
    split at accepted
    next => cases accepted
    next all =>
      refine ⟨by simpa using nonempty, fun s member => ?_⟩
      have same := List.findIdx?_eq_none_iff.mp all s member
      simpa using same

theorem over_of_checkSample {v : Vocabulary} {states : List State}
    (accepted : checkSample v states = .ok ()) (made : ∀ s ∈ states, s.problem.Made) :
    ∀ s ∈ states, s.Over v := fun s member =>
  ⟨made s member, (checkSample_ok accepted).2 s member⟩

/-- What a run knows when it stops. -/
def Session.after (config : Config) (clock : Clock) (states : List State) (store : Store) :
    Session :=
  ((Search.enumerate config clock).run (.start store states)).2

section
variable (config : Config) (clock : Clock) {states : List State} {store : Store}

/-- Either a run is refused, and the store stays as it is, or it takes place. -/
theorem generate_cases (states : List State) (store : Store) :
    (∃ e, generate config clock states store = (.error (.config e), store)) ∨
      config.validate = .ok () ∧ checkSample store.vocabulary states = .ok () ∧
        (generate config clock states store).2
          = (Session.after config clock states store).store := by
  unfold generate generateOn
  cases valid : config.validate with
  | error e => exact Or.inl ⟨e, rfl⟩
  | ok =>
    cases accepted : checkSample store.vocabulary states with
    | error e => exact Or.inl ⟨e, by simp [Except.bind]⟩
    | ok => exact Or.inr ⟨rfl, rfl, by simp only [Except.bind]; rfl⟩

theorem after_sound (wf : store.WellFormed) (sample : ∀ s ∈ states, s.Over store.vocabulary) :
    ∃ k, (Session.after config clock states store).Sound store states config k := by
  have outcome := Search.enumerate_outcome sample wf config clock
  unfold Session.after
  rcases run : (Search.enumerate config clock).run (.start store states) with ⟨result, s⟩
  cases result with
  | ok => exact ⟨_, (outcome.ok run).1⟩
  | error e => exact (outcome.error run).2

/-- A run that is not refused gives its features, however it ends.  If it is completed, all
candidates are represented. -/
theorem generate_ok (wf : store.WellFormed) (valid : config.validate = .ok ())
    (accepted : checkSample store.vocabulary states = .ok ())
    (made : ∀ s ∈ states, s.problem.Made) :
    ∃ g, generate config clock states store
        = (.ok g, (Session.after config clock states store).store) ∧
      g.features = (Session.after config clock states store).features.toList ∧
      (g.status = .completed → (Session.after config clock states store).Sound store states config
          (config.limits.max + 1) ∧
        (Session.after config clock states store).Done store states config
          (config.limits.max + 1)) := by
  have sample := over_of_checkSample accepted made
  have outcome := Search.enumerate_outcome sample wf config clock
  unfold generate generateOn Session.after
  simp only [valid, accepted, Except.bind, Search.enumerateOn_ideal]
  rcases run : (Search.enumerate config clock).run (.start store states) with ⟨result, s⟩
  cases result with
  | ok =>
    obtain ⟨sound, _, done⟩ := outcome.ok run
    exact ⟨s.finish .completed, rfl, rfl, fun _ => ⟨sound, done⟩⟩
  | error e =>
    obtain ⟨noFailure, _⟩ := outcome.error run
    cases e with
    | timeLimit => exact ⟨s.finish .timeLimitReached, rfl, rfl, by simp [Session.finish]⟩
    | featureLimit => exact ⟨s.finish .featureLimitReached, rfl, rfl, by simp [Session.finish]⟩
    | failure e => exact absurd rfl (noFailure e)

/-- The status of a run that ended in some way, unless it failed. -/
def Status.of? : Except Stop Unit → Option Status
  | .ok () => some .completed
  | .error .timeLimit => some .timeLimitReached
  | .error .featureLimit => some .featureLimitReached
  | .error (.failure _) => none

theorem generate_finish (wf : store.WellFormed) (valid : config.validate = .ok ())
    (accepted : checkSample store.vocabulary states = .ok ())
    (made : ∀ s ∈ states, s.problem.Made) :
    ∃ status, Status.of? ((Search.enumerate config clock).run (.start store states)).1
        = some status ∧
      generate config clock states store
        = (.ok ((Session.after config clock states store).finish status),
          (Session.after config clock states store).store) := by
  have outcome := Search.enumerate_outcome (over_of_checkSample accepted made) wf config clock
  unfold generate generateOn Session.after
  simp only [valid, accepted, Except.bind, Search.enumerateOn_ideal]
  rcases run : (Search.enumerate config clock).run (.start store states) with ⟨result, s⟩
  cases result with
  | ok => exact ⟨.completed, rfl, rfl⟩
  | error e =>
    cases e with
    | timeLimit => exact ⟨.timeLimitReached, rfl, rfl⟩
    | featureLimit => exact ⟨.featureLimitReached, rfl, rfl⟩
    | failure e => exact absurd rfl ((outcome.error run).1 e)

end

theorem exists_generate {config : Config} {clock : Clock} {states : List State} {store : Store}
    {α : Type} {f : Generation → α} {a : α}
    (found : (generate config clock states store).1.toOption.map f = some a) :
    ∃ g store', generate config clock states store = (.ok g, store') ∧ f g = a := by
  rcases run : generate config clock states store with ⟨result, store'⟩
  rw [run] at found
  cases result with
  | error e => cases found
  | ok g => exact ⟨g, store', rfl, Option.some.inj found⟩

/-- A run that gave its features, as a caller sees it. -/
structure Generated (config : Config) (clock : Clock) (states : List State) (store : Store)
    (g : Generation) (store' : Store) : Prop where
  valid : config.validate = .ok ()
  accepted : checkSample store.vocabulary states = .ok ()
  outcome : (Session.after config clock states store).store = store'
  features : g.features = (Session.after config clock states store).features.toList
  completed : g.status = .completed →
    (Session.after config clock states store).Sound store states config (config.limits.max + 1) ∧
      (Session.after config clock states store).Done store states config (config.limits.max + 1)

theorem generated_of_eq {config : Config} {clock : Clock} {states : List State} {store : Store}
    {g : Generation} {store' : Store} (wf : store.WellFormed)
    (made : ∀ s ∈ states, s.problem.Made)
    (run : generate config clock states store = (.ok g, store')) :
    Generated config clock states store g store' := by
  rcases generate_cases config clock states store with ⟨e, refused⟩ | ⟨valid, accepted, _⟩
  · rw [refused] at run
    cases run
  · obtain ⟨g', result, features, completed⟩ := generate_ok config clock wf valid accepted made
    rw [result] at run
    cases run
    exact ⟨valid, accepted, rfl, features, completed⟩

end PlanFeatures
