import PlanFeatures.Proofs.Generation.Tracing

/-!
# Steady runs

Between batches a run is sound, all that was considered is registered, and it has come to a
certain place of its agenda.  A batch takes it on by its candidates, a rule by those of its
batches, a layer by those of its rules.  A run that stops is within a batch, whose
candidates have all been considered and evaluated, or before it.
-/

namespace PlanFeatures

namespace Session
variable {base : Store} {states : List State} {config : Config} {k : Nat} {s s' : Session}

/-- The run has come to a place of its agenda, and has evaluated all candidates before it. -/
def Evaluated (config : Config) (todo : List Node) (s : Session) : Prop :=
  ∃ done, s.Traced config done todo ∧ s.statistics.evaluations = done.length

theorem Evaluated.undisturbed {todo : List Node} (evaluated : s.Evaluated config todo)
    (same : s.Undisturbed s') : s'.Evaluated config todo := by
  obtain ⟨done, traced, count⟩ := evaluated
  exact ⟨done, traced.undisturbed same, same.evaluations.trans count⟩

structure Steady (base : Store) (states : List State) (config : Config) (k : Nat)
    (todo : List Node) (s : Session) : Prop where
  sound : s.Sound base states config k
  settled : s.Settled []
  evaluated : s.Evaluated config todo

/-- Where a steady run may stop. -/
def Rested (base : Store) (states : List State) (config : Config) (e : Stop) (s : Session) : Prop :=
  Halted base states config e s ∧ ∃ todo, s.Evaluated config todo

end Session

namespace Search
open Session
variable {base : Store} {states : List State} {config : Config} {k : Nat} {s : Session}
  {done : List (Handle × Node)} {todo : List Node}

/-! ## Batches -/

/-- A run in the middle of a batch: the candidates that are left follow those that have got
a handle. -/
structure Considering (base : Store) (states : List State) (config : Config) (k : Nat)
    (done : List (Handle × Node)) (todo batch : List Node) (s : Session) (rest : List Node)
    (fresh : List (Handle × Node)) (s' : Session) : Prop where
  sound : s'.Sound base states config k
  onward : s.Onward s'
  split : fresh.map Prod.snd ++ rest = batch
  traced : s'.Traced config (done ++ fresh) (rest ++ todo)
  evaluations : s'.statistics.evaluations = s.statistics.evaluations

theorem considering_start (sound : s.Sound base states config k) {batch : List Node}
    (traced : s.Traced config done (batch ++ todo)) :
    Considering base states config k done todo batch s batch [] s :=
  ⟨sound, .refl s, rfl, by rwa [List.append_nil], rfl⟩

theorem Considering.step {batch rest : List Node} {node : Node} {fresh : List (Handle × Node)}
    {s₁ : Session}
    (considering : Considering base states config k done todo batch s (node :: rest) fresh s₁)
    (proposed : ∀ node ∈ batch, Proposed base config k s.frontier node) (rule : Rule) :
    Outcome (consider rule node) s₁
      (fun result s₂ => ∃ h, result = some (h, node) ∧ s₁.Added rule node h s₂ ∧
        Considering base states config k done todo batch s rest (fresh ++ [(h, node)]) s₂)
      (fun _ _ => False) := by
  obtain ⟨sound₁, onward₁, split, traced₁, count₁⟩ := considering
  have member : node ∈ batch := split ▸ List.mem_append_right _ List.mem_cons_self
  have proposed₁ := onward₁.proposed (proposed node member)
  have declared := proposed₁.candidate.declared
  have considered := consider_outcome sound₁ (sound₁.has_operands proposed₁) declared rule
  refine (considered.and (consider_traced sound₁ traced₁ declared rule)).imp ?_
    fun _ _ impossible => impossible.1
  rintro _ s₂ ⟨considered, h, rfl, added, traced₂⟩
  refine ⟨h, rfl, added, considered.sound, onward₁.trans considered.onward, ?_, ?_, ?_⟩
  · rw [List.map_append, List.append_assoc]
    exact split
  · rwa [← List.append_assoc]
  · rw [added.statistics]
    exact count₁

/-- What each new candidate keeps, those of a batch keep. -/
theorem considerAll_keeps (invariant : List (Handle × Node) → Session → Prop)
    (sound : s.Sound base states config k) {batch : List Node}
    (traced : s.Traced config done (batch ++ todo))
    (proposed : ∀ node ∈ batch, Proposed base config k s.frontier node) (rule : Rule)
    (step : ∀ fresh node h s₁ s₂, s₁.Added rule node h s₂ → invariant fresh s₁ →
      invariant (fresh ++ [(h, node)]) s₂)
    (start : invariant [] s) :
    Outcome (batch.mapM (consider rule)) s
      (fun results s' => ∃ fresh, results = fresh.map some ∧
        Considering base states config k done todo batch s [] fresh s' ∧ invariant fresh s')
      (fun _ _ => False) := by
  let invariant' (rest : List Node) (results : List (Option (Handle × Node))) (s' : Session) :
      Prop :=
    ∃ fresh, results = fresh.map some ∧
      Considering base states config k done todo batch s rest fresh s' ∧ invariant fresh s'
  have start' : invariant' batch [] s := ⟨[], rfl, considering_start sound traced, start⟩
  refine Outcome.mapM_of_invariant invariant' ?_ batch [] start'
  rintro node rest results s₁ ⟨fresh, rfl, considering, holds⟩
  refine (considering.step proposed rule).imp_done ?_
  rintro _ s₂ ⟨h, rfl, added, considering₂⟩
  exact ⟨fresh ++ [(h, node)], by rw [List.map_append]; rfl, considering₂,
    step fresh node h s₁ s₂ added holds⟩

theorem considerAll_traced (sound : s.Sound base states config k) {batch : List Node}
    (traced : s.Traced config done (batch ++ todo))
    (proposed : ∀ node ∈ batch, Proposed base config k s.frontier node) (rule : Rule) :
    Outcome (batch.mapM (consider rule)) s
      (fun results s' => ∃ fresh, results = fresh.map some ∧
        Considering base states config k done todo batch s [] fresh s')
      (fun _ _ => False) := by
  have considered := considerAll_keeps (fun _ _ => True) sound traced proposed rule
    (fun _ _ _ _ _ _ _ => trivial) trivial
  refine considered.imp_done ?_
  rintro _ s' ⟨fresh, results, considering, _⟩
  exact ⟨fresh, results, considering⟩

/-- The new candidates of a batch and their handles. -/
theorem Considering.proposed {batch : List Node} {fresh : List (Handle × Node)} {s' : Session}
    (considering : Considering base states config k done todo batch s [] fresh s')
    (proposed : ∀ node ∈ batch, Proposed base config k s.frontier node) :
    ∀ p ∈ fresh, Proposed base config k s'.frontier p.2 ∧ s'.store.Interned p.1 p.2 := by
  intro p member
  have inBatch : p.2 ∈ batch := by
    rw [← considering.split, List.append_nil]
    exact List.mem_map_of_mem member
  exact ⟨considering.onward.proposed (proposed p.2 inBatch),
    considering.traced.interned p (List.mem_append_right _ member)⟩

theorem registerAll_undisturbed (items : List ((Handle × Node) × ExtensionVector))
    (featureLimit : Nat) (rule : Rule) (s : Session) :
    Outcome (items.forM fun q => register featureLimit rule q.1.1 q.2) s
      (fun _ s' => s.Undisturbed s') (fun _ s' => s.Undisturbed s') := by
  let invariant (_ : List ((Handle × Node) × ExtensionVector)) (s' : Session) : Prop :=
    s.Undisturbed s'
  have start : invariant items s := s.undisturbed_looks s.looks
  refine Outcome.forM_of_invariant invariant ?_ items start
  intro item rest s₁ same
  exact (register_undisturbed featureLimit rule item.1.1 item.2 s₁).imp
    (fun _ _ more => same.trans more) (fun _ _ more => same.trans more)

theorem processBatch_evaluated (sound : s.Sound base states config k)
    (sample : ∀ state ∈ states, state.Over base.vocabulary) {batch : List Node}
    (evaluated : s.Evaluated config (batch ++ todo))
    (proposed : ∀ node ∈ batch, Proposed base config k s.frontier node) (clock : Clock)
    (rule : Rule) :
    Outcome (processBatch config clock rule batch) s
      (fun _ s' => s'.Evaluated config todo) (fun _ s' => ∃ todo, s'.Evaluated config todo) := by
  simp only [processBatch_eq, Outcome.bind_iff, Outcome.modify_iff]
  refine ((checkClock_outcome sound clock).and (checkClock_undisturbed clock s)).imp ?_
    fun _ _ stop => ⟨_, evaluated.undisturbed stop.2⟩
  rintro _ s₁ ⟨⟨sound₁, onward₁, _⟩, undisturbed⟩
  obtain ⟨done, traced, count⟩ := evaluated.undisturbed undisturbed
  have proposed₁ := fun node member => onward₁.proposed (proposed node member)
  refine (considerAll_traced sound₁ traced proposed₁ rule).imp_total ?_
  rintro _ s₂ ⟨fresh, rfl, considering⟩
  have results : (fresh.map some).filterMap id = fresh := by simp
  rw [results]
  have evaluate := evaluateAll_outcome considering.sound sample (considering.proposed proposed₁)
  refine evaluate.imp_total ?_
  rintro vectors s₂ ⟨rfl, length, _⟩
  -- One vector for each of the new candidates.
  let counted : Session :=
    { s₂ with statistics.evaluations := s₂.statistics.evaluations + vectors.length }
  have evaluated : counted.Evaluated config todo := by
    obtain ⟨agenda, interned, seen, unknown, candidates⟩ := considering.traced
    refine ⟨done ++ fresh, ⟨agenda, interned, seen, unknown, candidates⟩, ?_⟩
    show s₂.statistics.evaluations + vectors.length = _
    rw [considering.evaluations, count, length, List.length_append]
  exact (registerAll_undisturbed _ config.featureLimit rule counted).imp
    (fun _ _ same => evaluated.undisturbed same) (fun _ _ same => ⟨_, evaluated.undisturbed same⟩)

variable (sample : ∀ state ∈ states, state.Over base.vocabulary)
include sample

theorem processBatch_steady {batch : List Node}
    (steady : s.Steady base states config k (batch ++ todo))
    (proposed : ∀ node ∈ batch, Proposed base config k s.frontier node) (clock : Clock)
    (rule : Rule) :
    Outcome (processBatch config clock rule batch) s
      (fun _ s' => s'.Steady base states config k todo ∧ s.Onward s')
      (Rested base states config) := by
  obtain ⟨sound, settled, evaluated⟩ := steady
  have processed := processBatch_outcome sound settled sample proposed clock rule
  refine (processed.and (processBatch_evaluated sound sample evaluated proposed clock
    rule)).imp_done ?_
  rintro _ s' ⟨⟨sound', onward, settled', _⟩, evaluated'⟩
  exact ⟨⟨sound', settled', evaluated'⟩, onward⟩

/-! ## Rules and layers -/

/-- A batch of the candidates that a rule has in layer `k`, at some place of the run. -/
structure Due (base : Store) (states : List State) (config : Config) (k : Nat) (rule : Rule)
    (batch todo : List Node) (s : Session) : Prop where
  enabled : config.rules.isEnabled rule = true
  steady : s.Steady base states config k (batch ++ todo)
  proposed : ∀ node ∈ batch, Proposed base config k s.frontier node
  batch : batch ∈ batches config.batchSize (s.frontier.candidates base.vocabulary rule k)

/-- What the batches of a rule keep, the rule keeps. -/
theorem processRule_steady_keeps {rule : Rule} {clock : Clock} (invariant : Session → Prop)
    {stopped : Stop → Session → Prop} (enabled : config.rules.isEnabled rule = true)
    (steady : s.Steady base states config k
      (s.frontier.permitted base.vocabulary config k rule ++ todo))
    (batch : ∀ batch todo s', Due base states config k rule batch todo s' → invariant s' →
      Outcome (processBatch config clock rule batch) s' (fun _ => invariant) stopped)
    (start : invariant s) :
    Outcome (processRule config clock k rule) s
      (fun _ s' => s'.Steady base states config k todo ∧ s.Onward s' ∧ invariant s')
      (fun e s' => Rested base states config e s' ∧ stopped e s') := by
  rw [processRule_eq]
  unfold Frontier.permitted at steady
  split
  next within =>
    rw [if_pos within] at steady
    simp only [Outcome.bind_iff, Outcome.get_iff]
    rw [steady.sound.vocabulary]
    have proposed := fun node => @steady.sound.proposed _ _ _ _ _ rule enabled within node
    -- The batches that are left are some of those of the rule.
    let invariant' (rest : List (List Node)) (s' : Session) : Prop :=
      s'.Steady base states config k (rest.flatten ++ todo) ∧ s.Onward s' ∧ invariant s' ∧
        ∀ nodes ∈ rest,
          nodes ∈ batches config.batchSize (s.frontier.candidates base.vocabulary rule k)
    have start' : invariant' (batches config.batchSize
        (s.frontier.candidates base.vocabulary rule k)) s := by
      refine ⟨?_, .refl s, start, fun nodes member => member⟩
      rw [flatten_batches]
      exact steady
    refine (Outcome.forM_of_invariant invariant' ?_ _ start').imp_done ?_
    · rintro nodes rest s₁ ⟨steady₁, onward₁, holds, inside⟩
      have here := inside nodes List.mem_cons_self
      have proposed₁ : ∀ node ∈ nodes, Proposed base config k s₁.frontier node := by
        intro node member
        refine onward₁.proposed (proposed node ?_)
        rw [← flatten_batches config.batchSize (s.frontier.candidates base.vocabulary rule k)]
        exact List.mem_flatten_of_mem here member
      rw [List.flatten_cons, List.append_assoc] at steady₁
      have due : Due base states config k rule nodes (rest.flatten ++ todo) s₁ :=
        ⟨enabled, steady₁, proposed₁, onward₁.frontier ▸ here⟩
      refine ((processBatch_steady sample steady₁ proposed₁ clock rule).and
        (batch nodes _ s₁ due holds)).imp_done ?_
      rintro _ s₂ ⟨⟨steady₂, onward₂⟩, holds₂⟩
      exact ⟨steady₂, onward₁.trans onward₂, holds₂, fun nodes member =>
        inside nodes (List.mem_cons_of_mem _ member)⟩
    · rintro _ s' ⟨steady', onward, holds, _⟩
      exact ⟨steady', onward, holds⟩
  next beyond =>
    rw [if_neg beyond] at steady
    exact ⟨steady, .refl s, start⟩

/-- What the batches of all rules keep, a layer keeps. -/
theorem processRules_steady_keeps {clock : Clock} (invariant : Session → Prop)
    {stopped : Stop → Session → Prop}
    (steady : s.Steady base states config k (s.frontier.layerAgenda base.vocabulary config k))
    (batch : ∀ rule batch todo s', Due base states config k rule batch todo s' → invariant s' →
      Outcome (processBatch config clock rule batch) s' (fun _ => invariant) stopped)
    (start : invariant s) :
    Outcome (config.rules.enabled.forM (processRule config clock k)) s
      (fun _ s' => s'.Steady base states config k [] ∧ s.Onward s' ∧ invariant s')
      (fun e s' => Rested base states config e s' ∧ stopped e s') := by
  let invariant' (rest : List Rule) (s' : Session) : Prop :=
    s'.Steady base states config k (rest.flatMap (s.frontier.permitted base.vocabulary config k)) ∧
      s.Onward s' ∧ invariant s' ∧ ∀ rule ∈ rest, config.rules.isEnabled rule = true
  have start' : invariant' config.rules.enabled s :=
    ⟨steady, .refl s, start, fun rule member => (List.mem_filter.mp member).2⟩
  refine (Outcome.forM_of_invariant invariant' ?_ _ start').imp_done ?_
  · rintro rule rest s₁ ⟨steady₁, onward₁, holds₁, enabled⟩
    rw [List.flatMap_cons, ← onward₁.frontier] at steady₁
    refine (processRule_steady_keeps sample invariant (enabled rule List.mem_cons_self) steady₁
      (batch rule) holds₁).imp_done ?_
    rintro _ s₂ ⟨steady₂, onward₂, holds₂⟩
    rw [onward₁.frontier] at steady₂
    exact ⟨steady₂, onward₁.trans onward₂, holds₂, fun r member =>
      enabled r (List.mem_cons_of_mem _ member)⟩
  · rintro _ s' ⟨steady', onward, holds, _⟩
    exact ⟨steady', onward, holds⟩

omit sample in
theorem closeLayer_steady (steady : s.Steady base states config k []) :
    Outcome (closeLayer k) s
      (fun _ s' => s'.Steady base states config (k + 1)
        (s'.frontier.layerAgenda base.vocabulary config (k + 1)))
      (Rested base states config) := by
  obtain ⟨sound, settled, done, traced, count⟩ := steady
  simp only [closeLayer, Outcome.modify_iff]
  refine ⟨sound.close _, settled, done, ?_, count⟩
  refine ⟨?_, traced.interned, traced.seen, traced.unknown, traced.candidates⟩
  -- The candidates of the layers before depend on layers that were closed already.
  have size : (s.frontier.close s.layer).layers.size = s.frontier.layers.size + 1 := by
    simp [Frontier.close]
  have before : (s.frontier.close s.layer).agenda s.store.vocabulary config
      (s.frontier.layers.size + 1) = s.agenda config :=
    Frontier.agenda_congr fun kind i less => Frontier.layer_close (by omega)
  show _ = (s.frontier.close s.layer).agenda s.store.vocabulary config
    ((s.frontier.close s.layer).layers.size + 1)
  rw [size, Frontier.agenda_succ, before, ← traced.agenda, List.append_nil, sound.layered.size,
    sound.vocabulary]

omit sample in
theorem steady_start (wf : base.WellFormed) (states : List State) (config : Config) :
    (Session.start base states).Steady base states config 1
      ((Session.start base states).frontier.layerAgenda base.vocabulary config 1) := by
  have nothing : ∀ i, (Session.start base states).representatives.seen.contains i = false := by
    intro i
    simp [Session.start, Representatives.new]
  refine ⟨sound_start wf states config, fun i seen => ?_, [], ⟨?_, ?_, ?_, ?_, rfl⟩, rfl⟩
  · rw [nothing] at seen
    cases seen
  · exact (List.append_nil _).symm
  · exact fun _ member => absurd member List.not_mem_nil
  · intro i
    simp [nothing]
  · intro rule
    simp [Session.start, Statistics.zero, Statistics.rule_eq, RuleCounts.zero]

/-- What holds in layer `k`, when the batches of all rules keep it and the end of the layer
takes it to the next one. -/
theorem enumerate_steady_keeps (wf : base.WellFormed) (config : Config) (clock : Clock)
    (invariant : Nat → Session → Prop) {stopped : Stop → Session → Prop}
    (batch : ∀ k rule batch todo s, Due base states config k rule batch todo s → invariant k s →
      Outcome (processBatch config clock rule batch) s (fun _ => invariant k) stopped)
    (close : ∀ k s, invariant k s →
      Outcome (closeLayer k) s (fun _ => invariant (k + 1)) stopped)
    (start : invariant 1 (Session.start base states)) :
    Outcome (enumerate config clock) (Session.start base states)
      (fun _ s' => (∃ todo, s'.Steady base states config (config.limits.max + 1) todo) ∧
        invariant (config.limits.max + 1) s')
      (fun e s' => Rested base states config e s' ∧ stopped e s') := by
  -- Layer `k` is at hand, and next on the agenda.
  let invariant' (k : Nat) (s : Session) : Prop :=
    s.Steady base states config k (s.frontier.layerAgenda base.vocabulary config k) ∧
      invariant k s
  have enumerated : Outcome (enumerate config clock) (Session.start base states)
      (fun _ s' => invariant' (1 + config.limits.max) s')
      (fun e s' => Rested base states config e s' ∧ stopped e s') := by
    refine Outcome.forM_range'_of_invariant invariant' ?_ 1 config.limits.max
      ⟨steady_start wf states config, start⟩
    rintro k s ⟨steady, holds⟩
    rw [Outcome.bind_iff]
    refine (processRules_steady_keeps sample (invariant k) steady (batch k) holds).imp_done ?_
    rintro _ s₁ ⟨steady₁, _, holds₁⟩
    exact (closeLayer_steady steady₁).and (close k s₁ holds₁)
  refine enumerated.imp_done ?_
  rintro _ s ⟨steady, holds⟩
  rw [Nat.add_comm] at steady holds
  exact ⟨⟨_, steady⟩, holds⟩

theorem enumerate_steady (wf : base.WellFormed) (config : Config) (clock : Clock) :
    Outcome (enumerate config clock) (Session.start base states)
      (fun _ s' => ∃ todo, s'.Steady base states config (config.limits.max + 1) todo)
      (Rested base states config) := by
  have enumerated := enumerate_steady_keeps sample wf config clock (fun _ _ => True)
    (fun _ rule _ _ _ due _ =>
      (processBatch_steady sample due.steady due.proposed clock rule).imp_done fun _ _ _ => trivial)
    (fun _ _ _ => trivial) trivial
  exact enumerated.imp (fun _ _ done => done.1) fun _ _ stop => stop.1

end Search
end PlanFeatures
