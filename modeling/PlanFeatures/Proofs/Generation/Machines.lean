import PlanFeatures.Generation.Run
import PlanFeatures.Proofs.Domain.Made
import PlanFeatures.Proofs.Outcome

/-!
# Runs on machines

A machine whose collected results stand in the order of the items, and that has room for a batch,
does what the ideal one does.  So it is enough to follow runs on the ideal machine, which neither
makes buffers nor works side by side.  A machine without that room stops at the first rule, before
anything is added to the store.
-/

namespace PlanFeatures

/-! ## Limits -/

theorem Limits.forRule_le_max (l : Limits) (rule : Rule) : l.forRule rule ≤ l.max := by
  have largest := l.max_eq
  unfold Limits.forRule
  split
  · omega
  · omega
  · omega
  · split <;> omega

theorem Limits.mem_forRule (l : Limits) (rule : Rule) :
    ∃ category, (category, l.forRule rule) ∈ l.toList := by
  unfold forRule
  split
  next => exact ⟨.concept, by simp [toList]⟩
  next => exact ⟨.role, by simp [toList]⟩
  next => exact ⟨.boolean, by simp [toList]⟩
  next =>
    split
    next => exact ⟨.count, by simp [toList]⟩
    next => exact ⟨.distance, by simp [toList]⟩

theorem Config.forRule_bounds {config : Config} (valid : config.validate = .ok ())
    (rule : Rule) : 0 < config.limits.forRule rule ∧ config.limits.forRule rule ≤ maxLimit := by
  obtain ⟨passed, _⟩ := config.validate_iff.mp valid
  obtain ⟨category, member⟩ := config.limits.mem_forRule rule
  exact bounds_of_checkLimit (forM_eq_ok_iff.mp passed _ member)

namespace Search
variable {machine : Machine} {config : Config} {clock : Clock} {k : Nat} {rule : Rule}

/-! ## Vectors of a batch -/

/-- What is computed from the session that a batch starts from is what is computed one candidate
after the other, since no candidate changes the session. -/
theorem run_mapM_vectorOf (fresh : List (Handle × Node)) (s : Session) :
    ((fresh.map fun item => s.representatives.evaluator.compute item.2).mapM vectorOf).run s
      = (fresh.mapM (m := Search) fun (_, node) => evaluate node).run s := by
  induction fresh with
  | nil => rfl
  | cons item fresh ih =>
    obtain ⟨h, node⟩ := item
    have first : (evaluate node).run s
        = (vectorOf (s.representatives.evaluator.compute node)).run s := run_get_bind _ s
    -- Both take the first result, and go on in the same session.
    rw [List.map_cons, List.mapM_cons, List.mapM_cons, run_bind, run_bind, first]
    cases s.representatives.evaluator.compute node with
    | error e => rfl
    | ok vector =>
      refine (run_bind _ _ s).trans ?_
      rw [ih]
      exact (run_bind _ _ s).symm

theorem evaluateAll_eq (ordered : machine.Ordered) (parallel : Bool)
    (fresh : List (Handle × Node)) :
    evaluateAll machine parallel fresh = fresh.mapM fun (_, node) => evaluate node := by
  cases parallel with
  | false => rfl
  | true =>
    refine ExceptT.ext (StateT.ext fun s => ?_)
    refine Eq.trans ?_ (run_mapM_vectorOf fresh s)
    have collected := ordered (fun item => s.representatives.evaluator.compute item.2) fresh
    exact congrArg (fun results => (results.mapM vectorOf).run s) collected

/-! ## Steps on the ideal machine -/

theorem processBatch_eq (batch : List Node) :
    processBatch config clock rule batch = (do
      checkClock clock
      let considered ← batch.mapM (consider rule)
      let fresh := considered.filterMap id
      let vectors ← fresh.mapM fun (_, node) => evaluate node
      modify fun s =>
        { s with statistics.evaluations := s.statistics.evaluations + vectors.length }
      (fresh.zip vectors).forM fun ((h, _), vector) =>
        register config.featureLimit rule h vector) := by
  unfold processBatch processBatchOn
  simp only [evaluateAll_eq Machine.ideal_ordered]

theorem processRule_eq :
    processRule config clock k rule = (do
      if k ≤ config.limits.forRule rule then
        let s ← get
        let candidates := s.frontier.candidates s.store.vocabulary rule k
        (batches config.batchSize candidates).forM (processBatch config clock rule)) :=
  rfl

theorem enumerateOn_ideal : enumerateOn .ideal config clock = enumerate config clock := rfl

/-! ## Steps on a machine in order -/

section
variable (ordered : machine.Ordered)
include ordered

theorem processBatchOn_eq (batch : List Node) :
    processBatchOn machine config clock rule batch = processBatch config clock rule batch := by
  unfold processBatch processBatchOn
  simp only [evaluateAll_eq ordered, evaluateAll_eq Machine.ideal_ordered]

variable (room : machine.hasRoom (config.batchSize * Node.bytes) = true)
include room

theorem processRuleOn_eq :
    processRuleOn machine config clock k rule = processRule config clock k rule := by
  have batch : processBatchOn machine config clock rule = processBatch config clock rule :=
    funext (processBatchOn_eq ordered)
  have reserved : reserve machine config.batchSize = reserve .ideal config.batchSize :=
    if_pos room
  unfold processRule processRuleOn
  rw [batch, reserved]
  rfl

theorem enumerateOn_eq : enumerateOn machine config clock = enumerate config clock := by
  have rules : processRuleOn machine config clock = processRule config clock :=
    funext fun k => funext fun rule => processRuleOn_eq ordered room
  unfold enumerateOn
  rw [rules]
  rfl

end

end Search

/-! ## Runs with room for a batch -/

section
variable {machine : Machine} {config : Config} {clock : Clock} {states : List State}
  {store : Store}

theorem generateOn_eq (ordered : machine.Ordered)
    (room : machine.hasRoom (config.batchSize * Node.bytes) = true) :
    generateOn machine config clock states store = generate config clock states store := by
  unfold generate generateOn
  rw [Search.enumerateOn_eq ordered room]
  rfl

end

/-! ## Too large a batch -/

namespace Search
variable {machine : Machine} {config : Config} {clock : Clock} {rule : Rule} {s : Session}
  (large : machine.hasRoom (config.batchSize * Node.bytes) = false)
include large

theorem run_processRuleOn_large {k : Nat} (within : k ≤ config.limits.forRule rule) :
    (processRuleOn machine config clock k rule).run s
      = (.error (.failure .capacityOverflow), s) := by
  have refused : reserve machine config.batchSize = fail .capacityOverflow := by
    rw [reserve, large]
    rfl
  rw [processRuleOn, if_pos within, refused]
  rfl

/-- The first rule is refused its buffer in the first layer. -/
theorem run_enumerateOn_large (valid : config.validate = .ok ())
    (enabled : config.rules.enabled ≠ []) :
    (enumerateOn machine config clock).run s = (.error (.failure .capacityOverflow), s) := by
  obtain ⟨rule, rules, first⟩ := List.exists_cons_of_ne_nil enabled
  have positive := (Config.forRule_bounds valid rule).1
  have layers : 0 < config.limits.max :=
    Nat.lt_of_lt_of_le positive (config.limits.forRule_le_max rule)
  obtain ⟨n, more⟩ := Nat.exists_eq_add_one.mpr layers
  -- Layer 1 is within every limit, so the first rule that is on asks for its buffer.
  unfold enumerateOn
  rw [more, List.range'_succ, first]
  exact run_forM_of_error (run_bind_of_error (run_forM_of_error
    (run_processRuleOn_large large positive)))

end Search

/-- A run that applies any rule fails on a machine that has no room for a batch. -/
theorem generateOn_overflow {machine : Machine} {config : Config}
    (large : machine.hasRoom (config.batchSize * Node.bytes) = false)
    (valid : config.validate = .ok ()) (enabled : config.rules.enabled ≠ [])
    {states : List State} {store : Store} (accepted : checkSample store.vocabulary states = .ok ())
    (clock : Clock) :
    generateOn machine config clock states store = (.error .capacityOverflow, store) := by
  have passed : (config.validate.bind fun _ => checkSample store.vocabulary states) = .ok () := by
    rw [valid]
    exact accepted
  unfold generateOn
  rw [passed]
  simp only [Search.run_enumerateOn_large large valid enabled]
  rfl

end PlanFeatures
