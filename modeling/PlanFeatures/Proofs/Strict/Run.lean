import PlanFeatures.Proofs.Generation.Independence
import PlanFeatures.Proofs.Strict.Candidates
import PlanFeatures.Proofs.Strict.Evaluation
import PlanFeatures.Proofs.Strict.Feature
import PlanFeatures.Proofs.Strict.Search

/-!
# Runs meet with no fault

A strict run adds candidates to the store, evaluates them and writes their texts strictly.
The invariant of a run has all that the strict steps ask for: operands of candidates were
kept, so they are in the store and their vectors are known, with an entry for each state; the
layers below the one at hand are closed; and no candidate has more rule applications than the
largest limit.
-/

namespace PlanFeatures

/-! ## Steps that cannot give a fault -/

namespace Search

/-- What is done with a candidate that has been added to the store. -/
def note (rule : Rule) (node : Node) (h : Handle) : Search (Option (Handle × Node)) := do
  count rule .addCandidate
  let isNew ← modifyGet fun s =>
    let (isNew, representatives) := s.representatives.markSeen h
    (isNew, { s with representatives })
  if isNew then return some (h, node)
  else
    count rule (·.record .known)
    return none

/-- What becomes of a candidate with a vector, which is counted and logged. -/
def record (rule : Rule) (h : Handle) (vector : ExtensionVector) : Search Registration := do
  let registration ← modifyGet fun s =>
    let (registration, representatives) := s.representatives.insert h vector
    (registration, { s with representatives, log := (h, registration) :: s.log })
  count rule (·.record registration)
  return registration

theorem consider_eq (rule : Rule) (node : Node) :
    consider rule node = intern node >>= note rule node := rfl

theorem register_eq (featureLimit : Nat) (rule : Rule) (h : Handle) (vector : ExtensionVector) :
    register featureLimit rule h vector = (record rule h vector >>= fun registration => do
      if registration = .kept then
        if h.kind.isFeature then emit featureLimit h
        else modify fun s => { s with layer := s.layer.push h }) := rfl

end Search

namespace Strict
open Session
variable {base : Store} {states : List State} {config : Config} {k : Nat} {s : Session}
  {node : Node}

/-! ## Strict steps -/

/-- Adds a candidate, whose operands have to be in the store. -/
def intern (node : Node) : StrictSearch Handle := do
  let (h, store) ← attempt (insert (← get).store node)
  modify fun s => { s with store }
  return h

def consider (rule : Rule) (node : Node) : StrictSearch (Option (Handle × Node)) := do
  lift (Search.note rule node (← intern node))

def evaluate (node : Node) : StrictSearch ExtensionVector := do
  attempt (compute (← get).representatives.evaluator node)

/-- Adds an expression to the features; stops when there are enough. -/
def emit (featureLimit : Nat) (h : Handle) : StrictSearch Unit := do
  let feature ← attempt (feature (← get).store h)
  modify fun s => { s with features := s.features.push feature }
  if featureLimit ≤ (← get).features.size then throw (.stop .featureLimit)

/-- Registers a candidate with its vector.  What is kept is written to the log by its text. -/
def register (featureLimit : Nat) (rule : Rule) (h : Handle) (vector : ExtensionVector) :
    StrictSearch Unit := do
  if (← lift (Search.record rule h vector)) = .kept then
    let _ ← attempt (text (← get).store h)
    if h.kind.isFeature then emit featureLimit h
    else modify fun s => { s with layer := s.layer.push h }

/-- Goes through the candidates of a batch. -/
def processBatch (config : Config) (clock : Clock) (rule : Rule) (batch : List Node) :
    StrictSearch Unit := do
  lift (Search.checkClock clock)
  let considered ← batch.mapM (consider rule)
  let fresh := considered.filterMap id
  let vectors ← fresh.mapM fun (_, node) => evaluate node
  modify fun s =>
    { s with statistics.evaluations := s.statistics.evaluations + vectors.length }
  (fresh.zip vectors).forM fun ((h, _), vector) => register config.featureLimit rule h vector

/-- Goes through the candidates of a rule in one layer. -/
def processRule (config : Config) (clock : Clock) (k : Nat) (rule : Rule) : StrictSearch Unit := do
  if k ≤ config.limits.forRule rule then
    let s ← get
    let candidates ← attempt (candidates s.frontier s.store.vocabulary rule k)
    (batches config.batchSize candidates).forM (processBatch config clock rule)

/-- Goes through all layers. -/
def enumerate (config : Config) (clock : Clock) : StrictSearch Unit :=
  (List.range' 1 config.limits.max).forM fun k => do
    config.rules.enabled.forM (processRule config clock k)
    lift (Search.closeLayer k)

/-- The result of a strict run and the store after it, unless there is a fault. -/
def generate (config : Config) (clock : Clock) (states : List State) (store : Store) :
    Except Fault (Except GenerationError Generation × Store) :=
  match config.validate.bind fun _ => checkSample store.vocabulary states with
  | .error e => .ok (.error (.config e), store)
  | .ok () =>
    match (enumerate config clock).run (Session.start store states) with
    | (.ok (), s) => .ok (.ok (s.finish .completed), s.store)
    | (.error (.stop .timeLimit), s) => .ok (.ok (s.finish .timeLimitReached), s.store)
    | (.error (.stop .featureLimit), s) => .ok (.ok (s.finish .featureLimitReached), s.store)
    | (.error (.stop (.failure e)), s) => .ok (.error e, s.store)
    | (.error (.fault f), _) => .error f

/-! ## Candidates -/

theorem intern_agrees (wf : s.store.WellFormed) (operands : ∀ g ∈ node.operands, s.store.Has g)
    (fits : Store.applications s.store.complexity node < UInt32.size) :
    Agrees (intern node) (Search.intern node) s := by
  have plain : (Search.intern node).run s
      = (.ok (s.store.insert node).1, { s with store := (s.store.insert node).2 }) := by
    rw [Search.intern, run_modifyGet_bind]
    dsimp only
    rw [Build.run_intern operands]
    rfl
  refine Agrees.get_bind (Agrees.attempt_bind (insert_ok wf operands fits) ?_)
  rw [Agrees, run_lift, plain]
  rfl

theorem consider_agrees (sound : s.Sound base states config k)
    (proposed : Proposed base config k s.frontier node) (valid : config.validate = .ok ())
    (rule : Rule) : Agrees (consider rule node) (Search.consider rule node) s := by
  have operands := sound.has_operands proposed
  have fits : Store.applications s.store.complexity node < UInt32.size := by
    rw [sound.applications_of_candidate proposed.candidate]
    have within := proposed.within
    have bound := (Config.forRule_bounds valid node.rule).2
    exact Nat.lt_of_le_of_lt (Nat.le_trans within bound) (by decide)
  have outcome := Search.intern_outcome sound operands proposed.candidate.declared
  rw [Search.consider_eq]
  exact (intern_agrees sound.wellFormed operands fits).bind outcome fun h s' _ => .lift _ s'

theorem evaluate_agrees (made : ∀ state ∈ s.representatives.evaluator.states, state.Made)
    {vector : ExtensionVector} (value : s.representatives.evaluator.compute node = .ok vector) :
    Agrees (evaluate node) (Search.evaluate node) s := by
  have plain : (Search.evaluate node).run s = (.ok vector, s) := by
    rw [Search.evaluate, run_get_bind, value]
    rfl
  rw [evaluate, Agrees, run_get_bind, compute_ok made value, run_lift, plain]
  rfl

/-! ## Registration -/

theorem emit_agrees (wf : s.store.WellFormed) {h : Handle} (has : s.store.Has h)
    (kind : h.kind.isFeature = true) (featureLimit : Nat) :
    Agrees (emit featureLimit h) (Search.emit featureLimit h) s := by
  obtain ⟨f, plain, strict⟩ := feature_ok wf has kind
  refine Agrees.get_bind (Agrees.attempt_bind strict (Agrees.bind_get ?_))
  rw [plain]
  refine Agrees.modify_bind (Agrees.get_bind (Agrees.bind_get ?_))
  split
  next => exact .stop .featureLimit _
  next => exact .pure _ _

theorem register_agrees (wf : s.store.WellFormed) {h : Handle} (has : s.store.Has h)
    (featureLimit : Nat) (rule : Rule) (vector : ExtensionVector) :
    Agrees (register featureLimit rule h vector) (Search.register featureLimit rule h vector) s := by
  have recorded : Outcome (Search.record rule h vector) s (fun _ s' => s'.store = s.store)
      fun _ _ => False := by
    simp only [Search.record, Search.count, Outcome.bind_iff, Outcome.modify_iff,
      Outcome.modifyGet_iff, Outcome.pure_iff]
  rw [Search.register_eq]
  refine (Agrees.lift (Search.record rule h vector) s).bind recorded ?_
  intro registration s' same
  rw [← same] at wf has
  split
  next =>
    refine Agrees.get_bind (Agrees.attempt_bind (text_ok wf has) ?_)
    split
    next kind => exact emit_agrees wf has kind featureLimit
    next => exact .modify _ _
  next => exact .pure _ _

/-! ## Batches -/

section
variable (valid : config.validate = .ok ()) (made : ∀ state ∈ states, state.Made)

include valid in
theorem considerAll_agrees (sound : s.Sound base states config k) {batch : List Node}
    (proposed : ∀ node ∈ batch, Proposed base config k s.frontier node) (rule : Rule) :
    Agrees (batch.mapM (consider rule)) (batch.mapM (Search.consider rule)) s := by
  let invariant (s' : Session) : Prop := s'.Sound base states config k ∧ s.Onward s'
  refine Agrees.mapM invariant ?_ ⟨sound, .refl s⟩
  rintro node member s₁ ⟨sound₁, onward₁⟩
  have proposed₁ := onward₁.proposed (proposed node member)
  have outcome := Search.consider_outcome sound₁ (sound₁.has_operands proposed₁)
    proposed₁.candidate.declared rule
  refine ⟨consider_agrees sound₁ proposed₁ valid rule, outcome.imp_total ?_⟩
  exact fun _ s₂ considered => ⟨considered.sound, onward₁.trans considered.onward⟩

include made in
theorem evaluateAll_agrees (sound : s.Sound base states config k) {fresh : List (Handle × Node)}
    (computed : ∀ p ∈ fresh, ∃ vector,
      s.representatives.evaluator.compute p.2 = .ok vector) :
    Agrees (fresh.mapM fun (_, node) => evaluate node)
      (fresh.mapM fun (_, node) => Search.evaluate node) s := by
  refine Agrees.mapM (· = s) ?_ rfl
  rintro ⟨h, node⟩ member _ rfl
  obtain ⟨vector, value⟩ := computed _ member
  refine ⟨evaluate_agrees (sound.representatives.sample.symm ▸ made) value, ?_⟩
  simp only [Search.evaluate, Search.vectorOf, Outcome.bind_iff, Outcome.get_iff, value, Outcome.pure_iff]

omit valid made in
theorem registerAll_agrees (sound : s.Sound base states config k)
    {items : List ((Handle × Node) × ExtensionVector)}
    (ready : ∀ q ∈ items, Ready states config k s.store q.1.1 q.2) (featureLimit : Nat)
    (rule : Rule) :
    Agrees (items.forM fun q => register featureLimit rule q.1.1 q.2)
      (items.forM fun q => Search.register featureLimit rule q.1.1 q.2) s := by
  let invariant (s' : Session) : Prop := s'.Sound base states config k ∧ s'.store = s.store
  refine Agrees.forM invariant ?_ ⟨sound, rfl⟩
  rintro ⟨⟨h, node⟩, vector⟩ member s₁ ⟨sound₁, store₁⟩
  have here := ready _ member
  rw [← store₁] at here
  have outcome := Search.register_outcome sound₁ here featureLimit rule
  refine ⟨register_agrees sound₁.wellFormed here.denotes.has featureLimit rule vector,
    outcome.imp ?_ fun _ _ _ => trivial⟩
  exact fun _ s₂ registered => ⟨registered.sound, registered.store.trans store₁⟩

variable (sample : ∀ state ∈ states, state.Over base.vocabulary)
include valid made sample

theorem processBatch_agrees (sound : s.Sound base states config k) (settled : s.Settled [])
    {batch : List Node} (proposed : ∀ node ∈ batch, Proposed base config k s.frontier node)
    (clock : Clock) (rule : Rule) :
    Agrees (processBatch config clock rule batch) (Search.processBatch config clock rule batch)
      s := by
  rw [Search.processBatch_eq]
  refine (Agrees.lift _ s).bind (Search.checkClock_outcome sound clock) ?_
  rintro _ s₁ ⟨sound₁, onward₁, log₁, same₁⟩
  have settled₁ : s₁.Settled [] := by
    intro i seen
    rw [same₁] at seen
    rw [log₁]
    exact settled i seen
  have proposed₁ := fun node member => onward₁.proposed (proposed node member)
  refine (considerAll_agrees valid sound₁ proposed₁ rule).bind
    (Search.considerAll_outcome sound₁ settled₁ proposed₁ rule) ?_
  rintro results s₂ ⟨sound₂, onward₂, _, fresh, _⟩
  have ready : ∀ p ∈ results.filterMap id,
      Proposed base config k s₂.frontier p.2 ∧ s₂.store.Interned p.1 p.2 := fun p member =>
    ⟨onward₂.proposed (proposed₁ _ (fresh p member).1), (fresh p member).2⟩
  have computed : ∀ p ∈ results.filterMap id, ∃ vector,
      s₂.representatives.evaluator.compute p.2 = .ok vector := by
    intro p member
    obtain ⟨⟨candidate, enabled, within⟩, interned⟩ := ready p member
    obtain ⟨vector, value, _⟩ := sound₂.ready sample candidate enabled within interned
    exact ⟨vector, value⟩
  refine (evaluateAll_agrees made sound₂ computed).bind
    (Search.evaluateAll_outcome sound₂ sample ready) ?_
  rintro vectors s₃ ⟨rfl, _, ready⟩
  have counted := sound₂.aside
    { s₃.statistics with evaluations := s₃.statistics.evaluations + vectors.length } s₃.looks
  exact Agrees.modify_bind (registerAll_agrees counted ready config.featureLimit rule)

/-! ## Rules and layers -/

theorem processRule_agrees (sound : s.Sound base states config k) (settled : s.Settled [])
    {rule : Rule} (enabled : config.rules.isEnabled rule = true) (clock : Clock) :
    Agrees (processRule config clock k rule) (Search.processRule config clock k rule) s := by
  rw [Search.processRule_eq]
  unfold processRule
  split
  next within =>
    have closed := sound.layered.size
    have listed := candidates_ok (by omega) (Nat.le_of_eq closed.symm) s.store.vocabulary rule
    refine Agrees.get_bind (Agrees.bind_get (Agrees.attempt_bind listed ?_))
    rw [sound.vocabulary]
    have proposed := fun node => @sound.proposed _ _ _ _ _ rule enabled within node
    revert proposed
    generalize s.frontier.candidates base.vocabulary rule k = candidates
    intro proposed
    let invariant (s' : Session) : Prop :=
      s'.Sound base states config k ∧ s.Onward s' ∧ s'.Settled []
    refine Agrees.forM invariant ?_ ⟨sound, .refl s, settled⟩
    rintro batch part s₁ ⟨sound₁, onward₁, settled₁⟩
    have inside : ∀ node ∈ batch, node ∈ candidates := fun node member => by
      rw [← flatten_batches config.batchSize candidates]
      exact List.mem_flatten_of_mem part member
    have proposed₁ : ∀ node ∈ batch, Proposed base config k s₁.frontier node :=
      fun node member => onward₁.proposed (proposed node (inside node member))
    have outcome := Search.processBatch_outcome sound₁ settled₁ sample proposed₁ clock rule
    refine ⟨processBatch_agrees valid made sample sound₁ settled₁ proposed₁ clock rule,
      outcome.imp ?_ fun _ _ _ => trivial⟩
    rintro _ s₂ ⟨sound₂, onward₂, settled₂, _⟩
    exact ⟨sound₂, onward₁.trans onward₂, settled₂⟩
  next => exact .pure _ _

theorem processRules_agrees (sound : s.Sound base states config k) (settled : s.Settled [])
    (clock : Clock) :
    Agrees (config.rules.enabled.forM (processRule config clock k))
      (config.rules.enabled.forM (Search.processRule config clock k)) s := by
  let invariant (s' : Session) : Prop := s'.Sound base states config k ∧ s'.Settled []
  refine Agrees.forM invariant ?_ ⟨sound, settled⟩
  rintro rule member s₁ ⟨sound₁, settled₁⟩
  have on := (List.mem_filter.mp member).2
  have outcome := Search.processRule_outcome sample sound₁ settled₁ on clock
  refine ⟨processRule_agrees valid made sample sound₁ settled₁ on clock,
    outcome.imp ?_ fun _ _ _ => trivial⟩
  exact fun _ s₂ ⟨sound₂, _, settled₂, _⟩ => ⟨sound₂, settled₂⟩

theorem enumerate_agrees (wf : base.WellFormed) (clock : Clock) :
    Agrees (enumerate config clock) (Search.enumerate config clock) (.start base states) := by
  -- Layer `k` is at hand.
  let invariant (k : Nat) (s : Session) : Prop := s.Sound base states config k ∧ s.Settled []
  have nothing : (Session.start base states).Settled [] := by
    intro i seen
    simp [Session.start, Representatives.new] at seen
  refine Agrees.forM_range' invariant ?_ 1 config.limits.max
    ⟨sound_start wf states config, nothing⟩
  rintro k s ⟨sound, settled⟩
  have outcome := Search.processRules_outcome sample sound settled clock
  constructor
  · exact (processRules_agrees valid made sample sound settled clock).bind outcome
      fun _ s' _ => .lift _ s'
  · rw [Outcome.bind_iff]
    refine outcome.imp ?_ fun _ _ _ => trivial
    rintro _ s₁ ⟨sound₁, _, settled₁, _⟩
    simp only [Search.closeLayer, Outcome.modify_iff]
    exact ⟨sound₁.close _, settled₁⟩

end

/-! ## Generation -/

/-- A strict run gives the result of the run. -/
theorem generate_agrees (valid : config.validate = .ok ()) {store : Store} (wf : store.WellFormed)
    (made : ∀ state ∈ states, state.Made)
    (accepted : checkSample store.vocabulary states = .ok ()) (clock : Clock) :
    generate config clock states store = .ok (PlanFeatures.generate config clock states store) := by
  have sample := over_of_checkSample accepted fun state member => (made state member).problem
  have agrees := enumerate_agrees valid made sample wf clock
  unfold generate PlanFeatures.generate generateOn
  rw [Agrees] at agrees
  simp only [valid, accepted, Except.bind, Search.enumerateOn_ideal]
  rw [agrees, run_lift]
  rcases (Search.enumerate config clock).run (.start store states) with ⟨(_ | _ | _) | _, s⟩ <;>
    rfl

end Strict

theorem checkSample_of_forall {v : Vocabulary} {states : List State} (nonempty : states ≠ [])
    (same : ∀ state ∈ states, state.problem.vocabulary = v) : checkSample v states = .ok () := by
  have agree : (states.findIdx? fun s => s.problem.vocabulary ≠ v) = none := by
    rw [List.findIdx?_eq_none_iff]
    intro state member
    simp [same state member]
  rw [checkSample, if_neg (by simpa using nonempty), agree]

/-- A run with a valid configuration, from a store that its owner can reach, over a non-empty
sample of states over the store's vocabulary, gives its features.  It does so strictly: no
look-up, subtraction, assertion or operation on sets is at fault anywhere in the run. -/
theorem runs_never_fault {store : Store} {issued : List Handle} (reachable : store.Reachable issued)
    {config : Config} (valid : config.validate = .ok ()) {states : List State}
    (nonempty : states ≠ []) (made : ∀ state ∈ states, state.Made)
    (same : ∀ state ∈ states, state.problem.vocabulary = store.vocabulary) (clock : Clock) :
    ∃ g store', generate config clock states store = (.ok g, store') ∧
      Strict.generate config clock states store = .ok (.ok g, store') := by
  have wf := reachable.wellFormed
  have accepted := checkSample_of_forall nonempty same
  obtain ⟨g, result, _⟩ := generate_ok config clock wf valid accepted fun state member =>
    (made state member).problem
  refine ⟨g, _, result, ?_⟩
  rw [Strict.generate_agrees valid wf made accepted clock, result]

namespace Lamps

/-- A problem without lamps. -/
def dark : Problem := .new 1 vocabulary

/-- States of problems with two lamps and with none. -/
def mixed : List State := states ++ [⟨dark, []⟩]

theorem mixed_made : ∀ state ∈ mixed, state.Made := by
  intro state member
  simp only [mixed, states, List.cons_append, List.nil_append, List.mem_cons, List.not_mem_nil,
    or_false] at member
  rcases member with rfl | rfl | rfl
  · exact ⟨problem_made, [⟨0⟩], by decide +kernel⟩
  · exact ⟨problem_made, [], by decide +kernel⟩
  · exact ⟨.new 1 vocabulary, [], by decide +kernel⟩

theorem mixed_vocabulary :
    ∀ state ∈ mixed, state.problem.vocabulary = usedStore.vocabulary := by
  decide +kernel

end Lamps

/-- The sample is over two lamps and over none, and the store has been used before. -/
theorem runs_never_fault_lamps :
    ∃ g store', generate Lamps.boolean Lamps.clock Lamps.mixed Lamps.usedStore
        = (.ok g, store') ∧
      Strict.generate Lamps.boolean Lamps.clock Lamps.mixed Lamps.usedStore
        = .ok (.ok g, store') := by
  obtain ⟨issued, reachable⟩ := Lamps.usedStore_reachable
  exact runs_never_fault reachable (by decide +kernel) (by decide) Lamps.mixed_made
    Lamps.mixed_vocabulary Lamps.clock

/-- No state can be made with an atom that its problem does not have, and over such a state a
run would be at fault. -/
example : (Strict.generate Lamps.boolean Lamps.clock [⟨Lamps.dark, [⟨7⟩]⟩] Lamps.store).map
    (fun _ => ()) = .error (.noSuchAtom ⟨7⟩) := by
  decide +kernel

end PlanFeatures
