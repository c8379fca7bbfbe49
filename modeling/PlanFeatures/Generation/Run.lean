import PlanFeatures.Generation.Config
import PlanFeatures.Generation.Frontier
import PlanFeatures.Generation.Machine
import PlanFeatures.Generation.Statistics
import PlanFeatures.Sample.Feature

/-!
# Runs

A run goes through the complexities from 1 up.  For each it applies the enabled
rules in their order, batch by batch: the candidates of a batch are added to the
store, those not considered before are evaluated over the sample, and each is
kept unless an earlier expression of its kind denotes the same in all states.
Kept booleans and numericals are the features; kept concepts and roles are the
operands of later layers.

Before each batch the run looks at the clock, whose answers are a parameter: the
answer to the `n`-th look tells whether the time is up.  The machine is a parameter
too: for each rule it must have a buffer for a whole batch, and it may evaluate the
candidates of a batch side by side.  Without a machine being named, the run is on the
ideal one.
-/

namespace PlanFeatures

/-- How a run ended. -/
inductive Status where
  | completed
  | timeLimitReached
  | featureLimitReached
deriving DecidableEq, Repr

def Status.name : Status → String
  | completed => "Completed"
  | timeLimitReached => "TimeLimitReached"
  | featureLimitReached => "FeatureLimitReached"

structure Generation where
  features : List Feature
  status : Status
  statistics : Statistics
deriving Repr

/-- Why a run gives no features. -/
inductive GenerationError where
  | config (e : ConfigError)
  | expression (e : ExpressionError)
  | evaluation (e : EvalError)
  /-- An expression that should be a feature is none. -/
  | noFeature (h : Handle)
  /-- A buffer would be larger than the machine's can be. -/
  | capacityOverflow
deriving DecidableEq, Repr

/-- Answers to the looks at the clock: whether the time is up. -/
abbrev Clock := Nat → Bool

/-- The clock of a machine that needs no time. -/
def Config.idleClock (c : Config) : Clock := fun _ => c.duration.isZero

/-- What a run knows. -/
structure Session where
  store : Store
  representatives : Representatives
  /-- What was kept in the layer at hand. -/
  layer : Layer
  frontier : Frontier
  features : Array Feature
  statistics : Statistics
  /-- Number of looks at the clock. -/
  looks : Nat
  /-- The log of the run: what became of the candidates that were evaluated, the
  latest first. -/
  log : List (Handle × Registration)

/-- Why a run stops before its end. -/
inductive Stop where
  | timeLimit
  | featureLimit
  | failure (e : GenerationError)
deriving DecidableEq, Repr

/-- Steps of a run; what was done before a stop remains. -/
abbrev Search := ExceptT Stop (StateM Session)

namespace Search

def fail {α : Type} (e : GenerationError) : Search α := throw (.failure e)

/-- Stops when the time is up. -/
def checkClock (clock : Clock) : Search Unit := do
  let look ← modifyGet fun s => (s.looks, { s with looks := s.looks + 1 })
  if clock look then throw .timeLimit

/-- Changes the counts of a rule. -/
def count (rule : Rule) (f : RuleCounts → RuleCounts) : Search Unit :=
  modify fun s => { s with statistics := s.statistics.modifyRule rule f }

/-- Adds a candidate to the store. -/
def intern (node : Node) : Search Handle := do
  let result ← modifyGet fun ⟨store, reps, layer, frontier, features, statistics, looks, log⟩ =>
    let (result, store) := (Build.intern node).run store
    (result, ⟨store, reps, layer, frontier, features, statistics, looks, log⟩)
  match result with
  | .ok h => return h
  | .error e => fail (.expression e)

/-- Adds a candidate to the store and counts it.  Gives its handle if it has not
been considered before. -/
def consider (rule : Rule) (node : Node) : Search (Option (Handle × Node)) := do
  let h ← intern node
  count rule .addCandidate
  let isNew ← modifyGet fun s =>
    let (isNew, representatives) := s.representatives.markSeen h
    (isNew, { s with representatives })
  if isNew then return some (h, node)
  else
    count rule (·.record .known)
    return none

/-- A vector that has been computed. -/
def vectorOf : Except EvalError ExtensionVector → Search ExtensionVector
  | .ok vector => return vector
  | .error e => fail (.evaluation e)

/-- The vector of a candidate. -/
def evaluate (node : Node) : Search ExtensionVector := do
  vectorOf ((← get).representatives.evaluator.compute node)

/-- The vectors of candidates. -/
def evaluateAll (machine : Machine) (parallel : Bool) (fresh : List (Handle × Node)) :
    Search (List ExtensionVector) := do
  if parallel then
    let evaluator := (← get).representatives.evaluator
    (machine.collect (fun item => evaluator.compute item.2) fresh).mapM vectorOf
  else fresh.mapM fun (_, node) => evaluate node

/-- Adds an expression to the features; stops when there are enough. -/
def emit (featureLimit : Nat) (h : Handle) : Search Unit := do
  match Feature.ofHandle? (← get).store h with
  | none => fail (.noFeature h)
  | some feature =>
    modify fun s => { s with features := s.features.push feature }
    if featureLimit ≤ (← get).features.size then throw .featureLimit

/-- Registers a candidate with its vector. -/
def register (featureLimit : Nat) (rule : Rule) (h : Handle) (vector : ExtensionVector) :
    Search Unit := do
  let registration ← modifyGet fun s =>
    let (registration, representatives) := s.representatives.insert h vector
    (registration, { s with representatives, log := (h, registration) :: s.log })
  count rule (·.record registration)
  if registration = .kept then
    if h.kind.isFeature then emit featureLimit h
    else modify fun s => { s with layer := s.layer.push h }

/-- Goes through the candidates of a batch. -/
def processBatchOn (machine : Machine) (config : Config) (clock : Clock) (rule : Rule)
    (batch : List Node) : Search Unit := do
  checkClock clock
  let considered ← batch.mapM (consider rule)
  let fresh := considered.filterMap id
  let vectors ← evaluateAll machine config.parallel fresh
  modify fun s =>
    { s with statistics.evaluations := s.statistics.evaluations + vectors.length }
  (fresh.zip vectors).forM fun ((h, _), vector) => register config.featureLimit rule h vector

def processBatch (config : Config) (clock : Clock) (rule : Rule) (batch : List Node) :
    Search Unit :=
  processBatchOn .ideal config clock rule batch

end Search

/-- Cuts a list into pieces of a size, the last of which may be shorter. -/
def batches {α : Type} (size : Nat) : List α → List (List α)
  | [] => []
  | a :: as => (a :: as.take (size - 1)) :: batches size (as.drop (size - 1))
termination_by as => as.length
decreasing_by simp only [List.length_drop, List.length_cons]; omega

theorem flatten_batches {α : Type} (size : Nat) (as : List α) : (batches size as).flatten = as := by
  fun_induction batches size as with
  | case1 => rfl
  | case2 a as ih => simp [ih]

theorem length_le_of_mem_batches {α : Type} {size : Nat} (positive : 0 < size) {as batch : List α}
    (member : batch ∈ batches size as) : batch.length ≤ size := by
  fun_induction batches size as with
  | case1 => cases member
  | case2 a as ih =>
    rcases List.mem_cons.mp member with rfl | later
    · simp only [List.length_cons, List.length_take]
      omega
    · exact ih later

namespace Search

/-- Makes a buffer for nodes. -/
def reserve (machine : Machine) (nodes : Nat) : Search Unit :=
  if machine.hasRoom (nodes * Node.bytes) then return ⟨⟩ else fail .capacityOverflow

/-- Goes through the candidates of a rule in one layer. -/
def processRuleOn (machine : Machine) (config : Config) (clock : Clock) (k : Nat) (rule : Rule) :
    Search Unit := do
  if k ≤ config.limits.forRule rule then
    reserve machine config.batchSize
    let s ← get
    let candidates := s.frontier.candidates s.store.vocabulary rule k
    (batches config.batchSize candidates).forM (processBatchOn machine config clock rule)

def processRule (config : Config) (clock : Clock) (k : Nat) (rule : Rule) : Search Unit :=
  processRuleOn .ideal config clock k rule

/-- Ends a layer. -/
def closeLayer (k : Nat) : Search Unit :=
  modify fun s =>
    { s with
      frontier := s.frontier.close s.layer
      layer := .empty
      statistics.layers := k }

/-- Goes through all layers. -/
def enumerateOn (machine : Machine) (config : Config) (clock : Clock) : Search Unit :=
  (List.range' 1 config.limits.max).forM fun k => do
    config.rules.enabled.forM (processRuleOn machine config clock k)
    closeLayer k

def enumerate (config : Config) (clock : Clock) : Search Unit :=
  enumerateOn .ideal config clock

end Search

namespace Session

def start (store : Store) (states : List State) : Session :=
  ⟨store, .new states, .empty, .empty, #[], .zero, 0, []⟩

/-- The result of a run that ended with a status. -/
def finish (s : Session) (status : Status) : Generation where
  features := s.features.toList
  status := status
  statistics :=
    { s.statistics with
      cachedVectors := s.representatives.evaluator.cache.size
      storeSize := s.store.size }

end Session

/-- Refuses an empty sample and states over another vocabulary. -/
def checkSample (v : Vocabulary) (states : List State) : Except ConfigError Unit :=
  if states.isEmpty then .error .emptySample
  else
    match states.findIdx? fun s => s.problem.vocabulary ≠ v with
    | some i => .error (.otherVocabulary i)
    | none => .ok ()

/-- Generates features over a sample of states.  A refused run leaves the store as
it was. -/
def generateOn (machine : Machine) (config : Config) (clock : Clock) (states : List State)
    (store : Store) : Except GenerationError Generation × Store :=
  match config.validate.bind fun _ => checkSample store.vocabulary states with
  | .error e => (.error (.config e), store)
  | .ok () =>
    let (outcome, s) := (Search.enumerateOn machine config clock).run (Session.start store states)
    let result :=
      match outcome with
      | .ok () => .ok (s.finish .completed)
      | .error .timeLimit => .ok (s.finish .timeLimitReached)
      | .error .featureLimit => .ok (s.finish .featureLimitReached)
      | .error (.failure e) => .error e
    (result, s.store)

def generate (config : Config) (clock : Clock) (states : List State) (store : Store) :
    Except GenerationError Generation × Store :=
  generateOn .ideal config clock states store

end PlanFeatures
