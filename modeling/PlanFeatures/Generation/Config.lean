import PlanFeatures.Grammar.RuleSet
import PlanFeatures.Number.Decimal
import PlanFeatures.Number.Duration

/-!
# Configuration of a run

How large expressions may become, how long a run may take, how many features it
may give, and which rules it applies.
-/

namespace PlanFeatures

/-- What complexity limits are set for.  Counts and distances are numericals with
limits of their own. -/
inductive Category where
  | concept
  | role
  | boolean
  | count
  | distance
deriving DecidableEq, Repr

def Category.name : Category → String
  | concept => "concept"
  | role => "role"
  | boolean => "boolean"
  | count => "count numerical"
  | distance => "distance numerical"

/-- Why a run is refused. -/
inductive ConfigError where
  | zeroLimit (category : Category)
  | limitTooLarge (category : Category) (limit : Nat)
  | invalidTimeLimit (seconds : Binary64)
  | zeroFeatureLimit
  | zeroBatchSize
  | emptySample
  /-- The state with the number belongs to a problem over another vocabulary. -/
  | otherVocabulary (state : Nat)
  /-- A text is no configuration, or a configuration has no text. -/
  | unreadable
deriving DecidableEq, Repr

/-- The largest complexity limit that is accepted. -/
def maxLimit : Nat := 256

def ConfigError.message : ConfigError → String
  | zeroLimit category => s!"{category.name} complexity limit must be positive"
  | limitTooLarge category limit =>
    s!"{category.name} complexity limit {limit} exceeds the maximum of {maxLimit}"
  | invalidTimeLimit seconds =>
    s!"time limit must be a positive number of seconds, got {seconds.text}"
  | zeroFeatureLimit => "feature limit must be positive"
  | zeroBatchSize => "batch size must be positive"
  | emptySample => "the state sample is empty"
  | otherVocabulary state => s!"state {state} belongs to an instance over a different vocabulary"
  | unreadable => "invalid configuration file"

/-- The largest complexity of each category. -/
structure Limits where
  concept : Nat
  role : Nat
  boolean : Nat
  count : Nat
  distance : Nat
deriving DecidableEq, Repr

namespace Limits

/-- The limits with what they are set for. -/
def toList (l : Limits) : List (Category × Nat) :=
  [(.concept, l.concept), (.role, l.role), (.boolean, l.boolean), (.count, l.count),
   (.distance, l.distance)]

/-- The largest of the limits. -/
def max (l : Limits) : Nat := l.toList.foldl (fun m (_, limit) => Nat.max m limit) 0

theorem max_eq (l : Limits) : l.max = Max.max (Max.max (Max.max (Max.max (Max.max 0 l.concept)
    l.role) l.boolean) l.count) l.distance := rfl

/-- The limit for the expressions that a rule builds. -/
def forRule (l : Limits) (r : Rule) : Nat :=
  match r.kind with
  | .concept => l.concept
  | .role => l.role
  | .boolean => l.boolean
  | .numerical => if r = .numericalCount then l.count else l.distance

end Limits

structure Config where
  limits : Limits
  /-- Seconds. -/
  timeLimit : Binary64
  /-- The run ends when it has given so many features. -/
  featureLimit : Nat
  rules : RuleSet
  /-- Whether the candidates of a batch are evaluated side by side. -/
  parallel : Bool
  /-- Number of candidates between two looks at the clock. -/
  batchSize : Nat
deriving DecidableEq

namespace Config

def defaultLimit : Nat := 9

def defaultBatchSize : Nat := 256

/-- The configuration where nothing is said. -/
def default : Config where
  limits := ⟨defaultLimit, defaultLimit, defaultLimit, defaultLimit, defaultLimit⟩
  timeLimit := Decimal.toBinary false ⟨3600, 0⟩
  featureLimit := 10000
  rules := .full
  parallel := false
  batchSize := defaultBatchSize

instance : Inhabited Config := ⟨default⟩

/-- The time that a run may take. -/
def duration (c : Config) : Duration := .ofSeconds c.timeLimit

/-- Refuses a complexity limit that is zero or too large. -/
def checkLimit : Category × Nat → Except ConfigError Unit
  | (category, limit) =>
    if limit = 0 then .error (.zeroLimit category)
    else if maxLimit < limit then .error (.limitTooLarge category limit)
    else .ok ()

theorem bounds_of_checkLimit {category : Category} {limit : Nat}
    (passed : checkLimit (category, limit) = .ok ()) : 0 < limit ∧ limit ≤ maxLimit := by
  simp only [checkLimit] at passed
  split at passed
  next => cases passed
  next positive =>
    split at passed
    next => cases passed
    next within => exact ⟨Nat.pos_of_ne_zero positive, Nat.le_of_not_lt within⟩

/-- Refuses a configuration that no run can have. -/
def validate (c : Config) : Except ConfigError Unit := do
  c.limits.toList.forM checkLimit
  if !c.timeLimit.isPositive then throw (.invalidTimeLimit c.timeLimit)
  if c.featureLimit = 0 then throw .zeroFeatureLimit
  if c.batchSize = 0 then throw .zeroBatchSize

/-- What a configuration is asked for. -/
theorem validate_iff (c : Config) : c.validate = .ok () ↔
    c.limits.toList.forM checkLimit = .ok () ∧ c.timeLimit.isPositive = true ∧
      c.featureLimit ≠ 0 ∧ c.batchSize ≠ 0 := by
  unfold validate
  cases c.limits.toList.forM checkLimit with
  | error e => simp [bind, Except.bind]
  | ok =>
    cases c.timeLimit.isPositive with
    | false => simp [bind, Except.bind, throw, throwThe, MonadExceptOf.throw]
    | true =>
      by_cases features : c.featureLimit = 0 <;> by_cases size : c.batchSize = 0 <;>
        simp [features, size, bind, Except.bind, throw, throwThe, MonadExceptOf.throw, pure,
          Except.pure]

end Config
end PlanFeatures
