import Std.Data.TreeSet
import PlanFeatures.Sample.Evaluator

/-!
# Representatives

Of the expressions of one kind that denote the same in every state of a sample,
the first to be registered represents them all.  It is never replaced.
-/

namespace PlanFeatures

/-- What becomes of an expression that is registered. -/
inductive Registration where
  /-- No earlier expression denotes the same; the expression represents itself. -/
  | kept
  /-- An earlier expression of the kind denotes the same. -/
  | duplicate (representative : Handle)
  /-- The expression has been registered before. -/
  | known
deriving DecidableEq, Repr

structure Representatives where
  evaluator : Evaluator
  /-- The representatives with their vectors, the latest first. -/
  kept : List (Handle × ExtensionVector)
  /-- Indices of the expressions that have been considered. -/
  seen : Std.TreeSet Nat

namespace Representatives

def new (states : List State) : Representatives := ⟨.new states, [], ∅⟩

/-- Notes that an expression is considered; tells whether it is for the first time. -/
def markSeen (r : Representatives) (h : Handle) : Bool × Representatives :=
  (!r.seen.contains h.index, { r with seen := r.seen.insert h.index })

/-- The representative of the expressions of a kind that have a vector. -/
def find? (r : Representatives) (kind : Kind) (vector : ExtensionVector) : Option Handle :=
  (r.kept.find? fun (h, v) => h.kind = kind ∧ v = vector).map (·.1)

/-- Registers an expression that has been considered, with its vector.  The
vectors of representatives are remembered, so that expressions over them can be
evaluated. -/
def insert (r : Representatives) (h : Handle) (vector : ExtensionVector) :
    Registration × Representatives :=
  match r.find? h.kind vector with
  | some representative => (.duplicate representative, r)
  | none =>
    (.kept, { r with kept := (h, vector) :: r.kept, evaluator := r.evaluator.remember h vector })

/-- Number of representatives of a kind. -/
def keptCount (r : Representatives) (kind : Kind) : Nat := r.kept.countP fun (h, _) => h.kind = kind

/-- Evaluates an expression over the sample and registers it.  A failed evaluation
leaves it marked as considered. -/
def register (r : Representatives) (store : Store) (h : Handle) :
    Except EvalError Registration × Representatives :=
  match r.markSeen h with
  | (false, r) => (.ok .known, r)
  | (true, r) =>
    match (Sampling.vector store h).run r.evaluator with
    | (.error e, evaluator) => (.error e, { r with evaluator })
    | (.ok vector, evaluator) =>
      let (registration, r) := { r with evaluator }.insert h vector
      (.ok registration, r)

end Representatives
end PlanFeatures
