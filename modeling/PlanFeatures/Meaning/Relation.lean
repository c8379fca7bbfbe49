import PlanFeatures.Meaning.ObjectSet

/-!
# Binary relations over objects

A relation over `n` objects gives every object the set of its successors.  The
transitive closure is Warshall's: one object after another is allowed as an
intermediate stop of a path, and the set of allowed stops is a parameter.  Distances
are 32-bit words; the largest of them stands for the distance to something out of reach.
-/

namespace PlanFeatures

/-- The distance to something out of reach. -/
def unreachable : UInt32 := 0xFFFFFFFF

structure Relation (n : Nat) where
  /-- The successors of every object. -/
  rows : Vector (ObjectSet n) n
deriving DecidableEq, Repr

namespace Relation
variable {n : Nat}

def successors (r : Relation n) (a : Fin n) : ObjectSet n := r.rows[a]

def contains (r : Relation n) (a : Fin n) (b : Nat) : Bool := (r.successors a).contains b

def ofFn (f : Fin n → ObjectSet n) : Relation n := ⟨Vector.ofFn f⟩

def empty : Relation n := ofFn fun _ => ∅

instance : EmptyCollection (Relation n) := ⟨empty⟩

/-- All pairs; the rows are one set. -/
def full : Relation n :=
  let row := ObjectSet.full
  ofFn fun _ => row

/-- Every member of a set is related to itself. -/
def identity (s : ObjectSet n) : Relation n :=
  ofFn fun a => if s.contains a then ObjectSet.insert ∅ a else ∅

def insert (r : Relation n) (a b : Fin n) : Relation n :=
  ⟨r.rows.set a ((r.successors a).insert b)⟩

/-- The pairs in lexicographic order. -/
def pairs (r : Relation n) : List (Fin n × Fin n) :=
  (List.finRange n).flatMap fun a => (r.successors a).members.map fun b => (a, b)

/-- The number of pairs. -/
def card (r : Relation n) : Nat :=
  (List.finRange n).foldr (fun a k => (r.successors a).card + k) 0

def isEmpty (r : Relation n) : Bool := (List.finRange n).all fun a => (r.successors a).isEmpty

def isSubset (r s : Relation n) : Bool :=
  (List.finRange n).all fun a => (r.successors a).isSubset (s.successors a)

instance : Union (Relation n) := ⟨fun r s => ofFn fun a => r.successors a ∪ s.successors a⟩

instance : Inter (Relation n) := ⟨fun r s => ofFn fun a => r.successors a ∩ s.successors a⟩

instance : SDiff (Relation n) := ⟨fun r s => ofFn fun a => r.successors a \ s.successors a⟩

def compl (r : Relation n) : Relation n := ofFn fun a => (r.successors a).compl

def inverse (r : Relation n) : Relation n := ofFn fun b => ObjectSet.filter fun a => r.contains a b

/-- The successors of the members of a set. -/
def image (r : Relation n) (s : ObjectSet n) : ObjectSet n :=
  s.members.foldl (fun t a => t ∪ r.successors a) ∅

/-- Pairs that a step of the first relation and then a step of the second join. -/
def compose (r s : Relation n) : Relation n := ofFn fun a => s.image (r.successors a)

/-- The pairs whose second object is in a set. -/
def restrict (r : Relation n) (s : ObjectSet n) : Relation n := ofFn fun a => r.successors a ∩ s

/-! ## Closures -/

/-- Adds the pairs joined by a path with the one stop `k`. -/
def allowStop (r : Relation n) (k : Fin n) : Relation n :=
  let beyond := r.successors k
  ⟨r.rows.map fun row => if row.contains k then row ∪ beyond else row⟩

/-- The pairs joined by a path of at least one step whose intermediate stops are
all in a set. -/
def closureThrough (r : Relation n) (stops : ObjectSet n) : Relation n :=
  stops.members.foldl allowStop r

/-- The pairs joined by a path of at least one step. -/
def closure (r : Relation n) : Relation n := (List.finRange n).foldl allowStop r

def reflexiveClosure (r : Relation n) : Relation n :=
  (List.finRange n).foldl (fun r a => r.insert a a) r.closure

/-! ## Distances -/

/-- Looks at one object after another, all of them `depth` steps away: those that have not
been visited join the queue.  There is no result as soon as one is in the target. -/
def visit (target : ObjectSet n) (depth : UInt32) : List (Fin n) → ObjectSet n →
    List (Fin n × UInt32) → Option (ObjectSet n × List (Fin n × UInt32))
  | [], visited, queue => some (visited, queue)
  | b :: rest, visited, queue =>
    if target.contains b then none
    else
      let (isNew, visited) := visited.add b
      visit target depth rest visited (if isNew then queue ++ [(b, depth)] else queue)

/-- Every object that joins the queue has not been visited before. -/
theorem visit_measure {target : ObjectSet n} {depth : UInt32} {objects : List (Fin n)}
    {visited visited' : ObjectSet n} {queue queue' : List (Fin n × UInt32)}
    (missed : visit target depth objects visited queue = some (visited', queue')) :
    n - visited'.card + queue'.length ≤ n - visited.card + queue.length := by
  induction objects generalizing visited queue with
  | nil =>
    cases missed
    exact Nat.le_refl _
  | cons b rest ih =>
    rw [visit] at missed
    split at missed
    next => cases missed
    next =>
      refine Nat.le_trans (ih missed) ?_
      cases known : visited.contains b with
      | true =>
        rw [ObjectSet.insert_of_contains known]
        exact Nat.le_refl _
      | false =>
        have larger := ObjectSet.card_lt_card_insert known
        have bound := (visited.insert b).card_le
        simp only [Bool.not_false, if_true, List.length_append, List.length_cons, List.length_nil]
        omega

/-- Breadth-first search.  The queue holds objects that have been visited, but whose
successors have not, each with its number of steps. -/
def search (r : Relation n) (target visited : ObjectSet n) : List (Fin n × UInt32) → UInt32
  | [] => unreachable
  | (a, depth) :: queue =>
    match missed : visit target (depth + 1) (r.successors a).members visited queue with
    -- The queue is in the order of the depths, so nothing in the target is nearer.
    | none => depth + 1
    | some (visited', queue') => search r target visited' queue'
termination_by queue => n - visited.card + queue.length
decreasing_by exact Nat.lt_of_le_of_lt (visit_measure missed) (Nat.lt_succ_self _)

theorem search_cons (r : Relation n) (target visited : ObjectSet n) (a : Fin n) (depth : UInt32)
    (queue : List (Fin n × UInt32)) :
    r.search target visited ((a, depth) :: queue)
      = (visit target (depth + 1) (r.successors a).members visited queue).elim (depth + 1)
          fun (visited, queue) => r.search target visited queue := by
  rw [search]
  split
  next ends => rw [ends, Option.elim_none]
  next goesOn => rw [goesOn, Option.elim_some]

/-- The least number of steps from a member of `source` to a member of `target`. -/
def distance (source : ObjectSet n) (r : Relation n) (target : ObjectSet n) : UInt32 :=
  if source.isEmpty then unreachable
  else if source.intersects target then 0
  else r.search target source (source.members.map (·, 0))

/-! ## Successors in the results -/

@[simp] theorem successors_ofFn (f : Fin n → ObjectSet n) (a : Fin n) :
    (ofFn f).successors a = f a := by
  simp [ofFn, successors]

@[simp] theorem successors_empty (a : Fin n) : (∅ : Relation n).successors a = ∅ :=
  successors_ofFn _ a

@[simp] theorem successors_full (a : Fin n) : (full : Relation n).successors a = .full :=
  successors_ofFn _ a

@[simp] theorem successors_union (r s : Relation n) (a : Fin n) :
    (r ∪ s).successors a = r.successors a ∪ s.successors a :=
  successors_ofFn _ a

@[simp] theorem successors_inter (r s : Relation n) (a : Fin n) :
    (r ∩ s).successors a = r.successors a ∩ s.successors a :=
  successors_ofFn _ a

@[simp] theorem successors_sdiff (r s : Relation n) (a : Fin n) :
    (r \ s).successors a = r.successors a \ s.successors a :=
  successors_ofFn _ a

@[simp] theorem successors_compl (r : Relation n) (a : Fin n) :
    r.compl.successors a = (r.successors a).compl :=
  successors_ofFn _ a

@[simp] theorem contains_inverse (r : Relation n) (a b : Fin n) :
    r.inverse.contains b a = r.contains a b := by
  simp [inverse, contains]

@[simp] theorem successors_restrict (r : Relation n) (s : ObjectSet n) (a : Fin n) :
    (r.restrict s).successors a = r.successors a ∩ s :=
  successors_ofFn _ a

@[simp] theorem successors_allowStop (r : Relation n) (k a : Fin n) :
    (r.allowStop k).successors a
      = if r.contains a k then r.successors a ∪ r.successors k else r.successors a := by
  show (r.rows.map _)[(a : Nat)] = _
  rw [Vector.getElem_map]
  rfl

theorem mem_pairs {r : Relation n} {a b : Fin n} : (a, b) ∈ r.pairs ↔ r.contains a b = true := by
  simp [pairs, contains, ObjectSet.mem_members]

theorem ext {r s : Relation n} (h : ∀ a, r.successors a = s.successors a) : r = s := by
  cases r; cases s
  simp only [mk.injEq]
  exact Vector.ext fun i hi => h ⟨i, hi⟩

end Relation
end PlanFeatures
