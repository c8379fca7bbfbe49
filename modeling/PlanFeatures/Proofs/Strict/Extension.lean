import PlanFeatures.Proofs.Meaning.Sets
import PlanFeatures.Proofs.Strict.Fault

/-!
# Strict operations on sets and relations

Loops over objects that insert into sets, go through a relation object by object and look up
a row for each.  When all the sets and relations are over the same number of objects, none of
the steps is refused, and the results are those over a fixed number of objects.
-/

namespace PlanFeatures

section
variable {n : Nat}

@[simp] theorem SizedRelation.closureThrough_same (r : Relation n) (s : ObjectSet n) :
    closureThrough ⟨n, r⟩ ⟨n, s⟩ = .ok ⟨n, r.closureThrough s⟩ := by
  have stops : ((⟨n, s⟩ : SizedSet).toList.mapM (object n)) = .ok s.members := by
    rw [SizedSet.toList, List.mapM_map]
    refine (Strict.mapM_eq_ok fun a _ => object_fin a).trans ?_
    rw [List.map_id']
  have same : (ObjectSet.filter fun a => s.members.contains a) = s :=
    ObjectSet.ext fun i => by simp [ObjectSet.mem_members]
  rw [closureThrough, Strict.bind_ok stops, same]
  rfl

end

namespace Strict
variable {n : Nat}

@[simp] theorem sized_ok {α : Type} (a : α) : sized (.ok a) = .ok a := rfl

/-! ## Loops -/

/-- Inserts objects into a set. -/
def insertAll (set : SizedSet) (objects : List Nat) : Except Fault SizedSet :=
  objects.foldlM (fun set a => return (← sized (set.add a)).2) set

/-- The objects out of `n` that pass a test. -/
def filter (n : Nat) (test : Nat → Except Fault Bool) : Except Fault SizedSet :=
  (List.range n).foldlM
    (fun set a => do if ← test a then return (← sized (set.add a)).2 else return set) (.empty n)

/-- The successors of an object. -/
def successors (r : SizedRelation) (a : Nat) : Except Fault SizedSet := do
  let a ← sized (object r.size a)
  return ⟨r.size, r.relation.successors a⟩

/-- Looks at one object after another, all of them `depth` steps away. -/
def visit (target : SizedSet) (depth : UInt32) : List Nat → SizedSet → List (Nat × UInt32) →
    Except Fault (Option (SizedSet × List (Nat × UInt32)))
  | [], visited, queue => return some (visited, queue)
  | b :: rest, visited, queue => do
    if target.set.contains b then return none
    else
      let (isNew, visited) ← sized (visited.add b)
      visit target depth rest visited (if isNew then queue ++ [(b, depth)] else queue)

/-- Breadth-first search, which must not run out of fuel. -/
def search (r : SizedRelation) (target : SizedSet) :
    (fuel : Nat) → (visited : SizedSet) → List (Nat × UInt32) → Except Fault UInt32
  | 0, _, _ => .error .endless
  | _ + 1, _, [] => return unreachable
  | fuel + 1, visited, (a, depth) :: queue => do
    match ← visit target (depth + 1) (← successors r a).toList visited queue with
    | none => return depth + 1
    | some (visited, queue) => search r target fuel visited queue

/-- The least number of steps from a member of `source` to a member of `target`.  Every
object joins the queue once at most. -/
def distance (source : SizedSet) (r : SizedRelation) (target : SizedSet) :
    Except Fault UInt32 := do
  if source.set.isEmpty then return unreachable
  else if ← sized (source.intersects target) then return 0
  else search r target (source.size + 1) source (source.toList.map (·, 0))

/-- A loop over objects goes as the one over numbers of objects. -/
theorem foldlM_fin {α β ε : Type} {f : β → Nat → Except ε β} {g : α → Fin n → α} (size : α → β)
    (steps : ∀ x a, f (size x) (a : Fin n).val = .ok (size (g x a))) (objects : List (Fin n))
    (x : α) : (objects.map Fin.val).foldlM f (size x) = .ok (size (objects.foldl g x)) := by
  induction objects generalizing x with
  | nil => rfl
  | cons a rest ih =>
    rw [List.map_cons, List.foldlM_cons, bind_ok (steps x a), List.foldl_cons, ih]

theorem insertAll_ok (set : ObjectSet n) (objects : List (Fin n)) :
    insertAll ⟨n, set⟩ (objects.map Fin.val) = .ok ⟨n, objects.foldl .insert set⟩ := by
  refine foldlM_fin (SizedSet.mk n) (fun set a => ?_) objects set
  rw [SizedSet.add_fin]
  rfl

theorem filter_ok {test : Nat → Except Fault Bool} {p : Fin n → Bool}
    (tests : ∀ a : Fin n, test a = .ok (p a)) : filter n test = .ok ⟨n, .filter p⟩ := by
  have numbers : List.range n = (List.finRange n).map Fin.val := by simp
  rw [filter, numbers]
  refine foldlM_fin (SizedSet.mk n) (fun set a => ?_) (List.finRange n) ∅
  rw [bind_ok (tests a)]
  cases p a with
  | true =>
    rw [SizedSet.add_fin]
    rfl
  | false => rfl

@[simp] theorem successors_fin (r : Relation n) (a : Fin n) :
    successors ⟨n, r⟩ a = .ok ⟨n, r.successors a⟩ := by
  rw [successors, object_fin]
  rfl

/-- The queue with numbers for objects. -/
def numbered (queue : List (Fin n × UInt32)) : List (Nat × UInt32) :=
  queue.map fun (a, d) => (a.val, d)

theorem visit_ok (target : ObjectSet n) (depth : UInt32) (objects : List (Fin n))
    (visited : ObjectSet n) (queue : List (Fin n × UInt32)) :
    visit ⟨n, target⟩ depth (objects.map Fin.val) ⟨n, visited⟩ (numbered queue)
      = .ok ((Relation.visit target depth objects visited queue).map
          fun (visited, queue) => (⟨n, visited⟩, numbered queue)) := by
  induction objects generalizing visited queue with
  | nil => rfl
  | cons b rest ih =>
    rw [List.map_cons, visit, Relation.visit]
    show (if target.contains b then _ else _) = _
    split
    next => rfl
    next =>
      rw [SizedSet.add_fin, sized_ok, bind_ok rfl]
      dsimp only [ObjectSet.add]
      rw [← ih]
      cases visited.contains b with
      | true => rfl
      | false =>
        have joined : numbered (queue ++ [(b, depth)]) = numbered queue ++ [(b.val, depth)] :=
          List.map_append
        rw [Bool.not_false, if_pos rfl, if_pos rfl, joined]

/-- Every step of the search makes the queue shorter or visits new objects. -/
theorem search_ok {r : Relation n} {target visited : ObjectSet n}
    {queue : List (Fin n × UInt32)} {fuel : Nat} (enough : n - visited.card + queue.length < fuel) :
    search ⟨n, r⟩ ⟨n, target⟩ fuel ⟨n, visited⟩ (numbered queue)
      = .ok (r.search target visited queue) := by
  induction fuel generalizing visited queue with
  | zero => exact absurd enough (Nat.not_lt_zero _)
  | succ fuel ih =>
    cases queue with
    | nil =>
      rw [Relation.search]
      rfl
    | cons e queue =>
      obtain ⟨a, depth⟩ := e
      have visits := visit_ok target (depth + 1) (r.successors a).members visited queue
      show search _ _ (fuel + 1) _ ((a.val, depth) :: numbered queue) = _
      rw [search, bind_ok (successors_fin r a), SizedSet.toList, bind_ok visits,
        Relation.search_cons]
      cases goesOn : Relation.visit target (depth + 1) (r.successors a).members visited queue with
      | none => rfl
      | some reached =>
        have smaller := Relation.visit_measure goesOn
        refine ih ?_
        rw [List.length_cons] at enough
        omega

theorem distance_ok (source : ObjectSet n) (r : Relation n) (target : ObjectSet n) :
    distance ⟨n, source⟩ ⟨n, r⟩ ⟨n, target⟩ = .ok (Relation.distance source r target) := by
  rw [distance, Relation.distance]
  dsimp only
  split
  next => rfl
  next =>
    rw [SizedSet.intersects_same, sized_ok, bind_ok rfl]
    split
    next => rfl
    next =>
      have start : (SizedSet.mk n source).toList.map (·, 0)
          = numbered (source.members.map (·, 0)) := by
        rw [SizedSet.toList, numbered, List.map_map, List.map_map]
        rfl
      have few := source.card_le
      rw [start]
      refine search_ok ?_
      rw [List.length_map, ← ObjectSet.card_eq_length_members]
      show _ < n + 1
      omega

/-! ## Projections -/

theorem contains_foldl_insert (objects : List (Fin n)) (set : ObjectSet n) (i : Fin n) :
    (objects.foldl .insert set).contains i = (set.contains i || decide (i ∈ objects)) := by
  induction objects generalizing set with
  | nil => simp
  | cons a rest ih =>
    have same : a.val = i.val ↔ i = a := by rw [Fin.val_inj, eq_comm]
    simp [ih, same, Bool.or_assoc]

/-- The objects at a position of the pairs, inserted one by one. -/
theorem foldl_insert_pairs (r : Relation n) (position : Nat) :
    (r.pairs.map fun (a, b) => if position = 0 then a else b).foldl .insert ∅
      = if position = 0 then ObjectSet.filter fun x => !(r.successors x).isEmpty
        else r.image .full := by
  refine ObjectSet.ext fun i => ?_
  rw [contains_foldl_insert, ObjectSet.contains_empty, Bool.false_or, Bool.eq_iff_iff,
    decide_eq_true_iff, List.mem_map]
  by_cases first : position = 0
  · simp only [first, if_true, ObjectSet.contains_filter, Bool.not_eq_true', Prod.exists,
      Relation.mem_pairs, exists_and_right, exists_eq_right]
    rw [← Bool.not_eq_true, ObjectSet.isEmpty_iff_toSet, ← ne_eq, ← Set.nonempty_iff_ne_empty]
    rfl
  · simp only [first, if_false, Prod.exists, Relation.mem_pairs, exists_eq_right]
    rw [← ObjectSet.mem_toSet, Relation.mem_image]
    simp [Relation.Holds]

end Strict
end PlanFeatures
