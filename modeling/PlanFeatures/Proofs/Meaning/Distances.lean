import PlanFeatures.Proofs.Meaning.Sets

/-!
# Distances

Breadth-first search finds the length of a shortest walk.  Its queue holds objects at their
distances, the nearest first; what is nearer than all of them has been visited, and none of
it is in the target.
-/

namespace PlanFeatures

/-! ## Levels -/

/-- The objects that some walk of `k` steps leads to from a set. -/
def level {α : Type} (R : α → α → Prop) (source : Set α) : Nat → Set α
  | 0 => source
  | k + 1 => {b | ∃ a ∈ level R source k, R a b}

theorem level_empty {α : Type} (R : α → α → Prop) (k : Nat) : level R ∅ k = ∅ := by
  induction k with
  | zero => rfl
  | succ k ih =>
    rw [level, ih]
    ext b
    simp

/-- Some walk of `d` steps leads to an object, but no walk of fewer steps does. -/
def FirstAt {α : Type} (R : α → α → Prop) (source : Set α) (d : Nat) (b : α) : Prop :=
  b ∈ level R source d ∧ ∀ k < d, b ∉ level R source k

namespace FirstAt
variable {α : Type} {R : α → α → Prop} {source : Set α} {d k : Nat} {b : α}

/-- A shortest walk passes objects at all smaller distances. -/
theorem exists_below (first : FirstAt R source d b) (below : k ≤ d) : ∃ a, FirstAt R source k a := by
  induction d generalizing b with
  | zero =>
    obtain rfl := Nat.le_zero.mp below
    exact ⟨b, first⟩
  | succ d ih =>
    rcases Nat.le_succ_iff.mp below with within | rfl
    · obtain ⟨⟨a, before, step⟩, fewest⟩ := first
      have first : FirstAt R source d a :=
        ⟨before, fun k less early => fewest (k + 1) (Nat.succ_lt_succ less) ⟨a, early, step⟩⟩
      exact ih first within
    · exact ⟨b, first⟩

theorem unique (first : FirstAt R source d b) (first' : FirstAt R source k b) : d = k := by
  refine Nat.le_antisymm (Nat.le_of_not_lt fun less => ?_) (Nat.le_of_not_lt fun less => ?_)
  · exact first.2 k less first'.1
  · exact first'.2 d less first.1

/-- A shortest walk over `n` objects has fewer than `n` steps. -/
theorem lt {n : Nat} {R : Fin n → Fin n → Prop} {source : Set (Fin n)} {b : Fin n}
    (first : FirstAt R source d b) : d < n := by
  have passed : ∀ k : Fin (d + 1), ∃ a, FirstAt R source k a := fun k =>
    first.exists_below (Nat.le_of_lt_succ k.isLt)
  choose object firstAt using passed
  have distinct : Function.Injective object := fun k k' same =>
    Fin.ext ((firstAt k).unique (same ▸ firstAt k'))
  simpa using Fintype.card_le_of_injective object distinct

end FirstAt

namespace Relation
variable {n : Nat} {r : Relation n}

/-- The result of a search: the first level that meets the target, or none if no level
does.  A level that is found is one of the first `n`. -/
def Found (r : Relation n) (source target : Set (Fin n)) : Option Nat → Prop
  | some d => d < n ∧ (level r.Holds source d ∩ target).Nonempty ∧
      ∀ k < d, ¬ (level r.Holds source k ∩ target).Nonempty
  | none => ∀ k, ¬ (level r.Holds source k ∩ target).Nonempty

/-- A number of steps as a word. -/
def distanceWord : Option Nat → UInt32
  | some d => d.toUInt32
  | none => unreachable

/-! ## One visit -/

/-- A visit ends at an object of the target.  Otherwise the objects are visited afterwards,
and the new ones are at the end of the queue. -/
theorem visit_cases (target : ObjectSet n) (depth : UInt32) (objects : List (Fin n))
    (visited : ObjectSet n) (queue : List (Fin n × UInt32)) :
    (visit target depth objects visited queue = none ∧ ∃ b ∈ objects, b ∈ target.toSet) ∨
    ∃ (visited' : ObjectSet n) (fresh : List (Fin n)),
      visit target depth objects visited queue = some (visited', queue ++ fresh.map (·, depth)) ∧
      (∀ b ∈ objects, b ∉ target.toSet) ∧
      (∀ b, b ∈ visited'.toSet ↔ b ∈ visited.toSet ∨ b ∈ objects) ∧
      ∀ b, b ∈ fresh ↔ b ∈ objects ∧ b ∉ visited.toSet := by
  induction objects generalizing visited queue with
  | nil =>
    refine Or.inr ⟨visited, [], ?_, by simp, by simp, by simp⟩
    rw [visit, List.map_nil, List.append_nil]
  | cons b rest ih =>
    rw [visit]
    by_cases hit : target.contains b = true
    · rw [if_pos hit]
      exact Or.inl ⟨rfl, b, List.mem_cons_self, hit⟩
    · rw [if_neg hit]
      dsimp only [ObjectSet.add]
      rcases ih (visited.insert b) (if !visited.contains b then queue ++ [(b, depth)] else queue)
        with ⟨ends, c, member, there⟩ | ⟨visited', fresh, result, missed, grown, new⟩
      · exact Or.inl ⟨ends, c, List.mem_cons_of_mem b member, there⟩
      · -- `b` joins the queue unless it has been visited, and it does not join twice.
        refine Or.inr ⟨visited', if !visited.contains b then b :: fresh else fresh, ?_, ?_, ?_, ?_⟩
        · rw [result]
          cases visited.contains b <;> simp
        · exact List.forall_mem_cons.mpr ⟨hit, missed⟩
        · intro c
          rw [grown, ObjectSet.mem_toSet_insert, List.mem_cons, or_assoc, eq_comm]
        · intro c
          have other := new c
          rw [ObjectSet.mem_toSet_insert, not_or] at other
          cases known : visited.contains b with
          | true =>
            have apart : c ∉ visited.toSet → b ≠ c := fun unvisited same =>
              unvisited (same ▸ known)
            simp only [Bool.not_true, Bool.false_eq_true, if_false, other, List.mem_cons]
            grind
          | false =>
            have absent : b ∉ visited.toSet := by simp [known]
            simp only [Bool.not_false, if_true, List.mem_cons, other]
            grind

/-! ## The queue -/

/-- What the search knows between two visits.  The depths in the queue are numbers here; the
search itself has them as words. -/
structure Searching (r : Relation n) (source target : Set (Fin n)) (visited : ObjectSet n)
    (queue : List (Fin n × Nat)) : Prop where
  started : source ⊆ visited.toSet
  missed : ∀ b ∈ visited.toSet, b ∉ target
  first : ∀ e ∈ queue, FirstAt r.Holds source e.2 e.1
  ordered : queue.Pairwise fun e f => e.2 ≤ f.2 ∧ f.2 ≤ e.2 + 1
  closed : ∀ a ∈ visited.toSet, (∃ d, (a, d) ∈ queue) ∨ (r.successors a).toSet ⊆ visited.toSet

/-- At the start the queue holds the source, and nothing else has been visited. -/
theorem searching_start (r : Relation n) {source : ObjectSet n} {target : Set (Fin n)}
    (apart : ∀ b ∈ source.toSet, b ∉ target) :
    Searching r source.toSet target source (source.members.map (·, 0)) where
  started := Set.Subset.refl _
  missed := apart
  first := by
    intro e member
    obtain ⟨a, inside, rfl⟩ := List.mem_map.mp member
    exact ⟨ObjectSet.mem_members.mp inside, fun k less => absurd less (Nat.not_lt_zero k)⟩
  ordered := List.pairwise_map.mpr (List.pairwise_of_forall fun _ _ => by simp)
  closed a member := Or.inl ⟨0, List.mem_map_of_mem (ObjectSet.mem_members.mpr member)⟩

namespace Searching
variable {source target : Set (Fin n)} {visited : ObjectSet n} {queue : List (Fin n × Nat)}

/-- What is nearer than all that waits has been visited, and what is as near as it. -/
theorem level_subset (searching : Searching r source target visited queue) {d : Nat}
    (waiting : ∀ e ∈ queue, d ≤ e.2) {k : Nat} (within : k ≤ d) :
    level r.Holds source k ⊆ visited.toSet := by
  induction k with
  | zero => exact searching.started
  | succ k ih =>
    rintro b ⟨a, before, step⟩
    rcases searching.closed a (ih (Nat.le_of_succ_le within) before) with ⟨e, inQueue⟩ | all
    · have near : k < e := Nat.lt_of_lt_of_le within (waiting _ inQueue)
      exact absurd before ((searching.first _ inQueue).2 k near)
    · exact all step

section
variable {a : Fin n} {d : Nat}

/-- The first object of the queue is a nearest one. -/
theorem nearest (searching : Searching r source target visited ((a, d) :: queue)) :
    ∀ e ∈ (a, d) :: queue, d ≤ e.2 := by
  intro e member
  rcases List.mem_cons.mp member with rfl | later
  · exact Nat.le_refl _
  · exact ((List.pairwise_cons.mp searching.ordered).1 e later).1

theorem first_successor (searching : Searching r source target visited ((a, d) :: queue))
    {b : Fin n} (step : r.Holds a b) (new : b ∉ visited.toSet) :
    FirstAt r.Holds source (d + 1) b := by
  refine ⟨⟨a, (searching.first _ List.mem_cons_self).1, step⟩, fun k less early => new ?_⟩
  exact searching.level_subset searching.nearest (Nat.le_of_lt_succ less) early

/-- A successor of the first object of the queue in the target is a nearest one there. -/
theorem found (searching : Searching r source target visited ((a, d) :: queue)) {b : Fin n}
    (step : r.Holds a b) (hit : b ∈ target) : Found r source target (some (d + 1)) := by
  have first := searching.first_successor step fun old => searching.missed b old hit
  refine ⟨first.lt, ⟨b, first.1, hit⟩, ?_⟩
  rintro k less ⟨c, early, there⟩
  have old := searching.level_subset searching.nearest (Nat.le_of_lt_succ less) early
  exact searching.missed c old there

theorem next (searching : Searching r source target visited ((a, d) :: queue))
    {visited' : ObjectSet n} {fresh : List (Fin n)}
    (missed : ∀ b ∈ (r.successors a).members, b ∉ target)
    (grown : ∀ b, b ∈ visited'.toSet ↔ b ∈ visited.toSet ∨ b ∈ (r.successors a).members)
    (new : ∀ b, b ∈ fresh ↔ b ∈ (r.successors a).members ∧ b ∉ visited.toSet) :
    Searching r source target visited' (queue ++ fresh.map (·, d + 1)) := by
  have old : visited.toSet ⊆ visited'.toSet := fun b member => (grown b).mpr (Or.inl member)
  obtain ⟨behind, ordered⟩ := List.pairwise_cons.mp searching.ordered
  refine ⟨searching.started.trans old, ?_, ?_, ?_, ?_⟩
  · intro b member
    rcases (grown b).mp member with before | successor
    · exact searching.missed b before
    · exact missed b successor
  · intro e member
    rcases List.mem_append.mp member with waiting | joined
    · exact searching.first e (List.mem_cons_of_mem _ waiting)
    · obtain ⟨b, isNew, rfl⟩ := List.mem_map.mp joined
      obtain ⟨successor, unvisited⟩ := (new b).mp isNew
      exact searching.first_successor (ObjectSet.mem_members.mp successor) unvisited
  · -- What waits is one step further than the first object at most, what joins exactly so far.
    refine List.pairwise_append.mpr ⟨ordered, ?_, ?_⟩
    · exact List.pairwise_map.mpr (List.pairwise_of_forall fun _ _ => by simp)
    · intro e waiting f joined
      obtain ⟨b, _, rfl⟩ := List.mem_map.mp joined
      obtain ⟨above, below⟩ := behind e waiting
      exact ⟨below, Nat.succ_le_succ above⟩
  · -- The first object leaves the queue, but now all of its successors have been visited.
    intro c member
    by_cases before : c ∈ visited.toSet
    · rcases searching.closed c before with ⟨e, inQueue⟩ | all
      · rcases List.mem_cons.mp inQueue with same | later
        · cases same
          exact Or.inr fun b step => (grown b).mpr (Or.inr (ObjectSet.mem_members.mpr step))
        · exact Or.inl ⟨e, List.mem_append_left _ later⟩
      · exact Or.inr (all.trans old)
    · have successor := ((grown c).mp member).resolve_left before
      have joined := List.mem_map_of_mem (f := (·, d + 1)) ((new c).mpr ⟨successor, before⟩)
      exact Or.inl ⟨d + 1, List.mem_append_right _ joined⟩

end
end Searching

/-! ## The search -/

/-- The queue that the search has. -/
def inWords (queue : List (Fin n × Nat)) : List (Fin n × UInt32) :=
  queue.map fun (a, d) => (a, d.toUInt32)

theorem found_search {source : Set (Fin n)} {target visited : ObjectSet n}
    {queue : List (Fin n × Nat)} (searching : Searching r source target.toSet visited queue) :
    ∃ steps, Found r source target.toSet steps ∧
      r.search target visited (inWords queue) = distanceWord steps := by
  generalize same : inWords queue = words
  fun_induction search r target visited words generalizing queue with
  | case1 visited =>
    -- Nothing waits, so every level has been visited.
    obtain rfl := List.map_eq_nil_iff.mp same
    refine ⟨none, ?_, rfl⟩
    rintro k ⟨b, member, hit⟩
    have all := searching.level_subset (d := k) (fun _ waits => absurd waits List.not_mem_nil) (Nat.le_refl k)
    exact searching.missed b (all member) hit
  | case2 visited a depth words ends =>
    obtain ⟨⟨a, d⟩, queue, rfl, pair, rfl⟩ := List.map_eq_cons_iff.mp same
    cases pair
    rcases visit_cases target (d.toUInt32 + 1) (r.successors a).members visited (inWords queue)
      with ⟨_, b, step, hit⟩ | ⟨_, _, result, _⟩
    · exact ⟨some (d + 1), searching.found (ObjectSet.mem_members.mp step) hit,
        (UInt32.ofNat_add d 1).symm⟩
    · exact absurd (result.symm.trans ends) (Option.some_ne_none _)
  | case3 visited a depth words visited' words' result ih =>
    obtain ⟨⟨a, d⟩, queue, rfl, pair, rfl⟩ := List.map_eq_cons_iff.mp same
    cases pair
    rcases visit_cases target (d.toUInt32 + 1) (r.successors a).members visited (inWords queue)
      with ⟨ends, _⟩ | ⟨_, fresh, result', missed, grown, new⟩
    · exact absurd (ends.symm.trans result) (Option.some_ne_none _).symm
    · cases result'.symm.trans result
      refine ih (searching.next missed grown new) ?_
      rw [inWords, List.map_append, List.map_map]
      exact congrArg _ (List.map_congr_left fun b _ => congrArg _ (UInt32.ofNat_add d 1))

/-- Breadth-first search finds the length of a shortest walk. -/
theorem found_distance (source : ObjectSet n) (r : Relation n) (target : ObjectSet n) :
    ∃ steps, Found r source.toSet target.toSet steps ∧
      distance source r target = distanceWord steps := by
  rw [distance]
  by_cases noSource : source.isEmpty = true
  · rw [if_pos noSource, ObjectSet.isEmpty_iff_toSet.mp noSource]
    refine ⟨none, fun k => ?_, rfl⟩
    simp [level_empty]
  rw [if_neg noSource]
  by_cases meets : source.intersects target = true
  · rw [if_pos meets]
    obtain ⟨b, common⟩ := ObjectSet.intersects_iff_toSet.mp meets
    exact ⟨some 0, ⟨b.pos, ⟨b, common⟩, fun k less => absurd less (Nat.not_lt_zero k)⟩, rfl⟩
  · rw [if_neg meets]
    have start := searching_start r fun b inSource inTarget =>
      meets (ObjectSet.intersects_iff_toSet.mpr ⟨b, inSource, inTarget⟩)
    have words : inWords (source.members.map (·, 0)) = source.members.map (·, 0) := by
      rw [inWords, List.map_map]
      rfl
    exact words ▸ found_search start

theorem Found.isLeast {source target : Set (Fin n)} {d : Nat}
    (found : Found r source target (some d)) :
    IsLeast {k | (level r.Holds source k ∩ target).Nonempty} d :=
  ⟨found.2.1, fun k meets => Nat.le_of_not_lt fun less => found.2.2 k less meets⟩

/-- The distance is the least number of steps, and `unreachable` if there is no path. -/
theorem distance_exact (small : n < UInt32.size) (source : ObjectSet n) (r : Relation n)
    (target : ObjectSet n) :
    (∀ d, ((distance source r target).toNat = d ∧ d < n) ↔
      IsLeast {k | (level r.Holds source.toSet k ∩ target.toSet).Nonempty} d) ∧
    (distance source r target = 0 ↔ (source.toSet ∩ target.toSet).Nonempty) ∧
    (distance source r target = unreachable ↔
      ∀ k, ¬ (level r.Holds source.toSet k ∩ target.toSet).Nonempty) ∧
    (source.toSet = ∅ ∨ target.toSet = ∅ → distance source r target = unreachable) := by
  have last : unreachable.toNat = UInt32.size - 1 := rfl
  obtain ⟨steps, found, word⟩ := found_distance source r target
  rw [word]
  cases steps with
  | none =>
    refine ⟨fun d => ⟨?_, fun least => absurd least.1 (found d)⟩, ⟨?_, fun meets => ?_⟩,
      ⟨fun _ => found, fun _ => rfl⟩, fun _ => rfl⟩
    · rintro ⟨rfl, less⟩
      rw [distanceWord, last] at less
      omega
    · intro zero
      cases zero
    · exact absurd meets (found 0)
  | some d =>
    have value : (distanceWord (some d)).toNat = d :=
      Nat.mod_eq_of_lt (Nat.lt_trans found.1 small)
    have inReach : distanceWord (some d) ≠ unreachable := by
      intro same
      rw [same, last] at value
      have less := found.1
      omega
    refine ⟨fun k => ⟨?_, fun least => ?_⟩, ⟨fun zero => ?_, fun meets => ?_⟩,
      ⟨fun same => absurd same inReach, fun apart => absurd found.2.1 (apart d)⟩, ?_⟩
    · rintro ⟨rfl, _⟩
      exact value.symm ▸ found.isLeast
    · obtain rfl := found.isLeast.unique least
      exact ⟨value, found.1⟩
    · rw [zero] at value
      obtain rfl : 0 = d := value
      exact found.2.1
    · obtain rfl := Nat.le_zero.mp (found.isLeast.2 meets)
      rfl
    · -- Every level of an empty source is empty, and nothing meets an empty target.
      rintro (empty | empty)
      · exact absurd found.2.1 (by simp [empty, level_empty])
      · exact absurd found.2.1 (by simp [empty])

/-- Steps from 0 to 1 and from 1 to 2. -/
def chain : Relation 3 := ((∅ : Relation 3).insert 0 1).insert 1 2

theorem distance_chain : 3 < UInt32.size ∧ distance (.insert ∅ 0) chain (.insert ∅ 2) = 2 ∧
    IsLeast {k | (level chain.Holds (ObjectSet.insert ∅ 0).toSet k
      ∩ (ObjectSet.insert ∅ 2).toSet).Nonempty} 2 := by
  have small : 3 < UInt32.size := by decide
  have two : distance (.insert ∅ 0) chain (.insert ∅ 2) = 2 := by decide +kernel
  refine ⟨small, two, ((distance_exact small (.insert ∅ 0) chain (.insert ∅ 2)).1 2).mp ⟨?_, ?_⟩⟩
  · rw [two]
    rfl
  · decide

end Relation
end PlanFeatures
