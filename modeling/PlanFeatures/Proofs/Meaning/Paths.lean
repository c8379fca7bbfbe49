import Mathlib.Logic.Relation
import PlanFeatures.Proofs.Meaning.Sets

/-!
# Closures

Warshall's closure holds the pairs joined by a path whose intermediate stops are allowed:
allowing one more stop adds the paths that are cut there in two.
-/

namespace PlanFeatures

/-- A path of at least one step, all of whose intermediate stops are in a set. -/
inductive Path {α : Type} (R : α → α → Prop) (stops : Set α) : α → α → Prop where
  | step {a b : α} (first : R a b) : Path R stops a b
  | through {a b c : α} (first : R a b) (stop : b ∈ stops) (rest : Path R stops b c) :
      Path R stops a c

namespace Path
variable {α : Type} {R : α → α → Prop} {stops more : Set α}

theorem mono (wider : stops ⊆ more) {a b : α} (path : Path R stops a b) : Path R more a b := by
  induction path with
  | step first => exact .step first
  | through first stop _ ih => exact .through first (wider stop) ih

theorem join {a k b : α} (first : Path R stops a k) (stop : k ∈ stops) (second : Path R stops k b) :
    Path R stops a b := by
  induction first with
  | step step => exact .through step stop second
  | through step allowed _ ih => exact .through step allowed (ih stop second)

theorem empty_iff {a b : α} : Path R ∅ a b ↔ R a b := by
  constructor
  · intro path
    cases path with
    | step first => exact first
    | through _ stop _ => exact absurd stop (Set.notMem_empty _)
  · exact .step

/-- A path that stops at `k` is cut there for the first time and for the last. -/
theorem insert_iff {k a b : α} :
    Path R (insert k stops) a b ↔ Path R stops a b ∨ (Path R stops a k ∧ Path R stops k b) := by
  constructor
  · intro path
    induction path with
    | step first => exact Or.inl (.step first)
    | @through x y z first stop _ ih =>
      rcases Set.mem_insert_iff.mp stop with rfl | old
      · rcases ih with direct | ⟨_, last⟩
        · exact Or.inr ⟨.step first, direct⟩
        · exact Or.inr ⟨.step first, last⟩
      · rcases ih with direct | ⟨before, last⟩
        · exact Or.inl (.through first old direct)
        · exact Or.inr ⟨.through first old before, last⟩
  · have wider : stops ⊆ insert k stops := Set.subset_insert k stops
    rintro (direct | ⟨first, second⟩)
    · exact direct.mono wider
    · exact (first.mono wider).join (Set.mem_insert k stops) (second.mono wider)

theorem univ_iff {a b : α} : Path R Set.univ a b ↔ Relation.TransGen R a b := by
  constructor
  · intro path
    induction path with
    | step first => exact .single first
    | through first _ _ ih => exact .head first ih
  · intro path
    induction path using Relation.TransGen.head_induction_on with
    | single first => exact .step first
    | head first _ ih => exact .through first (Set.mem_univ _) ih

end Path

namespace Relation
variable {n : Nat} {r : Relation n}

/-! ## Warshall's closure -/

theorem holds_allowStop {k a b : Fin n} :
    (r.allowStop k).Holds a b ↔ r.Holds a b ∨ (r.Holds a k ∧ r.Holds k b) := by
  rw [← mem_successors, successors_allowStop]
  by_cases reaches : r.contains a k = true
  · rw [if_pos reaches, ObjectSet.toSet_union]
    exact or_congr Iff.rfl (and_iff_right reaches).symm
  · rw [if_neg reaches]
    exact (or_iff_left fun both => reaches both.1).symm

/-- When the paths over some stops are known, the loop finds those over more. -/
theorem holds_foldl_allowStop {R : Fin n → Fin n → Prop} (ks : List (Fin n)) {done : Set (Fin n)}
    (known : ∀ a b, r.Holds a b ↔ Path R done a b) (a b : Fin n) :
    (ks.foldl allowStop r).Holds a b ↔ Path R ({k | k ∈ ks} ∪ done) a b := by
  induction ks generalizing r done with
  | nil => simpa using known a b
  | cons k ks ih =>
    have next : ∀ a b, (r.allowStop k).Holds a b ↔ Path R (Insert.insert k done) a b := by
      intro a b
      rw [holds_allowStop, Path.insert_iff, known, known, known]
    have stops : {j | j ∈ ks} ∪ Insert.insert k done = {j | j ∈ k :: ks} ∪ done := by
      ext j
      simp [or_assoc]
    rw [List.foldl_cons, ih next, stops]

/-- The pairs joined by a path through the given stops. -/
theorem holds_closureThrough {stops : ObjectSet n} {a b : Fin n} :
    (r.closureThrough stops).Holds a b ↔ Path r.Holds stops.toSet a b := by
  have all : {k | k ∈ stops.members} ∪ ∅ = stops.toSet := by
    ext k
    simp [ObjectSet.mem_members]
  rw [closureThrough, holds_foldl_allowStop stops.members fun _ _ => Path.empty_iff.symm, all]

theorem holds_closure {a b : Fin n} : r.closure.Holds a b ↔ Relation.TransGen r.Holds a b := by
  have all : {k | k ∈ List.finRange n} ∪ ∅ = Set.univ := by
    ext k
    simp [List.mem_finRange]
  rw [closure, holds_foldl_allowStop (List.finRange n) fun _ _ => Path.empty_iff.symm, all,
    Path.univ_iff]

theorem holds_foldl_insert_self (objects : List (Fin n)) {a b : Fin n} :
    (objects.foldl (fun r a => r.insert a a) r).Holds a b
      ↔ r.Holds a b ∨ (a = b ∧ a ∈ objects) := by
  induction objects generalizing r with
  | nil => simp
  | cons k objects ih =>
    have pair : (a = k ∧ b = k) ↔ (a = b ∧ a = k) := by
      constructor
      · rintro ⟨rfl, rfl⟩
        exact ⟨rfl, rfl⟩
      · rintro ⟨rfl, rfl⟩
        exact ⟨rfl, rfl⟩
    rw [List.foldl_cons, ih, holds_insert, pair, or_assoc, ← and_or_left, List.mem_cons]

theorem holds_reflexiveClosure {a b : Fin n} :
    r.reflexiveClosure.Holds a b ↔ Relation.TransGen r.Holds a b ∨ a = b := by
  rw [reflexiveClosure, holds_foldl_insert_self, holds_closure,
    and_iff_left (List.mem_finRange a)]

/-- What the three closures hold.  In particular nothing but the relation itself is reached
without stops, and all of its transitive closure is reached with all objects as stops. -/
theorem closures_exact (r : Relation n) :
    (∀ (stops : ObjectSet n) (a b : Fin n),
      (r.closureThrough stops).Holds a b ↔ Path r.Holds stops.toSet a b) ∧
    r.closureThrough ∅ = r ∧
    (∀ a b, (r.closureThrough .full).Holds a b ↔ Relation.TransGen r.Holds a b) ∧
    (∀ a b, r.closure.Holds a b ↔ Relation.TransGen r.Holds a b) ∧
    IsLeast {T : Fin n → Fin n → Prop | (∀ a b c, T a b → T b c → T a c) ∧ r.Holds ≤ T}
      r.closure.Holds ∧
    ∀ a b, r.reflexiveClosure.Holds a b ↔ Relation.TransGen r.Holds a b ∨ a = b := by
  refine ⟨fun stops a b => holds_closureThrough, ?_, ?_, fun a b => holds_closure, ⟨⟨?_, ?_⟩, ?_⟩,
    fun a b => holds_reflexiveClosure⟩
  · refine Relation.ext fun a => (successors_eq_iff_holds a).mpr fun b => ?_
    rw [holds_closureThrough, ObjectSet.toSet_empty, Path.empty_iff]
  · intro a b
    rw [holds_closureThrough, ObjectSet.toSet_full, Path.univ_iff]
  · intro a b c first second
    exact holds_closure.mpr ((holds_closure.mp first).trans (holds_closure.mp second))
  · exact fun a b step => holds_closure.mpr (.single step)
  · rintro T ⟨transitive, within⟩ a b path
    -- A transitive relation follows a path step by step.
    induction holds_closure.mp path with
    | single step => exact within a _ step
    | tail before step ih => exact transitive a _ _ (ih (holds_closure.mpr before)) (within _ _ step)

end Relation
end PlanFeatures
