import Mathlib.Data.Set.Card
import PlanFeatures.Meaning.Relation

/-!
# Object sets and relations as sets

What the operations on bits are in the language of sets and of relations between
objects.
-/

namespace PlanFeatures
variable {n : Nat}

namespace ObjectSet

/-- The members as a set. -/
def toSet (s : ObjectSet n) : Set (Fin n) := {i | s.contains i = true}

variable (s t : ObjectSet n)

@[simp] theorem mem_toSet {i : Fin n} : i ∈ s.toSet ↔ s.contains i = true := Iff.rfl

@[simp] theorem toSet_empty : (∅ : ObjectSet n).toSet = ∅ := by
  ext i
  simp

@[simp] theorem toSet_full : (full : ObjectSet n).toSet = Set.univ := by
  ext i
  simp

@[simp] theorem toSet_union : (s ∪ t).toSet = s.toSet ∪ t.toSet := by
  ext i
  simp

@[simp] theorem toSet_inter : (s ∩ t).toSet = s.toSet ∩ t.toSet := by
  ext i
  simp

@[simp] theorem toSet_sdiff : (s \ t).toSet = s.toSet \ t.toSet := by
  ext i
  simp

@[simp] theorem toSet_compl : s.compl.toSet = s.toSetᶜ := by
  ext i
  simp

@[simp] theorem mem_toSet_insert {i j : Fin n} :
    j ∈ (s.insert i).toSet ↔ j ∈ s.toSet ∨ i = j := by
  simp [Fin.ext_iff]

@[simp] theorem toSet_filter (p : Fin n → Bool) : (filter p).toSet = {i | p i = true} := by
  ext i
  simp

variable {s t}

theorem isEmpty_iff_toSet : s.isEmpty = true ↔ s.toSet = ∅ := by
  rw [isEmpty_iff_contains, Set.eq_empty_iff_forall_notMem]
  constructor
  · intro clear i
    simp [clear]
  · intro none i
    refine Bool.eq_false_iff.mpr fun present => ?_
    exact none ⟨i, contains_lt present⟩ present

theorem isSubset_iff_toSet : s.isSubset t = true ↔ s.toSet ⊆ t.toSet := by
  rw [isSubset_eq, isEmpty_iff_toSet, toSet_sdiff, Set.sdiff_eq_empty]

theorem intersects_iff_toSet : s.intersects t = true ↔ (s.toSet ∩ t.toSet).Nonempty := by
  rw [intersects_eq, Bool.not_eq_true', ← Bool.not_eq_true, isEmpty_iff_toSet, toSet_inter,
    Set.nonempty_iff_ne_empty]

theorem nodup_members (s : ObjectSet n) : s.members.Nodup := by
  rw [members_eq]
  exact (List.nodup_finRange n).filter _

theorem card_eq_ncard : s.card = s.toSet.ncard := by
  have nodup := s.nodup_members
  have same : s.toSet = (s.members.toFinset : Set (Fin n)) := by
    ext i
    simp [mem_members]
  rw [card_eq_length_members, same, Set.ncard_coe_finset, List.toFinset_card_of_nodup nodup]

end ObjectSet

namespace Relation

/-- Whether two objects are related. -/
def Holds (r : Relation n) (a b : Fin n) : Prop := r.contains a b = true

theorem mem_successors {r : Relation n} {a b : Fin n} :
    b ∈ (r.successors a).toSet ↔ r.Holds a b := Iff.rfl

variable (r t : Relation n) (a b : Fin n)

theorem holds_full : (full : Relation n).Holds a b := by
  simp [Holds, contains]

theorem holds_union : (r ∪ t).Holds a b ↔ r.Holds a b ∨ t.Holds a b := by
  simp [Holds, contains]

theorem holds_inter : (r ∩ t).Holds a b ↔ r.Holds a b ∧ t.Holds a b := by
  simp [Holds, contains]

theorem holds_sdiff : (r \ t).Holds a b ↔ r.Holds a b ∧ ¬ t.Holds a b := by
  simp [Holds, contains]

theorem holds_compl : r.compl.Holds a b ↔ ¬ r.Holds a b := by
  simp [Holds, contains]

theorem holds_inverse : r.inverse.Holds a b ↔ r.Holds b a := by
  simp [Holds]

theorem holds_identity (s : ObjectSet n) : (identity s).Holds a b ↔ a = b ∧ a ∈ s.toSet := by
  by_cases member : s.contains a = true
  · simp [Holds, identity, contains, member, Fin.ext_iff]
  · simp [Holds, identity, contains, member]

theorem holds_restrict (s : ObjectSet n) :
    (r.restrict s).Holds a b ↔ r.Holds a b ∧ b ∈ s.toSet := by
  simp [Holds, contains]

theorem holds_insert (x y : Fin n) :
    (r.insert x y).Holds a b ↔ r.Holds a b ∨ (a = x ∧ b = y) := by
  have row : (r.insert x y).successors a
      = if x = a then (r.successors x).insert y else r.successors a := by
    show (r.rows.set x ((r.successors x).insert y))[(a : Nat)] = _
    rw [Vector.getElem_set]
    simp only [Fin.ext_iff]
    rfl
  rw [← mem_successors, row, ← mem_successors]
  by_cases same : x = a
  · subst same
    rw [if_pos rfl, ObjectSet.mem_toSet_insert]
    exact or_congr Iff.rfl ⟨fun same => ⟨rfl, same.symm⟩, fun same => same.2.symm⟩
  · rw [if_neg same]
    simp [Ne.symm same]

theorem mem_image (s : ObjectSet n) :
    b ∈ (r.image s).toSet ↔ ∃ a, a ∈ s.toSet ∧ r.Holds a b := by
  have grow : ∀ (objects : List (Fin n)) (t : ObjectSet n),
      b ∈ (objects.foldl (fun t a => t ∪ r.successors a) t).toSet
        ↔ b ∈ t.toSet ∨ ∃ a ∈ objects, r.Holds a b := by
    intro objects
    induction objects with
    | nil => simp
    | cons a rest ih =>
      intro t
      rw [List.foldl_cons, ih, ObjectSet.toSet_union, Set.mem_union, mem_successors]
      simp [or_assoc]
  rw [image, grow]
  simp [ObjectSet.mem_members]

theorem holds_compose : (r.compose t).Holds a b ↔ ∃ m, r.Holds a m ∧ t.Holds m b := by
  rw [← mem_successors, compose, successors_ofFn, mem_image]
  rfl

variable {r t}

theorem isEmpty_iff_holds : r.isEmpty = true ↔ ∀ a b, ¬ r.Holds a b := by
  simp only [isEmpty, List.all_eq_true, List.mem_finRange, forall_const,
    ObjectSet.isEmpty_iff_toSet, Set.eq_empty_iff_forall_notMem]
  rfl

theorem isSubset_iff_holds : r.isSubset t = true ↔ ∀ a b, r.Holds a b → t.Holds a b := by
  simp only [isSubset, List.all_eq_true, List.mem_finRange, forall_const,
    ObjectSet.isSubset_iff_toSet]
  rfl

theorem successors_eq_iff_holds :
    r.successors a = t.successors a ↔ ∀ b, r.Holds a b ↔ t.Holds a b := by
  constructor
  · intro same b
    rw [Holds, Holds, contains, contains, same]
  · intro same
    exact ObjectSet.ext fun b => Bool.eq_iff_iff.mpr (same b)

theorem card_eq_length_pairs : r.card = r.pairs.length := by
  simp only [card, pairs, List.length_flatMap, List.length_map, ← ObjectSet.card_eq_length_members]
  generalize List.finRange n = objects
  induction objects with
  | nil => rfl
  | cons a rest ih => rw [List.foldr_cons, ih, List.map_cons, List.sum_cons]

theorem card_eq_ncard : r.card = {p : Fin n × Fin n | r.Holds p.1 p.2}.ncard := by
  have nodup : r.pairs.Nodup := by
    rw [pairs, List.nodup_flatMap]
    constructor
    · intro a _
      exact (r.successors a).nodup_members.map fun b c same => (Prod.mk.inj same).2
    · refine (List.nodup_finRange n).imp ?_
      intro a b differ
      rw [Function.onFun, List.disjoint_left]
      rintro p first second
      obtain ⟨c, _, rfl⟩ := List.mem_map.mp first
      obtain ⟨d, _, same⟩ := List.mem_map.mp second
      exact differ (Prod.mk.inj same).1.symm
  have same : {p : Fin n × Fin n | r.Holds p.1 p.2} = (r.pairs.toFinset : Set (Fin n × Fin n)) := by
    ext ⟨a, b⟩
    simp [mem_pairs, Holds]
  rw [card_eq_length_pairs, same, Set.ncard_coe_finset, List.toFinset_card_of_nodup nodup]

end Relation
end PlanFeatures
