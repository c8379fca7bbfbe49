import PlanFeatures.Proofs.Meaning.Interpretation

/-!
# Renamed meanings

The number of an object says nothing about it.  When the objects get other numbers, sets and
relations of objects are carried along, and every operator carries its operands along with
its result: walks go through the images of their stops, and there are as many members as
before.
-/

namespace PlanFeatures

/-! ## Paths, walks and sizes -/

section
variable {α β : Type} {σ : α ≃ β} {R : α → α → Prop} {T : β → β → Prop} {stops : Set α}
  {stops' : Set β}

/-- A path leads through the images of its stops. -/
theorem Path.map {f : α → β} (steps : ∀ a b, R a b → T (f a) (f b))
    (allowed : ∀ a ∈ stops, f a ∈ stops') {a b : α} (path : Path R stops a b) :
    Path T stops' (f a) (f b) := by
  induction path with
  | step first => exact .step (steps _ _ first)
  | through first stop _ ih => exact .through (steps _ _ first) (allowed _ stop) ih

variable (same : ∀ a b, T (σ a) (σ b) ↔ R a b)
include same

theorem path_renamed (sameStops : ∀ a, σ a ∈ stops' ↔ a ∈ stops) {a b : α} :
    Path T stops' (σ a) (σ b) ↔ Path R stops a b := by
  constructor
  · intro path
    have steps : ∀ x y, T x y → R (σ.symm x) (σ.symm y) := by
      intro x y step
      apply (same _ _).mp
      simpa using step
    have allowed : ∀ x ∈ stops', σ.symm x ∈ stops := by
      intro x stop
      apply (sameStops _).mp
      simpa using stop
    simpa using path.map steps allowed
  · intro path
    exact path.map (fun x y => (same x y).mpr) fun x => (sameStops x).mpr

/-- Walks of any length lead to the images of what they led to. -/
theorem level_renamed {source : Set α} {source' : Set β}
    (sameSource : ∀ a, σ a ∈ source' ↔ a ∈ source) (k : Nat) (a : α) :
    σ a ∈ level T source' k ↔ a ∈ level R source k := by
  induction k generalizing a with
  | zero => exact sameSource a
  | succ k ih =>
    show (∃ b ∈ level T source' k, T b (σ a)) ↔ ∃ b ∈ level R source k, R b a
    rw [σ.surjective.exists]
    exact exists_congr fun b => and_congr (ih b) (same b a)

end

theorem ncard_renamed {α β : Type} {σ : α ≃ β} {A : Set α} {B : Set β}
    (same : ∀ a, σ a ∈ B ↔ a ∈ A) : B.ncard = A.ncard := by
  have image : B = σ '' A := by
    ext b
    obtain ⟨a, rfl⟩ := σ.surjective b
    rw [same, σ.injective.mem_set_image]
  rw [image, Set.ncard_image_of_injective A σ.injective]

theorem nonempty_inter_renamed {α β : Type} {σ : α ≃ β} {A A' : Set α} {B B' : Set β}
    (same : ∀ a, σ a ∈ B ↔ a ∈ A) (same' : ∀ a, σ a ∈ B' ↔ a ∈ A') :
    (B ∩ B').Nonempty ↔ (A ∩ A').Nonempty := by
  show (∃ b, b ∈ B ∧ b ∈ B') ↔ ∃ a, a ∈ A ∧ a ∈ A'
  rw [σ.surjective.exists]
  exact exists_congr fun a => and_congr (same a) (same' a)

/-- A search finds its target after as many steps when the objects are renamed. -/
theorem Relation.Found.renamed {n m : Nat} {σ : Fin n ≃ Fin m} {r : Relation n} {t : Relation m}
    (same : ∀ x y, t.Holds (σ x) (σ y) ↔ r.Holds x y) {source target : Set (Fin n)}
    {source' target' : Set (Fin m)} (sameSource : ∀ x, σ x ∈ source' ↔ x ∈ source)
    (sameTarget : ∀ x, σ x ∈ target' ↔ x ∈ target) {result result' : Option Nat}
    (found : r.Found source target result) (found' : t.Found source' target' result') :
    result' = result := by
  have meets : ∀ k, (level t.Holds source' k ∩ target').Nonempty
      ↔ (level r.Holds source k ∩ target).Nonempty := fun k =>
    nonempty_inter_renamed (level_renamed same sameSource k) sameTarget
  cases result with
  | none =>
    cases result' with
    | none => rfl
    | some steps => exact absurd ((meets steps).mp found'.2.1) (found steps)
  | some steps =>
    obtain ⟨_, joined, first⟩ := found
    cases result' with
    | none => exact absurd ((meets steps).mpr joined) (found' steps)
    | some steps' =>
      obtain ⟨_, joined', first'⟩ := found'
      -- Neither comes before the other.
      have notBefore : ¬ steps < steps' := fun earlier =>
        first' steps earlier ((meets steps).mpr joined)
      have notAfter : ¬ steps' < steps := fun earlier =>
        first steps' earlier ((meets steps').mp joined')
      rw [Nat.le_antisymm (Nat.le_of_not_lt notBefore) (Nat.le_of_not_lt notAfter)]

/-! ## Meanings -/

/-- The meanings are the same when the objects of the first get other numbers. -/
inductive Meaning.Renamed {n m : Nat} (σ : Fin n ≃ Fin m) : Meaning n → Meaning m → Prop where
  | concept {A : Set (Fin n)} {B : Set (Fin m)} (same : ∀ x, σ x ∈ B ↔ x ∈ A) :
      Renamed σ (.concept A) (.concept B)
  | role {R : Fin n → Fin n → Prop} {T : Fin m → Fin m → Prop}
      (same : ∀ x y, T (σ x) (σ y) ↔ R x y) : Renamed σ (.role R) (.role T)
  | boolean {p q : Prop} (same : q ↔ p) : Renamed σ (.boolean p) (.boolean q)
  | numerical {a b : Nat} (same : b = a) : Renamed σ (.numerical a) (.numerical b)

section
variable {n m : Nat} {σ : Fin n ≃ Fin m} {l r : Meaning n} {l' r' : Meaning m}

theorem Meaning.Renamed.set (same : l.Renamed σ l') (x : Fin n) : σ x ∈ l'.set ↔ x ∈ l.set := by
  cases same with
  | concept same => exact same x
  | role | boolean | numerical => exact Iff.rfl

theorem Meaning.Renamed.relates (same : l.Renamed σ l') (x y : Fin n) :
    l'.relates (σ x) (σ y) ↔ l.relates x y := by
  cases same with
  | role same => exact same x y
  | concept | boolean | numerical => exact Iff.rfl

theorem UnaryOp.meaning_renamed (op : UnaryOp) (same : l.Renamed σ l') :
    (op.meaning l).Renamed σ (op.meaning l') := by
  cases op with
  | conceptNot => exact .concept fun x => not_congr (same.set x)
  | conceptProjection position =>
    rw [meaning, meaning]
    by_cases first : position = 0
    · rw [if_pos first, if_pos first]
      refine .concept fun x => ?_
      show (∃ y, l'.relates (σ x) y) ↔ ∃ y, l.relates x y
      rw [σ.surjective.exists]
      exact exists_congr fun y => same.relates x y
    · rw [if_neg first, if_neg first]
      refine .concept fun y => ?_
      show (∃ x, l'.relates x (σ y)) ↔ ∃ x, l.relates x y
      rw [σ.surjective.exists]
      exact exists_congr fun x => same.relates x y
  | roleInverse => exact .role fun x y => same.relates y x
  | roleNot => exact .role fun x y => not_congr (same.relates x y)
  | roleIdentity => exact .role fun x y => and_congr σ.injective.eq_iff (same.set x)
  | roleClosure =>
    refine .role fun x y => ?_
    rw [← Path.univ_iff, ← Path.univ_iff]
    exact path_renamed same.relates fun _ => Iff.rfl
  | roleReflexiveClosure =>
    refine .role fun x y => or_congr ?_ σ.injective.eq_iff
    rw [← Path.univ_iff, ← Path.univ_iff]
    exact path_renamed same.relates fun _ => Iff.rfl
  | emptyConcept =>
    refine .boolean ?_
    rw [Set.eq_empty_iff_forall_notMem, Set.eq_empty_iff_forall_notMem, σ.surjective.forall]
    exact forall_congr' fun x => not_congr (same.set x)
  | emptyRole =>
    refine .boolean ?_
    rw [σ.surjective.forall₂]
    exact forall₂_congr fun x y => not_congr (same.relates x y)
  | countConcept => exact .numerical (congrArg wrapped (ncard_renamed same.set))
  | countRole =>
    have pairs : ∀ p : Fin n × Fin n, (σ.prodCongr σ) p ∈ {p | l'.relates p.1 p.2}
        ↔ p ∈ {p | l.relates p.1 p.2} := fun p => same.relates p.1 p.2
    exact .numerical (congrArg wrapped (ncard_renamed pairs))

theorem BinaryOp.meaning_renamed (op : BinaryOp) (left : l.Renamed σ l') (right : r.Renamed σ r') :
    (op.meaning l r).Renamed σ (op.meaning l' r') := by
  cases op with
  | conceptAnd => exact .concept fun x => and_congr (left.set x) (right.set x)
  | conceptOr => exact .concept fun x => or_congr (left.set x) (right.set x)
  | conceptDiff => exact .concept fun x => and_congr (left.set x) (not_congr (right.set x))
  | conceptSome =>
    refine .concept fun x => ?_
    show (∃ y, l'.relates (σ x) y ∧ y ∈ r'.set) ↔ ∃ y, l.relates x y ∧ y ∈ r.set
    rw [σ.surjective.exists]
    exact exists_congr fun y => and_congr (left.relates x y) (right.set y)
  | conceptAll =>
    refine .concept fun x => ?_
    show (∀ y, l'.relates (σ x) y → y ∈ r'.set) ↔ ∀ y, l.relates x y → y ∈ r.set
    rw [σ.surjective.forall]
    exact forall_congr' fun y => imp_congr (left.relates x y) (right.set y)
  | conceptEqual =>
    refine .concept fun x => ?_
    show (∀ y, l'.relates (σ x) y ↔ r'.relates (σ x) y) ↔ ∀ y, l.relates x y ↔ r.relates x y
    rw [σ.surjective.forall]
    exact forall_congr' fun y => iff_congr (left.relates x y) (right.relates x y)
  | conceptSubset =>
    refine .concept fun x => ?_
    show (∀ y, l'.relates (σ x) y → r'.relates (σ x) y) ↔ ∀ y, l.relates x y → r.relates x y
    rw [σ.surjective.forall]
    exact forall_congr' fun y => imp_congr (left.relates x y) (right.relates x y)
  | roleAnd => exact .role fun x y => and_congr (left.relates x y) (right.relates x y)
  | roleOr => exact .role fun x y => or_congr (left.relates x y) (right.relates x y)
  | roleDiff =>
    exact .role fun x y => and_congr (left.relates x y) (not_congr (right.relates x y))
  | roleCompose =>
    refine .role fun x y => ?_
    rw [σ.surjective.exists]
    exact exists_congr fun z => and_congr (left.relates x z) (right.relates z y)
  | roleRestrict => exact .role fun x y => and_congr (left.relates x y) (right.set y)
  | roleClosureThrough => exact .role fun x y => path_renamed left.relates right.set
  | inclusionConcept =>
    refine .boolean ?_
    show (∀ x, x ∈ l'.set → x ∈ r'.set) ↔ ∀ x, x ∈ l.set → x ∈ r.set
    rw [σ.surjective.forall]
    exact forall_congr' fun x => imp_congr (left.set x) (right.set x)
  | inclusionRole =>
    refine .boolean ?_
    rw [σ.surjective.forall₂]
    exact forall₂_congr fun x y => imp_congr (left.relates x y) (right.relates x y)

end

/-! ## Extensions -/

/-- The extensions stand for the same when the objects of the first get other numbers. -/
def Extension.Renamed {n m : Nat} (σ : Fin n ≃ Fin m) (d : Extension n) (e : Extension m) : Prop :=
  d.meaning.Renamed σ e.meaning

end PlanFeatures
