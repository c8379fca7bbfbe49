import Mathlib.Data.List.Sort
import PlanFeatures.Proofs.Domain.Declared

/-!
# States are sets of dynamic atoms

The list of a state is increasing, so two states with the same atoms have the same list, and an
atom is found in it by binary search.  Static atoms are not listed; the problem has each of them
once.
-/

namespace PlanFeatures

namespace State

/-! ## Increasing lists -/

/-- The order of the atoms in a state. -/
def Before (a b : AtomId) : Prop := a.index < b.index

instance : Std.Irrefl Before := ⟨fun a => Nat.lt_irrefl a.index⟩

instance : Std.Antisymm Before :=
  ⟨fun _ _ first second => absurd first (Nat.lt_asymm second)⟩

theorem insertAtom_increasing (a : AtomId) {atoms : List AtomId}
    (increasing : atoms.Pairwise Before) : (insertAtom a atoms).Pairwise Before := by
  induction atoms with
  | nil => exact List.pairwise_singleton Before a
  | cons b rest ih =>
    obtain ⟨first, later⟩ := List.pairwise_cons.mp increasing
    unfold insertAtom
    split
    next less =>
      apply List.pairwise_cons.mpr ⟨?_, increasing⟩
      intro c member
      cases member with
      | head => exact less
      | tail _ member => exact Nat.lt_trans less (first c member)
    next notLess =>
      split
      next => exact increasing
      next different =>
        apply List.pairwise_cons.mpr ⟨?_, ih later⟩
        intro c member
        rcases mem_insertAtom.mp member with rfl | old
        · have apart : c.index ≠ b.index := fun same => different (congrArg AtomId.mk same)
          exact Nat.lt_of_le_of_ne (Nat.le_of_not_lt notLess) apart.symm
        · exact first c old

theorem sortAtoms_increasing (atoms : List AtomId) : (sortAtoms atoms).Pairwise Before := by
  induction atoms with
  | nil => exact List.Pairwise.nil
  | cons a rest ih => exact insertAtom_increasing a ih

theorem sortAtoms_eq_iff {atoms others : List AtomId} :
    sortAtoms atoms = sortAtoms others ↔ ∀ a, a ∈ atoms ↔ a ∈ others := by
  constructor
  · intro same a
    rw [← mem_sortAtoms, same, mem_sortAtoms]
  · intro same
    apply (sortAtoms_increasing atoms).eq_of_mem_iff (sortAtoms_increasing others)
    intro a
    rw [mem_sortAtoms, mem_sortAtoms, same]

/-! ## Binary search -/

section
variable {listed : Array AtomId} (increasing : listed.toList.Pairwise Before)
include increasing

/-- Atoms are in the order of their places. -/
theorem index_lt_iff {i j : Nat} {a b : AtomId} (first : listed[i]? = some a)
    (second : listed[j]? = some b) : a.index < b.index ↔ i < j := by
  have ordered : ∀ {k l : Nat} {c d : AtomId}, listed[k]? = some c → listed[l]? = some d →
      k < l → c.index < d.index := by
    intro k l c d found found' less
    obtain ⟨inside, rfl⟩ := Array.getElem?_eq_some_iff.mp found
    obtain ⟨inside', rfl⟩ := Array.getElem?_eq_some_iff.mp found'
    exact List.pairwise_iff_getElem.mp increasing k l inside inside' less
  constructor
  · intro less
    apply Nat.lt_of_not_le
    intro le
    rcases Nat.lt_or_eq_of_le le with greater | rfl
    · exact Nat.lt_asymm less (ordered second first greater)
    · cases first.symm.trans second
      exact Nat.lt_irrefl _ less
  · exact ordered first second

/-- The place of an atom stays among those that are searched. -/
theorem place_eq {a : AtomId} {i base size : Nat} (found : listed[i]? = some a)
    (low : base ≤ i) (high : i < base + size) (inside : base + size ≤ listed.size) :
    place listed a base size = i := by
  fun_induction place listed a base size with
  | case1 base size small => omega
  | case2 base size large middle after ih =>
    have middle_eq : middle = base + size / 2 := rfl
    have stored : listed[middle]? = some listed[middle] :=
      Array.getElem?_eq_getElem (by omega)
    have half : after = true ↔ i < middle := by
      simp only [after, stored, Option.any_some, decide_eq_true_eq]
      exact index_lt_iff increasing found stored
    by_cases before : i < middle
    · have chosen := half.mpr before
      rw [dif_pos chosen] at ih
      rw [if_pos chosen]
      exact ih (by omega) (by omega) (by omega)
    · have chosen := mt half.mp before
      rw [dif_neg chosen] at ih
      rw [if_neg chosen]
      exact ih (by omega) (by omega) (by omega)

theorem found_iff {a : AtomId} :
    listed[place listed a 0 listed.size]? = some a ↔ a ∈ listed := by
  constructor
  · exact Array.mem_of_getElem?
  · intro member
    obtain ⟨i, found⟩ := Array.mem_iff_getElem?.mp member
    have inside : i < listed.size := (Array.getElem?_eq_some_iff.mp found).choose
    rw [place_eq increasing found (Nat.zero_le i) (by omega) (by omega)]
    exact found

end

/-! ## True atoms -/

/-- The indices of the atoms that are true, in the order in which they are visited. -/
def visited (s : State) : List AtomId := s.atoms ++ s.problem.staticAtoms

theorem finds_eq {s : State} (increasing : s.atoms.Pairwise Before) (a : AtomId) :
    s.finds a = s.contains a := by
  have searched := @found_iff s.atoms.toArray increasing a
  rw [Bool.eq_iff_iff]
  cases found : s.problem.atom? a with
  | none => simp [finds, contains, found]
  | some atom => simp only [finds, contains, found, Bool.or_eq_true, decide_eq_true_eq, searched,
      List.mem_toArray, List.contains_iff_mem]

/-- What a state is like that has been made from a list of atoms. -/
structure Canonical (s : State) (listed : List AtomId) : Prop where
  increasing : s.atoms.Pairwise Before
  members : ∀ a, a ∈ s.atoms ↔ a ∈ listed
  /-- Each index that is visited is that of an atom. -/
  visits : s.trueAtoms.map some = s.visited.map s.problem.atom?
  complete : ∀ a, a ∈ s.visited ↔
    a ∈ listed ∨ ∃ atom, s.problem.atom? a = some atom ∧ atom.isStatic = true
  indexOnce : s.visited.Nodup
  atomOnce : s.trueAtoms.Nodup
  finds : ∀ a, s.finds a = true ↔ ∃ atom ∈ s.trueAtoms, s.problem.atom? a = some atom
  contains : ∀ a, s.contains a = s.finds a

theorem map_some_filterMap {α β : Type} {f : α → Option β} {as : List α}
    (found : ∀ a ∈ as, ∃ b, f a = some b) : (as.filterMap f).map some = as.map f := by
  induction as with
  | nil => rfl
  | cons a rest ih =>
    obtain ⟨⟨b, first⟩, later⟩ := List.forall_mem_cons.mp found
    simp [first, ih later]

section
variable {p : Problem} {listed : List AtomId} (valid : ∀ a ∈ listed, p.Dynamic a)
include valid

/-- A listed atom is not static, so none is visited twice. -/
theorem nodup_visited : (⟨p, sortAtoms listed⟩ : State).visited.Nodup := by
  apply List.nodup_append.mpr
  refine ⟨(sortAtoms_increasing listed).nodup, p.staticAtoms_increasing.nodup, ?_⟩
  rintro a dynamic b static rfl
  obtain ⟨atom, found, flag⟩ := valid a (mem_sortAtoms.mp dynamic)
  obtain ⟨other, found', flag'⟩ := Problem.mem_staticAtoms.mp static
  cases found.symm.trans found'
  exact absurd flag' (by simp [flag])

theorem canonical (made : p.Made) : (⟨p, sortAtoms listed⟩ : State).Canonical listed := by
  have same : ∀ a, (⟨p, sortAtoms listed⟩ : State).finds a
      = (⟨p, sortAtoms listed⟩ : State).contains a :=
    finds_eq (sortAtoms_increasing listed)
  have made' : (⟨p, sortAtoms listed⟩ : State).Made :=
    ⟨made, listed, ofAtoms_eq_ok_iff.mpr ⟨valid, rfl⟩⟩
  -- An index is determined by its atom.
  have apart : ∀ {a b : AtomId} {atom : Atom}, p.atom? a = some atom → p.atom? b = some atom →
      a = b := by
    intro a b atom found found'
    exact congrArg AtomId.mk (made.distinctKeys a.index b.index atom atom found found' rfl)
  constructor
  case increasing => exact sortAtoms_increasing listed
  case members => exact fun a => mem_sortAtoms
  case visits => exact map_some_filterMap made'.atom?
  case complete =>
    intro a
    simp only [visited, List.mem_append, mem_sortAtoms, Problem.mem_staticAtoms]
  case indexOnce => exact nodup_visited valid
  case atomOnce =>
    apply (nodup_visited valid).filterMap
    intro a b atom found found'
    exact apart found found'
  case finds =>
    intro a
    rw [same]
    constructor
    · intro holds
      cases found : p.atom? a with
      | none => simp [State.contains, found] at holds
      | some atom => exact ⟨atom, mem_trueAtoms.mpr ⟨a, found, holds⟩, rfl⟩
    · rintro ⟨atom, member, found⟩
      obtain ⟨b, found', holds⟩ := mem_trueAtoms.mp member
      rwa [apart found found']
  case contains => exact fun a => (same a).symm

end

/-- A state can be made from the dynamic atoms of a problem, and from nothing else.  It is their
set: two lists make the same state when they have the same atoms. -/
theorem ofAtoms_canonical {p : Problem} (made : p.Made) (listed : List AtomId) :
    ((∃ s, ofAtoms p listed = .ok s) ↔ ∀ a ∈ listed, p.Dynamic a) ∧
      ∀ s, ofAtoms p listed = .ok s → s.problem = p ∧ s.Canonical listed ∧
        ∀ others t, ofAtoms p others = .ok t →
          (s.same t = true ↔ ∀ a, a ∈ listed ↔ a ∈ others) := by
  simp only [ofAtoms_eq_ok_iff, exists_and_left, exists_eq, and_true]
  refine ⟨trivial, ?_⟩
  rintro s ⟨valid, rfl⟩
  refine ⟨rfl, canonical valid made, ?_⟩
  rintro others t ⟨_, rfl⟩
  simp only [same, decide_eq_true_eq, true_and]
  exact sortAtoms_eq_iff

/-- Of three atoms the second is static.  The others are given in the wrong order, and one of them
twice. -/
theorem ofAtoms_canonical_blocks :
    ∃ p : Problem, p.Made ∧ ∃ s, ofAtoms p [⟨2⟩, ⟨0⟩, ⟨2⟩] = .ok s ∧ s.atoms = [⟨0⟩, ⟨2⟩] ∧
      s.Canonical [⟨2⟩, ⟨0⟩, ⟨2⟩] ∧ s.trueAtoms.length = 3 ∧
      ¬ ∃ t, ofAtoms p [⟨0⟩, ⟨1⟩] = .ok t := by
  let ds : List Declaration := [.atom "on" ["a", "b"] false, .atom "on" ["b", "a"] true,
    .atom "on" ["a", "a"] false]
  let p : Problem := ((Problem.new 0 ⟨#[⟨"on", 2⟩], #[]⟩).declareAll ds).2
  have made : p.Made := (Problem.Made.new 0 _).declareAll ds
  have given : ofAtoms p [⟨2⟩, ⟨0⟩, ⟨2⟩] = .ok ⟨p, [⟨0⟩, ⟨2⟩]⟩ := by decide +kernel
  have static : ¬ p.Dynamic ⟨1⟩ := by
    rintro ⟨atom, found, flag⟩
    have stored : p.atom? ⟨1⟩ = some ⟨⟨0⟩, [⟨1⟩, ⟨0⟩], true⟩ := by decide +kernel
    cases stored.symm.trans found
    cases flag
  refine ⟨p, made, _, given, rfl, ((ofAtoms_canonical made _).2 _ given).2.1, by decide +kernel, ?_⟩
  intro accepted
  exact static ((ofAtoms_canonical made _).1.mp accepted ⟨1⟩ (by simp))

end State
end PlanFeatures
