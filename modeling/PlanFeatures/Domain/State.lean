import PlanFeatures.Domain.Problem

/-!
# States

A state of a problem is a set of its dynamic atoms, kept as an increasing list.
The static atoms of the problem are true in it without being listed.
-/

namespace PlanFeatures

structure State where
  problem : Problem
  /-- The dynamic atoms that are true, in increasing order. -/
  atoms : List AtomId
deriving DecidableEq, Repr

namespace State

/-- Adds an atom to an increasing list, unless it is there. -/
def insertAtom (a : AtomId) : List AtomId → List AtomId
  | [] => [a]
  | b :: rest =>
    if a.index < b.index then a :: b :: rest
    else if a = b then b :: rest
    else b :: insertAtom a rest

/-- The given atoms in increasing order, each once. -/
def sortAtoms (atoms : List AtomId) : List AtomId := atoms.foldr insertAtom []

theorem mem_insertAtom {a b : AtomId} {atoms : List AtomId} :
    b ∈ insertAtom a atoms ↔ b = a ∨ b ∈ atoms := by
  induction atoms with
  | nil => simp [insertAtom]
  | cons c rest ih =>
    simp only [insertAtom]
    split
    · simp
    · split
      · simp_all
      · simp only [List.mem_cons, ih]
        grind

theorem mem_sortAtoms {a : AtomId} {atoms : List AtomId} : a ∈ sortAtoms atoms ↔ a ∈ atoms := by
  induction atoms with
  | nil => simp [sortAtoms]
  | cons b rest ih =>
    have : sortAtoms (b :: rest) = insertAtom b (sortAtoms rest) := rfl
    simp [this, mem_insertAtom, ih]

/-- Refuses atoms that a problem does not have and static ones. -/
def checkAtom (p : Problem) (a : AtomId) : Except DomainError Unit :=
  match p.atom? a with
  | none => .error (.foreignAtom a.index p.id.index)
  | some atom => if atom.isStatic then .error (.staticAtomInState (p.atomText atom)) else .ok ()

/-- The state with the given atoms.  Of several that are refused, the lowest is
reported. -/
def ofAtoms (p : Problem) (atoms : List AtomId) : Except DomainError State := do
  let atoms := sortAtoms atoms
  atoms.forM (checkAtom p)
  return ⟨p, atoms⟩

def objectCount (s : State) : Nat := s.problem.objectCount

/-- Every atom that is true: first those of the state, then the static ones. -/
def trueAtoms (s : State) : List Atom :=
  (s.atoms ++ s.problem.staticAtoms).filterMap s.problem.atom?

/-- Whether an atom is true. -/
def contains (s : State) (a : AtomId) : Bool :=
  match s.problem.atom? a with
  | none => false
  | some atom => atom.isStatic || s.atoms.contains a

/-- The place that an atom has in an increasing list, when it is there.  It is looked for among
`size` places from `base` on, which are halved until one is left. -/
def place (listed : Array AtomId) (a : AtomId) (base size : Nat) : Nat :=
  if size ≤ 1 then base
  else
    let middle := base + size / 2
    let after := (listed[middle]?).any fun b => a.index < b.index
    place listed a (if after then base else middle) (size - size / 2)

/-- Whether an atom is true, by binary search in the atoms of the state. -/
def finds (s : State) (a : AtomId) : Bool :=
  match s.problem.atom? a with
  | none => false
  | some atom =>
    let listed := s.atoms.toArray
    atom.isStatic || listed[place listed a 0 listed.size]? = some a

/-- States are the same when their problems have the same number and their lists
of atoms are equal. -/
def same (s t : State) : Bool := s.problem.id = t.problem.id ∧ s.atoms = t.atoms

/-- Number of states that differ from each other. -/
def countDistinct : List State → Nat
  | [] => 0
  | s :: rest => (if rest.any s.same then 0 else 1) + countDistinct rest

/-- The atoms between braces, as in `{clear(a), clear(b)}`. -/
def text (s : State) : String :=
  let atoms := s.atoms.map fun a => (s.problem.atom? a).elim "" s.problem.atomText
  "\x7b" ++ String.intercalate ", " atoms ++ "\x7d"

end State
end PlanFeatures
