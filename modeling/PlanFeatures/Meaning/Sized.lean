import PlanFeatures.Meaning.Relation

/-!
# Sets and relations of any size

A set or relation together with the number of objects that it is over.
Operations on two of them are refused when the numbers differ.  Operations that
go through two relations object by object have nothing to do when one of them is
over no objects, and then change nothing.  When the numbers are the same, the results
are those over a fixed number of objects.
-/

namespace PlanFeatures

/-- Why an operation on sets or relations is refused. -/
inductive SizeError where
  | outside (object size : Nat)
  | different (left right : Nat)
deriving DecidableEq, Repr

/-- The object with a number, when there are enough objects. -/
def object (size i : Nat) : Except SizeError (Fin size) :=
  if h : i < size then .ok ⟨i, h⟩ else .error (.outside i size)

/-! ## Sets -/

structure SizedSet where
  size : Nat
  set : ObjectSet size
deriving DecidableEq, Repr

namespace SizedSet

def empty (n : Nat) : SizedSet := ⟨n, ∅⟩

def full (n : Nat) : SizedSet := ⟨n, .full⟩

/-- Numbers of the members. -/
def toList (s : SizedSet) : List Nat := s.set.members.map (·.val)

/-- Inserts an object; tells whether it is new. -/
def add (s : SizedSet) (i : Nat) : Except SizeError (Bool × SizedSet) := do
  let (isNew, set) := s.set.add (← object s.size i)
  return (isNew, ⟨s.size, set⟩)

/-- Inserts one object after another, up to the first that is refused. -/
def addAll (s : SizedSet) : List Nat → SizedSet × Option SizeError
  | [] => (s, none)
  | i :: rest =>
    match s.add i with
    | .ok (_, t) => t.addAll rest
    | .error e => (s, some e)

/-- Erases an object; tells whether it was a member. -/
def remove (s : SizedSet) (i : Nat) : Bool × SizedSet :=
  let (isMember, set) := s.set.remove i
  (isMember, ⟨s.size, set⟩)

/-- Erases all objects. -/
def clear (s : SizedSet) : SizedSet := ⟨s.size, s.set.clear⟩

def compl (s : SizedSet) : SizedSet := ⟨s.size, s.set.compl⟩

/-- The second set as one over the objects of the first. -/
def align (s t : SizedSet) : Except SizeError (ObjectSet s.size) :=
  if h : t.size = s.size then .ok (h ▸ t.set) else .error (.different s.size t.size)

def union (s t : SizedSet) : Except SizeError SizedSet := do
  return ⟨s.size, s.set ∪ (← s.align t)⟩

def inter (s t : SizedSet) : Except SizeError SizedSet := do
  return ⟨s.size, s.set ∩ (← s.align t)⟩

def diff (s t : SizedSet) : Except SizeError SizedSet := do
  return ⟨s.size, s.set \ (← s.align t)⟩

def isSubset (s t : SizedSet) : Except SizeError Bool := do
  return s.set.isSubset (← s.align t)

def intersects (s t : SizedSet) : Except SizeError Bool := do
  return s.set.intersects (← s.align t)

/-- By the words, then by the number of objects. -/
instance : Ord SizedSet :=
  ⟨fun s t => (ObjectSet.compareWords s.set.words t.set.words).then (compare s.size t.size)⟩

end SizedSet

/-! ## Relations -/

structure SizedRelation where
  size : Nat
  relation : Relation size
deriving DecidableEq, Repr

namespace SizedRelation

def empty (n : Nat) : SizedRelation := ⟨n, ∅⟩

def full (n : Nat) : SizedRelation := ⟨n, .full⟩

def identity (s : SizedSet) : SizedRelation := ⟨s.size, .identity s.set⟩

def inverse (r : SizedRelation) : SizedRelation := ⟨r.size, r.relation.inverse⟩

def closure (r : SizedRelation) : SizedRelation := ⟨r.size, r.relation.closure⟩

def reflexiveClosure (r : SizedRelation) : SizedRelation := ⟨r.size, r.relation.reflexiveClosure⟩

def compl (r : SizedRelation) : SizedRelation := ⟨r.size, r.relation.compl⟩

/-- Inserts a pair; tells whether it is new. -/
def add (r : SizedRelation) (a b : Nat) : Except SizeError (Bool × SizedRelation) := do
  let a ← object r.size a
  let b ← object r.size b
  return (!r.relation.contains a b, ⟨r.size, r.relation.insert a b⟩)

def ofPairs (n : Nat) (pairs : List (Nat × Nat)) : Except SizeError SizedRelation :=
  pairs.foldlM (fun r (a, b) => Prod.snd <$> r.add a b) (empty n)

/-- Whether a pair is in the relation; its first object has to exist. -/
def contains (r : SizedRelation) (a b : Nat) : Except SizeError Bool := do
  return r.relation.contains (← object r.size a) b

/-- The second relation as one over the objects of the first, or `none` when one
of them is over no objects and the other is not. -/
def align (r s : SizedRelation) : Except SizeError (Option (Relation r.size)) :=
  if h : s.size = r.size then .ok (some (h ▸ s.relation))
  else if r.size = 0 ∨ s.size = 0 then .ok none
  else .error (.different r.size s.size)

/-- Combines two relations, unless one of them is over no objects. -/
def combine (f : ∀ {n : Nat}, Relation n → Relation n → Relation n) (r s : SizedRelation) :
    Except SizeError SizedRelation := do
  match ← r.align s with
  | some t => return ⟨r.size, f r.relation t⟩
  | none => return r

def union (r s : SizedRelation) : Except SizeError SizedRelation := combine (· ∪ ·) r s

def inter (r s : SizedRelation) : Except SizeError SizedRelation := combine (· ∩ ·) r s

def diff (r s : SizedRelation) : Except SizeError SizedRelation := combine (· \ ·) r s

def isSubset (r s : SizedRelation) : Except SizeError Bool := do
  match ← r.align s with
  | some t => return r.relation.isSubset t
  | none => return true

/-- A relation without pairs can be composed with one of any size. -/
def compose (r s : SizedRelation) : Except SizeError SizedRelation :=
  if h : s.size = r.size then .ok ⟨r.size, r.relation.compose (h ▸ s.relation)⟩
  else if r.relation.isEmpty then .ok (empty r.size)
  else .error (.different r.size s.size)

/-- The pairs whose second object is in a set; no objects go with every set. -/
def restrict (r : SizedRelation) (s : SizedSet) : Except SizeError SizedRelation :=
  if h : s.size = r.size then .ok ⟨r.size, r.relation.restrict (h ▸ s.set)⟩
  else if r.size = 0 then .ok r
  else .error (.different r.size s.size)

/-- The stops may be given in a set of any size, as long as all of them exist. -/
def closureThrough (r : SizedRelation) (stops : SizedSet) : Except SizeError SizedRelation := do
  let stops ← stops.toList.mapM (object r.size)
  return ⟨r.size, r.relation.closureThrough (ObjectSet.filter fun a => stops.contains a)⟩

end SizedRelation

/-! ## Operations over one number of objects -/

section
variable {n : Nat}

theorem object_fin (a : Fin n) : object n a = .ok a := dif_pos a.isLt

namespace SizedSet
variable (s t : ObjectSet n)

theorem align_same : (⟨n, s⟩ : SizedSet).align ⟨n, t⟩ = .ok t := dif_pos rfl

@[simp] theorem union_same : union ⟨n, s⟩ ⟨n, t⟩ = .ok ⟨n, s ∪ t⟩ := by
  rw [union, align_same]
  rfl

@[simp] theorem inter_same : inter ⟨n, s⟩ ⟨n, t⟩ = .ok ⟨n, s ∩ t⟩ := by
  rw [inter, align_same]
  rfl

@[simp] theorem diff_same : diff ⟨n, s⟩ ⟨n, t⟩ = .ok ⟨n, s \ t⟩ := by
  rw [diff, align_same]
  rfl

@[simp] theorem isSubset_same : isSubset ⟨n, s⟩ ⟨n, t⟩ = .ok (s.isSubset t) := by
  rw [isSubset, align_same]
  rfl

@[simp] theorem intersects_same : intersects ⟨n, s⟩ ⟨n, t⟩ = .ok (s.intersects t) := by
  rw [intersects, align_same]
  rfl

@[simp] theorem add_fin (a : Fin n) : add ⟨n, s⟩ a = .ok (!s.contains a, ⟨n, s.insert a⟩) := by
  rw [add, object_fin]
  rfl

end SizedSet

namespace SizedRelation
variable (r t : Relation n)

theorem align_same : (⟨n, r⟩ : SizedRelation).align ⟨n, t⟩ = .ok (some t) := dif_pos rfl

theorem combine_same (f : ∀ {n : Nat}, Relation n → Relation n → Relation n) :
    combine f ⟨n, r⟩ ⟨n, t⟩ = .ok ⟨n, f r t⟩ := by
  rw [combine, align_same]
  rfl

@[simp] theorem union_same : union ⟨n, r⟩ ⟨n, t⟩ = .ok ⟨n, r ∪ t⟩ := combine_same r t _

@[simp] theorem inter_same : inter ⟨n, r⟩ ⟨n, t⟩ = .ok ⟨n, r ∩ t⟩ := combine_same r t _

@[simp] theorem diff_same : diff ⟨n, r⟩ ⟨n, t⟩ = .ok ⟨n, r \ t⟩ := combine_same r t _

@[simp] theorem isSubset_same : isSubset ⟨n, r⟩ ⟨n, t⟩ = .ok (r.isSubset t) := by
  rw [isSubset, align_same]
  rfl

@[simp] theorem compose_same : compose ⟨n, r⟩ ⟨n, t⟩ = .ok ⟨n, r.compose t⟩ := dif_pos rfl

@[simp] theorem restrict_same (s : ObjectSet n) :
    restrict ⟨n, r⟩ ⟨n, s⟩ = .ok ⟨n, r.restrict s⟩ := dif_pos rfl

@[simp] theorem add_fin (a b : Fin n) :
    add ⟨n, r⟩ a b = .ok (!r.contains a b, ⟨n, r.insert a b⟩) := by
  rw [add, object_fin, object_fin]
  rfl

end SizedRelation
end

end PlanFeatures
