import PlanFeatures.Generation.Run
import PlanFeatures.Meaning.Sized

/-!
# Faults

The definitions of this project are total: a look-up that finds nothing has a default, and a
subtraction stops at zero.  A strict computation takes no such liberty.  It gives a fault
where a look-up finds nothing, where a number would be negative or too large, where sets are
over different numbers of objects, and where an assertion fails.  The modules beside this one
state the steps of a run strictly, and show that these give the results of the run itself.
-/

namespace PlanFeatures

/-- What must not happen within a run. -/
inductive Fault where
  /-- The second number is larger than the first, from which it is subtracted. -/
  | underflow (a b : Nat)
  /-- The number does not fit into 32 bits. -/
  | overflow (n : Nat)
  /-- The layer has not been closed. -/
  | openLayer (k : Nat)
  /-- The table has no entry with the index. -/
  | noSuchEntry (index : Nat)
  /-- The table has not so many buckets. -/
  | noSuchBucket (slot : Nat)
  /-- A recursion through operands does not end. -/
  | endless
  | noSuchPredicate (p : PredicateId)
  | noSuchConstant (k : ConstantId)
  | noSuchAtom (a : AtomId)
  | noSuchPosition (a : Atom) (position : Nat)
  /-- An object outside a set, or sets over different numbers of objects. -/
  | size (e : SizeError)
  /-- Nothing is known about an operand. -/
  | notEvaluated (h : Handle)
  /-- A vector has no place for the state with the number. -/
  | noSuchState (i : Nat)
  /-- An expression denotes something of another kind than its handle says. -/
  | otherKind (h : Handle)
  /-- The store has no expression with the operand's index. -/
  | foreignOperand (h : Handle)
  /-- An expression that should be a feature is a concept or a role. -/
  | noFeature (h : Handle)
deriving DecidableEq, Repr

namespace Strict

/-- What a look-up finds. -/
def found {α : Type} (fault : Fault) : Option α → Except Fault α
  | some a => .ok a
  | none => .error fault

/-- An operation on sets or relations. -/
def sized {α : Type} : Except SizeError α → Except Fault α
  | .ok a => .ok a
  | .error e => .error (.size e)

def sub (a b : Nat) : Except Fault Nat := if b ≤ a then .ok (a - b) else .error (.underflow a b)

theorem sub_ok {a b : Nat} (le : b ≤ a) : sub a b = .ok (a - b) := if_pos le

theorem found_some {α : Type} {fault : Fault} {o : Option α} {a : α} (some : o = some a) :
    found fault o = .ok a := by
  rw [some]
  rfl

theorem bind_ok {α β ε : Type} {x : Except ε α} {a : α} (value : x = .ok a)
    (f : α → Except ε β) : (x >>= f) = f a := by
  rw [value]
  rfl

/-- The steps of a computation that succeeds. -/
theorem of_bind_eq_ok {α β ε : Type} {x : Except ε α} {f : α → Except ε β} {b : β}
    (whole : (x >>= f) = .ok b) : ∃ a, x = .ok a ∧ f a = .ok b := by
  cases x with
  | error e => cases whole
  | ok a => exact ⟨a, rfl, whole⟩

theorem discard_ok {α ε : Type} {x : Except ε α} {a : α} (value : x = .ok a) :
    discard x = .ok ⟨⟩ := by
  rw [value]
  rfl

/-! ## Loops -/

/-- A loop whose steps succeed gives their results. -/
theorem mapM_eq_ok {α β ε : Type} {f : α → Except ε β} {g : α → β} {as : List α}
    (steps : ∀ a ∈ as, f a = .ok (g a)) : as.mapM f = .ok (as.map g) := by
  induction as with
  | nil => rfl
  | cons a rest ih =>
    rw [List.mapM_cons, steps a List.mem_cons_self,
      ih fun b member => steps b (List.mem_cons_of_mem _ member)]
    rfl

theorem mapM_found_ok {α β : Type} {f : α → Option β} {fault : α → Fault} {as : List α}
    (all : ∀ a ∈ as, ∃ b, f a = some b) :
    as.mapM (fun a => found (fault a) (f a)) = .ok (as.filterMap f) := by
  induction as with
  | nil => rfl
  | cons a rest ih =>
    obtain ⟨b, here⟩ := all a List.mem_cons_self
    rw [List.mapM_cons, bind_ok (found_some here),
      bind_ok (ih fun a member => all a (List.mem_cons_of_mem _ member)),
      List.filterMap_cons_some here]
    rfl

/-- A loop whose steps succeed where those of another one do, with the same results. -/
theorem mapM_of_ok {α β ε ε' : Type} {f : α → Except ε β} {g : α → Except ε' β} {as : List α}
    (steps : ∀ a b, a ∈ as → f a = .ok b → g a = .ok b) {bs : List β}
    (whole : as.mapM f = .ok bs) : as.mapM g = .ok bs := by
  induction as generalizing bs with
  | nil =>
    cases whole
    rfl
  | cons a rest ih =>
    rw [List.mapM_cons] at whole ⊢
    obtain ⟨b, first, whole⟩ := of_bind_eq_ok whole
    obtain ⟨more, later, whole⟩ := of_bind_eq_ok whole
    cases whole
    rw [bind_ok (steps a b List.mem_cons_self first),
      bind_ok (ih (fun a b member => steps a b (List.mem_cons_of_mem _ member)) later)]
    rfl

/-- The same for a loop that changes a value, to which the second loop adds its number of
objects. -/
theorem foldlM_of_ok {α β γ ε ε' : Type} {f : β → α → Except ε β} {g : γ → α → Except ε' γ}
    (size : β → γ)
    (steps : ∀ {x a x'}, f x a = .ok x' → g (size x) a = .ok (size x')) {as : List α} {x x' : β}
    (whole : as.foldlM f x = .ok x') : as.foldlM g (size x) = .ok (size x') := by
  induction as generalizing x with
  | nil =>
    cases whole
    rfl
  | cons a rest ih =>
    rw [List.foldlM_cons] at whole ⊢
    obtain ⟨y, first, more⟩ := of_bind_eq_ok whole
    rw [bind_ok (steps first)]
    exact ih more

end Strict
end PlanFeatures
