import PlanFeatures.Proofs.Domain.Made
import PlanFeatures.Proofs.Term.Text

/-!
# Names stand for one thing each

Predicates, constants and objects are looked up by name before they are added, so no
two of them share a name.  The first thing with a name is then the only one, and the
name of a declared thing leads back to it.
-/

namespace PlanFeatures

section
variable {α β : Type}

/-- No two entries have the same name. -/
def UniquelyNamed (name : α → β) (entries : Array α) : Prop :=
  ∀ (i j : Nat) (a b : α), entries[i]? = some a → entries[j]? = some b → name a = name b → i = j

theorem uniquelyNamed_empty (name : α → β) : UniquelyNamed name #[] := by
  intro i j a b found
  simp at found

variable [BEq β] [LawfulBEq β] {name : α → β} {entries : Array α}

theorem UniquelyNamed.push (distinct : UniquelyNamed name entries) {new : α}
    (absent : entries.findIdx? (fun a => name a == name new) = none) :
    UniquelyNamed name (entries.push new) := by
  have other : ∀ {i : Nat} {a : α}, entries[i]? = some a → name a ≠ name new := by
    intro i a found
    have differ := Array.findIdx?_eq_none_iff.mp absent a (Array.mem_of_getElem? found)
    simpa using differ
  have place : ∀ {i : Nat} {a : α}, (entries.push new)[i]? = some a →
      (i = entries.size ∧ a = new) ∨ entries[i]? = some a := by
    intro i a found
    rw [Array.getElem?_push] at found
    split at found
    next last => exact Or.inl ⟨last, (Option.some.inj found).symm⟩
    next => exact Or.inr found
  intro i j a b foundA foundB same
  rcases place foundA with ⟨rfl, rfl⟩ | oldA
  · rcases place foundB with ⟨rfl, rfl⟩ | oldB
    · rfl
    · exact absurd same.symm (other oldB)
  · rcases place foundB with ⟨rfl, rfl⟩ | oldB
    · exact absurd same (other oldA)
    · exact distinct i j a b oldA oldB same

/-- An entry is found under its name. -/
theorem UniquelyNamed.findIdx? (distinct : UniquelyNamed name entries) {i : Nat} {a : α}
    (found : entries[i]? = some a) : entries.findIdx? (fun b => name b == name a) = some i := by
  cases place : entries.findIdx? (fun b => name b == name a) with
  | none =>
    have differ := Array.findIdx?_eq_none_iff.mp place a (Array.mem_of_getElem? found)
    simp at differ
  | some j =>
    obtain ⟨inside, same, _⟩ := Array.findIdx?_eq_some_iff_getElem.mp place
    rw [distinct j i _ a (Array.getElem?_eq_getElem inside) found (by simpa using same)]

omit [BEq β] [LawfulBEq β] in
theorem UniquelyNamed.of_map {γ : Type} {f : γ → α} {entries : Array γ}
    (distinct : UniquelyNamed name (entries.map f)) :
    UniquelyNamed (fun entry => name (f entry)) entries := by
  intro i j a b foundA foundB same
  apply distinct i j (f a) (f b)
  · simp [foundA]
  · simp [foundB]
  · exact same

/-- Names that differ from each other. -/
abbrev DistinctNames (names : Array String) : Prop := UniquelyNamed (fun name => name) names

end

/-! ## Vocabularies -/

namespace Vocabulary

/-- The vocabularies that declarations can lead to. -/
inductive Made : Vocabulary → Prop where
  | empty : Made .empty
  | predicate {v v' : Vocabulary} {name : String} {arity : Nat} {p : PredicateId} (made : Made v)
      (added : v.addPredicate name arity = .ok (p, v')) : Made v'
  | constant {v : Vocabulary} (made : Made v) (name : String) : Made (v.addConstant name).2

/-- No two predicates share a name, and no two constants. -/
structure Separate (v : Vocabulary) : Prop where
  predicates : UniquelyNamed Predicate.name v.predicates
  constants : DistinctNames v.constants

theorem Made.separate {v : Vocabulary} (made : v.Made) : v.Separate := by
  induction made with
  | empty => exact ⟨uniquelyNamed_empty _, uniquelyNamed_empty _⟩
  | @predicate v v' name arity p _ added ih =>
    unfold addPredicate at added
    split at added
    next absent =>
      cases added
      exact ⟨ih.predicates.push (Option.map_eq_none_iff.mp absent), ih.constants⟩
    next found =>
      split at added
      next => split at added <;> cases added; exact ih
      next => cases added
  | @constant v _ name ih =>
    unfold addConstant
    split
    next => exact ih
    next absent =>
      have fresh := Option.map_eq_none_iff.mp absent
      exact ⟨ih.predicates, ih.constants.push fresh⟩

theorem Separate.findPredicate? {v : Vocabulary} (separate : v.Separate) {p : PredicateId}
    {predicate : Predicate} (found : v.predicate? p = some predicate) :
    v.findPredicate? predicate.name = some p := by
  rw [Vocabulary.findPredicate?, separate.predicates.findIdx? found]
  rfl

theorem Separate.findConstant? {v : Vocabulary} (separate : v.Separate) {k : ConstantId}
    {name : String} (found : v.constant? k = some name) : v.findConstant? name = some k := by
  rw [Vocabulary.findConstant?, separate.constants.findIdx? found]
  rfl

/-- All names can be read. -/
structure Plain (v : Vocabulary) : Prop where
  predicates : ∀ {p : PredicateId} {predicate : Predicate},
    v.predicate? p = some predicate → IsName predicate.name
  constants : ∀ {k : ConstantId} {name : String}, v.constant? k = some name → IsName name

end Vocabulary

/-! ## Objects -/

namespace Problem

/-- What the names of the objects of a problem are like. -/
structure WellNamed (p : Problem) : Prop where
  objects : DistinctNames p.objects
  constants : ∀ name ∈ p.vocabulary.constants, name ∈ p.objects

theorem addObject_spec {p : Problem} (distinct : DistinctNames p.objects) (name : String) :
    DistinctNames (p.addObject name).2.objects ∧ name ∈ (p.addObject name).2.objects ∧
      ∀ old ∈ p.objects, old ∈ (p.addObject name).2.objects := by
  unfold addObject
  split
  next o found =>
    obtain ⟨i, place, rfl⟩ := Option.map_eq_some_iff.mp found
    obtain ⟨inside, same, _⟩ := Array.findIdx?_eq_some_iff_getElem.mp place
    exact ⟨distinct, eq_of_beq same ▸ Array.getElem_mem inside, fun _ old => old⟩
  next absent =>
    exact ⟨distinct.push (Option.map_eq_none_iff.mp absent), Array.mem_push_self,
      fun _ old => Array.mem_push_of_mem _ old⟩

theorem addObjects_spec {p : Problem} (distinct : DistinctNames p.objects)
    (names : List String) :
    DistinctNames (p.addObjects names).2.objects ∧
      (∀ name ∈ names, name ∈ (p.addObjects names).2.objects) ∧
      ∀ old ∈ p.objects, old ∈ (p.addObjects names).2.objects := by
  induction names generalizing p with
  | nil => exact ⟨distinct, fun _ member => absurd member List.not_mem_nil, fun _ old => old⟩
  | cons name rest ih =>
    obtain ⟨once, has, keeps⟩ := addObject_spec distinct name
    obtain ⟨distinct', has', keeps'⟩ := ih once
    refine ⟨distinct', ?_, fun old member => keeps' old (keeps old member)⟩
    intro other member
    cases member with
    | head => exact keeps' name has
    | tail _ member => exact has' other member

/-- Objects that are added leave the names as they should be. -/
theorem WellNamed.grown {p p' : Problem} (named : p.WellNamed)
    (vocabulary : p'.vocabulary = p.vocabulary) (distinct : DistinctNames p'.objects)
    (keeps : ∀ old ∈ p.objects, old ∈ p'.objects) : p'.WellNamed where
  objects := distinct
  constants name member := keeps name (named.constants name (vocabulary ▸ member))

theorem Made.wellNamed {p : Problem} (made : p.Made) : p.WellNamed := by
  induction made with
  | new id v =>
    have empty : DistinctNames (⟨⟨id⟩, v, #[], #[]⟩ : Problem).objects := uniquelyNamed_empty _
    obtain ⟨distinct, has, _⟩ := addObjects_spec empty v.constants.toList
    have grown := (addObjects_grown ⟨⟨id⟩, v, #[], #[]⟩ v.constants.toList).1
    refine ⟨distinct, fun name member => has name ?_⟩
    rw [Problem.new, grown.vocabulary] at member
    exact Array.mem_toList_iff.mpr member
  | @object p _ name ih =>
    obtain ⟨distinct, _, keeps⟩ := addObject_spec ih.objects name
    exact ih.grown (addObject_grown p name).1.vocabulary distinct keeps
  | @atom p _ _ objects _ _ _ added ih =>
    have grown := (addObjects_grown p objects).1
    obtain ⟨distinct, _, keeps⟩ := addObjects_spec ih.objects objects
    obtain ⟨q, rfl, rfl | ⟨atom, _, rfl⟩⟩ := addAtom_cases added
    · exact ih.grown grown.vocabulary distinct keeps
    · exact ih.grown grown.vocabulary distinct keeps

end Problem
end PlanFeatures
