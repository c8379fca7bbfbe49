import PlanFeatures.Proofs.Generation.Machines

/-!
# What steps and runs keep

Candidates that are considered and evaluated leave alone what is kept, and only registering
them adds to it.  What every batch and every end of a layer keeps is kept by a whole run.
-/

namespace PlanFeatures

namespace Session
variable {s s' : Session}

/-- The handle has been considered. -/
def Seen (s : Session) (h : Handle) : Prop := s.representatives.seen.contains h.index = true

/-- More may have been considered, but the same is kept. -/
structure Marks (s s' : Session) : Prop where
  kept : s'.representatives.kept = s.representatives.kept
  features : s'.features = s.features
  seen : ∀ h, s.Seen h → s'.Seen h

theorem marks_looks (s : Session) (n : Nat) : s.Marks { s with looks := n } :=
  ⟨rfl, rfl, fun _ seen => seen⟩

theorem Marks.trans {s'' : Session} (first : s.Marks s') (second : s'.Marks s'') : s.Marks s'' :=
  ⟨second.kept.trans first.kept, second.features.trans first.features,
    fun h seen => second.seen h (first.seen h seen)⟩

end Session

namespace Search
open Session
variable {s : Session}

/-! ## Steps -/

theorem checkClock_marks (clock : Clock) (s : Session) :
    Outcome (checkClock clock) s (fun _ s' => s.Marks s')
      (fun e s' => s.Marks s' ∧ e = .timeLimit ∧ ∃ n < s'.looks, clock n = true) := by
  simp only [checkClock, Outcome.bind_iff, Outcome.modifyGet_iff]
  split
  next up => exact ⟨s.marks_looks (s.looks + 1), rfl, s.looks, Nat.lt_succ_self _, up⟩
  next => exact s.marks_looks (s.looks + 1)

theorem checkClock_looks (clock : Clock) (s : Session) :
    Outcome (checkClock clock) s (fun _ s' => s' = { s with looks := s.looks + 1 })
      (fun e s' => e = .timeLimit ∧ s' = { s with looks := s.looks + 1 }) := by
  simp only [checkClock, Outcome.bind_iff, Outcome.modifyGet_iff]
  split
  next => exact ⟨rfl, rfl⟩
  next => rfl

theorem consider_marks (rule : Rule) (node : Node) (s : Session) :
    Outcome (consider rule node) s
      (fun result s' => s.Marks s' ∧ ∀ p ∈ result, s'.Seen p.1)
      (fun e s' => s.Marks s' ∧ ∃ g, e = .failure g) := by
  have grows : ∀ h g : Handle, s.Seen g →
      (s.representatives.markSeen h).2.seen.contains g.index = true := by
    intro h g seen
    simp only [Representatives.markSeen, Std.TreeSet.contains_insert, Bool.or_eq_true]
    exact Or.inr seen
  simp only [consider, intern, count, fail, Outcome.bind_iff, Outcome.modify_iff,
    Outcome.modifyGet_iff]
  rcases (Build.intern node).run s.store with ⟨result, store⟩
  cases result with
  | error e => exact ⟨⟨rfl, rfl, fun _ seen => seen⟩, _, rfl⟩
  | ok h =>
    simp only [Outcome.pure_iff]
    split
    next =>
      refine ⟨⟨rfl, rfl, grows h⟩, ?_⟩
      rintro _ ⟨⟩
      simp [Seen, Representatives.markSeen]
    next =>
      refine ⟨⟨rfl, rfl, grows h⟩, ?_⟩
      rintro _ ⟨⟩

theorem considerAll_marks (rule : Rule) (batch : List Node) (s : Session) :
    Outcome (batch.mapM (consider rule)) s
      (fun results s' => s.Marks s' ∧ ∀ p ∈ results.filterMap id, s'.Seen p.1)
      (fun e s' => s.Marks s' ∧ ∃ g, e = .failure g) := by
  let invariant (_ : List Node) (results : List (Option (Handle × Node))) (s' : Session) : Prop :=
    s.Marks s' ∧ ∀ p ∈ results.filterMap id, s'.Seen p.1
  have start : invariant batch [] s :=
    ⟨s.marks_looks s.looks, fun p member => absurd member List.not_mem_nil⟩
  refine Outcome.mapM_of_invariant invariant ?_ batch [] start
  rintro node rest results s₁ ⟨marks₁, seen₁⟩
  refine (consider_marks rule node s₁).imp ?_ fun _ _ stop => ⟨marks₁.trans stop.1, stop.2⟩
  rintro result s₂ ⟨marks₂, seen₂⟩
  refine ⟨marks₁.trans marks₂, fun p member => ?_⟩
  rw [List.filterMap_append] at member
  rcases List.mem_append.mp member with before | last
  · exact marks₂.seen _ (seen₁ p before)
  · cases result with
    | none => cases last
    | some q =>
      rw [List.mem_singleton.mp last]
      exact seen₂ q rfl

theorem evaluateAll_unchanged (fresh : List (Handle × Node)) (s : Session) :
    Outcome (fresh.mapM fun (_, node) => evaluate node) s (fun _ s' => s' = s)
      (fun e s' => s' = s ∧ ∃ g, e = .failure g) := by
  refine Outcome.mapM_of_invariant (fun _ _ s' => s' = s) ?_ fresh [] rfl
  rintro ⟨h, node⟩ rest vectors _ rfl
  simp only [evaluate, vectorOf, fail, Outcome.bind_iff, Outcome.get_iff]
  split
  next => rfl
  next => exact ⟨rfl, _, rfl⟩

/-! ## Runs -/

section
variable {config : Config} {clock : Clock} {invariant : Session → Prop}
  {stopped : Stop → Session → Prop}

theorem processRule_keeps {rule : Rule}
    (batch : ∀ nodes s, invariant s →
      Outcome (processBatch config clock rule nodes) s (fun _ => invariant) stopped)
    (k : Nat) (holds : invariant s) :
    Outcome (processRule config clock k rule) s (fun _ => invariant) stopped := by
  rw [processRule_eq]
  split
  next =>
    simp only [Outcome.bind_iff, Outcome.get_iff]
    exact Outcome.forM_of_invariant (fun _ => invariant) (fun nodes _ s => batch nodes s) _ holds
  next => exact holds

/-- What batches and the ends of layers keep, a run keeps. -/
theorem enumerate_keeps
    (batch : ∀ rule nodes s, invariant s →
      Outcome (processBatch config clock rule nodes) s (fun _ => invariant) stopped)
    (close : ∀ k s, invariant s → Outcome (closeLayer k) s (fun _ => invariant) stopped)
    (start : invariant s) : Outcome (enumerate config clock) s (fun _ => invariant) stopped := by
  refine Outcome.forM_range'_of_invariant (fun _ => invariant) ?_ 1 config.limits.max start
  intro k s holds
  rw [Outcome.bind_iff]
  exact (Outcome.forM_of_invariant (fun _ => invariant)
    (fun rule _ s => processRule_keeps (batch rule) k) _ holds).imp_done fun _ s' => close k s'

end

/-! ## Deadlines -/

/-- Only a look at the clock stops a run for its time. -/
def OnTime (clock : Clock) (e : Stop) (s : Session) : Prop :=
  e = .timeLimit → ∃ n < s.looks, clock n = true

theorem emit_untimed (featureLimit : Nat) (h : Handle) (s : Session) :
    Outcome (emit featureLimit h) s (fun _ _ => True) (fun e _ => e ≠ .timeLimit) := by
  simp only [emit, fail, Outcome.bind_iff, Outcome.get_iff]
  split
  next => rintro ⟨⟩
  next =>
    simp only [Outcome.bind_iff, Outcome.get_iff, Outcome.modify_iff]
    split
    next => rintro ⟨⟩
    next => trivial

theorem register_onTime (clock : Clock) (featureLimit : Nat) (rule : Rule) (h : Handle)
    (vector : ExtensionVector) (s : Session) :
    Outcome (register featureLimit rule h vector) s (fun _ _ => True) (OnTime clock) := by
  simp only [register, count, Outcome.bind_iff, Outcome.modify_iff, Outcome.modifyGet_iff]
  split
  next =>
    split
    next =>
      exact (emit_untimed featureLimit h _).imp (fun _ _ _ => trivial) fun _ _ live up =>
        absurd up live
    next => trivial
  next => trivial

theorem enumerate_onTime (config : Config) (clock : Clock) (s : Session) :
    Outcome (enumerate config clock) s (fun _ _ => True) (OnTime clock) := by
  have failure : ∀ {e : Stop} {s' : Session}, (∃ g, e = .failure g) → OnTime clock e s' := by
    rintro _ s' ⟨g, rfl⟩
    rintro ⟨⟩
  refine enumerate_keeps (fun rule batch s _ => ?_) (fun _ _ _ => trivial) trivial
  simp only [processBatch_eq, Outcome.bind_iff, Outcome.modify_iff]
  refine (checkClock_marks clock s).imp ?_ fun _ _ stop _ => stop.2.2
  intro _ s₁ _
  refine (considerAll_marks rule batch s₁).imp ?_ fun _ _ stop => failure stop.2
  intro considered s₂ _
  refine (evaluateAll_unchanged _ s₂).imp ?_ fun _ _ stop => failure stop.2
  intro vectors s₃ _
  refine Outcome.forM_of_invariant (fun _ _ => True) ?_ _ trivial
  rintro ⟨⟨h, node⟩, vector⟩ _ s₄ _
  exact register_onTime clock config.featureLimit rule h vector s₄

end Search
end PlanFeatures
