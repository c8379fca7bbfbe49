import PlanFeatures.Proofs.Outcome
import PlanFeatures.Proofs.Strict.Fault

/-!
# Strict searches

The steps of a strict search may give faults.  `Agrees x m s` says that from the session `s`
on the strict search `x` does what the search `m` does, so it meets with no fault.  The rules
below take both apart along their steps, and what is known in between is an outcome of the
search.
-/

namespace PlanFeatures

/-- Why a strict search ends early. -/
inductive Halt where
  | stop (e : Stop)
  | fault (f : Fault)
deriving DecidableEq, Repr

abbrev StrictSearch := ExceptT Halt (StateM Session)

namespace Strict
variable {α β : Type}

/-- A strict computation as a step of a strict search. -/
def attempt : Except Fault α → StrictSearch α
  | .ok a => return a
  | .error f => throw (.fault f)

/-- A search none of whose steps can give a fault. -/
def lift (m : Search α) : StrictSearch α := fun s =>
  match m.run s with
  | (.ok a, s') => (.ok a, s')
  | (.error e, s') => (.error (.stop e), s')

def Agrees (x : StrictSearch α) (m : Search α) (s : Session) : Prop := x.run s = (lift m).run s

theorem run_lift (m : Search α) (s : Session) :
    (lift m).run s = match m.run s with
      | (.ok a, s') => (.ok a, s')
      | (.error e, s') => (.error (.stop e), s') := rfl

namespace Agrees
variable {s : Session}

theorem lift (m : Search α) (s : Session) : Agrees (Strict.lift m) m s := rfl

theorem pure (a : α) (s : Session) : Agrees (Pure.pure a) (Pure.pure a) s := rfl

protected theorem modify (f : Session → Session) (s : Session) : Agrees (modify f) (modify f) s := rfl

theorem stop (e : Stop) (s : Session) :
    Agrees (throw (.stop e) : StrictSearch α) (throw e : Search α) s := rfl

theorem bind {x : StrictSearch α} {m : Search α} {f : α → StrictSearch β} {g : α → Search β}
    {done : α → Session → Prop} {stopped : Stop → Session → Prop} (first : Agrees x m s)
    (outcome : Outcome m s done stopped) (next : ∀ a s', done a s' → Agrees (f a) (g a) s') :
    Agrees (x >>= f) (m >>= g) s := by
  unfold Agrees at *
  unfold Outcome at outcome
  rw [run_bind, first, run_lift, run_lift, run_bind]
  revert outcome
  rcases m.run s with ⟨r, s'⟩
  cases r with
  | ok a => exact fun there => next a s' there
  | error e => exact fun _ => rfl

theorem get_bind {f : Session → StrictSearch α} {m : Search α} (rest : Agrees (f s) m s) :
    Agrees (get >>= f) m s :=
  rest

theorem bind_get {x : StrictSearch α} {g : Session → Search α} (rest : Agrees x (g s) s) :
    Agrees x (get >>= g) s :=
  rest

theorem modify_bind {f : PUnit → StrictSearch α} {g : PUnit → Search α} {h : Session → Session}
    (rest : Agrees (f ⟨⟩) (g ⟨⟩) (h s)) :
    Agrees (modify h >>= f) (modify h >>= g) s :=
  rest

/-- A strict computation that succeeds changes nothing. -/
theorem attempt_bind {x : Except Fault α} {a : α} (value : x = .ok a) {f : α → StrictSearch β}
    {m : Search β} (rest : Agrees (f a) m s) : Agrees (attempt x >>= f) m s := by
  subst value
  exact rest

/-- Every step keeps the invariant, which has what the next one asks for. -/
theorem forM {f : α → StrictSearch PUnit} {g : α → Search PUnit} (invariant : Session → Prop)
    {items : List α}
    (step : ∀ a ∈ items, ∀ s, invariant s →
      Agrees (f a) (g a) s ∧ Outcome (g a) s (fun _ s' => invariant s') fun _ _ => True)
    (start : invariant s) : Agrees (items.forM f) (items.forM g) s := by
  induction items generalizing s with
  | nil => exact pure _ _
  | cons a rest ih =>
    obtain ⟨here, outcome⟩ := step a List.mem_cons_self s start
    exact here.bind outcome fun _ s' next =>
      ih (fun b member => step b (List.mem_cons_of_mem _ member)) next

theorem forM_range' {f : Nat → StrictSearch PUnit} {g : Nat → Search PUnit}
    (invariant : Nat → Session → Prop)
    (step : ∀ k s, invariant k s →
      Agrees (f k) (g k) s ∧ Outcome (g k) s (fun _ s' => invariant (k + 1) s') fun _ _ => True)
    (first count : Nat) (start : invariant first s) :
    Agrees ((List.range' first count).forM f) ((List.range' first count).forM g) s := by
  induction count generalizing s first with
  | zero => exact pure _ _
  | succ count ih =>
    obtain ⟨here, outcome⟩ := step first s start
    exact here.bind outcome fun _ s' next => ih (first + 1) next

theorem mapM {f : α → StrictSearch β} {g : α → Search β} (invariant : Session → Prop)
    {items : List α}
    (step : ∀ a ∈ items, ∀ s, invariant s →
      Agrees (f a) (g a) s ∧ Outcome (g a) s (fun _ s' => invariant s') fun _ _ => True)
    (start : invariant s) : Agrees (items.mapM f) (items.mapM g) s := by
  induction items generalizing s with
  | nil =>
    rw [List.mapM_nil, List.mapM_nil]
    exact pure _ _
  | cons a rest ih =>
    obtain ⟨here, outcome⟩ := step a List.mem_cons_self s start
    rw [List.mapM_cons, List.mapM_cons]
    refine here.bind outcome fun b s' next => ?_
    have more := ih (fun b member => step b (List.mem_cons_of_mem _ member)) next
    have any : Outcome (rest.mapM g) s' (fun _ _ => True) fun _ _ => True := by
      unfold Outcome
      split <;> trivial
    exact more.bind any fun bs s'' _ => pure _ _

end Agrees
end Strict
end PlanFeatures
