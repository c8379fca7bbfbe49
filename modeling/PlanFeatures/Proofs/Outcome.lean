import PlanFeatures.Store.Basic

/-!
# Outcomes of computations with a state

Stores are built, and runs searched, by computations that change a state and may
stop early with what they did so far.  `Outcome m s done stopped` says where `m`
can end when it starts in `s`: with a result and a state in `done`, or with a
reason to stop and a state in `stopped`.  The rules below take a computation apart
along its steps; a loop is followed by an invariant of what is left to do.
-/

namespace PlanFeatures

variable {ε σ α β : Type}

def Outcome (m : ExceptT ε (StateM σ) α) (s : σ) (done : α → σ → Prop)
    (stopped : ε → σ → Prop) : Prop :=
  match m.run s with
  | (.ok a, s') => done a s'
  | (.error e, s') => stopped e s'

theorem run_bind (m : ExceptT ε (StateM σ) α) (f : α → ExceptT ε (StateM σ) β) (s : σ) :
    (m >>= f).run s = match m.run s with
      | (.ok a, s') => (f a).run s'
      | (.error e, s') => (.error e, s') := by
  show (match m.run s with | (r, s') => ExceptT.bindCont f r s') = _
  rcases m.run s with ⟨r, s'⟩
  cases r <;> rfl

/-- What comes after a stop is not done. -/
theorem run_bind_of_error {m : ExceptT ε (StateM σ) α} {f : α → ExceptT ε (StateM σ) β} {s s' : σ}
    {e : ε} (stopped : m.run s = (.error e, s')) : (m >>= f).run s = (.error e, s') := by
  rw [run_bind, stopped]

theorem run_forM_of_error {f : α → ExceptT ε (StateM σ) PUnit} {a : α} {rest : List α} {s s' : σ}
    {e : ε} (stopped : (f a).run s = (.error e, s')) :
    ((a :: rest).forM f).run s = (.error e, s') :=
  run_bind_of_error stopped

theorem run_get_bind (f : σ → ExceptT ε (StateM σ) β) (s : σ) :
    (get >>= f).run s = (f s).run s := rfl

theorem run_modify_bind (g : σ → σ) (f : PUnit → ExceptT ε (StateM σ) β) (s : σ) :
    (modify g >>= f).run s = (f ⟨⟩).run (g s) := rfl

theorem run_modifyGet_bind (g : σ → α × σ) (f : α → ExceptT ε (StateM σ) β) (s : σ) :
    (modifyGet g >>= f).run s = (f (g s).1).run (g s).2 := rfl

namespace Outcome
variable {m : ExceptT ε (StateM σ) α} {s : σ} {done : α → σ → Prop} {stopped : ε → σ → Prop}

@[simp] theorem pure_iff {a : α} : Outcome (pure a) s done stopped ↔ done a s := Iff.rfl

@[simp] theorem throw_iff {e : ε} :
    Outcome (throw e : ExceptT ε (StateM σ) α) s done stopped ↔ stopped e s := Iff.rfl

@[simp] theorem get_iff {done : σ → σ → Prop} :
    Outcome (get : ExceptT ε (StateM σ) σ) s done stopped ↔ done s s := Iff.rfl

@[simp] theorem modify_iff {f : σ → σ} {done : PUnit → σ → Prop} :
    Outcome (modify f : ExceptT ε (StateM σ) PUnit) s done stopped ↔ done ⟨⟩ (f s) := Iff.rfl

@[simp] theorem modifyGet_iff {f : σ → α × σ} :
    Outcome (modifyGet f : ExceptT ε (StateM σ) α) s done stopped ↔ done (f s).1 (f s).2 := Iff.rfl

@[simp] theorem bind_iff {f : α → ExceptT ε (StateM σ) β} {done : β → σ → Prop} :
    Outcome (m >>= f) s done stopped
      ↔ Outcome m s (fun a s' => Outcome (f a) s' done stopped) stopped := by
  unfold Outcome
  rw [run_bind]
  rcases m.run s with ⟨r, s'⟩
  cases r <;> rfl

theorem imp {done' : α → σ → Prop} {stopped' : ε → σ → Prop} (outcome : Outcome m s done stopped)
    (onDone : ∀ a s', done a s' → done' a s') (onStop : ∀ e s', stopped e s' → stopped' e s') :
    Outcome m s done' stopped' := by
  unfold Outcome at *
  revert outcome
  rcases m.run s with ⟨r, s'⟩
  cases r with
  | ok a => exact onDone a s'
  | error e => exact onStop e s'

theorem imp_done {done' : α → σ → Prop} (outcome : Outcome m s done stopped)
    (onDone : ∀ a s', done a s' → done' a s') : Outcome m s done' stopped :=
  outcome.imp onDone fun _ _ stop => stop

/-- A computation that never stops early may be followed by anything. -/
theorem imp_total {done' : α → σ → Prop} (outcome : Outcome m s done fun _ _ => False)
    (onDone : ∀ a s', done a s' → done' a s') : Outcome m s done' stopped :=
  outcome.imp onDone fun _ _ impossible => impossible.elim

theorem and {done' : α → σ → Prop} {stopped' : ε → σ → Prop} (first : Outcome m s done stopped)
    (second : Outcome m s done' stopped') :
    Outcome m s (fun a s' => done a s' ∧ done' a s')
      (fun e s' => stopped e s' ∧ stopped' e s') := by
  unfold Outcome at *
  revert first second
  rcases m.run s with ⟨r, s'⟩
  cases r with
  | ok a => exact And.intro
  | error e => exact And.intro

theorem ok {a : α} {s' : σ} (outcome : Outcome m s done stopped) (run : m.run s = (.ok a, s')) :
    done a s' := by
  unfold Outcome at outcome
  rwa [run] at outcome

theorem error {e : ε} {s' : σ} (outcome : Outcome m s done stopped)
    (run : m.run s = (.error e, s')) : stopped e s' := by
  unfold Outcome at outcome
  rwa [run] at outcome

theorem exists_ok (outcome : Outcome m s done fun _ _ => False) :
    ∃ a s', m.run s = (.ok a, s') ∧ done a s' := by
  rcases run : m.run s with ⟨r, s'⟩
  cases r with
  | ok a => exact ⟨a, s', rfl, outcome.ok run⟩
  | error e => exact (outcome.error run).elim

theorem forM_of_invariant {f : α → ExceptT ε (StateM σ) PUnit} (invariant : List α → σ → Prop)
    (step : ∀ a rest s, invariant (a :: rest) s →
      Outcome (f a) s (fun _ s' => invariant rest s') stopped)
    (items : List α) (start : invariant items s) :
    Outcome (items.forM f) s (fun _ s' => invariant [] s') stopped := by
  -- The items that are left are the ones that the invariant is about.
  induction items generalizing s with
  | nil => exact start
  | cons a rest ih =>
    show Outcome (f a >>= fun _ => rest.forM f) s _ stopped
    rw [bind_iff]
    exact (step a rest s start).imp_done fun _ s' next => ih next

/-- The same for a loop over numbers, of which the invariant knows the next. -/
theorem forM_range'_of_invariant {f : Nat → ExceptT ε (StateM σ) PUnit} (invariant : Nat → σ → Prop)
    (step : ∀ k s, invariant k s → Outcome (f k) s (fun _ s' => invariant (k + 1) s') stopped)
    (first count : Nat) (start : invariant first s) :
    Outcome ((List.range' first count).forM f) s (fun _ s' => invariant (first + count) s')
      stopped := by
  induction count generalizing s first with
  | zero => exact start
  | succ count ih =>
    show Outcome (f first >>= fun _ => (List.range' (first + 1) count).forM f) s _ stopped
    rw [bind_iff]
    refine (step first s start).imp_done fun _ s' next => ?_
    rw [Nat.add_comm count 1, ← Nat.add_assoc]
    exact ih (first + 1) next

/-- The same for a loop that collects results, of which the invariant knows those
collected so far. -/
theorem mapM_of_invariant {f : α → ExceptT ε (StateM σ) β}
    (invariant : List α → List β → σ → Prop)
    (step : ∀ a rest results s, invariant (a :: rest) results s →
      Outcome (f a) s (fun b s' => invariant rest (results ++ [b]) s') stopped)
    (items : List α) (results : List β) (start : invariant items results s) :
    Outcome (items.mapM f) s (fun more s' => invariant [] (results ++ more) s') stopped := by
  induction items generalizing s results with
  | nil =>
    rw [List.mapM_nil, pure_iff, List.append_nil]
    exact start
  | cons a rest ih =>
    rw [List.mapM_cons, bind_iff]
    refine (step a rest results s start).imp_done fun b s' next => ?_
    rw [bind_iff]
    refine (ih (results ++ [b]) next).imp_done fun more s'' final => ?_
    rwa [pure_iff, List.append_cons]

end Outcome
end PlanFeatures
