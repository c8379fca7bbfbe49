import Mathlib.Data.List.Forall2
import PlanFeatures.Generation.Run
import PlanFeatures.Proofs.Outcome

/-!
# Pairs of searches

`Paired m₁ m₂ s₁ s₂ done stopped` relates two searches that start in two sessions.  Unless
one of them runs out of time, they end in the same way: both with results and sessions that
are in `done`, or both with one reason to stop and sessions that are in `stopped`.  The rules
take both searches apart at once; loops go through lists whose items are related one by
one.
-/

namespace PlanFeatures.Search

variable {α α' β β' : Type}

/-- How two searches end together. -/
def Together (done : α → β → Session → Session → Prop) (stopped : Session → Session → Prop) :
    Except Stop α × Session → Except Stop β × Session → Prop
  | (.ok a, s₁), (.ok b, s₂) => done a b s₁ s₂
  | (.error e, s₁), (.error e', s₂) => e = e' ∧ stopped s₁ s₂
  | _, _ => False

/-- Whether the time was up. -/
def TimedOut (end₁ : Except Stop α × Session) : Prop := end₁.1 = .error .timeLimit

def Paired (m₁ : Search α) (m₂ : Search β) (s₁ s₂ : Session)
    (done : α → β → Session → Session → Prop) (stopped : Session → Session → Prop) : Prop :=
  ¬ TimedOut (m₁.run s₁) → ¬ TimedOut (m₂.run s₂) →
    Together done stopped (m₁.run s₁) (m₂.run s₂)

theorem timedOut_bind {m : Search α} {f : α → Search α'} {s : Session}
    (out : TimedOut (m.run s)) : TimedOut ((m >>= f).run s) := by
  rw [TimedOut, run_bind]
  rcases run : m.run s with ⟨r, s'⟩
  rw [TimedOut, run] at out
  cases out
  rfl

namespace Paired
variable {m₁ : Search α} {m₂ : Search β} {s₁ s₂ : Session}
  {done done' : α → β → Session → Session → Prop} {stopped stopped' : Session → Session → Prop}

theorem pure {a : α} {b : β} (related : done a b s₁ s₂) :
    Paired (Pure.pure a) (Pure.pure b) s₁ s₂ done stopped :=
  fun _ _ => related

theorem imp (paired : Paired m₁ m₂ s₁ s₂ done stopped)
    (onDone : ∀ a b s₁' s₂', done a b s₁' s₂' → done' a b s₁' s₂')
    (onStop : ∀ s₁' s₂', stopped s₁' s₂' → stopped' s₁' s₂') :
    Paired m₁ m₂ s₁ s₂ done' stopped' := by
  intro live₁ live₂
  have together := paired live₁ live₂
  revert together
  rcases m₁.run s₁ with ⟨r₁, s₁'⟩
  rcases m₂.run s₂ with ⟨r₂, s₂'⟩
  cases r₁ <;> cases r₂
  case ok.ok a b => exact onDone a b s₁' s₂'
  case error.error e e' => exact fun ⟨same, stop⟩ => ⟨same, onStop s₁' s₂' stop⟩
  case ok.error | error.ok => exact id

theorem imp_done (paired : Paired m₁ m₂ s₁ s₂ done stopped)
    (onDone : ∀ a b s₁' s₂', done a b s₁' s₂' → done' a b s₁' s₂') :
    Paired m₁ m₂ s₁ s₂ done' stopped :=
  paired.imp onDone fun _ _ stop => stop

/-- What is known of each search alone. -/
theorem and (paired : Paired m₁ m₂ s₁ s₂ done stopped) {done₁ : α → Session → Prop}
    {stopped₁ : Stop → Session → Prop} {done₂ : β → Session → Prop}
    {stopped₂ : Stop → Session → Prop} (first : Outcome m₁ s₁ done₁ stopped₁)
    (second : Outcome m₂ s₂ done₂ stopped₂) :
    Paired m₁ m₂ s₁ s₂ (fun a b s₁' s₂' => done a b s₁' s₂' ∧ done₁ a s₁' ∧ done₂ b s₂')
      (fun s₁' s₂' => stopped s₁' s₂' ∧ ∃ e, stopped₁ e s₁' ∧ stopped₂ e s₂') := by
  intro live₁ live₂
  have together := paired live₁ live₂
  unfold Outcome at first second
  revert together first second
  rcases m₁.run s₁ with ⟨r₁, s₁'⟩
  rcases m₂.run s₂ with ⟨r₂, s₂'⟩
  cases r₁ <;> cases r₂
  case ok.ok a b => exact fun first second related => ⟨related, first, second⟩
  case error.error e e' =>
    rintro first second ⟨rfl, stop⟩
    exact ⟨rfl, stop, e, first, second⟩
  case ok.error | error.ok => exact fun _ _ => id

/-- What is known of the first search alone. -/
theorem and_left (paired : Paired m₁ m₂ s₁ s₂ done stopped) {done₁ : α → Session → Prop}
    {stopped₁ : Stop → Session → Prop} (first : Outcome m₁ s₁ done₁ stopped₁) :
    Paired m₁ m₂ s₁ s₂ (fun a b s₁' s₂' => done a b s₁' s₂' ∧ done₁ a s₁') stopped := by
  have second : Outcome m₂ s₂ (fun _ _ => True) fun _ _ => True := by
    unfold Outcome
    split <;> trivial
  exact (paired.and first second).imp (fun _ _ _ _ both => ⟨both.1, both.2.1⟩)
    fun _ _ stop => stop.1

theorem bind {f₁ : α → Search α'} {f₂ : β → Search β'}
    {after : α' → β' → Session → Session → Prop} (paired : Paired m₁ m₂ s₁ s₂ done stopped)
    (next : ∀ a b s₁' s₂', done a b s₁' s₂' → Paired (f₁ a) (f₂ b) s₁' s₂' after stopped) :
    Paired (m₁ >>= f₁) (m₂ >>= f₂) s₁ s₂ after stopped := by
  intro live₁ live₂
  have together := paired (fun out => live₁ (timedOut_bind out)) fun out =>
    live₂ (timedOut_bind out)
  revert together live₁ live₂
  rw [run_bind, run_bind]
  rcases m₁.run s₁ with ⟨r₁, s₁'⟩
  rcases m₂.run s₂ with ⟨r₂, s₂'⟩
  cases r₁ <;> cases r₂
  case ok.ok a b => exact fun live₁ live₂ related => next a b s₁' s₂' related live₁ live₂
  case error.error e e' => exact fun _ _ stop => stop
  case ok.error | error.ok => exact fun _ _ => False.elim

/-- Searches that cannot stop early are related by what is known of each. -/
theorem of_outcomes {done₁ : α → Session → Prop} {done₂ : β → Session → Prop}
    (first : Outcome m₁ s₁ done₁ fun _ _ => False) (second : Outcome m₂ s₂ done₂ fun _ _ => False)
    (both : ∀ a b s₁' s₂', done₁ a s₁' → done₂ b s₂' → done a b s₁' s₂') :
    Paired m₁ m₂ s₁ s₂ done stopped := by
  intro _ _
  unfold Outcome at first second
  revert first second
  rcases m₁.run s₁ with ⟨r₁, s₁'⟩
  rcases m₂.run s₂ with ⟨r₂, s₂'⟩
  cases r₁ <;> cases r₂
  case ok.ok a b => exact both a b s₁' s₂'
  case error.error | error.ok => exact fun impossible _ => impossible.elim
  case ok.error => exact fun _ impossible => impossible.elim

/-! ## Steps of one search -/

/-- A pair of searches is known by where its searches lead. -/
theorem of_run {m₁' : Search α} {m₂' : Search β} {s₁' s₂' : Session}
    (first : m₁.run s₁ = m₁'.run s₁') (second : m₂.run s₂ = m₂'.run s₂')
    (paired : Paired m₁' m₂' s₁' s₂' done stopped) : Paired m₁ m₂ s₁ s₂ done stopped := by
  rw [Paired, first, second]
  exact paired

/-- The first search goes ahead alone, and can only be stopped by the clock. -/
theorem bind_left {f : α' → Search α} {m : Search α'} {ahead : α' → Session → Prop}
    (alone : Outcome m s₁ ahead fun e _ => e = .timeLimit)
    (next : ∀ a s₁', ahead a s₁' → Paired (f a) m₂ s₁' s₂ done stopped) :
    Paired (m >>= f) m₂ s₁ s₂ done stopped := by
  intro live₁ live₂
  unfold Outcome at alone
  rw [run_bind] at live₁ ⊢
  revert live₁ alone
  rcases m.run s₁ with ⟨r, s₁'⟩
  cases r with
  | ok a => exact fun there live₁ => next a s₁' there live₁ live₂
  | error e => exact fun up live₁ => absurd (congrArg Except.error up) live₁

/-! ## Steps of both searches at once -/

section
variable {f₁ : α → Search α'} {f₂ : β → Search β'} {after : α' → β' → Session → Session → Prop}

@[simp] theorem modifyGet_bind_iff {g₁ : Session → α × Session} {g₂ : Session → β × Session} :
    Paired (modifyGet g₁ >>= f₁) (modifyGet g₂ >>= f₂) s₁ s₂ after stopped
      ↔ Paired (f₁ (g₁ s₁).1) (f₂ (g₂ s₂).1) (g₁ s₁).2 (g₂ s₂).2 after stopped := Iff.rfl

@[simp] theorem modify_bind_iff {g₁ g₂ : Session → Session} {f₁ : PUnit → Search α'}
    {f₂ : PUnit → Search β'} :
    Paired (modify g₁ >>= f₁) (modify g₂ >>= f₂) s₁ s₂ after stopped
      ↔ Paired (f₁ ⟨⟩) (f₂ ⟨⟩) (g₁ s₁) (g₂ s₂) after stopped := Iff.rfl

@[simp] theorem get_bind_iff {f₁ : Session → Search α'} {f₂ : Session → Search β'} :
    Paired (get >>= f₁) (get >>= f₂) s₁ s₂ after stopped
      ↔ Paired (f₁ s₁) (f₂ s₂) s₁ s₂ after stopped := Iff.rfl

end

theorem modify {g₁ g₂ : Session → Session} {done : PUnit → PUnit → Session → Session → Prop}
    (related : done ⟨⟩ ⟨⟩ (g₁ s₁) (g₂ s₂)) :
    Paired (modify g₁) (modify g₂) s₁ s₂ done stopped :=
  fun _ _ => related

theorem throw (e : Stop) (related : stopped s₁ s₂) :
    Paired (throw e : Search α) (throw e : Search β) s₁ s₂ done stopped :=
  fun _ _ => ⟨rfl, related⟩

/-! ## Loops -/

theorem forM {R : α → β → Prop} {f₁ : α → Search PUnit} {f₂ : β → Search PUnit}
    (invariant : List α → List β → Session → Session → Prop)
    (step : ∀ a b rest₁ rest₂ s₁ s₂, R a b → invariant (a :: rest₁) (b :: rest₂) s₁ s₂ →
      Paired (f₁ a) (f₂ b) s₁ s₂ (fun _ _ s₁' s₂' => invariant rest₁ rest₂ s₁' s₂') stopped)
    {items₁ : List α} {items₂ : List β} (related : List.Forall₂ R items₁ items₂)
    (start : invariant items₁ items₂ s₁ s₂) :
    Paired (items₁.forM f₁) (items₂.forM f₂) s₁ s₂
      (fun _ _ s₁' s₂' => invariant [] [] s₁' s₂') stopped := by
  induction related generalizing s₁ s₂ with
  | nil => exact fun _ _ => start
  | @cons a b rest₁ rest₂ here _ ih =>
    show Paired (f₁ a >>= fun _ => rest₁.forM f₁) (f₂ b >>= fun _ => rest₂.forM f₂) s₁ s₂ _ stopped
    exact (step a b rest₁ rest₂ s₁ s₂ here start).bind fun _ _ _ _ next => ih next

/-- The first search goes through lists of items, and the second one through the items. -/
theorem forM_flatten {f₁ : List α → Search PUnit} {f₂ : α → Search PUnit}
    (invariant : List (List α) → Session → Session → Prop)
    (step : ∀ items rest s₁ s₂, invariant (items :: rest) s₁ s₂ →
      Paired (f₁ items) (items.forM f₂) s₁ s₂ (fun _ _ s₁' s₂' => invariant rest s₁' s₂') stopped)
    {lists : List (List α)} (start : invariant lists s₁ s₂) :
    Paired (lists.forM f₁) (lists.flatten.forM f₂) s₁ s₂
      (fun _ _ s₁' s₂' => invariant [] s₁' s₂') stopped := by
  induction lists generalizing s₁ s₂ with
  | nil => exact fun _ _ => start
  | cons items rest ih =>
    have split : (items :: rest).flatten.forM f₂
        = items.forM f₂ >>= fun _ => rest.flatten.forM f₂ := by
      rw [List.flatten_cons]
      exact List.forM_append
    rw [split]
    show Paired (f₁ items >>= fun _ => rest.forM f₁) _ s₁ s₂ _ stopped
    exact (step items rest s₁ s₂ start).bind fun _ _ _ _ next => ih next

theorem forM_range' {f₁ f₂ : Nat → Search PUnit} (invariant : Nat → Session → Session → Prop)
    (step : ∀ k s₁ s₂, invariant k s₁ s₂ →
      Paired (f₁ k) (f₂ k) s₁ s₂ (fun _ _ s₁' s₂' => invariant (k + 1) s₁' s₂') stopped)
    (first count : Nat) (start : invariant first s₁ s₂) :
    Paired ((List.range' first count).forM f₁) ((List.range' first count).forM f₂) s₁ s₂
      (fun _ _ s₁' s₂' => invariant (first + count) s₁' s₂') stopped := by
  induction count generalizing s₁ s₂ first with
  | zero => exact fun _ _ => start
  | succ count ih =>
    show Paired (f₁ first >>= fun _ => (List.range' (first + 1) count).forM f₁)
      (f₂ first >>= fun _ => (List.range' (first + 1) count).forM f₂) s₁ s₂ _ stopped
    refine (step first s₁ s₂ start).bind fun _ _ _ _ next => ?_
    rw [Nat.add_comm count 1, ← Nat.add_assoc]
    exact ih (first + 1) next

theorem mapM {R : α → β → Prop} {f₁ : α → Search α'} {f₂ : β → Search β'}
    (invariant : List α → List β → List α' → List β' → Session → Session → Prop)
    (step : ∀ a b rest₁ rest₂ results₁ results₂ s₁ s₂, R a b →
      invariant (a :: rest₁) (b :: rest₂) results₁ results₂ s₁ s₂ →
      Paired (f₁ a) (f₂ b) s₁ s₂
        (fun x y s₁' s₂' => invariant rest₁ rest₂ (results₁ ++ [x]) (results₂ ++ [y]) s₁' s₂')
        stopped)
    {items₁ : List α} {items₂ : List β} (related : List.Forall₂ R items₁ items₂)
    (results₁ : List α') (results₂ : List β')
    (start : invariant items₁ items₂ results₁ results₂ s₁ s₂) :
    Paired (items₁.mapM f₁) (items₂.mapM f₂) s₁ s₂
      (fun more₁ more₂ s₁' s₂' => invariant [] [] (results₁ ++ more₁) (results₂ ++ more₂) s₁' s₂')
      stopped := by
  induction related generalizing s₁ s₂ results₁ results₂ with
  | nil =>
    rw [List.mapM_nil, List.mapM_nil]
    refine Paired.pure ?_
    rwa [List.append_nil, List.append_nil]
  | @cons a b rest₁ rest₂ here _ ih =>
    rw [List.mapM_cons, List.mapM_cons]
    refine (step a b rest₁ rest₂ results₁ results₂ s₁ s₂ here start).bind ?_
    intro x y s₁' s₂' next
    refine (ih (results₁ ++ [x]) (results₂ ++ [y]) next).bind ?_
    intro more₁ more₂ s₁'' s₂'' final
    refine Paired.pure ?_
    rwa [List.append_cons results₁, List.append_cons results₂]

end Paired
end PlanFeatures.Search
