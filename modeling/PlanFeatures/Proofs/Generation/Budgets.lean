import PlanFeatures.Proofs.Generation.Deduplication
import PlanFeatures.Proofs.Generation.Invariants

/-!
# Budgets only truncate

The feature limit and the clock decide when a run stops and nothing else.  A run with a
budget takes the steps of the run without one until it stops, so its features are the first
ones of that run.  There is such a run: from some feature limit on, all limits give the same
run, which no limit stops.
-/

namespace PlanFeatures

/-- A configuration with other budgets. -/
def Config.withBudgets (config : Config) (time : Binary64) (limit : Nat) : Config :=
  { config with timeLimit := time, featureLimit := limit }

theorem Config.validate_withBudgets {config : Config} (valid : config.validate = .ok ())
    {time : Binary64} (positive : time.isPositive = true) {limit : Nat} (room : 0 < limit) :
    (config.withBudgets time limit).validate = .ok () := by
  obtain ⟨limits, _, _, size⟩ := config.validate_iff.mp valid
  exact (config.withBudgets time limit).validate_iff.mpr
    ⟨limits, positive, Nat.ne_of_gt room, size⟩

namespace Search

variable {α β : Type} {limit : Nat} {s s' : Session}

/-! ## Searches with a budget -/

/-- How a search with a budget ends when without one it reaches a result and a session. -/
def Within (limit : Nat) (a : α) (s' : Session) : Except Stop α × Session → Prop
  | (.ok b, s₁) => b = a ∧ s₁ = s' ∧ s₁.features.size < limit
  | (.error .timeLimit, s₁) =>
    s₁.features.toList <+: s'.features.toList ∧ s₁.features.size < limit
  | (.error .featureLimit, s₁) =>
    s₁.features.toList <+: s'.features.toList ∧ s₁.features.size = limit
  | (.error (.failure _), _) => False

theorem Within.error_onward {a : α} {b : β} {s'' s₁ : Session} {e : Stop}
    (within : Within limit a s' (.error e, s₁))
    (grown : s'.features.toList <+: s''.features.toList) :
    Within limit b s'' (.error e, s₁) := by
  cases e with
  | timeLimit => exact ⟨within.1.trans grown, within.2⟩
  | featureLimit => exact ⟨within.1.trans grown, within.2⟩
  | failure e => exact within

/-- Where the second search comes to its end, features have only been added, and the first
search, which has a budget, does the same or stops on the way. -/
def Truncates (limit : Nat) (m₁ m₂ : Search α) (s : Session) : Prop :=
  ∀ a s', m₂.run s = (.ok a, s') →
    s.features.toList <+: s'.features.toList ∧
      (s.features.size < limit → Within limit a s' (m₁.run s))

/-- The search leaves the features alone, and so has nothing to do with their limit. -/
def Quiet (m : Search α) (s : Session) : Prop :=
  Outcome m s (fun _ s' => s'.features = s.features) (fun e _ => e ≠ .featureLimit)

namespace Truncates

theorem of_quiet {m : Search α} (quiet : Quiet m s) : Truncates limit m m s := by
  intro a s' ended
  have same := quiet.ok ended
  refine ⟨same ▸ List.prefix_rfl, fun room => ?_⟩
  rw [ended]
  exact ⟨rfl, rfl, same ▸ room⟩

theorem bind {m₁ m₂ : Search α} {f₁ f₂ : α → Search β} (first : Truncates limit m₁ m₂ s)
    (next : ∀ a s', Truncates limit (f₁ a) (f₂ a) s') :
    Truncates limit (m₁ >>= f₁) (m₂ >>= f₂) s := by
  intro b s'' ended
  rw [run_bind] at ended
  rcases run₂ : m₂.run s with ⟨r, s'⟩
  rw [run₂] at ended
  cases r with
  | error e => cases ended
  | ok a =>
    obtain ⟨grown, within⟩ := first a s' run₂
    obtain ⟨grown', within'⟩ := next a s' b s'' ended
    refine ⟨grown.trans grown', fun room => ?_⟩
    have within := within room
    rw [run_bind]
    revert within
    rcases m₁.run s with ⟨r₁, s₁⟩
    cases r₁ with
    | error e => exact fun stopped => stopped.error_onward grown'
    | ok a₁ =>
      rintro ⟨rfl, rfl, room'⟩
      exact within' room'

theorem forM {f₁ f₂ : α → Search PUnit} (step : ∀ a s, Truncates limit (f₁ a) (f₂ a) s)
    (items : List α) (s : Session) : Truncates limit (items.forM f₁) (items.forM f₂) s := by
  induction items generalizing s with
  | nil => exact of_quiet (m := Pure.pure PUnit.unit) rfl
  | cons a rest ih =>
    show Truncates limit (f₁ a >>= fun _ => rest.forM f₁) (f₂ a >>= fun _ => rest.forM f₂) s
    exact (step a s).bind fun _ s' => ih s'

end Truncates

/-! ## Large limits -/

/-- From some limit on, all limits give the same course, and none of them stops it. -/
def Settles (m : Nat → Search α) (s : Session) : Prop :=
  ∃ least ended, ∀ limit, least ≤ limit → (m limit).run s = ended ∧ ended.1 ≠ .error .featureLimit

namespace Settles

theorem of_quiet {m : Search α} (quiet : Quiet m s) : Settles (fun _ => m) s := by
  refine ⟨0, m.run s, fun limit _ => ⟨rfl, ?_⟩⟩
  rcases run : m.run s with ⟨r, s'⟩
  cases r with
  | ok a => rintro ⟨⟩
  | error e =>
    have live := quiet.error run
    rintro ⟨⟩
    exact live rfl

theorem bind {m : Nat → Search α} {f : Nat → α → Search β} (first : Settles m s)
    (next : ∀ a s', Settles (fun limit => f limit a) s') :
    Settles (fun limit => m limit >>= f limit) s := by
  obtain ⟨least, ⟨r, s'⟩, course⟩ := first
  cases r with
  | error e =>
    refine ⟨least, (.error e, s'), fun limit large => ?_⟩
    obtain ⟨run, live⟩ := course limit large
    refine ⟨by rw [run_bind, run], ?_⟩
    rintro ⟨⟩
    exact live rfl
  | ok a =>
    obtain ⟨least', ended, course'⟩ := next a s'
    refine ⟨max least least', ended, fun limit large => ?_⟩
    rw [run_bind, (course limit (Nat.le_trans (Nat.le_max_left ..) large)).1]
    exact course' limit (Nat.le_trans (Nat.le_max_right ..) large)

theorem forM {f : Nat → α → Search PUnit} (step : ∀ a s, Settles (fun limit => f limit a) s)
    (items : List α) (s : Session) : Settles (fun limit => items.forM (f limit)) s := by
  induction items generalizing s with
  | nil => exact of_quiet (m := Pure.pure PUnit.unit) rfl
  | cons a rest ih =>
    show Settles (fun limit => f limit a >>= fun _ => rest.forM (f limit)) s
    exact (step a s).bind fun _ s' => ih s'

end Settles

/-! ## Steps of a run -/

theorem quiet_considerAll (rule : Rule) (batch : List Node) (s : Session) :
    Quiet (batch.mapM (consider rule)) s := by
  refine (considerAll_marks rule batch s).imp (fun _ _ considered => considered.1.features) ?_
  rintro _ _ ⟨_, g, rfl⟩
  exact nofun

theorem quiet_evaluateAll (fresh : List (Handle × Node)) (s : Session) :
    Quiet (fresh.mapM fun (_, node) => evaluate node) s := by
  refine (evaluateAll_unchanged fresh s).imp (fun _ _ same => congrArg Session.features same) ?_
  rintro _ _ ⟨_, g, rfl⟩
  exact nofun

theorem run_emit (featureLimit : Nat) (h : Handle) (s : Session) :
    (emit featureLimit h).run s = match Feature.ofHandle? s.store h with
      | none => (.error (.failure (.noFeature h)), s)
      | some feature =>
        (if featureLimit ≤ s.features.size + 1 then .error .featureLimit else .ok (),
          { s with features := s.features.push feature }) := by
  rw [emit, run_get_bind]
  cases Feature.ofHandle? s.store h with
  | none => rfl
  | some feature =>
    simp only [run_modify_bind, run_get_bind, Array.size_push]
    split <;> rfl

theorem emit_truncates (limit large : Nat) (h : Handle) (s : Session) :
    Truncates limit (emit limit h) (emit large h) s := by
  intro _ s' ended
  rw [run_emit] at ended ⊢
  cases made : Feature.ofHandle? s.store h with
  | none =>
    rw [made] at ended
    cases ended
  | some feature =>
    rw [made] at ended
    dsimp only at ended ⊢
    split at ended
    next => cases ended
    next =>
      cases ended
      have grown : s.features.toList <+: (s.features.push feature).toList := by
        rw [Array.toList_push]
        exact List.prefix_append _ _
      refine ⟨grown, fun room => ?_⟩
      have size : (s.features.push feature).size = s.features.size + 1 := Array.size_push feature
      split
      next full => exact ⟨List.prefix_rfl, size.trans (by omega)⟩
      next room' => exact ⟨rfl, rfl, size ▸ Nat.lt_of_not_le room'⟩

theorem emit_settles (h : Handle) (s : Session) : Settles (fun limit => emit limit h) s := by
  refine ⟨s.features.size + 2, (emit (s.features.size + 2) h).run s, fun limit large => ?_⟩
  rw [run_emit, run_emit]
  cases Feature.ofHandle? s.store h with
  | none => exact ⟨rfl, nofun⟩
  | some feature =>
    dsimp only
    rw [if_neg (by omega), if_neg (by omega)]
    exact ⟨rfl, nofun⟩

theorem register_truncates (limit large : Nat) (rule : Rule) (h : Handle)
    (vector : ExtensionVector) (s : Session) :
    Truncates limit (register limit rule h vector) (register large rule h vector) s := by
  unfold register
  refine Truncates.bind (.of_quiet rfl) fun registration s₁ => ?_
  refine Truncates.bind (.of_quiet rfl) fun _ s₂ => ?_
  split
  next =>
    split
    next => exact emit_truncates limit large h s₂
    next => exact .of_quiet rfl
  next => exact .of_quiet rfl

theorem register_settles (rule : Rule) (h : Handle) (vector : ExtensionVector) (s : Session) :
    Settles (fun limit => register limit rule h vector) s := by
  unfold register
  refine Settles.bind (.of_quiet rfl) fun registration s₁ => ?_
  refine Settles.bind (.of_quiet rfl) fun _ s₂ => ?_
  split
  next =>
    split
    next => exact emit_settles h s₂
    next => exact .of_quiet rfl
  next => exact .of_quiet rfl

theorem quiet_checkClock (clock : Clock) (s : Session) : Quiet (checkClock clock) s := by
  refine (checkClock_marks clock s).imp (fun _ _ marks => marks.features) ?_
  rintro _ _ ⟨_, rfl, _⟩
  exact nofun

theorem checkClock_truncates {limit : Nat} (clock idle : Clock) (s : Session) :
    Truncates limit (checkClock clock) (checkClock idle) s := by
  intro _ s' ended
  have looked : ∀ c : Clock, (checkClock c).run s
      = (if c s.looks then .error .timeLimit else .ok (), { s with looks := s.looks + 1 }) := by
    intro c
    rw [checkClock, run_modifyGet_bind]
    split <;> rfl
  rw [looked] at ended ⊢
  split at ended
  next => cases ended
  next =>
    cases ended
    refine ⟨List.prefix_rfl, fun room => ?_⟩
    split
    next => exact ⟨List.prefix_rfl, room⟩
    next => exact ⟨rfl, rfl, room⟩

section
variable (config : Config) (time₁ time₂ : Binary64) (limit large : Nat) (clock idle : Clock)

theorem processBatch_truncates (rule : Rule) (batch : List Node) (s : Session) :
    Truncates limit (processBatch (config.withBudgets time₁ limit) clock rule batch)
      (processBatch (config.withBudgets time₂ large) idle rule batch) s := by
  simp only [processBatch_eq]
  refine (checkClock_truncates clock idle s).bind fun _ s₁ => ?_
  refine Truncates.bind (.of_quiet (quiet_considerAll rule batch s₁)) fun considered s₂ => ?_
  refine Truncates.bind (.of_quiet (quiet_evaluateAll _ s₂)) fun vectors s₃ => ?_
  refine Truncates.bind (.of_quiet rfl) fun _ s₄ => ?_
  refine .forM ?_ _ s₄
  rintro ⟨⟨h, node⟩, vector⟩ s₅
  exact register_truncates limit large rule h vector s₅

theorem processBatch_settles (rule : Rule) (batch : List Node) (s : Session) :
    Settles (fun limit => processBatch (config.withBudgets time₁ limit) clock rule batch) s := by
  simp only [processBatch_eq]
  refine Settles.bind (.of_quiet (quiet_checkClock clock s)) fun _ s₁ => ?_
  refine Settles.bind (.of_quiet (quiet_considerAll rule batch s₁)) fun considered s₂ => ?_
  refine Settles.bind (.of_quiet (quiet_evaluateAll _ s₂)) fun vectors s₃ => ?_
  refine Settles.bind (.of_quiet rfl) fun _ s₄ => ?_
  refine .forM ?_ _ s₄
  rintro ⟨⟨h, node⟩, vector⟩ s₅
  exact register_settles rule h vector s₅

theorem processRule_truncates (k : Nat) (rule : Rule) (s : Session) :
    Truncates limit (processRule (config.withBudgets time₁ limit) clock k rule)
      (processRule (config.withBudgets time₂ large) idle k rule) s := by
  rw [processRule_eq, processRule_eq]
  split
  next within =>
    rw [if_pos (show k ≤ (config.withBudgets time₂ large).limits.forRule rule from within)]
    refine Truncates.bind (.of_quiet rfl) fun current s₁ => ?_
    exact .forM (processBatch_truncates config time₁ time₂ limit large clock idle rule) _ s₁
  next beyond =>
    rw [if_neg (show ¬ k ≤ (config.withBudgets time₂ large).limits.forRule rule from beyond)]
    exact .of_quiet rfl

theorem processRule_settles (k : Nat) (rule : Rule) (s : Session) :
    Settles (fun limit => processRule (config.withBudgets time₁ limit) clock k rule) s := by
  by_cases within : k ≤ config.limits.forRule rule
  · have course : ∀ limit, processRule (config.withBudgets time₁ limit) clock k rule = (do
        let s ← get
        (batches config.batchSize (s.frontier.candidates s.store.vocabulary rule k)).forM
          (processBatch (config.withBudgets time₁ limit) clock rule)) := fun _ => if_pos within
    simp only [course]
    refine Settles.bind (.of_quiet rfl) fun current s₁ => ?_
    exact .forM (processBatch_settles config time₁ clock rule) _ s₁
  · have course : ∀ limit, processRule (config.withBudgets time₁ limit) clock k rule = pure () :=
      fun _ => if_neg within
    simp only [course]
    exact .of_quiet rfl

theorem enumerate_truncates (s : Session) :
    Truncates limit (enumerate (config.withBudgets time₁ limit) clock)
      (enumerate (config.withBudgets time₂ large) idle) s := by
  refine .forM (fun k s => ?_) _ s
  refine Truncates.bind ?_ fun _ s₁ => .of_quiet rfl
  exact .forM (processRule_truncates config time₁ time₂ limit large clock idle k) _ s

theorem enumerate_settles (s : Session) :
    Settles (fun limit => enumerate (config.withBudgets time₁ limit) clock) s := by
  show Settles (fun limit => (List.range' 1 config.limits.max).forM fun k => do
    config.rules.enabled.forM (processRule (config.withBudgets time₁ limit) clock k)
    closeLayer k) s
  refine .forM (fun k s => ?_) _ s
  refine Settles.bind ?_ fun _ s₁ => .of_quiet rfl
  exact .forM (processRule_settles config time₁ clock k) _ s

end
end Search

/-! ## Results -/

/-- What a run with budgets gives, against the features of the run without them. -/
structure Generation.Truncated (all : List Feature) (limit : Nat) (clock : Clock) (looks : Nat)
    (g : Generation) : Prop where
  first : g.features <+: all
  length : g.features.length ≤ limit
  full : g.status = .featureLimitReached ↔ g.features.length = limit
  completed : g.status = .completed → g.features = all
  onTime : (∀ n < looks, clock n = false) → g.status ≠ .timeLimitReached
  cut : g.status ≠ .timeLimitReached →
    g.features = all.take limit ∧ (g.status = .featureLimitReached ↔ limit ≤ all.length)

namespace Search
variable {limit : Nat} {s s₁ : Session} {clock : Clock}

theorem Within.truncated {ended : Except Stop Unit} (within : Within limit () s (ended, s₁))
    (onTime : ended = .error .timeLimit → ∃ n < s₁.looks, clock n = true) {status : Status}
    (stopped : Status.of? ended = some status) :
    (s₁.finish status).Truncated s.features.toList limit clock s₁.looks := by
  have size : (s₁.finish status).features.length = s₁.features.size := Array.length_toList
  rcases ended with (_ | _ | e) | _ <;> cases stopped
  case error.timeLimit =>
    obtain ⟨first, room⟩ := within
    obtain ⟨n, looked, up⟩ := onTime rfl
    exact {
      first := first
      length := size ▸ Nat.le_of_lt room
      full := ⟨nofun, fun full => by omega⟩
      completed := nofun
      onTime := fun idle => by rw [idle n looked] at up; cases up
      cut := fun live => absurd rfl live }
  case error.featureLimit =>
    obtain ⟨first, full⟩ := within
    have length := size.trans full
    have cut := List.prefix_iff_eq_take.mp first
    exact {
      first := first
      length := Nat.le_of_eq length
      full := ⟨fun _ => length, fun _ => rfl⟩
      completed := nofun
      onTime := fun _ => nofun
      cut := fun _ => ⟨length ▸ cut, fun _ => length ▸ first.length_le, fun _ => rfl⟩ }
  case ok =>
    obtain ⟨_, rfl, room⟩ := within
    have length : s₁.features.toList.length = s₁.features.size := Array.length_toList
    exact {
      first := List.prefix_rfl
      length := size ▸ Nat.le_of_lt room
      full := ⟨nofun, fun full => by omega⟩
      completed := fun _ => rfl
      onTime := fun _ => nofun
      cut := fun _ =>
        ⟨(List.take_of_length_le (by omega)).symm, nofun, fun full => by omega⟩ }

end Search

/-- There is a run that no budget stops: from some feature limit on, every run whose time is
never up gives the same features and is completed.  Every run with budgets gives the first of
these features. -/
theorem budgets_truncate {store : Store} {issued : List Handle}
    (reachable : store.Reachable issued) {config : Config} (valid : config.validate = .ok ())
    {states : List State} (accepted : checkSample store.vocabulary states = .ok ())
    (made : ∀ state ∈ states, state.problem.Made) :
    ∃ all : List Feature,
      (∃ least, ∀ limit, least ≤ limit → ∀ time : Binary64, time.isPositive = true →
        ∀ clock : Clock, (∀ n, clock n = false) →
          ∃ g store', generate (config.withBudgets time limit) clock states store = (.ok g, store') ∧
            g.status = .completed ∧ g.features = all) ∧
      ∀ limit, 0 < limit → ∀ time : Binary64, time.isPositive = true → ∀ clock : Clock,
        ∃ g, generate (config.withBudgets time limit) clock states store
            = (.ok g,
              (Session.after (config.withBudgets time limit) clock states store).store) ∧
          g.Truncated all limit clock
            (Session.after (config.withBudgets time limit) clock states store).looks := by
  have wf := reachable.wellFormed
  have sample := over_of_checkSample accepted made
  let idle : Clock := fun _ => false
  let start := Session.start store states
  obtain ⟨least, ⟨ended, s⟩, course⟩ := Search.enumerate_settles config config.timeLimit idle start
  -- No limit, no clock and no failure stops the run with a large limit.
  have complete : ended = .ok () := by
    obtain ⟨run, live⟩ := course least (Nat.le_refl _)
    have outcome := Search.enumerate_outcome sample wf (config.withBudgets config.timeLimit least)
      idle
    have onTime := Search.enumerate_onTime (config.withBudgets config.timeLimit least) idle start
    rcases ended with (_ | _ | e) | _
    · obtain ⟨n, _, up⟩ := onTime.error run rfl
      cases up
    · exact absurd rfl live
    · exact absurd rfl ((outcome.error run).1 e)
    · rfl
  subst complete
  have within : ∀ limit, 0 < limit → ∀ time clock, Search.Within limit () s
      ((Search.enumerate (config.withBudgets time limit) clock).run start) := by
    intro limit room time clock
    have truncates := Search.enumerate_truncates config time config.timeLimit limit least clock
      idle start () s (course least (Nat.le_refl _)).1
    exact truncates.2 room
  have truncated : ∀ limit, 0 < limit → ∀ time : Binary64, time.isPositive = true → ∀ clock,
      ∃ g, generate (config.withBudgets time limit) clock states store
          = (.ok g, (Session.after (config.withBudgets time limit) clock states store).store) ∧
        g.Truncated s.features.toList limit clock
          (Session.after (config.withBudgets time limit) clock states store).looks := by
    intro limit room time positive clock
    obtain ⟨status, stopped, result⟩ := generate_finish (config.withBudgets time limit) clock wf
      (Config.validate_withBudgets valid positive room) accepted made
    refine ⟨_, result, ?_⟩
    have onTime := Search.enumerate_onTime (config.withBudgets time limit) clock start
    have here := within limit room time clock
    unfold Session.after
    rcases run : (Search.enumerate (config.withBudgets time limit) clock).run start with ⟨r, s₁⟩
    rw [run] at here stopped
    exact here.truncated (fun out => onTime.error (out ▸ run) rfl) stopped
  refine ⟨s.features.toList, ⟨s.features.toList.length + 1, ?_⟩, truncated⟩
  intro limit large time positive clock neverUp
  obtain ⟨g, result, cut⟩ := truncated limit (by omega) time positive clock
  refine ⟨g, _, result, ?_⟩
  have live := cut.onTime fun n _ => neverUp n
  have room : g.status ≠ .featureLimitReached := fun full => by
    have less := (cut.cut live).2.mp full
    omega
  have completed : g.status = .completed := by
    cases status : g.status with
    | completed => rfl
    | timeLimitReached => exact absurd status live
    | featureLimitReached => exact absurd status room
  exact ⟨completed, cut.completed completed⟩

/-- With room for two features, the third one is left out, whether or not there is time. -/
theorem budgets_truncate_lamps :
    ((generate (Lamps.boolean.withBudgets Lamps.boolean.timeLimit 2) Lamps.clock Lamps.states
        Lamps.store).1.toOption.map fun g => (g.status, g.features.map Feature.text))
        = some (.featureLimitReached, ["b_empty(c_primitive(lit,0))", "b_empty(c_top)"]) ∧
      ((generate (Lamps.boolean.withBudgets Lamps.boolean.timeLimit 2) (fun n => n = 3) Lamps.states
        Lamps.store).1.toOption.map fun g => (g.status, g.features.map Feature.text))
        = some (.timeLimitReached, []) ∧
      ∃ all : List Feature,
        (∃ least, ∀ limit, least ≤ limit → ∀ time : Binary64, time.isPositive = true →
          ∀ clock : Clock, (∀ n, clock n = false) →
            ∃ g store', generate (Lamps.boolean.withBudgets time limit) clock Lamps.states
                Lamps.store = (.ok g, store') ∧
              g.status = .completed ∧ g.features = all) ∧
        ∀ limit, 0 < limit → ∀ time : Binary64, time.isPositive = true → ∀ clock : Clock,
          ∃ g, generate (Lamps.boolean.withBudgets time limit) clock Lamps.states Lamps.store
              = (.ok g, (Session.after (Lamps.boolean.withBudgets time limit) clock Lamps.states
                  Lamps.store).store) ∧
            g.Truncated all limit clock (Session.after (Lamps.boolean.withBudgets time limit)
              clock Lamps.states Lamps.store).looks :=
  ⟨by decide +kernel, by decide +kernel, budgets_truncate Lamps.store_reachable (by decide +kernel)
    (by decide +kernel) Lamps.states_made⟩

end PlanFeatures
