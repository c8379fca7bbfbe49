import PlanFeatures.Proofs.Generation.Independence
import PlanFeatures.Proofs.Generation.Plain

/-!
# Batches do not matter

A run with batches follows the plain loop: between batches both know the same.  Therefore
the size of the batches has no influence on what a run gives, unless the time is up, and
neither has the choice to evaluate side by side.  The machine must have room for a batch,
and give the vectors that it computes side by side in the order of the candidates.
-/

namespace PlanFeatures

open List

namespace Search
open Session
variable {base : Store} {states : List State} {config : Config} {k : Nat} {s p : Session}

/-! ## Batches -/

theorem registerAll_follows {fresh : List (Handle × Node)} {vectors : List ExtensionVector}
    {rule : Rule} (ahead : Ahead states rule fresh s p)
    (sample : ∀ state ∈ states, state.Over s.store.vocabulary)
    (length : vectors.length = fresh.length)
    (denotes : ∀ q ∈ fresh.zip vectors, s.store.Denotes states q.1.1 q.2) (featureLimit : Nat) :
    Paired ((fresh.zip vectors).forM fun q => register featureLimit rule q.1.1 q.2)
      ((fresh.map Prod.snd).forM (takeCandidate featureLimit rule)) s p
      (fun _ _ s' p' => Follows states s' p') (fun s' p' => s'.features = p'.features) := by
  have items : (fresh.zip vectors).map Prod.fst = fresh := map_fst_zip (Nat.le_of_eq length.symm)
  have related : Forall₂ (fun q node => q.1.2 = node) (fresh.zip vectors)
      (fresh.map Prod.snd) := by
    conv => arg 3; rw [← items]
    rw [map_map, forall₂_map_right_iff, forall₂_same]
    exact fun _ _ => rfl
  -- What is left to register is what the run is ahead by.
  let invariant (rest : List ((Handle × Node) × ExtensionVector)) (_ : List Node)
      (s' p' : Session) : Prop :=
    Ahead states rule (rest.map Prod.fst) s' p' ∧ s'.store = s.store ∧
      ∀ q ∈ rest, s.store.Denotes states q.1.1 q.2
  have start : invariant (fresh.zip vectors) (fresh.map Prod.snd) s p :=
    ⟨items.symm ▸ ahead, rfl, denotes⟩
  refine (Paired.forM invariant ?_ related start).imp_done fun _ _ _ _ last => last.1.follows
  rintro ⟨⟨h, node⟩, vector⟩ _ rest _ s' p' rfl ⟨ahead', store, denotes'⟩
  have here := denotes' _ mem_cons_self
  rw [← store] at here sample
  refine (register_paired_plain ahead' sample here featureLimit).imp_done ?_
  rintro _ _ s'' p'' ⟨ahead'', same⟩
  exact ⟨ahead'', same.trans store, fun q member => denotes' q (mem_cons_of_mem _ member)⟩

section
variable (sample : ∀ state ∈ states, state.Over base.vocabulary) {todo : List Node}
include sample

theorem processBatch_follows {batch : List Node}
    (steady : s.Steady base states config k (batch ++ todo))
    (proposed : ∀ node ∈ batch, Proposed base config k s.frontier node)
    (follows : Follows states s p) (clock : Clock) (rule : Rule) :
    Paired (processBatch config clock rule batch)
      (batch.forM (takeCandidate config.featureLimit rule)) s p
      (fun _ _ s' p' => Follows states s' p') (fun s' p' => s'.features = p'.features) := by
  obtain ⟨sound, _, done, traced, _⟩ := steady
  rw [processBatch_eq]
  refine Paired.bind_left ((checkClock_looks clock s).imp (fun _ _ looked => looked)
    fun _ _ stop => stop.1) ?_
  rintro _ _ rfl
  have looked := s.undisturbed_looks (s.looks + 1)
  have considered := (considerAll_traced (sound.aside s.statistics (s.looks + 1))
    (traced.undisturbed looked) proposed rule).and (considerAll_considers rule batch _)
  refine Paired.bind_left (considered.imp (fun _ _ both => both) fun _ _ stop => stop.1.elim) ?_
  rintro _ s₁ ⟨⟨fresh, rfl, considering⟩, all⟩
  obtain ⟨rfl, considers, same⟩ := all fresh rfl
  have results : (fresh.map some).filterMap id = fresh := by simp
  simp only [results]
  have sound₁ := considering.sound
  have evaluated := evaluateAll_outcome sound₁ sample (considering.proposed proposed)
  refine Paired.bind_left (evaluated.imp_total fun _ _ done => done) ?_
  rintro vectors s₂ ⟨rfl, length, ready⟩
  let counted : Session :=
    { s₂ with statistics.evaluations := s₂.statistics.evaluations + vectors.length }
  have counting : Outcome (modify fun s : Session =>
      { s with statistics.evaluations := s.statistics.evaluations + vectors.length } :
      Search PUnit) s₂ (fun _ s' => s' = counted) fun e _ => e = .timeLimit :=
    Outcome.modify_iff.mpr rfl
  refine Paired.bind_left counting ?_
  rintro _ _ rfl
  have known : p.store.vocabulary = base.vocabulary := follows.store ▸ sound.vocabulary
  have ahead : Ahead states rule fresh counted p := {
    considers := by
      rw [← follows.store, ← follows.seen]
      exact considers
    wellFormed := follows.store ▸ sound.wellFormed
    takes := by
      intro q member
      have here := proposed q.2 (mem_map_of_mem member)
      rw [known, ← follows.store]
      exact ⟨sound.has_operands here, here.candidate.declared⟩
    kept := (congrArg (fun s : Session => s.representatives.kept) same).trans follows.kept
    layer := (congrArg Session.layer same).trans follows.layer
    frontier := (congrArg Session.frontier same).trans follows.frontier
    features := (congrArg Session.features same).trans follows.features
    statistics := by
      have counts := congrArg Session.statistics same
      dsimp only [counted] at counts ⊢
      rw [counts, length, ← follows.statistics]
      rfl
    fits := follows.fits }
  have sample₂ : ∀ state ∈ states, state.Over counted.store.vocabulary :=
    sound₁.vocabulary.symm ▸ sample
  exact registerAll_follows ahead sample₂ length (fun q member => (ready q member).denotes)
    config.featureLimit

/-! ## Rules and layers -/

/-- A steady run at a place of its agenda, and the plain loop that it follows. -/
structure Following (base : Store) (states : List State) (config : Config) (k : Nat)
    (todo : List Node) (s p : Session) : Prop where
  steady : s.Steady base states config k todo
  follows : Follows states s p

theorem processRule_following {rule : Rule} (enabled : config.rules.isEnabled rule = true)
    (following : Following base states config k
      (s.frontier.permitted base.vocabulary config k rule ++ todo) s p) (clock : Clock) :
    Paired (processRule config clock k rule) (plainRule config k rule) s p
      (fun _ _ s' p' => Following base states config k todo s' p' ∧ s.Onward s')
      (fun s' p' => s'.features = p'.features) := by
  obtain ⟨steady, follows⟩ := following
  rw [processRule_eq]
  unfold plainRule
  unfold Frontier.permitted at steady
  split
  next within =>
    rw [if_pos within] at steady
    rw [Paired.get_bind_iff, ← follows.store, ← follows.frontier, steady.sound.vocabulary]
    have proposed := fun node => @steady.sound.proposed _ _ _ _ _ rule enabled within node
    revert proposed steady
    generalize s.frontier.candidates base.vocabulary rule k = candidates
    intro steady proposed
    let invariant (rest : List (List Node)) (s' p' : Session) : Prop :=
      Following base states config k (rest.flatten ++ todo) s' p' ∧ s.Onward s' ∧
        ∀ node ∈ rest.flatten, node ∈ candidates
    have start : invariant (batches config.batchSize candidates) s p := by
      refine ⟨?_, .refl s, ?_⟩ <;> rw [flatten_batches]
      · exact ⟨steady, follows⟩
      · exact fun node member => member
    -- The batches are the candidates, in their order.
    conv => arg 2; rw [← flatten_batches config.batchSize candidates]
    refine (Paired.forM_flatten invariant ?_ start).imp_done ?_
    · rintro batch rest s' p' ⟨⟨steady', follows'⟩, onward, inside⟩
      have here : ∀ node ∈ batch, Proposed base config k s'.frontier node := fun node member =>
        onward.proposed (proposed node (inside node (mem_append_left _ member)))
      rw [flatten_cons, append_assoc] at steady'
      refine ((processBatch_follows sample steady' here follows' clock rule).and_left
        (processBatch_steady sample steady' here clock rule)).imp_done ?_
      rintro _ _ s'' p'' ⟨follows'', steady'', more⟩
      exact ⟨⟨steady'', follows''⟩, onward.trans more, fun node member =>
        inside node (mem_append_right _ member)⟩
    · rintro _ _ s' p' ⟨following, onward, _⟩
      exact ⟨following, onward⟩
  next beyond =>
    rw [if_neg beyond] at steady
    exact Paired.pure ⟨⟨steady, follows⟩, .refl s⟩

theorem processRules_following
    (following : Following base states config k
      (s.frontier.layerAgenda base.vocabulary config k) s p) (clock : Clock) :
    Paired (config.rules.enabled.forM (processRule config clock k))
      (config.rules.enabled.forM (plainRule config k)) s p
      (fun _ _ s' p' => Following base states config k [] s' p')
      (fun s' p' => s'.features = p'.features) := by
  let invariant (rest _ : List Rule) (s' p' : Session) : Prop :=
    Following base states config k
        (rest.flatMap (s.frontier.permitted base.vocabulary config k)) s' p' ∧
      s.Onward s' ∧ ∀ rule ∈ rest, config.rules.isEnabled rule = true
  have start : invariant config.rules.enabled config.rules.enabled s p :=
    ⟨following, .refl s, fun rule member => (mem_filter.mp member).2⟩
  refine (Paired.forM (R := Eq) invariant ?_ (forall₂_refl _) start).imp_done
    fun _ _ _ _ last => last.1
  rintro rule _ rest _ s' p' rfl ⟨following', onward, enabled⟩
  rw [flatMap_cons, ← onward.frontier] at following'
  refine (processRule_following sample (enabled rule mem_cons_self) following' clock).imp_done ?_
  rintro _ _ s'' p'' ⟨following'', more⟩
  rw [onward.frontier] at following''
  exact ⟨following'', onward.trans more, fun r member => enabled r (mem_cons_of_mem _ member)⟩

omit sample in
theorem closeLayer_following (following : Following base states config k [] s p) :
    Paired (closeLayer k) (closeLayer k) s p
      (fun _ _ s' p' => Following base states config (k + 1)
        (s'.frontier.layerAgenda base.vocabulary config (k + 1)) s' p')
      (fun s' p' => s'.features = p'.features) := by
  obtain ⟨steady, follows⟩ := following
  have closed : Paired (closeLayer k) (closeLayer k) s p
      (fun _ _ s' p' => Follows states s' p') (fun s' p' => s'.features = p'.features) := by
    refine Paired.modify ⟨follows.store, follows.seen, follows.kept, rfl, ?_, follows.features, ?_,
      follows.fits⟩
    · rw [follows.frontier, follows.layer]
    · rw [follows.statistics]
  exact (closed.and_left (closeLayer_steady steady)).imp_done
    fun _ _ _ _ ⟨follows', steady'⟩ => ⟨steady', follows'⟩

/-- A whole run follows the plain loop. -/
theorem enumerate_follows (wf : base.WellFormed) (config : Config) (clock : Clock) :
    Paired (enumerate config clock) (plain config) (Session.start base states)
      (Session.start base states) (fun _ _ s' p' => Follows states s' p')
      (fun s' p' => s'.features = p'.features) := by
  let invariant (k : Nat) (s p : Session) : Prop :=
    Following base states config k (s.frontier.layerAgenda base.vocabulary config k) s p
  have start : invariant 1 (Session.start base states) (Session.start base states) :=
    ⟨steady_start wf states config, follows_start base states⟩
  refine (Paired.forM_range' invariant ?_ 1 config.limits.max start).imp_done
    fun _ _ _ _ following => following.follows
  intro k s p following
  refine (processRules_following sample following clock).bind ?_
  exact fun _ _ _ _ following' => closeLayer_following following'

end

/-! ## The clock -/

theorem takeCandidate_untimed (featureLimit : Nat) (rule : Rule) (node : Node) (s : Session) :
    Outcome (takeCandidate featureLimit rule node) s (fun _ _ => True)
      (fun e _ => e ≠ .timeLimit) := by
  have interned : Outcome (intern node) s (fun _ _ => True) fun e _ => e ≠ .timeLimit := by
    simp only [intern, fail, Outcome.bind_iff, Outcome.modifyGet_iff]
    split
    next => trivial
    next => rintro ⟨⟩
  have registered : ∀ h s, Outcome (registerStored h) s (fun _ _ => True)
      fun e _ => e ≠ .timeLimit := by
    intro h s
    simp only [registerStored, fail, Outcome.bind_iff, Outcome.modifyGet_iff]
    split
    next => trivial
    next => rintro ⟨⟩
  have settled : ∀ h registration s, Outcome (settle featureLimit h registration) s
      (fun _ _ => True) fun e _ => e ≠ .timeLimit := by
    intro h registration s
    unfold settle
    split
    next =>
      split
      next => exact emit_untimed featureLimit h s
      next => trivial
    next => trivial
  simp only [takeCandidate, count, Outcome.bind_iff, Outcome.modify_iff]
  refine interned.imp_done fun h s₁ _ => ?_
  refine (registered h _).imp_done fun registration s₂ _ => ?_
  split
  next => exact settled h registration _
  next => exact settled h registration _

/-- The plain loop is not stopped for its time. -/
theorem plain_untimed (config : Config) (s : Session) : ¬ TimedOut ((plain config).run s) := by
  have rules : ∀ k rule s, Outcome (plainRule config k rule) s (fun _ _ => True)
      fun e _ => e ≠ .timeLimit := by
    intro k rule s
    unfold plainRule
    split
    next =>
      simp only [Outcome.bind_iff, Outcome.get_iff]
      exact Outcome.forM_of_invariant (fun _ _ => True)
        (fun node _ s _ => takeCandidate_untimed config.featureLimit rule node s) _ trivial
    next => trivial
  have outcome : Outcome (plain config) s (fun _ _ => True) fun e _ => e ≠ .timeLimit := by
    refine Outcome.forM_range'_of_invariant (fun _ _ => True) ?_ 1 config.limits.max trivial
    intro k s _
    rw [Outcome.bind_iff]
    exact (Outcome.forM_of_invariant (fun _ _ => True) (fun rule _ s _ => rules k rule s) _
      trivial).imp_done fun _ _ _ => trivial
  intro out
  rcases run : (plain config).run s with ⟨r, s'⟩
  rw [TimedOut, run] at out
  cases out
  exact outcome.error run rfl

end Search

/-! ## Runs with batches -/

/-- A configuration with another way through the candidates. -/
def Config.withBatches (config : Config) (size : Nat) (parallel : Bool) : Config :=
  { config with batchSize := size, parallel }

theorem Config.validate_withBatches {config : Config} (valid : config.validate = .ok ())
    {size : Nat} (some : 0 < size) (parallel : Bool) :
    (config.withBatches size parallel).validate = .ok () := by
  obtain ⟨limits, time, features, _⟩ := config.validate_iff.mp valid
  exact (config.withBatches size parallel).validate_iff.mpr
    ⟨limits, time, features, Nat.ne_of_gt some⟩

/-- The result that the plain loop stands for.  A run with batches remembers the vectors of
what it has kept, and the plain loop those of duplicates too. -/
def Session.plainResult (p : Session) (status : Status) : Generation where
  features := p.features.toList
  status := status
  statistics :=
    { p.statistics with
      cachedVectors := p.representatives.kept.length
      storeSize := p.store.size }

section
variable {store : Store} {states : List State} {config : Config}
  (sample : ∀ state ∈ states, state.Over store.vocabulary)
include sample

/-- A run whose time is not up ends as the plain loop does. -/
theorem after_follows (wf : store.WellFormed) {clock : Clock} {status : Status}
    (ended : Status.of? ((Search.enumerate config clock).run (.start store states)).1 = some status)
    (live : status ≠ .timeLimitReached) :
    Status.of? ((Search.plain config).run (.start store states)).1 = some status ∧
      (Session.after config clock states store).features
        = ((Search.plain config).run (.start store states)).2.features ∧
      (status = .completed → Session.Follows states (Session.after config clock states store)
        ((Search.plain config).run (.start store states)).2) := by
  have together := Search.enumerate_follows sample wf config clock (not_timedOut ended live)
    (Search.plain_untimed config _)
  unfold Session.after
  revert together ended
  rcases (Search.enumerate config clock).run (.start store states) with ⟨r, s⟩
  rcases (Search.plain config).run (.start store states) with ⟨r', p⟩
  cases r <;> cases r'
  case ok.ok =>
    intro ended follows
    exact ⟨ended, follows.features, fun _ => follows⟩
  case error.error e e' =>
    rintro ended ⟨rfl, features⟩
    refine ⟨ended, features, ?_⟩
    rintro rfl
    cases e <;> cases ended
  case ok.error | error.ok => exact fun _ => False.elim

theorem statistics_plainResult (wf : store.WellFormed) {clock : Clock} {p : Session}
    (follows : Session.Follows states (Session.after config clock states store) p)
    (status : Status) :
    ((Session.after config clock states store).finish status).statistics
      = (p.plainResult status).statistics := by
  obtain ⟨_, sound⟩ := after_sound config clock wf sample
  simp only [Session.finish, Session.plainResult, sound.representatives.cacheSize, follows.kept,
    follows.store, follows.statistics]

end

/-- A run whose clock is idle is not stopped for its time. -/
theorem inTime_of_idle {config : Config} {clock : Clock} (idle : ∀ n, clock n = false) {s : Session}
    {status : Status} (ended : Status.of? ((Search.enumerate config clock).run s).1 = some status) :
    status ≠ .timeLimitReached := by
  rintro rfl
  have onTime := Search.enumerate_onTime config clock s
  rcases run : (Search.enumerate config clock).run s with ⟨r, s'⟩
  rw [run] at ended
  rcases r with (_ | _ | e) | _ <;> cases ended
  obtain ⟨n, _, up⟩ := onTime.error run rfl
  rw [idle] at up
  cases up

/-- A run gives the result of the plain loop, which ended in a session, if its time is not
up.  The counts and the store are the same when the run is completed. -/
structure Generation.Refines (p : Session) (ended : Status) (g : Generation) (store : Store) :
    Prop where
  status : g.status = ended
  features : g.features = (p.plainResult ended).features
  completed : ended = .completed →
    g.statistics = (p.plainResult ended).statistics ∧ store = p.store

theorem generate_refines {store : Store} {states : List State} {config : Config}
    (wf : store.WellFormed) (valid : config.validate = .ok ())
    (accepted : checkSample store.vocabulary states = .ok ())
    (made : ∀ state ∈ states, state.problem.Made) (clock : Clock) :
    ∃ g store', generate config clock states store = (.ok g, store') ∧
      ((∀ n, clock n = false) → g.status ≠ .timeLimitReached) ∧
      (g.status ≠ .timeLimitReached →
        Status.of? ((Search.plain config).run (.start store states)).1 = some g.status ∧
        g.Refines ((Search.plain config).run (.start store states)).2 g.status store') := by
  have sample := over_of_checkSample accepted made
  obtain ⟨status, ended, result⟩ := generate_finish config clock wf valid accepted made
  refine ⟨_, _, result, fun idle => inTime_of_idle idle ended, fun live => ?_⟩
  obtain ⟨plainly, features, whole⟩ := after_follows sample wf ended live
  refine ⟨plainly, rfl, congrArg Array.toList features, fun completed => ?_⟩
  have follows := whole completed
  exact ⟨statistics_plainResult sample wf follows status, follows.store⟩

theorem Machine.hasRoom_word64_iff (collect : {α β : Type} → (α → β) → List α → List β)
    (nodes : Nat) : (word64 collect).hasRoom (nodes * Node.bytes) = true ↔ nodes < 2 ^ 59 := by
  have fits : (word64 collect).hasRoom (nodes * Node.bytes)
      = decide (nodes * 16 ≤ UInt64.size / 2 - 1) := rfl
  rw [fits, decide_eq_true_iff, UInt64.size]
  omega

/-- The plain loop ends in some way, and so does every run whose time is not up, however large
its batches are and whether or not they are evaluated side by side.  What the machine computes
side by side must be collected in order, and a batch must be small enough for a buffer. -/
theorem batching_refines_plain {collect : {α β : Type} → (α → β) → List α → List β}
    (ordered : (Machine.word64 collect).Ordered) {store : Store} {issued : List Handle}
    (reachable : store.Reachable issued) {config : Config} (valid : config.validate = .ok ())
    {states : List State} (accepted : checkSample store.vocabulary states = .ok ())
    (made : ∀ state ∈ states, state.problem.Made) :
    ∃ ended p status, (Search.plain config).run (.start store states) = (ended, p) ∧
      Status.of? ended = some status ∧
      ∀ size, 0 < size → size < 2 ^ 59 → ∀ (parallel : Bool) (clock : Clock),
        ∃ g store', generateOn (.word64 collect) (config.withBatches size parallel) clock states
            store = (.ok g, store') ∧
          ((∀ n, clock n = false) → g.status ≠ .timeLimitReached) ∧
          (g.status ≠ .timeLimitReached → g.Refines p status store') := by
  have wf := reachable.wellFormed
  -- The plain loop knows neither batches nor the clock.
  have batched : ∀ size, 0 < size → ∀ (parallel : Bool) (clock : Clock),
      ∃ g store', generate (config.withBatches size parallel) clock states store
          = (.ok g, store') ∧
        ((∀ n, clock n = false) → g.status ≠ .timeLimitReached) ∧
        (g.status ≠ .timeLimitReached →
          Status.of? ((Search.plain config).run (.start store states)).1 = some g.status ∧
          g.Refines ((Search.plain config).run (.start store states)).2 g.status store') :=
    fun size some parallel =>
      generate_refines wf (Config.validate_withBatches valid some parallel) accepted made
  obtain ⟨one, _, _, live, refined⟩ := batched 1 Nat.one_pos false fun _ => false
  obtain ⟨ended, _⟩ := refined (live fun _ => rfl)
  refine ⟨_, _, one.status, rfl, ended, fun size some small parallel clock => ?_⟩
  obtain ⟨g, store', result, live', refined'⟩ := batched size some parallel clock
  -- The machine has room for the batch, so the run is the one on the ideal machine.
  have room : (Machine.word64 collect).hasRoom
      ((config.withBatches size parallel).batchSize * Node.bytes) = true :=
    (Machine.hasRoom_word64_iff collect size).mpr small
  refine ⟨g, store', (generateOn_eq ordered room).trans result, live', fun inTime => ?_⟩
  obtain ⟨ended', refines⟩ := refined' inTime
  rwa [Option.some.inj (ended.symm.trans ended')]

/-- The plain loop remembers the vectors of duplicates, and the runs whose batches are of one
candidate and of all candidates do not. -/
theorem batching_refines_plain_lamps :
    ((Search.plain Lamps.boolean).run
        (.start Lamps.store Lamps.states)).2.representatives.evaluator.cache.size = 11 ∧
      [1, 256].map (fun size =>
        (generateOn (.word64 List.map) (Lamps.boolean.withBatches size true) Lamps.clock Lamps.states
          Lamps.store).1.toOption.map fun g => (g.status, g.statistics.cachedVectors))
        = [some (.completed, 7), some (.completed, 7)] ∧
      ∃ ended p status, (Search.plain Lamps.boolean).run (.start Lamps.store Lamps.states)
          = (ended, p) ∧
        Status.of? ended = some status ∧
        ∀ size, 0 < size → size < 2 ^ 59 → ∀ (parallel : Bool) (clock : Clock),
          ∃ g store', generateOn (.word64 List.map) (Lamps.boolean.withBatches size parallel) clock
              Lamps.states Lamps.store = (.ok g, store') ∧
            ((∀ n, clock n = false) → g.status ≠ .timeLimitReached) ∧
            (g.status ≠ .timeLimitReached → g.Refines p status store') :=
  ⟨by decide +kernel, by decide +kernel, batching_refines_plain (fun _ _ => rfl)
    Lamps.store_reachable (by decide +kernel) (by decide +kernel) Lamps.states_made⟩

/-- A batch that is too large for a buffer is accepted, and the run fails, though it would be
completed with batches of one candidate. -/
theorem large_batch_overflows :
    (Lamps.boolean.withBatches (2 ^ 59) false).validate = .ok () ∧
      checkSample Lamps.store.vocabulary Lamps.states = .ok () ∧
      generateOn (.word64 List.map) (Lamps.boolean.withBatches (2 ^ 59) false) Lamps.clock
        Lamps.states Lamps.store = (.error .capacityOverflow, Lamps.store) ∧
      (generateOn (.word64 List.map) (Lamps.boolean.withBatches 1 false) Lamps.clock Lamps.states
        Lamps.store).1.map Generation.status = .ok .completed := by
  have valid : (Lamps.boolean.withBatches (2 ^ 59) false).validate = .ok () := by decide +kernel
  have accepted : checkSample Lamps.store.vocabulary Lamps.states = .ok () := by decide +kernel
  refine ⟨valid, accepted, ?_, by decide +kernel⟩
  exact generateOn_overflow (by decide +kernel) valid (by decide +kernel) accepted Lamps.clock

end PlanFeatures
