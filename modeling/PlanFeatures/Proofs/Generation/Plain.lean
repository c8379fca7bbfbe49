import PlanFeatures.Proofs.Generation.Invariants
import PlanFeatures.Proofs.Generation.Paired
import PlanFeatures.Proofs.Generation.Steady
import PlanFeatures.Proofs.Generation.Twins
import PlanFeatures.Proofs.Sample.Evaluator

/-!
# The plain loop

The plain loop takes the candidates one at a time: it adds a candidate to the store,
registers it there and then, and goes on to the next one.  It has no batches and looks at no
clock.  In a run with batches the whole batch is in the store and marked before the first of
its candidates is registered, so that run is ahead of the plain loop by the candidates that
are left of the batch.  A candidate is registered with the same vector in both: its operands
are from closed layers, and an evaluator gives the vector that the stored expression has.
-/

namespace PlanFeatures

namespace Search

/-- Registers a stored expression, evaluating it with the operands that it needs. -/
def registerStored (h : Handle) : Search Registration := do
  let result ← modifyGet fun s =>
    let (result, representatives) := s.representatives.register s.store h
    (result, { s with representatives })
  match result with
  | .ok registration => return registration
  | .error e => fail (.evaluation e)

/-- Puts what is kept among the features or into the layer at hand. -/
def settle (featureLimit : Nat) (h : Handle) (registration : Registration) : Search Unit := do
  if registration = .kept then
    if h.kind.isFeature then emit featureLimit h
    else modify fun s => { s with layer := s.layer.push h }

/-- Takes one candidate. -/
def takeCandidate (featureLimit : Nat) (rule : Rule) (node : Node) : Search Unit := do
  let h ← intern node
  count rule .addCandidate
  let registration ← registerStored h
  if registration ≠ .known then
    modify fun s => { s with statistics.evaluations := s.statistics.evaluations + 1 }
  count rule (·.record registration)
  settle featureLimit h registration

/-- Takes the candidates of a rule in one layer, one after another. -/
def plainRule (config : Config) (k : Nat) (rule : Rule) : Search Unit := do
  if k ≤ config.limits.forRule rule then
    let s ← get
    (s.frontier.candidates s.store.vocabulary rule k).forM (takeCandidate config.featureLimit rule)

/-- Goes through all layers without batches and clock. -/
def plain (config : Config) : Search Unit :=
  (List.range' 1 config.limits.max).forM fun k => do
    config.rules.enabled.forM (plainRule config k)
    closeLayer k

end Search

/-! ## Counts -/

namespace Statistics
variable {s : Statistics} {rule : Rule} {f g : RuleCounts → RuleCounts}

theorem modifyRule_modifyRule :
    (s.modifyRule rule f).modifyRule rule g = s.modifyRule rule (g ∘ f) := by
  have again : (s.modifyRule rule f).rule rule = f (s.rule rule) := by
    rw [rule_modifyRule, if_pos rfl]
  rw [modifyRule, again]
  simp [modifyRule]

theorem modifyRule_id : s.modifyRule rule id = s := by
  simp [modifyRule, rule_eq]

/-- The counts of a run that is some candidates ahead. -/
def ahead (s : Statistics) (rule : Rule) (n : Nat) : Statistics :=
  { s.modifyRule rule fun c => { c with candidates := c.candidates + n } with
    evaluations := s.evaluations + n }

theorem ahead_zero : s.ahead rule 0 = s := by
  have same : (fun c : RuleCounts => { c with candidates := c.candidates + 0 }) = id := rfl
  rw [ahead, same, modifyRule_id]
  rfl

/-- To record a candidate is to be ahead by one less. -/
theorem ahead_record (registration : Registration) (n : Nat) :
    (s.ahead rule (n + 1)).modifyRule rule (·.record registration)
      = (({ s.modifyRule rule .addCandidate with evaluations := s.evaluations + 1 } :
          Statistics).modifyRule rule (·.record registration)).ahead rule n := by
  have counts : (s.modifyRule rule fun c =>
          { c with candidates := c.candidates + (n + 1) }).modifyRule rule (·.record registration)
      = ((s.modifyRule rule .addCandidate).modifyRule rule (·.record registration)).modifyRule rule
        fun c => { c with candidates := c.candidates + n } := by
    simp only [modifyRule_modifyRule]
    congr 1
    funext c
    cases registration <;>
      simp [Function.comp_apply, RuleCounts.record, RuleCounts.addCandidate, Nat.add_comm,
        Nat.add_left_comm]
  have evaluations : s.evaluations + (n + 1) = s.evaluations + 1 + n := by omega
  simp only [ahead, evaluations]
  exact congrArg (fun t : Statistics => { t with evaluations := s.evaluations + 1 + n }) counts

end Statistics

/-! ## Candidates one after another -/

/-- Nodes that can be added to a store. -/
def Store.Takes (store : Store) (items : List (Handle × Node)) : Prop :=
  ∀ p ∈ items, (∀ g ∈ p.2.operands, store.Has g) ∧ p.2.Declared store.vocabulary

theorem Store.Takes.extends {store store' : Store} {items : List (Handle × Node)}
    (takes : store.Takes items) (grown : store.Extends store') : store'.Takes items := by
  intro p member
  obtain ⟨operands, declared⟩ := takes p member
  exact ⟨fun g operand => grown.has (operands g operand), grown.vocabulary ▸ declared⟩

/-- The nodes are added to a store one after another, where each gets its handle, which has
not been considered before. -/
inductive Considers : Store → Std.TreeSet Nat → List (Handle × Node) → Store → Std.TreeSet Nat →
    Prop where
  | done (store : Store) (seen : Std.TreeSet Nat) : Considers store seen [] store seen
  | next {store store₁ store' : Store} {seen seen' : Std.TreeSet Nat} {h : Handle} {node : Node}
      {rest : List (Handle × Node)} (interned : (Build.intern node).run store = (.ok h, store₁))
      (unseen : seen.contains h.index = false)
      (more : Considers store₁ (seen.insert h.index) rest store' seen') :
      Considers store seen ((h, node) :: rest) store' seen'

theorem Store.Takes.intern {store store₁ : Store} {h : Handle} {node : Node}
    {rest : List (Handle × Node)} (takes : store.Takes ((h, node) :: rest))
    (wf : store.WellFormed) (interned : (Build.intern node).run store = (.ok h, store₁)) :
    store.Inserted node h store₁ := by
  obtain ⟨operands, declared⟩ := takes _ List.mem_cons_self
  exact (Build.intern_outcome wf operands declared).ok interned

theorem Considers.later {store store' : Store} {seen seen' : Std.TreeSet Nat}
    {items : List (Handle × Node)} (considers : Considers store seen items store' seen')
    (wf : store.WellFormed) (takes : store.Takes items) : store.Later store' := by
  induction considers with
  | done store seen => exact wf.later
  | next interned unseen more ih =>
    have inserted := takes.intern wf interned
    have rest := fun p member => takes p (List.mem_cons_of_mem _ member)
    exact inserted.later.trans (ih inserted.wellFormed (Store.Takes.extends rest inserted.grown))

namespace Search
variable {s s' : Session} {rule : Rule} {node : Node}

/-- A candidate that is new has been considered, and nothing else has happened. -/
theorem consider_considers (rule : Rule) (node : Node) (s : Session) :
    Outcome (consider rule node) s
      (fun result s' => ∀ p ∈ result, p.2 = node ∧
        (Build.intern node).run s.store = (.ok p.1, s'.store) ∧
        s.representatives.seen.contains p.1.index = false ∧
        s' = { s with
          store := s'.store
          representatives :=
            { s.representatives with seen := s.representatives.seen.insert p.1.index }
          statistics := s.statistics.modifyRule rule .addCandidate })
      (fun _ _ => True) := by
  simp only [consider, intern, count, fail, Outcome.bind_iff, Outcome.modify_iff,
    Outcome.modifyGet_iff]
  rcases interned : (Build.intern node).run s.store with ⟨result, store⟩
  cases result with
  | error e => trivial
  | ok h =>
    simp only [Outcome.pure_iff]
    split
    next new =>
      rintro _ ⟨⟩
      exact ⟨rfl, rfl, by simpa [Representatives.markSeen] using new, rfl⟩
    next =>
      rintro _ ⟨⟩

/-- When all candidates of a batch are new, they have been considered one after another. -/
theorem considerAll_considers (rule : Rule) (batch : List Node) (s : Session) :
    Outcome (batch.mapM (consider rule)) s
      (fun results s' => ∀ fresh : List (Handle × Node), results = fresh.map some →
        fresh.map Prod.snd = batch ∧
          Considers s.store s.representatives.seen fresh s'.store s'.representatives.seen ∧
          s' = { s with
            store := s'.store
            representatives := { s.representatives with seen := s'.representatives.seen }
            statistics := s.statistics.modifyRule rule fun c =>
              { c with candidates := c.candidates + fresh.length } })
      (fun _ _ => True) := by
  induction batch generalizing s with
  | nil =>
    rw [List.mapM_nil, Outcome.pure_iff]
    intro fresh none
    cases List.map_eq_nil_iff.mp none.symm
    exact ⟨rfl, .done _ _, congrArg (fun statistics => { s with statistics })
      Statistics.modifyRule_id.symm⟩
  | cons node rest ih =>
    rw [List.mapM_cons, Outcome.bind_iff]
    refine (consider_considers rule node s).imp_done fun result s₁ considered => ?_
    rw [Outcome.bind_iff]
    refine (ih s₁).imp_done fun results s₂ more => ?_
    rw [Outcome.pure_iff]
    intro fresh all
    cases fresh with
    | nil => cases all
    | cons p fresh =>
      obtain ⟨rfl, rfl⟩ := List.cons.inj all
      obtain ⟨rfl, interned, unseen, same₁⟩ := considered p rfl
      obtain ⟨nodes, considers, same₂⟩ := more fresh rfl
      refine ⟨congrArg (p.2 :: ·) nodes, .next interned unseen ?_, ?_⟩
      · rw [same₁] at considers
        exact considers
      · have count : (s.statistics.modifyRule rule .addCandidate).modifyRule rule
              (fun c => { c with candidates := c.candidates + fresh.length })
            = s.statistics.modifyRule rule
              fun c => { c with candidates := c.candidates + (p :: fresh).length } := by
          rw [Statistics.modifyRule_modifyRule]
          congr 1
          funext c
          simp only [Function.comp_apply, RuleCounts.addCandidate, List.length_cons,
            RuleCounts.mk.injEq, and_true]
          omega
        rw [same₁] at same₂
        rw [← count]
        exact same₂

end Search

/-! ## A run that is ahead -/

namespace Session
variable {states : List State} {rule : Rule} {s s' p p' : Session}

/-- The run is ahead of the plain loop by the candidates that are left of a batch: they are in
its store and considered, but not registered. -/
structure Ahead (states : List State) (rule : Rule) (rest : List (Handle × Node)) (s p : Session) :
    Prop where
  considers : Considers p.store p.representatives.seen rest s.store s.representatives.seen
  wellFormed : p.store.WellFormed
  takes : p.store.Takes rest
  kept : s.representatives.kept = p.representatives.kept
  layer : s.layer = p.layer
  frontier : s.frontier = p.frontier
  features : s.features = p.features
  statistics : s.statistics = p.statistics.ahead rule rest.length
  fits : p.representatives.evaluator.Fits p.store states

/-- Between batches the run and the plain loop know the same, but for the vectors of duplicates,
which only the plain loop remembers. -/
structure Follows (states : List State) (s p : Session) : Prop where
  store : s.store = p.store
  seen : s.representatives.seen = p.representatives.seen
  kept : s.representatives.kept = p.representatives.kept
  layer : s.layer = p.layer
  frontier : s.frontier = p.frontier
  features : s.features = p.features
  statistics : s.statistics = p.statistics
  fits : p.representatives.evaluator.Fits p.store states

theorem Ahead.follows (ahead : Ahead states rule [] s p) : Follows states s p := by
  obtain ⟨considers, _, _, kept, layer, frontier, features, statistics, fits⟩ := ahead
  rw [List.length_nil, Statistics.ahead_zero] at statistics
  generalize store : s.store = store' at considers
  generalize seen : s.representatives.seen = seen' at considers
  cases considers
  exact ⟨store, seen, kept, layer, frontier, features, statistics, fits⟩

theorem follows_start (store : Store) (states : List State) :
    Follows states (start store states) (start store states) :=
  ⟨rfl, rfl, rfl, rfl, rfl, rfl, rfl, Evaluator.fits_new store states⟩

end Session

/-- A feature of a store is the same feature when the store has grown. -/
theorem Store.Later.ofHandle? {store store' : Store} {h : Handle} (wf : store.WellFormed)
    (later : store.Later store') (has : store.Has h) :
    Feature.ofHandle? store' h = Feature.ofHandle? store h := by
  obtain ⟨t, stands⟩ := wf.represents has
  have stands' := later.grown.represents has stands
  have text : store'.text h = store.text h := by
    rw [wf.text_eq has stands.tree, later.wellFormed.text_eq (later.grown.has has) stands'.tree,
      later.grown.vocabulary]
  rw [Feature.ofHandle?, Feature.ofHandle?, stands.complexity, stands'.complexity, text]

namespace Search
open Session
variable {states : List State} {rule : Rule} {s p : Session} {h : Handle}

theorem settle_paired (made : Feature.ofHandle? s.store h = Feature.ofHandle? p.store h)
    (layer : s.layer = p.layer) (features : s.features = p.features) (featureLimit : Nat)
    (registration : Registration) :
    Paired (settle featureLimit h registration) (settle featureLimit h registration) s p
      (fun _ _ s' p' => ∃ layer features, s' = { s with layer, features } ∧
        p' = { p with layer, features })
      (fun s' p' => ∃ layer features, s' = { s with layer, features } ∧
        p' = { p with layer, features }) := by
  unfold settle
  split
  next =>
    split
    next =>
      unfold emit
      rw [Paired.get_bind_iff, made]
      cases Feature.ofHandle? p.store h with
      | none => exact Paired.throw _ ⟨p.layer, p.features, by rw [← layer, ← features], rfl⟩
      | some feature =>
        have pushed : ∃ layer features,
            ({ s with features := p.features.push feature } : Session) = { s with layer, features } ∧
              ({ p with features := p.features.push feature } : Session)
                = { p with layer, features } :=
          ⟨p.layer, p.features.push feature, by rw [layer], rfl⟩
        simp only [Paired.modify_bind_iff, Paired.get_bind_iff, features]
        split
        next => exact Paired.throw _ pushed
        next => exact Paired.pure pushed
    next =>
      refine Paired.modify ⟨p.layer.push h, p.features, ?_, rfl⟩
      rw [layer, features]
  next => exact Paired.pure ⟨p.layer, p.features, by rw [← layer, ← features], rfl⟩

/-- What is left to do when a candidate has been registered. -/
theorem run_register (featureLimit : Nat) (rule : Rule) (h : Handle) (vector : ExtensionVector)
    (s : Session) :
    (register featureLimit rule h vector).run s
      = (settle featureLimit h (s.representatives.insert h vector).1).run { s with
          representatives := (s.representatives.insert h vector).2
          statistics := s.statistics.modifyRule rule
            (·.record (s.representatives.insert h vector).1)
          log := (h, (s.representatives.insert h vector).1) :: s.log } := rfl

theorem insert_ne_known (r : Representatives) (h : Handle) (vector : ExtensionVector) :
    (r.insert h vector).1 ≠ .known := by
  rcases r.insert_cases h vector with ⟨g, _, _, inserted⟩ | ⟨_, inserted⟩ <;>
    rw [inserted] <;> exact nofun

theorem run_intern {node : Node} {store : Store}
    (interned : (Build.intern node).run s.store = (.ok h, store)) :
    (intern node).run s = (.ok h, { s with store }) := by
  rcases s with ⟨store₀, reps, layer, frontier, features, statistics, looks, log⟩
  rw [intern, run_modifyGet_bind]
  dsimp only at interned ⊢
  rw [interned]
  rfl

/-- What the plain loop knows when it has added and evaluated a candidate. -/
def evaluated (r : Representatives) (h : Handle) (evaluator : Evaluator) : Representatives :=
  { r with seen := r.seen.insert h.index, evaluator }

theorem run_takeCandidate {node : Node} {store : Store}
    (interned : (Build.intern node).run p.store = (.ok h, store))
    (unseen : p.representatives.seen.contains h.index = false) {vector : ExtensionVector}
    {evaluator : Evaluator}
    (computed : (Sampling.vector store h).run p.representatives.evaluator = (.ok vector, evaluator))
    (featureLimit : Nat) (rule : Rule) :
    (takeCandidate featureLimit rule node).run p
      = (settle featureLimit h ((evaluated p.representatives h evaluator).insert h vector).1).run
        { p with
          store
          representatives := ((evaluated p.representatives h evaluator).insert h vector).2
          statistics :=
            ({ p.statistics.modifyRule rule .addCandidate with
              evaluations := p.statistics.evaluations + 1 } : Statistics).modifyRule rule
              (·.record ((evaluated p.representatives h evaluator).insert h vector).1) } := by
  have registered : p.representatives.register store h
      = (.ok ((evaluated p.representatives h evaluator).insert h vector).1,
        ((evaluated p.representatives h evaluator).insert h vector).2) := by
    simp only [Representatives.register, Representatives.markSeen, unseen, Bool.not_false, computed]
    rfl
  have counted : (registerStored h).run
        { p with store, statistics := p.statistics.modifyRule rule .addCandidate }
      = (.ok ((evaluated p.representatives h evaluator).insert h vector).1,
        { p with
          store
          representatives := ((evaluated p.representatives h evaluator).insert h vector).2
          statistics := p.statistics.modifyRule rule .addCandidate }) := by
    rw [registerStored, run_modifyGet_bind, registered]
    rfl
  rw [takeCandidate, run_bind, run_intern interned]
  show (count rule .addCandidate >>= fun _ => _ : Search Unit).run { p with store } = _
  rw [count, run_modify_bind, run_bind, counted]
  dsimp only
  rw [if_pos (insert_ne_known _ h vector)]
  rfl

theorem insert_congr {r r' : Representatives} (same : r.kept = r'.kept) (h : Handle)
    (vector : ExtensionVector) :
    (r.insert h vector).1 = (r'.insert h vector).1 ∧
      (r.insert h vector).2.kept = (r'.insert h vector).2.kept := by
  have found : r.find? h.kind vector = r'.find? h.kind vector := by
    rw [Representatives.find?, Representatives.find?, same]
  unfold Representatives.insert
  rw [found]
  split
  next => exact ⟨rfl, same⟩
  next => exact ⟨rfl, congrArg ((h, vector) :: ·) same⟩

theorem insert_seen (r : Representatives) (h : Handle) (vector : ExtensionVector) :
    (r.insert h vector).2.seen = r.seen := by
  rcases r.insert_cases h vector with ⟨g, _, _, inserted⟩ | ⟨_, inserted⟩
  · rw [inserted]
  · rw [inserted]
    rfl

theorem insert_fits {store : Store} {r : Representatives} {vector : ExtensionVector}
    (fits : r.evaluator.Fits store states) (denotes : store.Denotes states h vector) :
    (r.insert h vector).2.evaluator.Fits store states := by
  rcases r.insert_cases h vector with ⟨g, _, _, inserted⟩ | ⟨_, inserted⟩ <;> rw [inserted]
  · exact fits
  · exact (fits.remember denotes).1

/-- The plain loop takes the next candidate that is left, and both register it alike. -/
theorem register_paired_plain {node : Node} {rest : List (Handle × Node)}
    (ahead : Ahead states rule ((h, node) :: rest) s p)
    (sample : ∀ state ∈ states, state.Over s.store.vocabulary) {vector : ExtensionVector}
    (denotes : s.store.Denotes states h vector) (featureLimit : Nat) :
    Paired (register featureLimit rule h vector) (takeCandidate featureLimit rule node) s p
      (fun _ _ s' p' => Ahead states rule rest s' p' ∧ s'.store = s.store)
      (fun s' p' => s'.features = p'.features) := by
  obtain ⟨considers, wf, takes, kept, layer, frontier, features, statistics, fits⟩ := ahead
  generalize whole : s.representatives.seen = seen at considers
  cases considers with
  | @next _ store _ _ _ _ _ _ interned unseen more =>
    have inserted := takes.intern wf interned
    have takes' : store.Takes rest :=
      Store.Takes.extends (fun q member => takes q (List.mem_cons_of_mem _ member)) inserted.grown
    have later := more.later inserted.wellFormed takes'
    have sample' : ∀ state ∈ states, state.Over store.vocabulary :=
      later.grown.vocabulary ▸ sample
    obtain ⟨w, evaluator, computed, evaluation⟩ := (Sampling.vector_outcome inserted.wellFormed
      sample' inserted.has (fits.extends inserted.grown)).exists_ok
    -- The expression had this vector in the smaller store.
    cases (evaluation.denotes.extends later.grown).unique denotes
    have known : (evaluated p.representatives h evaluator).kept = s.representatives.kept :=
      kept.symm
    have same := insert_congr known h vector
    refine Paired.of_run (run_register featureLimit rule h vector s)
      (run_takeCandidate interned unseen computed featureLimit rule) ?_
    rw [same.1]
    refine Paired.imp (settle_paired ?_ ?_ ?_ featureLimit _) ?_ ?_
    · exact later.ofHandle? inserted.wellFormed inserted.has
    · exact layer
    · exact features
    · rintro _ _ _ _ ⟨layer', features', rfl, rfl⟩
      refine ⟨?_, rfl⟩
      exact {
        considers := by
          rw [insert_seen, insert_seen, whole]
          exact more
        wellFormed := inserted.wellFormed
        takes := takes'
        kept := same.2.symm
        layer := rfl
        frontier := frontier
        features := rfl
        statistics := by
          dsimp only
          rw [statistics]
          exact Statistics.ahead_record _ _
        fits := insert_fits evaluation.fits evaluation.denotes }
    · rintro _ _ ⟨layer', features', rfl, rfl⟩
      rfl

end Search
end PlanFeatures
