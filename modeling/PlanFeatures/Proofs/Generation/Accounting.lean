import Mathlib.Order.Bounds.Defs
import PlanFeatures.Proofs.Generation.Invariants
import PlanFeatures.Proofs.Generation.Unrepeated

/-!
# The accounts of a run

Each candidate is counted when it is added to the store, and once more when it is known
already or registered: as kept or as a duplicate.  In between its rule owes its outcome.  A
batch begins and ends without debts, and so do rules, layers and completed runs; a look at the
clock comes before the first candidate of a batch.  Only a run that has enough features stops
within a batch, at the feature that was kept last, and what its rule owes then is less than a
batch.
-/

namespace PlanFeatures

/-! ## Counts of a rule -/

/-- The candidates of which it is counted what became of them. -/
def RuleCounts.outcomes (c : RuleCounts) : Nat := c.kept + c.duplicates + c.known

/-- Booleans and numericals are built with these rules. -/
def Rule.features : List Rule := Rule.all.filter fun r => r.kind.isFeature

/-- The rule that an expression of the store is built with. -/
def Store.rule? (s : Store) (h : Handle) : Option Rule := (s.node? h).map Node.rule

namespace RuleCounts

theorem candidates_record (c : RuleCounts) (registration : Registration) :
    (c.record registration).candidates = c.candidates := by
  cases registration <;> rfl

theorem outcomes_record (c : RuleCounts) (registration : Registration) :
    (c.record registration).outcomes = c.outcomes + 1 := by
  cases registration <;> simp only [record, outcomes] <;> omega

end RuleCounts

namespace Rule
variable {r : Rule}

theorem mem_features : r ∈ features ↔ r.kind.isFeature = true := by
  simp [features, r.mem_all]

theorem nodup_features : features.Nodup := nodup_all.filter _

end Rule

theorem Feature.handle_of_ofHandle? {store : Store} {h : Handle} {f : Feature}
    (made : Feature.ofHandle? store h = some f) : f.handle = h := by
  unfold ofHandle? at made
  split at made
  next =>
    obtain ⟨n, _, rfl⟩ := Option.map_eq_some_iff.mp made
    rfl
  next => cases made

/-- A candidate is stored with its own rule, whatever the order of its operands. -/
theorem Store.WellFormed.rule_of_interned {s : Store} (wf : s.WellFormed) {h : Handle} {node : Node}
    (interned : s.Interned h node) : s.rule? h = some node.rule ∧ h.kind = node.rule.kind := by
  obtain ⟨t, u, tree, stands, alike⟩ := interned.tree
  obtain ⟨stored, found, kind⟩ := interned.has
  have same : stored.rule = node.rule := by
    have stands : stored.tree? s.trees = some u := (wf.trees_eq found).symm.trans stands.tree
    rw [← Node.rule_of_tree? stands, ← Node.rule_of_tree? tree]
    exact alike.rule_eq
  constructor
  · rw [Store.rule?, found, Option.map_some, same]
  · rw [← kind, Node.kind, same]

namespace Statistics
variable {s : Statistics} {rule : Rule} {n : Nat}

/-- All outcomes are counted, but those of so many candidates of a rule. -/
def Owes (rule : Rule) (n : Nat) (s : Statistics) : Prop :=
  ∀ r, (s.rule r).candidates = (s.rule r).outcomes + if r = rule then n else 0

theorem Owes.of_zero (owes : s.Owes rule 0) (q : Rule) : s.Owes q 0 := by
  intro r
  simpa using owes r

theorem Owes.here (owes : s.Owes rule n) :
    (s.rule rule).candidates = (s.rule rule).outcomes + n := by
  simpa using owes rule

theorem Owes.elsewhere (owes : s.Owes rule n) {r : Rule} (other : r ≠ rule) :
    (s.rule r).candidates = (s.rule r).outcomes := by
  simpa [other] using owes r

theorem Owes.addCandidate (owes : s.Owes rule n) :
    (s.modifyRule rule .addCandidate).Owes rule (n + 1) := by
  intro r
  have here := owes r
  rw [rule_modifyRule]
  by_cases same : rule = r
  · subst same
    simp only [if_true, RuleCounts.addCandidate, RuleCounts.outcomes] at here ⊢
    omega
  · simp only [same, Ne.symm same, if_false] at here ⊢
    exact here

theorem Owes.record (owes : s.Owes rule (n + 1)) (registration : Registration) :
    (s.modifyRule rule (·.record registration)).Owes rule n := by
  intro r
  have here := owes r
  rw [rule_modifyRule]
  by_cases same : rule = r
  · subst same
    simp only [if_true, RuleCounts.candidates_record, RuleCounts.outcomes_record] at here ⊢
    omega
  · simp only [same, Ne.symm same, if_false] at here ⊢
    exact here

end Statistics

namespace Session
variable {config : Config} {k : Nat} {rule : Rule} {n : Nat} {s s' : Session}

/-! ## Accounts -/

/-- In layer `k` the counts of a run agree with what it has, and a rule owes the outcomes of
so many candidates. -/
structure Accounts (config : Config) (k : Nat) (rule : Rule) (n : Nat) (s : Session) : Prop where
  owes : s.statistics.Owes rule n
  features : s.statistics.sum RuleCounts.kept Rule.features = s.features.size
  kept : s.statistics.total.kept = s.representatives.kept.length
  disabled : ∀ r, config.rules.isEnabled r = false → s.statistics.rule r = .zero
  layers : s.statistics.layers + 1 = k

/-- Where the accounts of a run are open when it stops: nowhere when its time is up, and at the
rule of the last feature when there are enough features. -/
structure Audited (config : Config) (e : Stop) (s : Session) : Prop where
  timeLimit : e = .timeLimit → ∃ k rule, s.Accounts config k rule 0
  featureLimit : e = .featureLimit → ∃ k rule n, s.Accounts config k rule n ∧
    n < config.batchSize ∧ ∃ feature, s.features.back? = some feature ∧
      s.store.rule? feature.handle = some rule

theorem Accounts.of_zero (accounts : s.Accounts config k rule 0) (q : Rule) :
    s.Accounts config k q 0 :=
  { accounts with owes := accounts.owes.of_zero q }

/-- Looks at the clock and evaluations are not counted for a rule. -/
theorem Accounts.aside (accounts : s.Accounts config k rule n) (looks evaluations : Nat) :
    ({ s with looks, statistics.evaluations := evaluations } : Session).Accounts config k rule n :=
  ⟨accounts.owes, accounts.features, accounts.kept, accounts.disabled, accounts.layers⟩

/-- What is counted for a rule that is on has to agree with what is kept. -/
theorem Accounts.modifyRule (accounts : s.Accounts config k rule n)
    (enabled : config.rules.isEnabled rule = true) {f : RuleCounts → RuleCounts} {m o : Nat}
    (statistics : s'.statistics = s.statistics.modifyRule rule f)
    (owes : (s.statistics.modifyRule rule f).Owes rule o) (keeps : ∀ c, (f c).kept = c.kept + m)
    (features : s'.features.size = s.features.size + if rule.kind.isFeature then m else 0)
    (kept : s'.representatives.kept.length = s.representatives.kept.length + m) :
    s'.Accounts config k rule o where
  owes := statistics ▸ owes
  features := by
    rw [statistics, Statistics.sum_modifyRule keeps Rule.nodup_features, accounts.features, features]
    simp only [Rule.mem_features]
  kept := by
    have before := accounts.kept
    simp only [Statistics.total_eq] at before ⊢
    rw [statistics, Statistics.sum_modifyRule keeps Rule.nodup_all, before, kept,
      if_pos rule.mem_all]
  disabled r off := by
    have other : rule ≠ r := by
      rintro rfl
      rw [enabled] at off
      cases off
    rw [statistics, Statistics.rule_modifyRule, if_neg other]
    exact accounts.disabled r off
  layers := by
    rw [statistics]
    exact accounts.layers

theorem Accounts.added (accounts : s.Accounts config k rule n)
    (enabled : config.rules.isEnabled rule = true) {node : Node} {h : Handle}
    (added : s.Added rule node h s') : s'.Accounts config k rule (n + 1) := by
  apply accounts.modifyRule enabled added.statistics accounts.owes.addCandidate (m := 0)
    fun _ => rfl
  · rw [added.features]
    simp
  · rw [added.kept]
    rfl

theorem Accounts.duplicate (accounts : s.Accounts config k rule (n + 1))
    (enabled : config.rules.isEnabled rule = true) {g : Handle}
    (statistics : s'.statistics = s.statistics.modifyRule rule (·.record (.duplicate g)))
    (features : s'.features = s.features)
    (representatives : s'.representatives = s.representatives) : s'.Accounts config k rule n := by
  apply accounts.modifyRule enabled statistics (accounts.owes.record _) (m := 0) fun _ => rfl
  · rw [features]
    simp
  · rw [representatives]
    rfl

theorem Accounts.keep (accounts : s.Accounts config k rule (n + 1))
    (enabled : config.rules.isEnabled rule = true) {h : Handle} {vector : ExtensionVector}
    (statistics : s'.statistics = s.statistics.modifyRule rule (·.record .kept))
    (features : s'.features.size = s.features.size + if rule.kind.isFeature then 1 else 0)
    (representatives : s'.representatives = s.representatives.keep h vector) :
    s'.Accounts config k rule n := by
  apply accounts.modifyRule enabled statistics (accounts.owes.record .kept) (fun _ => rfl) features
  rw [representatives]
  rfl

theorem accounts_start (base : Store) (states : List State) (config : Config) (rule : Rule) :
    (start base states).Accounts config 1 rule 0 := by
  have zero : ∀ r, Statistics.zero.rule r = .zero := fun r => by
    simp [Statistics.zero, Statistics.rule_eq]
  have nothing : ∀ rules, Statistics.zero.sum RuleCounts.kept rules = 0 := fun rules => by
    simp [Statistics.sum, zero, RuleCounts.zero]
  exact {
    owes := fun r => by simp [start, zero, RuleCounts.zero, RuleCounts.outcomes]
    features := nothing _
    kept := by
      simp only [start, Statistics.total_eq, nothing]
      rfl
    disabled := fun r _ => zero r
    layers := rfl }

end Session

namespace Search
open Session
variable {base : Store} {states : List State} {config : Config} {k : Nat} {rule : Rule} {n : Nat}
  {s : Session}

/-! ## Registering -/

/-- A registration settles what is owed for one candidate, whether or not the run stops. -/
theorem register_accounts (accounts : s.Accounts config k rule (n + 1))
    (enabled : config.rules.isEnabled rule = true) {h : Handle} (kind : h.kind = rule.kind)
    (featureLimit : Nat) (vector : ExtensionVector) :
    Outcome (register featureLimit rule h vector) s
      (fun _ s' => s'.Accounts config k rule n ∧ s'.store = s.store)
      (fun e s' => e ≠ .timeLimit ∧ (e = .featureLimit → s'.Accounts config k rule n ∧
        s'.store = s.store ∧ ∃ feature, s'.features.back? = some feature ∧ feature.handle = h)) := by
  simp only [register, count, Outcome.bind_iff, Outcome.modify_iff, Outcome.modifyGet_iff]
  rcases Representatives.insert_cases s.representatives h vector with
    ⟨g, _, _, inserted⟩ | ⟨_, inserted⟩
  · simp only [inserted, reduceCtorEq, if_false, Outcome.pure_iff]
    exact ⟨accounts.duplicate enabled rfl rfl rfl, trivial⟩
  · simp only [inserted, if_true]
    rw [kind]
    cases feature : rule.kind.isFeature with
    | true =>
      simp only [emit, fail, Outcome.bind_iff, Outcome.get_iff, if_true]
      split
      next =>
        constructor
        · rintro ⟨⟩
        · rintro ⟨⟩
      next f made =>
        have handle : f.handle = h := Feature.handle_of_ofHandle? made
        simp only [Outcome.bind_iff, Outcome.get_iff, Outcome.modify_iff]
        -- The feature is counted and listed, and then the run may have enough.
        have full : ({ s with
            representatives := s.representatives.keep h vector
            statistics := s.statistics.modifyRule rule (·.record .kept)
            log := (h, .kept) :: s.log
            features := s.features.push f } : Session).Accounts config k rule n :=
          accounts.keep enabled rfl (by simp [feature]) rfl
        split
        next => exact ⟨by rintro ⟨⟩, fun _ => ⟨full, rfl, f, Array.back?_push, handle⟩⟩
        next => exact ⟨full, rfl⟩
    | false =>
      simp only [Bool.false_eq_true, if_false, Outcome.modify_iff]
      exact ⟨accounts.keep enabled rfl (by simp [feature]) rfl, trivial⟩

/-- Each of the candidates that are left is owed for. -/
theorem registerAll_accounts {items : List ((Handle × Node) × ExtensionVector)}
    (accounts : s.Accounts config k rule items.length)
    (enabled : config.rules.isEnabled rule = true)
    (built : ∀ q ∈ items, s.store.rule? q.1.1 = some rule ∧ q.1.1.kind = rule.kind)
    (small : items.length ≤ config.batchSize) (featureLimit : Nat) :
    Outcome (items.forM fun q => register featureLimit rule q.1.1 q.2) s
      (fun _ s' => s'.Accounts config k rule 0) (fun e s' => s'.Audited config e) := by
  let invariant (rest : List ((Handle × Node) × ExtensionVector)) (s' : Session) : Prop :=
    s'.Accounts config k rule rest.length ∧ s'.store = s.store ∧ rest <:+ items
  have start : invariant items s := ⟨accounts, rfl, List.suffix_rfl⟩
  refine (Outcome.forM_of_invariant invariant ?_ items start).imp_done fun _ s' last => last.1
  rintro ⟨⟨h, node⟩, vector⟩ rest s₁ ⟨accounts₁, store₁, left⟩
  obtain ⟨stored, kind⟩ := built _ (left.subset List.mem_cons_self)
  refine (register_accounts accounts₁ enabled kind featureLimit vector).imp ?_ ?_
  · rintro _ s₂ ⟨accounts₂, store₂⟩
    exact ⟨accounts₂, store₂.trans store₁, (List.suffix_cons _ rest).trans left⟩
  · rintro e s₂ ⟨live, full⟩
    refine ⟨fun up => absurd up live, fun stop => ?_⟩
    obtain ⟨accounts₂, store₂, feature, last, rfl⟩ := full stop
    have fewer := left.length_le
    rw [List.length_cons] at fewer
    refine ⟨k, rule, rest.length, accounts₂, by omega, feature, last, ?_⟩
    rw [store₂, store₁]
    exact stored

/-! ## Batches -/

theorem Due.rule_eq {batch todo : List Node} (due : Due base states config k rule batch todo s) :
    ∀ node ∈ batch, node.rule = rule := by
  intro node member
  have sound := due.steady.sound
  have positive : 0 < k := by
    have size := sound.layered.size
    omega
  have listed : node ∈ s.frontier.candidates base.vocabulary rule k := by
    rw [← flatten_batches config.batchSize (s.frontier.candidates base.vocabulary rule k)]
    exact List.mem_flatten_of_mem due.batch member
  exact (Frontier.candidate_of_mem sound.separate positive listed).rule

/-- The candidates of a batch are stored with its rule, and there are not too many. -/
theorem Due.built {batch todo : List Node} (due : Due base states config k rule batch todo s)
    {done fresh : List (Handle × Node)} {s₁ s₂ : Session}
    (considering : Considering base states config k done todo batch s₁ [] fresh s₂) :
    (∀ p ∈ fresh, s₂.store.rule? p.1 = some rule ∧ p.1.kind = rule.kind) ∧
      (0 < config.batchSize → fresh.length ≤ config.batchSize) := by
  have nodes : fresh.map Prod.snd = batch := by
    rw [← considering.split, List.append_nil]
  constructor
  · intro p member
    have own : p.2.rule = rule := by
      apply due.rule_eq
      rw [← nodes]
      exact List.mem_map_of_mem member
    rw [← own]
    apply considering.sound.wellFormed.rule_of_interned
    exact considering.traced.interned p (List.mem_append_right _ member)
  · intro positive
    have size := length_le_of_mem_batches positive due.batch
    rwa [← nodes, List.length_map] at size

/-- A batch leaves no debts, unless there are enough features within it. -/
theorem processBatch_accounts (sample : ∀ state ∈ states, state.Over base.vocabulary)
    {batch todo : List Node} (due : Due base states config k rule batch todo s)
    (positive : 0 < config.batchSize) (accounts : s.Accounts config k rule 0) (clock : Clock) :
    Outcome (processBatch config clock rule batch) s (fun _ s' => s'.Accounts config k rule 0)
      (fun e s' => s'.Audited config e) := by
  have looked := accounts.aside (s.looks + 1) s.statistics.evaluations
  simp only [processBatch_eq, Outcome.bind_iff, Outcome.modify_iff]
  refine (checkClock_looks clock s).imp ?_ ?_
  · rintro _ _ rfl
    obtain ⟨done, traced, _⟩ := due.steady.evaluated
    -- Every candidate is new, so the rule owes for all that were considered.
    have considered := considerAll_keeps
      (fun fresh s' => s'.Accounts config k rule fresh.length)
      (due.steady.sound.aside s.statistics (s.looks + 1))
      (traced.undisturbed (s.undisturbed_looks _)) due.proposed rule
      (fun fresh node h s₁ s₂ added there => by
        rw [List.length_append]
        exact there.added due.enabled added)
      looked
    refine considered.imp_total ?_
    rintro _ s₁ ⟨fresh, rfl, considering, accounts₁⟩
    have results : (fresh.map some).filterMap id = fresh := by simp
    rw [results]
    refine (evaluateAll_outcome considering.sound sample
      (considering.proposed due.proposed)).imp_total ?_
    rintro vectors _ ⟨rfl, length, _⟩
    obtain ⟨built, few⟩ := due.built considering
    have items : (fresh.zip vectors).length = fresh.length := by
      rw [List.length_zip, length, Nat.min_self]
    apply registerAll_accounts
    · rw [items]
      exact accounts₁.aside _ _
    · exact due.enabled
    · exact fun q member => built q.1 (List.of_mem_zip member).1
    · rw [items]
      exact few positive
  · rintro _ _ ⟨rfl, rfl⟩
    exact ⟨fun _ => ⟨k, rule, looked⟩, by rintro ⟨⟩⟩

/-! ## Runs -/

theorem closeLayer_accounts (accounts : ∀ rule, s.Accounts config k rule 0)
    {stopped : Stop → Session → Prop} :
    Outcome (closeLayer k) s (fun _ s' => ∀ rule, s'.Accounts config (k + 1) rule 0) stopped := by
  intro rule
  have before := accounts rule
  exact ⟨before.owes, before.features, before.kept, before.disabled, rfl⟩

theorem enumerate_accounts (wf : base.WellFormed)
    (sample : ∀ state ∈ states, state.Over base.vocabulary) (positive : 0 < config.batchSize)
    (clock : Clock) :
    Outcome (enumerate config clock) (Session.start base states)
      (fun _ s' => ∀ rule, s'.Accounts config (config.limits.max + 1) rule 0)
      (fun e s' => s'.Audited config e) := by
  have enumerated := enumerate_steady_keeps sample wf config clock
    (fun k s' => ∀ rule, s'.Accounts config k rule 0)
    (fun k rule batch todo s' due accounts =>
      (processBatch_accounts sample due positive (accounts rule) clock).imp_done
        fun _ _ after => after.of_zero)
    (fun _ _ accounts => closeLayer_accounts accounts)
    (accounts_start base states config)
  exact enumerated.imp (fun _ _ done => done.2) fun _ _ stop => stop.2

end Search

/-! ## Statistics -/

theorem Limits.isGreatest_max (l : Limits) :
    IsGreatest {limit | ∃ category, (category, limit) ∈ l.toList} l.max := by
  have largest := l.max_eq
  constructor
  · have one : l.max = l.concept ∨ l.max = l.role ∨ l.max = l.boolean ∨ l.max = l.count ∨
        l.max = l.distance := by omega
    rcases one with same | same | same | same | same <;> rw [same]
    · exact ⟨.concept, by simp [toList]⟩
    · exact ⟨.role, by simp [toList]⟩
    · exact ⟨.boolean, by simp [toList]⟩
    · exact ⟨.count, by simp [toList]⟩
    · exact ⟨.distance, by simp [toList]⟩
  · rintro limit ⟨category, member⟩
    simp only [toList, List.mem_cons, Prod.mk.injEq, List.not_mem_nil, or_false] at member
    omega

/-- What the statistics of a run say about it, with the store that it leaves. -/
structure Generation.Accounted (config : Config) (store : Store) (g : Generation) : Prop where
  balanced : g.status ≠ .featureLimitReached →
    ∀ r, (g.statistics.rule r).candidates = (g.statistics.rule r).outcomes
  /-- A run with enough features stops at the last of them, within a batch of its rule. -/
  interrupted : g.status = .featureLimitReached →
    ∃ feature rule, g.features.getLast? = some feature ∧
      store.rule? feature.handle = some rule ∧
      (∀ r, r ≠ rule → (g.statistics.rule r).candidates = (g.statistics.rule r).outcomes) ∧
      (g.statistics.rule rule).outcomes ≤ (g.statistics.rule rule).candidates ∧
      (g.statistics.rule rule).candidates < (g.statistics.rule rule).outcomes + config.batchSize
  features : (Rule.features.map fun r => (g.statistics.rule r).kept).sum = g.features.length
  kept : g.statistics.total.kept = g.statistics.cachedVectors
  /-- Every candidate that was not known has been evaluated. -/
  evaluations : g.statistics.evaluations + g.statistics.total.known = g.statistics.total.candidates
  disabled : ∀ r, config.rules.isEnabled r = false → g.statistics.rule r = .zero
  storeSize : g.statistics.storeSize = store.size
  layers : g.status = .completed →
    IsGreatest {limit | ∃ category, (category, limit) ∈ config.limits.toList} g.statistics.layers

theorem Session.Sound.accounted {base : Store} {states : List State} {config : Config} {j k : Nat}
    {s : Session} {todo : List Node} {rule : Rule} {n : Nat} {status : Status}
    (sound : s.Sound base states config j) (evaluated : s.Evaluated config todo)
    (accounts : s.Accounts config k rule n) (balanced : status ≠ .featureLimitReached → n = 0)
    (interrupted : status = .featureLimitReached → n < config.batchSize ∧
      ∃ feature, s.features.back? = some feature ∧ s.store.rule? feature.handle = some rule)
    (completed : status = .completed → k = config.limits.max + 1) :
    (s.finish status).Accounted config s.store := by
  have unrepeated := sound.unrepeated evaluated status
  have known : s.statistics.total.known = 0 := by
    have each : ∀ r, (s.statistics.rule r).known = 0 := unrepeated.known
    simp [Statistics.total_eq, Statistics.sum, each]
  constructor
  · intro live
    obtain rfl := balanced live
    exact fun r => (accounts.owes.of_zero r).here
  · intro full
    obtain ⟨few, feature, last, built⟩ := interrupted full
    have here := accounts.owes.here
    refine ⟨feature, rule, ?_, built, fun r => accounts.owes.elsewhere, ?_, ?_⟩
    · show s.features.toList.getLast? = some feature
      rw [Array.getLast?_toList]
      exact last
    · show (s.statistics.rule rule).outcomes ≤ (s.statistics.rule rule).candidates
      omega
    · show (s.statistics.rule rule).candidates < (s.statistics.rule rule).outcomes + _
      omega
  · exact accounts.features
  · exact accounts.kept.trans sound.representatives.cacheSize.symm
  · have all : s.statistics.evaluations = s.statistics.total.candidates := unrepeated.evaluations
    show s.statistics.evaluations + s.statistics.total.known = s.statistics.total.candidates
    rw [known, all, Nat.add_zero]
  · exact accounts.disabled
  · rfl
  · intro whole
    have layers : s.statistics.layers = config.limits.max := by
      have next := accounts.layers
      have last := completed whole
      omega
    show IsGreatest _ s.statistics.layers
    rw [layers]
    exact config.limits.isGreatest_max

/-- The statistics of every run that is not refused account for it, however it ends. -/
theorem statistics_accounted {store : Store} {issued : List Handle}
    (reachable : store.Reachable issued) {config : Config} (valid : config.validate = .ok ())
    {states : List State} (accepted : checkSample store.vocabulary states = .ok ())
    (made : ∀ state ∈ states, state.problem.Made) (clock : Clock) :
    ∃ g, generate config clock states store
        = (.ok g, (Session.after config clock states store).store) ∧
      g.Accounted config (Session.after config clock states store).store := by
  have wf := reachable.wellFormed
  have sample := over_of_checkSample accepted made
  obtain ⟨⟨j, sound⟩, todo, evaluated⟩ := after_rested config clock wf sample
  obtain ⟨status, stopped, result⟩ := generate_finish config clock wf valid accepted made
  obtain ⟨_, _, _, size⟩ := config.validate_iff.mp valid
  have outcome := Search.enumerate_accounts wf sample (Nat.pos_of_ne_zero size) clock
  refine ⟨_, result, ?_⟩
  unfold Session.after at sound evaluated ⊢
  rcases run : (Search.enumerate config clock).run (.start store states) with ⟨ended, s⟩
  rw [run] at sound evaluated stopped
  rcases ended with (_ | _ | e) | _ <;> cases stopped
  case error.timeLimit =>
    obtain ⟨k, rule, accounts⟩ := (outcome.error run).timeLimit rfl
    exact sound.accounted evaluated accounts (fun _ => rfl) nofun nofun
  case error.featureLimit =>
    obtain ⟨k, rule, n, accounts, interrupted⟩ := (outcome.error run).featureLimit rfl
    exact sound.accounted evaluated accounts (fun live => absurd rfl live) (fun _ => interrupted)
      nofun
  case ok =>
    exact sound.accounted evaluated (outcome.ok run .conceptPrimitive) (fun _ => rfl) nofun
      fun _ => rfl

/-- A run that ends with its first feature. -/
def Lamps.single : Config := { Lamps.boolean with featureLimit := 1 }

/-- Two candidates are evaluated, and the first one is the feature: the other one is owed. -/
theorem statistics_accounted_lamps :
    ((generate Lamps.single Lamps.clock Lamps.states Lamps.store).1.toOption.map
        fun g => (g.status, g.statistics.rule .booleanEmpty))
        = some (.featureLimitReached, ⟨2, 1, 0, 0⟩) ∧
      ∃ g, generate Lamps.single Lamps.clock Lamps.states Lamps.store
          = (.ok g, (Session.after Lamps.single Lamps.clock Lamps.states Lamps.store).store) ∧
        g.Accounted Lamps.single
          (Session.after Lamps.single Lamps.clock Lamps.states Lamps.store).store :=
  ⟨by decide +kernel, statistics_accounted Lamps.store_reachable (by decide +kernel)
    (by decide +kernel) Lamps.states_made Lamps.clock⟩

end PlanFeatures
