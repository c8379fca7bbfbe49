import PlanFeatures.Proofs.Generation.Invariants
import PlanFeatures.Proofs.Generation.Lockstep

/-!
# Rules that one run leaves out

Of two runs, the second has some rules of the first off.  While the first goes through the
candidates of such a rule, the second waits.  A duplicate changes nothing that a later step
looks at: what is kept, the layers and the features stay the same, and only the store, what
has been considered and the counts change.  So the runs go on together unless a rule that
is left out keeps something, which is then counted until the end of the first run.
-/

namespace PlanFeatures

open List

/-- The rule is on in a configuration, and off in a set of rules. -/
structure Config.Drops (config : Config) (rules : RuleSet) (rule : Rule) : Prop where
  on : config.rules.isEnabled rule = true
  off : rules.isEnabled rule = false

theorem Config.not_drops (config : Config) (rule : Rule) : ¬ config.Drops config.rules rule := by
  intro drops
  have both := drops.on.symm.trans drops.off
  cases both

/-! ## Counts -/

namespace Statistics

/-- A relation between the counts of two runs survives that the first one counts for a
rule. -/
structure Ahead (counted : Statistics → Statistics → Prop) (rule : Rule) : Prop where
  counts : ∀ {t u : Statistics}, counted t u → ∀ f, counted (t.modifyRule rule f) u
  evaluations : ∀ {t u : Statistics}, counted t u → ∀ n,
    counted { t with evaluations := t.evaluations + n } u

/-- A relation between the counts of two runs, the second of which leaves out some rules,
survives all that they count. -/
structure Tallied (counted : Statistics → Statistics → Prop) (config : Config) (rules : RuleSet) :
    Prop where
  zero : counted .zero .zero
  shared : ∀ rule, rules.isEnabled rule = true → Stable counted rule
  dropped : ∀ rule, config.Drops rules rule → Ahead counted rule
  layers : ∀ {t u : Statistics}, counted t u → ∀ k,
    counted { t with layers := k } { u with layers := k }

/-- Runs with the same rules count the same. -/
theorem tallied_eq (config : Config) : Tallied Eq config config.rules where
  zero := rfl
  shared rule _ := {
    counts := fun same f => congrArg (modifyRule · rule f) same
    evaluations := fun same n => by rw [same] }
  dropped rule drops := absurd drops (config.not_drops rule)
  layers same k := by rw [same]

variable {s : Statistics} {r q : Rule} {f : RuleCounts → RuleCounts}

theorem kept_pos_modifyRule (some : 0 < (s.rule q).kept) (grows : ∀ c, c.kept ≤ (f c).kept) :
    0 < ((s.modifyRule r f).rule q).kept := by
  rw [rule_modifyRule]
  split
  next same => exact Nat.lt_of_lt_of_le some (same ▸ grows _)
  next => exact some

end Statistics

theorem RuleCounts.kept_le_record (registration : Registration) (c : RuleCounts) :
    c.kept ≤ (c.record registration).kept := by
  cases registration with
  | kept => exact Nat.le_succ c.kept
  | duplicate => exact Nat.le_refl c.kept
  | known => exact Nat.le_refl c.kept

namespace Session

/-- Something that the rule has built was kept. -/
def Contributed (rule : Rule) (s : Session) : Prop := 0 < (s.statistics.rule rule).kept

/-- A rule that is left out has contributed. -/
def Spoiled (config : Config) (rules : RuleSet) (s : Session) : Prop :=
  ∃ rule, config.Drops rules rule ∧ s.Contributed rule

variable {counted : Statistics → Statistics → Prop} {base₂ : Store} {rule : Rule}
  {s₁ s₂ s₁' : Session}

/-- The first run considers a candidate, and the second waits. -/
theorem Alongside.ahead (alongside : Alongside counted base₂ s₁ s₂)
    (ahead : Statistics.Ahead counted rule) {node : Node} {h : Handle}
    (first : s₁.Added rule node h s₁') : Alongside counted base₂ s₁' s₂ where
  kept := by
    rw [first.kept]
    exact alongside.kept.imp fun _ _ same =>
      ⟨same.1.extends first.inserted.grown (.refl s₂.store), same.2⟩
  features := by
    rw [first.features]
    exact alongside.features.imp fun _ _ same =>
      same.extends first.inserted.grown (.refl s₂.store)
  statistics := by
    rw [first.statistics]
    exact ahead.counts alongside.statistics _
  added h' has := by
    refine (alongside.added h' has).imp id ?_
    rintro ⟨g', same⟩
    exact ⟨g', same.extends first.inserted.grown (.refl s₂.store)⟩

end Session

namespace Search
open Session

/-! ## What is counted remains counted -/

section
variable {s : Session} {q : Rule}

theorem consider_contributed (contributed : s.Contributed q) (rule : Rule) (node : Node) :
    Outcome (consider rule node) s (fun _ s' => s'.Contributed q)
      (fun _ s' => s'.Contributed q) := by
  simp only [consider, intern, count, fail, Outcome.bind_iff, Outcome.modify_iff,
    Outcome.modifyGet_iff]
  rcases (Build.intern node).run s.store with ⟨result, store⟩
  cases result with
  | error e => exact contributed
  | ok h =>
    simp only [Outcome.pure_iff]
    have added := @Statistics.kept_pos_modifyRule _ rule _ .addCandidate contributed fun _ =>
      Nat.le_refl _
    split
    next => exact added
    next => exact Statistics.kept_pos_modifyRule added (RuleCounts.kept_le_record _)

/-- A registration is counted, and nothing else. -/
theorem register_statistics (featureLimit : Nat) (rule : Rule) (h : Handle)
    (vector : ExtensionVector) (s : Session) :
    Outcome (register featureLimit rule h vector) s
      (fun _ s' => s'.statistics = s.statistics.modifyRule rule
        (·.record (s.representatives.insert h vector).1))
      (fun _ s' => s'.statistics = s.statistics.modifyRule rule
        (·.record (s.representatives.insert h vector).1)) := by
  simp only [register, count, Outcome.bind_iff, Outcome.modify_iff, Outcome.modifyGet_iff]
  split
  next =>
    split
    next =>
      simp only [emit, fail, Outcome.bind_iff, Outcome.get_iff]
      split
      next => rfl
      next =>
        simp only [Outcome.bind_iff, Outcome.get_iff, Outcome.modify_iff]
        split <;> rfl
    next => rfl
  next => rfl

theorem register_contributed (contributed : s.Contributed q) (featureLimit : Nat) (rule : Rule)
    (h : Handle) (vector : ExtensionVector) :
    Outcome (register featureLimit rule h vector) s (fun _ s' => s'.Contributed q)
      (fun _ s' => s'.Contributed q) := by
  have counted : ∀ {s' : Session}, s'.statistics = s.statistics.modifyRule rule
      (·.record (s.representatives.insert h vector).1) → s'.Contributed q := by
    intro s' same
    rw [Contributed, same]
    exact Statistics.kept_pos_modifyRule contributed (RuleCounts.kept_le_record _)
  exact (register_statistics featureLimit rule h vector s).imp (fun _ _ => counted)
    fun _ _ => counted

theorem processBatch_contributed (config : Config) (clock : Clock) (rule : Rule)
    (batch : List Node) (contributed : s.Contributed q) :
    Outcome (processBatch config clock rule batch) s (fun _ s' => s'.Contributed q)
      (fun _ s' => s'.Contributed q) := by
  have looked : Outcome (checkClock clock) s (fun _ s' => s'.Contributed q)
      (fun _ s' => s'.Contributed q) := by
    simp only [checkClock, Outcome.bind_iff, Outcome.modifyGet_iff]
    split <;> exact contributed
  simp only [processBatch_eq, Outcome.bind_iff, Outcome.modify_iff]
  refine looked.imp_done fun _ s₁ contributed₁ => ?_
  refine (Outcome.mapM_of_invariant (fun _ _ s' => s'.Contributed q)
    (fun node _ _ _ holds => consider_contributed holds rule node) batch []
    contributed₁).imp_done fun _ s₂ contributed₂ => ?_
  refine (evaluateAll_unchanged _ s₂).imp ?_ fun _ _ stop => stop.1 ▸ contributed₂
  rintro vectors _ rfl
  refine Outcome.forM_of_invariant (fun _ s' => Contributed q s') ?_ _ contributed₂
  rintro ⟨⟨h, node⟩, vector⟩ _ s₄ contributed₄
  exact register_contributed contributed₄ config.featureLimit rule h vector

end

/-! ## A rule of the first run alone -/

variable {counted : Statistics → Statistics → Prop} {base₁ base₂ : Store} {states : List State}
  {config : Config} {rules : RuleSet} {k : Nat} {rule : Rule} {s₁ s₂ : Session}

section
variable (ahead : Statistics.Ahead counted rule)
include ahead

/-- A candidate that is kept is counted, and a duplicate makes no difference. -/
theorem register_ahead (alongside : Alongside counted base₂ s₁ s₂) (featureLimit : Nat)
    (h : Handle) (vector : ExtensionVector) :
    Outcome (register featureLimit rule h vector) s₁
      (fun _ s₁' => s₁'.Contributed rule ∨ Alongside counted base₂ s₁' s₂)
      (fun _ s₁' => s₁'.Contributed rule) := by
  rcases Representatives.insert_cases s₁.representatives h vector with
    ⟨r, _, _, inserted⟩ | ⟨_, inserted⟩
  · simp only [register, count, Outcome.bind_iff, Outcome.modify_iff, Outcome.modifyGet_iff,
      inserted, reduceCtorEq, if_false, Outcome.pure_iff]
    have statistics := ahead.counts alongside.statistics (·.record (.duplicate r))
    exact Or.inr ⟨alongside.kept, alongside.features, statistics, alongside.added⟩
  · have counted : ∀ {s' : Session}, s'.statistics = s₁.statistics.modifyRule rule
        (·.record (s₁.representatives.insert h vector).1) → s'.Contributed rule := by
      intro s' same
      rw [Contributed, same, inserted, Statistics.rule_modifyRule, if_pos rfl]
      exact Nat.succ_pos _
    exact (register_statistics featureLimit rule h vector s₁).imp
      (fun _ _ same => Or.inl (counted same)) fun _ _ => counted

theorem registerAll_ahead (alongside : Alongside counted base₂ s₁ s₂)
    (items : List ((Handle × Node) × ExtensionVector)) (featureLimit : Nat) :
    Outcome (items.forM fun q => register featureLimit rule q.1.1 q.2) s₁
      (fun _ s₁' => s₁'.Contributed rule ∨ Alongside counted base₂ s₁' s₂)
      (fun _ s₁' => s₁'.Contributed rule) := by
  refine Outcome.forM_of_invariant
    (fun _ s₁' => Contributed rule s₁' ∨ Alongside counted base₂ s₁' s₂) ?_ items (Or.inr alongside)
  rintro ⟨⟨h, node⟩, vector⟩ _ s₁' (contributed | alongside')
  · exact (register_contributed contributed featureLimit rule h vector).imp_done
      fun _ _ => Or.inl
  · exact register_ahead ahead alongside' featureLimit h vector

variable (sample : ∀ state ∈ states, state.Over base₁.vocabulary) {todo : List Node}
include sample

theorem processBatch_ahead {batch : List Node}
    (steady : s₁.Steady base₁ states config k (batch ++ todo))
    (proposed : ∀ node ∈ batch, Proposed base₁ config k s₁.frontier node)
    (alongside : Alongside counted base₂ s₁ s₂) (clock : Clock) :
    Outcome (processBatch config clock rule batch) s₁
      (fun _ s₁' => s₁'.Contributed rule ∨ Alongside counted base₂ s₁' s₂)
      (fun e s₁' => e = .timeLimit ∨ s₁'.Contributed rule) := by
  obtain ⟨sound, _, done, traced, _⟩ := steady
  simp only [processBatch_eq, Outcome.bind_iff, Outcome.modify_iff]
  refine (checkClock_looks clock s₁).imp ?_ fun _ _ stop => Or.inl stop.1
  rintro _ _ rfl
  have alongside' : Alongside counted base₂ { s₁ with looks := s₁.looks + 1 } s₂ :=
    alongside.aside rfl rfl rfl rfl rfl rfl alongside.statistics
  have considered := considerAll_keeps (fun _ s₁' => Alongside counted base₂ s₁' s₂)
    (sound.aside s₁.statistics (s₁.looks + 1)) (traced.undisturbed (s₁.undisturbed_looks _))
    proposed rule (fun _ _ _ _ _ added there => there.ahead ahead added) alongside'
  refine considered.imp_total ?_
  rintro _ s₁' ⟨fresh, rfl, considering, alongside'⟩
  refine (evaluateAll_outcome considering.sound sample ?_).imp_total ?_
  · rw [filterMap_map, Function.id_comp, filterMap_some]
    exact considering.proposed proposed
  · rintro vectors s₁' ⟨rfl, _, _⟩
    have evaluated : Alongside counted base₂
        { s₁' with statistics.evaluations := s₁'.statistics.evaluations + vectors.length } s₂ :=
      alongside'.aside rfl rfl rfl rfl rfl rfl (ahead.evaluations alongside'.statistics _)
    exact (registerAll_ahead ahead evaluated _ config.featureLimit).imp (fun _ _ => id)
      fun _ _ => Or.inr

theorem processRule_ahead (enabled : config.rules.isEnabled rule = true)
    (steady : s₁.Steady base₁ states config k
      (s₁.frontier.permitted base₁.vocabulary config k rule ++ todo))
    (alongside : Alongside counted base₂ s₁ s₂) (clock : Clock) :
    Outcome (processRule config clock k rule) s₁
      (fun _ s₁' => s₁'.Steady base₁ states config k todo ∧ s₁.Onward s₁' ∧
        (s₁'.Contributed rule ∨ Alongside counted base₂ s₁' s₂))
      (fun e s₁' => e = .timeLimit ∨ s₁'.Contributed rule) := by
  let invariant (s₁' : Session) : Prop := s₁'.Contributed rule ∨ Alongside counted base₂ s₁' s₂
  refine (processRule_steady_keeps sample invariant enabled steady ?_ (Or.inr alongside)).imp
    (fun _ _ => id) fun _ _ stop => stop.2
  rintro batch rest s₁' due (contributed | alongside')
  · exact (processBatch_contributed config clock rule batch contributed).imp (fun _ _ => Or.inl)
      fun _ _ => Or.inr
  · exact processBatch_ahead ahead sample due.steady due.proposed alongside' clock

end

/-! ## Pairs that may be spoiled -/

section
variable {α α' β β' : Type} {spoiled : Session → Prop}

/-- What is spoiled remains so. -/
def Lasting (spoiled : Session → Prop) (m : Search α) : Prop :=
  ∀ s, spoiled s → Outcome m s (fun _ s' => spoiled s') (fun _ s' => spoiled s')

theorem Lasting.run {m : Search α} (lasts : Lasting spoiled m) {s : Session} (start : spoiled s) :
    spoiled (m.run s).2 := by
  have outcome := lasts s start
  unfold Outcome at outcome
  revert outcome
  rcases m.run s with ⟨r, s'⟩
  cases r with
  | ok => exact id
  | error => exact id

theorem Lasting.bind {m : Search α} {f : α → Search β} (first : Lasting spoiled m)
    (next : ∀ a, Lasting spoiled (f a)) : Lasting spoiled (m >>= f) := by
  intro s start
  rw [Outcome.bind_iff]
  exact (first s start).imp_done fun a s' there => next a s' there

theorem Lasting.forM {f : α → Search PUnit} (each : ∀ a, Lasting spoiled (f a)) (items : List α) :
    Lasting spoiled (items.forM f) :=
  fun _ start => Outcome.forM_of_invariant (fun _ => spoiled) (fun a _ s there => each a s there)
    items start

/-- The searches are a pair, unless the first one ends spoiled. -/
def PairedUnless (spoiled : Session → Prop) (m₁ : Search α) (m₂ : Search β) (s₁ s₂ : Session)
    (done : α → β → Session → Session → Prop) (stopped : Session → Session → Prop) : Prop :=
  ¬ spoiled (m₁.run s₁).2 → Paired m₁ m₂ s₁ s₂ done stopped

namespace PairedUnless
variable {m₁ : Search α} {m₂ : Search β} {s₁ s₂ : Session}
  {done : α → β → Session → Session → Prop} {stopped : Session → Session → Prop}

theorem of_paired (paired : Paired m₁ m₂ s₁ s₂ done stopped) :
    PairedUnless spoiled m₁ m₂ s₁ s₂ done stopped :=
  fun _ => paired

theorem bind {f₁ : α → Search α'} {f₂ : β → Search β'}
    {after : α' → β' → Session → Session → Prop}
    (paired : PairedUnless spoiled m₁ m₂ s₁ s₂ done stopped)
    (lasts : ∀ a, Lasting spoiled (f₁ a))
    (next : ∀ a b s₁' s₂', done a b s₁' s₂' →
      PairedUnless spoiled (f₁ a) (f₂ b) s₁' s₂' after stopped) :
    PairedUnless spoiled (m₁ >>= f₁) (m₂ >>= f₂) s₁ s₂ after stopped := by
  intro clean
  rw [run_bind] at clean
  -- A search that was spoiled half way would end spoiled.
  have halfway : ¬ spoiled (m₁.run s₁).2 ∧
      Outcome m₁ s₁ (fun a s₁' => ¬ spoiled ((f₁ a).run s₁').2) fun _ _ => True := by
    unfold Outcome
    revert clean
    rcases m₁.run s₁ with ⟨r, s₁'⟩
    cases r with
    | ok a => exact fun clean => ⟨fun there => clean ((lasts a).run there), clean⟩
    | error e => exact fun clean => ⟨clean, trivial⟩
  refine ((paired halfway.1).and_left halfway.2).bind ?_
  rintro a b s₁' s₂' ⟨related, clean'⟩
  exact next a b s₁' s₂' related clean'

/-- The first search goes ahead alone. -/
theorem bind_left {f : α' → Search α} {m : Search α'} {ahead : α' → Session → Prop}
    (alone : Outcome m s₁ (fun a s₁' => spoiled s₁' ∨ ahead a s₁')
      fun e s₁' => e = .timeLimit ∨ spoiled s₁')
    (lasts : ∀ a, Lasting spoiled (f a))
    (next : ∀ a s₁', ahead a s₁' → PairedUnless spoiled (f a) m₂ s₁' s₂ done stopped) :
    PairedUnless spoiled (m >>= f) m₂ s₁ s₂ done stopped := by
  intro clean
  rw [run_bind] at clean
  have there : Outcome m s₁ (fun a s₁' => ahead a s₁' ∧ ¬ spoiled ((f a).run s₁').2)
      fun e _ => e = .timeLimit := by
    unfold Outcome at alone ⊢
    revert clean alone
    rcases m.run s₁ with ⟨r, s₁'⟩
    cases r with
    | ok a =>
      intro alone clean
      exact ⟨alone.resolve_left fun there => clean ((lasts a).run there), clean⟩
    | error e => exact fun alone clean => alone.resolve_right clean
  refine Paired.bind_left there ?_
  rintro a s₁' ⟨related, clean'⟩
  exact next a s₁' related clean'

theorem forM_range' {f₁ f₂ : Nat → Search PUnit} (lasts : ∀ k, Lasting spoiled (f₁ k))
    (invariant : Nat → Session → Session → Prop)
    (step : ∀ k s₁ s₂, invariant k s₁ s₂ →
      PairedUnless spoiled (f₁ k) (f₂ k) s₁ s₂ (fun _ _ s₁' s₂' => invariant (k + 1) s₁' s₂')
        stopped)
    (first count : Nat) (start : invariant first s₁ s₂) :
    PairedUnless spoiled ((List.range' first count).forM f₁) ((List.range' first count).forM f₂)
      s₁ s₂ (fun _ _ s₁' s₂' => invariant (first + count) s₁' s₂') stopped := by
  induction count generalizing s₁ s₂ first with
  | zero => exact of_paired (Paired.pure start)
  | succ count ih =>
    show PairedUnless spoiled (f₁ first >>= fun _ => (List.range' (first + 1) count).forM f₁)
      (f₂ first >>= fun _ => (List.range' (first + 1) count).forM f₂) s₁ s₂ _ stopped
    refine (step first s₁ s₂ start).bind (fun _ => .forM lasts _) fun _ _ _ _ next => ?_
    rw [Nat.add_comm count 1, ← Nat.add_assoc]
    exact ih (first + 1) next

end PairedUnless
end

/-! ## Rules and layers -/

theorem processRule_lasting (config : Config) (rules : RuleSet) (clock : Clock) (k : Nat)
    (rule : Rule) : Lasting (Spoiled config rules) (processRule config clock k rule) := by
  rintro s ⟨q, drops, contributed⟩
  have keeps : Outcome (processRule config clock k rule) s (fun _ => Contributed q)
      (fun _ => Contributed q) :=
    processRule_keeps (fun nodes _ there => processBatch_contributed config clock rule nodes there)
      k contributed
  exact keeps.imp (fun _ _ there => ⟨q, drops, there⟩) fun _ _ there => ⟨q, drops, there⟩

theorem closeLayer_lasting (config : Config) (rules : RuleSet) (k : Nat) :
    Lasting (Spoiled config rules) (closeLayer k) :=
  fun _ there => there

section
variable (tallied : Statistics.Tallied counted config rules)
include tallied

theorem closeLayer_paired
    (lockstep : Lockstep counted base₁ base₂ states config rules k [] [] s₁ s₂) :
    Paired (closeLayer k) (closeLayer k) s₁ s₂
      (fun _ _ s₁' s₂' => Lockstep counted base₁ base₂ states config rules (k + 1)
        (s₁'.frontier.layerAgenda base₁.vocabulary config (k + 1))
        (s₂'.frontier.layerAgenda base₂.vocabulary (config.withRules rules) (k + 1)) s₁' s₂')
      (Alongside counted base₂) := by
  obtain ⟨steady₁, steady₂, alongside⟩ := lockstep
  have closed : Paired (closeLayer k) (closeLayer k) s₁ s₂
      (fun _ _ s₁' s₂' => Alongside counted base₂ s₁' s₂') (Alongside counted base₂) :=
    Paired.modify (alongside.aside rfl rfl rfl rfl rfl rfl (tallied.layers alongside.statistics k))
  refine (closed.and (closeLayer_steady steady₁) (closeLayer_steady steady₂)).imp ?_
    fun _ _ stop => stop.1
  exact fun _ _ _ _ ⟨alongside', steady₁', steady₂'⟩ => ⟨steady₁', steady₂', alongside'⟩

variable (vocabulary : base₂.vocabulary = base₁.vocabulary)
  (sample : ∀ state ∈ states, state.Over base₁.vocabulary)
include vocabulary sample

/-- The second run skips the rules that it leaves out. -/
theorem processRules_paired (clock₁ clock₂ : Clock) {rest : List Rule}
    (enabled : ∀ rule ∈ rest, config.rules.isEnabled rule = true)
    (lockstep : Lockstep counted base₁ base₂ states config rules k
      (rest.flatMap (s₁.frontier.permitted base₁.vocabulary config k))
      ((rest.filter rules.isEnabled).flatMap (s₂.frontier.permitted base₂.vocabulary config k))
      s₁ s₂) :
    PairedUnless (Spoiled config rules) (rest.forM (processRule config clock₁ k))
      ((rest.filter rules.isEnabled).forM (processRule (config.withRules rules) clock₂ k)) s₁ s₂
      (fun _ _ s₁' s₂' => Lockstep counted base₁ base₂ states config rules k [] [] s₁' s₂')
      (Alongside counted base₂) := by
  induction rest generalizing s₁ s₂ with
  | nil => exact .of_paired (Paired.pure lockstep)
  | cons rule rest ih =>
    have here := enabled rule mem_cons_self
    have later : ∀ r ∈ rest, config.rules.isEnabled r = true := fun r member =>
      enabled r (mem_cons_of_mem _ member)
    have lasts : ∀ _ : PUnit, Lasting (Spoiled config rules)
        (rest.forM (processRule config clock₁ k)) := fun _ =>
      .forM (processRule_lasting config rules clock₁ k) rest
    cases on : rules.isEnabled rule with
    | true =>
      rw [filter_cons_of_pos on] at lockstep ⊢
      rw [flatMap_cons, flatMap_cons] at lockstep
      refine PairedUnless.bind (.of_paired (processRule_paired (tallied.shared rule on) vocabulary
        sample here on lockstep clock₁ clock₂)) lasts ?_
      rintro _ _ s₁' s₂' ⟨lockstep', onward₁, onward₂⟩
      rw [← onward₁.frontier, ← onward₂.frontier] at lockstep'
      exact ih later lockstep'
    | false =>
      have drops : config.Drops rules rule := ⟨here, on⟩
      rw [filter_cons_of_neg (by rw [on]; decide)] at lockstep ⊢
      rw [flatMap_cons] at lockstep
      obtain ⟨steady₁, steady₂, alongside⟩ := lockstep
      have alone : Outcome (processRule config clock₁ k rule) s₁
          (fun _ s₁' => Spoiled config rules s₁' ∨
            Lockstep counted base₁ base₂ states config rules k
              (rest.flatMap (s₁'.frontier.permitted base₁.vocabulary config k))
              ((rest.filter rules.isEnabled).flatMap
                (s₂.frontier.permitted base₂.vocabulary config k)) s₁' s₂)
          (fun e s₁' => e = .timeLimit ∨ Spoiled config rules s₁') := by
        refine (processRule_ahead (tallied.dropped rule drops) sample here steady₁ alongside
          clock₁).imp ?_ fun _ _ stop => stop.imp id fun there => ⟨rule, drops, there⟩
        rintro _ s₁' ⟨steady₁', onward, result⟩
        rw [← onward.frontier] at steady₁'
        exact result.imp (fun there => ⟨rule, drops, there⟩) fun alongside' =>
          ⟨steady₁', steady₂, alongside'⟩
      exact PairedUnless.bind_left alone lasts fun _ _ lockstep' => ih later lockstep'

/-- Whole runs go on together, unless a rule that the second one leaves out contributes to the
first. -/
theorem enumerate_paired_unless (wf₁ : base₁.WellFormed) (wf₂ : base₂.WellFormed)
    (inside : ∀ rule, rules.isEnabled rule = true → config.rules.isEnabled rule = true)
    (clock₁ clock₂ : Clock) :
    PairedUnless (Spoiled config rules) (enumerate config clock₁)
      (enumerate (config.withRules rules) clock₂) (Session.start base₁ states)
      (Session.start base₂ states) (fun _ _ s₁' s₂' => Alongside counted base₂ s₁' s₂')
      (Alongside counted base₂) := by
  have shared : (config.withRules rules).rules.enabled
      = config.rules.enabled.filter rules.isEnabled := by
    show Rule.all.filter rules.isEnabled = _
    rw [RuleSet.enabled, filter_filter]
    refine filter_congr fun rule _ => ?_
    cases on : rules.isEnabled rule with
    | true => rw [inside rule on, Bool.and_self]
    | false => rfl
  let invariant (k : Nat) (s₁ s₂ : Session) : Prop :=
    Lockstep counted base₁ base₂ states config rules k
      (s₁.frontier.layerAgenda base₁.vocabulary config k)
      (s₂.frontier.layerAgenda base₂.vocabulary (config.withRules rules) k) s₁ s₂
  have start : invariant 1 (Session.start base₁ states) (Session.start base₂ states) :=
    ⟨steady_start wf₁ states config, steady_start wf₂ states (config.withRules rules),
      .start tallied.zero base₁ base₂ states⟩
  have lasts : ∀ k, Lasting (Spoiled config rules) (do
      config.rules.enabled.forM (processRule config clock₁ k)
      closeLayer k) := fun k =>
    .bind (.forM (processRule_lasting config rules clock₁ k) _) fun _ =>
      closeLayer_lasting config rules k
  intro clean
  refine (PairedUnless.forM_range' lasts invariant ?_ 1 config.limits.max start clean).imp_done
    fun _ _ _ _ lockstep => lockstep.alongside
  intro k s₁ s₂ lockstep
  simp only [invariant, Frontier.layerAgenda, shared] at lockstep
  rw [shared]
  refine (processRules_paired tallied vocabulary sample clock₁ clock₂
    (fun rule member => (mem_filter.mp member).2) lockstep).bind
    (fun _ => closeLayer_lasting config rules k) ?_
  exact fun _ _ _ _ lockstep' => .of_paired (closeLayer_paired tallied lockstep')

omit tallied in
/-- Whole runs with one configuration take the same steps and count the same. -/
theorem enumerate_paired (wf₁ : base₁.WellFormed) (wf₂ : base₂.WellFormed) (config : Config)
    (clock₁ clock₂ : Clock) :
    Paired (enumerate config clock₁) (enumerate config clock₂) (Session.start base₁ states)
      (Session.start base₂ states) (fun _ _ s₁' s₂' => Alongside Eq base₂ s₁' s₂')
      (Alongside Eq base₂) := by
  refine enumerate_paired_unless (Statistics.tallied_eq config) vocabulary sample wf₁ wf₂
    (fun _ => id) clock₁ clock₂ ?_
  exact fun ⟨rule, drops, _⟩ => config.not_drops rule drops

end

end Search
end PlanFeatures
