import PlanFeatures.Proofs.Generation.Batching

/-!
# Rules that contribute nothing

The candidates of a rule may all be duplicates.  Then the rule can be switched off: a run
without it gives the same features in the same order, ends in the same way after the same
layers, and counts the same for the other rules.  So can several such rules at once.
-/

namespace PlanFeatures

open List

/-! ## Counts of other rules -/

/-- The counts agree for the rules that are not left out, and so do the layers. -/
structure Statistics.AgreeBut (config : Config) (rules : RuleSet) (t u : Statistics) : Prop where
  counts : ∀ rule, ¬ config.Drops rules rule → t.rule rule = u.rule rule
  layers : t.layers = u.layers

theorem Statistics.tallied_agreeBut (config : Config) (rules : RuleSet) :
    Tallied (AgreeBut config rules) config rules where
  zero := ⟨fun _ _ => rfl, rfl⟩
  shared rule on := {
    counts := by
      intro t u agree f
      refine ⟨fun q others => ?_, agree.layers⟩
      have here : t.rule rule = u.rule rule := agree.counts rule fun drops => by
        have both := on.symm.trans drops.off
        cases both
      rw [rule_modifyRule, rule_modifyRule, here, agree.counts q others]
    evaluations := fun agree _ => ⟨agree.counts, agree.layers⟩ }
  dropped rule drops := {
    counts := by
      intro t u agree f
      refine ⟨fun q others => ?_, agree.layers⟩
      have other : rule ≠ q := by
        rintro rfl
        exact others drops
      rw [rule_modifyRule, if_neg other, agree.counts q others]
    evaluations := fun agree _ => ⟨agree.counts, agree.layers⟩ }
  layers agree _ := ⟨agree.counts, rfl⟩

/-! ## Runs without rules -/

/-- A run gave what an earlier one gave that had more rules. -/
structure Generation.SameBut (config : Config) (rules : RuleSet) (store₁ store₂ : Store)
    (g₁ g₂ : Generation) : Prop where
  status : g₁.status = g₂.status
  features : Forall₂ (Feature.Same store₁ store₂) g₁.features g₂.features
  statistics : g₁.statistics.AgreeBut config rules g₂.statistics

namespace Session
variable {base₁ base₂ : Store} {states : List State} {config : Config} {rules : RuleSet}
  {k₁ k₂ : Nat} {s s₁ s₂ : Session}

theorem not_spoiled {status : Status}
    (idle : ∀ rule, config.Drops rules rule →
      ((s.finish status).statistics.rule rule).kept = 0) : ¬ s.Spoiled config rules := by
  rintro ⟨rule, drops, contributed⟩
  exact Nat.ne_of_gt contributed (idle rule drops)

theorem Alongside.sameBut (alongside : Alongside (Statistics.AgreeBut config rules) base₂ s₁ s₂)
    (sound₁ : s₁.Sound base₁ states config k₁)
    (sound₂ : s₂.Sound base₂ states (config.withRules rules) k₂)
    (vocabulary : base₂.vocabulary = base₁.vocabulary) (status : Status) :
    (s₁.finish status).SameBut config rules s₁.store s₂.store (s₂.finish status) where
  status := rfl
  features := alongside.features_same sound₁ sound₂ vocabulary
  statistics := ⟨alongside.statistics.counts, alongside.statistics.layers⟩

end Session

/-- Rules that contribute nothing to a run can be left out. -/
theorem generate_withRules {store : Store} (wf : store.WellFormed) {config : Config}
    (valid : config.validate = .ok ()) {states : List State}
    (accepted : checkSample store.vocabulary states = .ok ())
    (made : ∀ state ∈ states, state.problem.Made) {rules : RuleSet}
    (inside : ∀ rule, rules.isEnabled rule = true → config.rules.isEnabled rule = true)
    (clock₁ clock₂ : Clock) :
    ∃ g₁ g₂ store₁ store₂, generate config clock₁ states store = (.ok g₁, store₁) ∧
      generate (config.withRules rules) clock₂ states store = (.ok g₂, store₂) ∧
      ((∀ n, clock₁ n = false) → g₁.status ≠ .timeLimitReached) ∧
      ((∀ n, clock₂ n = false) → g₂.status ≠ .timeLimitReached) ∧
      (g₁.status ≠ .timeLimitReached → g₂.status ≠ .timeLimitReached →
        (∀ rule, config.Drops rules rule → (g₁.statistics.rule rule).kept = 0) →
          g₁.SameBut config rules store₁ store₂ g₂) := by
  have sample := over_of_checkSample accepted made
  have valid₂ : (config.withRules rules).validate = .ok () := valid
  obtain ⟨status₁, ended₁, result₁⟩ := generate_finish config clock₁ wf valid accepted made
  obtain ⟨status₂, ended₂, result₂⟩ :=
    generate_finish (config.withRules rules) clock₂ wf valid₂ accepted made
  refine ⟨_, _, _, _, result₁, result₂, fun never => inTime_of_idle never ended₁,
    fun never => inTime_of_idle never ended₂, ?_⟩
  intro live₁ live₂ idle
  have tallied := Statistics.tallied_agreeBut config rules
  have paired := Search.enumerate_paired_unless tallied rfl sample wf wf inside clock₁ clock₂
    (Session.not_spoiled idle)
  obtain ⟨rfl, alongside⟩ := paired.of_status ended₁ ended₂ live₁ live₂
  obtain ⟨_, sound₁⟩ := after_sound config clock₁ wf sample
  obtain ⟨_, sound₂⟩ := after_sound (config.withRules rules) clock₂ wf sample
  exact Session.Alongside.sameBut alongside sound₁ sound₂ rfl status₁

/-- If a rule kept nothing in a run whose time was not up, the run without the rule gives the
same features but for their handles, in the same order, ends in the same way after the same
layers, and counts the same for every other rule. -/
theorem generation_without_idle_rule {store : Store} {issued : List Handle}
    (reachable : store.Reachable issued) {config : Config} (valid : config.validate = .ok ())
    {states : List State} (accepted : checkSample store.vocabulary states = .ok ())
    (made : ∀ state ∈ states, state.problem.Made) (clock₁ clock₂ : Clock) (q : Rule) :
    ∃ g₁ g₂ store₁ store₂, generate config clock₁ states store = (.ok g₁, store₁) ∧
      generate (config.withRules (config.rules.setEnabled q false)) clock₂ states store
        = (.ok g₂, store₂) ∧
      ((∀ n, clock₁ n = false) → g₁.status ≠ .timeLimitReached) ∧
      ((∀ n, clock₂ n = false) → g₂.status ≠ .timeLimitReached) ∧
      (g₁.status ≠ .timeLimitReached → g₂.status ≠ .timeLimitReached →
        (g₁.statistics.rule q).kept = 0 →
          g₁.status = g₂.status ∧ g₁.statistics.layers = g₂.statistics.layers ∧
            Forall₂ (Feature.Same store₁ store₂) g₁.features g₂.features ∧
            ∀ rule, rule ≠ q → g₁.statistics.rule rule = g₂.statistics.rule rule) := by
  have inside : ∀ rule, (config.rules.setEnabled q false).isEnabled rule = true →
      config.rules.isEnabled rule = true := by
    intro rule on
    rw [RuleSet.isEnabled_setEnabled] at on
    split at on
    · cases on
    · exact on
  have only : ∀ rule, config.Drops (config.rules.setEnabled q false) rule → rule = q := by
    rintro rule ⟨on, off⟩
    by_contra other
    rw [RuleSet.isEnabled_setEnabled, if_neg (Ne.symm other), on] at off
    cases off
  obtain ⟨g₁, g₂, store₁, store₂, result₁, result₂, inTime₁, inTime₂, same⟩ :=
    generate_withRules reachable.wellFormed valid accepted made inside clock₁ clock₂
  refine ⟨g₁, g₂, store₁, store₂, result₁, result₂, inTime₁, inTime₂, ?_⟩
  intro live₁ live₂ idle
  obtain ⟨status, features, counts, layers⟩ := same live₁ live₂ fun rule drops =>
    only rule drops ▸ idle
  exact ⟨status, layers, features, fun rule other => counts rule fun drops =>
    other (only rule drops)⟩

/-- The one intersection of concepts is a duplicate.  Without intersections the last feature has
another handle. -/
theorem generation_without_idle_rule_lamps :
    ∃ g₁ g₂ store₁ store₂,
      generate Lamps.boolean Lamps.clock Lamps.states Lamps.store = (.ok g₁, store₁) ∧
        generate (Lamps.boolean.withRules (Lamps.boolean.rules.setEnabled .conceptAnd false))
          Lamps.clock Lamps.states Lamps.store = (.ok g₂, store₂) ∧
        g₁.statistics.rule .conceptAnd = ⟨1, 0, 1, 0⟩ ∧
        g₁.features.map Feature.handle = [⟨.boolean, 5⟩, ⟨.boolean, 6⟩, ⟨.boolean, 11⟩] ∧
        g₂.features.map Feature.handle = [⟨.boolean, 5⟩, ⟨.boolean, 6⟩, ⟨.boolean, 10⟩] ∧
        g₁.status = g₂.status ∧ Forall₂ (Feature.Same store₁ store₂) g₁.features g₂.features ∧
        g₁.statistics.rule .conceptNot = g₂.statistics.rule .conceptNot := by
  have some₁ : (generate Lamps.boolean Lamps.clock Lamps.states Lamps.store).1.toOption.map
      (fun g => (g.statistics.rule .conceptAnd, g.features.map Feature.handle))
        = some (⟨1, 0, 1, 0⟩, [⟨.boolean, 5⟩, ⟨.boolean, 6⟩, ⟨.boolean, 11⟩]) := by
    decide +kernel
  have some₂ : (generate
      (Lamps.boolean.withRules (Lamps.boolean.rules.setEnabled .conceptAnd false)) Lamps.clock
      Lamps.states Lamps.store).1.toOption.map (fun g => g.features.map Feature.handle)
        = some [⟨.boolean, 5⟩, ⟨.boolean, 6⟩, ⟨.boolean, 10⟩] := by
    decide +kernel
  have valid : Lamps.boolean.validate = .ok () := by decide +kernel
  obtain ⟨g₁, g₂, store₁, store₂, run₁, run₂, inTime₁, inTime₂, same⟩ :=
    generation_without_idle_rule Lamps.store_reachable valid (by decide +kernel)
      Lamps.states_made Lamps.clock Lamps.clock .conceptAnd
  rw [run₁] at some₁
  rw [run₂] at some₂
  obtain ⟨counts, handles₁⟩ := Prod.mk.inj (Option.some.inj some₁)
  obtain ⟨status, _, features, others⟩ := same (inTime₁ fun _ => rfl) (inTime₂ fun _ => rfl)
    (by rw [counts])
  exact ⟨g₁, g₂, store₁, store₂, run₁, run₂, counts, handles₁, Option.some.inj some₂, status,
    features, others .conceptNot (by decide)⟩

end PlanFeatures
