import PlanFeatures.Proofs.Generation.Steps

/-!
# Batches, rules and layers

A batch adds all its candidates to the store before it registers the first of them.
In between, what has been considered is either logged or pending.  When the batch is
done nothing is pending, so all its candidates are represented; and so are those of
a rule when its batches are done, of a layer when its rules are, and of a run that
comes to its end.
-/

namespace PlanFeatures

namespace Session
variable {base : Store} {states : List State} {config : Config} {k : Nat} {s s' : Session}

/-- The nodes have been added to the store and considered. -/
def Admits (s : Session) (node : Node) : Prop :=
  ∃ h, s.store.Interned h node ∧ s.representatives.seen.contains h.index = true

theorem Admits.onward {node : Node} (admits : s.Admits node) (onward : s.Onward s') :
    s'.Admits node := by
  obtain ⟨h, interned, seen⟩ := admits
  exact ⟨h, interned.extends onward.store, onward.seen seen⟩

theorem Sound.covers_of_admits (sound : s.Sound base states config k)
    (sample : ∀ state ∈ states, state.Over base.vocabulary) (settled : s.Settled []) {node : Node}
    (admits : s.Admits node) : s.Covers states node := by
  obtain ⟨h, interned, seen⟩ := admits
  rcases settled _ seen with ⟨g, registration, member, same⟩ | ⟨p, impossible, _⟩
  · obtain ⟨vector, _, denotes, _⟩ := sound.logged.represented member
    cases denotes.has.eq_of_index interned.has same
    exact sound.covers_of_logged sample interned member
  · cases impossible

/-- A candidate over the operands at hand, of a rule that is on and within its limit. -/
structure Proposed (base : Store) (config : Config) (k : Nat) (f : Frontier) (node : Node) :
    Prop where
  candidate : f.Candidate base.vocabulary node.rule k node
  enabled : config.rules.isEnabled node.rule = true
  within : k ≤ config.limits.forRule node.rule

/-- The operands stay the same, and so does what can be built from them. -/
theorem Onward.proposed (onward : s.Onward s') {node : Node}
    (proposed : Proposed base config k s.frontier node) :
    Proposed base config k s'.frontier node :=
  onward.frontier ▸ proposed

theorem Sound.has_operands (sound : s.Sound base states config k) {node : Node}
    (proposed : Proposed base config k s.frontier node) : ∀ g ∈ node.operands, s.store.Has g := by
  intro g operand
  obtain ⟨_, kept⟩ := sound.operand_kept proposed.candidate g operand
  exact sound.has_kept kept

end Session

namespace Search
open Session
variable {base : Store} {states : List State} {config : Config} {k : Nat} {s : Session}

/-! ## Batches -/

/-- What has become of a run when candidates have been considered: those that are new
are pending. -/
structure ConsideredAll (base : Store) (states : List State) (config : Config) (k : Nat)
    (batch : List Node) (s : Session) (results : List (Option (Handle × Node))) (s' : Session) :
    Prop where
  sound : s'.Sound base states config k
  onward : s.Onward s'
  settled : s'.Settled (results.filterMap id)
  fresh : ∀ p ∈ results.filterMap id, p.2 ∈ batch ∧ s'.store.Interned p.1 p.2
  admitted : ∀ node ∈ batch, s'.Admits node

theorem considerAll_outcome (sound : s.Sound base states config k) (settled : s.Settled [])
    {batch : List Node} (proposed : ∀ node ∈ batch, Proposed base config k s.frontier node)
    (rule : Rule) :
    Outcome (batch.mapM (consider rule)) s (ConsideredAll base states config k batch s)
      (fun _ _ => False) := by
  -- The candidates that are left, the results so far and the run after them.
  let invariant (rest : List Node) (results : List (Option (Handle × Node))) (s' : Session) :
      Prop :=
    s'.Sound base states config k ∧ s.Onward s' ∧ s'.Settled (results.filterMap id) ∧
      (∀ p ∈ results.filterMap id, p.2 ∈ batch ∧ s'.store.Interned p.1 p.2) ∧
      (∀ node ∈ rest, node ∈ batch) ∧ ∀ node ∈ batch, node ∈ rest ∨ s'.Admits node
  have start : invariant batch [] s := by
    refine ⟨sound, .refl s, settled, ?_, fun _ member => member, fun _ member => Or.inl member⟩
    intro p waiting
    cases waiting
  refine (Outcome.mapM_of_invariant invariant ?_ batch [] start).imp_done ?_
  · rintro node rest results s₁ ⟨sound₁, onward₁, settled₁, fresh₁, inside, admitted₁⟩
    have member := inside node List.mem_cons_self
    have proposed₁ := onward₁.proposed (proposed node member)
    refine (consider_outcome sound₁ (sound₁.has_operands proposed₁) proposed₁.candidate.declared
      rule).imp_done ?_
    rintro result s₂ ⟨sound₂, onward₂, log, h, interned, seen, shape, grown⟩
    have pending : (results ++ [result]).filterMap id
        = results.filterMap id ++ [result].filterMap id := List.filterMap_append
    refine ⟨sound₂, onward₁.trans onward₂, ?_, ?_,
      fun n left => inside n (List.mem_cons_of_mem _ left), ?_⟩
    · intro i contained
      rw [pending, log]
      rcases grown i contained with before | ⟨rfl, rfl⟩
      · rcases settled₁ i before with logged | ⟨p, waiting, same⟩
        · exact Or.inl logged
        · exact Or.inr ⟨p, List.mem_append_left _ waiting, same⟩
      · exact Or.inr ⟨(h, node), List.mem_append_right _ List.mem_cons_self, rfl⟩
    · intro p waiting
      rw [pending] at waiting
      rcases List.mem_append.mp waiting with before | new
      · exact ⟨(fresh₁ p before).1, (fresh₁ p before).2.extends onward₂.store⟩
      · rcases shape with rfl | rfl
        · rw [List.mem_singleton.mp new]
          exact ⟨member, interned⟩
        · cases new
    · intro other inBatch
      rcases admitted₁ other inBatch with left | admits
      · rcases List.mem_cons.mp left with rfl | left
        · exact Or.inr ⟨h, interned, seen⟩
        · exact Or.inl left
      · exact Or.inr (admits.onward onward₂)
  · rintro results s' ⟨sound', onward, settled', fresh, _, admitted⟩
    exact ⟨sound', onward, settled', fresh, fun node member =>
      (admitted node member).resolve_left List.not_mem_nil⟩

theorem evaluateAll_outcome (sound : s.Sound base states config k)
    (sample : ∀ state ∈ states, state.Over base.vocabulary) {fresh : List (Handle × Node)}
    (proposed : ∀ p ∈ fresh, Proposed base config k s.frontier p.2 ∧ s.store.Interned p.1 p.2) :
    Outcome (fresh.mapM fun (_, node) => evaluate node) s
      (fun vectors s' => s' = s ∧ vectors.length = fresh.length ∧
        ∀ q ∈ fresh.zip vectors, Ready states config k s.store q.1.1 q.2)
      (fun _ _ => False) := by
  -- The vectors so far belong to the first candidates, and the run is as it was.
  let invariant (rest : List (Handle × Node)) (vectors : List ExtensionVector) (s' : Session) :
      Prop :=
    s' = s ∧ ∃ done, fresh = done ++ rest ∧ vectors.length = done.length ∧
      ∀ q ∈ done.zip vectors, Ready states config k s.store q.1.1 q.2
  have start : invariant fresh [] s := by
    refine ⟨rfl, [], rfl, rfl, ?_⟩
    intro q place
    cases place
  refine (Outcome.mapM_of_invariant invariant ?_ fresh [] start).imp_done ?_
  · rintro ⟨h, node⟩ rest vectors s₁ ⟨rfl, done, split, length, ready⟩
    have member : (h, node) ∈ fresh := by
      rw [split]
      exact List.mem_append_right _ List.mem_cons_self
    obtain ⟨⟨candidate, enabled, within⟩, interned⟩ := proposed _ member
    obtain ⟨vector, computed, here⟩ := sound.ready sample candidate enabled within interned
    simp only [evaluate, vectorOf, Outcome.bind_iff, Outcome.get_iff, computed, Outcome.pure_iff]
    refine ⟨rfl, done ++ [(h, node)], by rw [split, List.append_cons], by simp [length], ?_⟩
    intro q place
    rw [List.zip_append length.symm] at place
    rcases List.mem_append.mp place with before | last
    · exact ready q before
    · rw [List.mem_singleton.mp last]
      exact here
  · rintro vectors s' ⟨rfl, done, split, length, ready⟩
    rw [List.append_nil] at split
    subst split
    exact ⟨rfl, length, ready⟩

theorem registerAll_outcome (sound : s.Sound base states config k)
    {items : List ((Handle × Node) × ExtensionVector)} (settled : s.Settled (items.map Prod.fst))
    (ready : ∀ q ∈ items, Ready states config k s.store q.1.1 q.2) (featureLimit : Nat)
    (rule : Rule) :
    Outcome (items.forM fun q => register featureLimit rule q.1.1 q.2) s
      (fun _ s' => s'.Sound base states config k ∧ s.Onward s' ∧ s'.Settled [])
      (Halted base states config) := by
  -- What is left is pending; the store does not change, so it stays ready.
  let invariant (rest : List ((Handle × Node) × ExtensionVector)) (s' : Session) : Prop :=
    s'.Sound base states config k ∧ s.Onward s' ∧ s'.store = s.store ∧
      s'.Settled (rest.map Prod.fst) ∧ ∀ q ∈ rest, q ∈ items
  have start : invariant items s := ⟨sound, .refl s, rfl, settled, fun _ member => member⟩
  refine (Outcome.forM_of_invariant invariant ?_ items start).imp_done ?_
  · rintro ⟨⟨h, node⟩, vector⟩ rest s₁ ⟨sound₁, onward₁, store₁, settled₁, inside⟩
    have here := ready _ (inside _ List.mem_cons_self)
    rw [← store₁] at here
    refine (register_outcome sound₁ here featureLimit rule).imp_done ?_
    rintro _ s₂ registered
    refine ⟨registered.sound, onward₁.trans registered.onward, registered.store.trans store₁, ?_,
      fun q member => inside q (List.mem_cons_of_mem _ member)⟩
    intro i seen
    rw [registered.seen] at seen
    rcases settled₁ i seen with ⟨g, registration, member, same⟩ | ⟨p, waiting, same⟩
    · exact Or.inl ⟨g, registration, registered.log member, same⟩
    · rcases List.mem_cons.mp waiting with rfl | waiting
      · obtain ⟨registration, member⟩ := registered.logged
        exact Or.inl ⟨h, registration, member, same⟩
      · exact Or.inr ⟨p, waiting, same⟩
  · rintro _ s' ⟨sound', onward, _, settled', _⟩
    exact ⟨sound', onward, settled'⟩

theorem processBatch_outcome (sound : s.Sound base states config k) (settled : s.Settled [])
    (sample : ∀ state ∈ states, state.Over base.vocabulary) {batch : List Node}
    (proposed : ∀ node ∈ batch, Proposed base config k s.frontier node) (clock : Clock)
    (rule : Rule) :
    Outcome (processBatch config clock rule batch) s
      (fun _ s' => s'.Sound base states config k ∧ s.Onward s' ∧ s'.Settled [] ∧
        ∀ node ∈ batch, s'.Covers states node)
      (Halted base states config) := by
  simp only [processBatch_eq, Outcome.bind_iff, Outcome.modify_iff]
  refine (checkClock_outcome sound clock).imp_done ?_
  rintro _ s₁ ⟨sound₁, onward₁, log₁, same₁⟩
  have settled₁ : s₁.Settled [] := by
    intro i seen
    rw [same₁] at seen
    rw [log₁]
    exact settled i seen
  have proposed₁ := fun node member => onward₁.proposed (proposed node member)
  refine (considerAll_outcome sound₁ settled₁ proposed₁ rule).imp_total ?_
  rintro results s₂ ⟨sound₂, onward₂, settled₂, fresh, admitted⟩
  have ready : ∀ p ∈ results.filterMap id,
      Proposed base config k s₂.frontier p.2 ∧ s₂.store.Interned p.1 p.2 := fun p member =>
    ⟨onward₂.proposed (proposed₁ _ (fresh p member).1), (fresh p member).2⟩
  refine (evaluateAll_outcome sound₂ sample ready).imp_total ?_
  rintro vectors s₂ ⟨rfl, length, ready⟩
  have items : ((results.filterMap id).zip vectors).map Prod.fst = results.filterMap id :=
    List.map_fst_zip (Nat.le_of_eq length.symm)
  have evaluated := sound₂.aside
    { s₂.statistics with evaluations := s₂.statistics.evaluations + vectors.length } s₂.looks
  have registered :=
    registerAll_outcome evaluated (items.symm ▸ settled₂) ready config.featureLimit rule
  refine registered.imp_done ?_
  rintro _ s₃ ⟨sound₃, onward₃, settled₃⟩
  have onward : s₂.Onward s₃ := ⟨onward₃.store, onward₃.frontier, onward₃.kept, onward₃.seen⟩
  exact ⟨sound₃, (onward₁.trans onward₂).trans onward, settled₃, fun node member =>
    sound₃.covers_of_admits sample settled₃ ((admitted node member).onward onward)⟩

end Search
end PlanFeatures
