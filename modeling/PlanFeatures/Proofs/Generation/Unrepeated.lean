import Mathlib.Data.List.Forall2
import PlanFeatures.Proofs.Generation.Deduplication
import PlanFeatures.Proofs.Generation.Steady

/-!
# Nothing is enumerated twice

A run considers a first part of its agenda, wherever it stops.  The agenda lists no
expression twice, so each candidate gets a handle of its own, none is known, and all are
evaluated.  The candidates of a layer have its complexity, and the features come in the
order of the layers.
-/

namespace PlanFeatures

namespace Session
variable {base : Store} {states : List State} {config : Config} {k : Nat} {s : Session}

theorem Traced.nodup_handles {done : List (Handle × Node)} {todo : List Node}
    (sound : s.Sound base states config k) (traced : s.Traced config done todo) :
    (done.map Prod.fst).Nodup := by
  have nodup := sound.nodup_agenda
  rw [← traced.agenda] at nodup
  have nodes : (done.map Prod.snd).Nodup := (List.nodup_append.mp nodup).1
  have listed : ∀ p ∈ done, p.2 ∈ s.agenda config := fun p member =>
    traced.agenda ▸ List.mem_append_left _ (List.mem_map_of_mem member)
  refine nodes.of_map.map_on fun p memberP q memberQ same => ?_
  have internedP := traced.interned p memberP
  rw [same] at internedP
  exact Prod.ext same
    (sound.eq_of_interned (listed p memberP) (listed q memberQ) internedP
      (traced.interned q memberQ))

theorem Sound.nodup_canonical (sound : s.Sound base states config k) :
    ((s.agenda config).map s.store.canonical).Nodup := by
  refine List.Nodup.map_on ?_ sound.nodup_agenda
  intro m memberM n memberN same
  have has := sound.has_of_agenda memberM
  have has' := sound.has_of_agenda memberN
  obtain ⟨t, treeM⟩ := sound.wellFormed.exists_node_tree has
  obtain ⟨u, treeN⟩ := sound.wellFormed.exists_node_tree has'
  obtain ⟨x, treeX, alikeX⟩ := s.store.alike_canonical treeM
  obtain ⟨y, treeY, alikeY⟩ := s.store.alike_canonical treeN
  rw [same] at treeX
  cases treeX.symm.trans treeY
  rcases sound.wellFormed.eq_or_swapped has has' treeM treeN (alikeX.symm.trans alikeY) with
    equal | ⟨op, a, b, commutative, rfl, rfl⟩
  · exact equal
  · exact absurd memberN (Frontier.swapped_not_mem_agenda sound.separate commutative memberM)

theorem Sound.complexity_of_interned (sound : s.Sound base states config k) {j : Nat}
    (positive : 0 < j) {rule : Rule} {node : Node}
    (member : node ∈ s.frontier.candidates s.store.vocabulary rule j) {h : Handle}
    (interned : s.store.Interned h node) : s.store.complexity? h = some j := by
  obtain ⟨t, u, tree, stands, alike⟩ := interned.tree
  have candidate := Frontier.candidate_of_mem sound.separate positive member
  rw [stands.complexity, alike.complexity_eq, sound.complexity_of_candidate candidate tree]

theorem Sound.features_ordered (sound : s.Sound base states config k) :
    (s.features.toList.map Feature.complexity).Pairwise (· ≤ ·) := by
  have counts : s.features.toList.map Feature.complexity
      = (s.features.toList.map Feature.handle).map s.store.complexity := by
    rw [List.map_map]
    refine List.map_congr_left fun f member => ?_
    exact (sound.emitted.counted f (Array.mem_toList_iff.mp member)).symm
  -- The features are the kept booleans and numericals, the latest last.
  rw [counts, sound.emitted.handles, List.map_reverse, List.pairwise_reverse, List.pairwise_map]
  refine List.Pairwise.filter _ ?_
  rw [List.pairwise_map]
  exact sound.layered.ordered

end Session

theorem after_rested (config : Config) (clock : Clock) {states : List State} {store : Store}
    (wf : store.WellFormed) (sample : ∀ s ∈ states, s.Over store.vocabulary) :
    (∃ k, (Session.after config clock states store).Sound store states config k) ∧
      ∃ todo, (Session.after config clock states store).Evaluated config todo := by
  have outcome := Search.enumerate_steady sample wf config clock
  unfold Session.after
  rcases run : (Search.enumerate config clock).run (.start store states) with ⟨result, s⟩
  cases result with
  | ok =>
    obtain ⟨todo, steady⟩ := outcome.ok run
    exact ⟨⟨_, steady.sound⟩, todo, steady.evaluated⟩
  | error e =>
    obtain ⟨halted, evaluated⟩ := outcome.error run
    exact ⟨halted.2, evaluated⟩

/-- What is true of the enumeration of a run, wherever it stops. -/
structure Generation.Unrepeated (config : Config) (s : Session) (g : Generation) : Prop where
  /-- The agenda lists no expression twice, in whatever order of operands. -/
  agenda : ((s.agenda config).map s.store.canonical).Nodup
  /-- The candidates are a first part of the agenda, and their handles are different. -/
  candidates : ∃ handles nodes, nodes <+: s.agenda config ∧
    List.Forall₂ s.store.Interned handles nodes ∧ handles.Nodup ∧
    (∀ i, s.representatives.seen.contains i = true ↔ ∃ h ∈ handles, h.index = i) ∧
    g.statistics.total.candidates = handles.length
  known : ∀ rule, (g.statistics.rule rule).known = 0
  evaluations : g.statistics.evaluations = g.statistics.total.candidates
  /-- A candidate of a layer has its complexity. -/
  complexities : ∀ k, 0 < k → ∀ rule, ∀ node ∈ s.frontier.candidates s.store.vocabulary rule k,
    ∀ h, s.store.Interned h node → s.store.complexity? h = some k
  features : (g.features.map Feature.complexity).Pairwise (· ≤ ·)

theorem Session.Sound.unrepeated {base : Store} {states : List State} {config : Config} {k : Nat}
    {s : Session} {todo : List Node} (sound : s.Sound base states config k)
    (evaluated : s.Evaluated config todo) (status : Status) :
    (s.finish status).Unrepeated config s := by
  obtain ⟨done, traced, count⟩ := evaluated
  constructor
  · exact sound.nodup_canonical
  · refine ⟨done.map Prod.fst, done.map Prod.snd, ⟨todo, traced.agenda⟩, ?_,
      traced.nodup_handles sound, fun i => ?_, ?_⟩
    · rw [List.forall₂_map_left_iff, List.forall₂_map_right_iff, List.forall₂_same]
      exact traced.interned
    · rw [traced.seen]
      simp
    · rw [List.length_map]
      exact traced.candidates
  · exact traced.unknown
  · exact count.trans traced.candidates.symm
  · intro j positive rule node member h interned
    exact sound.complexity_of_interned positive member interned
  · exact sound.features_ordered

/-- A run over a sample that is not refused enumerates nothing twice. -/
theorem enumeration_unrepeated {store : Store} {issued : List Handle}
    (reachable : store.Reachable issued) {config : Config} (valid : config.validate = .ok ())
    {states : List State} (accepted : checkSample store.vocabulary states = .ok ())
    (made : ∀ state ∈ states, state.problem.Made) (clock : Clock) :
    ∃ g, generate config clock states store
        = (.ok g, (Session.after config clock states store).store) ∧
      g.Unrepeated config (Session.after config clock states store) := by
  have wf := reachable.wellFormed
  obtain ⟨⟨k, sound⟩, todo, evaluated⟩ :=
    after_rested config clock wf (over_of_checkSample accepted made)
  obtain ⟨status, _, result⟩ := generate_finish config clock wf valid accepted made
  exact ⟨_, result, sound.unrepeated evaluated status⟩

/-- Eleven candidates are evaluated, seven are kept, four are duplicates, and none is known. -/
theorem enumeration_unrepeated_lamps :
    (generate Lamps.boolean Lamps.clock Lamps.states Lamps.store).1.toOption.map
        (fun g => (g.statistics.total, g.statistics.evaluations)) = some (⟨11, 7, 4, 0⟩, 11) ∧
      ∃ g, generate Lamps.boolean Lamps.clock Lamps.states Lamps.store
          = (.ok g, (Session.after Lamps.boolean Lamps.clock Lamps.states Lamps.store).store) ∧
        g.Unrepeated Lamps.boolean
          (Session.after Lamps.boolean Lamps.clock Lamps.states Lamps.store) :=
  ⟨by decide +kernel, enumeration_unrepeated Lamps.store_reachable (by decide +kernel)
    (by decide +kernel) Lamps.states_made Lamps.clock⟩

end PlanFeatures
