import PlanFeatures.Proofs.Generation.Layers
import PlanFeatures.Proofs.Generation.Machines
import PlanFeatures.Proofs.Store.Building

/-!
# The invariant of a run

At every point of layer `k`, what a run knows fits together: the store is well
formed, the representatives are told apart by their vectors, the layers list the
kept concepts and roles and the features the other kept expressions, and the log
tells the truth.  Every kept expression is allowed by the configuration and has
distinct operands.  Each part of the invariant is about few components of a run, and
is carried separately through the growth of the store.
-/

namespace PlanFeatures

/-! ## Features -/

/-- The features are the kept booleans and numericals, in the order in which they were
kept. -/
structure Emitted (store : Store) (kept : List (Handle × ExtensionVector))
    (features : Array Feature) : Prop where
  handles : features.toList.map Feature.handle
    = ((kept.map Prod.fst).filter fun h => h.kind.isFeature).reverse
  counted : ∀ feature ∈ features, store.complexity feature.handle = feature.complexity

namespace Emitted
variable {store store' : Store} {kept : List (Handle × ExtensionVector)} {features : Array Feature}

theorem start (store : Store) : Emitted store [] #[] :=
  ⟨rfl, fun _ member => by simp at member⟩

theorem mem (emitted : Emitted store kept features) {h : Handle} :
    (∃ feature ∈ features, feature.handle = h)
      ↔ h.kind.isFeature = true ∧ ∃ vector, (h, vector) ∈ kept := by
  have same := congrArg (h ∈ ·) emitted.handles
  simp only [List.mem_map, Array.mem_toList_iff, List.mem_reverse, List.mem_filter, Prod.exists,
    exists_and_right, exists_eq_right] at same
  rw [eq_iff_iff] at same
  exact same.trans And.comm

theorem congr (emitted : Emitted store kept features)
    (same : ∀ {h vector}, (h, vector) ∈ kept → store'.complexity h = store.complexity h) :
    Emitted store' kept features where
  handles := emitted.handles
  counted feature member := by
    obtain ⟨_, vector, inside⟩ := emitted.mem.mp ⟨feature, member, rfl⟩
    rw [same inside]
    exact emitted.counted feature member

theorem keep_operand (emitted : Emitted store kept features) {h : Handle} (vector : ExtensionVector)
    (operand : h.kind.isFeature = false) : Emitted store ((h, vector) :: kept) features where
  handles := by simp [emitted.handles, operand]
  counted := emitted.counted

theorem keep_feature (emitted : Emitted store kept features) (vector : ExtensionVector)
    (feature : Feature) (kind : feature.handle.kind.isFeature = true)
    (complexity : store.complexity feature.handle = feature.complexity) :
    Emitted store ((feature.handle, vector) :: kept) (features.push feature) where
  handles := by simp [emitted.handles, kind]
  counted other member := by
    rcases Array.mem_push.mp member with old | rfl
    · exact emitted.counted other old
    · exact complexity

end Emitted

/-! ## The log -/

/-- A log, the latest first, in which every kept expression has a vector that no
earlier one of its kind has, and every duplicate names the kept one that has its
vector. -/
inductive History (store : Store) (states : List State) : List (Handle × Registration) → Prop where
  | start : History store states []
  | kept {log : List (Handle × Registration)} {h : Handle} {vector : ExtensionVector}
      (past : History store states log) (denotes : store.Denotes states h vector)
      (first : ∀ g registration, (g, registration) ∈ log → g.kind = h.kind →
        ∃ other, store.Denotes states g other ∧ other ≠ vector) :
      History store states ((h, .kept) :: log)
  | duplicate {log : List (Handle × Registration)} {h g : Handle} {vector : ExtensionVector}
      (past : History store states log) (denotes : store.Denotes states h vector)
      (same : store.Denotes states g vector) (kind : g.kind = h.kind)
      (complexity : store.complexity g ≤ store.complexity h) (earlier : (g, .kept) ∈ log) :
      History store states ((h, .duplicate g) :: log)

/-- What the log says of the kept expressions: they are logged as kept, and every
logged expression is represented by one of them that is not more complex. -/
structure Logged (store : Store) (states : List State) (kept : List (Handle × ExtensionVector))
    (log : List (Handle × Registration)) : Prop where
  history : History store states log
  represented : ∀ {h registration}, (h, registration) ∈ log →
    ∃ vector g, store.Denotes states h vector ∧ (g, vector) ∈ kept ∧ g.kind = h.kind ∧
      store.complexity g ≤ store.complexity h
  kept : ∀ {h vector}, (h, vector) ∈ kept → (h, .kept) ∈ log

section
variable {store store' : Store} {states : List State} {kept : List (Handle × ExtensionVector)}
  {log : List (Handle × Registration)}

theorem History.extends (history : History store states log) (wf : store.WellFormed)
    (later : store.Later store') : History store' states log := by
  induction history with
  | start => exact .start
  | kept past denotes first ih =>
    refine .kept ih (denotes.extends later.grown) fun g registration member kind => ?_
    obtain ⟨other, denotesG, differ⟩ := first g registration member kind
    exact ⟨other, denotesG.extends later.grown, differ⟩
  | duplicate past denotes same kind complexity earlier ih =>
    refine .duplicate ih (denotes.extends later.grown) (same.extends later.grown) kind ?_ earlier
    rw [later.grown.complexity wf denotes.has, later.grown.complexity wf same.has]
    exact complexity

theorem Logged.extends (logged : Logged store states kept log) (wf : store.WellFormed)
    (later : store.Later store')
    (denotes : ∀ {h vector}, (h, vector) ∈ kept → store.Denotes states h vector) :
    Logged store' states kept log where
  history := logged.history.extends wf later
  represented member := by
    obtain ⟨vector, g, denotesH, inside, kind, complexity⟩ := logged.represented member
    refine ⟨vector, g, denotesH.extends later.grown, inside, kind, ?_⟩
    rw [later.grown.complexity wf denotesH.has, later.grown.complexity wf (denotes inside).has]
    exact complexity
  kept := logged.kept

theorem Logged.duplicate (logged : Logged store states kept log) {h g : Handle}
    {vector : ExtensionVector} (denotes : store.Denotes states h vector)
    (same : store.Denotes states g vector) (inside : (g, vector) ∈ kept) (kind : g.kind = h.kind)
    (complexity : store.complexity g ≤ store.complexity h) :
    Logged store states kept ((h, .duplicate g) :: log) where
  history := .duplicate logged.history denotes same kind complexity (logged.kept inside)
  represented member := by
    rcases List.mem_cons.mp member with new | old
    · cases new
      exact ⟨vector, g, denotes, inside, kind, complexity⟩
    · exact logged.represented old
  kept member := List.mem_cons_of_mem _ (logged.kept member)

theorem Logged.keep (logged : Logged store states kept log) {h : Handle} {vector : ExtensionVector}
    (denotes : store.Denotes states h vector)
    (fresh : ∀ g, (g, vector) ∈ kept → g.kind ≠ h.kind) :
    Logged store states ((h, vector) :: kept) ((h, .kept) :: log) where
  history := by
    refine .kept logged.history denotes fun g registration member kind => ?_
    -- Had an earlier one the vector, its representative would have been found.
    obtain ⟨other, r, denotesG, inside, kindR, _⟩ := logged.represented member
    refine ⟨other, denotesG, ?_⟩
    rintro rfl
    exact fresh r inside (kindR.trans kind)
  represented member := by
    rcases List.mem_cons.mp member with new | old
    · cases new
      exact ⟨vector, h, denotes, List.mem_cons_self, rfl, Nat.le_refl _⟩
    · obtain ⟨w, g, denotesG, inside, rest⟩ := logged.represented old
      exact ⟨w, g, denotesG, List.mem_cons_of_mem _ inside, rest⟩
  kept member := by
    rcases List.mem_cons.mp member with new | old
    · cases new; exact List.mem_cons_self
    · exact List.mem_cons_of_mem _ (logged.kept old)

end

namespace Session
variable {base : Store} {states : List State} {config : Config} {k : Nat} {s s' : Session}

/-- What a run knows in layer `k`, when it started from a store and goes over a sample. -/
structure Sound (base : Store) (states : List State) (config : Config) (k : Nat) (s : Session) :
    Prop where
  later : base.Later s.store
  representatives : s.representatives.Sound s.store states
  allowed : ∀ {h vector t}, (h, vector) ∈ s.representatives.kept → s.store.tree? h = some t →
    t.Admitted base.vocabulary config states
  layered : Layered s.store s.representatives.kept k s.frontier s.layer
  emitted : Emitted s.store s.representatives.kept s.features
  logged : Logged s.store states s.representatives.kept s.log

theorem sound_start (wf : base.WellFormed) (states : List State) (config : Config) :
    (start base states).Sound base states config 1 where
  later := wf.later
  representatives := Representatives.sound_new base states
  allowed member := absurd member List.not_mem_nil
  layered := Layered.start base
  emitted := Emitted.start base
  logged := {
    history := .start
    represented := fun member => absurd member List.not_mem_nil
    kept := fun member => absurd member List.not_mem_nil }

theorem Sound.wellFormed (sound : s.Sound base states config k) : s.store.WellFormed :=
  sound.later.wellFormed

theorem Sound.vocabulary (sound : s.Sound base states config k) :
    s.store.vocabulary = base.vocabulary :=
  sound.later.grown.vocabulary

theorem Sound.grow (sound : s.Sound base states config k) {store : Store}
    (later : s.store.Later store) : ({ s with store } : Session).Sound base states config k := by
  have wf := sound.wellFormed
  have has : ∀ {h vector}, (h, vector) ∈ s.representatives.kept → s.store.Has h :=
    fun member => (sound.representatives.denotes member).has
  -- Trees and complexities of what was kept stay as they are.
  have same : ∀ {h vector}, (h, vector) ∈ s.representatives.kept →
      store.complexity h = s.store.complexity h :=
    fun member => later.grown.complexity wf (has member)
  exact {
    later := sound.later.trans later
    representatives := sound.representatives.extends later.grown
    allowed := fun member tree =>
      sound.allowed member ((later.grown.tree? (has member)).symm.trans tree)
    layered := sound.layered.congr same
    emitted := sound.emitted.congr same
    logged := sound.logged.extends wf later sound.representatives.denotes }

theorem Sound.markSeen (sound : s.Sound base states config k) (h : Handle) :
    ({ s with representatives := (s.representatives.markSeen h).2 } : Session).Sound base states
      config k where
  later := sound.later
  representatives := sound.representatives.markSeen h
  allowed := sound.allowed
  layered := sound.layered
  emitted := sound.emitted
  logged := sound.logged

/-- What a run counts does not matter. -/
theorem Sound.aside (sound : s.Sound base states config k) (statistics : Statistics)
    (looks : Nat) : ({ s with statistics, looks } : Session).Sound base states config k where
  later := sound.later
  representatives := sound.representatives
  allowed := sound.allowed
  layered := sound.layered
  emitted := sound.emitted
  logged := sound.logged

/-- The layer at hand becomes the last one below the next. -/
theorem Sound.close (sound : s.Sound base states config k) (statistics : Statistics) :
    ({ s with frontier := s.frontier.close s.layer, layer := .empty, statistics } :
      Session).Sound base states config (k + 1) where
  later := sound.later
  representatives := sound.representatives
  allowed := sound.allowed
  layered := sound.layered.close
  emitted := sound.emitted
  logged := sound.logged

/-- What becomes of a run within a layer: nothing that it knows is forgotten, and the
operands stay the same. -/
structure Onward (s s' : Session) : Prop where
  store : s.store.Extends s'.store
  frontier : s'.frontier = s.frontier
  kept : ∀ {x}, x ∈ s.representatives.kept → x ∈ s'.representatives.kept
  seen : ∀ {i}, s.representatives.seen.contains i = true →
    s'.representatives.seen.contains i = true

theorem Onward.refl (s : Session) : s.Onward s := ⟨.refl _, rfl, id, id⟩

theorem Onward.trans {s'' : Session} (first : s.Onward s') (second : s'.Onward s'') :
    s.Onward s'' where
  store := first.store.trans second.store
  frontier := second.frontier.trans first.frontier
  kept member := second.kept (first.kept member)
  seen member := second.seen (first.seen member)

/-! ## Represented nodes -/

/-- The tree of the node is represented: a kept expression of its kind that is not more
complex has its vector. -/
def Covers (states : List State) (s : Session) (node : Node) : Prop :=
  ∃ t, node.tree? s.store.trees = some t ∧ ∃ g vector, (g, vector) ∈ s.representatives.kept ∧
    g.kind = t.kind ∧ t.vector states = .ok vector ∧ s.store.complexity g ≤ t.complexity

theorem Covers.onward (sound : s.Sound base states config k) {node : Node}
    (covers : s.Covers states node) (onward : s.Onward s') : s'.Covers states node := by
  obtain ⟨t, tree, g, vector, member, kind, value, complexity⟩ := covers
  refine ⟨t, onward.store.node_tree? tree, g, vector, onward.kept member, kind, value, ?_⟩
  rw [onward.store.complexity sound.wellFormed (sound.representatives.denotes member).has]
  exact complexity

end Session

/-- The expression stands for the tree of the node, up to the order of operands. -/
structure Store.Interned (store : Store) (h : Handle) (node : Node) : Prop where
  has : store.Has h
  tree : ∃ t u, node.tree? store.trees = some t ∧ store.Represents h u ∧ u.Alike t

theorem Store.Interned.extends {store store' : Store} {h : Handle} {node : Node}
    (interned : store.Interned h node) (grown : store.Extends store') : store'.Interned h node := by
  obtain ⟨t, u, tree, stands, alike⟩ := interned.tree
  exact ⟨grown.has interned.has, t, u, grown.node_tree? tree,
    grown.represents interned.has stands, alike⟩

theorem Store.WellFormed.exists_node_tree {store : Store} (wf : store.WellFormed) {node : Node}
    (operands : ∀ g ∈ node.operands, store.Has g) : ∃ t, node.tree? store.trees = some t := by
  refine Node.exists_tree? fun g operand => ?_
  obtain ⟨t, tree, _⟩ := wf.exists_tree (operands g operand)
  exact ⟨t, tree⟩

theorem Store.Inserted.interned {store store' : Store} {h : Handle} {node : Node}
    (wf : store.WellFormed) (added : store.Inserted node h store')
    (operands : ∀ g ∈ node.operands, store.Has g) : store'.Interned h node := by
  obtain ⟨t, tree⟩ := wf.exists_node_tree operands
  obtain ⟨u, stands, alike⟩ := added.represents operands tree
  exact ⟨added.has, t, u, added.grown.node_tree? tree, stands, alike⟩

namespace Session
variable {base : Store} {states : List State} {config : Config} {k : Nat} {s : Session}

theorem Sound.covers_of_logged (sound : s.Sound base states config k)
    (sample : ∀ state ∈ states, state.Over base.vocabulary) {node : Node} {h : Handle}
    (interned : s.store.Interned h node) {registration : Registration}
    (member : (h, registration) ∈ s.log) : s.Covers states node := by
  obtain ⟨t, u, tree, stands, alike⟩ := interned.tree
  obtain ⟨vector, g, denotes, kept, kind, complexity⟩ := sound.logged.represented member
  have formed := stands.formed
  rw [sound.vocabulary] at formed
  -- The stored tree may differ from the node's in the order of operands, which changes
  -- neither the kind nor the vector nor the complexity.
  refine ⟨t, tree, g, vector, kept, ?_, ?_, ?_⟩
  · rw [kind, ← stands.kind]
    exact alike.kind_eq
  · rw [← (alike.agree sample formed).vector_eq]
    exact denotes.vector_eq stands.tree
  · rw [← alike.complexity_eq, ← Store.complexity_of_complexity? stands.complexity]
    exact complexity

end Session
end PlanFeatures
