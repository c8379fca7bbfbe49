import PlanFeatures.Proofs.Sample.Vectors
import PlanFeatures.Sample.Representatives

/-!
# Representatives are told apart by their vectors

What a representative is kept with is the vector of its tree, and it is what the
evaluator knows of it.  No two representatives of one kind have the same vector, so
a new one is told from the known ones by a look-up.  A vector belongs to a tree and
not to a handle, so one that is computed from a node as it was enumerated is right
for the handle of the node as it is stored.
-/

namespace PlanFeatures

/-- The tree of a stored expression has the vector over the sample. -/
structure Store.Denotes (store : Store) (states : List State) (h : Handle)
    (vector : ExtensionVector) : Prop where
  has : store.Has h
  tree : ∃ t, store.Represents h t ∧ t.vector states = .ok vector

namespace Store
variable {store store' : Store} {states : List State} {h : Handle}
  {vector vector' : ExtensionVector}

theorem Represents.unique {t u : Expr} (first : store.Represents h t)
    (second : store.Represents h u) : t = u :=
  Option.some.inj (first.tree.symm.trans second.tree)

theorem Denotes.unique (first : store.Denotes states h vector)
    (second : store.Denotes states h vector') : vector = vector' := by
  obtain ⟨t, stands, value⟩ := first.tree
  obtain ⟨u, stands', value'⟩ := second.tree
  cases stands.unique stands'
  exact Except.ok.inj (value.symm.trans value')

theorem Denotes.extends (denotes : store.Denotes states h vector) (grown : store.Extends store') :
    store'.Denotes states h vector := by
  obtain ⟨t, stands, value⟩ := denotes.tree
  exact ⟨grown.has denotes.has, t, grown.represents denotes.has stands, value⟩

theorem Denotes.vector_eq (denotes : store.Denotes states h vector) {t : Expr}
    (tree : store.tree? h = some t) : t.vector states = .ok vector := by
  obtain ⟨u, stands, value⟩ := denotes.tree
  cases tree.symm.trans stands.tree
  exact value

theorem Has.eq_of_index {g : Handle} (hasG : store.Has g) (hasH : store.Has h)
    (same : g.index = h.index) : g = h := by
  obtain ⟨node, stored, kind⟩ := hasG
  obtain ⟨node', stored', kind'⟩ := hasH
  have both : store.table.get? g.index = store.table.get? h.index := by rw [same]
  obtain rfl : node = node' := Option.some.inj (stored.symm.trans (both.trans stored'))
  cases g; cases h
  simp only at kind kind' same
  rw [same, ← kind, ← kind']

end Store

namespace Representatives

/-- Every representative is kept and known with the vector of its tree, no two of one kind
have the same vector, and no other vectors are known. -/
structure Sound (store : Store) (states : List State) (r : Representatives) : Prop where
  sample : r.evaluator.states = states
  denotes : ∀ {h vector}, (h, vector) ∈ r.kept → store.Denotes states h vector
  cached : ∀ {h vector}, (h, vector) ∈ r.kept → r.evaluator.cache.peek? h.index = some vector
  apart : r.kept.Pairwise fun x y => x.1.kind = y.1.kind → x.2 ≠ y.2
  known : ∀ {i vector}, r.evaluator.cache.peek? i = some vector →
    ∃ h, (h, vector) ∈ r.kept ∧ h.index = i
  cacheSize : r.evaluator.cache.size = r.kept.length

variable {store store' : Store} {states : List State} {r : Representatives} {h : Handle}
  {vector : ExtensionVector}

theorem sound_new (store : Store) (states : List State) : (new states).Sound store states where
  sample := rfl
  denotes member := absurd member List.not_mem_nil
  cached member := absurd member List.not_mem_nil
  apart := List.Pairwise.nil
  known found := by simp [new, Evaluator.new, Cache.empty, Cache.peek?] at found
  cacheSize := rfl

theorem Sound.extends (sound : r.Sound store states) (grown : store.Extends store') :
    r.Sound store' states where
  sample := sound.sample
  denotes member := (sound.denotes member).extends grown
  cached := sound.cached
  apart := sound.apart
  known := sound.known
  cacheSize := sound.cacheSize

theorem Sound.markSeen (sound : r.Sound store states) (h : Handle) :
    (r.markSeen h).2.Sound store states :=
  ⟨sound.sample, sound.denotes, sound.cached, sound.apart, sound.known, sound.cacheSize⟩

theorem find?_eq_some {kind : Kind} (found : r.find? kind vector = some h) :
    (h, vector) ∈ r.kept ∧ h.kind = kind := by
  obtain ⟨⟨g, w⟩, place, rfl⟩ := Option.map_eq_some_iff.mp found
  have fits := List.find?_some place
  obtain ⟨sameKind, sameVector⟩ := of_decide_eq_true fits
  exact ⟨sameVector ▸ List.mem_of_find?_eq_some place, sameKind⟩

theorem find?_eq_none {kind : Kind} (absent : r.find? kind vector = none) :
    ∀ g, (g, vector) ∈ r.kept → g.kind ≠ kind := by
  intro g member same
  have differs := List.find?_eq_none.mp (Option.map_eq_none_iff.mp absent) _ member
  simp [same] at differs

/-- What is kept after one more representative. -/
def keep (r : Representatives) (h : Handle) (vector : ExtensionVector) : Representatives :=
  { r with kept := (h, vector) :: r.kept, evaluator := r.evaluator.remember h vector }

theorem Sound.unknown_of_fresh (sound : r.Sound store states)
    (denotes : store.Denotes states h vector)
    (fresh : ∀ g, (g, vector) ∈ r.kept → g.kind ≠ h.kind) :
    r.evaluator.cache.peek? h.index = none := by
  cases found : r.evaluator.cache.peek? h.index with
  | none => rfl
  | some w =>
    -- An index that is known already would belong to an expression with this vector.
    obtain ⟨g, old, same⟩ := sound.known found
    cases (sound.denotes old).has.eq_of_index denotes.has same
    cases (sound.denotes old).unique denotes
    exact absurd rfl (fresh _ old)

theorem Sound.keep (sound : r.Sound store states) (denotes : store.Denotes states h vector)
    (fresh : ∀ g, (g, vector) ∈ r.kept → g.kind ≠ h.kind) :
    (r.keep h vector).Sound store states where
  sample := sound.sample
  denotes member := by
    rcases List.mem_cons.mp member with new | old
    · cases new; exact denotes
    · exact sound.denotes old
  cached := by
    intro g w member
    show (r.evaluator.cache.insert h.index vector).peek? g.index = some w
    rw [Cache.peek?_insert]
    rcases List.mem_cons.mp member with new | old
    · cases new; rw [if_pos rfl]
    · split
      next same =>
        have cached := sound.cached old
        rw [← same, sound.unknown_of_fresh denotes fresh] at cached
        cases cached
      next => exact sound.cached old
  apart := by
    refine List.pairwise_cons.mpr ⟨?_, sound.apart⟩
    rintro ⟨g, w⟩ member sameKind sameVector
    obtain rfl : vector = w := sameVector
    exact fresh g member sameKind.symm
  known := by
    intro i w found
    change (r.evaluator.cache.insert h.index vector).peek? i = some w at found
    rw [Cache.peek?_insert] at found
    split at found
    next same =>
      cases found
      exact ⟨h, List.mem_cons_self, same⟩
    next =>
      obtain ⟨g, member, index⟩ := sound.known found
      exact ⟨g, List.mem_cons_of_mem _ member, index⟩
  cacheSize := by
    show (r.evaluator.cache.insert h.index vector).size = _
    rw [Cache.size_insert (sound.unknown_of_fresh denotes fresh), sound.cacheSize]
    rfl

/-- A candidate is a duplicate of a representative with its vector, or the first one
with it. -/
theorem insert_cases (r : Representatives) (h : Handle) (vector : ExtensionVector) :
    (∃ g, (g, vector) ∈ r.kept ∧ g.kind = h.kind ∧ r.insert h vector = (.duplicate g, r)) ∨
      ((∀ g, (g, vector) ∈ r.kept → g.kind ≠ h.kind) ∧
        r.insert h vector = (.kept, r.keep h vector)) := by
  unfold insert
  split
  next g found =>
    obtain ⟨member, kind⟩ := find?_eq_some found
    exact Or.inl ⟨g, member, kind, rfl⟩
  next absent => exact Or.inr ⟨find?_eq_none absent, rfl⟩

theorem Sound.vector_unique (sound : r.Sound store states) {vector' : ExtensionVector}
    (first : (h, vector) ∈ r.kept) (second : (h, vector') ∈ r.kept) : vector = vector' :=
  (sound.denotes first).unique (sound.denotes second)

theorem Sound.nodup (sound : r.Sound store states) : (r.kept.map Prod.fst).Nodup := by
  rw [List.Nodup, List.pairwise_map]
  refine sound.apart.imp_of_mem ?_
  rintro ⟨g, w⟩ ⟨h, w'⟩ first second apart same
  obtain rfl : g = h := same
  exact apart rfl (sound.vector_unique first second)

theorem Sound.handle_unique (sound : r.Sound store states) {g : Handle}
    (first : (g, vector) ∈ r.kept) (second : (h, vector) ∈ r.kept) (kind : g.kind = h.kind) :
    g = h := by
  refine List.Pairwise.forall_of_forall_of_flip
    (R := fun x y => x.1.kind = y.1.kind → x.2 = y.2 → x.1 = y.1) (fun _ _ _ _ => rfl) ?_ ?_
    first second kind rfl
  · exact sound.apart.imp fun apart kind same => absurd same (apart kind)
  · exact sound.apart.imp fun apart kind same => absurd same.symm (apart kind.symm)

/-- The vector of a node over representatives is that of its tree. -/
theorem Sound.compute_eq (sound : r.Sound store states) {v : Vocabulary}
    (sample : ∀ s ∈ states, s.Over v) {node : Node} {t : Expr} (formed : t.Over v)
    (tree : node.tree? store.trees = some t)
    (operands : ∀ g ∈ node.operands, ∃ w, (g, w) ∈ r.kept) :
    r.evaluator.compute node = t.vector states := by
  have sample' : ∀ s ∈ r.evaluator.states, s.Over v := sound.sample ▸ sample
  rw [← sound.sample]
  refine Evaluator.compute_eq sample' formed tree fun g operand x spell => ?_
  obtain ⟨w, member⟩ := operands g operand
  refine ⟨w, sound.cached member, ?_⟩
  rw [sound.sample]
  exact (sound.denotes member).vector_eq spell

end Representatives
end PlanFeatures
