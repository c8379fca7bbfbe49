import Mathlib.Data.List.Nodup
import PlanFeatures.Proofs.Generation.Candidates
import PlanFeatures.Proofs.Sample.Representatives

/-!
# Layers list what was kept

The closed layers together with the one at hand list the kept concepts and roles,
each in the layer of its complexity and in the order in which they were kept.  This
is what the operands of candidates are taken from, so it says which operands there
are, and that none is listed twice.
-/

namespace PlanFeatures

/-- The indices of the kept expressions of a kind and complexity, in the order in which
they were kept. -/
def Store.keptAt (store : Store) (kept : List (Handle × ExtensionVector)) (kind : Kind) (k : Nat) :
    List Nat :=
  (((kept.map Prod.fst).filter fun h => h.kind = kind ∧ store.complexity h = k).map
    Handle.index).reverse

/-- Layer `k` is at hand and the ones below it are closed. -/
structure Layered (store : Store) (kept : List (Handle × ExtensionVector)) (k : Nat) (f : Frontier)
    (l : Layer) : Prop where
  size : f.layers.size + 1 = k
  bound : ∀ {h vector}, (h, vector) ∈ kept → store.complexity h ≤ k
  /-- The latest come first, so complexities do not increase. -/
  ordered : kept.Pairwise fun x y => store.complexity y.1 ≤ store.complexity x.1
  listed : ∀ kind, kind.isFeature = false → ∀ i,
    (f.close l).layer kind i = store.keptAt kept kind i

variable {store store' : Store} {kept : List (Handle × ExtensionVector)} {k : Nat} {f : Frontier}
  {l : Layer}

theorem Store.mem_keptAt {kind : Kind} {i a : Nat} :
    a ∈ store.keptAt kept kind i
      ↔ ∃ vector, (⟨kind, a⟩, vector) ∈ kept ∧ store.complexity ⟨kind, a⟩ = i := by
  simp only [Store.keptAt, List.mem_reverse, List.mem_map, List.mem_filter, decide_eq_true_eq,
    Prod.exists, exists_and_right, exists_eq_right]
  constructor
  · rintro ⟨h, ⟨⟨vector, member⟩, rfl, complexity⟩, rfl⟩
    exact ⟨⟨vector, member⟩, complexity⟩
  · rintro ⟨⟨vector, member⟩, complexity⟩
    exact ⟨⟨kind, a⟩, ⟨⟨vector, member⟩, rfl, complexity⟩, rfl⟩

theorem Layer.ofKind_push (l : Layer) (h : Handle) {kind : Kind}
    (operand : kind.isFeature = false) :
    (l.push h).ofKind kind
      = if h.kind = kind then l.ofKind kind ++ [h.index] else l.ofKind kind := by
  cases kind <;> cases of : h.kind <;> simp_all [Layer.push, Layer.ofKind, Kind.isFeature]

namespace Frontier

theorem layer_of_isFeature {kind : Kind} (feature : kind.isFeature = true) (i : Nat) :
    f.layer kind i = [] := by
  cases i with
  | zero => rfl
  | succ i =>
    cases kind with
    | concept | role => cases feature
    | boolean | numerical => rfl

end Frontier

namespace Layered

theorem start (store : Store) : Layered store [] 1 .empty .empty where
  size := rfl
  bound member := absurd member List.not_mem_nil
  ordered := .nil
  listed kind _ i := by
    cases i with
    | zero => rfl
    | succ i => cases i <;> cases kind <;> simp [Frontier.layer, Frontier.close, Frontier.empty,
        Layer.ofKind, Layer.empty, Store.keptAt]

theorem congr (layered : Layered store kept k f l)
    (same : ∀ {h vector}, (h, vector) ∈ kept → store'.complexity h = store.complexity h) :
    Layered store' kept k f l where
  size := layered.size
  bound member := by rw [same member]; exact layered.bound member
  ordered := layered.ordered.imp_of_mem fun later earlier order => by
    rw [same later, same earlier]
    exact order
  listed kind operand i := by
    rw [layered.listed kind operand i, Store.keptAt, Store.keptAt]
    congr 2
    refine List.filter_congr fun h member => ?_
    obtain ⟨⟨g, vector⟩, inside, rfl⟩ := List.mem_map.mp member
    rw [same inside]

theorem keep (layered : Layered store kept k f l) {h : Handle} (vector : ExtensionVector)
    (complexity : store.complexity h = k) : Layered store ((h, vector) :: kept) k f (l.push h) where
  size := layered.size
  bound member := by
    rcases List.mem_cons.mp member with new | old
    · cases new; exact Nat.le_of_eq complexity
    · exact layered.bound old
  ordered := List.pairwise_cons.mpr
    ⟨fun _ member => complexity ▸ layered.bound member, layered.ordered⟩
  listed kind operand i := by
    have before := layered.listed kind operand i
    have cons : store.keptAt ((h, vector) :: kept) kind i
        = if h.kind = kind ∧ k = i then store.keptAt kept kind i ++ [h.index]
          else store.keptAt kept kind i := by
      simp only [Store.keptAt, List.map_cons, List.filter_cons, complexity]
      split <;> simp_all
    rw [cons, ← before]
    -- Only the layer at hand changes; closed ones stay, later ones are empty.
    rcases Nat.lt_trichotomy i k with below | here | beyond
    · have closed : i ≤ f.layers.size := by have := layered.size; omega
      rw [Frontier.layer_close closed, Frontier.layer_close closed, if_neg (by omega)]
    · subst here
      rw [← layered.size, Frontier.layer_close_last, Frontier.layer_close_last,
        Layer.ofKind_push l h operand]
      simp
    · have size := layered.size
      rw [Frontier.layer_of_size_lt (by simp [Frontier.close]; omega),
        Frontier.layer_of_size_lt (by simp [Frontier.close]; omega), if_neg (by omega)]

theorem close (layered : Layered store kept k f l) :
    Layered store kept (k + 1) (f.close l) .empty where
  size := by simp [Frontier.close, layered.size]
  bound member := Nat.le_succ_of_le (layered.bound member)
  ordered := layered.ordered
  listed kind operand i := by
    rw [← layered.listed kind operand i]
    have size : (f.close l).layers.size = f.layers.size + 1 := by simp [Frontier.close]
    by_cases closed : i ≤ (f.close l).layers.size
    · exact Frontier.layer_close closed
    · rw [Frontier.layer_of_size_lt (f := f.close l) (by omega)]
      by_cases next : i = (f.close l).layers.size + 1
      · rw [next, Frontier.layer_close_last]
        cases kind <;> rfl
      · refine Frontier.layer_of_size_lt ?_
        simp only [Frontier.close, Array.size_push] at next size closed ⊢
        omega

/-- The operands that closed layers offer. -/
theorem mem_layer (layered : Layered store kept k f l) {kind : Kind}
    (operand : kind.isFeature = false) {i a : Nat} (closed : i < k) :
    a ∈ f.layer kind i ↔ ∃ vector, (⟨kind, a⟩, vector) ∈ kept ∧ store.complexity ⟨kind, a⟩ = i := by
  have size := layered.size
  rw [← Store.mem_keptAt, ← layered.listed kind operand i, Frontier.layer_close (by omega)]

theorem of_mem_layer (layered : Layered store kept k f l) {kind : Kind} {i a : Nat}
    (member : a ∈ f.layer kind i) :
    i < k ∧ ∃ vector, (⟨kind, a⟩, vector) ∈ kept ∧ store.complexity ⟨kind, a⟩ = i := by
  have size := layered.size
  have closed : i < k := by
    by_cases beyond : f.layers.size < i
    · rw [Frontier.layer_of_size_lt beyond] at member
      cases member
    · omega
  refine ⟨closed, (layered.mem_layer ?_ closed).mp member⟩
  cases feature : kind.isFeature with
  | false => rfl
  | true =>
    rw [Frontier.layer_of_isFeature feature] at member
    cases member

theorem separate (layered : Layered store kept k f l) (nodup : (kept.map Prod.fst).Nodup) :
    f.Separate where
  nodup kind i := by
    by_cases beyond : f.layers.size < i
    · rw [Frontier.layer_of_size_lt beyond]
      exact List.nodup_nil
    · cases feature : kind.isFeature with
      | true =>
        rw [Frontier.layer_of_isFeature feature]
        exact List.nodup_nil
      | false =>
        rw [← Frontier.layer_close (l := l) (by omega), layered.listed kind feature i, Store.keptAt,
          List.nodup_reverse]
        -- The listed handles are of one kind, so different ones have different indices.
        refine List.Nodup.map_on ?_ (nodup.filter _)
        intro g memberG h memberH same
        have kindG := (of_decide_eq_true (List.mem_filter.mp memberG).2).1
        have kindH := (of_decide_eq_true (List.mem_filter.mp memberH).2).1
        cases g; cases h
        simp_all
  apart memberI memberJ := by
    obtain ⟨_, _, _, first⟩ := layered.of_mem_layer memberI
    obtain ⟨_, _, _, second⟩ := layered.of_mem_layer memberJ
    exact first.symm.trans second

end Layered
end PlanFeatures
