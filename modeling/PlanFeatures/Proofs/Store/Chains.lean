import PlanFeatures.Store.UniqueTable

/-!
# Chains of indices

The chain of a bucket visits the indices that belong to the bucket, in increasing order, and
ends.  This is so when an index is put behind the last one of its bucket, and when indices
are put into other buckets one after another, although the chains out of which they are
taken lie in the same places.
-/

namespace PlanFeatures.Chains

/-! ## Buckets -/

/-- The indices up to `k` that belong to a bucket, in increasing order. -/
def bucket (slots : Nat → Option Nat) (k slot : Nat) : List Nat :=
  (List.range' 1 k).filter fun i => slots i = some slot

section
variable {slots slots' : Nat → Option Nat} {k slot i : Nat}

theorem mem_bucket : i ∈ bucket slots k slot ↔ (1 ≤ i ∧ i ≤ k) ∧ slots i = some slot := by
  rw [bucket, List.mem_filter, List.mem_range'_1, decide_eq_true_iff]
  exact and_congr_left fun _ => and_congr_right fun _ => by omega

/-- One more index goes to the end of its bucket and into no other. -/
theorem bucket_succ (here : slots (k + 1) = some slot) (s : Nat) :
    bucket slots (k + 1) s
      = if slot = s then bucket slots k s ++ [k + 1] else bucket slots k s := by
  rw [bucket, List.range'_1_concat, List.filter_append, ← bucket, Nat.add_comm 1 k]
  by_cases same : slot = s
  · simp [here, same]
  · simp [here, same]

theorem bucket_congr (same : ∀ i ≤ k, slots' i = slots i) (slot : Nat) :
    bucket slots' k slot = bucket slots k slot := by
  apply List.filter_congr
  intro i member
  have within := (List.mem_range'_1.mp member).2
  rw [same i (by omega)]

theorem pairwise_bucket (slots : Nat → Option Nat) (k slot : Nat) :
    (bucket slots k slot).Pairwise (· < ·) :=
  (List.pairwise_lt_range' 1).filter _

theorem length_bucket_le (slots : Nat → Option Nat) (k slot : Nat) :
    (bucket slots k slot).length ≤ k :=
  Nat.le_trans (List.length_filter_le _ _) (Nat.le_of_eq List.length_range')

/-- A bucket is empty or has a last index. -/
theorem bucket_cases (slots : Nat → Option Nat) (k slot : Nat) :
    bucket slots k slot = [] ∨
      ∃ front last, bucket slots k slot = front ++ [last] ∧ (1 ≤ last ∧ last ≤ k) ∧
        slots last = some slot ∧ ∀ j ∈ front, j < last := by
  rcases List.eq_nil_or_concat (bucket slots k slot) with empty | ⟨front, last, full⟩
  · exact Or.inl empty
  · rw [List.concat_eq_append] at full
    have sorted := pairwise_bucket slots k slot
    rw [full, List.pairwise_append] at sorted
    obtain ⟨within, itsSlot⟩ : (1 ≤ last ∧ last ≤ k) ∧ slots last = some slot :=
      mem_bucket.mp (by simp [full])
    exact Or.inr ⟨front, last, full, within, itsSlot, fun j member =>
      sorted.2.2 j member last List.mem_cons_self⟩

theorem getLastD_bucket_le (slots : Nat → Option Nat) (k slot : Nat) :
    (bucket slots k slot).getLastD 0 ≤ k := by
  rcases bucket_cases slots k slot with empty | ⟨front, last, full, within, _⟩
  · rw [empty]
    exact Nat.zero_le k
  · rw [full, List.getLastD_concat]
    exact within.2

end

/-! ## Operations -/

section
variable {c : Chains} {i j v slot : Nat}

theorem next?_ne_none_iff : c.next? i ≠ none ↔ 1 ≤ i ∧ i ≤ c.nexts.size := by
  cases i with
  | zero => simp [next?]
  | succ i =>
    rw [next?, ne_eq, Array.getElem?_eq_none_iff, Nat.not_le]
    exact (and_iff_right (Nat.succ_pos i)).symm

theorem ne_zero_of_next? (next : c.next? i = some j) : i ≠ 0 := by
  rintro rfl
  cases next

theorem next?_setNext (present : c.next? i ≠ none) :
    (c.setNext i v).next? j = if j = i then some v else c.next? j := by
  have inside := next?_ne_none_iff.mp present
  cases i with
  | zero => exact absurd rfl present
  | succ i =>
    cases j with
    | zero => rfl
    | succ j =>
      show (c.nexts.setIfInBounds i v)[j]? = _
      rw [Array.getElem?_setIfInBounds]
      by_cases same : i = j
      · subst same
        simp [Nat.lt_of_succ_le inside.2]
      · simp [same, Ne.symm same, next?]

@[simp] theorem head_setNext (c : Chains) (i v : Nat) : (c.setNext i v).head slot = c.head slot :=
  rfl

@[simp] theorem size_nexts_setNext (c : Chains) (i v : Nat) :
    (c.setNext i v).nexts.size = c.nexts.size :=
  Array.size_setIfInBounds

@[simp] theorem size_nexts_link (c : Chains) (slot last i : Nat) :
    (c.link slot last i).nexts.size = c.nexts.size := by
  unfold link
  split
  next => rfl
  next => exact size_nexts_setNext c last i

theorem next?_extend (c : Chains) (i : Nat) :
    c.extend.next? i = if i = c.nexts.size + 1 then some 0 else c.next? i := by
  cases i with
  | zero => rfl
  | succ i =>
    show (c.nexts.push 0)[i]? = _
    rw [Array.getElem?_push]
    simp [next?]

@[simp] theorem size_nexts_extend (c : Chains) : c.extend.nexts.size = c.nexts.size + 1 :=
  Array.size_push 0

theorem getD_insert (indices : Std.TreeMap Nat Nat) (slot i s : Nat) :
    (indices.insert slot i).getD s 0 = if slot = s then i else indices.getD s 0 := by
  simp only [Std.TreeMap.getD_insert, Std.LawfulEqCmp.compare_eq_iff_eq]

end

/-! ## One chain -/

/-- The chain from an index on visits a list of indices and ends. -/
inductive Follows (c : Chains) : Nat → List Nat → Prop where
  | done : Follows c 0 []
  | step {i j : Nat} {rest : List Nat} (next : c.next? i = some j) (more : Follows c j rest) :
      Follows c i (i :: rest)

section
variable {c d : Chains} {i j last : Nat} {l front : List Nat}

theorem Follows.congr (follows : c.Follows i l) (same : ∀ j ∈ l, d.next? j = c.next? j) :
    d.Follows i l := by
  induction follows with
  | done => exact .done
  | step next more ih =>
    apply Follows.step
    · rw [same _ List.mem_cons_self, next]
    · exact ih fun j member => same j (List.mem_cons_of_mem _ member)

/-- The last index of a chain has none after it. -/
theorem Follows.next?_last (follows : c.Follows i (front ++ [last])) : c.next? last = some 0 := by
  induction front generalizing i with
  | nil =>
    cases follows with
    | step next more =>
      cases more
      exact next
  | cons j front ih =>
    cases follows with
    | step _ more => exact ih more

/-- A chain becomes longer when its last index gets one after it. -/
theorem Follows.snoc (follows : c.Follows i (front ++ [last]))
    (same : ∀ j ∈ front, d.next? j = c.next? j) (joined : d.next? last = some j)
    (fresh : d.next? j = some 0) : d.Follows i (front ++ [last, j]) := by
  induction front generalizing i with
  | nil =>
    cases follows with
    | step _ _ => exact .step joined (.step fresh .done)
  | cons k front ih =>
    cases follows with
    | step next more =>
      apply Follows.step
      · rw [same k List.mem_cons_self, next]
      · exact ih more fun j member => same j (List.mem_cons_of_mem _ member)

end

/-! ## All chains -/

/-- As far as the first `k` indices go, every chain visits the indices of its bucket. -/
def Hold (c : Chains) (slots : Nat → Option Nat) (k : Nat) : Prop :=
  ∀ slot, c.Follows (c.head slot) (bucket slots k slot)

namespace Hold
variable {c d : Chains} {slots slots' : Nat → Option Nat} {k slot last : Nat} {front : List Nat}

/-- What comes after later indices does not matter. -/
theorem congr (hold : c.Hold slots k) (heads : ∀ slot, d.head slot = c.head slot)
    (same : ∀ i ≤ k, d.next? i = c.next? i) : d.Hold slots k := by
  intro slot
  rw [heads]
  exact (hold slot).congr fun i member => same i (mem_bucket.mp member).1.2

theorem reslot (hold : c.Hold slots k) (same : ∀ i ≤ k, slots' i = slots i) :
    c.Hold slots' k := by
  intro slot
  rw [bucket_congr same]
  exact hold slot

theorem first (hold : c.Hold slots k) (fresh : c.next? (k + 1) = some 0)
    (here : slots (k + 1) = some slot) (empty : bucket slots k slot = []) :
    (c.link slot 0 (k + 1)).Hold slots (k + 1) := by
  intro s
  have chain := hold s
  show Follows _ ((c.heads.insert slot (k + 1)).getD s 0) _
  rw [getD_insert, bucket_succ here]
  by_cases same : slot = s
  · subst same
    rw [if_pos rfl, if_pos rfl, empty]
    exact .step fresh .done
  · rw [if_neg same, if_neg same]
    exact chain.congr fun _ _ => rfl

theorem behind (hold : c.Hold slots k) (fresh : c.next? (k + 1) = some 0)
    (here : slots (k + 1) = some slot) (full : bucket slots k slot = front ++ [last])
    (within : last ≤ k) (itsSlot : slots last = some slot) (before : ∀ j ∈ front, j < last) :
    (c.setNext last (k + 1)).Hold slots (k + 1) := by
  have ends : c.next? last = some 0 := by
    have chain := hold slot
    rw [full] at chain
    exact chain.next?_last
  have present : c.next? last ≠ none := by simp [ends]
  intro s
  have chain := hold s
  rw [head_setNext, bucket_succ here]
  by_cases same : slot = s
  · subst same
    rw [full] at chain
    rw [if_pos rfl, full, List.append_assoc]
    apply chain.snoc
    · intro j member
      rw [next?_setNext present, if_neg (Nat.ne_of_lt (before j member))]
    · rw [next?_setNext present, if_pos rfl]
    · rw [next?_setNext present, if_neg (by omega), fresh]
  · -- No other chain visits the index that gets a new one after it.
    rw [if_neg same]
    apply chain.congr
    intro j member
    rw [next?_setNext present, if_neg]
    rintro rfl
    exact same (Option.some.inj (itsSlot.symm.trans (mem_bucket.mp member).2))

/-- Linking puts an index into its bucket and leaves the others alone. -/
theorem link (hold : c.Hold slots k) (fresh : c.next? (k + 1) = some 0)
    (here : slots (k + 1) = some slot) :
    (c.link slot ((bucket slots k slot).getLastD 0) (k + 1)).Hold slots (k + 1) := by
  rcases bucket_cases slots k slot with empty | ⟨front, last, full, within, itsSlot, before⟩
  · rw [empty]
    exact hold.first fresh here empty
  · rw [full, List.getLastD_concat, Chains.link, if_neg (Nat.ne_of_gt within.1)]
    exact hold.behind fresh here full within.2 itsSlot before

end Hold

/-! ## Other buckets -/

/-- What the loop that puts `size` indices into other buckets knows after the first `k`. -/
structure Moving (slots : Nat → Option Nat) (size k : Nat)
    (state : Chains × Std.TreeMap Nat Nat) : Prop where
  hold : state.1.Hold slots k
  lasts : ∀ slot, state.2.getD slot 0 = (bucket slots k slot).getLastD 0
  size : state.1.nexts.size = size

theorem moving_start (slots : Nat → Option Nat) (nexts : Array Nat) :
    Moving slots nexts.size 0 (⟨nexts, ∅⟩, ∅) where
  hold slot := .done
  lasts slot := by simp [bucket]
  size := rfl

theorem Moving.next {slots : Nat → Option Nat} {size k slot : Nat}
    {state : Chains × Std.TreeMap Nat Nat} (moving : Moving slots size k state) (inside : k < size)
    (here : slots (k + 1) = some slot) : Moving slots size (k + 1) (move slot (k + 1) state) := by
  obtain ⟨c, lasts⟩ := state
  obtain ⟨hold, ends, length⟩ := moving
  dsimp only at hold ends length
  have present : c.next? (k + 1) ≠ none := next?_ne_none_iff.mpr ⟨by omega, by omega⟩
  refine ⟨?_, fun s => ?_, ?_⟩
  · -- Until now the index has kept its place in an old chain, behind the first `k`.
    have ready : (c.setNext (k + 1) 0).Hold slots k := by
      apply hold.congr
      · exact fun slot => head_setNext c (k + 1) 0
      · intro i within
        rw [next?_setNext present, if_neg (by omega)]
    have fresh : (c.setNext (k + 1) 0).next? (k + 1) = some 0 := by
      rw [next?_setNext present, if_pos rfl]
    have linked := ready.link fresh here
    rw [← ends slot] at linked
    exact linked
  · show (lasts.insert slot (k + 1)).getD s 0 = _
    rw [getD_insert, bucket_succ here]
    by_cases same : slot = s
    · rw [if_pos same, if_pos same, List.getLastD_concat]
    · rw [if_neg same, if_neg same]
      exact ends s
  · show ((c.setNext (k + 1) 0).link slot _ (k + 1)).nexts.size = size
    rw [size_nexts_link, size_nexts_setNext, length]

end PlanFeatures.Chains
