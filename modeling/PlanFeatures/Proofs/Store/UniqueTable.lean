import Mathlib.Algebra.Group.Nat.Defs
import PlanFeatures.Proofs.Store.Chains

/-!
# Unique tables are faithful

Every value is in the chain of the bucket that its hash selects, and no value is stored
twice.  Both facts survive growing, so a look-up finds a value if and only if it is stored,
under the one index it has.  The values are in the order in which they were put first.
-/

namespace PlanFeatures.UniqueTable

variable {α : Type}

/-! ## Values by index -/

theorem get?_bound {t : UniqueTable α} {i : Nat} {a : α} (found : t.get? i = some a) :
    1 ≤ i ∧ i ≤ t.size := by
  cases i with
  | zero => cases found
  | succ i =>
    obtain ⟨bound, _⟩ := Array.getElem?_eq_some_iff.mp found
    exact ⟨by omega, bound⟩

theorem get?_push {t u : UniqueTable α} {a : α} (values : u.values = t.values.push a) (i : Nat) :
    u.get? i = if i = t.size + 1 then some a else t.get? i := by
  cases i with
  | zero => simp [get?]
  | succ i =>
    have shift : i + 1 = t.size + 1 ↔ i = t.values.size := by simp [size]
    simp only [get?, values, Array.getElem?_push, shift]

theorem mem_values_iff {t : UniqueTable α} {a : α} :
    a ∈ t.values.toList ↔ ∃ i, t.get? i = some a := by
  rw [List.mem_iff_getElem?]
  constructor
  · rintro ⟨i, there⟩
    exact ⟨i + 1, by simpa [get?] using there⟩
  · rintro ⟨i, stored⟩
    cases i with
    | zero => cases stored
    | succ i => exact ⟨i, by simpa [get?] using stored⟩

theorem not_mem_values {t : UniqueTable α} {a : α} (absent : ∀ i, t.get? i ≠ some a) :
    a ∉ t.values.toList :=
  fun stored => (mem_values_iff.mp stored).elim absent

variable [Hashable α]

/-! ## Buckets -/

theorem slot_lt {n : Nat} (positive : 0 < n) (a : α) : slot n a < n := by
  have low : slot n a ≤ (UInt64.ofNat (n - 1)).toNat := by
    rw [slot, UInt64.toNat_and]
    exact Nat.and_le_right
  have bound : (UInt64.ofNat (n - 1)).toNat ≤ n - 1 := Nat.mod_le (n - 1) _
  omega

/-- The bucket that every index belongs to when there are `n` of them. -/
def slots (n : Nat) (values : Array α) : Nat → Option Nat
  | 0 => none
  | i + 1 => values[i]?.map (slot n)

theorem slots_eq (t : UniqueTable α) (n i : Nat) :
    slots n t.values i = (t.get? i).map (slot n) := by
  cases i <;> rfl

theorem moving_next {n : Nat} {all : Array α} {k : Nat} {a : α} {rest : List α}
    {state : Chains × Std.TreeMap Nat Nat} (moving : Chains.Moving (slots n all) all.size k state)
    (remaining : all.toList.drop k = a :: rest) :
    k < all.size ∧ Chains.Moving (slots n all) all.size (k + 1) (moveValue n state (a, k)) ∧
      all.toList.drop (k + 1) = rest := by
  have inside : k < all.toList.length := by
    refine Nat.lt_of_not_le fun beyond => ?_
    rw [List.drop_eq_nil_of_le beyond] at remaining
    cases remaining
  rw [List.drop_eq_getElem_cons inside, List.cons.injEq] at remaining
  have here : slots n all (k + 1) = some (slot n a) := by
    rw [slots, Array.getElem?_eq_getElem inside, Option.map_some, ← remaining.1]
    rfl
  exact ⟨inside, moving.next inside here, remaining.2⟩

theorem moving_values (n : Nat) {all : Array α} {k : Nat} {rest : List α}
    {state : Chains × Std.TreeMap Nat Nat} (moving : Chains.Moving (slots n all) all.size k state)
    (within : k ≤ all.size) (remaining : all.toList.drop k = rest) :
    Chains.Moving (slots n all) all.size all.size ((rest.zipIdx k).foldl (moveValue n) state) := by
  induction rest generalizing k state with
  | nil =>
    have all_done := Nat.le_antisymm within (List.drop_eq_nil_iff.mp remaining)
    exact all_done ▸ moving
  | cons a rest ih =>
    obtain ⟨inside, next, remaining⟩ := moving_next moving remaining
    exact ih next inside remaining

theorem rechain_hold (n : Nat) (values : Array α) {nexts : Array Nat}
    (length : nexts.size = values.size) :
    (rechain n values nexts).Hold (slots n values) values.size ∧
      (rechain n values nexts).nexts.size = values.size := by
  have done := moving_values n (length ▸ Chains.moving_start (slots n values) nexts)
    (Nat.zero_le _) rfl
  exact ⟨done.hold, done.size⟩

/-! ## Well-formed tables -/

/-- The values are stored once each, and every one is in the chain of its bucket. -/
structure Chained (t : UniqueTable α) : Prop where
  nodup : t.values.toList.Nodup
  length : t.chains.nexts.size = t.size
  hold : t.chains.Hold (slots t.bucketCount t.values) t.size
  power : ∃ k ≤ maxBits, t.bucketCount = 1 <<< k

structure WellFormed (t : UniqueTable α) : Prop extends Chained t where
  /-- There are two values to a bucket on average at most, as long as more buckets are allowed. -/
  load : t.size ≤ 2 * t.bucketCount ∨ t.bucketCount = 1 <<< maxBits

theorem Chained.bucketCount_pos {t : UniqueTable α} (chained : t.Chained) : 0 < t.bucketCount := by
  obtain ⟨k, _, count⟩ := chained.power
  rw [count, Nat.one_shiftLeft]
  exact Nat.two_pow_pos k

theorem wellFormed_empty? {bits : Nat} {t : UniqueTable α} (made : empty? bits = some t) :
    t.WellFormed := by
  rw [empty?] at made
  split at made
  next few =>
    cases made
    exact ⟨⟨List.nodup_nil, rfl, fun _ => .done, bits, few, rfl⟩, Or.inl (Nat.zero_le _)⟩
  next => cases made

omit [Hashable α] in
theorem values_empty? {bits : Nat} {t : UniqueTable α} (made : empty? bits = some t) :
    t.values = #[] := by
  rw [empty?] at made
  split at made
  next => cases made; rfl
  next => cases made

@[simp] theorem values_grow (t : UniqueTable α) : t.grow.values = t.values := by
  rw [grow]
  split <;> rfl

theorem Chained.grow {t : UniqueTable α} (chained : t.Chained)
    (near : t.size ≤ 2 * t.bucketCount + 1 ∨ t.bucketCount = 1 <<< maxBits) :
    t.grow.WellFormed := by
  obtain ⟨k, few, count⟩ := chained.power
  rw [UniqueTable.grow]
  split
  next enough =>
    refine ⟨chained, enough.imp_right fun most => Nat.le_antisymm ?_ most⟩
    rw [count, Nat.one_shiftLeft, Nat.one_shiftLeft]
    exact Nat.pow_le_pow_right (by decide) few
  next full =>
    obtain ⟨crowded, fewer⟩ := not_or.mp full
    have positive := chained.bucketCount_pos
    obtain ⟨hold, length⟩ := rechain_hold (2 * t.bucketCount) t.values chained.length
    refine ⟨⟨chained.nodup, length, hold, k + 1, ?_, ?_⟩, Or.inl ?_⟩
    · refine Nat.succ_le_of_lt (Nat.lt_of_not_le fun most => fewer ?_)
      rw [count, Nat.one_shiftLeft, Nat.one_shiftLeft]
      exact Nat.pow_le_pow_right (by decide) most
    · show 2 * t.bucketCount = _
      rw [count, Nat.one_shiftLeft, Nat.one_shiftLeft, Nat.pow_succ, Nat.mul_comm]
    · show t.size ≤ 2 * (2 * t.bucketCount)
      rcases near with near | most
      · omega
      · exact absurd (Nat.le_of_eq most.symm) fewer

/-- The indices of a value's bucket. -/
def bucket (t : UniqueTable α) (a : α) : List Nat :=
  Chains.bucket (slots t.bucketCount t.values) t.size (slot t.bucketCount a)

theorem mem_bucket {t : UniqueTable α} {a : α} {i : Nat} :
    i ∈ t.bucket a ↔ ∃ b, t.get? i = some b ∧ slot t.bucketCount b = slot t.bucketCount a := by
  rw [bucket, Chains.mem_bucket, slots_eq, Option.map_eq_some_iff]
  refine and_iff_right_of_imp ?_
  rintro ⟨b, stored, _⟩
  exact get?_bound stored

/-- The table with one more value, behind the last one of its bucket. -/
def push (t : UniqueTable α) (a : α) : UniqueTable α := (t.append a ((t.bucket a).getLastD 0)).grow

@[simp] theorem values_push (t : UniqueTable α) (a : α) : (t.push a).values = t.values.push a :=
  values_grow _

theorem Chained.append {t : UniqueTable α} (chained : t.Chained) {a : α}
    (new : a ∉ t.values.toList) : (t.append a ((t.bucket a).getLastD 0)).Chained := by
  obtain ⟨nodup, length, hold, power⟩ := chained
  have fresh : t.chains.extend.next? (t.size + 1) = some 0 := by
    rw [Chains.next?_extend, length, if_pos rfl]
  have old : ∀ i ≤ t.size,
      slots t.bucketCount (t.values.push a) i = slots t.bucketCount t.values i := by
    intro i within
    cases i with
    | zero => rfl
    | succ i =>
      have before : i ≠ t.values.size := Nat.ne_of_lt within
      rw [slots, slots, Array.getElem?_push, if_neg before]
  have here : slots t.bucketCount (t.values.push a) (t.size + 1) = some (slot t.bucketCount a) := by
    rw [slots, size, Array.getElem?_push_size, Option.map_some]
  have extended : t.chains.extend.Hold (slots t.bucketCount t.values) t.size :=
    hold.congr (fun _ => rfl) fun i within => by
      rw [Chains.next?_extend, length, if_neg (by omega)]
  have linked := (extended.reslot old).link fresh here
  rw [Chains.bucket_congr old] at linked
  have size : (t.append a ((t.bucket a).getLastD 0)).size = t.size + 1 := Array.size_push a
  refine ⟨?_, ?_, size ▸ linked, power⟩
  · show (t.values.push a).toList.Nodup
    rw [Array.toList_push, List.nodup_append]
    refine ⟨nodup, List.pairwise_singleton _ a, fun b stored c last same => ?_⟩
    cases List.mem_singleton.mp last
    exact new (same ▸ stored)
  · rw [size]
    show (t.chains.extend.link _ _ _).nexts.size = _
    rw [Chains.size_nexts_link, Chains.size_nexts_extend, length]

theorem WellFormed.push {t : UniqueTable α} (wf : t.WellFormed) {a : α}
    (new : a ∉ t.values.toList) : (t.push a).WellFormed := by
  refine (wf.append new).grow (wf.load.imp_left fun load => ?_)
  show (t.values.push a).size ≤ _
  rw [Array.size_push]
  exact Nat.succ_le_succ load

/-! ## Looking up and adding -/

theorem index_unique {t : UniqueTable α} (wf : t.WellFormed) {i j : Nat} {a : α}
    (left : t.get? i = some a) (right : t.get? j = some a) : i = j := by
  cases i with
  | zero => cases left
  | succ i =>
    cases j with
    | zero => cases right
    | succ j =>
      simp only [get?, ← Array.getElem?_toList] at left right
      have bound := (List.getElem?_eq_some_iff.mp left).choose
      rw [(List.getElem?_inj bound wf.nodup).mp (left.trans right.symm)]

variable [DecidableEq α]

omit [Hashable α] in
/-- The way along a chain ends at the first index with the value, or at the last index. -/
theorem along_eq {t : UniqueTable α} {a : α} {fuel last i : Nat} {l : List Nat}
    (follows : t.chains.Follows i l) (enough : l.length ≤ fuel) :
    t.along a fuel last i
      = (l.find? fun j => t.get? j = some a).elim (.missing (l.getLastD last)) .stored := by
  induction fuel generalizing last i l with
  | zero =>
    obtain rfl := List.eq_nil_of_length_eq_zero (Nat.le_zero.mp enough)
    rfl
  | succ fuel ih =>
    cases follows with
    | done => rfl
    | @step _ j rest next more =>
      rw [along, if_neg (Chains.ne_zero_of_next? next)]
      by_cases here : t.get? i = some a
      · rw [if_pos here, List.find?_cons_of_pos (by simpa using here), Option.elim_some]
      · rw [if_neg here, List.find?_cons_of_neg (by simpa using here), List.getLastD_cons,
          UniqueTable.next?, next, Option.getD_some]
        exact ih more (Nat.le_of_succ_le_succ enough)

theorem along_head {t : UniqueTable α} (wf : t.WellFormed) (a : α) {fuel : Nat}
    (enough : t.size ≤ fuel) : t.along a fuel 0 (t.chains.head (slot t.bucketCount a))
      = ((t.bucket a).find? fun i => t.get? i = some a).elim (.missing ((t.bucket a).getLastD 0))
          .stored :=
  along_eq (wf.hold _) (Nat.le_trans (Chains.length_bucket_le _ _ _) enough)

/-- A value is where its bucket says, and there is room behind the bucket for a new one. -/
theorem place_cases {t : UniqueTable α} (wf : t.WellFormed) (a : α) :
    (∃ i, t.get? i = some a ∧ t.place a = .stored i) ∨
      ((∀ i, t.get? i ≠ some a) ∧ t.place a = .missing ((t.bucket a).getLastD 0)) := by
  rw [place, along_head wf a (Nat.le_refl _)]
  cases found : (t.bucket a).find? fun i => t.get? i = some a with
  | some i => exact Or.inl ⟨i, by simpa using List.find?_some found, rfl⟩
  | none =>
    refine Or.inr ⟨fun i stored => ?_, rfl⟩
    -- The bucket may hold other values with the same hash, but `a` would be among them.
    have member : i ∈ t.bucket a := mem_bucket.mpr ⟨a, stored, rfl⟩
    simpa [stored] using List.find?_eq_none.mp found i member

theorem find?_eq_some_iff {t : UniqueTable α} (wf : t.WellFormed) {a : α} {i : Nat} :
    t.find? a = some i ↔ t.get? i = some a := by
  rcases place_cases wf a with ⟨j, stored, there⟩ | ⟨absent, there⟩
  · rw [find?, there, Option.some.injEq]
    constructor
    · rintro rfl
      exact stored
    · exact index_unique wf stored
  · rw [find?, there]
    refine iff_of_false (fun found => ?_) (absent i)
    cases found

theorem find?_eq_none_iff {t : UniqueTable α} (wf : t.WellFormed) {a : α} :
    t.find? a = none ↔ ∀ i, t.get? i ≠ some a := by
  rw [Option.eq_none_iff_forall_ne_some]
  exact forall_congr' fun i => not_congr (find?_eq_some_iff wf)

/-- Either the value is stored already and nothing changes, or it becomes the last
one. -/
theorem put_cases {t : UniqueTable α} (wf : t.WellFormed) (a : α) :
    (∃ i, t.get? i = some a ∧ t.put a = (i, t)) ∨
      ((∀ i, t.get? i ≠ some a) ∧ t.put a = (t.size + 1, t.push a) ∧ (t.push a).WellFormed) := by
  rcases place_cases wf a with ⟨i, stored, there⟩ | ⟨absent, there⟩
  · exact Or.inl ⟨i, stored, by rw [put, there]⟩
  · exact Or.inr ⟨absent, by rw [put, there, push], wf.push (not_mem_values absent)⟩

/-! ## Runs -/

/-- Puts one value after another into a table. -/
def putAll (t : UniqueTable α) (as : List α) : UniqueTable α :=
  as.foldl (fun t a => (t.put a).2) t

theorem putAll_append (t : UniqueTable α) (as : List α) (a : α) :
    t.putAll (as ++ [a]) = ((t.putAll as).put a).2 :=
  List.foldl_append

theorem put_values {t : UniqueTable α} (wf : t.WellFormed) {done : List α}
    (values : t.values.toList = done.eraseDups) (a : α) :
    (t.put a).2.WellFormed ∧ (t.put a).2.values.toList = (done ++ [a]).eraseDups := by
  rw [List.eraseDups_append]
  rcases put_cases wf a with ⟨i, stored, result⟩ | ⟨absent, result, wider⟩
  · have old : a ∈ done := by
      rw [← List.mem_eraseDups, ← values]
      exact mem_values_iff.mpr ⟨i, stored⟩
    refine ⟨result ▸ wf, ?_⟩
    simp [result, values, List.removeAll, old]
  · have new : a ∉ done := by
      rw [← List.mem_eraseDups, ← values]
      exact not_mem_values absent
    refine ⟨result ▸ wider, ?_⟩
    simp [result, values, List.removeAll, new, List.eraseDups_cons]

theorem putAll_values {t : UniqueTable α} (wf : t.WellFormed) {done : List α}
    (values : t.values.toList = done.eraseDups) (as : List α) :
    (t.putAll as).WellFormed ∧ (t.putAll as).values.toList = (done ++ as).eraseDups := by
  induction as generalizing t done with
  | nil => exact ⟨wf, by rw [List.append_nil]; exact values⟩
  | cons a as ih =>
    obtain ⟨wf, values⟩ := put_values wf values a
    rw [List.append_cons]
    exact ih wf values

/-- A value that has been put is found at the place at which it came first. -/
theorem find?_of_mem {t : UniqueTable α} (wf : t.WellFormed) {as : List α}
    (values : t.values.toList = as.eraseDups) {a : α} (member : a ∈ as) :
    t.find? a = some (as.eraseDups.idxOf a + 1) := by
  have inside := List.idxOf_lt_length_of_mem (List.mem_eraseDups.mpr member)
  rw [find?_eq_some_iff wf, get?, ← Array.getElem?_toList, values,
    List.getElem?_eq_getElem inside, List.getElem_idxOf]

/-- Putting values one after another stores each of them once, in the order in which they
come first and under an index that stays.  The chain of a bucket visits the indices of the
values whose hashes select it, in increasing order, and then it ends, so that a look-up ends
after as many steps as there are values at most.  The number of buckets is a power of two,
and there are two values to a bucket on average at most unless the buckets are `2 ^ 31`. -/
theorem puts_exact {bits : Nat} (few : bits ≤ 31) :
    ∃ start : UniqueTable α, empty? bits = some start ∧ ∀ as : List α,
      let t := start.putAll as
      t.values.toList = as.eraseDups ∧
      (∀ a ∈ as, t.put a = (as.eraseDups.idxOf a + 1, t) ∧
        t.find? a = some (as.eraseDups.idxOf a + 1)) ∧
      (∀ a ∉ as, t.put a = (t.size + 1, start.putAll (as ++ [a])) ∧ t.find? a = none) ∧
      (∀ a ∈ as, ∀ more, (start.putAll (as ++ more)).find? a = t.find? a) ∧
      (∀ s, t.chains.Follows (t.chains.head s) ((List.range' 1 t.size).filter fun i =>
        (t.get? i).map (slot t.bucketCount) = some s)) ∧
      (∀ a fuel, t.size ≤ fuel →
        t.along a fuel 0 (t.chains.head (slot t.bucketCount a)) = t.place a) ∧
      (∃ k ≤ 31, t.bucketCount = 2 ^ k) ∧
      (t.size ≤ 2 * t.bucketCount ∨ t.bucketCount = 2 ^ 31) := by
  obtain ⟨start, made⟩ : ∃ start : UniqueTable α, empty? bits = some start := ⟨_, if_pos few⟩
  refine ⟨start, made, fun as => ?_⟩
  have run : ∀ as, (start.putAll as).WellFormed ∧ (start.putAll as).values.toList = as.eraseDups :=
    putAll_values (wellFormed_empty? made) (show _ = [].eraseDups by rw [values_empty? made]; rfl)
  obtain ⟨wf, values⟩ := run as
  refine ⟨values, fun a member => ?_, fun a new => ?_, fun a member more => ?_, fun s => ?_,
    fun a fuel enough => ?_, ?_, wf.load.imp_right fun most => most.trans (Nat.one_shiftLeft 31)⟩
  · have found := find?_of_mem wf values member
    have stored := (find?_eq_some_iff wf).mp found
    rcases put_cases wf a with ⟨i, there, result⟩ | ⟨absent, _, _⟩
    · exact ⟨index_unique wf there stored ▸ result, found⟩
    · exact absurd stored (absent _)
  · have absent : ∀ i, (start.putAll as).get? i ≠ some a := fun i stored => by
      have member := mem_values_iff.mpr ⟨i, stored⟩
      rw [values] at member
      exact new (List.mem_eraseDups.mp member)
    refine ⟨?_, (find?_eq_none_iff wf).mpr absent⟩
    rcases put_cases wf a with ⟨i, there, _⟩ | ⟨_, result, _⟩
    · exact absurd there (absent i)
    · rw [putAll_append, result]
  · obtain ⟨wider, all⟩ := run (as ++ more)
    have early : a ∈ as.eraseDups := List.mem_eraseDups.mpr member
    rw [find?_of_mem wf values member, find?_of_mem wider all (List.mem_append_left more member),
      List.eraseDups_append, List.idxOf_append, if_pos early]
  · have chain := wf.hold s
    simp only [Chains.bucket, slots_eq] at chain
    exact chain
  · rw [place, along_head wf a enough, along_head wf a (Nat.le_refl _)]
  · obtain ⟨k, within, count⟩ := wf.power
    exact ⟨k, within, count.trans (Nat.one_shiftLeft k)⟩

/-- Two values that come twice are stored once. -/
theorem puts_exact_repeated : 0 ≤ 31 ∧ ∃ start : UniqueTable Nat, empty? 0 = some start ∧
    (start.putAll [7, 3, 7, 5, 3]).values.toList = [7, 3, 5] ∧
    (start.putAll [7, 3, 7, 5, 3]).find? 3 = some 2 := by
  obtain ⟨start, made, after⟩ := @puts_exact Nat _ _ 0 (by decide)
  obtain ⟨values, known, _⟩ := after [7, 3, 7, 5, 3]
  exact ⟨by decide, start, made, values, (known 3 (by decide)).2⟩

end PlanFeatures.UniqueTable
