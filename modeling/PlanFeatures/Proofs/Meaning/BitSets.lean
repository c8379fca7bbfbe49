import Mathlib.Algebra.Order.Floor.Div
import Mathlib.Data.Finset.Card
import Mathlib.Order.Interval.Finset.Nat
import PlanFeatures.Meaning.Sized
import PlanFeatures.Proofs.Meaning.Sets

/-!
# Bit sets as finite sets

Calls make and change sets over one number of objects, which are kept under names.  Next to
them go finite sets of numbers, on which a call does what it stands for.  A call keeps the
two in agreement, hence so does a run of calls, and whatever can be asked of the bits has the
answer that the finite sets give.
-/

namespace PlanFeatures
namespace SizedSet

/-- A set over `n` objects has the members of a finite set of numbers. -/
inductive Matches (n : Nat) : SizedSet → Finset Nat → Prop where
  | mk (set : ObjectSet n) (m : Finset Nat) (bits : ∀ i, set.contains i = decide (i ∈ m)) :
      Matches n ⟨n, set⟩ m

/-! ## Calls -/

/-- A call on the sets that are kept under names. -/
inductive Call where
  | new (x : Nat)
  | full (x : Nat)
  | insert (x i : Nat)
  | remove (x i : Nat)
  | extend (x : Nat) (objects : List Nat)
  | clear (x : Nat)
  | complement (x : Nat)
  | union (x y : Nat)
  | intersect (x y : Nat)
  | difference (x y : Nat)

/-- The set that a call leaves: the one before when the call is refused. -/
def after (s : SizedSet) (result : Except SizeError SizedSet) : SizedSet := result.toOption.getD s

/-- What a call makes of the sets over `n` objects. -/
def Call.run (n : Nat) (sets : Nat → SizedSet) : Call → Nat → SizedSet
  | new x => Function.update sets x (.empty n)
  | full x => Function.update sets x (.full n)
  | insert x i => Function.update sets x ((sets x).after (((sets x).add i).map (·.2)))
  | remove x i => Function.update sets x ((sets x).remove i).2
  | extend x objects => Function.update sets x ((sets x).addAll objects).1
  | clear x => Function.update sets x (sets x).clear
  | complement x => Function.update sets x (sets x).compl
  | union x y => Function.update sets x ((sets x).after ((sets x).union (sets y)))
  | intersect x y => Function.update sets x ((sets x).after ((sets x).inter (sets y)))
  | difference x y => Function.update sets x ((sets x).after ((sets x).diff (sets y)))

/-- What a call stands for.  An object from `n` on is refused, and with it what comes after it
in a list. -/
def Call.act (n : Nat) (members : Nat → Finset Nat) : Call → Nat → Finset Nat
  | new x => Function.update members x ∅
  | full x => Function.update members x (.range n)
  | insert x i =>
    Function.update members x (if i < n then Insert.insert i (members x) else members x)
  | remove x i => Function.update members x ((members x).erase i)
  | extend x objects =>
    Function.update members x (members x ∪ (objects.takeWhile (· < n)).toFinset)
  | clear x => Function.update members x ∅
  | complement x => Function.update members x (.range n \ members x)
  | union x y => Function.update members x (members x ∪ members y)
  | intersect x y => Function.update members x (members x ∩ members y)
  | difference x y => Function.update members x (members x \ members y)

/-- The sets after a run of calls, all of them empty before. -/
def runAll (n : Nat) (calls : List Call) : Nat → SizedSet :=
  calls.foldl (fun sets call => call.run n sets) fun _ => .empty n

/-- What a run of calls stands for. -/
def actAll (n : Nat) (calls : List Call) : Nat → Finset Nat :=
  calls.foldl (fun members call => call.act n members) fun _ => ∅

/-! ## One operation -/

namespace Matches
variable {n : Nat} {s t : SizedSet} {m k : Finset Nat}

theorem of_objects {set : ObjectSet n} (bits : ∀ i : Fin n, set.contains i = decide (i.val ∈ m))
    (inside : ∀ i ∈ m, i < n) : Matches n ⟨n, set⟩ m := by
  refine .mk set m fun i => ?_
  by_cases within : i < n
  · exact bits ⟨i, within⟩
  · have absent : set.contains i = false :=
      Bool.eq_false_iff.mpr fun present => within (ObjectSet.contains_lt present)
    rw [absent, decide_eq_false fun member => within (inside i member)]

theorem lt (agree : s.Matches n m) {i : Nat} (member : i ∈ m) : i < n := by
  obtain ⟨set, _, bits⟩ := agree
  refine ObjectSet.contains_lt (s := set) ?_
  rw [bits, decide_eq_true member]

theorem empty (n : Nat) : (SizedSet.empty n).Matches n ∅ :=
  .mk ∅ ∅ fun i => by simp

theorem full (n : Nat) : (SizedSet.full n).Matches n (.range n) :=
  of_objects (fun i => by simp) fun i member => Finset.mem_range.mp member

theorem clear (agree : s.Matches n m) : s.clear.Matches n ∅ := by
  obtain ⟨set, _, _⟩ := agree
  exact .mk set.clear ∅ fun i => by simp

theorem compl (agree : s.Matches n m) : s.compl.Matches n (.range n \ m) := by
  obtain ⟨set, _, bits⟩ := agree
  refine of_objects (fun i => ?_) fun i member => ?_
  · simp [bits]
  · exact Finset.mem_range.mp (Finset.mem_sdiff.mp member).1

theorem add_inside (agree : s.Matches n m) {i : Nat} (inside : i < n) :
    ∃ t, s.add i = .ok (decide (i ∉ m), t) ∧ t.Matches n (insert i m) := by
  obtain ⟨set, _, bits⟩ := agree
  have number : object n i = .ok ⟨i, inside⟩ := dif_pos inside
  refine ⟨⟨n, set.insert ⟨i, inside⟩⟩, ?_, .mk _ _ fun j => ?_⟩
  · rw [SizedSet.add, number]
    show Except.ok (!set.contains i, _) = _
    rw [bits, decide_not]
  · rw [ObjectSet.contains_insert, bits, ← Bool.decide_or]
    exact decide_eq_decide.mpr (by rw [Finset.mem_insert, or_comm, eq_comm])

theorem add_outside (agree : s.Matches n m) {i : Nat} (outside : ¬ i < n) :
    s.add i = .error (.outside i n) := by
  obtain ⟨set, _, _⟩ := agree
  have none : object n i = .error (.outside i n) := dif_neg outside
  rw [SizedSet.add, none]
  rfl

theorem addAll (agree : s.Matches n m) (objects : List Nat) :
    (s.addAll objects).1.Matches n (m ∪ (objects.takeWhile (· < n)).toFinset) := by
  -- The set changes with every object, and the first object outside ends the list.
  induction objects generalizing s m with
  | nil =>
    rw [List.takeWhile_nil, List.toFinset_nil, Finset.union_empty]
    exact agree
  | cons i rest ih =>
    by_cases inside : i < n
    · obtain ⟨t, result, more⟩ := agree.add_inside inside
      have both : m ∪ ((i :: rest).takeWhile (· < n)).toFinset
          = insert i m ∪ (rest.takeWhile (· < n)).toFinset := by
        rw [List.takeWhile_cons_of_pos (by simpa using inside), List.toFinset_cons,
          Finset.union_insert, Finset.insert_union]
      rw [SizedSet.addAll, result, both]
      exact ih more
    · rw [SizedSet.addAll, agree.add_outside inside,
        List.takeWhile_cons_of_neg (by simpa using inside)]
      simpa using agree

theorem remove (agree : s.Matches n m) (i : Nat) :
    (s.remove i).1 = decide (i ∈ m) ∧ (s.remove i).2.Matches n (m.erase i) := by
  obtain ⟨set, _, bits⟩ := agree
  refine ⟨bits i, .mk _ _ fun j => ?_⟩
  rw [ObjectSet.contains_erase, bits, ← decide_not, ← Bool.decide_and]
  exact decide_eq_decide.mpr (by rw [Finset.mem_erase, and_comm, ne_eq, eq_comm])

theorem union (first : s.Matches n m) (second : t.Matches n k) :
    ∃ u, s.union t = .ok u ∧ u.Matches n (m ∪ k) := by
  obtain ⟨set, _, bits⟩ := first
  obtain ⟨set', _, bits'⟩ := second
  refine ⟨⟨n, set ∪ set'⟩, SizedSet.union_same set set', .mk _ _ fun i => ?_⟩
  simp [bits, bits', Bool.decide_or]

theorem inter (first : s.Matches n m) (second : t.Matches n k) :
    ∃ u, s.inter t = .ok u ∧ u.Matches n (m ∩ k) := by
  obtain ⟨set, _, bits⟩ := first
  obtain ⟨set', _, bits'⟩ := second
  refine ⟨⟨n, set ∩ set'⟩, SizedSet.inter_same set set', .mk _ _ fun i => ?_⟩
  simp [bits, bits', Bool.decide_and]

theorem diff (first : s.Matches n m) (second : t.Matches n k) :
    ∃ u, s.diff t = .ok u ∧ u.Matches n (m \ k) := by
  obtain ⟨set, _, bits⟩ := first
  obtain ⟨set', _, bits'⟩ := second
  refine ⟨⟨n, set \ set'⟩, SizedSet.diff_same set set', .mk _ _ fun i => ?_⟩
  simp [bits, bits', Bool.decide_and]

/-! ## Questions about the bits -/

theorem size_eq (agree : s.Matches n m) : s.size = n := by
  obtain ⟨_, _, _⟩ := agree
  rfl

theorem length_words (agree : s.Matches n m) : s.set.words.length = n ⌈/⌉ 64 := by
  obtain ⟨set, _, _⟩ := agree
  rw [set.length_words, Nat.ceilDiv_eq_add_pred_div, Words.wordCount, Nat.add_sub_assoc (by decide)]

theorem contains (agree : s.Matches n m) (i : Nat) : s.set.contains i = decide (i ∈ m) := by
  obtain ⟨_, _, bits⟩ := agree
  exact bits i

theorem isEmpty (agree : s.Matches n m) : s.set.isEmpty = decide (m = ∅) := by
  obtain ⟨set, _, bits⟩ := agree
  rw [Bool.eq_iff_iff, ObjectSet.isEmpty_iff_contains, decide_eq_true_iff,
    Finset.eq_empty_iff_forall_notMem]
  simp [bits]

theorem isSubset (first : s.Matches n m) (second : t.Matches n k) :
    s.isSubset t = .ok (decide (m ⊆ k)) := by
  obtain ⟨u, result, rest⟩ := first.diff second
  obtain ⟨set, _, _⟩ := first
  obtain ⟨set', _, _⟩ := second
  rw [SizedSet.diff_same] at result
  cases result
  rw [SizedSet.isSubset_same, ObjectSet.isSubset_eq, rest.isEmpty]
  exact congrArg _ (decide_eq_decide.mpr Finset.sdiff_eq_empty_iff_subset)

theorem intersects (first : s.Matches n m) (second : t.Matches n k) :
    s.intersects t = .ok (decide (m ∩ k).Nonempty) := by
  obtain ⟨u, result, rest⟩ := first.inter second
  obtain ⟨set, _, _⟩ := first
  obtain ⟨set', _, _⟩ := second
  rw [SizedSet.inter_same] at result
  cases result
  rw [SizedSet.intersects_same, ObjectSet.intersects_eq, rest.isEmpty, ← decide_not]
  exact congrArg _ (decide_eq_decide.mpr Finset.nonempty_iff_ne_empty.symm)

/-- The iterator finds the members in increasing order, and then it ends. -/
theorem toList (agree : s.Matches n m) : s.toList.Pairwise (· < ·) ∧
    (∀ i, i ∈ s.toList ↔ i ∈ m) ∧
    ∀ fuel, n ≤ fuel → (Words.Cursor.start s.set.words).take fuel = s.toList := by
  have below : ∀ i ∈ m, i < n := fun i member => agree.lt member
  obtain ⟨set, _, bits⟩ := agree
  have filtered : (SizedSet.mk n set).toList = (List.range n).filter set.contains :=
    set.map_members
  refine ⟨?_, fun i => ?_, fun fuel enough => ?_⟩
  · rw [filtered]
    exact List.pairwise_lt_range.filter _
  · rw [filtered, List.mem_filter, List.mem_range, bits, decide_eq_true_iff]
    exact and_iff_right_of_imp (below i)
  · rw [filtered, set.take_start enough]

theorem card (agree : s.Matches n m) : s.set.card = m.card := by
  obtain ⟨sorted, members, _⟩ := agree.toList
  have same : s.toList.toFinset = m := Finset.ext fun i => by rw [List.mem_toFinset, members]
  rw [← same, List.toFinset_card_of_nodup (sorted.imp Nat.ne_of_lt), SizedSet.toList,
    List.length_map, ObjectSet.card_eq_length_members]

theorem eq_of_words (first : s.Matches n m) (second : t.Matches n k)
    (same : s.set.words = t.set.words) : m = k := by
  ext i
  have bits := first.contains i
  rw [ObjectSet.contains_eq_bit, same, ← ObjectSet.contains_eq_bit, second.contains,
    decide_eq_decide] at bits
  exact bits.symm

theorem eq_iff (first : s.Matches n m) (second : t.Matches n k) : s = t ↔ m = k := by
  constructor
  · rintro rfl
    exact first.eq_of_words second rfl
  · rintro rfl
    obtain ⟨set, _, bits⟩ := first
    obtain ⟨set', _, bits'⟩ := second
    rw [ObjectSet.ext fun i => (bits i).trans (bits' i).symm]

theorem words_eq_iff (first : s.Matches n m) (second : t.Matches n k) :
    s.set.words = t.set.words ↔ m = k := by
  constructor
  · exact first.eq_of_words second
  · intro same
    rw [(first.eq_iff second).mpr same]

end Matches

/-! ## Runs -/

theorem matches_update {n : Nat} {sets : Nat → SizedSet} {members : Nat → Finset Nat}
    (agree : ∀ y, (sets y).Matches n (members y)) {s : SizedSet} {m : Finset Nat}
    (new : s.Matches n m) (x y : Nat) :
    (Function.update sets x s y).Matches n (Function.update members x m y) := by
  by_cases same : y = x
  · rw [same, Function.update_self, Function.update_self]
    exact new
  · rw [Function.update_of_ne same, Function.update_of_ne same]
    exact agree y

theorem Matches.after {n : Nat} {s : SizedSet} {m : Finset Nat}
    {result : Except SizeError SizedSet} (done : ∃ t, result = .ok t ∧ t.Matches n m) :
    (s.after result).Matches n m := by
  obtain ⟨t, rfl, agree⟩ := done
  exact agree

/-- A call keeps sets and members in agreement. -/
theorem Call.run_matches {n : Nat} {sets : Nat → SizedSet} {members : Nat → Finset Nat}
    (agree : ∀ x, (sets x).Matches n (members x)) (call : Call) :
    ∀ x, (call.run n sets x).Matches n (call.act n members x) := by
  cases call with
  | new x => exact matches_update agree (.empty n) x
  | full x => exact matches_update agree (.full n) x
  | insert x i =>
    refine matches_update agree ?_ x
    split
    next inside =>
      obtain ⟨t, result, more⟩ := (agree x).add_inside inside
      exact .after ⟨t, by rw [result]; rfl, more⟩
    next outside =>
      rw [(agree x).add_outside outside]
      exact agree x
  | remove x i => exact matches_update agree ((agree x).remove i).2 x
  | extend x objects => exact matches_update agree ((agree x).addAll objects) x
  | clear x => exact matches_update agree (agree x).clear x
  | complement x => exact matches_update agree (agree x).compl x
  | union x y => exact matches_update agree (.after ((agree x).union (agree y))) x
  | intersect x y => exact matches_update agree (.after ((agree x).inter (agree y))) x
  | difference x y => exact matches_update agree (.after ((agree x).diff (agree y))) x

theorem runAll_matches (n : Nat) (calls : List Call) :
    ∀ x, (runAll n calls x).Matches n (actAll n calls x) := by
  suffices ∀ sets members, (∀ x, (sets x).Matches n (members x)) →
      ∀ x, (calls.foldl (fun sets call => call.run n sets) sets x).Matches n
        (calls.foldl (fun members call => call.act n members) members x) from
    this _ _ fun _ => .empty n
  induction calls with
  | nil => exact fun _ _ agree => agree
  | cons call rest ih => exact fun _ _ agree => ih _ _ (call.run_matches agree)

/-- After every run of calls the bits are a finite set: there are as many words as `n` bits
need, none of their bits from `n` on is set, whatever is asked of them has the answer of the
finite set, and sets with the same members are equal. -/
theorem bits_exact (n : Nat) (calls : List Call) (x y : Nat) :
    let s := runAll n calls x
    let t := runAll n calls y
    let m := actAll n calls x
    let k := actAll n calls y
    s.size = n ∧ s.set.words.length = n ⌈/⌉ 64 ∧
    (∀ i, n ≤ i → Words.bit s.set.words i = false) ∧
    (∀ i, s.set.contains i = decide (i ∈ m)) ∧
    (∀ i, (s.add i).map (·.1) =
      if i < n then .ok (decide (i ∉ m)) else .error (.outside i n)) ∧
    (∀ i, (s.remove i).1 = decide (i ∈ m)) ∧
    s.isSubset t = .ok (decide (m ⊆ k)) ∧
    s.intersects t = .ok (decide (m ∩ k).Nonempty) ∧
    s.set.isEmpty = decide (m = ∅) ∧
    s.set.card = m.card ∧
    s.toList.Pairwise (· < ·) ∧ (∀ i, i ∈ s.toList ↔ i ∈ m) ∧
    (∀ fuel, n ≤ fuel → (Words.Cursor.start s.set.words).take fuel = s.toList) ∧
    (s = t ↔ m = k) ∧ (s.set.words = t.set.words ↔ m = k) := by
  intro s t m k
  have agree : s.Matches n m := runAll_matches n calls x
  have other : t.Matches n k := runAll_matches n calls y
  obtain ⟨sorted, members, ends⟩ := agree.toList
  refine ⟨agree.size_eq, agree.length_words, fun i beyond => ?_, agree.contains, fun i => ?_,
    fun i => (agree.remove i).1, agree.isSubset other, agree.intersects other, agree.isEmpty,
    agree.card, sorted, members, ends, agree.eq_iff other, agree.words_eq_iff other⟩
  · exact s.set.clear_tail i (agree.size_eq.symm ▸ beyond)
  · split
    next inside =>
      obtain ⟨_, result, _⟩ := agree.add_inside inside
      rw [result]
      rfl
    next outside =>
      rw [agree.add_outside outside]
      rfl

end SizedSet
end PlanFeatures
