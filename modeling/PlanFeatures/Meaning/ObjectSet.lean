import PlanFeatures.Meaning.Words

/-!
# Sets of objects

A set over the objects `0, …, n - 1` is a list of 64-bit words with one bit for each
object.  The bits of the last word that stand for no object are always clear, so two sets
with the same members are the same words.  The statements at the end say of every operation
which members the result has.
-/

namespace PlanFeatures

open Words

/-- Words for `n` bits, without any bit beyond. -/
structure Words.Hold (n : Nat) (words : List UInt64) : Prop where
  length : words.length = wordCount n
  clear_tail : ∀ i, n ≤ i → bit words i = false

/-- A row of `n` bits. -/
abbrev Bits (n : Nat) := { words : List UInt64 // Words.Hold n words }

namespace Bits
variable {n : Nat}

/-- Drops the bits beyond the first `n`. -/
def ofWords (words : List UInt64) (length : words.length = wordCount n) : Bits n :=
  ⟨clearTail n words, (length_clearTail n words).trans length, fun i beyond => by
    simp [bit_clearTail length, Nat.not_lt.mpr beyond]⟩

/-- The lowest bits of a number. -/
def ofNat (n k : Nat) : Bits n :=
  ofWords ((List.range (wordCount n)).map fun i => UInt64.ofNat (k >>> (64 * i))) (by simp)

instance {k : Nat} : OfNat (Bits n) k := ⟨ofNat n k⟩

end Bits

structure ObjectSet (n : Nat) where
  bits : Bits n
deriving DecidableEq, Repr

namespace ObjectSet
variable {n : Nat}

def words (s : ObjectSet n) : List UInt64 := s.bits.val

theorem length_words (s : ObjectSet n) : s.words.length = wordCount n := s.bits.property.length

/-- There are bits for the objects only. -/
theorem clear_tail (s : ObjectSet n) (i : Nat) (beyond : n ≤ i) : bit s.words i = false :=
  s.bits.property.clear_tail i beyond

theorem place_lt (s : ObjectSet n) {i : Nat} (inside : i < n) : i / 64 < s.words.length := by
  rw [s.length_words, wordCount]
  omega

def contains (s : ObjectSet n) (i : Nat) : Bool :=
  if inside : i < n then s.words.get ⟨i / 64, s.place_lt inside⟩ &&& mask (i % 64) != 0
  else false

theorem contains_eq_bit (s : ObjectSet n) (i : Nat) : s.contains i = bit s.words i := by
  by_cases inside : i < n
  · rw [contains, dif_pos inside, and_mask_ne_zero _ (Nat.mod_lt i (by decide)),
      bit_eq (s.place_lt inside), List.get_eq_getElem]
  · rw [contains, dif_neg inside, s.clear_tail i (Nat.le_of_not_lt inside)]

def empty : ObjectSet n :=
  ⟨⟨List.replicate (wordCount n) 0, List.length_replicate, fun i _ => bit_replicate_zero _ i⟩⟩

instance : EmptyCollection (ObjectSet n) := ⟨empty⟩

def full : ObjectSet n :=
  ⟨.ofWords (List.replicate (wordCount n) 0xFFFFFFFFFFFFFFFF) List.length_replicate⟩

def insert (s : ObjectSet n) (i : Fin n) : ObjectSet n where
  bits :=
    { val := s.words.modify (i / 64) (· ||| mask (i % 64))
      property.length := by rw [List.length_modify, s.length_words]
      property.clear_tail := fun j beyond => by
        have apart : i.val ≠ j := Nat.ne_of_lt (Nat.lt_of_lt_of_le i.isLt beyond)
        rw [bit_set (s.place_lt i.isLt), s.clear_tail j beyond]
        simp [apart] }

def erase (s : ObjectSet n) (i : Nat) : ObjectSet n :=
  if inside : i < n then
    ⟨{ val := s.words.modify (i / 64) (· &&& ~~~mask (i % 64))
       property.length := by rw [List.length_modify, s.length_words]
       property.clear_tail := fun j beyond => by
         rw [bit_unset (s.place_lt inside), s.clear_tail j beyond, Bool.false_and] }⟩
  else s

def clear (s : ObjectSet n) : ObjectSet n where
  bits :=
    { val := s.words.map fun _ => 0
      property.length := by rw [List.length_map, s.length_words]
      property.clear_tail := fun i _ => bit_map_zero s.words i }

def compl (s : ObjectSet n) : ObjectSet n :=
  ⟨.ofWords (s.words.map (~~~·)) (by rw [List.length_map, s.length_words])⟩

/-- Combines two sets word by word, by an operation that works bit by bit. -/
def combine (f : UInt64 → UInt64 → UInt64) {g : Bool → Bool → Bool}
    (bits : ∀ v w, ∀ i < 64, has (f v w) i = g (has v i) (has w i)) (clear : g false false = false)
    (s t : ObjectSet n) : ObjectSet n where
  bits :=
    { val := List.zipWith f s.words t.words
      property.length := by
        rw [List.length_zipWith, s.length_words, t.length_words, Nat.min_self]
      property.clear_tail := fun i beyond => by
        rw [bit_zipWith bits clear (s.length_words.trans t.length_words.symm),
          s.clear_tail i beyond, t.clear_tail i beyond, clear] }

instance : Union (ObjectSet n) :=
  ⟨combine (· ||| ·) (fun v w i _ => has_or v w i) (Bool.or_false false)⟩

instance : Inter (ObjectSet n) :=
  ⟨combine (· &&& ·) (fun v w i _ => has_and v w i) (Bool.and_false false)⟩

instance : SDiff (ObjectSet n) :=
  ⟨combine (g := fun a b => a && !b) (· &&& ~~~·) (fun v w _ => has_and_not v w) rfl⟩

def isEmpty (s : ObjectSet n) : Bool := s.words.all (· == 0)

def isSubset (s t : ObjectSet n) : Bool :=
  (List.zipWith (· &&& ~~~·) s.words t.words).all (· == 0)

def intersects (s t : ObjectSet n) : Bool := (List.zipWith (· &&& ·) s.words t.words).any (· != 0)

/-- The number of members. -/
def card (s : ObjectSet n) : Nat := totalWeight s.words

theorem allBits_words (s : ObjectSet n) : allBits s.words = (List.range n).filter s.contains := by
  have enough : n ≤ 64 * s.words.length := by
    rw [s.length_words, wordCount]
    omega
  have same : bit s.words = s.contains := funext fun i => (s.contains_eq_bit i).symm
  rw [allBits, ← Nat.add_sub_cancel' enough, List.range_add, List.filter_append, same]
  have none : ((List.range (64 * s.words.length - n)).map (n + ·)).filter s.contains = [] := by
    refine List.filter_eq_nil_iff.mpr fun i member => ?_
    obtain ⟨j, _, rfl⟩ := List.mem_map.mp member
    rw [contains_eq_bit, s.clear_tail _ (Nat.le_add_right n j)]
    decide
  rw [none, List.append_nil]

theorem take_start (s : ObjectSet n) {fuel : Nat} (enough : n ≤ fuel) :
    (Cursor.start s.words).take fuel = (List.range n).filter s.contains := by
  have few : ((List.range n).filter s.contains).length ≤ n :=
    Nat.le_trans (List.length_filter_le _ _) (Nat.le_of_eq List.length_range)
  rw [Cursor.take_eq, Cursor.ahead_start, allBits_words]
  rw [Cursor.ahead_start, allBits_words]
  exact Nat.le_trans few enough

/-- The members in increasing order: there are `n` of them at most. -/
def members (s : ObjectSet n) : List (Fin n) :=
  ((Cursor.start s.words).take n).pmap Fin.mk fun i member => by
    rw [s.take_start (Nat.le_refl n), List.mem_filter, List.mem_range] at member
    exact member.1

/-- Inserts an object; tells whether it is new. -/
def add (s : ObjectSet n) (i : Fin n) : Bool × ObjectSet n := (!s.contains i, s.insert i)

/-- Erases an object; tells whether it was a member. -/
def remove (s : ObjectSet n) (i : Nat) : Bool × ObjectSet n := (s.contains i, s.erase i)

/-- The objects that satisfy a condition. -/
def filter (p : Fin n → Bool) : ObjectSet n :=
  (List.finRange n).foldl (fun s i => if p i then s.insert i else s) ∅

/-- Words from the first on, as unsigned numbers; a list that ends earlier comes
first. -/
def compareWords : List UInt64 → List UInt64 → Ordering
  | [], [] => .eq
  | [], _ :: _ => .lt
  | _ :: _, [] => .gt
  | v :: vs, w :: ws => (compare v.toNat w.toNat).then (compareWords vs ws)

/-! ## Members of the results -/

theorem contains_lt {s : ObjectSet n} {i : Nat} (h : s.contains i = true) : i < n := by
  refine Nat.lt_of_not_le fun beyond => ?_
  rw [contains_eq_bit, s.clear_tail i beyond] at h
  cases h

theorem ext {s t : ObjectSet n} (h : ∀ i : Fin n, s.contains i = t.contains i) : s = t := by
  have same : s.words = t.words := by
    refine Words.ext (s.length_words.trans t.length_words.symm) fun i => ?_
    by_cases inside : i < n
    · rw [← contains_eq_bit, ← contains_eq_bit, h ⟨i, inside⟩]
    · rw [s.clear_tail i (Nat.le_of_not_lt inside), t.clear_tail i (Nat.le_of_not_lt inside)]
  cases s; cases t
  exact congrArg mk (Subtype.ext same)

@[simp] theorem contains_empty (i : Nat) : (∅ : ObjectSet n).contains i = false := by
  rw [contains_eq_bit]
  exact bit_replicate_zero _ i

@[simp] theorem contains_ofWords {words : List UInt64} (length : words.length = wordCount n)
    (i : Fin n) : (mk (.ofWords words length)).contains i = bit words i := by
  rw [contains_eq_bit]
  show bit (clearTail n words) i = _
  rw [bit_clearTail length]
  simp

@[simp] theorem contains_full (i : Fin n) : (full : ObjectSet n).contains i = true := by
  have inside : i / 64 < wordCount n := by
    rw [wordCount]
    omega
  rw [full, contains_ofWords, bit_eq (by simpa using inside), List.getElem_replicate]
  exact has_max (Nat.mod_lt _ (by decide))

@[simp] theorem contains_clear (s : ObjectSet n) (i : Nat) : s.clear.contains i = false := by
  rw [contains_eq_bit]
  exact bit_map_zero s.words i

theorem contains_combine {f : UInt64 → UInt64 → UInt64} {g : Bool → Bool → Bool}
    (bits : ∀ v w, ∀ i < 64, has (f v w) i = g (has v i) (has w i)) (clear : g false false = false)
    (s t : ObjectSet n) (i : Nat) :
    (combine f bits clear s t).contains i = g (s.contains i) (t.contains i) := by
  rw [contains_eq_bit, combine, contains_eq_bit, contains_eq_bit]
  exact bit_zipWith bits clear (s.length_words.trans t.length_words.symm) i

@[simp] theorem contains_union (s t : ObjectSet n) (i : Nat) :
    (s ∪ t).contains i = (s.contains i || t.contains i) :=
  contains_combine _ _ s t i

@[simp] theorem contains_inter (s t : ObjectSet n) (i : Nat) :
    (s ∩ t).contains i = (s.contains i && t.contains i) :=
  contains_combine _ _ s t i

@[simp] theorem contains_sdiff (s t : ObjectSet n) (i : Nat) :
    (s \ t).contains i = (s.contains i && !t.contains i) :=
  contains_combine _ _ s t i

@[simp] theorem contains_compl (s : ObjectSet n) (i : Fin n) :
    s.compl.contains i = !s.contains i := by
  rw [compl, contains_ofWords, bit_map_not (s.place_lt i.isLt), contains_eq_bit]

@[simp] theorem contains_insert (s : ObjectSet n) (i : Fin n) (j : Nat) :
    (s.insert i).contains j = (s.contains j || decide (i.val = j)) := by
  rw [contains_eq_bit, contains_eq_bit]
  exact bit_set (s.place_lt i.isLt) j

@[simp] theorem contains_erase (s : ObjectSet n) (i j : Nat) :
    (s.erase i).contains j = (s.contains j && !decide (i = j)) := by
  rw [erase]
  split
  next inside =>
    rw [contains_eq_bit, contains_eq_bit]
    exact bit_unset (s.place_lt inside) j
  next outside =>
    by_cases same : i = j
    · have absent : s.contains j = false :=
        Bool.eq_false_iff.mpr fun present => outside (same ▸ contains_lt present)
      rw [absent, Bool.false_and]
    · simp [same]

theorem isEmpty_iff_contains {s : ObjectSet n} :
    s.isEmpty = true ↔ ∀ i, s.contains i = false := by
  simp only [isEmpty, all_eq_zero_iff, contains_eq_bit]

theorem isSubset_eq (s t : ObjectSet n) : s.isSubset t = (s \ t).isEmpty := rfl

theorem intersects_eq (s t : ObjectSet n) : s.intersects t = !(s ∩ t).isEmpty :=
  List.not_all_eq_any_not.symm

theorem map_members (s : ObjectSet n) :
    s.members.map Fin.val = (List.range n).filter s.contains := by
  rw [members, List.map_pmap, List.pmap_eq_map, List.map_id', s.take_start (Nat.le_refl n)]

theorem members_eq (s : ObjectSet n) :
    s.members = (List.finRange n).filter fun i : Fin n => s.contains i := by
  have numbers : List.range n = (List.finRange n).map Fin.val :=
    List.ext_getElem (by simp) fun i _ _ => by simp
  refine (List.map_inj_right fun _ _ => Fin.ext).mp ?_
  rw [map_members, numbers, List.filter_map]
  rfl

theorem mem_members {s : ObjectSet n} {i : Fin n} : i ∈ s.members ↔ s.contains i = true := by
  simp [members_eq]

theorem card_eq_length_members (s : ObjectSet n) : s.card = s.members.length := by
  rw [card, totalWeight_eq, allBits_words, ← map_members, List.length_map]

theorem card_le (s : ObjectSet n) : s.card ≤ n := by
  rw [card_eq_length_members, ← List.length_map, map_members]
  exact Nat.le_trans (List.length_filter_le _ _) (Nat.le_of_eq List.length_range)

theorem insert_of_contains {s : ObjectSet n} {i : Fin n} (present : s.contains i = true) :
    s.insert i = s := by
  refine ext fun j => ?_
  by_cases same : i.val = j
  · simp [← same, present]
  · simp [same]

/-- A new member makes a set larger. -/
theorem card_lt_card_insert {s : ObjectSet n} {i : Fin n} (absent : s.contains i = false) :
    s.card < (s.insert i).card := by
  have grows : ∀ l : List (Fin n), i ∈ l →
      (l.filter fun j : Fin n => s.contains j).length
        < (l.filter fun j : Fin n => (s.insert i).contains j).length := by
    intro l member
    obtain ⟨before, after, rfl⟩ := List.append_of_mem member
    have more : ∀ l : List (Fin n), (l.filter fun j : Fin n => s.contains j).length
        ≤ (l.filter fun j : Fin n => (s.insert i).contains j).length := fun l => by
      rw [← List.countP_eq_length_filter, ← List.countP_eq_length_filter]
      exact List.countP_mono_left fun j _ present => by simp [present]
    have first := more before
    have last := more after
    simp only [List.filter_append, List.length_append]
    rw [List.filter_cons_of_neg (by simp [absent]), List.filter_cons_of_pos (by simp),
      List.length_cons]
    omega
  rw [card_eq_length_members, card_eq_length_members, members_eq, members_eq]
  exact grows _ (List.mem_finRange i)

@[simp] theorem contains_filter (p : Fin n → Bool) (i : Fin n) : (filter p).contains i = p i := by
  have grow : ∀ (l : List (Fin n)) (s : ObjectSet n),
      (l.foldl (fun s i => if p i then s.insert i else s) s).contains i
        = (s.contains i || (l.contains i && p i)) := by
    intro l
    induction l with
    | nil => simp
    | cons a l ih =>
      intro s
      simp only [List.foldl_cons, ih]
      by_cases h : i = a
      · subst h; cases p i <;> simp
      · have : ¬ a.val = i.val := fun e => h (Fin.ext e.symm)
        cases p a <;> simp [h, this]
  simpa [filter] using grow (List.finRange n) ∅

end ObjectSet
end PlanFeatures
