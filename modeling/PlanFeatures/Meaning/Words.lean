/-!
# Bits in words

A list of 64-bit words holds the bits `0`, `1`, …, those of the first word first: bit `i` of
the list is bit `i % 64` of the word at place `i / 64`.  A list that has no such place has no
such bit.
-/

namespace PlanFeatures.Words

/-! ## One word -/

/-- The word whose only bit is `i`. -/
def mask (i : Nat) : UInt64 := 1 <<< UInt64.ofNat i

/-- Whether a word has bit `i`. -/
def has (w : UInt64) (i : Nat) : Bool := w.toBitVec.getLsbD i

/-- Number of the lowest bit. -/
def lowest (w : UInt64) : Nat := w.toBitVec.ctz.toNat

/-- Number of bits of each byte. -/
def byteWeights : Vector Nat 256 :=
  Vector.ofFn fun byte => ((List.range 8).filter byte.val.testBit).length

/-- Number of bits among the lowest bytes of a word. -/
def weightBelow : (bytes : Nat) → UInt64 → Nat
  | 0, _ => 0
  | bytes + 1, w => byteWeights[w.toUInt8.toFin] + weightBelow bytes (w >>> 8)

/-- Number of bits. -/
def weight (w : UInt64) : Nat := weightBelow 8 w

@[simp] theorem has_zero (i : Nat) : has 0 i = false := by simp [has]

@[simp] theorem has_and (v w : UInt64) (i : Nat) : has (v &&& w) i = (has v i && has w i) := by
  simp [has]

@[simp] theorem has_or (v w : UInt64) (i : Nat) : has (v ||| w) i = (has v i || has w i) := by
  simp [has]

theorem has_not (w : UInt64) {i : Nat} (inside : i < 64) : has (~~~w) i = !has w i := by
  simp [has, inside]

theorem has_and_not (v w : UInt64) {i : Nat} (inside : i < 64) :
    has (v &&& ~~~w) i = (has v i && !has w i) := by
  rw [has_and, has_not w inside]

theorem has_max {i : Nat} (inside : i < 64) : has 0xFFFFFFFFFFFFFFFF i = true := by
  have ones : (0xFFFFFFFFFFFFFFFF : UInt64) = ~~~0 := rfl
  rw [ones, has_not 0 inside, has_zero, Bool.not_false]

theorem eq_of_has {v w : UInt64} (same : ∀ i < 64, has v i = has w i) : v = w :=
  UInt64.toBitVec_inj.mp (BitVec.eq_of_getLsbD_eq same)

theorem eq_zero_iff {w : UInt64} : w = 0 ↔ ∀ i < 64, has w i = false := by
  constructor
  · rintro rfl i _
    exact has_zero i
  · intro clear
    exact eq_of_has fun i inside => by rw [clear i inside, has_zero]

theorem toBitVec_mask {i : Nat} (inside : i < 64) : (mask i).toBitVec = BitVec.twoPow 64 i := by
  apply BitVec.eq_of_toNat_eq
  simp [mask, BitVec.toNat_twoPow, Nat.mod_eq_of_lt inside, Nat.shiftLeft_eq]

theorem has_mask {i : Nat} (inside : i < 64) (j : Nat) : has (mask i) j = decide (i = j) := by
  rw [has, toBitVec_mask inside, BitVec.getLsbD_twoPow]
  by_cases same : i = j
  · simp [← same, inside]
  · simp [same]

/-- One less than the word of a bit is the word of the bits below. -/
theorem has_mask_sub_one {i : Nat} (inside : i < 64) (j : Nat) :
    has (mask i - 1) j = decide (j < i) := by
  have value : (mask i - 1).toBitVec.toNat = 2 ^ i - 1 := by
    have small : 2 ^ i ≤ 2 ^ 63 := Nat.pow_le_pow_right (by decide) (by omega)
    have positive := Nat.two_pow_pos i
    rw [UInt64.toBitVec_sub, toBitVec_mask inside]
    simp [BitVec.toNat_twoPow, BitVec.toNat_sub]
    omega
  rw [has, BitVec.getLsbD, value, Nat.testBit_two_pow_sub_one]

theorem and_mask_ne_zero (w : UInt64) {i : Nat} (inside : i < 64) :
    (w &&& mask i != 0) = has w i := by
  rw [Bool.eq_iff_iff, bne_iff_ne, ne_eq, eq_zero_iff]
  simp only [has_and, has_mask inside]
  constructor
  · intro some
    refine Bool.of_not_eq_false fun absent => some fun j _ => ?_
    by_cases same : i = j
    · simp [← same, absent]
    · simp [same]
  · intro present none
    simpa [present] using none i inside

/-! ## Lists of words -/

/-- Number of words that hold `n` bits. -/
def wordCount (n : Nat) : Nat := (n + 63) / 64

/-- Whether a list of words has bit `i`. -/
def bit (words : List UInt64) (i : Nat) : Bool := has (words[i / 64]?.getD 0) (i % 64)

/-- Clears the bits of the last word that are not among the first `n`. -/
def clearTail (n : Nat) (words : List UInt64) : List UInt64 :=
  if n % 64 = 0 then words else words.modify (words.length - 1) (· &&& (mask (n % 64) - 1))

@[simp] theorem length_clearTail (n : Nat) (words : List UInt64) :
    (clearTail n words).length = words.length := by
  unfold clearTail
  split <;> simp

theorem bit_eq {words : List UInt64} {i : Nat} (inside : i / 64 < words.length) :
    bit words i = has words[i / 64] (i % 64) := by
  rw [bit, List.getElem?_eq_getElem inside, Option.getD_some]

theorem bit_beyond {words : List UInt64} {i : Nat} (beyond : words.length ≤ i / 64) :
    bit words i = false := by
  rw [bit, List.getElem?_eq_none beyond, Option.getD_none, has_zero]

theorem lt_length_of_bit {words : List UInt64} {i : Nat} (present : bit words i = true) :
    i / 64 < words.length := by
  refine Nat.lt_of_not_le fun beyond => ?_
  rw [bit_beyond beyond] at present
  cases present

theorem ext {v w : List UInt64} (length : v.length = w.length) (same : ∀ i, bit v i = bit w i) :
    v = w := by
  refine List.ext_getElem length fun k left right => eq_of_has fun j inside => ?_
  have here := same (64 * k + j)
  have place : (64 * k + j) / 64 = k := by omega
  have rest : (64 * k + j) % 64 = j := by omega
  simpa [bit, place, rest, left, right] using here

theorem all_eq_zero_iff {words : List UInt64} :
    words.all (· == 0) = true ↔ ∀ i, bit words i = false := by
  simp only [List.all_eq_true, beq_iff_eq]
  constructor
  · intro zero i
    by_cases inside : i / 64 < words.length
    · rw [bit_eq inside, zero _ (List.getElem_mem inside), has_zero]
    · exact bit_beyond (Nat.le_of_not_lt inside)
  · intro clear w member
    obtain ⟨k, inside, rfl⟩ := List.getElem_of_mem member
    refine eq_zero_iff.mpr fun j below => ?_
    have here := clear (64 * k + j)
    have place : (64 * k + j) / 64 = k := by omega
    have rest : (64 * k + j) % 64 = j := by omega
    simpa [bit, place, rest, inside] using here

theorem bit_modify {words : List UInt64} {i : Nat} (inside : i / 64 < words.length)
    (f : UInt64 → UInt64) (j : Nat) :
    bit (words.modify (i / 64) f) j =
      if i / 64 = j / 64 then has (f words[i / 64]) (j % 64) else bit words j := by
  rw [bit, List.getElem?_modify]
  by_cases same : i / 64 = j / 64
  · simp [← same, inside]
  · simp [bit, same]

theorem bit_set {words : List UInt64} {i : Nat} (inside : i / 64 < words.length) (j : Nat) :
    bit (words.modify (i / 64) (· ||| mask (i % 64))) j = (bit words j || decide (i = j)) := by
  rw [bit_modify inside]
  split
  next same =>
    have iff : i % 64 = j % 64 ↔ i = j := by omega
    rw [has_or, has_mask (Nat.mod_lt i (by decide)), bit_eq (same ▸ inside)]
    simp [same, iff]
  next other =>
    have apart : i ≠ j := fun same => other (congrArg (· / 64) same)
    simp [apart]

theorem bit_unset {words : List UInt64} {i : Nat} (inside : i / 64 < words.length) (j : Nat) :
    bit (words.modify (i / 64) (· &&& ~~~mask (i % 64))) j = (bit words j && !decide (i = j)) := by
  rw [bit_modify inside]
  split
  next same =>
    have iff : i % 64 = j % 64 ↔ i = j := by omega
    rw [has_and, has_not _ (Nat.mod_lt j (by decide)), has_mask (Nat.mod_lt i (by decide)),
      bit_eq (same ▸ inside)]
    simp [same, iff]
  next other =>
    have apart : i ≠ j := fun same => other (congrArg (· / 64) same)
    simp [apart]

theorem bit_clearTail {n : Nat} {words : List UInt64} (length : words.length = wordCount n)
    (i : Nat) : bit (clearTail n words) i = (bit words i && decide (i < n)) := by
  rw [wordCount] at length
  unfold clearTail
  split
  next whole =>
    -- The words end where the bits do.
    cases present : bit words i with
    | false => rfl
    | true =>
      have inside := lt_length_of_bit present
      have below : i < n := by omega
      simp [below]
  next part =>
    have last : words.length - 1 = n / 64 := by omega
    have inside : n / 64 < words.length := by omega
    rw [last, bit_modify inside]
    split
    next same =>
      have iff : i % 64 < n % 64 ↔ i < n := by omega
      rw [has_and, has_mask_sub_one (Nat.mod_lt n (by decide)), bit_eq (same ▸ inside)]
      simp [same, iff]
    next other =>
      cases present : bit words i with
      | false => rfl
      | true =>
        have bound := lt_length_of_bit present
        have below : i < n := by omega
        simp [below]

theorem bit_replicate_zero (k i : Nat) : bit (List.replicate k 0) i = false := by
  by_cases inside : i / 64 < k
  · rw [bit_eq (by simpa using inside), List.getElem_replicate, has_zero]
  · exact bit_beyond (by simpa using Nat.le_of_not_lt inside)

theorem bit_map_zero (words : List UInt64) (i : Nat) : bit (words.map fun _ => 0) i = false := by
  rw [List.map_const', bit_replicate_zero]

theorem bit_map_not {words : List UInt64} {i : Nat} (inside : i / 64 < words.length) :
    bit (words.map (~~~·)) i = !bit words i := by
  rw [bit_eq (by simpa using inside), List.getElem_map, has_not _ (Nat.mod_lt i (by decide)),
    bit_eq inside]

/-- Words that are combined by an operation on each bit. -/
theorem bit_zipWith {f : UInt64 → UInt64 → UInt64} {g : Bool → Bool → Bool}
    (bits : ∀ v w, ∀ i < 64, has (f v w) i = g (has v i) (has w i)) (clear : g false false = false)
    {v w : List UInt64} (length : v.length = w.length) (i : Nat) :
    bit (List.zipWith f v w) i = g (bit v i) (bit w i) := by
  by_cases inside : i / 64 < v.length
  · rw [bit_eq (by simpa [← length] using inside), List.getElem_zipWith,
      bits _ _ _ (Nat.mod_lt i (by decide)), bit_eq inside, bit_eq (length ▸ inside)]
  · have beyond := Nat.le_of_not_lt inside
    rw [bit_beyond (by simpa [← length] using beyond), bit_beyond beyond,
      bit_beyond (length ▸ beyond), clear]

/-! ## The lowest bit -/

theorem has_lowest {w : UInt64} (some : w ≠ 0) : has w (lowest w) = true :=
  BitVec.getLsbD_true_ctz_of_ne_zero fun zero => some (UInt64.toBitVec_inj.mp zero)

theorem has_below_lowest (w : UInt64) {i : Nat} (below : i < lowest w) : has w i = false :=
  BitVec.getLsbD_false_of_lt_ctz below

/-- Below its lowest bit a number and its predecessor differ in every bit, above it in none. -/
theorem testBit_and_pred {v c : Nat} (present : v.testBit c = true)
    (below : ∀ i < c, v.testBit i = false) (i : Nat) :
    (v &&& (v - 1)).testBit i = (v.testBit i && !decide (i = c)) := by
  -- Halving takes the lowest bit one place down, until it is the first.
  induction c generalizing v i with
  | zero =>
    have odd : v % 2 = 1 := by simpa using present
    have half : (v - 1) / 2 = v / 2 := by omega
    have last : (v - 1) % 2 = 0 := by omega
    cases i with
    | zero => simp [last]
    | succ i => rw [Nat.testBit_and, Nat.testBit_succ (v - 1), half, ← Nat.testBit_succ]; simp
  | succ c ih =>
    have even : v % 2 = 0 := by simpa using below 0 (Nat.succ_pos c)
    have half : (v - 1) / 2 = v / 2 - 1 := by omega
    cases i with
    | zero => simp [even]
    | succ i =>
      have halved := @ih (v / 2) (by rw [← Nat.testBit_succ]; exact present)
        (fun j before => by rw [← Nat.testBit_succ]; exact below (j + 1) (by omega)) i
      rw [Nat.testBit_and] at halved
      rw [Nat.testBit_and, Nat.testBit_succ, Nat.testBit_succ, half, halved]
      simp

/-- The lowest bit is the one that a word does not share with its predecessor. -/
theorem has_and_pred {w : UInt64} (some : w ≠ 0) (i : Nat) :
    has (w &&& (w - 1)) i = (has w i && !decide (i = lowest w)) := by
  have positive : 1 ≤ w.toBitVec.toNat := by
    refine Nat.pos_of_ne_zero fun zero => some (UInt64.toBitVec_inj.mp ?_)
    exact BitVec.eq_of_toNat_eq zero
  have pred : (w - 1).toBitVec.toNat = w.toBitVec.toNat - 1 := by
    have bound := w.toBitVec.isLt
    rw [UInt64.toBitVec_sub, BitVec.toNat_sub_of_le]
    · rfl
    · simpa [BitVec.le_def] using positive
  have bits := testBit_and_pred (has_lowest some) (fun i below => has_below_lowest w below) i
  rw [has, UInt64.toBitVec_and, BitVec.getLsbD, BitVec.toNat_and, pred, bits]
  rfl

/-- A filter of an initial range starts with the first number that passes. -/
theorem filter_range_first {p q : Nat → Bool} {c k : Nat} (present : p c = true)
    (below : ∀ i < c, p i = false) (others : ∀ i, q i = (p i && !decide (i = c)))
    (inside : c < k) : (List.range k).filter p = c :: (List.range k).filter q := by
  induction k with
  | zero => omega
  | succ k ih =>
    rw [List.range_succ, List.filter_append, List.filter_append]
    by_cases last : k = c
    · have none : (List.range k).filter p = [] :=
        List.filter_eq_nil_iff.mpr fun i member => by
          simp [below i (last ▸ List.mem_range.mp member)]
      have none' : (List.range k).filter q = [] :=
        List.filter_eq_nil_iff.mpr fun i member => by
          simp [others, below i (last ▸ List.mem_range.mp member)]
      rw [none, none']
      simp [last, present, others]
    · rw [ih (by omega)]
      simp [List.filter_cons, others, last]

/-- The bits of a word in increasing order. -/
def wordBits (w : UInt64) : List Nat := (List.range 64).filter (has w)

theorem wordBits_zero : wordBits 0 = [] := by simp [wordBits]

theorem wordBits_eq_cons {w : UInt64} (some : w ≠ 0) :
    wordBits w = lowest w :: wordBits (w &&& (w - 1)) :=
  filter_range_first (has_lowest some) (fun _ below => has_below_lowest w below)
    (has_and_pred some) (BitVec.lt_of_getLsbD (has_lowest some))

theorem has_shift (w : UInt64) (i : Nat) : has (w >>> 8) i = has w (8 + i) := by
  simp [has]

theorem testBit_byte (w : UInt64) {i : Nat} (inside : i < 8) :
    w.toUInt8.toFin.val.testBit i = has w i := by
  show w.toUInt8.toNat.testBit i = w.toBitVec.toNat.testBit i
  have byte : w.toUInt8.toNat = w.toBitVec.toNat % 2 ^ 8 := by simp
  rw [byte, Nat.testBit_mod_two_pow]
  simp [inside]

theorem weightBelow_eq (bytes : Nat) (w : UInt64) :
    weightBelow bytes w = ((List.range (8 * bytes)).filter (has w)).length := by
  induction bytes generalizing w with
  | zero => rfl
  | succ bytes ih =>
    have first : byteWeights[w.toUInt8.toFin] = ((List.range 8).filter (has w)).length := by
      simp only [byteWeights, Fin.getElem_fin, Vector.getElem_ofFn]
      rw [List.filter_congr fun i member => testBit_byte w (List.mem_range.mp member)]
    have others : has (w >>> 8) = has w ∘ (8 + ·) := funext fun i => has_shift w i
    rw [weightBelow, first, ih, others, Nat.mul_succ, Nat.add_comm (8 * bytes), List.range_add,
      List.filter_append, List.filter_map, List.length_append, List.length_map]

theorem weight_eq (w : UInt64) : weight w = (wordBits w).length := weightBelow_eq 8 w

/-! ## Going through the bits -/

/-- The bits of a list of words in increasing order. -/
def allBits (words : List UInt64) : List Nat := (List.range (64 * words.length)).filter (bit words)

theorem allBits_nil : allBits [] = [] := rfl

theorem allBits_cons (w : UInt64) (words : List UInt64) :
    allBits (w :: words) = wordBits w ++ (allBits words).map (64 + ·) := by
  have here : ∀ i < 64, bit (w :: words) i = has w i := fun i inside => by
    rw [bit, Nat.div_eq_of_lt inside, Nat.mod_eq_of_lt inside]
    rfl
  have later : bit (w :: words) ∘ (64 + ·) = bit words := funext fun i => by
    rw [Function.comp, bit, bit, Nat.add_div_left i (by decide), Nat.add_mod_left]
    rfl
  have length : 64 * (w :: words).length = 64 + 64 * words.length := by
    rw [List.length_cons]
    omega
  rw [allBits, length, List.range_add, List.filter_append, List.filter_map,
    List.filter_congr fun i member => here i (List.mem_range.mp member), later]
  rfl

/-- Number of bits of a list of words. -/
def totalWeight (words : List UInt64) : Nat := words.foldr (fun w total => weight w + total) 0

theorem totalWeight_eq (words : List UInt64) : totalWeight words = (allBits words).length := by
  induction words with
  | nil => rfl
  | cons w words ih =>
    rw [totalWeight, List.foldr_cons, ← totalWeight, ih, weight_eq, allBits_cons, List.length_append,
      List.length_map]

/-- A place within the words: what is left of the word with a number, and the words after
it. -/
structure Cursor where
  index : Nat
  word : UInt64
  rest : List UInt64

namespace Cursor

def start : List UInt64 → Cursor
  | [] => ⟨0, 0, []⟩
  | w :: words => ⟨0, w, words⟩

/-- The lowest bit of a word, or of the first word after it that has one. -/
def seek (index : Nat) (word : UInt64) : List UInt64 → Option (Nat × Cursor)
  | [] =>
    if word ≠ 0 then some (64 * index + lowest word, ⟨index, word &&& (word - 1), []⟩) else none
  | next :: rest =>
    if word ≠ 0 then
      some (64 * index + lowest word, ⟨index, word &&& (word - 1), next :: rest⟩)
    else seek (index + 1) next rest

/-- The next bit, which the cursor leaves behind. -/
def next? (c : Cursor) : Option (Nat × Cursor) := seek c.index c.word c.rest

/-- The next bits, `fuel` of them at most. -/
def take : (fuel : Nat) → Cursor → List Nat
  | 0, _ => []
  | fuel + 1, c =>
    match c.next? with
    | none => []
    | some (i, c) => i :: c.take fuel

/-- The bits that are ahead of a cursor. -/
def ahead (c : Cursor) : List Nat := (allBits (c.word :: c.rest)).map (64 * c.index + ·)

theorem ahead_start (words : List UInt64) : (start words).ahead = allBits words := by
  cases words with
  | nil => rfl
  | cons w words => simp [start, ahead]

/-- The next bit is the first of those ahead, and the others stay ahead. -/
theorem seek_cases (index : Nat) (word : UInt64) (rest : List UInt64) :
    (seek index word rest = none ∧ ahead ⟨index, word, rest⟩ = []) ∨
      ∃ i d, seek index word rest = some (i, d) ∧ ahead ⟨index, word, rest⟩ = i :: d.ahead := by
  induction rest generalizing index word with
  | nil =>
    by_cases empty : word = 0
    · refine Or.inl ⟨by rw [seek, if_neg (not_not_intro empty)], ?_⟩
      simp [ahead, empty, allBits_cons, allBits_nil, wordBits_zero]
    · refine Or.inr ⟨_, _, by rw [seek, if_pos empty], ?_⟩
      simp [ahead, allBits_cons, wordBits_eq_cons empty]
  | cons w rest ih =>
    by_cases empty : word = 0
    · have skipped : ahead ⟨index, word, w :: rest⟩ = ahead ⟨index + 1, w, rest⟩ := by
        simp only [ahead]
        rw [allBits_cons, empty, wordBits_zero, List.nil_append, List.map_map]
        refine congrArg (List.map · _) (funext fun i => ?_)
        simp only [Function.comp]
        omega
      rw [seek, if_neg (not_not_intro empty), skipped]
      exact ih (index + 1) w
    · refine Or.inr ⟨_, _, by rw [seek, if_pos empty], ?_⟩
      simp only [ahead]
      rw [allBits_cons word, wordBits_eq_cons empty, allBits_cons (word &&& (word - 1))]
      rfl

theorem take_eq {fuel : Nat} {c : Cursor} (enough : c.ahead.length ≤ fuel) :
    c.take fuel = c.ahead := by
  induction fuel generalizing c with
  | zero => rw [take, List.eq_nil_of_length_eq_zero (Nat.le_zero.mp enough)]
  | succ fuel ih =>
    rcases seek_cases c.index c.word c.rest with ⟨found, none⟩ | ⟨i, d, found, more⟩
    · rw [take, next?, found, none]
    · rw [more, List.length_cons] at enough
      rw [take, next?, found, more, ← ih (Nat.le_of_succ_le_succ enough)]

end Cursor
end PlanFeatures.Words
