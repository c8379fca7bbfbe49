import Mathlib.Data.Nat.Pairing
import Mathlib.Data.Set.Function
import PlanFeatures.Grammar.Node

/-!
# Hashes of small nodes differ

Szudzik's pairing counts the squares of the grid shell by shell, so the pairs of numbers below
`n` get exactly the numbers below `n * n`.  For words of 64 bits the last square that fits is the
one of `2 ^ 32`: below it nothing wraps, and every word is the number of one pair.

The hash of a node pairs the words of the node twice.  Words below `2 ^ 16` have pairs below
`2 ^ 32`, whose pairs do not wrap either, so the hash determines the words; and the words
determine the node, since the first of them tells which constructor they belong to.
-/

namespace PlanFeatures

/-! ## Words that do not wrap -/

/-- The sum, if it is a word. -/
def sum? (a b : UInt64) : Option UInt64 :=
  if a.toNat + b.toNat < UInt64.size then some (a + b) else none

/-- The product, if it is a word. -/
def product? (a b : UInt64) : Option UInt64 :=
  if a.toNat * b.toNat < UInt64.size then some (a * b) else none

/-- Number of a pair of words, if no sum and no product on the way wraps. -/
def pair? (a b : UInt64) : Option UInt64 :=
  if a < b then do
    let square ← product? b b
    sum? square a
  else do
    let square ← product? a a
    let corner ← sum? square a
    sum? corner b

theorem sum?_eq_some {a b : UInt64} (fits : a.toNat + b.toNat < UInt64.size) :
    sum? a b = some (a + b) ∧ (a + b).toNat = a.toNat + b.toNat :=
  ⟨if_pos fits, by rw [UInt64.toNat_add]; exact Nat.mod_eq_of_lt fits⟩

theorem product?_eq_some {a b : UInt64} (fits : a.toNat * b.toNat < UInt64.size) :
    product? a b = some (a * b) ∧ (a * b).toNat = a.toNat * b.toNat :=
  ⟨if_pos fits, by rw [UInt64.toNat_mul]; exact Nat.mod_eq_of_lt fits⟩

/-- What comes before the number of a pair is smaller, so nothing wraps if the number is a
word. -/
theorem pair?_eq_some {a b : UInt64} (fits : Nat.pair a.toNat b.toNat < UInt64.size) :
    pair? a b = some (pair a b) ∧ (pair a b).toNat = Nat.pair a.toNat b.toNat := by
  by_cases less : a < b
  · have number : Nat.pair a.toNat b.toNat = b.toNat * b.toNat + a.toNat :=
      if_pos (UInt64.lt_iff_toNat_lt.mp less)
    rw [number] at fits ⊢
    obtain ⟨square, squared⟩ := product?_eq_some (a := b) (b := b) (by omega)
    obtain ⟨sum, summed⟩ := sum?_eq_some (a := b * b) (b := a) (by omega)
    rw [pair?, pair, if_pos less, if_pos less, square, summed, squared]
    exact ⟨sum, rfl⟩
  · have number : Nat.pair a.toNat b.toNat = a.toNat * a.toNat + a.toNat + b.toNat :=
      if_neg fun lower => less (UInt64.lt_iff_toNat_lt.mpr lower)
    rw [number] at fits ⊢
    obtain ⟨square, squared⟩ := product?_eq_some (a := a) (b := a) (by omega)
    obtain ⟨corner, cornered⟩ := sum?_eq_some (a := a * a) (b := a) (by omega)
    obtain ⟨sum, summed⟩ := sum?_eq_some (a := a * a + a) (b := b) (by omega)
    rw [pair?, pair, if_neg less, if_neg less, square, summed, cornered, squared]
    exact ⟨(congrArg (· >>= fun corner => sum? corner b) corner).trans sum, rfl⟩

/-! ## Squares of the grid -/

/-- Pairs of numbers below `n` have numbers below `n * n`. -/
theorem pair_lt_square {a b n : Nat} (left : a < n) (right : b < n) : Nat.pair a b < n * n := by
  have shell : Nat.pair a b < (max a b + 1) * (max a b + 1) := by
    rw [← Nat.pow_two]
    exact Nat.pair_lt_max_add_one_sq a b
  have inside : max a b + 1 ≤ n := Nat.max_lt.mpr ⟨left, right⟩
  exact Nat.lt_of_lt_of_le shell (Nat.mul_le_mul inside inside)

/-- Only pairs of numbers below `n` have numbers below `n * n`. -/
theorem lt_of_pair_lt_square {a b n : Nat} (number : Nat.pair a b < n * n) : a < n ∧ b < n := by
  have square : max a b * max a b + min a b ≤ Nat.pair a b := by
    rw [← Nat.pow_two]
    exact Nat.max_sq_add_min_le_pair a b
  have inside : max a b < n := by
    by_contra outside
    have larger := Nat.mul_le_mul (Nat.not_lt.mp outside) (Nat.not_lt.mp outside)
    omega
  exact Nat.max_lt.mp inside

theorem square_uint32_size : UInt32.size * UInt32.size = UInt64.size := rfl

theorem square_uint16_size : UInt16.size * UInt16.size = UInt32.size := rfl

/-- The pairs of words below `2 ^ 32`. -/
def halfWords : Set (UInt64 × UInt64) := {p | p.1.toNat < UInt32.size ∧ p.2.toNat < UInt32.size}

theorem pair_exact {a b : UInt64} (left : a.toNat < UInt32.size) (right : b.toNat < UInt32.size) :
    pair? a b = some (pair a b) ∧ (pair a b).toNat = Nat.pair a.toNat b.toNat :=
  pair?_eq_some (square_uint32_size ▸ pair_lt_square left right)

theorem toNat_pair {a b : UInt64} (left : a.toNat < UInt32.size) (right : b.toNat < UInt32.size) :
    (pair a b).toNat = Nat.pair a.toNat b.toNat :=
  (pair_exact left right).2

theorem toNat_toUInt64 {n : Nat} (small : n < UInt32.size) : n.toUInt64.toNat = n :=
  Nat.mod_eq_of_lt (Nat.lt_trans small (by decide))

/-- Each word is the number of one pair of words of half the length. -/
theorem pair_bijOn : Set.BijOn (fun p => pair p.1 p.2) halfWords Set.univ := by
  refine ⟨fun p _ => Set.mem_univ _, ?_, ?_⟩
  · rintro ⟨a, b⟩ ⟨left, right⟩ ⟨c, d⟩ ⟨left', right'⟩ same
    have numbers := congrArg UInt64.toNat same
    simp only [toNat_pair left right, toNat_pair left' right'] at numbers
    obtain ⟨first, second⟩ := Nat.pair_eq_pair.mp numbers
    rw [UInt64.toNat_inj.mp first, UInt64.toNat_inj.mp second]
  · intro w _
    have number : Nat.pair w.toNat.unpair.1 w.toNat.unpair.2 < UInt32.size * UInt32.size := by
      rw [Nat.pair_unpair]
      exact w.toNat_lt
    obtain ⟨left, right⟩ := lt_of_pair_lt_square number
    have first := toNat_toUInt64 left
    have second := toNat_toUInt64 right
    rw [← first] at left
    rw [← second] at right
    refine ⟨(w.toNat.unpair.1.toUInt64, w.toNat.unpair.2.toUInt64), ⟨left, right⟩, ?_⟩
    apply UInt64.toNat_inj.mp
    rw [toNat_pair left right, first, second, Nat.pair_unpair]

/-- Four words below `2 ^ 16` have pairs below `2 ^ 32`, so the pair of these pairs is exact. -/
theorem toNat_pair4 {a b c d : Nat} (first : a < UInt16.size) (second : b < UInt16.size)
    (third : c < UInt16.size) (fourth : d < UInt16.size) :
    (pair4 a.toUInt64 b.toUInt64 c.toUInt64 d.toUInt64).toNat
      = Nat.pair (Nat.pair a b) (Nat.pair c d) := by
  have word : ∀ {x : Nat}, x < UInt16.size →
      x.toUInt64.toNat = x ∧ x.toUInt64.toNat < UInt32.size := by
    intro x bound
    have wide : x < UInt32.size := Nat.lt_trans bound (by decide)
    rw [toNat_toUInt64 wide]
    exact ⟨rfl, wide⟩
  have half : ∀ {x y : Nat}, x < UInt16.size → y < UInt16.size →
      (pair x.toUInt64 y.toUInt64).toNat = Nat.pair x y ∧ Nat.pair x y < UInt32.size := by
    intro x y left right
    rw [toNat_pair (word left).2 (word right).2, (word left).1, (word right).1]
    exact ⟨rfl, square_uint16_size ▸ pair_lt_square left right⟩
  obtain ⟨left, low⟩ := half first second
  obtain ⟨right, high⟩ := half third fourth
  rw [pair4, toNat_pair (left ▸ low) (right ▸ high), left, right]

/-! ## Words of nodes -/

namespace Node

/-- The symbols, positions and operands of the node have numbers below a bound. -/
def Below (bound : Nat) (n : Node) : Prop :=
  (∀ symbol ∈ n.symbols, symbol < bound) ∧ ∀ h ∈ n.operands, h.index < bound

/-- The node that has given words. -/
def ofWords? : Nat × Nat × Nat × Nat → Option Node
  | (0, p, i, _) => some (leaf (.conceptPrimitive ⟨p⟩ i))
  | (1, _, _, _) => some (leaf .conceptBot)
  | (2, _, _, _) => some (leaf .conceptTop)
  | (3, k, _, _) => some (leaf (.conceptOneOf ⟨k⟩))
  | (4, a, _, _) => some (unary .conceptNot a)
  | (5, a, b, _) => some (binary .conceptAnd a b)
  | (6, a, b, _) => some (binary .conceptOr a b)
  | (7, a, b, _) => some (binary .conceptDiff a b)
  | (8, a, i, _) => some (unary (.conceptProjection i) a)
  | (9, a, b, _) => some (binary .conceptSome a b)
  | (10, a, b, _) => some (binary .conceptAll a b)
  | (11, a, b, _) => some (binary .conceptEqual a b)
  | (12, a, b, _) => some (binary .conceptSubset a b)
  | (13, p, i, j) => some (leaf (.rolePrimitive ⟨p⟩ i j))
  | (14, _, _, _) => some (leaf .roleTop)
  | (15, a, _, _) => some (unary .roleInverse a)
  | (16, a, _, _) => some (unary .roleNot a)
  | (17, a, b, _) => some (binary .roleAnd a b)
  | (18, a, b, _) => some (binary .roleOr a b)
  | (19, a, b, _) => some (binary .roleDiff a b)
  | (20, a, b, _) => some (binary .roleCompose a b)
  | (21, a, _, _) => some (unary .roleIdentity a)
  | (22, a, b, _) => some (binary .roleRestrict a b)
  | (23, a, _, _) => some (unary .roleClosure a)
  | (24, a, _, _) => some (unary .roleReflexiveClosure a)
  | (25, p, _, _) => some (leaf (.booleanNullary ⟨p⟩))
  | (26, a, _, _) => some (unary .emptyConcept a)
  | (27, a, _, _) => some (unary .emptyRole a)
  | (28, a, b, _) => some (binary .inclusionConcept a b)
  | (29, a, b, _) => some (binary .inclusionRole a b)
  | (30, a, _, _) => some (unary .countConcept a)
  | (31, a, _, _) => some (unary .countRole a)
  | (32, a, r, b) => some (distance a r b)
  | (33, a, b, _) => some (binary .roleClosureThrough a b)
  | _ => none

theorem ofWords?_words (n : Node) : ofWords? n.words = some n := by
  cases n with
  | leaf l => cases l <;> rfl
  | unary op a => cases op <;> rfl
  | binary op a b => cases op <;> rfl
  | distance a r b => rfl

theorem words_injective {n m : Node} (same : n.words = m.words) : n = m := by
  have found := ofWords?_words n
  rw [same, ofWords?_words] at found
  exact (Option.some.inj found).symm

/-- The words of a node after the first are its symbols, positions and operands, or zero. -/
theorem Below.words {n : Node} (below : n.Below UInt16.size) :
    n.words.1 < UInt16.size ∧ n.words.2.1 < UInt16.size ∧ n.words.2.2.1 < UInt16.size ∧
      n.words.2.2.2 < UInt16.size := by
  obtain ⟨symbols, operands⟩ := below
  cases n with
  | leaf l => cases l <;> simp_all [Node.words, Node.symbols, Leaf.symbols, UInt16.size]
  | unary op a =>
    cases op <;> simp_all [Node.words, Node.symbols, UnaryOp.symbols, Node.operands, UInt16.size]
  | binary op a b => cases op <;> simp_all [Node.words, Node.operands, UInt16.size]
  | distance a r b => simp_all [Node.words, Node.operands, UInt16.size]

theorem toNat_hash {n : Node} (below : n.Below UInt16.size) :
    n.hash.toNat = Nat.pair (Nat.pair n.words.1 n.words.2.1)
      (Nat.pair n.words.2.2.1 n.words.2.2.2) := by
  obtain ⟨tag, first, second, third⟩ := below.words
  exact toNat_pair4 tag first second third

/-- Small nodes with one hash are the same. -/
theorem eq_of_hash {n m : Node} (small : n.Below UInt16.size) (small' : m.Below UInt16.size)
    (same : n.hash = m.hash) : n = m := by
  have numbers := congrArg UInt64.toNat same
  rw [toNat_hash small, toNat_hash small'] at numbers
  obtain ⟨left, right⟩ := Nat.pair_eq_pair.mp numbers
  obtain ⟨tag, first⟩ := Nat.pair_eq_pair.mp left
  obtain ⟨second, third⟩ := Nat.pair_eq_pair.mp right
  exact words_injective (Prod.ext tag (Prod.ext first (Prod.ext second third)))

/-- Pairs of words below `2 ^ 32` are numbered without wrapping, each word is the number of one
of them, and different nodes with numbers below `2 ^ 16` have different hashes. -/
theorem hash_exact :
    (∀ a b : UInt64, (a, b) ∈ halfWords →
      pair? a b = some (pair a b) ∧ (pair a b).toNat = Nat.pair a.toNat b.toNat) ∧
    Set.BijOn (fun p => pair p.1 p.2) halfWords Set.univ ∧
    ∀ n m : Node, n.Below UInt16.size → m.Below UInt16.size → n ≠ m → n.hash ≠ m.hash :=
  ⟨fun _ _ small => pair_exact small.1 small.2, pair_bijOn,
    fun _ _ small small' differ same => differ (eq_of_hash small small' same)⟩

/-- The largest pair has the largest number, and the largest node with three words is apart from
the largest leaf. -/
theorem hash_exact_largest :
    pair? 4294967295 4294967295 = some 18446744073709551615 ∧
      (distance 65535 65535 65535).hash ≠ (leaf (.rolePrimitive ⟨65535⟩ 65535 65535)).hash := by
  obtain ⟨exact_, _, differ⟩ := hash_exact
  refine ⟨(exact_ 4294967295 4294967295 ⟨by decide, by decide⟩).1, differ _ _ ?_ ?_ (by decide)⟩
  · exact ⟨by decide, by decide⟩
  · exact ⟨by decide, by decide⟩

end Node
end PlanFeatures
