/-!
# Pairing of machine words

Szudzik's pairing numbers the pairs of natural numbers shell by shell: the pairs
whose larger component is `m` get the numbers from `m * m` up to `m * m + 2 * m`.
Here it works on 64-bit words, where sums and products wrap; components below
`2 ^ 32` never do.
-/

namespace PlanFeatures

/-- Number of a pair of words. -/
def pair (a b : UInt64) : UInt64 :=
  if a < b then b * b + a else a * a + a + b

/-- Number of a quadruple of words: the pair of the numbers of its two halves. -/
def pair4 (a b c d : UInt64) : UInt64 := pair (pair a b) (pair c d)

end PlanFeatures
