import Std.Data.TreeMap

/-!
# Unique tables

A table keeps each value once and numbers the values from 1 in the order of their first
insertion.  Values whose hashes select the same bucket are chained: every bucket knows its
first index, and every index the one after it.  A table starts with a power of two of
buckets and doubles them as soon as there are more than two values to a bucket on average.
All the values are then chained anew.
-/

namespace PlanFeatures

/-- The chains of indices that make up the buckets.  There is no index 0: it stands for the
end of a chain. -/
structure Chains where
  /-- The index after `i` is at place `i - 1`. -/
  nexts : Array Nat
  /-- The first indices of the buckets that are not empty, by number. -/
  heads : Std.TreeMap Nat Nat
deriving Repr

namespace Chains

def empty : Chains := ⟨#[], ∅⟩

instance : EmptyCollection Chains := ⟨empty⟩

/-- The first index of a bucket. -/
def head (c : Chains) (slot : Nat) : Nat := c.heads.getD slot 0

/-- The index after another one. -/
def next? (c : Chains) : Nat → Option Nat
  | 0 => none
  | i + 1 => c.nexts[i]?

def setNext (c : Chains) (i next : Nat) : Chains :=
  let ⟨nexts, heads⟩ := c
  ⟨nexts.setIfInBounds (i - 1) next, heads⟩

/-- Puts an index behind the last one of a bucket, which is 0 when the bucket is empty. -/
def link (c : Chains) (slot last i : Nat) : Chains :=
  if last = 0 then
    let ⟨nexts, heads⟩ := c
    ⟨nexts, heads.insert slot i⟩
  else c.setNext last i

/-- Makes room for one more index. -/
def extend (c : Chains) : Chains :=
  let ⟨nexts, heads⟩ := c
  ⟨nexts.push 0, heads⟩

/-- Puts an index into a bucket out of which it has not been taken yet.  The last indices of
the buckets are kept beside the chains. -/
def move (slot i : Nat) (state : Chains × Std.TreeMap Nat Nat) : Chains × Std.TreeMap Nat Nat :=
  let (c, lasts) := state
  -- The index after `i` is still the one of the old chain.
  ((c.setNext i 0).link slot (lasts.getD slot 0) i, lasts.insert slot i)

end Chains

structure UniqueTable (α : Type) where
  /-- The value with index `i` is at place `i - 1`. -/
  values : Array α
  bucketCount : Nat
  chains : Chains
deriving Repr

namespace UniqueTable
variable {α : Type}

/-- The largest exponent for the number of buckets. -/
def maxBits : Nat := 31

/-- A table without values and with `2 ^ bits` buckets, unless that is too many. -/
def empty? (bits : Nat) : Option (UniqueTable α) :=
  if bits ≤ maxBits then some ⟨#[], 1 <<< bits, ∅⟩ else none

def size (t : UniqueTable α) : Nat := t.values.size

def isEmpty (t : UniqueTable α) : Bool := t.values.isEmpty

/-- The value with an index. -/
def get? (t : UniqueTable α) : Nat → Option α
  | 0 => none
  | i + 1 => t.values[i]?

/-- The index that follows `i` in its bucket, or 0 at the bucket's end. -/
def next? (t : UniqueTable α) (i : Nat) : Option Nat := t.chains.next? i

/-- The indices in use, in increasing order, each with its value. -/
def toList (t : UniqueTable α) : List (Nat × α) :=
  t.values.toList.zipIdx.map fun (a, i) => (i + 1, a)

variable [Hashable α]

/-- Number of the bucket that a value belongs to: the last bits of its hash. -/
def slot (bucketCount : Nat) (a : α) : Nat := (hash a &&& UInt64.ofNat (bucketCount - 1)).toNat

/-- Puts the value at a place into one of `n` buckets. -/
def moveValue (n : Nat) (state : Chains × Std.TreeMap Nat Nat) (entry : α × Nat) :
    Chains × Std.TreeMap Nat Nat :=
  Chains.move (slot n entry.1) (entry.2 + 1) state

/-- Chains all values when there are `n` buckets. -/
def rechain (n : Nat) (values : Array α) (nexts : Array Nat) : Chains :=
  (values.toList.zipIdx.foldl (moveValue n) (⟨nexts, ∅⟩, ∅)).1

/-- Doubles the buckets when there are more than two values to each. -/
def grow (t : UniqueTable α) : UniqueTable α :=
  if t.size ≤ 2 * t.bucketCount ∨ 1 <<< maxBits ≤ t.bucketCount then t
  else
    let ⟨values, bucketCount, nexts, _⟩ := t
    ⟨values, 2 * bucketCount, rechain (2 * bucketCount) values nexts⟩

/-- Adds a value behind the last index of its bucket. -/
def append (t : UniqueTable α) (a : α) (last : Nat) : UniqueTable α :=
  let ⟨values, bucketCount, chains⟩ := t
  let i := values.size + 1
  ⟨values.push a, bucketCount, chains.extend.link (slot bucketCount a) last i⟩

/-- Where the way along a bucket ends. -/
inductive Place where
  | stored (index : Nat)
  /-- The value is not there, and the last index of the bucket is `last`. -/
  | missing (last : Nat)

variable [DecidableEq α]

/-- Looks for a value from index `i` on, `fuel` indices far at most. -/
def along (t : UniqueTable α) (a : α) : (fuel last i : Nat) → Place
  | 0, last, _ => .missing last
  | fuel + 1, last, i =>
    if i = 0 then .missing last
    else if t.get? i = some a then .stored i
    else t.along a fuel i ((t.next? i).getD 0)

/-- Looks for a value in its bucket, which cannot be longer than the table. -/
def place (t : UniqueTable α) (a : α) : Place :=
  t.along a t.size 0 (t.chains.head (slot t.bucketCount a))

/-- The index of a value, if it is in the table. -/
def find? (t : UniqueTable α) (a : α) : Option Nat :=
  match t.place a with
  | .stored i => some i
  | .missing _ => none

/-- The index of a value, which is added to the table if it is new. -/
def put (t : UniqueTable α) (a : α) : Nat × UniqueTable α :=
  match t.place a with
  | .stored i => (i, t)
  | .missing last => (t.size + 1, (t.append a last).grow)

end UniqueTable
end PlanFeatures
