import PlanFeatures.Number.Binary64

/-!
# Durations

A duration is a number of seconds and nanoseconds.
-/

namespace PlanFeatures

structure Duration where
  seconds : Nat
  nanoseconds : Nat
deriving DecidableEq, Repr

namespace Duration

def nanosecondsPerSecond : Nat := 1000000000

/-- The longest duration: the seconds fit into 64 bits. -/
def longest : Duration := ⟨UInt64.size - 1, nanosecondsPerSecond - 1⟩

/-- A number of seconds, to the nearest nanosecond.  What is negative, too large or
not a number counts as the longest duration. -/
def ofSeconds (x : Binary64) : Duration :=
  if !x.isFinite || (x.isNegative && x.units != 0) then longest
  else
    let total := roundDiv (x.units * nanosecondsPerSecond) (1 <<< Binary64.unitBits)
    let seconds := total / nanosecondsPerSecond
    if seconds < UInt64.size then ⟨seconds, total % nanosecondsPerSecond⟩ else longest

def isZero (d : Duration) : Bool := d.seconds = 0 ∧ d.nanoseconds = 0

end Duration
end PlanFeatures
