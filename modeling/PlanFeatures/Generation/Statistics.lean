import PlanFeatures.Grammar.Rule
import PlanFeatures.Sample.Representatives

/-!
# Statistics of a run

For every rule the number of its candidates and what became of them, and some
totals.  The printed table lists the rules that had candidates.
-/

namespace PlanFeatures

structure RuleCounts where
  candidates : Nat
  kept : Nat
  duplicates : Nat
  known : Nat
deriving DecidableEq, Repr

namespace RuleCounts

def zero : RuleCounts := ⟨0, 0, 0, 0⟩

def addCandidate (c : RuleCounts) : RuleCounts := { c with candidates := c.candidates + 1 }

/-- Counts what became of a candidate. -/
def record (c : RuleCounts) : Registration → RuleCounts
  | .kept => { c with kept := c.kept + 1 }
  | .duplicate _ => { c with duplicates := c.duplicates + 1 }
  | .known => { c with known := c.known + 1 }

def add (c d : RuleCounts) : RuleCounts :=
  ⟨c.candidates + d.candidates, c.kept + d.kept, c.duplicates + d.duplicates, c.known + d.known⟩

end RuleCounts

structure Statistics where
  /-- By the place of the rule in `Rule.all`. -/
  counts : Vector RuleCounts Rule.count
  /-- Number of layers that were completed. -/
  layers : Nat
  /-- Number of vectors that were computed. -/
  evaluations : Nat
  /-- Number of vectors that are remembered at the end. -/
  cachedVectors : Nat
  /-- Size of the store at the end. -/
  storeSize : Nat
deriving DecidableEq, Repr

namespace Statistics

def zero : Statistics := ⟨Vector.replicate Rule.count .zero, 0, 0, 0, 0⟩

def rule (s : Statistics) (r : Rule) : RuleCounts := s.counts.get r.position

/-- Changes the counts of a rule. -/
def modifyRule (s : Statistics) (r : Rule) (f : RuleCounts → RuleCounts) : Statistics :=
  { s with counts := s.counts.set r.position (f (s.rule r)) r.position_lt }

/-- The rules that had candidates, with their counts. -/
def rules (s : Statistics) : List (Rule × RuleCounts) :=
  (Rule.all.map fun r => (r, s.rule r)).filter fun (_, c) => c.candidates ≠ 0

def total (s : Statistics) : RuleCounts := s.counts.foldl .add .zero

/-! ## Table -/

def blanks (n : Nat) : String := String.ofList (List.replicate n ' ')

def padLeft (width : Nat) (s : String) : String := blanks (width - s.length) ++ s

def padRight (width : Nat) (s : String) : String := s ++ blanks (width - s.length)

/-- A label in 32 columns, then four cells in 10 columns each, set to the right. -/
def row (label : String) (cells : List String) : String :=
  String.intercalate " " (padRight 32 label :: cells.map (padLeft 10)) ++ "\n"

def countsRow (label : String) (c : RuleCounts) : String :=
  row label ([c.candidates, c.kept, c.duplicates, c.known].map toString)

/-- The time that a run took.  Runs are not timed. -/
def elapsedText : String := "0.000ns"

/-- The table of the rules, the line of totals and a last line about the run. -/
def text (s : Statistics) : String :=
  row "rule" ["candidates", "kept", "duplicates", "known"]
    ++ String.join (s.rules.map fun (r, c) => countsRow r.name c)
    ++ countsRow "total" s.total
    ++ s!"layers: {s.layers}, elapsed: {elapsedText}, evaluations: {s.evaluations}, "
    ++ s!"cached vectors: {s.cachedVectors}, factory size: {s.storeSize}"

end Statistics
end PlanFeatures
