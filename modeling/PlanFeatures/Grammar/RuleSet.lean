import PlanFeatures.Grammar.Rule

/-!
# Sets of enabled rules

A rule set is given by the rules that are switched off; at first there are none.
They are listed in the order of enumeration, each once.
-/

namespace PlanFeatures

structure RuleSet where
  /-- Whether a rule is off, by its place in `Rule.all`. -/
  off : Vector Bool Rule.count
deriving DecidableEq

namespace RuleSet

/-- Every rule is on. -/
def full : RuleSet := ⟨Vector.replicate Rule.count false⟩

def isEnabled (s : RuleSet) (r : Rule) : Bool := !s.off[r.position]

def setEnabled (s : RuleSet) (r : Rule) (enabled : Bool) : RuleSet :=
  ⟨s.off.set r.position (!enabled)⟩

def enabled (s : RuleSet) : List Rule := Rule.all.filter s.isEnabled

def disabled (s : RuleSet) : List Rule := Rule.all.filter fun r => !s.isEnabled r

/-- All rules but the given ones are on. -/
def without (rules : List Rule) : RuleSet :=
  rules.foldl (fun s r => s.setEnabled r false) full

/-- Exactly the given rules are on. -/
def only (rules : List Rule) : RuleSet :=
  Rule.all.foldl (fun s r => s.setEnabled r (rules.contains r)) full

instance : Inhabited RuleSet := ⟨full⟩

/-! ## Switches with a name of their own -/

/-- The rules that have a named switch, with the name of the switch. -/
def switches : List (String × Rule) :=
  [("inclusion_boolean", .booleanInclusion), ("diff_concept", .conceptDiff),
   ("or_concept", .conceptOr), ("subset_concept", .conceptSubset), ("and_role", .roleAnd),
   ("compose_role", .roleCompose), ("diff_role", .roleDiff), ("identity_role", .roleIdentity),
   ("not_role", .roleNot), ("or_role", .roleOr), ("top_role", .roleTop),
   ("transitive_reflexive_closure_role", .roleReflexiveClosure)]

/-- The rule of a named switch. -/
def switch? (name : String) : Option Rule := switches.lookup name

/-! ## What the switches do -/

theorem isEnabled_full (r : Rule) : full.isEnabled r = true := by
  simp [full, isEnabled]

theorem isEnabled_setEnabled (s : RuleSet) (r q : Rule) (b : Bool) :
    (s.setEnabled r b).isEnabled q = if r = q then b else s.isEnabled q := by
  have inj : ∀ r q : Rule, r.position.val = q.position.val → r = q := fun r q h => by
    have hr := Rule.getElem?_position r
    rw [h, Rule.getElem?_position q] at hr
    exact (Option.some.inj hr).symm
  by_cases h : r = q
  · subst h; simp [isEnabled, setEnabled]
  · have : r.position.val ≠ q.position.val := fun e => h (inj r q e)
    simp [isEnabled, setEnabled, h, this]

end RuleSet
end PlanFeatures
