import PlanFeatures.Generation.Config
import PlanFeatures.Toml.Library

/-!
# Configuration files

A configuration is written as a TOML document with one key for each setting; the
rules that are off are listed in the table `rules`.  In a document that is read,
missing keys have their default values and other keys are passed over.  The library
that writes and reads documents is a parameter.
-/

namespace PlanFeatures

open Toml (Library Value)

/-- The value under a key as something, or the default if the key is missing. -/
def setting {α : Type} (entries : List (String × Value)) (key : String)
    (read : Value → Option α) (default : α) : Option α :=
  match entries.lookup key with
  | some v => read v
  | none => some default

/-! ## Rules -/

namespace RuleSet

/-- The rules that are off. -/
def toValue (s : RuleSet) : Value :=
  .table [("disabled", .array (s.disabled.map fun r => .string r.name))]

/-- All rules but those of a list are on. -/
def ofList? (library : Library) (v : Value) : Option RuleSet := do
  let names ← library.elements? v
  let rules ← names.mapM fun name => (library.variant? name).bind Rule.ofName?
  return without rules

/-- Without a list of rules that are off, all are on. -/
def ofValue? (library : Library) (v : Value) : Option RuleSet := do
  let fields ← library.record? ["disabled"] v
  setting fields "disabled" (ofList? library) full

end RuleSet

namespace Config

/-! ## Documents -/

/-- The document of a configuration. -/
def toEntries (c : Config) : List (String × Value) := [
  ("concept_complexity_limit", .integer c.limits.concept),
  ("role_complexity_limit", .integer c.limits.role),
  ("boolean_complexity_limit", .integer c.limits.boolean),
  ("count_numerical_complexity_limit", .integer c.limits.count),
  ("distance_numerical_complexity_limit", .integer c.limits.distance),
  ("time_limit_secs", .float c.timeLimit),
  ("feature_limit", .integer c.featureLimit),
  ("rules", c.rules.toValue),
  ("parallel", .boolean c.parallel),
  ("batch_size", .integer c.batchSize)]

/-- The configuration that the keys of a document give. -/
def ofEntries (library : Library) (entries : List (String × Value)) : Option Config := do
  let word (key : String) (default : Nat) := setting entries key library.word32? default
  let size (key : String) (default : Nat) := setting entries key library.word64? default
  return {
    limits := {
      concept := ← word "concept_complexity_limit" default.limits.concept
      role := ← word "role_complexity_limit" default.limits.role
      boolean := ← word "boolean_complexity_limit" default.limits.boolean
      count := ← word "count_numerical_complexity_limit" default.limits.count
      distance := ← word "distance_numerical_complexity_limit" default.limits.distance }
    timeLimit := ← setting entries "time_limit_secs" library.float? default.timeLimit
    featureLimit := ← size "feature_limit" default.featureLimit
    rules := ← setting entries "rules" (RuleSet.ofValue? library) default.rules
    parallel := ← setting entries "parallel" library.boolean? default.parallel
    batchSize := ← size "batch_size" default.batchSize }

/-! ## Texts -/

/-- The text of a configuration. -/
def toText (library : Library) (c : Config) : Except ConfigError String :=
  match library.write c.toEntries with
  | some text => .ok text
  | none => .error .unreadable

/-- The configuration that a text gives, if a run can have it. -/
def ofText (library : Library) (text : String) : Except ConfigError Config := do
  match (library.read text).bind (ofEntries library) with
  | none => throw .unreadable
  | some c =>
    c.validate
    return c

end Config
end PlanFeatures
