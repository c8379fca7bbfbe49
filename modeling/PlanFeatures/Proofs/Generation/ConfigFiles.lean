import PlanFeatures.Generation.ConfigText
import PlanFeatures.Proofs.Domain.Made
import PlanFeatures.Proofs.Strict.Fault
import PlanFeatures.Proofs.Toml.Standard

/-!
# Configurations survive writing and reading

The document of a configuration has one key for each setting and a table of the rules that are off.
A lawful library writes it unless a number has more than 63 bits, and from what is written it reads
the same value under each key, which gives the configuration back.
-/

namespace PlanFeatures

open Toml

/-! ## Rules that are off -/

namespace RuleSet

theorem ext_isEnabled {s t : RuleSet} (same : ∀ r, s.isEnabled r = t.isEnabled r) : s = t := by
  obtain ⟨off⟩ := s
  obtain ⟨off'⟩ := t
  refine congrArg mk (Vector.ext fun i bound => ?_)
  obtain ⟨r, rfl⟩ : ∃ r : Rule, r.position.val = i :=
    ⟨Rule.all.get ⟨i, bound⟩, Rule.position_get ⟨i, bound⟩⟩
  exact Bool.not_inj (same r)

theorem isEnabled_foldl (rules : List Rule) (s : RuleSet) (r : Rule) :
    (rules.foldl (fun s r => s.setEnabled r false) s).isEnabled r
      = (s.isEnabled r && !rules.contains r) := by
  induction rules generalizing s with
  | nil => simp
  | cons q rules ih =>
    rw [List.foldl_cons, ih, isEnabled_setEnabled]
    by_cases same : q = r
    · simp [same]
    · have other : r ≠ q := Ne.symm same
      simp [same, other]

/-- A rule set is what is left of all rules without those that are off. -/
theorem without_disabled (s : RuleSet) : without s.disabled = s := by
  refine ext_isEnabled fun r => ?_
  rw [without, isEnabled_foldl, isEnabled_full, Bool.true_and]
  have listed : s.disabled.contains r = !s.isEnabled r := by
    rw [Bool.eq_iff_iff, List.contains_iff_mem]
    simp [disabled, Rule.mem_all]
  rw [listed, Bool.not_not]

end RuleSet

theorem setting_eq {α : Type} {entries : List (String × Value)} {key : String} {v : Value}
    (found : entries.lookup key = some v) (read : Value → Option α) (default : α) :
    setting entries key read default = read v := by
  rw [setting, found]

theorem isBare_ruleName (r : Rule) : IsBare r.name := by
  cases r <;> exact ⟨by decide, List.all_eq_true.mp (by decide)⟩

namespace RuleSet

theorem toValue_eq (s : RuleSet) :
    s.toValue = .table [("disabled", .array ((s.disabled.map Rule.name).map .string))] := by
  rw [toValue, List.map_map]
  rfl

theorem isSettingsTable_disabled (s : RuleSet) :
    IsSettingsTable [("disabled", .array ((s.disabled.map Rule.name).map .string))] where
  bare := by
    have disabled : IsBare "disabled" := ⟨by decide, List.all_eq_true.mp (by decide)⟩
    exact List.forall_mem_singleton.mpr disabled
  distinct := by simp
  settings := by
    refine List.forall_mem_singleton.mpr (.names fun name member => ?_)
    obtain ⟨r, -, rfl⟩ := List.mem_map.mp member
    exact isBare_ruleName r

variable {library : Library} (lawful : library.Lawful)
include lawful

theorem mapM_names (rules : List Rule) :
    ((rules.map Rule.name).map Value.string).mapM
      (fun name => (library.variant? name).bind Rule.ofName?) = some rules := by
  induction rules with
  | nil => rfl
  | cons r rules ih =>
    have first : (library.variant? (.string r.name)).bind Rule.ofName? = some r := by
      rw [lawful.variant, Option.bind_some, Rule.ofName?_name]
    rw [List.map_cons, List.map_cons, List.mapM_cons, first, ih]
    rfl

theorem ofValue?_toValue (s : RuleSet) : ofValue? library s.toValue = some s := by
  have found : List.lookup "disabled"
      [("disabled", Value.array ((s.disabled.map Rule.name).map .string))]
        = some (.array ((s.disabled.map Rule.name).map .string)) := List.lookup_cons_self
  have rules : ofList? library (.array ((s.disabled.map Rule.name).map .string)) = some s := by
    rw [ofList?, lawful.elements]
    refine (congrArg (Option.bind · _) (mapM_names lawful s.disabled)).trans ?_
    exact congrArg some s.without_disabled
  rw [toValue_eq, ofValue?, lawful.record]
  exact (setting_eq found (ofList? library) full).trans rules

end RuleSet

namespace Config

/-! ## Documents -/

theorem limits_le {c : Config} (valid : c.validate = .ok ()) :
    c.limits.concept ≤ maxLimit ∧ c.limits.role ≤ maxLimit ∧ c.limits.boolean ≤ maxLimit ∧
      c.limits.count ≤ maxLimit ∧ c.limits.distance ≤ maxLimit := by
  obtain ⟨checked, -⟩ := c.validate_iff.mp valid
  have within : ∀ l ∈ c.limits.toList, l.2 ≤ maxLimit :=
    fun l member => (bounds_of_checkLimit (forM_eq_ok_iff.mp checked l member)).2
  simpa [Limits.toList] using within

/-- All configurations have the same keys. -/
theorem keys_eq (c : Config) : c.toEntries.map Prod.fst = default.toEntries.map Prod.fst := by
  simp only [toEntries, List.map_cons, List.map_nil]

theorem isKeyed_toEntries (c : Config) : IsKeyed c.toEntries where
  bare := by
    have keys : (c.toEntries.map Prod.fst).all
        (fun key => !key.toList.isEmpty && key.toList.all isBareKeyPart) = true := by
      rw [keys_eq]
      decide
    intro e member
    have bare := List.all_eq_true.mp keys e.1 (List.mem_map_of_mem member)
    rw [Bool.and_eq_true] at bare
    exact ⟨by simpa using bare.1, List.all_eq_true.mp bare.2⟩
  distinct := by
    rw [keys_eq]
    decide

theorem isSettings_toEntries {c : Config} (valid : c.validate = .ok ()) :
    IsSettings c.toEntries where
  toIsKeyed := c.isKeyed_toEntries
  settings := by
    obtain ⟨-, positive, -⟩ := c.validate_iff.mp valid
    have rules : ∃ entries, c.rules.toValue = .table entries ∧ IsSettingsTable entries :=
      ⟨_, c.rules.toValue_eq, c.rules.isSettingsTable_disabled⟩
    simp only [toEntries, List.forall_mem_cons]
    exact ⟨.inl (.natural _), .inl (.natural _), .inl (.natural _), .inl (.natural _),
      .inl (.natural _), .inl (.float positive), .inl (.natural _), .inr rules, .inl (.boolean _),
      .inl (.natural _), fun _ none => nomatch none⟩

/-- Only two of the numbers can be too large for a document. -/
structure Writable (c : Config) : Prop where
  featureLimit : (c.featureLimit : Int) ≤ Int64.maxValue.toInt
  batchSize : (c.batchSize : Int) ≤ Int64.maxValue.toInt

theorem writable_iff (c : Config) :
    c.Writable ↔ c.featureLimit ≤ 2 ^ 63 - 1 ∧ c.batchSize ≤ 2 ^ 63 - 1 := by
  have largest : Int64.maxValue.toInt = ((2 ^ 63 - 1 : Nat) : Int) := by decide
  constructor
  · rintro ⟨features, batches⟩
    omega
  · rintro ⟨features, batches⟩
    constructor <;> omega

theorem writable_iff_integers {c : Config} (valid : c.validate = .ok ()) :
    c.Writable ↔ ∀ e ∈ c.toEntries, ∀ n : Nat, .integer n ∈ e.2.settings →
      (n : Int) ≤ Int64.maxValue.toInt := by
  obtain ⟨concept, role, boolean, count, distance⟩ := limits_le valid
  have fits : ∀ {n : Nat}, n ≤ maxLimit → (n : Int) ≤ Int64.maxValue.toInt := by
    intro n within
    have largest : (maxLimit : Int) ≤ Int64.maxValue.toInt := by decide
    omega
  have integers : (∀ e ∈ c.toEntries, ∀ n : Nat, .integer n ∈ e.2.settings →
      (n : Int) ≤ Int64.maxValue.toInt) ↔
        (c.featureLimit : Int) ≤ Int64.maxValue.toInt ∧
          (c.batchSize : Int) ≤ Int64.maxValue.toInt := by
    simp [toEntries, Value.settings, RuleSet.toValue, fits concept, fits role, fits boolean,
      fits count, fits distance]
  rw [integers]
  exact ⟨fun ⟨features, batches⟩ => ⟨features, batches⟩,
    fun ⟨features, batches⟩ => ⟨features, batches⟩⟩

/-! ## Texts -/

section
variable {library : Library}

theorem toText_eq_ok_iff {c : Config} {text : String} :
    c.toText library = .ok text ↔ library.write c.toEntries = some text := by
  unfold toText
  split
  next found => rw [found, Except.ok.injEq, Option.some.injEq]
  next none => simp [none]

variable (lawful : library.Lawful)
include lawful

theorem ofEntries_of_lookup {c : Config} (valid : c.validate = .ok ()) (writable : c.Writable)
    {found : List (String × Value)} (same : ∀ key, found.lookup key = c.toEntries.lookup key) :
    ofEntries library found = some c := by
  obtain ⟨-, positive, -⟩ := c.validate_iff.mp valid
  obtain ⟨concept, role, boolean, count, distance⟩ := limits_le valid
  have limit : ∀ {n : Nat}, n ≤ maxLimit → library.word32? (.integer n) = some n :=
    fun within => lawful.word32 (Nat.lt_of_le_of_lt within (by decide))
  -- Every key is there, so no default comes in.
  simp [ofEntries, setting, same, toEntries, List.lookup_cons, limit concept, limit role,
    limit boolean, limit count, limit distance, lawful.float positive,
    lawful.word64 writable.featureLimit, lawful.word64 writable.batchSize, lawful.boolean,
    RuleSet.ofValue?_toValue lawful]

/-- A configuration that a run can have is written exactly if its numbers have 63 bits, and what
is written is read as the same configuration. -/
theorem text_round_trip {c : Config} (valid : c.validate = .ok ()) :
    ((∃ text, c.toText library = .ok text) ↔
      c.featureLimit ≤ 2 ^ 63 - 1 ∧ c.batchSize ≤ 2 ^ 63 - 1) ∧
    ∀ text, c.toText library = .ok text → ofText library text = .ok c := by
  have settings := isSettings_toEntries valid
  have written : (∃ text, c.toText library = .ok text) ↔ c.Writable := by
    simp only [toText_eq_ok_iff, lawful.writes settings, writable_iff_integers valid]
  refine ⟨written.trans c.writable_iff, fun text here => ?_⟩
  have writable := written.mp ⟨text, here⟩
  obtain ⟨found, read, same⟩ := lawful.reads settings (toText_eq_ok_iff.mp here)
  have back : (library.read text).bind (ofEntries library) = some c := by
    rw [read, Option.bind_some, ofEntries_of_lookup lawful valid writable same]
  rw [ofText, back]
  exact (Strict.bind_ok valid _).trans rfl

end

/-- Limits at both ends, a time limit with places, numbers at both ends, and rules that are off. -/
theorem text_round_trip_extreme :
    let c : Config := {
      limits := ⟨1, 256, 9, 256, 1⟩
      timeLimit := ⟨0x3FB999999999999A⟩
      featureLimit := 2 ^ 63 - 1
      rules := .without [.roleClosure, .conceptBot, .numericalDistance]
      parallel := true
      batchSize := 1 }
    c.validate = .ok () ∧
      ∃ text, c.toText .standard = .ok text ∧ ofText .standard text = .ok c := by
  intro c
  have valid : c.validate = .ok () := by decide
  obtain ⟨written, read⟩ := text_round_trip Library.standard_lawful valid
  obtain ⟨text, same⟩ := written.mpr (by decide)
  exact ⟨valid, text, same, read text same⟩

end Config
end PlanFeatures
