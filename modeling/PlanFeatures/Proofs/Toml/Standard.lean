import PlanFeatures.Proofs.Toml.Lines
import PlanFeatures.Proofs.Toml.Tables
import PlanFeatures.Toml.Standard

/-!
# The standard library keeps settings

The text of a document of settings has a line for each of them.  Each line is read as the setting
that it was written for, so the document that is read has the same value under each key, although
the tables now stand behind the settings.
-/

namespace PlanFeatures.Toml

variable {v : Value} {document entries : List (String × Value)}

/-! ## Texts of settings -/

theorem isPrintable_of_isBareKeyPart {c : Char} (part : isBareKeyPart c = true) :
    isPrintable c = true := by
  have bounds : ((decide ('A'.val ≤ c.val ∧ c.val ≤ 'Z'.val)
      || (decide ('a'.val ≤ c.val) && decide (c.val ≤ 'z'.val))
      || (decide ('0'.val ≤ c.val) && decide (c.val ≤ '9'.val)))
      || c == '_' || c == '-') = true := part
  simp only [Bool.or_eq_true, Bool.and_eq_true, decide_eq_true_eq, beq_iff_eq,
    UInt32.le_iff_toNat_le] at bounds
  change ((((65 ≤ c.toNat ∧ c.toNat ≤ 90) ∨ (97 ≤ c.toNat ∧ c.toNat ≤ 122)) ∨
    (48 ≤ c.toNat ∧ c.toNat ≤ 57)) ∨ c = '_') ∨ c = '-' at bounds
  simp only [isPrintable, Bool.or_eq_true, Bool.and_eq_true, decide_eq_true_eq]
  refine .inr ?_
  rcases bounds with (letterOrDigit | rfl) | rfl
  · omega
  · decide
  · decide

theorem IsBare.quotable {name : String} (bare : IsBare name) : Quotable name where
  some := bare.some
  plain := fun c member => by
    have part := bare.plain c member
    obtain ⟨quote, -⟩ := not_mark_of_isBareKeyPart part
    exact isPlain_iff.mpr
      ⟨isPrintable_of_isBareKeyPart part, quote, by rintro rfl; cases part⟩

/-- A positive number is written with a point and digits on both sides of it. -/
theorem reads_floatText {x : Binary64} (positive : x.isPositive = true) :
    Reads (floatText x).toList (.float x) := by
  have finite : x.isFinite = true := by
    simp only [Binary64.isPositive, Bool.and_eq_true] at positive
    exact positive.1.1
  have number := Binary64.isNaN_eq_false finite
  have bounded : x ≠ .infinity false := by
    rintro rfl
    cases finite
  have back := Decimal.toBinary_shortest positive
  obtain ⟨whole, places, spells, characters⟩ := Binary64.exists_text positive
  by_cases empty : places = []
  · -- The point is added with a zero behind it, which does not change the value.
    subst empty
    have noPoint : '.' ∉ whole := fun member => by cases spells.isWhole.digits _ member
    have written : (floatText x).toList = whole ++ '.' :: ['0'] := by
      simp [floatText, number, finite, characters, noPoint]
    have pointed := spells.with_point
    rw [written]
    exact reads_float pointed.isWhole (by simp) pointed.areDigits (pointed.value.trans back) bounded
  · have written : (floatText x).toList = whole ++ '.' :: places := by
      simp [floatText, number, finite, characters, empty]
    rw [written]
    exact reads_float spells.isWhole empty spells.areDigits (spells.value.trans back) bounded

theorem toList_names (names : List String) :
    (Value.array (names.map .string)).text.toList = '[' :: listed names ++ [']'] := by
  have marks : names.map (String.toList ∘ Value.nameText ∘ Value.string) = names.map quoted :=
    List.map_congr_left fun n _ => by simp [Value.nameText, quoted]
  simp [Value.text, listed, String.toList_intercalate, marks]

/-- A setting can be written exactly if it is no integer that is too large, and what is written is
read as the setting. -/
theorem IsSetting.isWritable_iff (setting : IsSetting v) :
    v.isWritable = true ↔ ∀ n : Nat, v = .integer n → (n : Int) ≤ Int64.maxValue.toInt := by
  cases setting with
  | natural n =>
    have low : Int64.minValue.toInt ≤ (n : Int) := by
      have below : Int64.minValue.toInt ≤ 0 := by decide
      omega
    constructor
    · intro writable k same
      simp only [Value.isWritable, decide_eq_true_eq] at writable
      obtain rfl : n = k := by simpa using same
      exact writable.2
    · intro fits
      simpa [Value.isWritable, low] using fits n rfl
  | float _ | boolean _ => simp [Value.isWritable]
  | names _ => simp [Value.isWritable, Value.isString]

theorem IsSetting.reads (setting : IsSetting v) (writable : v.isWritable = true) :
    Reads v.text.toList v := by
  cases setting with
  | natural n => exact reads_integer ((IsSetting.natural n).isWritable_iff.mp writable n rfl)
  | float positive => exact reads_floatText positive
  | boolean b => exact reads_boolean b
  | names bare =>
    rw [toList_names]
    exact reads_strings fun name member => (bare name member).quotable

theorem IsSetting.isTable_eq (setting : IsSetting v) : v.isTable = false := by
  cases setting <;> rfl

theorem IsSetting.settings_eq (setting : IsSetting v) : v.settings = [v] := by
  cases setting <;> rfl

/-! ## Lines of a document -/

/-- The line of a setting. -/
def settingLine (e : String × Value) : List Char × Option Statement :=
  (keyValueText e.1 e.2.text.toList, some (Document.assignment e))

/-- The lines of a table. -/
def tableLines (t : String × List (String × Value)) : List (List Char × Option Statement) :=
  (['\n'], none) :: (headerText t.1, some (.header [t.1])) :: t.2.map settingLine

theorem toList_settingsText (entries : List (String × Value)) :
    (settingsText entries).toList = (entries.map settingLine).flatMap Prod.fst := by
  simp only [settingsText, String.toList_join, List.flatMap_map, settingLine]
  refine congrArg (List.flatMap · entries) (funext fun e => ?_)
  simp [keyValueText, toString]

theorem toList_tableText (t : String × List (String × Value)) :
    (tableText (t.1, .table t.2)).toList = (tableLines t).flatMap Prod.fst := by
  simp [tableText, tableLines, headerText, toList_settingsText]

theorem toList_tables (tables : List (String × List (String × Value))) :
    (String.join (tables.map fun t => tableText (t.1, .table t.2))).toList
      = (tables.flatMap tableLines).flatMap Prod.fst := by
  rw [String.toList_join, List.flatMap_map, List.flatMap_assoc]
  exact congrArg (List.flatMap · tables) (funext toList_tableText)

theorem isLine_settingLine {e : String × Value} (bare : IsBare e.1) (setting : IsSetting e.2)
    (writable : e.2.isWritable = true) : IsLine (settingLine e).1 (settingLine e).2 :=
  isLine_keyValue bare (setting.reads writable)

theorem isLine_settings (keyed : IsKeyed entries) (settings : ∀ e ∈ entries, IsSetting e.2)
    (writable : ∀ e ∈ entries, e.2.isWritable = true) :
    ∀ l ∈ entries.map settingLine, IsLine l.1 l.2 := by
  intro l member
  obtain ⟨e, listed, rfl⟩ := List.mem_map.mp member
  exact isLine_settingLine (keyed.bare e listed) (settings e listed) (writable e listed)

theorem isLine_tableLines {t : String × List (String × Value)} (bare : IsBare t.1)
    (table : IsSettingsTable t.2) (writable : ∀ e ∈ t.2, e.2.isWritable = true) :
    ∀ l ∈ tableLines t, IsLine l.1 l.2 := by
  rw [tableLines, List.forall_mem_cons, List.forall_mem_cons]
  exact ⟨isLine_empty, isLine_header bare,
    isLine_settings table.toIsKeyed table.settings writable⟩

theorem statements_settings (entries : List (String × Value)) :
    (entries.map settingLine).filterMap Prod.snd = entries.map Document.assignment := by
  rw [List.filterMap_map]
  exact congrFun List.filterMap_eq_map entries

theorem statements_tableLines (t : String × List (String × Value)) :
    (tableLines t).filterMap Prod.snd = Document.block t := by
  simp only [tableLines, Document.block, List.filterMap_cons, statements_settings]

/-! ## Documents -/

/-- The value under a key does not depend on the order of the keys. -/
theorem lookup_perm {entries entries' : List (String × Value)} (perm : entries.Perm entries')
    (distinct : (entries.map Prod.fst).Nodup) (key : String) :
    entries.lookup key = entries'.lookup key := by
  induction perm with
  | nil => rfl
  | cons e _ ih =>
    rw [List.map_cons, List.nodup_cons] at distinct
    rw [List.lookup_cons, List.lookup_cons, ih distinct.2]
  | swap e e' rest =>
    simp only [List.map_cons, List.nodup_cons, List.mem_cons, not_or] at distinct
    rw [List.lookup_cons, List.lookup_cons, List.lookup_cons, List.lookup_cons]
    cases here : key == e.1 with
    | false => rfl
    | true =>
      have other : (key == e'.1) = false := by
        rw [beq_iff_eq] at here
        simpa [here] using Ne.symm distinct.1.1
      rw [other]
  | trans first _ ih ih' =>
    exact (ih distinct).trans (ih' ((first.map Prod.fst).nodup_iff.mp distinct))

/-- A document with its tables behind the other keys. -/
theorem tablesLast (document : List (String × Value)) :
    (document.filter (fun e => !e.2.isTable) ++ document.filter fun e => e.2.isTable).Perm
      document :=
  List.perm_append_comm.trans (List.filter_append_perm (fun e => e.2.isTable) document)

theorem IsKeyed.perm {entries' : List (String × Value)} (keyed : IsKeyed entries)
    (perm : entries'.Perm entries) : IsKeyed entries' where
  bare := fun e member => keyed.bare e (perm.mem_iff.mp member)
  distinct := (perm.map Prod.fst).nodup_iff.mpr keyed.distinct

/-- The tables of a document, with their settings. -/
theorem exists_tables (tables : ∀ e ∈ entries, ∃ inner, e.2 = .table inner ∧ IsSettingsTable inner) :
    ∃ found : List (String × List (String × Value)),
      entries = found.map (fun t => (t.1, .table t.2)) ∧ ∀ t ∈ found, IsSettingsTable t.2 := by
  induction entries with
  | nil => exact ⟨[], rfl, fun _ none => nomatch none⟩
  | cons e entries ih =>
    obtain ⟨⟨inner, same, table⟩, tables⟩ := List.forall_mem_cons.mp tables
    obtain ⟨found, rest, all⟩ := ih tables
    refine ⟨(e.1, inner) :: found, ?_, List.forall_mem_cons.mpr ⟨table, all⟩⟩
    rw [rest, List.map_cons, ← same]

theorem write_eq_some_iff {text : String} : write document = some text ↔
    (∀ e ∈ document, ∀ v ∈ e.2.settings, v.isWritable = true) ∧
      settingsText (document.filter fun e => !e.2.isTable)
        ++ String.join ((document.filter fun e => e.2.isTable).map tableText) = text := by
  have all : (document.all fun e => e.2.settings.all Value.isWritable) = true ↔
      ∀ e ∈ document, ∀ v ∈ e.2.settings, v.isWritable = true := by
    simp only [List.all_eq_true]
  rw [← all, write]
  split
  next writable => simp only [Option.some.injEq, writable, true_and]
  next refused => simp only [reduceCtorEq, refused, false_and]

/-- Settings and tables are read line by line. -/
theorem parse_blocks {plain : List (String × Value)}
    {tables : List (String × List (String × Value))}
    (keyed : IsKeyed (plain ++ tables.map fun t => (t.1, .table t.2)))
    (settings : ∀ e ∈ plain, IsSetting e.2 ∧ e.2.isWritable = true)
    (inner : ∀ t ∈ tables, IsSettingsTable t.2 ∧ ∀ e ∈ t.2, e.2.isWritable = true) :
    parse (settingsText plain ++ String.join (tables.map fun t => tableText (t.1, .table t.2)))
      = some (plain ++ tables.map fun t => (t.1, .table t.2)) := by
  have bare := List.forall_mem_append.mp keyed.bare
  have distinct : (plain.map Prod.fst ++ tables.map Prod.fst).Nodup := by
    simpa [Function.comp_def] using keyed.distinct
  have own : IsKeyed plain := ⟨bare.1, (List.nodup_append.mp distinct).1⟩
  have isLine : ∀ l ∈ plain.map settingLine ++ tables.flatMap tableLines, IsLine l.1 l.2 := by
    refine List.forall_mem_append.mpr ⟨?_, fun l member => ?_⟩
    · exact isLine_settings own (fun e listed => (settings e listed).1)
        fun e listed => (settings e listed).2
    · obtain ⟨t, listed, here⟩ := List.mem_flatMap.mp member
      exact isLine_tableLines (bare.2 _ (List.mem_map_of_mem listed)) (inner t listed).1
        (inner t listed).2 l here
  have characters : (settingsText plain
      ++ String.join (tables.map fun t => tableText (t.1, .table t.2))).toList
      = (plain.map settingLine ++ tables.flatMap tableLines).flatMap Prod.fst := by
    rw [String.toList_append, List.flatMap_append, toList_settingsText, toList_tables]
  have statements : (plain.map settingLine ++ tables.flatMap tableLines).filterMap Prod.snd
      = plain.map Document.assignment ++ tables.flatMap Document.block := by
    rw [List.filterMap_append, statements_settings, List.filterMap_flatMap]
    simp only [statements_tableLines]
  rw [parse_lines isLine characters, statements]
  exact Document.ofStatements_blocks distinct fun t listed => (inner t listed).1.distinct

/-- The settings of a document are read before its tables. -/
theorem parse_write {text : String} (settings : IsSettings document)
    (written : write document = some text) :
    parse text = some (document.filter (fun e => !e.2.isTable)
      ++ document.filter fun e => e.2.isTable) := by
  obtain ⟨writable, rfl⟩ := write_eq_some_iff.mp written
  have plain : ∀ e ∈ document.filter (fun e => !e.2.isTable),
      IsSetting e.2 ∧ e.2.isWritable = true := by
    intro e member
    obtain ⟨listed, alone⟩ := List.mem_filter.mp member
    rcases settings.settings e listed with setting | ⟨inner, same, -⟩
    · exact ⟨setting, writable e listed _ (setting.settings_eq ▸ List.mem_singleton_self _)⟩
    · rw [same] at alone
      cases alone
  have nested : ∀ e ∈ document.filter (fun e => e.2.isTable),
      ∃ inner, e.2 = .table inner ∧ IsSettingsTable inner := by
    intro e member
    obtain ⟨listed, table⟩ := List.mem_filter.mp member
    refine (settings.settings e listed).resolve_left fun setting => ?_
    rw [setting.isTable_eq] at table
    cases table
  obtain ⟨tables, same, keyed⟩ := exists_tables nested
  have inner : ∀ t ∈ tables, IsSettingsTable t.2 ∧ ∀ e ∈ t.2, e.2.isWritable = true := by
    intro t member
    refine ⟨keyed t member, fun e here => ?_⟩
    have listed : (t.1, Value.table t.2) ∈ document.filter (fun e => e.2.isTable) :=
      same ▸ List.mem_map_of_mem member
    exact writable _ (List.mem_filter.mp listed).1 _ (List.mem_map_of_mem here)
  have texts : (document.filter fun e => e.2.isTable).map tableText
      = tables.map fun t => tableText (t.1, .table t.2) := by
    rw [same, List.map_map]
    rfl
  have ordered := settings.toIsKeyed.perm (tablesLast document)
  rw [texts]
  rw [same] at ordered ⊢
  exact parse_blocks ordered plain inner

theorem IsSettings.isSetting (settings : IsSettings document) {e : String × Value}
    (listed : e ∈ document) : ∀ v ∈ e.2.settings, IsSetting v := by
  rcases settings.settings e listed with setting | ⟨inner, same, table⟩
  · rw [setting.settings_eq]
    exact List.forall_mem_singleton.mpr setting
  · rw [same]
    intro v member
    obtain ⟨e', here, rfl⟩ := List.mem_map.mp member
    exact table.settings e' here

theorem exists_write_iff (settings : IsSettings document) :
    (∃ text, write document = some text) ↔
      ∀ e ∈ document, ∀ n : Nat, .integer n ∈ e.2.settings → (n : Int) ≤ Int64.maxValue.toInt := by
  have written : (∃ text, write document = some text) ↔
      ∀ e ∈ document, ∀ v ∈ e.2.settings, v.isWritable = true := by
    simp only [write_eq_some_iff, exists_and_left, exists_eq', and_true]
  rw [written]
  constructor
  · intro writable e listed n member
    exact (settings.isSetting listed _ member).isWritable_iff.mp (writable e listed _ member) n rfl
  · intro fit e listed v member
    refine (settings.isSetting listed v member).isWritable_iff.mpr ?_
    rintro n rfl
    exact fit e listed n member

theorem toNat?_of_lt {n bound : Nat} (below : n < bound) :
    Value.toNat? bound (.integer n) = some n := if_pos below

theorem Library.standard_lawful : Library.standard.Lawful where
  writes := exists_write_iff
  reads := fun {document} _ settings written =>
    ⟨_, parse_write settings written, fun key => lookup_perm (tablesLast document)
      (settings.toIsKeyed.perm (tablesLast document)).distinct key⟩
  word32 := toNat?_of_lt
  word64 := by
    intro n fits
    have largest : Int64.maxValue.toInt < UInt64.size := by decide
    exact toNat?_of_lt (by omega)
  float := fun _ => rfl
  boolean := fun _ => rfl
  elements := fun _ => rfl
  record := fun _ _ => rfl
  variant := fun _ => rfl

end PlanFeatures.Toml
