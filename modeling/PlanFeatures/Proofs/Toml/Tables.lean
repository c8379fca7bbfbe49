import PlanFeatures.Toml.Document

/-!
# Documents with keys first and tables behind them

The statements of a document that has keys of its own and then tables, each with a header and its
keys, define what they spell, as long as no key stands twice in its table.
-/

namespace PlanFeatures.Toml

namespace Entries

variable {es fs : Entries} {key : String}

theorem lookup_eq_none (new : key ∉ es.map Prod.fst) : es.lookup key = none := by
  rw [List.lookup_eq_none_iff]
  intro e member
  have other : key ≠ e.1 := by
    rintro rfl
    exact new (List.mem_map_of_mem member)
  simpa using other

theorem lookup_append_self (new : key ∉ es.map Prod.fst) (e : Entry) :
    (es ++ [(key, e)]).lookup key = some e := by
  rw [List.lookup_append, lookup_eq_none new, List.lookup_cons_self, Option.none_or]

theorem replace_of_new (new : key ∉ es.map Prod.fst) (e : Entry) : es.replace key e = es := by
  refine (List.map_congr_left fun entry member => ?_).trans (List.map_id es)
  obtain ⟨k, old⟩ := entry
  exact if_neg fun same : k = key => new (same ▸ List.mem_map_of_mem member)

theorem replace_append_self (new : key ∉ es.map Prod.fst) (old e : Entry) :
    replace (es ++ [(key, old)]) key e = es ++ [(key, e)] := by
  have last : replace [(key, old)] key e = [(key, e)] := by simp [replace]
  have split : replace (es ++ [(key, old)]) key e = es.replace key e ++ replace [(key, old)] key e :=
    List.map_append
  rw [split, last, replace_of_new new]

/-! ## Keys and tables -/

/-- Values under their keys. -/
def plain (settings : List (String × Value)) : Entries := settings.map fun (k, v) => (k, .value v)

/-- Tables of values under their names. -/
def nested (tables : List (String × List (String × Value))) : Entries :=
  tables.map fun (name, entries) => (name, .table false false (plain entries))

theorem keys_plain (settings : List (String × Value)) :
    (plain settings).map Prod.fst = settings.map Prod.fst := by
  simp [plain]

theorem toPairs_append (es fs : Entries) :
    Entry.toPairs (es ++ fs) = Entry.toPairs es ++ Entry.toPairs fs := by
  induction es with
  | nil => rfl
  | cons e es ih => exact congrArg ((e.1, e.2.toValue) :: ·) ih

theorem toPairs_plain (settings : List (String × Value)) :
    Entry.toPairs (plain settings) = settings := by
  induction settings with
  | nil => rfl
  | cons s settings ih => exact congrArg (s :: ·) ih

theorem toPairs_nested (tables : List (String × List (String × Value))) :
    Entry.toPairs (nested tables) = tables.map fun t => (t.1, .table t.2) := by
  induction tables with
  | nil => rfl
  | cons t tables ih =>
    have first : Entry.toPairs [(t.1, .table false false (plain t.2))] = [(t.1, .table t.2)] := by
      simp only [Entry.toPairs, Entry.toValue, toPairs_plain]
    exact (toPairs_append [_] (nested tables)).trans (by rw [first, ih]; rfl)

end Entries

namespace Document

open Entries

variable {es : Entries} {key name : String}

/-! ## What one statement does -/

/-- A key with its value on a line of its own. -/
def assignment (s : String × Value) : Statement := .keyValue [] s.1 s.2

theorem add_keyValue (new : key ∉ es.map Prod.fst) (v : Value) :
    add ⟨es, []⟩ (assignment (key, v)) = some ⟨es ++ [(key, .value v)], []⟩ := by
  simp [add, assignment, descend, Entries.insert, lookup_eq_none new]

theorem add_header (new : name ∉ es.map Prod.fst) (current : List String) :
    add ⟨es, current⟩ (.header [name]) = some ⟨es ++ [(name, .table false false [])], [name]⟩ := by
  simp [add, atParent, descend, define, lookup_eq_none new]

/-- Keys behind a header belong to its table. -/
theorem add_keyValue_table (new : name ∉ es.map Prod.fst) {inner : Entries}
    (fresh : key ∉ inner.map Prod.fst) (v : Value) :
    add ⟨es ++ [(name, .table false false inner)], [name]⟩ (assignment (key, v))
      = some ⟨es ++ [(name, .table false false (inner ++ [(key, .value v)]))], [name]⟩ := by
  simp [add, assignment, descend, Entries.insert, lookup_append_self new, lookup_eq_none fresh,
    replace_append_self new]

/-! ## Runs of statements -/

/-- The head of a list is not in what stands before it. -/
theorem not_mem_of_nodup_append {done : List String} {key : String} {keys : List String}
    (distinct : (done ++ key :: keys).Nodup) : key ∉ done :=
  fun member => (List.nodup_append.mp distinct).2.2 _ member _ List.mem_cons_self rfl

/-- Keys that each go behind the others of a table fill it. -/
theorem foldlM_assignments {place : Entries → Document}
    (adds : ∀ inner key v, key ∉ inner.map Prod.fst →
      add (place inner) (assignment (key, v)) = some (place (inner ++ [(key, .value v)])))
    {settings : List (String × Value)} (done : List (String × Value))
    (distinct : ((done ++ settings).map Prod.fst).Nodup) :
    (settings.map assignment).foldlM add (place (plain done))
      = some (place (plain (done ++ settings))) := by
  induction settings generalizing done with
  | nil => simp
  | cons s settings ih =>
    have fresh : s.1 ∉ (plain done).map Prod.fst := by
      rw [keys_plain]
      exact not_mem_of_nodup_append (by simpa using distinct)
    have grown : plain done ++ [(s.1, .value s.2)] = plain (done ++ [s]) := by simp [plain]
    have all : done ++ s :: settings = done ++ [s] ++ settings := by simp
    rw [List.map_cons, List.foldlM_cons, adds _ _ _ fresh, grown, all]
    rw [all] at distinct
    exact ih (done ++ [s]) distinct

/-- A header with the keys of its table. -/
def block (table : String × List (String × Value)) : List Statement :=
  .header [table.1] :: table.2.map assignment

theorem foldlM_blocks {tables : List (String × List (String × Value))} (current : List String)
    (distinct : (es.map Prod.fst ++ tables.map Prod.fst).Nodup)
    (within : ∀ t ∈ tables, (t.2.map Prod.fst).Nodup) :
    ∃ last, (tables.flatMap block).foldlM add ⟨es, current⟩
      = some ⟨es ++ nested tables, last⟩ := by
  induction tables generalizing es current with
  | nil => exact ⟨current, by simp [nested]⟩
  | cons t tables ih =>
    obtain ⟨first, others⟩ := List.forall_mem_cons.mp within
    have new : t.1 ∉ es.map Prod.fst := not_mem_of_nodup_append distinct
    have filled := foldlM_assignments
      (fun _ _ v fresh => add_keyValue_table new fresh v) [] first
    have left : ((es ++ [(t.1, Entry.table false false (plain t.2))]).map Prod.fst
        ++ tables.map Prod.fst).Nodup := by
      simpa using distinct
    obtain ⟨last, rest⟩ := ih [t.1] left others
    refine ⟨last, ?_⟩
    rw [List.flatMap_cons, List.foldlM_append, block, List.foldlM_cons, add_header new]
    refine (congrArg (Option.bind · _) filled).trans (rest.trans ?_)
    rw [List.append_assoc]
    rfl

/-- A document with keys of its own and tables. -/
theorem ofStatements_blocks {settings : List (String × Value)}
    {tables : List (String × List (String × Value))}
    (distinct : (settings.map Prod.fst ++ tables.map Prod.fst).Nodup)
    (within : ∀ t ∈ tables, (t.2.map Prod.fst).Nodup) :
    ofStatements (settings.map assignment ++ tables.flatMap block)
      = some (settings ++ tables.map fun t => (t.1, Value.table t.2)) := by
  have first : (settings.map assignment).foldlM add empty = some ⟨plain settings, []⟩ :=
    -- Keys before the first header belong to the document itself.
    foldlM_assignments (fun _ _ v fresh => add_keyValue fresh v) []
      (List.nodup_append.mp distinct).1
  rw [← keys_plain] at distinct
  obtain ⟨last, behind⟩ := foldlM_blocks [] distinct within
  have whole : (settings.map assignment ++ tables.flatMap block).foldlM add empty
      = some ⟨plain settings ++ nested tables, last⟩ := by
    rw [List.foldlM_append, first]
    exact behind
  rw [ofStatements, whole]
  exact congrArg some (by rw [toPairs_append, toPairs_plain, toPairs_nested])

end Document
end PlanFeatures.Toml
