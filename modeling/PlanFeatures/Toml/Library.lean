import PlanFeatures.Toml.Value

/-!
# A library for TOML

How documents are written and read is the matter of a library, of which only the
operations are known: documents to texts, texts to documents, and values to what a
setting is read as.  `Library.Lawful` says what is relied on.
-/

namespace PlanFeatures.Toml

structure Library where
  /-- The text of a document, which is given by its keys and values. -/
  write : List (String × Value) → Option String
  /-- The keys and values of the document in a text. -/
  read : String → Option (List (String × Value))
  /-- A value as a natural number of 32 bits. -/
  word32? : Value → Option Nat
  /-- A value as a natural number of 64 bits. -/
  word64? : Value → Option Nat
  float? : Value → Option Binary64
  boolean? : Value → Option Bool
  elements? : Value → Option (List Value)
  /-- A value as a record, given the names of its fields. -/
  record? : (fields : List String) → Value → Option (List (String × Value))
  /-- A value as the name of one of several alternatives. -/
  variant? : Value → Option String

/-! ## Documents of settings -/

/-- What one setting may be. -/
inductive IsSetting : Value → Prop
  | natural (n : Nat) : IsSetting (.integer n)
  | float {x : Binary64} : x.isPositive = true → IsSetting (.float x)
  | boolean (b : Bool) : IsSetting (.boolean b)
  | names {names : List String} : (∀ name ∈ names, IsBare name) →
      IsSetting (.array (names.map .string))

/-- The keys can stand without quotation marks, and there is none twice. -/
structure IsKeyed (entries : List (String × Value)) : Prop where
  bare : ∀ e ∈ entries, IsBare e.1
  distinct : (entries.map Prod.fst).Nodup

structure IsSettingsTable (entries : List (String × Value)) : Prop extends IsKeyed entries where
  settings : ∀ e ∈ entries, IsSetting e.2

/-- Settings, and tables of settings, in any order. -/
structure IsSettings (document : List (String × Value)) : Prop extends IsKeyed document where
  settings : ∀ e ∈ document,
    IsSetting e.2 ∨ ∃ entries, e.2 = .table entries ∧ IsSettingsTable entries

/-- The settings under one key. -/
def Value.settings : Value → List Value
  | table entries => entries.map Prod.snd
  | v => [v]

namespace Library

/-- What is relied on.  Only documents of settings are spoken of. -/
structure Lawful (library : Library) : Prop where
  /-- Integers are stored with 64 bits, one of them for the sign.  A document with a larger one
  is not written, any other one is. -/
  writes : ∀ {document}, IsSettings document →
    ((∃ text, library.write document = some text) ↔
      ∀ e ∈ document, ∀ n : Nat, .integer n ∈ e.2.settings → (n : Int) ≤ Int64.maxValue.toInt)
  /-- What is written is read with the same value under each key; in particular, the text of a
  float is read as the same float. -/
  reads : ∀ {document text}, IsSettings document → library.write document = some text →
    ∃ found, library.read text = some found ∧ ∀ key, found.lookup key = document.lookup key
  word32 : ∀ {n : Nat}, n < UInt32.size → library.word32? (.integer n) = some n
  word64 : ∀ {n : Nat}, (n : Int) ≤ Int64.maxValue.toInt → library.word64? (.integer n) = some n
  float : ∀ {x : Binary64}, x.isPositive = true → library.float? (.float x) = some x
  boolean : ∀ b, library.boolean? (.boolean b) = some b
  elements : ∀ items, library.elements? (.array items) = some items
  record : ∀ fields entries, library.record? fields (.table entries) = some entries
  variant : ∀ name, library.variant? (.string name) = some name

end Library
end PlanFeatures.Toml
