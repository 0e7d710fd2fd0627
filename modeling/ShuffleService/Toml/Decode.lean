import ShuffleService.Toml.Document

/-!
# Typed values of a document

What a value of a document stands for where a number, a string, a choice or a record is asked for.
-/

namespace ShuffleService.TomlValue

/-- A number from zero on and below a bound. -/
def nat? (bound : Nat) : TomlValue → Option Nat
  | .integer i => if 0 ≤ i ∧ i < bound then some i.toNat else none
  | _ => none

/-- A string. -/
def string? : TomlValue → Option String
  | .string s => some s
  | _ => none

/-- A list of strings. -/
def strings? : TomlValue → Option (List String)
  | .array items => items.mapM string?
  | _ => none

/-- The name of a choice. It is written as a string, or as the one key of a table that has an empty
table below that key. -/
def choice? : TomlValue → Option String
  | .string s => some s
  | .table _ [(key, .table _ [])] => some key
  | _ => none

/-- The fields of a record with the given names. It is written as a table, or as an array that gives
the fields in their order; a date has none of them. -/
def fields? (names : List String) : TomlValue → Option TomlEntries
  | .table _ entries => some entries
  | .array items => some (names.zip items)
  | .datetime _ => some []
  | _ => none

end ShuffleService.TomlValue

namespace ShuffleService.Toml

/-- A field of a record: the default where there is none. -/
def fieldOr {α : Type} (es : TomlEntries) (name : String) (read? : TomlValue → Option α)
    (default : α) : Option α :=
  match es.lookup name with
  | some v => read? v
  | none => some default

end ShuffleService.Toml
