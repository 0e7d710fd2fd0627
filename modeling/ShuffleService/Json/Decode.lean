import ShuffleService.Json.Value
import ShuffleService.Word

/-!
# Typed values of JSON

What a value of JSON stands for where a number, a string, a choice or a record is asked for.
-/

namespace ShuffleService.JsonValue

open scoped PlainNumbers

/-- An integer within bounds. -/
def int? (least greatest : Int) : JsonValue → Option Int
  | .integer i => if least ≤ i ∧ i ≤ greatest then some i else none
  | _ => none

/-- A signed integer of 32 bits. -/
def int32? : JsonValue → Option Int := int? (-2 ^ (31 : Nat)) (2 ^ (31 : Nat) - 1)

/-- A signed integer of 64 bits. -/
def int64? : JsonValue → Option Int := int? (-2 ^ (63 : Nat)) (2 ^ (63 : Nat) - 1)

/-- An unsigned integer of 64 bits. -/
def count? (v : JsonValue) : Option Nat := (v.int? 0 (2 ^ (64 : Nat) - 1)).map Int.toNat

/-- A string. -/
def string? : JsonValue → Option String
  | .string t => t.toString?
  | _ => none

/-- A list of strings. -/
def strings? : JsonValue → Option (List String)
  | .array items => items.mapM string?
  | _ => none

/-- The name of a choice. It is written as a string, or as the only field of an object, with the
value null. -/
def choice? : JsonValue → Option String
  | .string t => t.toString?
  | .object [(name, .null)] => name.toString?
  | _ => none

/-- The fields with known names, none of which may repeat; others are left out. Every name has to be
a text. -/
def knownFields? (names : List String) : JsonFields → Option (List (String × JsonValue))
  | [] => some []
  | (name, v) :: fields => do
    let name ← name.toString?
    let known ← knownFields? names fields
    if names.contains name then
      if (known.lookup name).isSome then none else return (name, v) :: known
    else return known

/-- The fields of a record with the given names. It is written as an object, or as an array that
gives the first of the fields in their order. -/
def fields? (names : List String) : JsonValue → Option (List (String × JsonValue))
  | .object fields => knownFields? names fields
  | .array items => if items.length ≤ names.length then some (names.zip items) else none
  | _ => none

end ShuffleService.JsonValue

namespace ShuffleService.Json

/-- A field that has to be there. -/
def field? {α : Type} (fields : List (String × JsonValue)) (name : String)
    (read? : JsonValue → Option α) : Option α :=
  (fields.lookup name).bind read?

/-- A field with a default. -/
def fieldOr {α : Type} (fields : List (String × JsonValue)) (name : String)
    (read? : JsonValue → Option α) (default : α) : Option α :=
  match fields.lookup name with
  | some v => read? v
  | none => some default

end ShuffleService.Json
