/-!
# JSON values

Values of JSON as they are written: the fields of an object keep their order and may repeat, and a
string may hold half of a surrogate pair, which no text does (`JsonText.toString?`).
-/

namespace ShuffleService

/-- The content of a JSON string: code points, and the halves of surrogate pairs that stand alone. -/
abbrev JsonText := List Nat

namespace JsonText

/-- Whether a number is the first half of a surrogate pair. -/
def isHighHalf (n : Nat) : Bool := 0xD800 ≤ n && n < 0xDC00

/-- Whether a number is the second half of a surrogate pair. -/
def isLowHalf (n : Nat) : Bool := 0xDC00 ≤ n && n < 0xE000

/-- The code points of a text. -/
def ofString (s : String) : JsonText := s.toList.map Char.toNat

/-- The text, unless there is half of a surrogate pair in it. -/
def toString? (t : JsonText) : Option String :=
  if t.any fun n => isHighHalf n || isLowHalf n then none
  else some (String.ofList (t.map Char.ofNat))

/-- Put the two halves of each surrogate pair together. -/
def joinPairs : List Nat → JsonText
  | a :: b :: rest =>
    if isHighHalf a ∧ isLowHalf b then
      (0x10000 + (a - 0xD800) * 0x400 + (b - 0xDC00)) :: joinPairs rest
    else a :: joinPairs (b :: rest)
  | rest => rest

end JsonText

/-- A value of JSON. -/
inductive JsonValue
  | null
  | boolean (value : Bool)
  | integer (value : Int)
  /-- A number with a fraction or an exponent, or an integer that no word of 64 bits holds, as it is
  written. Minus zero is one too. -/
  | decimal (text : String)
  | string (text : JsonText)
  | array (items : List JsonValue)
  | object (fields : List (JsonText × JsonValue))

/-- The fields of an object in their order. -/
abbrev JsonFields := List (JsonText × JsonValue)

namespace JsonValue

/-- A text as a value. -/
def ofString (s : String) : JsonValue := .string (.ofString s)

/-- An object with fields of the given names. -/
def record (fields : List (String × JsonValue)) : JsonValue :=
  .object (fields.map fun (name, v) => (.ofString name, v))

end JsonValue

end ShuffleService
