import ShuffleService.Json.Value
import ShuffleService.Text.Hex

/-!
# Writing JSON

A value over several lines, each level indented by two blanks.
-/

namespace ShuffleService.Json

/-- A number below 65536 as an escape. -/
def codeEscape (n : Nat) : String :=
  String.ofList ('\\' :: 'u' :: [n / 4096 % 16, n / 256 % 16, n / 16 % 16, n % 16].map Hex.digit)

/-- A code point, or half of a surrogate pair, as it stands in a string. -/
def unitText (n : Nat) : String :=
  if n = 0x22 then "\\\""
  else if n = 0x5C then "\\\\"
  else if n = 0x08 then "\\b"
  else if n = 0x0C then "\\f"
  else if n = 0x0A then "\\n"
  else if n = 0x0D then "\\r"
  else if n = 0x09 then "\\t"
  else if n < 0x20 ∨ JsonText.isHighHalf n ∨ JsonText.isLowHalf n then codeEscape n
  else (Char.ofNat n).toString

/-- A string between quotes. -/
def quoted (t : JsonText) : String := "\"" ++ String.join (t.map unitText) ++ "\""

/-- A new line at a level of indentation. -/
def newLine (level : Nat) : String := "\n" ++ String.ofList (List.replicate (2 * level) ' ')

mutual

/-- A value whose lines after the first are indented by a level. -/
def pretty (level : Nat) : JsonValue → String
  | .null => "null"
  | .boolean true => "true"
  | .boolean false => "false"
  | .integer i => toString i
  | .decimal text => text
  | .string t => quoted t
  | .array [] => "[]"
  | .array (v :: vs) =>
    "[" ++ newLine (level + 1) ++ pretty (level + 1) v ++ prettyItems (level + 1) vs ++
      newLine level ++ "]"
  | .object [] => "\x7b\x7d"
  | .object ((name, v) :: fields) =>
    "\x7b" ++ newLine (level + 1) ++ quoted name ++ ": " ++ pretty (level + 1) v ++
      prettyFields (level + 1) fields ++ newLine level ++ "\x7d"

/-- The items of an array after the first. -/
def prettyItems (level : Nat) : List JsonValue → String
  | [] => ""
  | v :: vs => "," ++ newLine level ++ pretty level v ++ prettyItems level vs

/-- The fields of an object after the first. -/
def prettyFields (level : Nat) : JsonFields → String
  | [] => ""
  | (name, v) :: fields =>
    "," ++ newLine level ++ quoted name ++ ": " ++ pretty level v ++ prettyFields level fields

end

/-- A value over several lines. -/
def print (v : JsonValue) : String := pretty 0 v

end ShuffleService.Json
