import ShuffleService.Json.Value
import ShuffleService.Text.Digits
import ShuffleService.Word

/-!
# Reading JSON

`parse?` reads a text that holds one value and nothing after it but blanks. Each reader below it
takes the characters from some place on and returns what it has read with the characters after it.
-/

namespace ShuffleService.Json

open scoped PlainNumbers

/-- The characters that are still to be read. -/
abbrev Input := List Char

/-- Whether a character may stand between the parts of a value. -/
def isBlank (c : Char) : Bool := c = ' ' || c = '\n' || c = '\t' || c = '\r'

/-- Skip blanks. -/
def skipBlanks (cs : Input) : Input := cs.dropWhile isBlank

/-! ### Strings -/

/-- The character that a letter after a backslash stands for. -/
def simpleEscape? : Char → Option Char
  | '"' => some '"'
  | '\\' => some '\\'
  | '/' => some '/'
  | 'b' => some '\x08'
  | 'f' => some '\x0C'
  | 'n' => some '\n'
  | 'r' => some '\r'
  | 't' => some '\t'
  | _ => none

/-- The number that four hexadecimal digits stand for. -/
def fourDigits? (a b c d : Char) : Option Nat := do
  let a ← Hex.value? a
  let b ← Hex.value? b
  let c ← Hex.value? c
  let d ← Hex.value? d
  return ((a * 16 + b) * 16 + c) * 16 + d

/-- Read the content of a string up to its closing quote. Halves of surrogate pairs are kept apart. -/
def units? : Input → Option (List Nat × Input)
  | '"' :: rest => some ([], rest)
  | '\\' :: 'u' :: a :: b :: c :: d :: rest => do
    let n ← fourDigits? a b c d
    let (ns, rest) ← units? rest
    return (n :: ns, rest)
  | '\\' :: e :: rest => do
    let c ← simpleEscape? e
    let (ns, rest) ← units? rest
    return (c.toNat :: ns, rest)
  | c :: rest =>
    if c = '\\' ∨ c.toNat < 0x20 then none
    else do
      let (ns, rest) ← units? rest
      return (c.toNat :: ns, rest)
  | [] => none

/-- Read a string. -/
def text? : Input → Option (JsonText × Input)
  | '"' :: rest => (units? rest).map fun (ns, rest) => (.joinPairs ns, rest)
  | _ => none

/-! ### Numbers -/

/-- Read one or more digits. -/
def digits? (cs : Input) : Option (List Char × Input) :=
  let ds := cs.takeWhile Char.isDigit
  if ds.isEmpty then none else some (ds, cs.dropWhile Char.isDigit)

/-- Read the digits before the point: a lone zero, or digits that do not begin with zero. -/
def wholeDigits? : Input → Option (List Char × Input)
  | '0' :: rest => some (['0'], rest)
  | cs => digits? cs

/-- Read a fraction, if there is one. -/
def fraction? : Input → Option (List Char × Input)
  | '.' :: rest => (digits? rest).map fun (ds, rest) => ('.' :: ds, rest)
  | cs => some ([], cs)

/-- Read an exponent, if there is one. -/
def exponent? : Input → Option (List Char × Input)
  | e :: rest =>
    if e = 'e' ∨ e = 'E' then
      match rest with
      | s :: rest' =>
        if s = '+' ∨ s = '-' then
          (digits? rest').map fun (ds, rest) => (e :: s :: ds, rest)
        else (digits? rest).map fun (ds, rest) => (e :: ds, rest)
      | [] => none
    else some ([], e :: rest)
  | [] => some ([], [])

/-- A number with the given sign and parts. -/
def numberOf (negative : Bool) (whole more : List Char) : JsonValue :=
  let most := if negative then 2 ^ (63 : Nat) else 2 ^ (64 : Nat) - 1
  let sign := if negative then ['-'] else []
  let decimal : JsonValue := .decimal (String.ofList (sign ++ whole ++ more))
  match ofDigitsUpTo? 10 most whole with
  | some n =>
    if more.isEmpty ∧ ¬ (negative ∧ n = 0) then .integer (if negative then -n else n) else decimal
  | none => decimal

/-- Read a number. -/
def number? (cs : Input) : Option (JsonValue × Input) := do
  let negative := cs.head? = some '-'
  let (whole, rest) ← wholeDigits? (if negative then cs.tail else cs)
  let (fraction, rest) ← fraction? rest
  let (exponent, rest) ← exponent? rest
  return (numberOf negative whole (fraction ++ exponent), rest)

/-! ### Values -/

/-- Read a word. -/
def word? (word : String) (v : JsonValue) (cs : Input) : Option (JsonValue × Input) :=
  if word.toList.isPrefixOf cs then some (v, cs.drop word.length) else none

/-- Read the name of a field and the colon after it. -/
def fieldName? (cs : Input) : Option (JsonText × Input) := do
  let (name, rest) ← text? cs
  match skipBlanks rest with
  | ':' :: rest => return (name, rest)
  | _ => none

mutual

/-- Read a value after blanks. -/
def value? : (fuel : Nat) → Input → Option (JsonValue × Input)
  | 0, _ => none
  | fuel + 1, cs =>
    match skipBlanks cs with
    | '"' :: rest => (text? ('"' :: rest)).map fun (t, rest) => (.string t, rest)
    | '[' :: rest =>
      match skipBlanks rest with
      | ']' :: rest => some (.array [], rest)
      | rest => items? fuel [] rest
    | '\x7b' :: rest =>
      match skipBlanks rest with
      | '\x7d' :: rest => some (.object [], rest)
      | rest => fields? fuel [] rest
    | 'n' :: rest => word? "null" .null ('n' :: rest)
    | 't' :: rest => word? "true" (.boolean true) ('t' :: rest)
    | 'f' :: rest => word? "false" (.boolean false) ('f' :: rest)
    | cs => number? cs

/-- Read the items of an array up to its end, after those that have been read. -/
def items? : (fuel : Nat) → (done : List JsonValue) → Input → Option (JsonValue × Input)
  | 0, _, _ => none
  | fuel + 1, done, cs => do
    let (v, rest) ← value? fuel cs
    match skipBlanks rest with
    | ',' :: rest => items? fuel (v :: done) rest
    | ']' :: rest => return (.array (v :: done).reverse, rest)
    | _ => none

/-- Read the fields of an object up to its end, after those that have been read. -/
def fields? : (fuel : Nat) → (done : JsonFields) → Input → Option (JsonValue × Input)
  | 0, _, _ => none
  | fuel + 1, done, cs => do
    let (name, rest) ← fieldName? (skipBlanks cs)
    let (v, rest) ← value? fuel rest
    match skipBlanks rest with
    | ',' :: rest => fields? fuel ((name, v) :: done) rest
    | '\x7d' :: rest => return (.object ((name, v) :: done).reverse, rest)
    | _ => none

end

/-- Read a text that holds one value. -/
def parse? (text : String) : Option JsonValue := do
  let cs := text.toList
  let (v, rest) ← value? (cs.length + 1) cs
  if (skipBlanks rest).isEmpty then return v else none

end ShuffleService.Json
