import ShuffleService.Text.Digits
import ShuffleService.Toml.Value
import ShuffleService.Word

/-!
# Strings, numbers and dates of TOML

Each reader takes the characters from some place on and returns a value with the characters after
it. Which reader is asked is decided by the first characters.
-/

namespace ShuffleService.Toml

open scoped PlainNumbers

/-- The characters that are still to be read. -/
abbrev Input := List Char

/-- Whether a character is a space or a tab. -/
def isSpace (c : Char) : Bool := c = ' ' || c = '\t'

/-- Skip spaces and tabs. -/
def skipSpaces (cs : Input) : Input := cs.dropWhile isSpace

/-- Whether a character may stand as it is in a comment, and in a string, quotes and backslashes
apart. -/
def isTextChar (c : Char) : Bool := c = '\t' || (0x20 ≤ c.toNat && c.toNat ≠ 0x7F)

/-- Whether a number is the code point of a character. -/
def isScalar (n : Nat) : Bool := n < 0xD800 || (0xE000 ≤ n && n < 0x110000)

/-! ### Strings -/

/-- The character that a letter after a backslash stands for. -/
def simpleEscape? : Char → Option Char
  | 'b' => some '\x08'
  | 't' => some '\t'
  | 'n' => some '\n'
  | 'f' => some '\x0C'
  | 'r' => some '\r'
  | '"' => some '"'
  | '\\' => some '\\'
  | _ => none

/-- Where a reader stands within a string. -/
inductive StringState
  /-- Between characters; in `skipping`, blanks and line ends after an escaped line end are left
  out. -/
  | between (skipping : Bool)
  /-- After a backslash. -/
  | escape
  /-- After a backslash and blanks, before the line end that has to follow. -/
  | lineEnd
  /-- Within a code point: the digits that are missing and the value so far. -/
  | code (missing value : Nat)

/-- Put a character before what has been read. -/
def andThen (c : Char) (r : Option (List Char × Input)) : Option (List Char × Input) :=
  r.map fun (text, rest) => (c :: text, rest)

/-- The closing quotes of a string of several lines: up to two more quotes belong to the text. -/
def closing (quote : Char) : Input → List Char × Input
  | a :: b :: rest =>
    if a = quote ∧ b = quote then ([quote, quote], rest)
    else if a = quote then ([quote], b :: rest)
    else ([], a :: b :: rest)
  | [a] => if a = quote then ([quote], []) else ([], [a])
  | [] => ([], [])

/-- Read a string with escapes up to its closing quotes. -/
def basicString (multiline : Bool) : StringState → Input → Option (List Char × Input)
  | .between _, '"' :: '"' :: '"' :: rest =>
    if multiline then some (closing '"' rest) else some ([], '"' :: '"' :: rest)
  | .between skipping, c :: rest =>
    if c = '\\' then basicString multiline .escape rest
    else if c = '"' then
      if multiline then andThen '"' (basicString multiline (.between false) rest)
      else some ([], rest)
    else if c = '\n' then
      if skipping then basicString multiline (.between true) rest
      else if multiline then andThen '\n' (basicString multiline (.between false) rest)
      else none
    else if c = '\r' then
      if multiline ∧ rest.head? = some '\n' then basicString multiline (.between skipping) rest
      else none
    else if skipping ∧ isSpace c then basicString multiline (.between true) rest
    else if isTextChar c then andThen c (basicString multiline (.between false) rest)
    else none
  | .escape, c :: rest =>
    match simpleEscape? c with
    | some d => andThen d (basicString multiline (.between false) rest)
    | none =>
      if c = 'u' then basicString multiline (.code 4 0) rest
      else if c = 'U' then basicString multiline (.code 8 0) rest
      else if multiline ∧ isSpace c then basicString multiline .lineEnd rest
      else if multiline ∧ c = '\n' then basicString multiline (.between true) rest
      else if multiline ∧ c = '\r' ∧ rest.head? = some '\n' then
        basicString multiline .lineEnd rest
      else none
  | .lineEnd, c :: rest =>
    if isSpace c then basicString multiline .lineEnd rest
    else if c = '\n' then basicString multiline (.between true) rest
    else if c = '\r' ∧ rest.head? = some '\n' then basicString multiline .lineEnd rest
    else none
  | .code missing value, c :: rest =>
    match Hex.value? c with
    | none => none
    | some d =>
      let value := 16 * value + d
      if 1 < missing then basicString multiline (.code (missing - 1) value) rest
      else if isScalar value then
        andThen (Char.ofNat value) (basicString multiline (.between false) rest)
      else none
  | _, [] => none

/-- Read a string without escapes up to its closing quotes. -/
def literalString (multiline : Bool) : Input → Option (List Char × Input)
  | '\'' :: '\'' :: '\'' :: rest =>
    if multiline then some (closing '\'' rest) else some ([], '\'' :: '\'' :: rest)
  | c :: rest =>
    if c = '\'' then
      if multiline then andThen c (literalString multiline rest) else some ([], rest)
    else if c = '\n' then
      if multiline then andThen c (literalString multiline rest) else none
    else if c = '\r' then
      if multiline ∧ rest.head? = some '\n' then literalString multiline rest else none
    else if isTextChar c then andThen c (literalString multiline rest)
    else none
  | [] => none

/-- The line end right after the opening quotes of a string of several lines is left out. -/
def skipFirstLineEnd : Input → Input
  | '\n' :: rest => rest
  | '\r' :: '\n' :: rest => rest
  | cs => cs

/-- Read a string of any kind. -/
def string? : Input → Option (String × Input)
  | '"' :: '"' :: '"' :: rest => finish (basicString true (.between false) (skipFirstLineEnd rest))
  | '"' :: rest => finish (basicString false (.between false) rest)
  | '\'' :: '\'' :: '\'' :: rest => finish (literalString true (skipFirstLineEnd rest))
  | '\'' :: rest => finish (literalString false rest)
  | _ => none
where
  /-- The text as a string. -/
  finish (r : Option (List Char × Input)) : Option (String × Input) :=
    r.map fun (text, rest) => (String.ofList text, rest)

/-! ### Numbers -/

/-- Read digits, with single underscores between them. -/
def digitsWith (isDigit : Char → Bool) : Input → List Char × Input
  | c :: rest =>
    if isDigit c then
      let (more, after) := digitsWith isDigit rest
      (c :: more, after)
    else if c = '_' then
      match rest with
      | d :: rest' =>
        if isDigit d then
          let (more, after) := digitsWith isDigit rest'
          (d :: more, after)
        else ([], c :: rest)
      | [] => ([], [c])
    else ([], c :: rest)
  | [] => ([], [])

/-- Read at least one digit, the first without an underscore before it. -/
def digits1? (isDigit : Char → Bool) : Input → Option (List Char × Input)
  | c :: rest => if isDigit c then some (digitsWith isDigit (c :: rest)) else none
  | [] => none

/-- Cut a sign off. -/
def sign : Input → Option Char × Input
  | c :: rest => if c = '+' ∨ c = '-' then (some c, rest) else (none, c :: rest)
  | [] => (none, [])

/-- Read decimal digits without a leading zero. -/
def decimalDigits? : Input → Option (List Char × Input)
  | c :: rest =>
    if c = '0' then some ([c], rest) else digits1? Char.isDigit (c :: rest)
  | [] => none

/-- An integer, if a word of 64 bits holds it. -/
def integerValue? (i : Int) : Option TomlValue :=
  if -2 ^ (63 : Nat) ≤ i ∧ i < 2 ^ (63 : Nat) then some (.integer i) else none

/-- Read an integer in base 16, 8 or 2. -/
def prefixedInteger? (base : Nat) (isDigit : Char → Bool) (cs : Input) :
    Option (TomlValue × Input) := do
  let (ds, rest) ← digits1? isDigit cs
  let n ← ofDigitsUpTo? base (2 ^ (63 : Nat)) ds
  let v ← integerValue? n
  return (v, rest)

/-- Read an integer. -/
def integer? : Input → Option (TomlValue × Input)
  | '0' :: 'x' :: rest => prefixedInteger? 16 (fun c => (Hex.value? c).isSome) rest
  | '0' :: 'o' :: rest => prefixedInteger? 8 (fun c => '0' ≤ c && c ≤ '7') rest
  | '0' :: 'b' :: rest => prefixedInteger? 2 (fun c => c = '0' || c = '1') rest
  | cs => do
    let (s, cs) := sign cs
    let (ds, rest) ← decimalDigits? cs
    let n : Int ← ofDigitsUpTo? 10 (2 ^ (63 : Nat)) ds
    let v ← integerValue? (if s = some '-' then -n else n)
    return (v, rest)

/-- Read a fraction: a point and digits. -/
def fraction? : Input → Option (List Char × Input)
  | '.' :: rest => digits1? Char.isDigit rest
  | _ => none

/-- The largest exponent that is told from larger ones. No text has as many digits. -/
def maxExponent : Nat := 2 ^ (63 : Nat)

/-- Read an exponent. -/
def exponent? : Input → Option (Int × Input)
  | c :: rest =>
    if c = 'e' ∨ c = 'E' then do
      let (s, rest) := sign rest
      let (ds, rest) ← digits1? Char.isDigit rest
      let n : Int := (ofDigitsUpTo? 10 maxExponent ds).getD maxExponent
      return (if s = some '-' then -n else n, rest)
    else none
  | [] => none

/-- The least number that is too large for a double: half a unit above the largest one, in its last
place. -/
def doubleBound : Nat := 2 ^ (1024 : Nat) - 2 ^ (970 : Nat)

/-- The number of decimal digits of `doubleBound`. -/
def doublePlaces : Nat := 309

/-- Whether the number with the given digits, times a power of ten, is too large for a double. Its
whole part decides, and that by its first digits if it has as many as the bound. -/
def overflows (ds : List Char) (exponent : Int) : Bool :=
  let ds := ds.dropWhile (· = '0')
  let places := ds.length + exponent
  if ds.isEmpty || places < doublePlaces then false
  else if doublePlaces < places then true
  else doubleBound ≤ ofDigits 10 ((ds ++ List.replicate doublePlaces '0').take doublePlaces)

/-- Read a number with a fraction, an exponent or both. One that is too large for a double is none,
unless it is negative. -/
def finiteFloat? (cs : Input) : Option (TomlValue × Input) := do
  let (s, body) := sign cs
  let (whole, rest) ← decimalDigits? body
  let (fraction, exponent, rest) ←
    match fraction? rest with
    | some (fraction, rest) =>
      match exponent? rest with
      | some (e, rest) => some (fraction, e, rest)
      | none => some (fraction, 0, rest)
    | none => (exponent? rest).map fun (e, rest) => ([], e, rest)
  if s ≠ some '-' ∧ overflows (whole ++ fraction) (exponent - fraction.length) then none
  return (.float (String.ofList (cs.take (cs.length - rest.length))), rest)

/-- Read an infinity or a NaN. -/
def specialFloat? (cs : Input) : Option (TomlValue × Input) :=
  match (sign cs).2 with
  | 'i' :: 'n' :: 'f' :: rest => some (.float "inf", rest)
  | 'n' :: 'a' :: 'n' :: rest => some (.float "nan", rest)
  | _ => none

/-! ### Dates and times -/

/-- Read exactly `n` decimal digits. -/
def fixedDigits? (n : Nat) (cs : Input) : Option (Nat × Input) :=
  let ds := cs.take n
  if ds.length = n ∧ ds.all Char.isDigit then some (ofDigits 10 ds, cs.drop n) else none

/-- Read exactly `n` decimal digits whose number lies between two others. -/
def numberBetween? (n least most : Nat) (cs : Input) : Option (Nat × Input) :=
  (fixedDigits? n cs).filter fun (value, _) => least ≤ value && value ≤ most

/-- Skip a character. -/
def skipChar? (c : Char) : Input → Option Input
  | d :: rest => if d = c then some rest else none
  | [] => none

/-- Skip a date. Any month may have 31 days. -/
def date? (cs : Input) : Option Input := do
  let (_, cs) ← fixedDigits? 4 cs
  let cs ← skipChar? '-' cs
  let (_, cs) ← numberBetween? 2 1 12 cs
  let cs ← skipChar? '-' cs
  let (_, cs) ← numberBetween? 2 1 31 cs
  return cs

/-- Skip a time of day. -/
def time? (cs : Input) : Option Input := do
  let (_, cs) ← numberBetween? 2 0 23 cs
  let cs ← skipChar? ':' cs
  let (_, cs) ← numberBetween? 2 0 59 cs
  let cs ← skipChar? ':' cs
  let (_, cs) ← numberBetween? 2 0 60 cs
  match cs with
  | '.' :: d :: rest => return if d.isDigit then rest.dropWhile Char.isDigit else cs
  | _ => return cs

/-- Skip an offset from universal time, if there is one. -/
def offset (cs : Input) : Input :=
  match cs with
  | 'Z' :: rest => rest
  | 'z' :: rest => rest
  | _ =>
    let skipped := do
      let (s, rest) := sign cs
      if s = none then none
      let (_, rest) ← numberBetween? 2 0 23 rest
      let rest ← skipChar? ':' rest
      let (_, rest) ← numberBetween? 2 0 59 rest
      return rest
    skipped.getD cs

/-- Skip a time of day after a date, if there is one. -/
def timeAfterDate (cs : Input) : Input :=
  match cs with
  | c :: rest =>
    if c = 'T' ∨ c = 't' ∨ c = ' ' then ((time? rest).map offset).getD cs else cs
  | [] => cs

/-- Read a date, a time or both. -/
def datetime? (cs : Input) : Option (TomlValue × Input) := do
  let rest ← ((date? cs).map timeAfterDate).or (time? cs)
  return (.datetime (String.ofList (cs.take (cs.length - rest.length))), rest)

/-! ### Values without parts -/

/-- Read a word. -/
def word? (word : String) (v : TomlValue) (cs : Input) : Option (TomlValue × Input) :=
  if word.toList.isPrefixOf cs then some (v, cs.drop word.length) else none

/-- Read a value that has no values in it. -/
def scalar? (cs : Input) : Option (TomlValue × Input) :=
  match cs with
  | [] => none
  | c :: _ =>
    if c = '"' ∨ c = '\'' then (string? cs).map fun (s, rest) => (.string s, rest)
    else if c = 't' then word? "true" (.boolean true) cs
    else if c = 'f' then word? "false" (.boolean false) cs
    else (datetime? cs).or ((finiteFloat? cs).or ((specialFloat? cs).or (integer? cs)))

end ShuffleService.Toml
