import ShuffleService.Text.Visible

/-!
# Quoted text

A string as it is shown inside a message: between double quotes, with the quote, the backslash and
the characters that do not show on their own escaped, and every other character as it is.
-/

namespace ShuffleService.Quoted

/-- A character as it is shown between quotes. -/
def escape (c : Char) : List Char :=
  match c with
  | '"' => ['\\', '"']
  | '\\' => ['\\', '\\']
  | '\n' => ['\\', 'n']
  | '\r' => ['\\', 'r']
  | '\t' => ['\\', 't']
  | '\x00' => ['\\', '0']
  | c =>
    if isVisible c then [c] else ['\\', 'u', '\x7b'] ++ Nat.toDigits 16 c.toNat ++ ['\x7d']

/-- A string between quotes. -/
def quote (s : String) : String := String.ofList ('"' :: s.toList.flatMap escape ++ ['"'])

/-- The items of a list between the given brackets, with commas. -/
def between (opening closing : String) (items : List String) : String :=
  opening ++ String.intercalate ", " items ++ closing

/-- A list of strings, each of them quoted. -/
def quoteList (ss : List String) : String := between "[" "]" (ss.map quote)

/-- A set of strings, each of them quoted. -/
def quoteSet (ss : List String) : String := between "\x7b" "\x7d" (ss.map quote)

end ShuffleService.Quoted
