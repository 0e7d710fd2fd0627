import ShuffleService.Toml.Scalar

/-!
# TOML documents

A document is a list of statements, one a line: headers of tables, headers of arrays of tables, and
keys with values. `parse?` reads a document into the entries of its root table; there is none for a
text that is no document.
-/

namespace ShuffleService.Toml

/-- Skip blanks, line ends and comments between the parts of an array. -/
def skipGap : Input → Input
  | [] => []
  | c :: rest =>
    if isSpace c ∨ c = '\n' then skipGap rest
    else if c = '\r' ∧ rest.head? = some '\n' then skipGap rest
    else if c = '#' then skipGap (rest.dropWhile isTextChar)
    else c :: rest
termination_by cs => cs.length
decreasing_by
  · simp
  · simp
  · have := (List.dropWhile_sublist (l := rest) isTextChar).length_le
    rw [List.length_cons]
    omega

/-- Whether a character may stand in a key without quotes. -/
def isBareChar (c : Char) : Bool := c.isAlphanum || c = '_' || c = '-'

/-- Read one part of a key. -/
def simpleKey? (cs : Input) : Option (String × Input) :=
  match cs with
  | '"' :: rest => string?.finish (basicString false (.between false) rest)
  | '\'' :: rest => string?.finish (literalString false rest)
  | _ =>
    let bare := cs.takeWhile isBareChar
    if bare.isEmpty then none else some (String.ofList bare, cs.dropWhile isBareChar)

/-- Read the parts of a dotted key, at most `fuel` of them. -/
def keyParts? : (fuel : Nat) → Input → Option (List String × Input)
  | 0, _ => none
  | fuel + 1, cs => do
    let (part, rest) ← simpleKey? (skipSpaces cs)
    match skipSpaces rest with
    | '.' :: rest =>
      let (parts, rest) ← keyParts? fuel rest
      return (part :: parts, rest)
    | rest => return ([part], rest)

/-- The most arrays and inline tables around a value, and the most parts of a key. -/
def maxDepth : Nat := 127

/-- Read a dotted key as its path and its last part. -/
def key? (cs : Input) : Option ((List String × String) × Input) := do
  let (parts, rest) ← keyParts? maxDepth cs
  let last ← parts.getLast?
  return ((parts.dropLast, last), rest)

mutual

/-- Read a value with at most `depth` arrays and inline tables within each other. -/
def value? : (fuel depth : Nat) → Input → Option (TomlValue × Input)
  | 0, _, _ => none
  | fuel + 1, depth, cs =>
    match cs, depth with
    | '[' :: _, 0 => none
    | '\x7b' :: _, 0 => none
    | '[' :: rest, depth + 1 => arrayItems? fuel depth [] rest
    | '\x7b' :: rest, depth + 1 =>
      match skipSpaces rest with
      | '\x7d' :: rest => some (.table .inlined [], rest)
      | rest => inlineEntries? fuel depth [] rest
    | cs, _ => scalar? cs

/-- Read the items of an array up to its end, after those that have been read. -/
def arrayItems? : (fuel depth : Nat) → (done : List TomlValue) → Input →
    Option (TomlValue × Input)
  | 0, _, _, _ => none
  | fuel + 1, depth, done, cs =>
    match skipGap cs with
    | ']' :: rest => some (.array done.reverse, rest)
    | cs => do
      let (v, rest) ← value? fuel depth cs
      match skipGap rest with
      | ',' :: rest => arrayItems? fuel depth (v :: done) rest
      | ']' :: rest => return (.array (v :: done).reverse, rest)
      | _ => none

/-- Read the entries of an inline table up to its end, after those that have been read. -/
def inlineEntries? : (fuel depth : Nat) → (done : TomlEntries) → Input →
    Option (TomlValue × Input)
  | 0, _, _, _ => none
  | fuel + 1, depth, done, cs => do
    let ((path, key), rest) ← key? cs
    let rest ← skipChar? '=' rest
    let (v, rest) ← value? fuel depth (skipSpaces rest)
    let done ← assignInline path key v done
    match skipSpaces rest with
    | ',' :: rest => inlineEntries? fuel depth done rest
    | '\x7d' :: rest => return (.table .inlined done, rest)
    | _ => none

end

/-- Skip what may stand after a statement, up to the next line or the end. -/
def lineEnd? (cs : Input) : Option Input :=
  let rest :=
    match skipSpaces cs with
    | '#' :: rest => rest.dropWhile isTextChar
    | rest => rest
  match rest with
  | [] => some []
  | '\n' :: rest => some rest
  | '\r' :: '\n' :: rest => some rest
  | _ => none

/-- Where a document has been read to: the path of the last header, and the root so far. -/
structure DocumentState where
  header : List String
  root : TomlEntries

/-- Read a statement. Its value has fewer characters than `fuel`. -/
def statement? (fuel : Nat) (s : DocumentState) (cs : Input) : Option (DocumentState × Input) :=
  match cs with
  | '[' :: '[' :: rest => do
    let ((path, key), rest) ← key? rest
    let rest ← skipChar? ']' rest
    let rest ← skipChar? ']' rest
    let root ← openArrayItem path key s.root
    return (⟨path ++ [key], root⟩, rest)
  | '[' :: rest => do
    let ((path, key), rest) ← key? rest
    let rest ← skipChar? ']' rest
    let root ← openTable path key s.root
    return (⟨path ++ [key], root⟩, rest)
  | cs => do
    let ((path, key), rest) ← key? cs
    let rest ← skipChar? '=' rest
    let (v, rest) ← value? fuel maxDepth (skipSpaces rest)
    let root ← assignBelow s.header path key v s.root
    return ({ s with root := root }, rest)

/-- Read the statements of a document, which has fewer characters than `fuel`. Each line takes one
character at least, so the rest of the document again has fewer characters than the fuel left. -/
def statements? : (fuel : Nat) → DocumentState → Input → Option TomlEntries
  | 0, _, _ => none
  | fuel + 1, s, cs =>
    match skipSpaces cs with
    | [] => some s.root
    | c :: rest =>
      if c = '\n' ∨ c = '\r' ∨ c = '#' then (lineEnd? (c :: rest)).bind (statements? fuel s)
      else do
        let (s, rest) ← statement? fuel s (c :: rest)
        let rest ← lineEnd? rest
        statements? fuel s rest

/-- Read a document. A byte order mark at its start is left out. -/
def parse? (text : String) : Option TomlEntries :=
  let cs := text.toList
  let cs := if cs.head? = some '\uFEFF' then cs.tail else cs
  statements? (cs.length + 1) ⟨[], []⟩ cs

end ShuffleService.Toml
