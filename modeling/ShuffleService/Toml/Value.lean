/-!
# TOML values and the tree of a document

A document is built up statement by statement. Each table remembers how it came into being, since
that decides what may still be added to it.

* `TomlValue`, `TableOrigin`: the values of a document;
* `Toml.descend`: change the table at a path, making the tables on the way that are missing;
* `Toml.openTable`, `Toml.openArrayItem`, `Toml.assign`: what the three kinds of statement do;
* `Toml.assignInline`: what an entry of an inline table does.
-/

namespace ShuffleService

/-- How a table came into being. -/
inductive TableOrigin
  /-- By a header of its own, or as the root of the document. -/
  | header
  /-- By the header of a table below it. -/
  | implied
  /-- By a dotted key. -/
  | dotted
  /-- As an inline table, or within one. Nothing can be added to it from outside. -/
  | inlined
  deriving DecidableEq, Repr

/-- A value of a document. Floats and dates are kept as they are written. -/
inductive TomlValue
  | string (text : String)
  | integer (value : Int)
  | float (text : String)
  | boolean (value : Bool)
  | datetime (text : String)
  | array (items : List TomlValue)
  | table (origin : TableOrigin) (entries : List (String × TomlValue))
  /-- An array of tables that was made by headers, the latest table first. -/
  | tables (items : List (List (String × TomlValue)))

/-- The entries of a table in the order in which they were made. -/
abbrev TomlEntries := List (String × TomlValue)

namespace Toml

/-- Put a value in the place of the one that a key has. -/
def replaceEntry (es : TomlEntries) (key : String) (v : TomlValue) : TomlEntries :=
  es.map fun (k, old) => if k = key then (k, v) else (k, old)

/-- Change the table that a path leads to. Missing tables on the way are made, with the given
origin; of an array of tables the latest one is on the way. A path of dotted keys does not lead
through a table that has a header of its own; only a path within an inline table leads through
inline tables; and no path leads through any other value. -/
def descend (made : TableOrigin) (change : TableOrigin → TomlEntries → Option TomlEntries) :
    List String → TableOrigin → TomlEntries → Option TomlEntries
  | [], origin, es => change origin es
  | key :: path, _, es =>
    match es.lookup key with
    | none => do
      let below ← descend made change path made []
      return es ++ [(key, .table made below)]
    | some (.table origin below) => do
      if (origin = .inlined ∧ made ≠ .inlined) ∨ (origin = .header ∧ made = .dotted) then none
      let below ← descend made change path origin below
      return replaceEntry es key (.table origin below)
    | some (.tables (latest :: earlier)) => do
      let latest ← descend made change path .header latest
      return replaceEntry es key (.tables (latest :: earlier))
    | some _ => none

/-- The header of a table: it may be new, or known only from the headers of tables below it. -/
def openTable (path : List String) (key : String) (root : TomlEntries) : Option TomlEntries :=
  descend .implied (fun _ es =>
    match es.lookup key with
    | none => some (es ++ [(key, .table .header [])])
    | some (.table .implied below) => some (replaceEntry es key (.table .header below))
    | some _ => none) path .header root

/-- The header of one more table of an array. -/
def openArrayItem (path : List String) (key : String) (root : TomlEntries) : Option TomlEntries :=
  descend .implied (fun _ es =>
    match es.lookup key with
    | none => some (es ++ [(key, .tables [[]])])
    | some (.tables items) => some (replaceEntry es key (.tables ([] :: items)))
    | some _ => none) path .header root

/-- Give a dotted key of a table a value. The last table on its way has to be one that dotted keys
have made, and the key has to be new. -/
def assign (origin : TableOrigin) (path : List String) (key : String) (v : TomlValue)
    (es : TomlEntries) : Option TomlEntries :=
  descend .dotted (fun last es =>
    if path.isEmpty = false ∧ last ≠ .dotted then none
    else if (es.lookup key).isSome then none
    else some (es ++ [(key, v)])) path origin es

/-- Give a dotted key within an inline table a value. The key has to be new; the tables on its way
may be there already, however they are written. -/
def assignInline (path : List String) (key : String) (v : TomlValue) (es : TomlEntries) :
    Option TomlEntries :=
  descend .inlined (fun _ es => if (es.lookup key).isSome then none else some (es ++ [(key, v)]))
    path .inlined es

/-- Give a dotted key below a header a value. -/
def assignBelow (header path : List String) (key : String) (v : TomlValue) (root : TomlEntries) :
    Option TomlEntries :=
  descend .implied (fun origin es => assign origin path key v es) header .header root

end Toml

end ShuffleService
