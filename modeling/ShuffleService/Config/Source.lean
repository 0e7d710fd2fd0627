import ShuffleService.Error
import ShuffleService.FileEntry
import ShuffleService.Text.Utf8
import ShuffleService.Toml.Document

/-!
# Where configurations come from

A configuration is read from the text of a document or from a file that holds one. All of it is read
before any of its values is checked.
-/

namespace ShuffleService

/-- Why there is no configuration. -/
inductive ConfigError
  /-- The file cannot be read, or does not hold text. -/
  | unreadable
  /-- The text is no document, or has a value of the wrong type. -/
  | malformed
  /-- An option does not take its value. -/
  | refused (cause : ShuffleError)
  deriving DecidableEq, Repr

/-- A kind of configuration. -/
class Configuration (α : Type) where
  /-- The configuration with the given fields. -/
  ofFields? : TomlEntries → Option α
  /-- Check the values of the options, in the order in which they are declared. -/
  validate : α → Except ShuffleError Unit

namespace Configuration

variable {α : Type} [Configuration α]

/-- A configuration all of whose options take their values. -/
def validated (c : α) : Except ConfigError α :=
  match validate c with
  | .ok _ => .ok c
  | .error e => .error (.refused e)

/-- Read a configuration from the text of a document. -/
def parse (text : String) : Except ConfigError α :=
  match (Toml.parse? text).bind ofFields? with
  | some c => validated c
  | none => .error .malformed

/-- Read a configuration from a file. -/
def load (file : FileEntry) : Except ConfigError α :=
  match file.content?.bind Utf8.decodeStrict? with
  | some text => parse text
  | none => .error .unreadable

end Configuration

end ShuffleService
