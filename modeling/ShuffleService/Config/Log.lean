import ShuffleService.Config.Source
import ShuffleService.Toml.Decode

/-!
# Configuration of the log

Where a service writes its log, how often it begins a new file, how many files it keeps, and which
messages it writes.
-/

namespace ShuffleService

open scoped PlainNumbers

/-- How often a new log file is begun. -/
inductive LogRotation
  | hourly
  | daily
  | never
  deriving DecidableEq, Repr

namespace LogRotation

/-- The name a rotation is written with. -/
def name : LogRotation → String
  | .hourly => "Hourly"
  | .daily => "Daily"
  | .never => "Never"

/-- The rotation with a name. -/
def ofName? (s : String) : Option LogRotation := [hourly, daily, never].find? (·.name = s)

@[simp] theorem ofName?_name (r : LogRotation) : ofName? r.name = some r := by
  cases r <;> rfl

end LogRotation

/-- The least weight of a message that is written to the log. -/
inductive LogLevel
  | debug
  | info
  | warn
  deriving DecidableEq, Repr

namespace LogLevel

/-- The name a level is written with. -/
def name : LogLevel → String
  | .debug => "DEBUG"
  | .info => "INFO"
  | .warn => "WARN"

/-- The word that selects the messages of a level and above. -/
def directive : LogLevel → String
  | .debug => "debug"
  | .info => "info"
  | .warn => "warn"

/-- The level with a name. -/
def ofName? (s : String) : Option LogLevel := [debug, info, warn].find? (·.name = s)

/-- Read a level. Letters of the basic Latin alphabet may have either case. -/
def parse (s : String) : Except ShuffleError LogLevel :=
  match ofName? (s.map Char.toUpper) with
  | some l => .ok l
  | none => .error (.invalidConfig ("Unknown log level: " ++ s))

/-- Whether messages that report the course of events are written. -/
def showsInfo (l : LogLevel) : Bool := l ≠ .warn

@[simp] theorem ofName?_name (l : LogLevel) : ofName? l.name = some l := by
  cases l <;> rfl

end LogLevel

/-- The configuration of the log. -/
structure LogConfig where
  /-- The directory of the log files. -/
  path : String := "/tmp/"
  rotation : LogRotation := .daily
  /-- The number of files that are kept. -/
  maxFiles : Nat := 10
  level : LogLevel := .info
  deriving DecidableEq, Repr

namespace LogConfig

/-- The names of the fields, in order. -/
def fieldNames : List String := ["path", "rotation", "max_log_files", "log_level"]

/-- The configuration with the given fields. -/
def ofFields? (es : TomlEntries) : Option LogConfig := do
  let default : LogConfig := {}
  let path ← Toml.fieldOr es "path" TomlValue.string? default.path
  let rotation ← Toml.fieldOr es "rotation" (·.choice?.bind LogRotation.ofName?) default.rotation
  let maxFiles ← Toml.fieldOr es "max_log_files" (TomlValue.nat? (2 ^ (63 : Nat))) default.maxFiles
  let level ← Toml.fieldOr es "log_level" (·.choice?.bind LogLevel.ofName?) default.level
  return ⟨path, rotation, maxFiles, level⟩

/-- The configuration that a value stands for. -/
def ofToml? (v : TomlValue) : Option LogConfig := (v.fields? fieldNames).bind ofFields?

instance : Configuration LogConfig := ⟨ofFields?, fun _ => .ok ()⟩

end LogConfig

end ShuffleService
