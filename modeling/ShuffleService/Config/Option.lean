import ShuffleService.Error
import ShuffleService.Text.Quoted
import ShuffleService.Toml.Decode

/-!
# Options

An option is a value that a service lets its operator choose. It is declared once, with its key, its
default, the values it takes and how they are shown; the fields of a configuration get their defaults
from these declarations and are checked against them.
-/

namespace ShuffleService

/-- How the values of an option are shown. -/
structure ValueFormat (α : Type) where
  /-- The name of the type of values. -/
  typeName : String
  /-- A value as it is shown in messages. -/
  text : α → String

namespace ValueFormat

/-- Numbers of 16 bits. -/
def word16 : ValueFormat Nat := ⟨"u16", toString⟩

/-- Numbers of 64 bits. -/
def word64 : ValueFormat Nat := ⟨"u64", toString⟩

/-- Counts. -/
def count : ValueFormat Nat := ⟨"usize", toString⟩

/-- Lists of strings. -/
def strings : ValueFormat (List String) :=
  ⟨"alloc::vec::Vec<alloc::string::String>", Quoted.quoteList⟩

/-- A string that may be absent. -/
def optionalString : ValueFormat (Option String) where
  typeName := "core::option::Option<alloc::string::String>"
  text
    | none => "None"
    | some s => "Some(" ++ Quoted.quote s ++ ")"

end ValueFormat

/-- The declaration of an option. -/
structure ConfigOption (α : Type) where
  key : String
  description : String
  default : α
  format : ValueFormat α
  /-- Whether a value may be chosen. -/
  accepts : α → Bool := fun _ => true

/-- What an option tells about itself. -/
structure OptionDescriptor where
  key : String
  valueType : String
  defaultValue : String
  description : String
  deriving DecidableEq, Repr

namespace ConfigOption

variable {α : Type}

/-- An option with numbers of 64 bits other than zero. -/
def positive (key description : String) (default : Nat)
    (format : ValueFormat Nat := ValueFormat.word64) : ConfigOption Nat where
  key := key
  description := description
  default := default
  format := format
  accepts n := 0 < n

/-- What is wrong with a value that the option does not take. -/
def refusal (o : ConfigOption α) (v : α) : ShuffleError :=
  .invalidConfig s!"Illegal value {o.format.text v} for option [{o.key}]: {o.description}"

/-- Check a value. -/
def check (o : ConfigOption α) (v : α) : Except ShuffleError Unit :=
  if o.accepts v then .ok () else .error (o.refusal v)

/-- The value that the fields of a document give the option, its default if they give none. -/
def read? (o : ConfigOption α) (es : TomlEntries) (value? : TomlValue → Option α) : Option α :=
  Toml.fieldOr es o.key value? o.default

/-- What the option tells about itself. -/
def descriptor (o : ConfigOption α) : OptionDescriptor :=
  ⟨o.key, o.format.typeName, o.format.text o.default, o.description⟩

@[simp] theorem check_eq_ok_iff {o : ConfigOption α} {v : α} :
    o.check v = .ok () ↔ o.accepts v = true := by
  unfold check
  split <;> simp_all

end ConfigOption

end ShuffleService
