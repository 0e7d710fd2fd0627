import ShuffleService.Config.Log

/-!
# Command lines

The arguments of a program are taken one after the other. An option that needs a value gets it from
its own argument or from the next one; the value is looked at when the argument after it is taken,
or at the end. Asking for help or for the version ends the matter at once, and so does anything that
cannot be made sense of.
-/

namespace ShuffleService

/-- What the arguments of a program choose. -/
structure LaunchOptions where
  /-- The file to read the configuration from. -/
  config : Option String := none
  /-- A level of the log that goes before the configured one. -/
  logLevel : Option LogLevel := none
  /-- Whether to print the options of the configuration and nothing else. -/
  printOptions : Bool := false
  deriving DecidableEq, Repr

namespace CommandLine

/-- An option that needs a value. -/
inductive Setting
  | config
  | logLevel
  deriving DecidableEq, Repr

/-- What an argument asks for. -/
inductive Word
  | help
  | version
  | printOptions
  /-- An option, with its value if the argument has one. -/
  | setting (s : Setting) (value : Option String)
  /-- The mark after which no argument is an option. -/
  | endOfOptions
  /-- Neither an option nor the mark. -/
  | plain (text : String)
  /-- No option of the program. -/
  | unknown
  deriving DecidableEq, Repr

/-- The value after an equals sign, if there is one. -/
def attached? : List Char → Option (Option String)
  | [] => some none
  | '=' :: value => some (some (String.ofList value))
  | _ => none

/-- Read what stands after two hyphens. -/
def longWord (name : List Char) : Word :=
  match String.ofList (name.takeWhile (· ≠ '=')), attached? (name.dropWhile (· ≠ '=')) with
  | "config", some value => .setting .config value
  | "log-level", some value => .setting .logLevel value
  | "print-options", some none => .printOptions
  | "help", some none => .help
  | "version", some none => .version
  | _, _ => .unknown

/-- Read what stands after one hyphen. -/
def shortWord : List Char → Word
  | ['c'] => .setting .config none
  | 'c' :: '=' :: value => .setting .config (some (String.ofList value))
  | 'c' :: value => .setting .config (some (String.ofList value))
  | 'h' :: _ => .help
  | 'V' :: _ => .version
  | _ => .unknown

/-- What an argument asks for. A lone hyphen is plain. -/
def Word.ofArgument (arg : String) : Word :=
  match arg.toList with
  | ['-', '-'] => .endOfOptions
  | '-' :: '-' :: name => longWord name
  | ['-'] => .plain "-"
  | '-' :: name => shortWord name
  | _ => .plain arg

/-- An option whose value has not been looked at. -/
inductive Pending
  | nothing
  | awaiting (s : Setting)
  | given (s : Setting) (value : String)
  deriving DecidableEq, Repr

/-- Give an option a value. None may be given twice. -/
def choose? (o : LaunchOptions) : Setting → String → Option LaunchOptions
  | .config, value => if o.config.isSome then none else some { o with config := some value }
  | .logLevel, value =>
    if o.logLevel.isSome then none
    else (LogLevel.parse value).toOption.map fun l => { o with logLevel := some l }

/-- Look at the value of the option that is pending. -/
def settle? (o : LaunchOptions) : Pending → Option LaunchOptions
  | .nothing => some o
  | .awaiting _ => none
  | .given s value => choose? o s value

end CommandLine

/-- What a command line comes to. -/
inductive CommandLine
  | help
  | version
  /-- It cannot be made sense of. -/
  | refused
  | accepted (o : LaunchOptions)
  deriving DecidableEq, Repr

namespace CommandLine

/-- Go on with the options as they are once the pending one is settled. -/
def settled (o : LaunchOptions) (p : Pending) (next : LaunchOptions → CommandLine) : CommandLine :=
  match settle? o p with
  | some o => next o
  | none => .refused

/-- Take arguments after those that have been taken. -/
def parseAfter (o : LaunchOptions) (p : Pending) : List String → CommandLine
  | [] => settled o p .accepted
  | arg :: args =>
    match Word.ofArgument arg with
    | .help => settled o p fun _ => .help
    | .version => settled o p fun _ => .version
    | .printOptions => settled o p fun o =>
      if o.printOptions then .refused else parseAfter { o with printOptions := true } .nothing args
    | .setting s none => settled o p fun o => parseAfter o (.awaiting s) args
    | .setting s (some value) => settled o p fun o =>
      settled o (.given s value) fun o => parseAfter o .nothing args
    | .endOfOptions => if args.isEmpty then settled o p .accepted else .refused
    | .plain value =>
      match p with
      | .awaiting s => parseAfter o (.given s value) args
      | _ => .refused
    | .unknown => .refused

/-- Take the arguments of a program. -/
def parse (args : List String) : CommandLine := parseAfter {} .nothing args

end CommandLine

end ShuffleService
