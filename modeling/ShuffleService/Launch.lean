import ShuffleService.CommandLine
import ShuffleService.Config.Coordinator
import ShuffleService.Config.Server
import ShuffleService.FileTree
import ShuffleService.Json.Form
import ShuffleService.Json.Printer

/-!
# The programs

There is one program for the shuffle server and one for the coordinator. Both take the same
arguments (`CommandLine`), read their configuration, open a log and serve until they are told to
stop.

* `Program.plan`: what the arguments of a program come to;
* `Program.service`: what a program serves with, given its configuration file;
* `Program.run`: a whole run among given files, up to its exit code.
-/

namespace ShuffleService

/-- The programs of the service. -/
inductive Program
  | shuffleServer
  | coordinator
  deriving DecidableEq, Repr

/-- What a program does once its arguments are known. -/
inductive Plan
  /-- Print a text and exit. -/
  | finish (code : Nat) (output : String)
  /-- Serve. -/
  | serve (o : LaunchOptions)
  deriving DecidableEq, Repr

/-- What a program serves with. -/
structure Service where
  log : LogConfig
  /-- The message when it has started. -/
  started : String
  /-- The message when it has been told to stop. -/
  stopping : String
  deriving DecidableEq, Repr

namespace Program

/-- The name of a program. -/
def name : Program → String
  | .shuffleServer => "riffle-server"
  | .coordinator => "riffle-coordinator"

/-- The program with a name. -/
def ofName? (s : String) : Option Program := [shuffleServer, coordinator].find? (·.name = s)

/-- What names of log files of a program begin with. -/
def logName (p : Program) : String := p.name ++ ".log"

/-- The version of the programs. -/
def version : String := "0.12.0"

/-- What a program prints when it is asked for help. -/
def help (p : Program) : String :=
  String.join
    ["Usage: ", p.name, " [OPTIONS]\n",
      "\n",
      "Options:\n",
      "  -c, --config <CONFIG>        \n",
      "      --log-level <LOG_LEVEL>  \n",
      "      --print-options          Print every supported option with its default and exit\n",
      "  -h, --help                   Print help\n",
      "  -V, --version                Print version\n"]

/-- The options of the configuration of a program. -/
def options : Program → List OptionDescriptor
  | .shuffleServer => ServerOption.descriptors
  | .coordinator => CoordinatorOption.descriptors

/-- What the arguments of a program come to. -/
def plan (p : Program) (args : List String) : Plan :=
  match CommandLine.parse args with
  | .help => .finish 0 p.help
  | .version => .finish 0 (p.name ++ " " ++ version ++ "\n")
  | .refused => .finish 2 ""
  | .accepted o =>
    if o.printOptions then
      .finish 0 (Json.print (.array (p.options.map OptionDescriptor.toJson)) ++ "\n")
    else .serve o

/-- The configuration in a file, or the default one where no file is named. -/
def configured {α : Type} [Configuration α] (default : α) : Option FileEntry → Except ConfigError α
  | some file => Configuration.load file
  | none => .ok default

/-- The log to open: a level among the arguments goes before the configured one. -/
def logOf (o : LaunchOptions) (configured : Option LogConfig) : LogConfig :=
  let log := configured.getD {}
  { log with level := o.logLevel.getD log.level }

/-- What a program serves with, given what stands where its configuration should be. -/
def service (p : Program) (o : LaunchOptions) (file : Option FileEntry) :
    Except ConfigError Service :=
  match p with
  | .shuffleServer => do
    let c : ServerConfig ← configured {} file
    let tags := Quoted.quoteList c.tags
    return {
      log := logOf o c.log
      started := s!"Riffle shuffle server has been started, rpc port: {c.rpcPort}, tags: {tags}"
      stopping := "Riffle shuffle server is shutting down" }
  | .coordinator => do
    let c : CoordinatorConfig ← configured {} file
    return {
      log := logOf o c.log
      started := s!"Riffle coordinator has been started, rpc port: {c.rpcPort}"
      stopping := "Riffle coordinator is shutting down" }

end Program

/-- The messages of a whole run that go to the log. -/
def Service.messages (s : Service) : List String :=
  if s.log.level.showsInfo then [s.started, s.stopping] else []

/-- The log of a run: the directory of its file, and the messages in it. -/
structure RunLog where
  directory : List String
  messages : List String
  deriving DecidableEq, Repr

/-- What a run of a program shows. -/
structure Run where
  code : Nat
  output : String := ""
  log : Option RunLog := none
  deriving DecidableEq, Repr

/-- The names of the directory in which a log is opened. Where there is no directory, it is made. -/
def FileTree.logDirectory? (files : FileTree) (path : FilePath) : Option (List String) :=
  match files.directory path with
  | .ok names => some names
  | .error _ =>
    let (made, files) := files.makeDirectories path.trimEnd
    if made then (files.directory path).toOption else none

/-- Run a program among files until it is told to stop. A configuration that cannot be used and a
log directory that cannot be made end the run with code 1. -/
def Program.run (p : Program) (args : List String) (files : FileTree) : Run :=
  match p.plan args with
  | .finish code output => { code := code, output := output }
  | .serve o =>
    match p.service o (o.config.map fun path => files.entryAt (.ofText path)) with
    | .error _ => { code := 1 }
    | .ok s =>
      match files.logDirectory? (.ofText s.log.path) with
      | none => { code := 1 }
      | some directory => { code := 0, log := some ⟨directory, s.messages⟩ }

end ShuffleService
