import ShuffleService.Config.Log
import ShuffleService.Config.Option
import ShuffleService.Config.Source

/-!
# Configuration of a coordinator
-/

namespace ShuffleService

open scoped PlainNumbers

namespace CoordinatorOption

/-- The port of the service. -/
def rpcPort : ConfigOption Nat where
  key := "rpc_port"
  description := "port the coordinator service is bound to"
  default := 19999
  format := .word16

/-- How long a shuffle server may be silent. -/
def heartbeatTimeout : ConfigOption Nat :=
  .positive "heartbeat_timeout_ms"
    "shuffle servers without heartbeat for this long are removed, must be positive"
    30000

/-- The time between scans for silent shuffle servers. -/
def nodeExpiryCheckInterval : ConfigOption Nat :=
  .positive "node_expiry_check_interval_ms"
    "interval of the expired shuffle servers scan, must be positive"
    10000

/-- The file that lists shuffle servers to leave out. -/
def excludeNodesFilePath : ConfigOption (Option String) where
  key := "exclude_nodes_file_path"
  description := "file listing excluded shuffle server ids, one per line"
  default := none
  format := .optionalString

/-- The time between looks at that file. -/
def excludeNodesCheckInterval : ConfigOption Nat :=
  .positive "exclude_nodes_check_interval_ms"
    "polling interval of the exclude nodes file, must be positive"
    60000

/-- The most shuffle servers of one shuffle. -/
def shuffleNodesMax : ConfigOption Nat :=
  .positive "shuffle_nodes_max"
    "max number of shuffle servers used by one shuffle, must be positive"
    9 .count

/-- How long an app may be silent. -/
def appExpired : ConfigOption Nat :=
  .positive "app_expired_ms"
    "apps without heartbeat for this long are removed, must be positive"
    60000

/-- All options, in the order in which they are declared. -/
def descriptors : List OptionDescriptor :=
  [rpcPort.descriptor, heartbeatTimeout.descriptor, nodeExpiryCheckInterval.descriptor,
    excludeNodesFilePath.descriptor, excludeNodesCheckInterval.descriptor,
    shuffleNodesMax.descriptor, appExpired.descriptor]

end CoordinatorOption

/-- The configuration of a coordinator. Times are in milliseconds. -/
structure CoordinatorConfig where
  rpcPort : Nat := CoordinatorOption.rpcPort.default
  heartbeatTimeout : Nat := CoordinatorOption.heartbeatTimeout.default
  nodeExpiryCheckInterval : Nat := CoordinatorOption.nodeExpiryCheckInterval.default
  excludeNodesFilePath : Option String := CoordinatorOption.excludeNodesFilePath.default
  excludeNodesCheckInterval : Nat := CoordinatorOption.excludeNodesCheckInterval.default
  shuffleNodesMax : Nat := CoordinatorOption.shuffleNodesMax.default
  appExpired : Nat := CoordinatorOption.appExpired.default
  log : Option LogConfig := none
  deriving DecidableEq, Repr

namespace CoordinatorConfig

/-- The configuration with the given fields. -/
def ofFields? (es : TomlEntries) : Option CoordinatorConfig := do
  let time (o : ConfigOption Nat) : Option Nat := o.read? es (TomlValue.nat? (2 ^ (63 : Nat)))
  let rpcPort ← CoordinatorOption.rpcPort.read? es (TomlValue.nat? (2 ^ (16 : Nat)))
  let timeout ← time CoordinatorOption.heartbeatTimeout
  let nodeInterval ← time CoordinatorOption.nodeExpiryCheckInterval
  let excludePath ← CoordinatorOption.excludeNodesFilePath.read? es fun v => v.string?.map some
  let excludeInterval ← time CoordinatorOption.excludeNodesCheckInterval
  let nodesMax ← time CoordinatorOption.shuffleNodesMax
  let appExpired ← time CoordinatorOption.appExpired
  let log ← Toml.fieldOr es "log" (fun v => (LogConfig.ofToml? v).map some) none
  return ⟨rpcPort, timeout, nodeInterval, excludePath, excludeInterval, nodesMax, appExpired, log⟩

/-- Check the values of the options. -/
def validate (c : CoordinatorConfig) : Except ShuffleError Unit := do
  CoordinatorOption.rpcPort.check c.rpcPort
  CoordinatorOption.heartbeatTimeout.check c.heartbeatTimeout
  CoordinatorOption.nodeExpiryCheckInterval.check c.nodeExpiryCheckInterval
  CoordinatorOption.excludeNodesFilePath.check c.excludeNodesFilePath
  CoordinatorOption.excludeNodesCheckInterval.check c.excludeNodesCheckInterval
  CoordinatorOption.shuffleNodesMax.check c.shuffleNodesMax
  CoordinatorOption.appExpired.check c.appExpired

instance : Configuration CoordinatorConfig := ⟨ofFields?, validate⟩

/-- Every option takes its default. -/
theorem validate_default : validate {} = .ok () := rfl

end CoordinatorConfig

end ShuffleService
