import ShuffleService.Config.Log
import ShuffleService.Config.Option
import ShuffleService.Config.Source

/-!
# Configuration of a shuffle server
-/

namespace ShuffleService

open scoped PlainNumbers

namespace ServerOption

/-- The port of the service. -/
def rpcPort : ConfigOption Nat where
  key := "rpc_port"
  description := "port the shuffle server service is bound to"
  default := 19997
  format := .word16

/-- How long an app may be silent. -/
def appHeartbeatTimeout : ConfigOption Nat :=
  .positive "app_heartbeat_timeout_ms"
    "apps without heartbeat for this long are purged with all their block ids, must be positive"
    60000

/-- The time between scans for silent apps. -/
def appExpiryCheckInterval : ConfigOption Nat :=
  .positive "app_expiry_check_interval_ms"
    "interval of the app heartbeat checker, must be positive"
    10000

/-- The tags of the server. -/
def tags : ConfigOption (List String) where
  key := "tags"
  description := "tags reported to the coordinator for tag-based assignment"
  default := []
  format := .strings

/-- The coordinators to report to. -/
def coordinatorQuorum : ConfigOption (List String) where
  key := "coordinator_quorum"
  description := "coordinator addresses as host:port"
  default := []
  format := .strings

/-- All options, in the order in which they are declared. -/
def descriptors : List OptionDescriptor :=
  [rpcPort.descriptor, appHeartbeatTimeout.descriptor, appExpiryCheckInterval.descriptor,
    tags.descriptor, coordinatorQuorum.descriptor]

end ServerOption

/-- The configuration of a shuffle server. Times are in milliseconds. -/
structure ServerConfig where
  rpcPort : Nat := ServerOption.rpcPort.default
  appHeartbeatTimeout : Nat := ServerOption.appHeartbeatTimeout.default
  appExpiryCheckInterval : Nat := ServerOption.appExpiryCheckInterval.default
  tags : List String := ServerOption.tags.default
  coordinatorQuorum : List String := ServerOption.coordinatorQuorum.default
  log : Option LogConfig := none
  deriving DecidableEq, Repr

namespace ServerConfig

/-- The configuration with the given fields. -/
def ofFields? (es : TomlEntries) : Option ServerConfig := do
  let rpcPort ← ServerOption.rpcPort.read? es (TomlValue.nat? (2 ^ (16 : Nat)))
  let timeout ← ServerOption.appHeartbeatTimeout.read? es (TomlValue.nat? (2 ^ (63 : Nat)))
  let interval ← ServerOption.appExpiryCheckInterval.read? es (TomlValue.nat? (2 ^ (63 : Nat)))
  let tags ← ServerOption.tags.read? es TomlValue.strings?
  let quorum ← ServerOption.coordinatorQuorum.read? es TomlValue.strings?
  let log ← Toml.fieldOr es "log" (fun v => (LogConfig.ofToml? v).map some) none
  return ⟨rpcPort, timeout, interval, tags, quorum, log⟩

/-- Check the values of the options. -/
def validate (c : ServerConfig) : Except ShuffleError Unit := do
  ServerOption.rpcPort.check c.rpcPort
  ServerOption.appHeartbeatTimeout.check c.appHeartbeatTimeout
  ServerOption.appExpiryCheckInterval.check c.appExpiryCheckInterval
  ServerOption.tags.check c.tags
  ServerOption.coordinatorQuorum.check c.coordinatorQuorum

instance : Configuration ServerConfig := ⟨ofFields?, validate⟩

/-- Every option takes its default. -/
theorem validate_default : validate {} = .ok () := rfl

end ServerConfig

end ShuffleService
