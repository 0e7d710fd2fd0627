import ShuffleService.Config.Log
import ShuffleService.Config.Option
import ShuffleService.Coordinator
import ShuffleService.Json.Decode

/-!
# The JSON forms of ranges, servers, apps and configurations

Records are written as objects and choices as their names. Reading takes what writing gives, and
records also in other orders, with fields that nobody knows, or as arrays.
-/

namespace ShuffleService

/-- How values of a type are written as JSON and read back. -/
class JsonForm (α : Type) where
  /-- The JSON form of a value. -/
  toJson : α → JsonValue
  /-- The value that a JSON form stands for. -/
  ofJson? : JsonValue → Option α

open Json JsonForm

instance : JsonForm StatusCode where
  toJson s := .ofString s.name
  ofJson? v := v.choice?.bind StatusCode.ofName?

instance : JsonForm PartitionRange where
  toJson r := .record [("start", .integer r.first), ("end", .integer r.last)]
  ofJson? v := do
    let fields ← v.fields? ["start", "end"]
    let first ← field? fields "start" (·.int32?)
    let last ← field? fields "end" (·.int32?)
    return ⟨first, last⟩

instance : JsonForm ServerId where
  toJson s := .record [("id", .ofString s.id), ("ip", .ofString s.ip), ("port", .integer s.port)]
  ofJson? v := do
    let fields ← v.fields? ["id", "ip", "port"]
    let id ← field? fields "id" (·.string?)
    let ip ← field? fields "ip" (·.string?)
    let port ← field? fields "port" (·.int32?)
    return ⟨id, ip, port⟩

instance : JsonForm RunningApp where
  toJson a := .record
    [("app_id", .ofString a.name), ("last_heartbeat", .integer a.lastHeartbeat),
      ("registration_time", .integer a.registeredAt)]
  ofJson? v := do
    let fields ← v.fields? ["app_id", "last_heartbeat", "registration_time"]
    let name ← field? fields "app_id" (·.string?)
    let lastHeartbeat ← field? fields "last_heartbeat" (·.int64?)
    let registeredAt ← field? fields "registration_time" (·.int64?)
    return ⟨name, lastHeartbeat, registeredAt⟩

instance : JsonForm ServerNode where
  toJson n := .record
    [("id", .ofString n.id), ("ip", .ofString n.ip), ("port", .integer n.port),
      ("used_memory", .integer n.usedMemory),
      ("pre_allocated_memory", .integer n.preAllocatedMemory),
      ("available_memory", .integer n.availableMemory),
      ("event_num_in_flush", .integer n.eventsInFlush), ("timestamp", .integer n.timestamp),
      ("tags", .array (n.tags.toList.map .ofString))]
  ofJson? v := do
    let fields ← v.fields? ["id", "ip", "port", "used_memory", "pre_allocated_memory",
      "available_memory", "event_num_in_flush", "timestamp", "tags"]
    let id ← field? fields "id" (·.string?)
    let ip ← field? fields "ip" (·.string?)
    let port ← field? fields "port" (·.int32?)
    let usedMemory ← field? fields "used_memory" (·.int64?)
    let preAllocatedMemory ← field? fields "pre_allocated_memory" (·.int64?)
    let availableMemory ← field? fields "available_memory" (·.int64?)
    let eventsInFlush ← field? fields "event_num_in_flush" (·.int32?)
    let timestamp ← field? fields "timestamp" (·.int64?)
    let tags ← field? fields "tags" (·.strings?)
    return ⟨id, ip, port, usedMemory, preAllocatedMemory, availableMemory, eventsInFlush,
      timestamp, .ofList tags⟩

instance : JsonForm LogConfig where
  toJson c := .record
    [("path", .ofString c.path), ("rotation", .ofString c.rotation.name),
      ("max_log_files", .integer c.maxFiles), ("log_level", .ofString c.level.name)]
  ofJson? v := do
    let fields ← v.fields? LogConfig.fieldNames
    let default : LogConfig := {}
    let path ← fieldOr fields "path" (·.string?) default.path
    let rotation ← fieldOr fields "rotation" (·.choice?.bind LogRotation.ofName?) default.rotation
    let maxFiles ← fieldOr fields "max_log_files" (·.count?) default.maxFiles
    let level ← fieldOr fields "log_level" (·.choice?.bind LogLevel.ofName?) default.level
    return ⟨path, rotation, maxFiles, level⟩

/-- The JSON form of what an option tells about itself. -/
def OptionDescriptor.toJson (d : OptionDescriptor) : JsonValue :=
  .record
    [("key", .ofString d.key), ("value_type", .ofString d.valueType),
      ("default_value", .ofString d.defaultValue), ("description", .ofString d.description)]

end ShuffleService
