import ShuffleService.Coordinator
import ShuffleService.Error

/-!
# Talking to a coordinator

Every call has a time limit. A call that is not answered in time, one that fails below, and an
answer that reports a failure all become errors with a status.

* `ShufflePlacement`: where the partitions of a shuffle are, by partition and by server;
* `Rpc`: what came of a call, and what a client makes of it.
-/

namespace ShuffleService

/-- Where the partitions of a shuffle are. -/
structure ShufflePlacement where
  /-- The servers of each partition. -/
  servers : Table Int (List ServerId)
  /-- The ranges that each server holds, in the order in which they were given. -/
  ranges : Table ServerId (List PartitionRange)

namespace ShufflePlacement

/-- Nothing placed. -/
def empty : ShufflePlacement := ⟨∅, ∅⟩

/-- Enter the servers of a range. -/
def addRange (p : ShufflePlacement) (range : PartitionRange) (servers : List ServerId) :
    ShufflePlacement where
  servers :=
    if servers.isEmpty then p.servers
    else range.toList.foldl (fun t partition => t.insert partition servers) p.servers
  ranges :=
    servers.foldl (fun t s => t.insert s (((t.find? s).getD []) ++ [range])) p.ranges

/-- Read a placement off an answer. It has to place at least one partition. -/
def ofRanges (ranges : List (PartitionRange × List ServerId)) :
    Except ShuffleError ShufflePlacement :=
  let p := ranges.foldl (fun p (range, servers) => p.addRange range servers) empty
  if p.servers.size = 0 then .error .emptyAssignment else .ok p

end ShufflePlacement

/-- What came of a call: how long it took, and its answer or the text of its failure. -/
structure Rpc (α : Type) where
  delay : Nat := 0
  answer : Except String α

namespace Rpc

variable {α : Type}

/-- The answer, if it came in time. An answer that takes exactly as long as it may is in time. -/
def receive (name : String) (timeout : Nat) (call : Rpc α) : Except ShuffleError α :=
  if timeout < call.delay then .error (.rpcFailed .timeout s!"{name} timed out")
  else
    match call.answer with
    | .ok a => .ok a
    | .error e => .error (.rpcFailed .internalError e)

/-- The status of an error. -/
def statusOf : ShuffleError → StatusCode
  | .rpcFailed status _ => status
  | _ => .internalError

/-- The status that a call with a plain reply ends with. -/
def status (name : String) (timeout : Nat) (call : Rpc Reply) : StatusCode :=
  match receive name timeout call with
  | .ok reply => reply.status
  | .error e => statusOf e

/-- The status of a server's heartbeat. -/
def heartbeatStatus (timeout : Nat) (call : Rpc Reply) : StatusCode :=
  status "heartbeat" timeout call

/-- The status of an app's heartbeat. -/
def appHeartbeatStatus (timeout : Nat) (call : Rpc Reply) : StatusCode :=
  status "app_heartbeat" timeout call

/-- The placement that a coordinator answers with. -/
def placement (timeout : Nat) (call : Rpc PlacementReply) : Except ShuffleError ShufflePlacement :=
  match receive "get_shuffle_assignments" timeout call with
  | .error e => .error e
  | .ok reply =>
    if reply.status.isSuccess then ShufflePlacement.ofRanges reply.ranges
    else .error (.rpcFailed reply.status reply.message)

/-- The number of servers that a coordinator answers with. -/
def serverCount (timeout : Nat) (call : Rpc Int) : Except ShuffleError Int :=
  receive "get_shuffle_server_num" timeout call

end Rpc

end ShuffleService
