import ShuffleService.AppRegistry
import ShuffleService.IdBitmap.Stored
import ShuffleService.Schedule

/-!
# The shuffle server

The server answers requests at the time its clock shows. Two tasks run beside the requests: a scan
for silent apps at fixed intervals, and a worker that carries out the purges that wait. Here both
run while time is moved forward (`advance`); the worker alone runs in `settle`.
-/

namespace ShuffleService

/-- A request to a shuffle server. -/
inductive ServerRequest
  | register (app : String) (shuffle : Int) (ranges : List PartitionRange)
  | report (app : String) (shuffle task bitmaps : Int) (ids : BlockIdTracker.Report)
  | blockIds (app : String) (shuffle partition : Int)
  | blockIdsOfAll (app : String) (shuffle : Int) (partitions : List Int)
  | heartbeat (app : String)
  | unregisterShuffle (app : String) (shuffle : Int)
  | unregisterApp (app : String)

/-- The answer to a request. Only queries for block ids answer with bytes. -/
structure ServerReply where
  status : StatusCode
  message : String
  bitmap : Bytes := []
  deriving DecidableEq

namespace ServerReply

/-- A request that went well and has nothing to say. -/
def success : ServerReply := { status := .success, message := "" }

/-- A request that failed. -/
def failure (e : ShuffleError) : ServerReply := { status := .internalError, message := e.message }

/-- The answer to a query: the stored form of the ids. -/
def ofQuery : Except ShuffleError IdBitmap → ServerReply
  | .ok b => { status := .success, message := "", bitmap := b.store }
  | .error e => failure e

end ServerReply

/-- A shuffle server with its clock. -/
structure ShuffleServer where
  clock : ClockReading
  /-- The scan for silent apps. -/
  scan : Recurring
  registry : AppRegistry

namespace ShuffleServer

/-- A server without apps. -/
def start (now : ClockReading) (timeout scanInterval : Nat) : ShuffleServer where
  clock := now
  scan := ⟨now, scanInterval⟩
  registry := { timeout := timeout }

/-- The timestamp that requests are handled with. -/
def now (s : ShuffleServer) : Nat := s.clock.millis

/-- Answer a request. -/
def handle (s : ShuffleServer) : ServerRequest → ServerReply × ShuffleServer
  | .register app shuffle ranges =>
    (.success, { s with registry := s.registry.register s.now app shuffle ranges })
  | .report app shuffle task bitmaps ids =>
    match s.registry.report s.now app shuffle task bitmaps ids with
    | .ok (registry, _) => (.success, { s with registry := registry })
    | .error e => (.failure e, s)
  | .blockIds app shuffle partition =>
    let (ans, registry) := s.registry.blockIds s.now app shuffle partition
    (.ofQuery ans, { s with registry := registry })
  | .blockIdsOfAll app shuffle partitions =>
    let (ans, registry) := s.registry.blockIdsOfAll s.now app shuffle partitions
    (.ofQuery ans, { s with registry := registry })
  | .heartbeat app => (.success, { s with registry := s.registry.heartbeat s.now app })
  | .unregisterShuffle app shuffle =>
    (.success, { s with registry := s.registry.unregisterShuffle app shuffle })
  | .unregisterApp app => (.success, { s with registry := s.registry.unregisterApp app })

/-- Carry out the purges that wait. -/
def settle (s : ShuffleServer) : ShuffleServer := { s with registry := s.registry.settle }

/-- Move the clock to a moment and do what is due there. -/
def reach (s : ShuffleServer) (moment : ClockReading) : ShuffleServer :=
  let s := { s with clock := moment }
  let s :=
    if s.scan.isDue moment then { s with registry := (s.registry.detectExpired s.now).2 } else s
  s.settle

/-- Let time pass. Where none passes no scan is due. -/
def advance (s : ShuffleServer) (ms : Nat) : ShuffleServer :=
  if ms = 0 then s.settle else (stopsBetween [s.scan] s.clock (s.clock + ms)).foldl reach s

end ShuffleServer

end ShuffleService
