import ShuffleService.BlockIdTracker
import ShuffleService.PartitionRange

/-!
# Apps

An app is known to a shuffle server by its heartbeats, by the shuffles it has registered with the
ranges of partitions that the server takes for each, and by the block ids its tasks have reported.
Every request for an app counts as a heartbeat, except a report that is refused for its number of
bitmaps.
-/

namespace ShuffleService

/-- Why the data of an app, or of one of its shuffles, is dropped. -/
inductive PurgeReason
  | shuffleUnregistered (app : String) (shuffle : Int)
  | appUnregistered (app : String)
  | appExpired (app : String)
  deriving DecidableEq, Repr

namespace PurgeReason

/-- The name a reason is written with. -/
def name : PurgeReason → String
  | .shuffleUnregistered .. => "SHUFFLE_LEVEL_EXPLICIT_UNREGISTER"
  | .appUnregistered _ => "APP_LEVEL_EXPLICIT_UNREGISTER"
  | .appExpired _ => "APP_LEVEL_HEARTBEAT_TIMEOUT"

/-- The app whose data is dropped. -/
def app : PurgeReason → String
  | .shuffleUnregistered app _ => app
  | .appUnregistered app => app
  | .appExpired app => app

/-- The shuffle whose data is dropped, if it is one alone. -/
def shuffle? : PurgeReason → Option Int
  | .shuffleUnregistered _ shuffle => some shuffle
  | _ => none

end PurgeReason

/-- What a shuffle server knows about an app. -/
structure App where
  name : String
  /-- The time of the latest heartbeat in milliseconds. -/
  lastHeartbeat : Nat
  /-- The registered shuffles with the ranges that this server takes, ascending. -/
  shuffles : Table Int (List PartitionRange)
  tracker : BlockIdTracker
  /-- Whether a purge for missing heartbeats has been asked for. -/
  expiryNotified : Bool

namespace App

/-- An app that is seen for the first time. -/
def new (name : String) (now : Nat) : App where
  name := name
  lastHeartbeat := now
  shuffles := ∅
  tracker := {}
  expiryNotified := false

/-- A sign of life. -/
def heartbeat (a : App) (now : Nat) : App := { a with lastHeartbeat := now }

/-- Put those ranges that are not there yet into an ascending list. -/
def mergeRanges (known more : List PartitionRange) : List PartitionRange :=
  PartitionRange.sort (more.foldl (fun rs r => if r ∈ rs then rs else rs ++ [r]) known)

/-- The ranges of a shuffle, if it is registered. -/
def ranges? (a : App) (shuffle : Int) : Option (List PartitionRange) := a.shuffles.find? shuffle

/-- Whether a shuffle is registered. -/
def isRegistered (a : App) (shuffle : Int) : Bool := a.shuffles.contains shuffle

/-- Register ranges of a shuffle. -/
def register (a : App) (now : Nat) (shuffle : Int) (ranges : List PartitionRange) : App :=
  { a.heartbeat now with
    shuffles := a.shuffles.insert shuffle (mergeRanges ((a.ranges? shuffle).getD []) ranges) }

/-- Accept the block ids that a task reports. A shuffle that is not registered is registered
without ranges. Returns how many ids are new. -/
def report (a : App) (now : Nat) (shuffle task bitmaps : Int) (ids : BlockIdTracker.Report) :
    Except ShuffleError (App × Nat) :=
  if bitmaps ≤ 0 then
    .error (.invalidArgument s!"Illegal bitmap number: {bitmaps} reported by task: {task}")
  else do
    let (tracker, added) ← a.tracker.report shuffle bitmaps.toNat ids
    return ({ a.heartbeat now with
      shuffles := a.shuffles.insert shuffle ((a.ranges? shuffle).getD [])
      tracker := tracker }, added)

/-- What a registered shuffle answers to a query; the query is a heartbeat in any case. -/
def query (a : App) (now : Nat) (shuffle : Int) (answer : BlockIdTracker → IdBitmap) :
    Except ShuffleError IdBitmap × App :=
  let a := a.heartbeat now
  if a.isRegistered shuffle then (.ok (answer a.tracker), a)
  else (.error (.shuffleNotFound a.name shuffle), a)

/-- The block ids of a partition. -/
def blockIds (a : App) (now : Nat) (shuffle partition : Int) :
    Except ShuffleError IdBitmap × App :=
  a.query now shuffle (·.blockIds shuffle partition)

/-- The block ids of several partitions. -/
def blockIdsOfAll (a : App) (now : Nat) (shuffle : Int) (partitions : List Int) :
    Except ShuffleError IdBitmap × App :=
  a.query now shuffle (·.blockIdsOfAll shuffle partitions)

/-- Whether the app has been silent for longer than the given time. -/
def isExpired (a : App) (now timeout : Nat) : Bool := timeout < now - a.lastHeartbeat

/-- Drop what a reason names: one shuffle, or everything. Returns how many ids went. -/
def purge (a : App) (reason : PurgeReason) : App × Nat :=
  match reason.shuffle? with
  | some shuffle =>
    let (tracker, gone) := a.tracker.purgeShuffle shuffle
    ({ a with shuffles := a.shuffles.erase shuffle, tracker := tracker }, gone)
  | none =>
    let (tracker, gone) := a.tracker.purgeAll
    ({ a with shuffles := ∅, tracker := tracker }, gone)

end App

end ShuffleService
