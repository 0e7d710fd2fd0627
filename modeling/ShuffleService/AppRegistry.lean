import ShuffleService.App

/-!
# The apps of a shuffle server

Requests go to an app by its name. Registering a shuffle and sending a heartbeat bring an app into
being; reports and queries need one that is there. Unregistering only queues a purge, and so does
a scan for apps that have been silent for too long; the queue is worked off later and in order.

The counters of a server are kept up as things happen (`ServerMetrics`).
-/

namespace ShuffleService

open scoped PlainNumbers

/-- The counters and gauges of a shuffle server. -/
structure ServerMetrics where
  /-- The block ids that are held. -/
  blockIds : Int := 0
  /-- The apps that are there. -/
  apps : Int := 0
  /-- The apps that were ever brought into being. -/
  totalApps : Nat := 0
  /-- The block ids that were ever reported, repetitions included. -/
  totalReported : Nat := 0
  /-- The purges that found no app. -/
  purgeFailures : Nat := 0
  /-- The uploaded files that could not be deleted. -/
  deleteFailures : Nat := 0
  deriving DecidableEq, Repr

namespace ServerMetrics

/-- Each metric with the name it is published under. -/
def toList (m : ServerMetrics) : List (String × Int) :=
  [("app_number", m.apps),
   ("block_id_number", m.blockIds),
   ("purge_failed_count", m.purgeFailures),
   ("total_app_number", m.totalApps),
   ("total_reported_block_ids", m.totalReported),
   ("total_uploaded_files_delete_failed", m.deleteFailures)]

end ServerMetrics

/-- The apps of a shuffle server and the purges that wait. -/
structure AppRegistry where
  /-- How long an app may be silent, in milliseconds. -/
  timeout : Nat
  apps : Table String App := ∅
  /-- The purges that wait, the oldest first. -/
  queue : List PurgeReason := []
  metrics : ServerMetrics := {}

namespace AppRegistry

/-- The number of apps. -/
def alive (r : AppRegistry) : Nat := r.apps.size

/-- The app of a name, if there is one. -/
def find? (r : AppRegistry) (app : String) : Option App := r.apps.find? app

/-- Replace or bring in an app. -/
def put (r : AppRegistry) (a : App) : AppRegistry := { r with apps := r.apps.insert a.name a }

/-- The app of a name, brought into being if there is none. -/
def getOrCreate (r : AppRegistry) (now : Nat) (app : String) : App × AppRegistry :=
  match r.find? app with
  | some a => (a, r)
  | none =>
    let a := App.new app now
    (a, { r.put a with
      metrics := { r.metrics with
        apps := r.metrics.apps + 1
        totalApps := r.metrics.totalApps + 1 } })

/-! ### Requests -/

/-- Register ranges of a shuffle. -/
def register (r : AppRegistry) (now : Nat) (app : String) (shuffle : Int)
    (ranges : List PartitionRange) : AppRegistry :=
  let (a, r) := r.getOrCreate now app
  r.put (a.register now shuffle ranges)

/-- A sign of life. -/
def heartbeat (r : AppRegistry) (now : Nat) (app : String) : AppRegistry :=
  let (a, r) := r.getOrCreate now app
  r.put (a.heartbeat now)

/-- Accept the block ids that a task reports. Returns how many are new. -/
def report (r : AppRegistry) (now : Nat) (app : String) (shuffle task bitmaps : Int)
    (ids : BlockIdTracker.Report) : Except ShuffleError (AppRegistry × Nat) :=
  match r.find? app with
  | none => .error (.appNotFound app)
  | some a => do
    let (a, added) ← a.report now shuffle task bitmaps ids
    return ({ r.put a with
      metrics := { r.metrics with
        blockIds := r.metrics.blockIds + added
        totalReported := r.metrics.totalReported + (ids.map (·.2.length)).sum } }, added)

/-- Put a question to an app. -/
def query (r : AppRegistry) (app : String) (ask : App → Except ShuffleError IdBitmap × App) :
    Except ShuffleError IdBitmap × AppRegistry :=
  match r.find? app with
  | none => (.error (.appNotFound app), r)
  | some a =>
    let (ans, a) := ask a
    (ans, r.put a)

/-- The block ids of a partition. -/
def blockIds (r : AppRegistry) (now : Nat) (app : String) (shuffle partition : Int) :
    Except ShuffleError IdBitmap × AppRegistry :=
  r.query app (·.blockIds now shuffle partition)

/-- The block ids of several partitions. -/
def blockIdsOfAll (r : AppRegistry) (now : Nat) (app : String) (shuffle : Int)
    (partitions : List Int) : Except ShuffleError IdBitmap × AppRegistry :=
  r.query app (·.blockIdsOfAll now shuffle partitions)

/-- Queue a purge. -/
def enqueue (r : AppRegistry) (reason : PurgeReason) : AppRegistry :=
  { r with queue := r.queue ++ [reason] }

/-- Ask for the data of a shuffle to be dropped. -/
def unregisterShuffle (r : AppRegistry) (app : String) (shuffle : Int) : AppRegistry :=
  r.enqueue (.shuffleUnregistered app shuffle)

/-- Ask for an app to be dropped. -/
def unregisterApp (r : AppRegistry) (app : String) : AppRegistry := r.enqueue (.appUnregistered app)

/-! ### Expiry and purges -/

/-- Whether a scan has to ask for the purge of an app. -/
def isNewlyExpired (timeout now : Nat) (a : App) : Bool :=
  a.isExpired now timeout && !a.expiryNotified

/-- Queue a purge for each app that has been silent for too long and that no scan has asked it for
yet. Returns the names of these apps. -/
def detectExpired (r : AppRegistry) (now : Nat) : List String × AppRegistry :=
  let expired := (r.apps.filter fun _ a => isNewlyExpired r.timeout now a).keys
  (expired,
    { r with
      apps := r.apps.mapValues fun a =>
        if isNewlyExpired r.timeout now a then { a with expiryNotified := true } else a
      queue := r.queue ++ expired.map .appExpired })

/-- Carry out a purge. Returns how many block ids went, or `none` where there is no such app. -/
def purge (r : AppRegistry) (reason : PurgeReason) : Option Nat × AppRegistry :=
  match r.find? reason.app with
  | none =>
    (none, { r with metrics := { r.metrics with purgeFailures := r.metrics.purgeFailures + 1 } })
  | some a =>
    let (a, gone) := a.purge reason
    let metrics := { r.metrics with blockIds := r.metrics.blockIds - gone }
    match reason.shuffle? with
    | some _ => (some gone, { r.put a with metrics := metrics })
    | none =>
      (some gone,
        { r with
          apps := r.apps.erase reason.app
          metrics := { metrics with apps := metrics.apps - 1 } })

/-- Carry out the purge that has waited longest. -/
def purgeNext (r : AppRegistry) : AppRegistry :=
  match r.queue with
  | [] => r
  | reason :: rest => (purge { r with queue := rest } reason).2

/-- Carry out all purges that wait. -/
def settle (r : AppRegistry) : AppRegistry :=
  r.queue.foldl (fun r reason => (r.purge reason).2) { r with queue := [] }

end AppRegistry

end ShuffleService
