import ShuffleService.Cluster
import ShuffleService.Placement
import ShuffleService.Schedule
import ShuffleService.StatusCode

/-!
# The coordinator

The coordinator takes the heartbeats of shuffle servers and of apps and places shuffles on servers.
Three tasks may run beside the requests, each at fixed intervals: removing silent servers, removing
silent apps, and looking at the exclude file.

Its counters and gauges are kept up as things happen (`CoordinatorMetrics`).
-/

namespace ShuffleService

/-- An app that has shuffles placed. -/
structure RunningApp where
  name : String
  /-- The time of the latest sign of life in milliseconds. -/
  lastHeartbeat : Int
  /-- The time of the first sign of life in milliseconds. -/
  registeredAt : Int
  deriving DecidableEq, Repr

/-- The counters and gauges of a coordinator. -/
structure CoordinatorMetrics where
  servers : Int := 0
  excluded : Int := 0
  /-- The servers that were ever removed for being silent. -/
  totalRemoved : Nat := 0
  apps : Int := 0
  /-- The apps that were ever brought into being. -/
  totalApps : Nat := 0
  /-- The shuffles that could not be placed. -/
  failedPlacements : Nat := 0
  deriving DecidableEq, Repr

/-- Each metric with the name it is published under. -/
def CoordinatorMetrics.toList (m : CoordinatorMetrics) : List (String × Int) :=
  [("excluded_server_num", m.excluded),
   ("running_app_num", m.apps),
   ("total_app_num", m.totalApps),
   ("total_assignment_failed", m.failedPlacements),
   ("total_server_num", m.servers),
   ("total_timeout_removed_server", m.totalRemoved)]

/-- A status and a text. -/
structure Reply where
  status : StatusCode
  message : String
  deriving DecidableEq, Repr

/-- A request that went well and has nothing to say. -/
def Reply.success : Reply := ⟨.success, ""⟩

/-- A request to place a shuffle. -/
structure PlacementRequest where
  app : String
  shuffle : Int
  partitions : Int
  partitionsPerRange : Int
  replica : Int
  tags : NameSet

/-- The answer to a request to place a shuffle. -/
structure PlacementReply where
  status : StatusCode
  message : String
  ranges : List (PartitionRange × List ServerId)
  deriving DecidableEq

/-- A coordinator with its clock and the file it looks at for excluded servers. -/
structure Coordinator where
  clock : ClockReading
  cluster : Cluster
  /-- How long an app may be silent, in milliseconds. -/
  appTimeout : Int
  /-- The most servers that are used for one shuffle. -/
  serversPerShuffle : Nat
  /-- The file with the excluded servers, if one is configured. -/
  excludeFile : Option FileEntry
  apps : Table String RunningApp := ∅
  metrics : CoordinatorMetrics := {}
  nodeCheck : Option Recurring := none
  appCheck : Option Recurring := none
  excludeCheck : Option Recurring := none

namespace Coordinator

/-! ### Servers -/

/-- Take in the heartbeat of a server. -/
def serverHeartbeat (c : Coordinator) (node : ServerNode) : Coordinator :=
  let cluster := c.cluster.update c.clock node
  { c with
    cluster := cluster
    metrics := { c.metrics with servers := cluster.nodes.size } }

/-- Remove the servers that are silent at the given time. Returns their ids. -/
def checkNodes (c : Coordinator) (now : Int) : List String × Coordinator :=
  let (removed, cluster) := c.cluster.removeExpired now
  (removed,
    { c with
      cluster := cluster
      metrics := { c.metrics with
        servers := cluster.nodes.size
        totalRemoved := c.metrics.totalRemoved + removed.length } })

/-- Look at the exclude file, if one is configured. -/
def refreshExclude (c : Coordinator) : Coordinator :=
  match c.excludeFile with
  | none => c
  | some file =>
    let cluster := c.cluster.refreshExclude file.content?
    let replaced := cluster.exclude.generation ≠ c.cluster.exclude.generation
    { c with
      cluster := cluster
      metrics := { c.metrics with
        excluded := if replaced then cluster.exclude.names.size else c.metrics.excluded } }

/-- The servers that can be chosen now. -/
def eligible (c : Coordinator) (required : NameSet) : List ServerNode :=
  c.cluster.eligible c.clock required

/-- Place partitions on the servers that can be chosen now. -/
def place (c : Coordinator) (total per : Int) (replica : Nat) (required : NameSet) :
    Except PlacementError Placement :=
  Placement.place (c.eligible required) c.serversPerShuffle (cutRanges total per) replica

/-! ### Apps -/

/-- Take in a sign of life of an app, bringing it into being if it is not there. -/
def refreshApp (c : Coordinator) (app : String) : Coordinator :=
  match c.apps.find? app with
  | some a => { c with apps := c.apps.insert app { a with lastHeartbeat := c.clock } }
  | none =>
    { c with
      apps := c.apps.insert app ⟨app, c.clock, c.clock⟩
      metrics := { c.metrics with
        apps := c.metrics.apps + 1
        totalApps := c.metrics.totalApps + 1 } }

/-- A sign of life changes what is kept of an app, and two numbers if the app is not there. -/
theorem refreshApp_eq (c : Coordinator) (app : String) : c.refreshApp app =
    let new : Nat := if c.apps.contains app then 0 else 1
    { c with
      apps := c.apps.insert app (((c.apps.find? app).map ({ · with lastHeartbeat := c.clock })).getD
        ⟨app, c.clock, c.clock⟩)
      metrics := { c.metrics with
        apps := c.metrics.apps + new
        totalApps := c.metrics.totalApps + new } } := by
  unfold refreshApp Table.contains
  cases c.apps.find? app <;> simp

/-- Whether an app has been silent for too long. For how long has no bounds here
(`isSilent_eq_slt`). -/
def isSilent (timeout now : Int) (a : RunningApp) : Bool := timeout < now - a.lastHeartbeat

/-- It is the comparison in words of 64 bits where the difference of the two times fits one. -/
theorem isSilent_eq_slt {a : RunningApp} {now timeout heartbeat : BitVec 64}
    (htime : a.lastHeartbeat = heartbeat.toInt) (hfits : now.ssubOverflow heartbeat = false) :
    isSilent timeout.toInt now.toInt a = timeout.slt (now - heartbeat) := by
  rw [isSilent, htime, lt_sub_eq_slt hfits]

/-- Remove the apps that are silent at the given time. Returns their names. -/
def checkApps (c : Coordinator) (now : Int) : List String × Coordinator :=
  let silent := (c.apps.filter fun _ a => isSilent c.appTimeout now a).keys
  (silent,
    { c with
      apps := c.apps.filter fun _ a => !isSilent c.appTimeout now a
      metrics := { c.metrics with apps := c.metrics.apps - silent.length } })

/-! ### Requests -/

/-- Answer a request to place a shuffle. It counts as a sign of life, unless its number of replicas
makes no sense. -/
def placeShuffle (c : Coordinator) (q : PlacementRequest) : PlacementReply × Coordinator :=
  if q.replica ≤ 0 then (⟨.internalError, s!"Illegal replica: {q.replica}", []⟩, c)
  else
    let c := c.refreshApp q.app
    match c.place q.partitions q.partitionsPerRange q.replica.toNat q.tags with
    | .ok p => (⟨.success, "", p.serverIds⟩, c)
    | .error e =>
      (⟨.internalError, s!"Cannot place shuffle, retry later. {e.message}", []⟩,
        { c with metrics := { c.metrics with failedPlacements := c.metrics.failedPlacements + 1 } })

theorem placeShuffle_of_nonpos {c : Coordinator} {q : PlacementRequest} (h : q.replica ≤ 0) :
    c.placeShuffle q = (⟨.internalError, s!"Illegal replica: {q.replica}", []⟩, c) := if_pos h

/-- A request to place a shuffle is a sign of life of its app. Only the count of failures tells
what came of it. -/
theorem placeShuffle_of_pos {c : Coordinator} {q : PlacementRequest} (h : ¬ q.replica ≤ 0) :
    ∃ failures, (c.placeShuffle q).2 = { c.refreshApp q.app with
      metrics := { (c.refreshApp q.app).metrics with failedPlacements := failures } } := by
  rw [placeShuffle, if_neg h]
  dsimp only
  split
  · exact ⟨_, rfl⟩
  · exact ⟨_, rfl⟩

/-- Answer the heartbeat of an app. -/
def appHeartbeat (c : Coordinator) (app : String) : Reply × Coordinator :=
  (.success, c.refreshApp app)

/-- Answer the heartbeat of a server. -/
def heartbeat (c : Coordinator) (node : ServerNode) : Reply × Coordinator :=
  (.success, c.serverHeartbeat node)

/-- The addresses of the servers that can be chosen for any shuffle. -/
def serverList (c : Coordinator) : List ServerId := (c.eligible ∅).map (·.serverId)

/-- The number of servers that can be chosen for any shuffle. -/
def serverCount (c : Coordinator) : Nat := (c.eligible ∅).length

/-! ### The time of day -/

/-- Do what needs the time of day. A clock that shows a moment before 1970 gives none. -/
def timed? {α : Type} (c : Coordinator) (work : Coordinator → α) : Option α :=
  if 0 ≤ c.clock then some (work c) else none

/-- Answer a request to place a shuffle, which needs the time of day once its number of replicas
makes sense. -/
def placeShuffle? (c : Coordinator) (q : PlacementRequest) :
    Option (PlacementReply × Coordinator) :=
  if q.replica ≤ 0 then some (c.placeShuffle q) else c.timed? (·.placeShuffle q)

/-! ### Background tasks -/

/-- Do a task if it runs and is due. -/
def whenDue (task : Option Recurring) (moment : ClockReading) (work : Coordinator → Coordinator)
    (c : Coordinator) : Coordinator :=
  if task.any (·.isDue moment) then work c else c

/-- Move the clock to a moment and do what is due there. -/
def reach (c : Coordinator) (moment : ClockReading) : Coordinator :=
  let c := { c with clock := moment }
  let c := whenDue c.nodeCheck moment (fun c => (c.checkNodes moment).2) c
  let c := whenDue c.appCheck moment (fun c => (c.checkApps moment).2) c
  whenDue c.excludeCheck moment refreshExclude c

/-- Let time pass. Where none passes no task is due. -/
def advance (c : Coordinator) (ms : Nat) : Coordinator :=
  let tasks := [c.nodeCheck, c.appCheck, c.excludeCheck].filterMap id
  if ms = 0 then c else (stopsBetween tasks c.clock (c.clock + ms)).foldl reach c

end Coordinator

end ShuffleService
