import ShuffleService.Clock
import ShuffleService.NameSet
import ShuffleService.Text.Quoted

/-!
# Shuffle servers as the coordinator sees them

A node is the snapshot of a shuffle server that its latest heartbeat gave.
-/

namespace ShuffleService

/-- How a shuffle server is addressed. -/
structure ServerId where
  id : String
  ip : String
  port : Int
  deriving DecidableEq, Repr

/-- The order of server ids: by id, then by address, then by port. -/
def ServerId.le (s t : ServerId) : Bool :=
  s.id < t.id || (s.id = t.id && (s.ip < t.ip || (s.ip = t.ip && s.port ≤ t.port)))

/-- A shuffle server as of its latest heartbeat. -/
structure ServerNode where
  id : String
  ip : String
  port : Int
  usedMemory : Int
  preAllocatedMemory : Int
  availableMemory : Int
  /-- The number of events that are being written out. -/
  eventsInFlush : Int
  /-- The time of the heartbeat in milliseconds. -/
  timestamp : Int
  tags : NameSet
  deriving DecidableEq, Repr

namespace ServerNode

/-- The memory of the server, used or not. -/
def totalMemory (n : ServerNode) : Int :=
  n.usedMemory + n.preAllocatedMemory + n.availableMemory

/-- Whether the server carries every required tag. -/
def hasTags (n : ServerNode) (required : NameSet) : Bool := required.subset n.tags

/-- Whether the latest heartbeat is further back than the timeout. How far back it is has no bounds
here (`isExpired_eq_slt`). -/
def isExpired (n : ServerNode) (now timeout : Int) : Bool := timeout < now - n.timestamp

/-- It is the comparison in words of 64 bits where the difference of the two times fits one. -/
theorem isExpired_eq_slt {n : ServerNode} {now timeout timestamp : BitVec 64}
    (htime : n.timestamp = timestamp.toInt) (hfits : now.ssubOverflow timestamp = false) :
    n.isExpired now.toInt timeout.toInt = timeout.slt (now - timestamp) := by
  rw [isExpired, htime, lt_sub_eq_slt hfits]

/-- How the server is addressed. -/
def serverId (n : ServerNode) : ServerId := ⟨n.id, n.ip, n.port⟩

/-- The order in which servers are chosen: more available memory first, then fewer events in flush,
then by id. -/
def before (m n : ServerNode) : Bool :=
  n.availableMemory < m.availableMemory ||
    (m.availableMemory = n.availableMemory &&
      (m.eventsInFlush < n.eventsInFlush ||
        (m.eventsInFlush = n.eventsInFlush && m.id ≤ n.id)))

/-- Put nodes into the order in which they are chosen. -/
def rank (ns : List ServerNode) : List ServerNode := ns.mergeSort before

/-- The text of a node. -/
def text (n : ServerNode) : String :=
  s!"ServerNode[id={n.id}, ip={n.ip}, port={n.port}, usedMemory={n.usedMemory}, " ++
    s!"preAllocatedMemory={n.preAllocatedMemory}, availableMemory={n.availableMemory}, " ++
    s!"eventNumInFlush={n.eventsInFlush}, tags={Quoted.quoteSet n.tags.toList}]"

end ServerNode

end ShuffleService
