import ShuffleService.ExcludeList
import ShuffleService.ServerNode
import ShuffleService.Table

/-!
# The shuffle servers of a cluster

The coordinator knows the servers by their heartbeats and drops those that have been silent for too
long. Beside the table of nodes it keeps an index from tags to the servers that carry them, changed
only by what a heartbeat or a removal changes.
-/

namespace ShuffleService

/-- The servers of a cluster. -/
structure Cluster where
  /-- How long a server may be silent, in milliseconds. -/
  timeout : Int
  nodes : Table String ServerNode := ∅
  /-- The ids of the servers that carry a tag. No tag has an empty set. -/
  tagIndex : Table String NameSet := ∅
  exclude : ExcludeList := {}

namespace Cluster

/-! ### The tag index -/

/-- Enter a server under a tag. -/
def indexTag (index : Table String NameSet) (tag server : String) : Table String NameSet :=
  index.insert tag (((index.find? tag).getD ∅).insert server)

/-- Remove a server from under a tag, and the tag with its last server. -/
def unindexTag (index : Table String NameSet) (tag server : String) : Table String NameSet :=
  match index.find? tag with
  | none => index
  | some servers =>
    let servers := servers.erase server
    if servers.isEmpty then index.erase tag else index.insert tag servers

/-- Enter a server under several tags. -/
def indexTags (index : Table String NameSet) (tags : NameSet) (server : String) :
    Table String NameSet :=
  tags.toList.foldl (fun index tag => indexTag index tag server) index

/-- Remove a server from under several tags. -/
def unindexTags (index : Table String NameSet) (tags : NameSet) (server : String) :
    Table String NameSet :=
  tags.toList.foldl (fun index tag => unindexTag index tag server) index

/-! ### Heartbeats and silence -/

/-- Take in the snapshot of a heartbeat. Its time is that of the clock, and never before the time of
the server's previous heartbeat. -/
def update (c : Cluster) (now : Int) (node : ServerNode) : Cluster :=
  match c.nodes.find? node.id with
  | some previous =>
    let index := unindexTags c.tagIndex (previous.tags.diff node.tags) node.id
    { c with
      nodes := c.nodes.insert node.id { node with timestamp := max now previous.timestamp }
      tagIndex := indexTags index (node.tags.diff previous.tags) node.id }
  | none =>
    { c with
      nodes := c.nodes.insert node.id { node with timestamp := now }
      tagIndex := indexTags c.tagIndex node.tags node.id }

/-- Remove a server. -/
def remove (c : Cluster) (id : String) : Cluster :=
  match c.nodes.find? id with
  | some node =>
    { c with nodes := c.nodes.erase id, tagIndex := unindexTags c.tagIndex node.tags id }
  | none => c

/-- The servers that have been silent for too long. -/
def expired (c : Cluster) (now : Int) : List String :=
  (c.nodes.filter fun _ n => n.isExpired now c.timeout).keys

/-- Remove the servers that have been silent for too long. Returns their ids. Nothing comes between the
look at a server and its removal here, so a second look, which would spare a server that was heard of
in between, is left out. -/
def removeExpired (c : Cluster) (now : Int) : List String × Cluster :=
  (c.expired now, (c.expired now).foldl remove c)

/-- Look at the exclude file. -/
def refreshExclude (c : Cluster) (content : Option Bytes) : Cluster :=
  { c with exclude := c.exclude.refresh content }

/-! ### Queries -/

/-- Whether a server can be chosen: heard of in time, not excluded, and with every required tag. -/
def isEligible (c : Cluster) (now : Int) (required : NameSet) (n : ServerNode) : Bool :=
  !n.isExpired now c.timeout && n.id ∉ c.exclude.names && n.hasTags required

/-- The servers that can be chosen. -/
def eligible (c : Cluster) (now : Int) (required : NameSet) : List ServerNode :=
  c.nodes.values.filter (c.isEligible now required)

/-- The node of an id. -/
def node? (c : Cluster) (id : String) : Option ServerNode := c.nodes.find? id

end Cluster

end ShuffleService
