import ShuffleService.PartitionRange
import ShuffleService.ServerNode

/-!
# Placing the partitions of a shuffle

The partitions of a shuffle are cut into ranges, and each range gets as many servers as it has
replicas. The servers with the most available memory are taken, in turn and round and round across
all ranges.
-/

namespace ShuffleService

/-- Cut the partitions from 0 on into ranges of `per` partitions; the last one may be shorter. -/
def cutRanges (total per : Int) : List PartitionRange :=
  if total ≤ 0 ∨ per ≤ 0 then []
  else
    (List.range ((total - 1) / per + 1).toNat).map fun i : Nat =>
      ⟨i * per, min (i * per + per - 1) (total - 1)⟩

/-- Why a shuffle could not be placed. -/
inductive PlacementError
  | noServers
  | tooFewServers (required available : Nat)
  deriving DecidableEq, Repr

/-- The text that reports a placement error. -/
def PlacementError.message : PlacementError → String
  | .noServers => "No available servers for assignment"
  | .tooFewServers required available =>
    s!"Insufficient servers for replication: required {required}, available {available}"

/-- The servers of each range, the ranges in ascending order. -/
abbrev Placement := List (PartitionRange × List ServerNode)

namespace Placement

/-- The next `count` servers on the way round, and where the way goes on. -/
def goRound (servers : List ServerNode) : (count index : Nat) → List ServerNode × Nat
  | 0, index => ([], index)
  | k + 1, index =>
    let (others, stop) := goRound servers k ((index + 1) % servers.length)
    (servers[index]?.toList ++ others, stop)

/-- Give each range its servers, going on where the range before it stopped. -/
def spread (servers : List ServerNode) (replica : Nat) : (index : Nat) → List PartitionRange →
    Placement
  | _, [] => []
  | index, r :: rs =>
    let (chosen, stop) := goRound servers replica index
    (r, chosen) :: spread servers replica stop rs

/-- Place ranges on the first `most` of the eligible servers. -/
def place (eligible : List ServerNode) (most : Nat) (ranges : List PartitionRange) (replica : Nat) :
    Except PlacementError Placement :=
  let servers := (ServerNode.rank eligible).take most
  if servers.isEmpty then .error .noServers
  else if servers.length < replica then .error (.tooFewServers replica servers.length)
  else .ok (spread servers replica 0 ranges)

/-- The servers of each range by their addresses. -/
def serverIds (p : Placement) : List (PartitionRange × List ServerId) :=
  p.map fun (r, ns) => (r, ns.map (·.serverId))

/-- The text of a placement. -/
def text (p : Placement) : String :=
  String.join (p.map fun (r, ns) =>
    let ids := Quoted.quoteList (ns.map (·.id))
    s!"{r.text} -> servers={ids}; ")

/-- The text of an attempt to place a shuffle. -/
def outcomeText : Except PlacementError Placement → String
  | .ok p => p.text
  | .error e => s!"Failed({e.message})"

end Placement

end ShuffleService
