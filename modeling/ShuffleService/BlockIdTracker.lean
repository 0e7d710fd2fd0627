import ShuffleService.Error
import ShuffleService.PartitionShards
import ShuffleService.Table

/-!
# Which blocks an app has written

Task attempts report the ids of the blocks that they have written, by shuffle and partition. The
tracker keeps the ids until the shuffle is purged, and counts them as they come and go.
-/

namespace ShuffleService

open scoped PlainNumbers

/-- The reported block ids of an app. -/
structure BlockIdTracker where
  /-- How many ids are held, kept up by each report and each purge. -/
  number : Nat := 0
  /-- The ids by shuffle and partition. -/
  partitions : Table (Int × Int) PartitionShards := ∅

namespace BlockIdTracker

/-- The ids of a report, by partition. Each partition occurs once. -/
abbrev Report := List (Int × List Int)

/-- Add the ids of one partition. The first report on a partition sets its number of shards.
Returns how many ids are new. -/
def reportPartition (t : BlockIdTracker) (shuffle : Int) (shardCount : Nat) (partition : Int)
    (ids : List Int) : BlockIdTracker × Nat :=
  let before := (t.partitions.find? (shuffle, partition)).getD (.new shardCount)
  let (after, added) := before.report ids
  ({ number := t.number + added
     partitions := t.partitions.insert (shuffle, partition) after }, added)

/-- Add the ids of several partitions. Returns how many are new. -/
def reportAll (t : BlockIdTracker) (shuffle : Int) (shardCount : Nat) (report : Report) :
    BlockIdTracker × Nat :=
  report.foldl (fun (t, total) (partition, ids) =>
    let (t, added) := t.reportPartition shuffle shardCount partition ids
    (t, total + added)) (t, 0)

/-- Accept a report. Returns how many ids are new. -/
def report (t : BlockIdTracker) (shuffle : Int) (shardCount : Nat) (report : Report) :
    Except ShuffleError (BlockIdTracker × Nat) :=
  if shardCount = 0 then .error (.invalidArgument "bitmap number must be positive")
  else .ok (t.reportAll shuffle shardCount report)

/-- The shards of a partition, if anything was reported for it. -/
def shards? (t : BlockIdTracker) (shuffle partition : Int) : Option PartitionShards :=
  t.partitions.find? (shuffle, partition)

/-- The ids of a partition. -/
def blockIds (t : BlockIdTracker) (shuffle partition : Int) : IdBitmap :=
  ((t.shards? shuffle partition).map (·.snapshot)).getD ∅

/-- The ids of several partitions. -/
def blockIdsOfAll (t : BlockIdTracker) (shuffle : Int) (partitions : List Int) : IdBitmap :=
  partitions.foldl (fun b p => b.union (t.blockIds shuffle p)) ∅

/-- Drop the partitions that pass a test. Returns how many ids went. -/
def purgeWhere (t : BlockIdTracker) (drop : Int × Int → Bool) : BlockIdTracker × Nat :=
  let gone := ((t.partitions.filter fun k _ => drop k).values.map (·.card)).sum
  ({ number := t.number - gone
     partitions := t.partitions.filter fun k _ => !drop k }, gone)

/-- Drop the ids of a shuffle. -/
def purgeShuffle (t : BlockIdTracker) (shuffle : Int) : BlockIdTracker × Nat :=
  t.purgeWhere (·.1 = shuffle)

/-- Drop all ids. -/
def purgeAll (t : BlockIdTracker) : BlockIdTracker × Nat := t.purgeWhere fun _ => true

/-- How many partitions anything was reported for. -/
def partitionCount (t : BlockIdTracker) : Nat := t.partitions.size

end BlockIdTracker

end ShuffleService
