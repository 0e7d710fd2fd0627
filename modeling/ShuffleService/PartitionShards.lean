import ShuffleService.IdBitmap

/-!
# The shards of a partition

The block ids of a partition are split into shards, so that reports on different shards need not
wait for each other. An id belongs to the shard that is its Euclidean remainder modulo the number
of shards. That number never changes.

* `report`: add ids, each to its shard; `getElem?_split` says which ids a shard gets;
* `snapshot`: the ids of all shards in one table (`mem_snapshot`).
-/

namespace ShuffleService

open scoped PlainNumbers

/-- The block ids of a partition, by shards. -/
structure PartitionShards where
  shards : List IdSet

namespace PartitionShards

/-- A partition without ids. -/
def new (count : Nat) : PartitionShards := ⟨List.replicate count ∅⟩

/-- The number of shards. -/
def count (p : PartitionShards) : Nat := p.shards.length

/-- The shard that an id belongs to. -/
def shardOf (count : Nat) (id : Int) : Nat := (id % count).toNat

/-- The ids of a report by the shards they belong to. -/
def split (count : Nat) (ids : List Int) : Array (List Int) :=
  ids.foldr (fun id shares => shares.modify (shardOf count id) (id :: ·)) (.replicate count [])

/-- The ids of a report that belong to a shard, in order. -/
theorem getElem?_split (count : Nat) (ids : List Int) (shard : Nat) (h : shard < count) :
    (split count ids)[shard]? = some (ids.filter (shardOf count · = shard)) := by
  induction ids with
  | nil => simp [split, h]
  | cons id ids ih =>
    unfold split at ih ⊢
    rw [List.foldr_cons, Array.getElem?_modify, ih]
    by_cases heq : shardOf count id = shard <;> simp [heq]

@[simp] theorem size_split (count : Nat) (ids : List Int) : (split count ids).size = count := by
  induction ids with
  | nil => simp [split]
  | cons id ids ih =>
    unfold split at ih ⊢
    rw [List.foldr_cons, Array.size_modify, ih]

/-- What a shard gains by ids that belong to it. -/
def gain (shard : IdSet) (ids : List Int) : IdSet :=
  if ids.isEmpty then ∅ else (IdSet.ofIds ids).diff shard

@[simp] theorem mem_gain {x : Nat} {shard : IdSet} {ids : List Int} :
    x ∈ gain shard ids ↔ (∃ id ∈ ids, IdSet.key id = x) ∧ x ∉ shard := by
  unfold gain
  split
  · rename_i h
    simp [List.isEmpty_iff.1 h]
  · simp

/-- What each shard gains by a report. -/
def gains (p : PartitionShards) (ids : List Int) : List IdSet :=
  p.shards.zipWith gain (split p.count ids).toList

/-- A shard with what it has gained. -/
def join (shard gained : IdSet) : IdSet := if gained.isEmpty then shard else shard.union gained

@[simp] theorem mem_join {x : Nat} {shard gained : IdSet} :
    x ∈ join shard gained ↔ x ∈ shard ∨ x ∈ gained := by
  unfold join
  split
  · rename_i h
    simp [IdSet.isEmpty_iff.1 h]
  · simp

/-- The shards after a report, and how many of the reported ids were not there before. -/
def report (p : PartitionShards) (ids : List Int) : PartitionShards × Nat :=
  let gains := p.gains ids
  (⟨p.shards.zipWith join gains⟩, (gains.map (·.card)).sum)

/-- One shard. -/
def shard? (p : PartitionShards) (i : Nat) : Option IdSet := p.shards[i]?

/-- The ids of all shards in one table. -/
def snapshot (p : PartitionShards) : IdBitmap := .ofShares p.shards

/-- The number of ids of all shards. -/
def card (p : PartitionShards) : Nat := (p.shards.map (·.card)).sum

/-- The snapshot has the ids of all shards. -/
theorem mem_snapshot {x : Nat} {p : PartitionShards} :
    x ∈ p.snapshot.set ↔ ∃ shard ∈ p.shards, x ∈ shard := IdBitmap.mem_ofShares

@[simp] theorem count_new (n : Nat) : (new n).count = n := by simp [new, count]

/-- A report does not change the number of shards. -/
@[simp] theorem count_report (p : PartitionShards) (ids : List Int) :
    (p.report ids).1.count = p.count := by
  simp [report, gains, count]

end PartitionShards

end ShuffleService
