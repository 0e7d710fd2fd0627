import ShuffleService.BlockIdTracker
import ShuffleService.Proofs.RecordBytes
import ShuffleService.Proofs.TableTotals
import ShuffleService.Proofs.TrackedIds

/-!
# Where ids are put, and how many there are

Every id lies in the shard that it belongs to (`PartitionShards.Placed`), so the shards of a
partition have no id in common, and their sizes add up to the number of distinct ids of the
partition (`Placed.card_snapshot`). That is why the count of new ids that a report returns and the
count of dropped ids that a purge returns are exactly what the ids of an app gain and lose
(`BlockIdTracker.Counted`).
-/

namespace ShuffleService

namespace IdSet

/-- Sets without common members have as many members together as one by one. -/
theorem card_of_pairwise {u : IdSet} {sets : List IdSet} (hmem : ∀ x, x ∈ u ↔ ∃ s ∈ sets, x ∈ s)
    (hdisjoint : sets.Pairwise fun s t => ∀ x ∈ s, x ∉ t) : u.card = (sets.map (·.card)).sum := by
  have hnodup : (sets.flatMap (·.toList)).Nodup := by
    rw [List.Nodup, List.pairwise_flatMap]
    refine ⟨fun s _ => s.nodup, hdisjoint.imp fun h x hx y hy hxy => ?_⟩
    exact h x hx (hxy ▸ hy)
  have hperm : u.toList.Perm (sets.flatMap (·.toList)) := by
    rw [List.perm_ext_iff_of_nodup u.nodup hnodup]
    intro x
    rw [mem_toList, hmem, List.mem_flatMap]
    rfl
  rw [← length_toList, hperm.length_eq, List.length_flatMap]
  rfl

end IdSet

namespace PartitionShards

variable {p : PartitionShards} {ids : List Int}

/-! ### Shards -/

/-- Every id is in the shard that it belongs to. -/
def Placed (p : PartitionShards) : Prop :=
  ∀ i shard, p.shards[i]? = some shard → ∀ x ∈ shard, shardOf p.count (IdSet.idOf x) = i

theorem placed_new (count : Nat) : (new count).Placed := by
  intro i shard hshard x hx
  obtain ⟨-, rfl⟩ := List.mem_replicate.1 (List.mem_of_getElem? hshard)
  exact absurd hx (IdSet.not_mem_empty x)

@[simp] theorem card_new (count : Nat) : (new count).card = 0 := by
  simp only [card, new, List.map_replicate]
  exact List.sum_replicate_nat.trans (Nat.mul_zero count)

/-- No id is in two shards. -/
theorem Placed.pairwise (hp : p.Placed) : p.shards.Pairwise fun s t => ∀ x ∈ s, x ∉ t := by
  rw [List.pairwise_iff_getElem]
  intro i j hi hj hij x hx hx'
  have h1 := hp i _ (List.getElem?_eq_getElem hi) x hx
  have h2 := hp j _ (List.getElem?_eq_getElem hj) x hx'
  omega

/-- The distinct ids of a partition are as many as the ids of its shards. -/
theorem Placed.card_snapshot (hp : p.Placed) : p.snapshot.set.card = p.card :=
  IdSet.card_of_pairwise (fun _ => mem_snapshot) hp.pairwise

theorem Placed.report (hp : p.Placed) (hids : ∀ id ∈ ids, IndexRecord.fitsBytes 8 id) :
    (p.report ids).1.Placed := by
  intro i shard hshard x hx
  rw [count_report]
  rw [shards_report, List.getElem?_mapIdx] at hshard
  obtain ⟨before, hbefore, rfl⟩ := Option.map_eq_some_iff.1 hshard
  rcases mem_join_gain.1 hx with hx | ⟨id, hid, rfl⟩
  · exact hp i before hbefore x hx
  · obtain ⟨hid, hshard⟩ := List.mem_filter.1 hid
    -- a signed word and the member that stands for it determine each other
    rw [IdSet.idOf, IdSet.key, signed_unsigned (by decide) (hids id hid).1 (hids id hid).2]
    simpa using hshard

/-- A shard and what it gains have no id in common. -/
theorem card_join_gain (shard : IdSet) (ids : List Int) :
    (join shard (gain shard ids)).card = shard.card + (gain shard ids).card := by
  have h : (join shard (gain shard ids)).card = ([shard, gain shard ids].map (·.card)).sum :=
    IdSet.card_of_pairwise (fun x => by simp)
      (List.pairwise_pair.2 fun x hx hgain => (mem_gain.1 hgain).2 hx)
  simpa using h

/-- A report returns by how many ids the shards have grown. -/
theorem card_report (p : PartitionShards) (ids : List Int) :
    (p.report ids).1.card = p.card + (p.report ids).2 := by
  have hsum (shards : List IdSet) (shares : List (List Int)) (h : shards.length ≤ shares.length) :
      ((shards.zipWith join (shards.zipWith gain shares)).map (·.card)).sum =
        (shards.map (·.card)).sum + ((shards.zipWith gain shares).map (·.card)).sum := by
    induction shards generalizing shares with
    | nil => rfl
    | cons shard shards ih =>
      cases shares with
      | nil => simp at h
      | cons share shares =>
        have := ih shares (by simpa using h)
        simp only [List.zipWith_cons_cons, List.map_cons, List.sum_cons, card_join_gain]
        omega
  exact hsum p.shards (split p.count ids).toList (by simp [count])

end PartitionShards

namespace BlockIdTracker

variable {t : BlockIdTracker} {shuffle partition : Int} {shardCount : Nat} {ids : List Int}

/-! ### The ids of an app -/

/-- How many distinct ids are held for each partition, summed up over all partitions. -/
def held (t : BlockIdTracker) : Nat := t.partitions.total fun p => p.snapshot.set.card

/-- Every id is in the shard that it belongs to, and the tracker knows how many ids there are. -/
structure Counted (t : BlockIdTracker) : Prop where
  placed : ∀ k p, t.partitions.find? k = some p → p.Placed
  number : t.number = t.held

theorem counted_new : ({} : BlockIdTracker).Counted where
  placed := fun k p h => by cases h
  number := rfl

/-- A report on one partition returns by how many ids the partition has grown. -/
theorem Counted.reportPartition (ht : t.Counted) (shuffle : Int) (shardCount : Nat)
    (partition : Int) (hids : ∀ id ∈ ids, IndexRecord.fitsBytes 8 id) :
    (t.reportPartition shuffle shardCount partition ids).1.Counted ∧
      (t.reportPartition shuffle shardCount partition ids).1.held =
        t.held + (t.reportPartition shuffle shardCount partition ids).2 := by
  have hbefore : ((t.partitions.find? (shuffle, partition)).getD (.new shardCount)).Placed := by
    cases h : t.partitions.find? (shuffle, partition) with
    | none => exact PartitionShards.placed_new shardCount
    | some p => exact ht.placed _ p h
  have hafter := hbefore.report hids
  have hheld : (t.reportPartition shuffle shardCount partition ids).1.held =
      t.held + (t.reportPartition shuffle shardCount partition ids).2 := by
    have hinsert := Table.total_insert (t := t.partitions) (k := (shuffle, partition))
      (v := (((t.partitions.find? (shuffle, partition)).getD (.new shardCount)).report ids).1)
      (f := fun p => p.snapshot.set.card)
    have hold :
        ((t.partitions.find? (shuffle, partition)).map fun p => p.snapshot.set.card).getD 0 =
          ((t.partitions.find? (shuffle, partition)).getD (.new shardCount)).card := by
      cases h : t.partitions.find? (shuffle, partition) with
      | none => simp
      | some p => exact (ht.placed _ p h).card_snapshot
    rw [hafter.card_snapshot, PartitionShards.card_report, hold] at hinsert
    simp only [held, BlockIdTracker.reportPartition] at hinsert ⊢
    omega
  refine ⟨⟨fun k p h => ?_, ?_⟩, hheld⟩
  · simp only [BlockIdTracker.reportPartition, Table.find?_insert] at h
    split at h
    · cases h
      exact hafter
    · exact ht.placed k p h
  · rw [hheld, ← ht.number]
    rfl

/-- Take in one partition of a report, and add up the ids that are new. -/
def takeIn (shuffle : Int) (shardCount : Nat) (s : BlockIdTracker × Nat) (part : Int × List Int) :
    BlockIdTracker × Nat :=
  let after := s.1.reportPartition shuffle shardCount part.1 part.2
  (after.1, s.2 + after.2)

theorem reportAll_eq_foldl (t : BlockIdTracker) (shuffle : Int) (shardCount : Nat)
    (report : Report) :
    t.reportAll shuffle shardCount report = report.foldl (takeIn shuffle shardCount) (t, 0) :=
  rfl

/-- The partitions of a report are taken in one after the other. -/
theorem reportAll_cons (t : BlockIdTracker) (shuffle : Int) (shardCount : Nat)
    (part : Int × List Int) (report : Report) :
    t.reportAll shuffle shardCount (part :: report) =
      let first := t.reportPartition shuffle shardCount part.1 part.2
      let rest := first.1.reportAll shuffle shardCount report
      (rest.1, first.2 + rest.2) := by
  -- what was counted before only adds to the count
  have hshift (t : BlockIdTracker) (total : Nat) :
      report.foldl (takeIn shuffle shardCount) (t, total) =
        ((t.reportAll shuffle shardCount report).1,
          total + (t.reportAll shuffle shardCount report).2) := by
    rw [reportAll_eq_foldl]
    induction report generalizing t total with
    | nil => rfl
    | cons part report ih =>
      rw [List.foldl_cons, List.foldl_cons, takeIn, takeIn, ih, ih _ (0 + _)]
      simp only [Prod.mk.injEq, true_and]
      omega
  rw [reportAll_eq_foldl, List.foldl_cons, takeIn, hshift]
  simp only [Nat.zero_add]

/-- A report returns by how many ids the tracker has grown. -/
theorem Counted.reportAll (ht : t.Counted) (shuffle : Int) (shardCount : Nat) {report : Report}
    (hids : ∀ part ∈ report, ∀ id ∈ part.2, IndexRecord.fitsBytes 8 id) :
    (t.reportAll shuffle shardCount report).1.Counted ∧
      (t.reportAll shuffle shardCount report).1.held =
        t.held + (t.reportAll shuffle shardCount report).2 := by
  induction report generalizing t with
  | nil => exact ⟨ht, rfl⟩
  | cons part report ih =>
    obtain ⟨hfirst, hheld⟩ := ht.reportPartition shuffle shardCount part.1
      (hids part (List.mem_cons_self ..))
    obtain ⟨hrest, hheld'⟩ := ih hfirst fun part h => hids part (List.mem_cons_of_mem _ h)
    rw [reportAll_cons]
    refine ⟨hrest, ?_⟩
    dsimp only
    omega

/-- A purge returns by how many ids the tracker has shrunk. -/
theorem Counted.purgeWhere (ht : t.Counted) (drop : Int × Int → Bool) :
    (t.purgeWhere drop).1.Counted ∧
      (t.purgeWhere drop).1.held + (t.purgeWhere drop).2 = t.held := by
  have hgone : (t.purgeWhere drop).2 =
      (t.partitions.filter fun k _ => drop k).total fun p => p.snapshot.set.card := by
    refine Table.total_congr fun k p h => ?_
    rw [Table.find?_filter, Option.filter_eq_some_iff] at h
    exact (ht.placed k p h.1).card_snapshot.symm
  have hheld : (t.purgeWhere drop).1.held + (t.purgeWhere drop).2 = t.held := by
    rw [hgone, Nat.add_comm]
    exact Table.total_filter fun k _ => drop k
  refine ⟨⟨fun k p h => ?_, ?_⟩, hheld⟩
  · simp only [BlockIdTracker.purgeWhere, Table.find?_filter, Option.filter_eq_some_iff] at h
    exact ht.placed k p h.1
  · show t.number - (t.purgeWhere drop).2 = _
    rw [ht.number]
    omega

end BlockIdTracker

end ShuffleService
