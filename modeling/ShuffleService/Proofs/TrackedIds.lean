import ShuffleService.BlockIdTracker

/-!
# What reports and purges do to the tracked ids

Every id of a report lands in exactly one shard, as long as there is a shard at all (`Sized`), so
the ids of a partition are the reported ones however they are split up: a report adds its ids
(`reportAll_spec`), and a purge drops those of the partitions that it names
(`mem_blockIds_purgeWhere`).
-/

namespace ShuffleService

namespace PartitionShards

/-- A report adds to each shard the ids that belong there. -/
theorem shards_report (p : PartitionShards) (ids : List Int) :
    (p.report ids).1.shards =
      p.shards.mapIdx fun i shard =>
        join shard (gain shard (ids.filter (shardOf p.count · = i))) := by
  apply List.ext_getElem?
  intro i
  by_cases hi : i < p.shards.length
  · have hsplit : (split p.count ids).toList[i]? =
        some (ids.filter (shardOf p.count · = i)) := by
      rw [Array.getElem?_toList]
      exact getElem?_split p.count ids i hi
    simp [report, gains, List.getElem?_zipWith, hi, hsplit]
  · have hle : p.shards.length ≤ i := Nat.le_of_not_lt hi
    rw [List.getElem?_eq_none (by simp [report, gains]; omega),
      List.getElem?_eq_none (by simpa using hle)]

theorem mem_join_gain {x : Nat} {shard : IdSet} {ids : List Int} :
    x ∈ join shard (gain shard ids) ↔ x ∈ shard ∨ ∃ id ∈ ids, IdSet.key id = x := by
  rw [mem_join, mem_gain]
  constructor
  · rintro (h | ⟨h, -⟩)
    · exact .inl h
    · exact .inr h
  · rintro (h | h)
    · exact .inl h
    · by_cases hx : x ∈ shard
      · exact .inl hx
      · exact .inr ⟨h, hx⟩

theorem shardOf_lt {count : Nat} (h : 0 < count) (id : Int) : shardOf count id < count := by
  unfold shardOf
  have h0 := Int.emod_nonneg id (b := count) (by omega)
  have h1 := Int.emod_lt_of_pos id (b := count) (by omega)
  omega

/-- No id of a report is lost. -/
theorem mem_snapshot_report {p : PartitionShards} (h : 0 < p.count) {ids : List Int} {x : Nat} :
    x ∈ (p.report ids).1.snapshot.set ↔
      x ∈ p.snapshot.set ∨ ∃ id ∈ ids, IdSet.key id = x := by
  simp only [mem_snapshot, shards_report, List.mem_mapIdx]
  constructor
  · rintro ⟨_, ⟨i, hi, rfl⟩, hx⟩
    rcases mem_join_gain.1 hx with hx | ⟨id, hid, rfl⟩
    · exact .inl ⟨_, List.getElem_mem hi, hx⟩
    · exact .inr ⟨id, (List.mem_filter.1 hid).1, rfl⟩
  · rintro (⟨shard, hshard, hx⟩ | ⟨id, hid, rfl⟩)
    · obtain ⟨i, hi, rfl⟩ := List.getElem_of_mem hshard
      exact ⟨_, ⟨i, hi, rfl⟩, mem_join_gain.2 (.inl hx)⟩
    · refine ⟨_, ⟨shardOf p.count id, shardOf_lt h id, rfl⟩, mem_join_gain.2 (.inr ⟨id, ?_, rfl⟩)⟩
      rw [List.mem_filter]
      exact ⟨hid, by simp⟩

@[simp] theorem not_mem_snapshot_new {x count : Nat} : x ∉ (new count).snapshot.set := by
  rw [mem_snapshot]
  rintro ⟨shard, hshard, hx⟩
  rw [new, List.mem_replicate] at hshard
  rw [hshard.2] at hx
  exact IdSet.not_mem_empty x hx

end PartitionShards

namespace BlockIdTracker

variable {t : BlockIdTracker} {shuffle partition s p : Int} {shardCount x : Nat}

theorem set_empty : (∅ : IdBitmap).set = ∅ := rfl

/-- Every partition has a shard, so there is a place for every id. -/
def Sized (t : BlockIdTracker) : Prop :=
  ∀ k shards, t.partitions.find? k = some shards → 0 < shards.count

theorem mem_blockIds : x ∈ (t.blockIds s p).set ↔
    ∃ shards, t.partitions.find? (s, p) = some shards ∧ x ∈ shards.snapshot.set := by
  unfold blockIds shards?
  cases t.partitions.find? (s, p) with
  | none => simp [set_empty, IdSet.not_mem_empty]
  | some shards => simp

@[simp] theorem hollow_blockIds : (t.blockIds s p).hollow = [] := by
  unfold blockIds shards?
  cases t.partitions.find? (s, p) <;> rfl

/-! ### Reports -/

theorem sized_reportPartition (ht : t.Sized) (hpos : 0 < shardCount) (ids : List Int) :
    (t.reportPartition shuffle shardCount partition ids).1.Sized := by
  intro k shards h
  simp only [reportPartition, Table.find?_insert] at h
  split at h
  · cases h
    rw [PartitionShards.count_report]
    cases hbefore : t.partitions.find? (shuffle, partition) with
    | none => simpa using hpos
    | some before => exact ht _ _ hbefore
  · exact ht k shards h

/-- A report on one partition adds its ids there and nowhere else. -/
theorem mem_blockIds_reportPartition (ht : t.Sized) (hpos : 0 < shardCount) {ids : List Int} :
    x ∈ ((t.reportPartition shuffle shardCount partition ids).1.blockIds s p).set ↔
      x ∈ (t.blockIds s p).set ∨
        (s = shuffle ∧ p = partition) ∧ ∃ id ∈ ids, IdSet.key id = x := by
  simp only [mem_blockIds, reportPartition, Table.find?_insert, Prod.mk.injEq]
  by_cases hk : s = shuffle ∧ p = partition
  · obtain ⟨rfl, rfl⟩ := hk
    cases hbefore : t.partitions.find? (s, p) with
    | none =>
      simp [PartitionShards.mem_snapshot_report (p := .new shardCount) (by simpa using hpos)]
    | some before => simp [PartitionShards.mem_snapshot_report (ht _ _ hbefore)]
  · simp [hk]

/-- A report adds its ids to the partitions that it names. -/
theorem reportAll_spec (ht : t.Sized) (shuffle : Int) (hpos : 0 < shardCount) (report : Report) :
    (t.reportAll shuffle shardCount report).1.Sized ∧
      ∀ s p x, x ∈ ((t.reportAll shuffle shardCount report).1.blockIds s p).set ↔
        x ∈ (t.blockIds s p).set ∨
          s = shuffle ∧ ∃ part ∈ report, part.1 = p ∧ ∃ id ∈ part.2, IdSet.key id = x := by
  unfold reportAll
  -- the number of new ids is added up along the way and does not matter here
  generalize 0 = total
  induction report generalizing t total with
  | nil => exact ⟨ht, fun s p x => by simp⟩
  | cons part report ih =>
    obtain ⟨partition, ids⟩ := part
    rw [List.foldl_cons]
    obtain ⟨hsized, hmem⟩ :=
      ih (t := (t.reportPartition shuffle shardCount partition ids).1)
        (sized_reportPartition ht hpos ids)
        (total + (t.reportPartition shuffle shardCount partition ids).2)
    refine ⟨hsized, fun s p x => ?_⟩
    rw [hmem, mem_blockIds_reportPartition ht hpos]
    simp only [List.mem_cons, exists_eq_or_imp]
    grind

/-! ### Purges -/

theorem sized_purgeWhere (ht : t.Sized) (drop : Int × Int → Bool) :
    (t.purgeWhere drop).1.Sized := by
  intro k shards h
  simp only [purgeWhere, Table.find?_filter, Option.filter_eq_some_iff] at h
  exact ht k shards h.1

/-- A purge leaves the ids of the partitions that it does not drop. -/
theorem mem_blockIds_purgeWhere {drop : Int × Int → Bool} :
    x ∈ ((t.purgeWhere drop).1.blockIds s p).set ↔
      drop (s, p) = false ∧ x ∈ (t.blockIds s p).set := by
  simp only [mem_blockIds, purgeWhere, Table.find?_filter, Option.filter_eq_some_iff]
  simp only [Bool.not_eq_true']
  grind

/-! ### Several partitions -/

/-- A query for several partitions answers with the ids of all of them. -/
theorem mem_blockIdsOfAll {partitions : List Int} :
    x ∈ (t.blockIdsOfAll s partitions).set ↔ ∃ p ∈ partitions, x ∈ (t.blockIds s p).set := by
  have h (b : IdBitmap) : x ∈ (partitions.foldl (fun b p => b.union (t.blockIds s p)) b).set ↔
      x ∈ b.set ∨ ∃ p ∈ partitions, x ∈ (t.blockIds s p).set := by
    induction partitions generalizing b with
    | nil => simp
    | cons p partitions ih =>
      rw [List.foldl_cons, ih, IdBitmap.set_union, IdSet.mem_union]
      simp only [List.mem_cons, exists_eq_or_imp, or_assoc]
  rw [blockIdsOfAll, h]
  simp [set_empty, IdSet.not_mem_empty]

theorem hollow_blockIdsOfAll {partitions : List Int} :
    (t.blockIdsOfAll s partitions).hollow = [] := by
  unfold blockIdsOfAll
  have h (b : IdBitmap) (hb : b.hollow = []) :
      (partitions.foldl (fun b p => b.union (t.blockIds s p)) b).hollow = [] := by
    induction partitions generalizing b with
    | nil => exact hb
    | cons p partitions ih =>
      rw [List.foldl_cons]
      apply ih
      simp [IdBitmap.union, IdBitmap.assemble, hb, sortDistinct, isAscending]
  exact h ∅ rfl

end BlockIdTracker

end ShuffleService
