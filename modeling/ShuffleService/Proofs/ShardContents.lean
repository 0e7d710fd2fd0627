import Mathlib.Data.List.DropRight
import ShuffleService.Proofs.ShardPlacement

/-!
# What the shards of a partition hold

The first report on a partition sets the number of its shards, and later reports share their ids out
over that number, whatever number they ask for. A purge takes the shards away, and the next report
sets their number anew. So the shards can be read off the reports since the last purge
(`TrackerDeed.reported`): `BlockIdTracker.Keeps` says how, each deed preserves it (`Keeps.after`),
and `shards_of_run` says what follows for the shards after any run.
-/

namespace ShuffleService

/-- Something that is done to a tracker. -/
inductive TrackerDeed
  | report (shuffle : Int) (shardCount : Nat) (parts : BlockIdTracker.Report)
  | purgeShuffle (shuffle : Int)
  | purgeAll

/-- A share of a report: the number of shards that it asks for, and ids of one partition. -/
abbrev Share := Nat × List Int

namespace TrackerDeed

/-- Whether a deed is a purge that takes the ids of a shuffle away. -/
def covers (shuffle : Int) : TrackerDeed → Bool
  | report .. => false
  | purgeShuffle purged => purged = shuffle
  | purgeAll => true

/-- What a deed reports for a partition. A report that asks for no shards is refused. -/
def shares (shuffle partition : Int) : TrackerDeed → List Share
  | report named shardCount parts =>
    if named = shuffle ∧ shardCount ≠ 0 then
      (parts.filter (·.1 = partition)).map fun part => (shardCount, part.2)
    else []
  | _ => []

/-- What was reported for a partition since the last purge that took its ids away, in order. -/
def reported (shuffle partition : Int) (ds : List TrackerDeed) : List Share :=
  (ds.rtakeWhile fun d => !d.covers shuffle).flatMap (·.shares shuffle partition)

/-- The ids of a report are signed words. -/
def Fits : TrackerDeed → Prop
  | report _ _ parts => ∀ part ∈ parts, ∀ id ∈ part.2, IndexRecord.fitsBytes 8 id
  | _ => True

instance : DecidablePred Fits := fun d => by
  unfold Fits
  split <;> infer_instance

variable {shuffle partition : Int} {ds : List TrackerDeed}

/-- A purge ends what was reported, and another deed adds its shares. -/
theorem reported_concat (ds : List TrackerDeed) (d : TrackerDeed) :
    reported shuffle partition (ds ++ [d]) =
      if d.covers shuffle then [] else
        reported shuffle partition ds ++ d.shares shuffle partition := by
  unfold reported
  cases hd : d.covers shuffle <;> simp [hd]

theorem shares_cons {named : Int} {shardCount : Nat} (hpos : shardCount ≠ 0) (part : Int × List Int)
    (parts : BlockIdTracker.Report) :
    (report named shardCount (part :: parts)).shares shuffle partition =
      (if named = shuffle ∧ part.1 = partition then [(shardCount, part.2)] else []) ++
        (report named shardCount parts).shares shuffle partition := by
  by_cases hs : named = shuffle <;> by_cases hp : part.1 = partition <;>
    simp [shares, hs, hp, hpos]

theorem fits_of_mem_reported (hfits : ∀ d ∈ ds, d.Fits) {share : Share}
    (hshare : share ∈ reported shuffle partition ds) :
    ∀ id ∈ share.2, IndexRecord.fitsBytes 8 id := by
  obtain ⟨d, hd, hshare⟩ := List.mem_flatMap.1 hshare
  have hd := hfits d ((List.rtakeWhile_suffix _ ds).subset hd)
  cases d with
  | report named shardCount parts =>
    simp only [shares] at hshare
    split at hshare
    · obtain ⟨part, hpart, rfl⟩ := List.mem_map.1 hshare
      exact hd part (List.mem_filter.1 hpart).1
    · cases hshare
  | purgeShuffle purged => cases hshare
  | purgeAll => cases hshare

end TrackerDeed

/-! ### The shards of one partition -/

namespace PartitionShards

variable {p : PartitionShards} {shares : List Share}

/-- Each shard has the ids that belong there, of those that the shares list, and no others. -/
def Filled (shares : List Share) (p : PartitionShards) : Prop :=
  ∀ i shard, p.shards[i]? = some shard → ∀ x,
    x ∈ shard ↔ ∃ share ∈ shares, ∃ id ∈ share.2, shardOf p.count id = i ∧ IdSet.key id = x

theorem filled_new (count : Nat) : Filled [] (new count) := by
  intro i shard hshard x
  obtain ⟨-, rfl⟩ := List.mem_replicate.1 (List.mem_of_getElem? hshard)
  simp

/-- One more share goes to the shards that its ids belong to. -/
theorem Filled.report (h : Filled shares p) (asked : Nat) (ids : List Int) :
    Filled (shares ++ [(asked, ids)]) (p.report ids).1 := by
  intro i shard hshard x
  rw [shards_report, List.getElem?_mapIdx] at hshard
  obtain ⟨before, hbefore, rfl⟩ := Option.map_eq_some_iff.1 hshard
  rw [mem_join_gain, h i before hbefore, count_report]
  simp only [List.mem_filter, decide_eq_true_eq, List.mem_append, List.mem_singleton,
    or_and_right, exists_or, exists_eq_left, and_assoc]

/-- Ids that are signed words are where they belong also when they are read back. -/
theorem Filled.placed (h : Filled shares p)
    (hfits : ∀ share ∈ shares, ∀ id ∈ share.2, IndexRecord.fitsBytes 8 id) : p.Placed := by
  intro i shard hshard x hx
  obtain ⟨share, hshare, id, hid, hof, rfl⟩ := (h i shard hshard x).1 hx
  have hback : IdSet.idOf (IdSet.key id) = id :=
    signed_unsigned (by decide) (hfits share hshare id hid).1 (hfits share hshare id hid).2
  rw [hback, hof]

/-- All shards together have all ids. -/
theorem Filled.mem_snapshot (h : Filled shares p) (hpos : 0 < p.count) {x : Nat} :
    x ∈ p.snapshot.set ↔ ∃ share ∈ shares, ∃ id ∈ share.2, IdSet.key id = x := by
  rw [PartitionShards.mem_snapshot]
  constructor
  · rintro ⟨shard, hshard, hx⟩
    obtain ⟨i, hi⟩ := List.mem_iff_getElem?.1 hshard
    obtain ⟨share, hshare, id, hid, -, rfl⟩ := (h i shard hi x).1 hx
    exact ⟨share, hshare, id, hid, rfl⟩
  · rintro ⟨share, hshare, id, hid, rfl⟩
    have hlt : shardOf p.count id < p.shards.length := shardOf_lt hpos id
    refine ⟨p.shards[shardOf p.count id], List.getElem_mem hlt, ?_⟩
    exact (h _ _ (List.getElem?_eq_getElem hlt) _).2 ⟨share, hshare, id, hid, rfl, rfl⟩

theorem shardOf_eq_iff {count : Nat} (hpos : 0 < count) {id : Int} {i : Nat} :
    shardOf count id = i ↔ id % count = i := by
  have hnonneg := Int.emod_nonneg id (b := count) (by omega)
  unfold shardOf
  omega

end PartitionShards

/-! ### Runs of a tracker -/

namespace BlockIdTracker

variable {t : BlockIdTracker} {shuffle partition s p : Int} {shardCount : Nat}
  {shares : List Share}

/-- What is kept of a partition for which some shares were reported: nothing without any, and
otherwise as many shards as the first of them asks for, filled with their ids. -/
def Keeps (shares : List Share) : Option PartitionShards → Prop
  | none => shares = []
  | some q => q.Filled shares ∧ 0 < q.count ∧ shares.head?.map (·.1) = some q.count

/-- A report on one partition adds a share to it, and changes no other partition. -/
theorem Keeps.reportPartition (h : Keeps shares (t.shards? s p)) (hpos : 0 < shardCount)
    (ids : List Int) :
    Keeps (shares ++ if shuffle = s ∧ partition = p then [(shardCount, ids)] else [])
      ((t.reportPartition shuffle shardCount partition ids).1.shards? s p) := by
  simp only [shards?, BlockIdTracker.reportPartition, Table.find?_insert, Prod.mk.injEq]
  by_cases hsame : shuffle = s ∧ partition = p
  · obtain ⟨rfl, rfl⟩ := hsame
    rw [if_pos ⟨rfl, rfl⟩, if_pos ⟨rfl, rfl⟩]
    unfold shards? at h
    cases hbefore : t.partitions.find? (shuffle, partition) with
    | none =>
      rw [hbefore] at h
      rw [show shares = [] from h]
      exact ⟨(PartitionShards.filled_new shardCount).report shardCount ids, by simpa using hpos,
        by simp⟩
    | some q =>
      rw [hbefore] at h
      obtain ⟨hfilled, hcount, hfirst⟩ := h
      obtain ⟨first, hfirst, hasked⟩ := Option.map_eq_some_iff.1 hfirst
      exact ⟨hfilled.report shardCount ids, by simpa using hcount, by simp [hfirst, hasked]⟩
  · have hother : ¬ (s = shuffle ∧ p = partition) := fun h => hsame ⟨h.1.symm, h.2.symm⟩
    rw [if_neg hsame, if_neg hother, List.append_nil]
    exact h

/-- A report adds its shares one after the other. -/
theorem Keeps.reportAll (h : Keeps shares (t.shards? s p)) (hpos : 0 < shardCount)
    (parts : Report) :
    Keeps (shares ++ (TrackerDeed.report shuffle shardCount parts).shares s p)
      ((t.reportAll shuffle shardCount parts).1.shards? s p) := by
  induction parts generalizing t shares with
  | nil => simpa [TrackerDeed.shares, BlockIdTracker.reportAll] using h
  | cons part parts ih =>
    rw [reportAll_cons, TrackerDeed.shares_cons (Nat.ne_of_gt hpos), ← List.append_assoc]
    exact ih (h.reportPartition hpos part.2)

/-- A purge leaves nothing of a partition that it takes away, and the others as they are. -/
theorem shards?_purgeWhere {drop : Int × Int → Bool} :
    (t.purgeWhere drop).1.shards? s p = if drop (s, p) then none else t.shards? s p := by
  simp only [shards?, purgeWhere, Table.find?_filter]
  cases t.partitions.find? (s, p) <;> cases drop (s, p) <;> simp [Option.filter]

/-- The tracker after a deed. -/
def after (t : BlockIdTracker) : TrackerDeed → BlockIdTracker
  | .report shuffle shardCount parts =>
    match t.report shuffle shardCount parts with
    | .ok (after, _) => after
    | .error _ => t
  | .purgeShuffle shuffle => (t.purgeShuffle shuffle).1
  | .purgeAll => t.purgeAll.1

/-- Let one deed follow the other. -/
def run (ds : List TrackerDeed) : BlockIdTracker := ds.foldl after {}

theorem run_concat (ds : List TrackerDeed) (d : TrackerDeed) : run (ds ++ [d]) = (run ds).after d :=
  List.foldl_append

/-- Each deed keeps what was reported since the last purge. -/
theorem Keeps.after (h : Keeps shares (t.shards? s p)) (d : TrackerDeed) :
    Keeps (if d.covers s then [] else shares ++ d.shares s p) ((t.after d).shards? s p) := by
  cases d with
  | report shuffle shardCount parts =>
    by_cases hzero : shardCount = 0
    · simpa [BlockIdTracker.after, BlockIdTracker.report, TrackerDeed.covers, TrackerDeed.shares,
        hzero] using h
    · have hreport : t.after (.report shuffle shardCount parts) =
          (t.reportAll shuffle shardCount parts).1 := by
        simp [BlockIdTracker.after, BlockIdTracker.report, hzero]
      rw [hreport, TrackerDeed.covers, if_neg Bool.false_ne_true]
      exact h.reportAll (Nat.pos_of_ne_zero hzero) parts
  | purgeShuffle purged =>
    show Keeps _ ((t.purgeWhere _).1.shards? s p)
    rw [shards?_purgeWhere]
    by_cases hs : purged = s
    · simp [TrackerDeed.covers, hs, Keeps]
    · simpa [TrackerDeed.covers, TrackerDeed.shares, hs, Ne.symm hs] using h
  | purgeAll =>
    show Keeps _ ((t.purgeWhere _).1.shards? s p)
    rw [shards?_purgeWhere]
    rfl

/-- After any run a partition has what was reported for it since the last purge. -/
theorem keeps_run (ds : List TrackerDeed) (s p : Int) :
    Keeps (TrackerDeed.reported s p ds) ((run ds).shards? s p) := by
  induction ds using List.reverseRecOn with
  | nil => rfl
  | append_singleton ds d ih =>
    rw [TrackerDeed.reported_concat, run_concat]
    exact ih.after d

/-- **What the shards of a partition hold.** Take any run of reports, which may ask for any numbers
of shards and list any signed words, none and repeated ones included, and of purges. A partition is
there just if something was reported for it since the last purge that took its ids away. It has as
many shards as the first report since then asked for, and no shard beyond. Each of the shards has
just those ids that were reported since then and leave its number as their Euclidean remainder. So
no two shards have an id in common; their snapshot has all reported ids and no others, and as many
as the shards have one by one. -/
theorem shards_of_run (ds : List TrackerDeed) (hfits : ∀ d ∈ ds, d.Fits) (s p : Int) :
    let shares := TrackerDeed.reported s p ds
    ((run ds).shards? s p = none ↔ shares = []) ∧
    ∀ q, (run ds).shards? s p = some q →
      (∃ ids later, shares = (q.count, ids) :: later) ∧
      (∀ i, q.count ≤ i → q.shard? i = none) ∧
      (∀ i < q.count, ∃ shard, q.shard? i = some shard ∧ ∀ x,
        x ∈ shard ↔ ∃ share ∈ shares, ∃ id ∈ share.2, id % q.count = i ∧ IdSet.key id = x) ∧
      (∀ i j a b, i ≠ j → q.shard? i = some a → q.shard? j = some b → ∀ x ∈ a, x ∉ b) ∧
      (∀ x, x ∈ q.snapshot.set ↔ ∃ share ∈ shares, ∃ id ∈ share.2, IdSet.key id = x) ∧
      q.snapshot.set.card = (q.shards.map (·.card)).sum := by
  intro shares
  have hkeeps : Keeps shares ((run ds).shards? s p) := keeps_run ds s p
  have hids : ∀ share ∈ shares, ∀ id ∈ share.2, IndexRecord.fitsBytes 8 id := fun _ hshare =>
    TrackerDeed.fits_of_mem_reported hfits hshare
  cases hq : (run ds).shards? s p with
  | none =>
    rw [hq] at hkeeps
    exact ⟨iff_of_true rfl hkeeps, nofun⟩
  | some q =>
    rw [hq] at hkeeps
    obtain ⟨hfilled, hpos, hfirst⟩ := hkeeps
    obtain ⟨⟨asked, ids⟩, hhead, rfl⟩ := Option.map_eq_some_iff.1 hfirst
    obtain ⟨later, hshares⟩ := List.head?_eq_some_iff.1 hhead
    have hplaced : q.Placed := hfilled.placed hids
    refine ⟨iff_of_false nofun (by simp [hshares]), ?_⟩
    rintro q' ⟨⟩
    refine ⟨⟨ids, later, hshares⟩, fun i hi => List.getElem?_eq_none hi, fun i hi => ?_,
      fun i j a b hij ha hb x hxa hxb => ?_, fun x => hfilled.mem_snapshot hpos,
      hplaced.card_snapshot⟩
    · have hshard : q.shards[i]? = some q.shards[i] := List.getElem?_eq_getElem hi
      refine ⟨_, hshard, fun x => ?_⟩
      rw [hfilled i _ hshard]
      simp only [PartitionShards.shardOf_eq_iff hpos]
    · exact hij ((hplaced i a ha x hxa).symm.trans (hplaced j b hb x hxb))

/-- The number of shards is set by the first report after a purge, which asks for two. The report
after it asks for four, another one for none, and there is one on a partition beside it. -/
theorem shards_of_run_negative_ids :
    let ds : List TrackerDeed := [.report 1 3 [(0, [-1, 4, -1]), (7, [])], .purgeShuffle 2,
      .report 1 5 [(0, [2])], .purgeShuffle 1, .report 1 0 [(0, [9])],
      .report 1 2 [(0, [-3, 5]), (7, [8])], .report 2 1 [(0, [6])], .report 1 4 [(0, [-4, -4])]]
    (∀ d ∈ ds, d.Fits) ∧ ∃ q, (run ds).shards? 1 0 = some q ∧ q.count = 2 ∧ q.shard? 2 = none ∧
      (∃ shard, q.shard? 0 = some shard ∧ ∀ x, x ∈ shard ↔ IdSet.key (-4) = x) ∧
      (∃ shard, q.shard? 1 = some shard ∧
        ∀ x, x ∈ shard ↔ IdSet.key (-3) = x ∨ IdSet.key 5 = x) ∧
      ∀ x, x ∈ q.snapshot.set ↔ IdSet.key (-3) = x ∨ IdSet.key 5 = x ∨ IdSet.key (-4) = x := by
  intro ds
  have hfits : ∀ d ∈ ds, d.Fits := by decide
  have hreported : TrackerDeed.reported 1 0 ds = [(2, [-3, 5]), (4, [-4, -4])] := by decide
  obtain ⟨hnone, hsome⟩ := shards_of_run ds hfits 1 0
  rw [hreported] at hnone hsome
  obtain ⟨q, hq⟩ := Option.ne_none_iff_exists'.1 (mt hnone.1 (by simp))
  obtain ⟨⟨ids, later, hcount⟩, hbeyond, hshards, -, hsnapshot, -⟩ := hsome q hq
  have hcount : q.count = 2 := by
    injection hcount with hfirst
    injection hfirst with hcount
    exact hcount.symm
  rw [hcount] at hbeyond hshards
  obtain ⟨even, heven, hmem⟩ := hshards 0 (by decide)
  obtain ⟨odd, hodd, hmem'⟩ := hshards 1 (by decide)
  refine ⟨hfits, q, hq, hcount, hbeyond 2 (by decide), ⟨even, heven, fun x => ?_⟩,
    ⟨odd, hodd, fun x => ?_⟩, fun x => ?_⟩
  · rw [hmem]
    simp
  · rw [hmem']
    simp
  · rw [hsnapshot]
    simp [or_assoc]

end BlockIdTracker

end ShuffleService
