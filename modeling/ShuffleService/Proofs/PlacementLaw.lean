import Mathlib.Data.Int.CardIntervalMod
import ShuffleService.Coordinator
import ShuffleService.Proofs.TagIndex

/-!
# Where the ranges of a shuffle are placed

The servers that can be chosen are put into an order that no two of them share a place in
(`ServerNode.Precedes`), so it does not matter in which order they are found
(`ServerNode.rank_eq_of_perm`). The ranges then take their servers one after the other on a way that
goes round and round: the place of a server on it, modulo the number of servers, is its place in the
order (`Placement.spread_eq`). That the replicas of a range are on distinct servers and that the
load is even is arithmetic modulo the number of servers (`Placement.roundRobin_spread`).

The ranges that partitions are cut into cover every partition (`exists_range_iff`), and no two of
them overlap (`pairwise_apart_cutRanges`).
-/

namespace ShuffleService

/-! ### The order of servers -/

namespace ServerNode

variable {m n : ServerNode} {ns : List ServerNode}

/-- The strict order of servers with distinct ids: more available memory first, then fewer events
in flush, then the smaller id. -/
def Precedes (m n : ServerNode) : Prop :=
  n.availableMemory < m.availableMemory ∨ m.availableMemory = n.availableMemory ∧
    (m.eventsInFlush < n.eventsInFlush ∨ m.eventsInFlush = n.eventsInFlush ∧ m.id < n.id)

theorem before_iff : m.before n = true ↔
    n.availableMemory < m.availableMemory ∨ m.availableMemory = n.availableMemory ∧
      (m.eventsInFlush < n.eventsInFlush ∨ m.eventsInFlush = n.eventsInFlush ∧ m.id ≤ n.id) := by
  simp [before]

theorem before_trans (a b c : ServerNode) (hab : a.before b = true) (hbc : b.before c = true) :
    a.before c = true := by
  rw [before_iff] at *
  have hids (h : a.id ≤ b.id) (h' : b.id ≤ c.id) : a.id ≤ c.id := String.le_trans h h'
  grind

theorem before_total (a b : ServerNode) : (a.before b || b.before a) = true := by
  rw [Bool.or_eq_true, before_iff, before_iff]
  have hids := String.le_total a.id b.id
  grind

theorem id_eq_of_before (hmn : m.before n = true) (hnm : n.before m = true) : m.id = n.id := by
  rw [before_iff] at hmn hnm
  have hids (h : m.id ≤ n.id) (h' : n.id ≤ m.id) : m.id = n.id := String.le_antisymm h h'
  grind

theorem precedes_of_before (h : m.before n = true) (hne : m.id ≠ n.id) : m.Precedes n := by
  rw [before_iff] at h
  refine h.imp_right (And.imp_right (Or.imp_right (And.imp_right fun hle => ?_)))
  exact Std.lt_of_le_of_ne hle hne

theorem rank_perm (ns : List ServerNode) : (rank ns).Perm ns := List.mergeSort_perm ns before

theorem pairwise_before_rank (ns : List ServerNode) :
    (rank ns).Pairwise fun m n => m.before n = true :=
  List.pairwise_mergeSort before_trans before_total ns

/-- Servers with distinct ids are put into strict order. -/
theorem pairwise_rank (h : (ns.map (·.id)).Nodup) : (rank ns).Pairwise Precedes := by
  have hids : ((rank ns).map (·.id)).Nodup := ((rank_perm ns).map _).nodup_iff.2 h
  rw [List.Nodup, List.pairwise_map] at hids
  exact ((pairwise_before_rank ns).and hids).imp fun h => precedes_of_before h.1 h.2

/-- There is only one way to put servers with distinct ids into order. -/
theorem eq_rank_of_pairwise {order : List ServerNode} (h : (ns.map (·.id)).Nodup)
    (hperm : order.Perm ns) (horder : order.Pairwise fun m n => m.before n = true) :
    order = rank ns := by
  refine List.Perm.eq_of_pairwise (fun a b ha hb hab hba => ?_) horder (pairwise_before_rank ns)
    (hperm.trans (rank_perm ns).symm)
  have ha : a ∈ ns := hperm.mem_iff.1 ha
  have hb : b ∈ ns := (rank_perm ns).mem_iff.1 hb
  exact List.inj_on_of_nodup_map h ha hb (id_eq_of_before hab hba)

/-- The order of servers with distinct ids does not depend on the order they are found in. -/
theorem rank_eq_of_perm {ms : List ServerNode} (h : (ns.map (·.id)).Nodup) (hperm : ms.Perm ns) :
    rank ms = rank ns :=
  eq_rank_of_pairwise h ((rank_perm ms).trans hperm) (pairwise_before_rank ms)

end ServerNode

/-! ### Cutting partitions into ranges -/

section Cut

variable {total per : Int} {r : PartitionRange}

theorem mem_cutRanges : r ∈ cutRanges total per ↔ (0 < total ∧ 0 < per) ∧
    ∃ i : Nat, i * per < total ∧ r = ⟨i * per, min (i * per + per - 1) (total - 1)⟩ := by
  unfold cutRanges
  split
  · simp only [List.not_mem_nil, false_iff]
    omega
  · rename_i h
    have hper : 0 < per := by omega
    have hcount (i : Nat) : i < ((total - 1) / per + 1).toNat ↔ i * per < total := by
      have hdiv := Int.le_ediv_iff_mul_le (a := i) (b := total - 1) hper
      have hpos : 0 ≤ (total - 1) / per := Int.ediv_nonneg (by omega) (by omega)
      omega
    simp only [List.mem_map, List.mem_range, hcount]
    constructor
    · rintro ⟨i, hi, rfl⟩
      exact ⟨by omega, i, hi, rfl⟩
    · rintro ⟨-, i, hi, rfl⟩
      exact ⟨i, hi, rfl⟩

theorem cutRanges_eq_nil : cutRanges total per = [] ↔ total ≤ 0 ∨ per ≤ 0 := by
  rw [List.eq_nil_iff_forall_not_mem]
  constructor
  · intro h
    by_contra hpos
    exact h _ (mem_cutRanges.2 ⟨by omega, 0, by omega, rfl⟩)
  · rintro h r hr
    have := (mem_cutRanges.1 hr).1
    omega

/-- The ranges cover the partitions, and nothing else. -/
theorem exists_range_iff (hper : 0 < per) {x : Int} :
    (∃ r ∈ cutRanges total per, x ∈ r) ↔ 0 ≤ x ∧ x < total := by
  constructor
  · rintro ⟨r, hr, hx⟩
    obtain ⟨-, i, -, rfl⟩ := mem_cutRanges.1 hr
    have hstart : 0 ≤ (i : Int) * per := Int.mul_nonneg (Int.natCast_nonneg i) (by omega)
    rw [PartitionRange.mem_def] at hx
    dsimp only at hx
    omega
  · rintro ⟨hx, hlt⟩
    -- the partition is in the range whose number is its quotient
    obtain ⟨i, hi⟩ := Int.eq_ofNat_of_zero_le (Int.ediv_nonneg hx (Int.le_of_lt hper))
    have hstart : (i : Int) * per ≤ x := hi ▸ Int.ediv_mul_le x (by omega)
    have hend : x < (i + 1 : Int) * per := hi ▸ Int.lt_ediv_add_one_mul_self x hper
    rw [Int.add_mul, Int.one_mul] at hend
    refine ⟨_, mem_cutRanges.2 ⟨by omega, i, by omega, rfl⟩, ?_⟩
    rw [PartitionRange.mem_def]
    dsimp only
    omega

/-- No two ranges overlap. -/
theorem pairwise_apart_cutRanges (total per : Int) :
    (cutRanges total per).Pairwise fun r s => r.last < s.first := by
  unfold cutRanges
  split
  · exact .nil
  · rename_i h
    rw [List.pairwise_map]
    refine List.pairwise_lt_range.imp fun {i j} hij => ?_
    have hnext : (i + 1 : Int) * per ≤ j * per :=
      Int.mul_le_mul_of_nonneg_right (by omega) (by omega)
    rw [Int.add_mul, Int.one_mul] at hnext
    dsimp only
    omega

/-- Each range has a partition. -/
theorem first_le_last_of_mem_cutRanges (h : r ∈ cutRanges total per) : r.first ≤ r.last := by
  obtain ⟨hpos, i, hi, rfl⟩ := mem_cutRanges.1 h
  dsimp only
  omega

/-- The ranges start one after the other. -/
theorem pairwise_cutRanges (total per : Int) :
    (cutRanges total per).Pairwise fun r s => r.first < s.first :=
  (pairwise_apart_cutRanges total per).imp_of_mem fun hr _ hapart =>
    Int.lt_of_le_of_lt (first_le_last_of_mem_cutRanges hr) hapart

/-- Of ranges that do not overlap, at most one has a partition. -/
theorem countP_contains_le_one {rs : List PartitionRange}
    (h : rs.Pairwise fun q r => q.last < r.first) (x : Int) :
    rs.countP (·.contains x) ≤ 1 := by
  induction h with
  | nil => exact Nat.zero_le 1
  | @cons q rs hq h ih =>
    rw [List.countP_cons]
    split
    · rename_i hx
      rw [PartitionRange.contains_iff, PartitionRange.mem_def] at hx
      have hnone : rs.countP (·.contains x) = 0 := by
        rw [List.countP_eq_zero]
        intro r hr hx'
        rw [PartitionRange.contains_iff, PartitionRange.mem_def] at hx'
        have := hq r hr
        omega
      omega
    · exact ih

end Cut

/-! ### The way round -/

namespace Placement

variable {servers : List ServerNode} {replica : Nat} {ranges : List PartitionRange}

/-- The server at a place on the way round. -/
def stop (servers : List ServerNode) (hn : 0 < servers.length) (k : Nat) : ServerNode :=
  servers.get ⟨k % servers.length, Nat.mod_lt k hn⟩

/-- From any place on, the way goes over the stops that follow it. -/
theorem goRound_eq (hn : 0 < servers.length) (count k : Nat) :
    goRound servers count (k % servers.length) =
      ((List.range' k count).map (stop servers hn), (k + count) % servers.length) := by
  induction count generalizing k with
  | zero => rfl
  | succ count ih =>
    have hfirst : servers[k % servers.length]? = some (stop servers hn k) :=
      List.getElem?_eq_getElem _
    rw [goRound, Nat.mod_add_mod, ih, hfirst, List.range'_succ, Nat.add_assoc, Nat.add_comm 1]
    rfl

/-- A range takes its servers from where the ranges before it have stopped. -/
theorem spread_eq (hn : 0 < servers.length) (k : Nat) :
    spread servers replica (k % servers.length) ranges = ranges.mapIdx fun i r =>
      (r, (List.range' (k + i * replica) replica).map (stop servers hn)) := by
  induction ranges generalizing k with
  | nil => rfl
  | cons r rs ih =>
    rw [spread, goRound_eq hn]
    dsimp only
    rw [ih, List.mapIdx_cons, Nat.zero_mul, Nat.add_zero]
    simp only [Nat.succ_mul, Nat.add_assoc, Nat.add_comm replica]

/-- All servers of all ranges, in turn, are the stops on the way. -/
theorem slots_spread (hn : 0 < servers.length) (k : Nat) :
    (spread servers replica (k % servers.length) ranges).flatMap (·.2) =
      (List.range' k (ranges.length * replica)).map (stop servers hn) := by
  induction ranges generalizing k with
  | nil => simp [spread]
  | cons r rs ih =>
    rw [spread, goRound_eq hn]
    dsimp only
    rw [List.flatMap_cons, ih, ← List.map_append, List.range'_append_1,
      List.length_cons, Nat.succ_mul, Nat.add_comm replica]

/-- Which server gets which slot, and what follows for the replicas of a range and for the load. -/
structure RoundRobin (servers : List ServerNode) (replica : Nat) (ranges : List PartitionRange)
    (p : Placement) : Prop where
  ranges : p.map (·.1) = ranges
  slot : ∀ i r chosen, p[i]? = some (r, chosen) → chosen.length = replica ∧
    ∀ j < replica, chosen[j]? = servers[(i * replica + j) % servers.length]?
  distinct : ∀ e ∈ p, (e.2.map (·.id)).Nodup
  used : ∃ k, ∀ n, n ∈ p.flatMap (·.2) ↔ n ∈ servers.take k
  even : ∀ m ∈ servers, ∀ n ∈ servers,
    (p.flatMap (·.2)).count m ≤ (p.flatMap (·.2)).count n + 1

theorem stop_mem (hn : 0 < servers.length) (k : Nat) : stop servers hn k ∈ servers :=
  List.get_mem ..

/-- The first time round the stops are the servers in their order. -/
theorem stop_of_lt (hn : 0 < servers.length) {k : Nat} (hk : k < servers.length) :
    stop servers hn k = servers[k] := by
  unfold stop
  simp [Nat.mod_eq_of_lt hk]

/-- The way comes to the same server at places that differ by a multiple of the number of
servers. -/
theorem stop_eq_iff (hn : 0 < servers.length) (hnodup : servers.Nodup) (k l : Nat) :
    stop servers hn k = stop servers hn l ↔ k ≡ l [MOD servers.length] := by
  unfold stop
  rw [List.Nodup.get_inj_iff hnodup, Fin.mk.injEq]
  rfl

/-- No more stops in a row than there are servers are at distinct servers. -/
theorem nodup_stops (hn : 0 < servers.length) (hids : (servers.map (·.id)).Nodup)
    (hreplica : replica ≤ servers.length) (k : Nat) :
    (((List.range' k replica).map (stop servers hn)).map (·.id)).Nodup := by
  rw [List.range'_eq_map_range, List.map_map, List.map_map]
  refine List.Nodup.map_on (fun i hi j hj hij => ?_) List.nodup_range
  rw [List.mem_range] at hi hj
  have hstop := List.inj_on_of_nodup_map hids (stop_mem hn _) (stop_mem hn _) hij
  have hmod : k + i ≡ k + j [MOD servers.length] := (stop_eq_iff hn (.of_map _ hids) _ _).1 hstop
  exact hmod.add_left_cancel'.eq_of_lt_of_lt (by omega) (by omega)

/-- The first stops come to the servers by turns. -/
theorem count_stops (hn : 0 < servers.length) (hnodup : servers.Nodup) (k m : Nat) :
    ((List.range m).map (stop servers hn)).count (stop servers hn k) =
      m / servers.length + if k % servers.length < m % servers.length then 1 else 0 := by
  rw [← Nat.count_modEq_card m hn, Nat.count, List.count, List.countP_map]
  refine List.countP_congr fun l _ => ?_
  rw [Function.comp_apply, beq_iff_eq, decide_eq_true_eq, stop_eq_iff hn hnodup]

/-- The servers that the first stops come to are the first servers. -/
theorem mem_stops (hn : 0 < servers.length) (m : Nat) (n : ServerNode) :
    n ∈ (List.range m).map (stop servers hn) ↔ n ∈ servers.take m := by
  rw [List.mem_map, List.mem_take_iff_getElem]
  constructor
  · rintro ⟨k, hk, rfl⟩
    rw [List.mem_range] at hk
    have hle := Nat.mod_le k servers.length
    have hlt := Nat.mod_lt k hn
    exact ⟨k % servers.length, by omega, rfl⟩
  · rintro ⟨i, hi, rfl⟩
    exact ⟨i, List.mem_range.2 (by omega), stop_of_lt hn (by omega)⟩

/-- Ranges that are given their servers in turn are placed evenly and on distinct servers. -/
theorem roundRobin_spread (hn : 0 < servers.length) (hids : (servers.map (·.id)).Nodup)
    (hreplica : replica ≤ servers.length) (ranges : List PartitionRange) :
    RoundRobin servers replica ranges (spread servers replica 0 ranges) := by
  have hspread : spread servers replica 0 ranges = ranges.mapIdx fun i r =>
      (r, (List.range' (0 + i * replica) replica).map (stop servers hn)) := by
    rw [← spread_eq, Nat.zero_mod]
  have hslots : (spread servers replica 0 ranges).flatMap (·.2) =
      (List.range (ranges.length * replica)).map (stop servers hn) := by
    rw [List.range_eq_range', ← slots_spread, Nat.zero_mod]
  have hnodup : servers.Nodup := .of_map _ hids
  constructor
  case ranges =>
    rw [hspread]
    apply List.ext_getElem?
    intro i
    rw [List.getElem?_map, List.getElem?_mapIdx, Option.map_map]
    exact Option.map_id'
  case slot =>
    intro i r chosen h
    rw [hspread, List.getElem?_mapIdx] at h
    obtain ⟨r', -, hr'⟩ := Option.map_eq_some_iff.1 h
    cases hr'
    refine ⟨by simp, fun j hj => ?_⟩
    rw [List.getElem?_map, List.getElem?_range' hj, Nat.one_mul, Nat.zero_add]
    exact (List.getElem?_eq_getElem _).symm
  case distinct =>
    intro e he
    rw [hspread, List.mem_mapIdx] at he
    obtain ⟨i, hi, rfl⟩ := he
    exact nodup_stops hn hids hreplica _
  case used => exact ⟨ranges.length * replica, fun n => hslots ▸ mem_stops hn _ n⟩
  case even =>
    intro m hm n hn'
    obtain ⟨k, hk, rfl⟩ := List.mem_iff_getElem.1 hm
    obtain ⟨l, hl, rfl⟩ := List.mem_iff_getElem.1 hn'
    rw [hslots, ← stop_of_lt hn hk, ← stop_of_lt hn hl, count_stops hn hnodup,
      count_stops hn hnodup]
    split <;> split <;> omega

/-- When each of the outcomes occurs: no servers, fewer servers than replicas, or a placement. -/
theorem place_outcomes (eligible : List ServerNode) (most : Nat) (ranges : List PartitionRange)
    (replica : Nat) :
    let servers := (ServerNode.rank eligible).take most
    let outcome := place eligible most ranges replica
    (outcome = .error .noServers ↔ servers.length = 0) ∧
    (∀ a b, outcome = .error (.tooFewServers a b) ↔
      (0 < servers.length ∧ servers.length < replica) ∧ a = replica ∧ b = servers.length) ∧
    ((∃ p, outcome = .ok p) ↔ 0 < servers.length ∧ replica ≤ servers.length) ∧
    ∀ p, outcome = .ok p → p = spread servers replica 0 ranges := by
  intro servers outcome
  have houtcome : outcome = if servers.isEmpty then .error .noServers
    else if servers.length < replica then .error (.tooFewServers replica servers.length)
    else .ok (spread servers replica 0 ranges) := rfl
  simp only [List.isEmpty_iff_length_eq_zero] at houtcome
  rw [houtcome]
  by_cases hnone : servers.length = 0
  · simp [hnone]
  · have hpos : 0 < servers.length := by omega
    by_cases hfew : servers.length < replica
    · simp [hnone, hfew, hpos, eq_comm]
    · simp [hnone, hfew, hpos, Nat.le_of_not_lt hfew]

/-- The order in which servers with distinct ids are found makes no difference. -/
theorem place_eq_of_perm {ms ns : List ServerNode} (h : (ns.map (·.id)).Nodup) (hperm : ms.Perm ns)
    (most : Nat) (ranges : List PartitionRange) (replica : Nat) :
    place ms most ranges replica = place ns most ranges replica := by
  unfold place
  rw [ServerNode.rank_eq_of_perm h hperm]

end Placement

namespace Coordinator

/-- **Where the ranges of a shuffle are placed.** Take any coordinator, with a cluster that any
heartbeats, looks for silent servers and looks at the exclude file have led to. The servers that can
be chosen are put into strict order, and as many of the first as may be used for a shuffle are
taken. There is no placement just if this leaves no server, or fewer than replicas. Otherwise the
ranges take their servers by turns. The order in which the servers are found makes no difference. -/
theorem place_by_turns (timeout : Int) (es : List ClusterEvent) (k : Coordinator)
    (total per : Int) (replica : Nat) (required : NameSet) :
    let c := { k with cluster := Cluster.run timeout es }
    let order := ServerNode.rank (c.eligible required)
    let servers := order.take (min c.serversPerShuffle order.length)
    let outcome := c.place total per replica required
    (order.Perm (c.eligible required) ∧ order.Pairwise ServerNode.Precedes) ∧
    (∀ ns, ns.Perm (c.eligible required) →
      Placement.place ns c.serversPerShuffle (cutRanges total per) replica = outcome) ∧
    (outcome = .error .noServers ↔ servers.length = 0) ∧
    (∀ a b, outcome = .error (.tooFewServers a b) ↔
      (0 < servers.length ∧ servers.length < replica) ∧ a = replica ∧ b = servers.length) ∧
    ((∃ p, outcome = .ok p) ↔ 0 < servers.length ∧ replica ≤ servers.length) ∧
    (cutRanges total per).Pairwise (fun r s => r.first < s.first) ∧
    ∀ p, outcome = .ok p → p.RoundRobin servers replica (cutRanges total per) := by
  intro c order servers outcome
  have hids : ((c.eligible required).map (·.id)).Nodup :=
    (Cluster.indexed_run timeout es).nodup_eligible
  have hservers : order.take c.serversPerShuffle = servers := List.take_eq_take_min
  have hdistinct : (servers.map (·.id)).Nodup := by
    have horder : (order.map (·.id)).Nodup := ((ServerNode.rank_perm _).map _).nodup_iff.2 hids
    exact ((List.take_sublist _ _).map _).nodup horder
  obtain ⟨hnone, hfew, hsome, hplaced⟩ := Placement.place_outcomes (c.eligible required)
    c.serversPerShuffle (cutRanges total per) replica
  rw [hservers] at hnone hfew hsome hplaced
  refine ⟨⟨ServerNode.rank_perm _, ServerNode.pairwise_rank hids⟩, fun ns hns => ?_, hnone, hfew,
    hsome, pairwise_cutRanges total per, fun p hp => ?_⟩
  · show Placement.place _ _ _ _ = Placement.place _ _ _ _
    unfold Placement.place
    rw [ServerNode.rank_eq_of_perm hids hns]
  · obtain ⟨hpos, hreplica⟩ := hsome.1 ⟨p, hp⟩
    rw [hplaced p hp]
    exact Placement.roundRobin_spread hpos hdistinct hreplica _

end Coordinator

end ShuffleService
