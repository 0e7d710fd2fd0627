import Mathlib.Algebra.Order.Ring.Int
import ShuffleService.CoordinatorClient
import ShuffleService.Proofs.PlacementLaw

/-!
# The placement that a client reads

A client reads an answer in two ways at once: it enters the servers of a range under each of its
partitions, and the range under each of its servers. As the ranges of an answer do not overlap and
none names a server twice, both tables can be read off the answer alone (`ShufflePlacement.Read`),
and each is the inverse of the other (`Read.twoWay`). A coordinator cuts partitions into ranges that
cover each of them once, so its answer tells the client where every partition is
(`Coordinator.client_placement`).
-/

namespace ShuffleService

/-! ### Reading an answer -/

namespace ShufflePlacement

variable {es : List (PartitionRange × List ServerId)} {r : PartitionRange} {ss : List ServerId}
  {s : ServerId} {x : Int}

/-- The placement that an answer tells of. -/
def gather (es : List (PartitionRange × List ServerId)) : ShufflePlacement :=
  es.foldl (fun p (range, servers) => p.addRange range servers) empty

theorem gather_concat : gather (es ++ [(r, ss)]) = (gather es).addRange r ss := by
  unfold gather
  rw [List.foldl_append]
  rfl

/-- The ranges that an answer gives to a server, in order. -/
def held (s : ServerId) (es : List (PartitionRange × List ServerId)) : List PartitionRange :=
  (es.filter (s ∈ ·.2)).map (·.1)

theorem held_concat : held s (es ++ [(r, ss)]) = held s es ++ if s ∈ ss then [r] else [] := by
  unfold held
  rw [List.filter_append, List.map_append]
  split <;> simp [*]

/-- An answer is in order: the ranges have partitions and do not overlap, and each has servers, none
of them named twice. -/
structure Sound (es : List (PartitionRange × List ServerId)) : Prop where
  apart : es.Pairwise fun e f => e.1.last < f.1.first
  some_partition : ∀ e ∈ es, e.1.first ≤ e.1.last
  some_server : ∀ e ∈ es, e.2 ≠ []
  distinct : ∀ e ∈ es, e.2.Nodup

theorem Sound.init {e : PartitionRange × List ServerId} (h : Sound (es ++ [e])) : Sound es where
  apart := (List.pairwise_append.1 h.apart).1
  some_partition := fun f hf => h.some_partition f (List.mem_append_left _ hf)
  some_server := fun f hf => h.some_server f (List.mem_append_left _ hf)
  distinct := fun f hf => h.distinct f (List.mem_append_left _ hf)

/-- What both tables say: the servers of a partition are those of its range, and the ranges of a
server are those that name it. -/
structure Read (es : List (PartitionRange × List ServerId)) (p : ShufflePlacement) : Prop where
  servers : ∀ x ss, p.servers.find? x = some ss ↔ ∃ r, (r, ss) ∈ es ∧ x ∈ r
  ranges : ∀ s rs, p.ranges.find? s = some rs ↔ rs = held s es ∧ rs ≠ []

theorem find?_enter (partitions : List Int) (t : Table Int (List ServerId)) :
    (partitions.foldl (fun t partition => t.insert partition ss) t).find? x =
      if x ∈ partitions then some ss else t.find? x := by
  induction partitions generalizing t with
  | nil => simp
  | cons y ys ih =>
    rw [List.foldl_cons, ih, Table.find?_insert]
    by_cases hx : x = y <;> simp [hx]

theorem find?_append (hnodup : ss.Nodup) (t : Table ServerId (List PartitionRange)) :
    (ss.foldl (fun t s => t.insert s (((t.find? s).getD []) ++ [r])) t).find? s =
      if s ∈ ss then some ((t.find? s).getD [] ++ [r]) else t.find? s := by
  induction ss generalizing t with
  | nil => simp
  | cons u us ih =>
    rw [List.nodup_cons] at hnodup
    rw [List.foldl_cons, ih hnodup.2, Table.find?_insert]
    by_cases hs : s = u
    · subst hs
      simp [hnodup.1]
    · simp [hs]

theorem Read.getD_ranges {p : ShufflePlacement} (h : Read es p) :
    (p.ranges.find? s).getD [] = held s es := by
  cases hfind : p.ranges.find? s with
  | some rs => exact ((h.ranges s rs).1 hfind).1
  | none =>
    by_contra hne
    have hsome := (h.ranges s (held s es)).2 ⟨rfl, Ne.symm hne⟩
    cases hfind.symm.trans hsome

/-- An entry of an answer is entered in both tables. -/
theorem Read.addRange {p : ShufflePlacement} (h : Read es p) (hes : Sound (es ++ [(r, ss)])) :
    Read (es ++ [(r, ss)]) (p.addRange r ss) := by
  have hlast : (r, ss) ∈ es ++ [(r, ss)] := List.mem_append_right _ (List.mem_singleton_self _)
  have hsome : ss ≠ [] := hes.some_server _ hlast
  have hnodup : ss.Nodup := hes.distinct _ hlast
  constructor
  case servers =>
    intro x us
    have hfind : (p.addRange r ss).servers.find? x =
        if x ∈ r.toList then some ss else p.servers.find? x := by
      rw [ShufflePlacement.addRange]
      dsimp only
      rw [if_neg (by simpa using hsome), find?_enter]
    rw [hfind]
    split
    · -- no range before has a partition of this one
      rename_i hx
      rw [PartitionRange.mem_toList] at hx
      have hbefore : ∀ q, (q, us) ∈ es → x ∉ q := by
        intro q hq hx'
        have hapart : q.last < r.first :=
          (List.pairwise_append.1 hes.apart).2.2 (q, us) hq (r, ss) (List.mem_singleton_self _)
        rw [PartitionRange.mem_def] at hx hx'
        omega
      grind
    · rename_i hx
      rw [PartitionRange.mem_toList] at hx
      rw [h.servers x us]
      grind
  case ranges =>
    intro s rs
    have hfind : (p.addRange r ss).ranges.find? s =
        if s ∈ ss then some (held s es ++ [r]) else p.ranges.find? s := by
      rw [← h.getD_ranges]
      exact find?_append hnodup p.ranges
    rw [hfind, held_concat]
    split
    · rw [Option.some.injEq]
      constructor
      · rintro rfl
        exact ⟨rfl, by simp⟩
      · exact fun hrs => hrs.1.symm
    · rw [List.append_nil]
      exact h.ranges s rs

theorem read_gather (h : Sound es) : Read es (gather es) := by
  induction es using List.reverseRecOn with
  | nil => exact ⟨fun x ss => by simp [gather, empty], fun s rs => by simp [gather, empty, held]⟩
  | append_singleton es e ih =>
    rw [gather_concat]
    exact (ih h.init).addRange h

theorem Sound.pairwise_held (h : Sound es) (s : ServerId) :
    (held s es).Pairwise fun q r => q.last < r.first :=
  List.pairwise_map.2 (h.apart.filter _)

theorem Sound.first_le_last_of_held (h : Sound es) (hr : r ∈ held s es) : r.first ≤ r.last := by
  obtain ⟨e, he, rfl⟩ := List.mem_map.1 hr
  exact h.some_partition e (List.mem_filter.1 he).1

/-- Each of the two tables is the inverse of the other: a server is among those of a partition just
if exactly one of its ranges has the partition, and otherwise none has. -/
structure TwoWay (p : ShufflePlacement) : Prop where
  inverse : ∀ s x, ((p.ranges.find? s).getD []).countP (·.contains x) =
    if s ∈ (p.servers.find? x).getD [] then 1 else 0
  ascending : ∀ s rs, p.ranges.find? s = some rs → rs.Pairwise fun q r => q.first < r.first
  used : ∀ s, p.ranges.contains s = true ↔ ∃ x, s ∈ (p.servers.find? x).getD []

theorem Read.mem_servers {p : ShufflePlacement} (h : Read es p) :
    s ∈ (p.servers.find? x).getD [] ↔ ∃ r ∈ held s es, x ∈ r := by
  have hheld : (∃ r ∈ held s es, x ∈ r) ↔ ∃ ss, p.servers.find? x = some ss ∧ s ∈ ss := by
    simp only [h.servers, held, List.mem_map, List.mem_filter, decide_eq_true_eq]
    grind
  rw [hheld]
  cases p.servers.find? x <;> simp

theorem Read.contains_servers {p : ShufflePlacement} (h : Read es p) :
    p.servers.contains x = true ↔ ∃ r ∈ es.map (·.1), x ∈ r := by
  rw [Table.contains, Option.isSome_iff_exists]
  simp only [h.servers, List.mem_map]
  grind

theorem Read.twoWay {p : ShufflePlacement} (h : Read es p) (hes : Sound es) : TwoWay p where
  inverse s x := by
    rw [h.getD_ranges]
    have hle := countP_contains_le_one (hes.pairwise_held s) x
    have hpos : 0 < (held s es).countP (·.contains x) ↔ s ∈ (p.servers.find? x).getD [] := by
      rw [List.countP_pos_iff, h.mem_servers]
      simp only [PartitionRange.contains_iff]
    split
    · have := hpos.2 ‹_›
      omega
    · have := mt hpos.1 ‹_›
      omega
  ascending s rs hrs := by
    obtain ⟨rfl, -⟩ := (h.ranges s rs).1 hrs
    refine (hes.pairwise_held s).imp_of_mem fun hq _ hlt => ?_
    exact Int.lt_of_le_of_lt (hes.first_le_last_of_held hq) hlt
  used s := by
    simp only [h.mem_servers, Table.contains, Option.isSome_iff_exists, h.ranges]
    constructor
    · rintro ⟨rs, rfl, hne⟩
      obtain ⟨r, hr⟩ := List.exists_mem_of_ne_nil _ hne
      exact ⟨r.first, r, hr, Int.le_refl _, hes.first_le_last_of_held hr⟩
    · rintro ⟨x, r, hr, -⟩
      exact ⟨_, rfl, List.ne_nil_of_mem hr⟩

/-- An answer without ranges is none. -/
theorem ofRanges_eq (h : Sound es) :
    ofRanges es = if es = [] then .error .emptyAssignment else .ok (gather es) := by
  have hsize : (gather es).servers.size = 0 ↔ es = [] := by
    constructor
    · intro hzero
      rw [List.eq_nil_iff_forall_not_mem]
      rintro ⟨r, ss⟩ he
      have hfind := ((read_gather h).servers r.first ss).2
        ⟨r, he, Int.le_refl _, h.some_partition _ he⟩
      have hmem := Table.find?_eq_some_iff.1 hfind
      exact List.ne_nil_of_mem hmem (List.eq_nil_of_length_eq_zero hzero)
    · rintro rfl
      rfl
  show (if (gather es).servers.size = 0 then _ else _) = _
  simp only [hsize]
  rfl

end ShufflePlacement

/-! ### What a coordinator answers -/

namespace Placement

variable {servers : List ServerNode} {replica : Nat} {total per : Int} {p : Placement}

theorem RoundRobin.length_servers (h : RoundRobin servers replica (cutRanges total per) p)
    {e : PartitionRange × List ServerNode} (he : e ∈ p) : e.2.length = replica := by
  obtain ⟨i, hi⟩ := List.getElem?_of_mem he
  exact (h.slot i e.1 e.2 hi).1

theorem RoundRobin.ranges_serverIds (h : RoundRobin servers replica (cutRanges total per) p) :
    p.serverIds.map (·.1) = cutRanges total per := by
  rw [← h.ranges, serverIds, List.map_map]
  rfl

/-- The answer that tells of a placement by turns is in order. -/
theorem RoundRobin.sound (h : RoundRobin servers replica (cutRanges total per) p)
    (hreplica : 0 < replica) : ShufflePlacement.Sound p.serverIds where
  apart := by
    have hapart := pairwise_apart_cutRanges total per
    rwa [← h.ranges_serverIds, List.pairwise_map] at hapart
  some_partition := by
    intro e he
    exact first_le_last_of_mem_cutRanges (h.ranges_serverIds ▸ List.mem_map_of_mem he)
  some_server := by
    rw [serverIds, List.forall_mem_map]
    intro e he hnil
    have hlength := h.length_servers he
    rw [List.map_eq_nil_iff.1 hnil, List.length_nil] at hlength
    omega
  distinct := by
    rw [serverIds, List.forall_mem_map]
    intro e he
    refine List.Nodup.of_map (fun s : ServerId => s.id) ?_
    rw [List.map_map]
    exact h.distinct e he

/-- A client that reads of a placement by turns finds every partition with its replicas. -/
theorem RoundRobin.client_finds (h : RoundRobin servers replica (cutRanges total per) p)
    (hreplica : 0 < replica) (hper : 0 < per) (x : Int) :
    let found := (ShufflePlacement.gather p.serverIds).servers
    (found.contains x = true ↔ 0 ≤ x ∧ x < total) ∧
    ∀ ss, found.find? x = some ss → ss.length = replica ∧ ss.Nodup := by
  have hsound := h.sound hreplica
  have hread := ShufflePlacement.read_gather hsound
  dsimp only
  refine ⟨?_, fun ss hss => ?_⟩
  · rw [hread.contains_servers, h.ranges_serverIds, exists_range_iff hper]
  · obtain ⟨r, hr, -⟩ := (hread.servers x ss).1 hss
    refine ⟨?_, hsound.distinct _ hr⟩
    obtain ⟨e, he, heq⟩ := List.mem_map.1 hr
    cases heq
    exact (List.length_map _).trans (h.length_servers he)

/-- A placement by turns is empty just if there are no ranges. -/
theorem RoundRobin.serverIds_eq_nil (h : RoundRobin servers replica (cutRanges total per) p) :
    p.serverIds = [] ↔ total ≤ 0 ∨ per ≤ 0 := by
  rw [← cutRanges_eq_nil, ← h.ranges_serverIds, List.map_eq_nil_iff]

end Placement

namespace Coordinator

variable {c : Coordinator} {q : PlacementRequest}

/-- A shuffle is placed by turns if the servers that may be used are as many as its replicas. -/
theorem place_cases {required : NameSet} (hids : ((c.eligible required).map (·.id)).Nodup)
    (total per : Int) {replica : Nat} (hreplica : 0 < replica) :
    let count := min c.serversPerShuffle (c.eligible required).length
    (count < replica ∧ ∃ e, c.place total per replica required = .error e) ∨
    (replica ≤ count ∧ ∃ servers, ∃ p : Placement,
      p.RoundRobin servers replica (cutRanges total per) ∧
        c.place total per replica required = .ok p) := by
  intro count
  have hperm := ServerNode.rank_perm (c.eligible required)
  have hdistinct : ((ServerNode.rank (c.eligible required)).map (·.id)).Nodup :=
    (hperm.map _).nodup_iff.2 hids
  have hcount :
      ((ServerNode.rank (c.eligible required)).take c.serversPerShuffle).length = count := by
    rw [List.length_take, hperm.length_eq]
  obtain ⟨-, -, hsome, hplaced⟩ := Placement.place_outcomes (c.eligible required)
    c.serversPerShuffle (cutRanges total per) replica
  rw [hcount] at hsome
  cases hplace : c.place total per replica required with
  | error e =>
    refine .inl ⟨?_, e, rfl⟩
    have hnone := mt hsome.2 fun ⟨p, hp⟩ => nomatch hplace.symm.trans hp
    omega
  | ok p =>
    have hpos := hsome.1 ⟨p, hplace⟩
    rw [← hcount] at hpos
    refine .inr ⟨hcount ▸ hpos.2, (ServerNode.rank (c.eligible required)).take c.serversPerShuffle,
      p, ?_, rfl⟩
    rw [hplaced p hplace]
    exact Placement.roundRobin_spread hpos.1
      (((List.take_sublist _ _).map _).nodup hdistinct) hpos.2 _

/-- A sign of life of an app changes no placement. -/
theorem place_refreshApp (app : String) : (c.refreshApp app).place = c.place := by
  rw [refreshApp_eq]
  rfl

/-- The reply to a request with a number of replicas that makes sense. -/
theorem reply_of_pos (hreplica : 0 < q.replica) : (c.placeShuffle q).1 =
    match c.place q.partitions q.partitionsPerRange q.replica.toNat q.tags with
    | .ok p => ⟨.success, "", p.serverIds⟩
    | .error e => ⟨.internalError, s!"Cannot place shuffle, retry later. {e.message}", []⟩ := by
  unfold placeShuffle
  rw [if_neg (by omega)]
  dsimp only
  rw [place_refreshApp]
  cases c.place q.partitions q.partitionsPerRange q.replica.toNat q.tags <;> rfl

/-- When a request is answered: a number of replicas that makes sense asks for the time of day. -/
theorem placeShuffle?_eq : c.placeShuffle? q =
    if 0 ≤ c.clock ∨ q.replica ≤ 0 then some (c.placeShuffle q) else none := by
  unfold placeShuffle? timed?
  by_cases hreplica : q.replica ≤ 0 <;> simp [hreplica]

/-- What a client reads that gets its answer in time: that the replicas cannot be had, that there is
no partition, or a placement by turns. -/
theorem read_cases (hids : ((c.eligible q.tags).map (·.id)).Nodup) {limit delay : Nat}
    (hdelay : delay ≤ limit) :
    let count : Nat := min c.serversPerShuffle (c.eligible q.tags).length
    let reply := (c.placeShuffle q).1
    let outcome := Rpc.placement limit ⟨delay, .ok reply⟩
    ((q.replica ≤ 0 ∨ count < q.replica) ∧
      outcome = .error (.rpcFailed .internalError reply.message)) ∨
    (0 < q.replica ∧ q.replica ≤ count) ∧ ∃ servers, ∃ p : Placement,
      p.RoundRobin servers q.replica.toNat (cutRanges q.partitions q.partitionsPerRange) ∧
        outcome = ShufflePlacement.ofRanges p.serverIds := by
  intro count reply outcome
  have houtcome : outcome =
      if reply.status.isSuccess then ShufflePlacement.ofRanges reply.ranges
      else .error (.rpcFailed reply.status reply.message) := by
    show Rpc.placement _ _ = _
    unfold Rpc.placement Rpc.receive
    rw [if_neg (Nat.not_lt.2 hdelay)]
  by_cases hreplica : q.replica ≤ 0
  · have hreply : reply = ⟨.internalError, s!"Illegal replica: {q.replica}", []⟩ := by
      show (c.placeShuffle q).1 = _
      rw [placeShuffle_of_nonpos hreplica]
    exact .inl ⟨.inl hreplica, by rw [houtcome, hreply]; rfl⟩
  · have hreply := reply_of_pos (c := c) (show 0 < q.replica by omega)
    obtain ⟨hfew, e, hplace⟩ | ⟨hmany, servers, p, hturns, hplace⟩ := place_cases hids
      q.partitions q.partitionsPerRange (show 0 < q.replica.toNat by omega)
    all_goals rw [hplace] at hreply
    · refine .inl ⟨.inr (by omega), ?_⟩
      rw [houtcome, show reply = _ from hreply]
      rfl
    · refine .inr ⟨by omega, servers, p, hturns, ?_⟩
      rw [houtcome, show reply = _ from hreply]
      rfl

/-- **What a client reads of a placement.** Take any coordinator, with a cluster that any
heartbeats, looks for silent servers and looks at the exclude file have led to, and a request that
it answers within the client's time limit. The client gets a placement just if all numbers asked
for are positive and the servers that may be used are as many as the replicas. The coordinator's
failure is passed on if it is the replicas that cannot be had, and there is no placement if it is
only the partitions that are none. A placement has exactly the partitions from 0 on, each on as
many distinct servers as asked for, and its two tables are the inverse of each other. -/
theorem client_placement (timeout : Int) (es : List ClusterEvent) (k : Coordinator)
    (q : PlacementRequest) :
    let c := { k with cluster := Cluster.run timeout es }
    let count : Nat := min c.serversPerShuffle (c.eligible q.tags).length
    ((∃ a, c.placeShuffle? q = some a) ↔ 0 ≤ c.clock ∨ q.replica ≤ 0) ∧
    ∀ reply after limit delay, c.placeShuffle? q = some (reply, after) → delay ≤ limit →
      let outcome := Rpc.placement limit ⟨delay, .ok reply⟩
      ((∃ p, outcome = .ok p) ↔ 0 < q.replica ∧ 0 < q.partitions ∧ 0 < q.partitionsPerRange ∧
        q.replica ≤ count) ∧
      (outcome = .error (.rpcFailed .internalError reply.message) ↔
        q.replica ≤ 0 ∨ count < q.replica) ∧
      (outcome = .error .emptyAssignment ↔ (0 < q.replica ∧ q.replica ≤ count) ∧
        (q.partitions ≤ 0 ∨ q.partitionsPerRange ≤ 0)) ∧
      ∀ p, outcome = .ok p →
        (∀ x, p.servers.contains x = true ↔ 0 ≤ x ∧ x < q.partitions) ∧
        (∀ x ss, p.servers.find? x = some ss → ss.length = q.replica ∧ ss.Nodup) ∧ p.TwoWay := by
  intro c count
  rw [placeShuffle?_eq]
  refine ⟨by split <;> simp [*], fun reply after limit delay hreply hdelay => ?_⟩
  have hreply : (c.placeShuffle q).1 = reply := by
    split at hreply
    · exact congrArg Prod.fst (Option.some.inj hreply)
    · cases hreply
  intro outcome
  have hids : ((c.eligible q.tags).map (·.id)).Nodup :=
    (Cluster.indexed_run timeout es).nodup_eligible
  have hcases := read_cases hids hdelay
  rw [hreply] at hcases
  obtain ⟨hfail, houtcome⟩ | ⟨hok, servers, p, hturns, houtcome⟩ := hcases
  all_goals rw [show outcome = _ from houtcome]
  case inl =>
    exact ⟨iff_of_false (by simp) (by omega), iff_of_true rfl hfail,
      iff_of_false (by simp) (by omega), by simp⟩
  case inr =>
    have hreplica : 0 < q.replica.toNat := by omega
    have hsound := hturns.sound hreplica
    rw [ShufflePlacement.ofRanges_eq hsound]
    simp only [hturns.serverIds_eq_nil]
    by_cases hnone : q.partitions ≤ 0 ∨ q.partitionsPerRange ≤ 0
    · rw [if_pos hnone]
      exact ⟨iff_of_false (by simp) (by omega), iff_of_false (by simp) (by omega),
        iff_of_true rfl ⟨hok, hnone⟩, by simp⟩
    · rw [if_neg hnone]
      refine ⟨iff_of_true ⟨_, rfl⟩ (by omega), iff_of_false (by simp) (by omega),
        iff_of_false (by simp) (by omega), fun p hp => ?_⟩
      cases hp
      have hfinds := hturns.client_finds hreplica (by omega)
      refine ⟨fun x => (hfinds x).1, fun x ss hss => ?_,
        (ShufflePlacement.read_gather hsound).twoWay hsound⟩
      obtain ⟨hlength, hnodup⟩ := (hfinds x).2 ss hss
      exact ⟨by omega, hnodup⟩

end Coordinator

end ShuffleService
