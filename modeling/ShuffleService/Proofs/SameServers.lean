import ShuffleService.Proofs.PlacementLaw

/-!
# The servers that are there decide over a placement

A coordinator goes through its table of nodes in an order that means nothing, and shuffles the
servers that can be chosen before it puts them in order. So there may be many lists that the
partitions are placed on (`Cluster.Draws`) and many outcomes (`Coordinator.MayPlace`). Yet there is
only one: each node is kept under its own id, and servers with distinct ids have one order only. As
that order does not depend on how the servers came to be there, two coordinators with the same
servers place in the same way, whatever has happened to each (`place_of_same_servers`).
-/

namespace ShuffleService

namespace Cluster

variable {c d : Cluster} {now later : Int} {required : NameSet} {ns : List ServerNode}

/-- A list that a choice of servers may begin with: the nodes are gone through in any order, and
those that can be chosen are shuffled. -/
def Draws (c : Cluster) (now : Int) (required : NameSet) (ns : List ServerNode) : Prop :=
  ∃ found : List ServerNode, found.Perm c.nodes.values ∧
    ns.Perm (found.filter (c.isEligible now required))

theorem draws_iff : c.Draws now required ns ↔ ns.Perm (c.eligible now required) := by
  constructor
  · rintro ⟨found, hfound, hns⟩
    exact hns.trans (hfound.filter _)
  · exact fun h => ⟨c.nodes.values, .refl _, h⟩

/-- Clusters with the same servers to choose from hold them in different orders at most. -/
theorem perm_eligible_of_iff (hc : c.Indexed) (hd : d.Indexed)
    (h : ∀ n, n ∈ c.eligible now required ↔ n ∈ d.eligible later required) :
    (c.eligible now required).Perm (d.eligible later required) :=
  (List.perm_ext_iff_of_nodup (.of_map _ hc.nodup_eligible) (.of_map _ hd.nodup_eligible)).2 h

end Cluster

namespace Coordinator

variable {c : Coordinator} {total per : Int} {replica : Nat} {required : NameSet}
  {outcome : Except PlacementError Placement}

/-- An outcome of placing partitions: that of some list that the choice of servers may begin
with. -/
def MayPlace (c : Coordinator) (total per : Int) (replica : Nat) (required : NameSet)
    (outcome : Except PlacementError Placement) : Prop :=
  ∃ ns, c.cluster.Draws c.clock required ns ∧
    outcome = Placement.place ns c.serversPerShuffle (cutRanges total per) replica

/-- There is one outcome only, as no two servers have the same id. -/
theorem mayPlace_iff (h : c.cluster.Indexed) :
    c.MayPlace total per replica required outcome ↔
      outcome = c.place total per replica required := by
  have hplace (ns : List ServerNode) (hns : c.cluster.Draws c.clock required ns) :
      Placement.place ns c.serversPerShuffle (cutRanges total per) replica =
        c.place total per replica required :=
    Placement.place_eq_of_perm h.nodup_eligible (Cluster.draws_iff.1 hns) _ _ _
  constructor
  · rintro ⟨ns, hns, rfl⟩
    exact hplace ns hns
  · rintro rfl
    have hself : c.cluster.Draws c.clock required (c.eligible required) :=
      Cluster.draws_iff.2 (.refl _)
    exact ⟨_, hself, (hplace _ hself).symm⟩

/-- **The same servers, the same placement.** Take two coordinators that may use the same number of
servers for a shuffle. Let any heartbeats, looks for silent servers and looks at the exclude file
have led to their clusters, each with its own timeout, and let their clocks show anything. If the
same servers can be chosen for some tags, by the snapshots that are kept of them, then these have
distinct ids, they are put in the same order whatever lists the two begin with, and each of the two
comes to the same outcome, which is the only one that it may come to.

It is for the order of servers with distinct ids: however they are permuted, and in whatever way
they are then sorted, the same list comes of it. -/
theorem place_of_same_servers (k l : Coordinator) (timeout timeout' : Int)
    (es es' : List ClusterEvent) (required : NameSet)
    (hmost : k.serversPerShuffle = l.serversPerShuffle)
    (hsame : ∀ n, n ∈ { k with cluster := Cluster.run timeout es }.eligible required ↔
      n ∈ { l with cluster := Cluster.run timeout' es' }.eligible required) :
    let c := { k with cluster := Cluster.run timeout es }
    let d := { l with cluster := Cluster.run timeout' es' }
    ((c.eligible required).map (·.id)).Nodup ∧
    (∀ ms ns, c.cluster.Draws c.clock required ms → d.cluster.Draws d.clock required ns →
      ServerNode.rank ms = ServerNode.rank ns) ∧
    (∀ total per replica outcome,
      (c.MayPlace total per replica required outcome ↔
        outcome = c.place total per replica required) ∧
      (d.MayPlace total per replica required outcome ↔
        outcome = c.place total per replica required)) ∧
    ∀ ms ns order : List ServerNode, (ns.map (·.id)).Nodup → ms.Perm ns → order.Perm ms →
      order.Pairwise (fun m n => m.before n = true) →
      ServerNode.rank ms = ServerNode.rank ns ∧ order = ServerNode.rank ns := by
  intro c d
  have hc : c.cluster.Indexed := Cluster.indexed_run timeout es
  have hd : d.cluster.Indexed := Cluster.indexed_run timeout' es'
  have hids : ((c.eligible required).map (·.id)).Nodup := hc.nodup_eligible
  have hperm : (d.eligible required).Perm (c.eligible required) :=
    (Cluster.perm_eligible_of_iff hc hd hsame).symm
  refine ⟨hids, fun ms ns hms hns => ?_, fun total per replica outcome => ⟨mayPlace_iff hc, ?_⟩,
    fun ms ns order hdistinct hms horder hsorted => ?_⟩
  · rw [ServerNode.rank_eq_of_perm hids (Cluster.draws_iff.1 hms),
      ServerNode.rank_eq_of_perm hids ((Cluster.draws_iff.1 hns).trans hperm)]
  · have hplace : d.place total per replica required = c.place total per replica required := by
      have hmost : d.serversPerShuffle = c.serversPerShuffle := hmost.symm
      rw [place, hmost]
      exact Placement.place_eq_of_perm hids hperm _ _ _
    rw [mayPlace_iff hd, hplace]
  · exact ⟨ServerNode.rank_eq_of_perm hdistinct hms,
      ServerNode.eq_rank_of_pairwise hdistinct (horder.trans hms) hsorted⟩

/-- Two servers, alike but for their ids, are heard of once. Or one of them is excluded, both are
removed for their silence, the clock goes back, they come again in the other order, the first of
them at first without its tag, and the exclude file is emptied. -/
theorem place_of_same_servers_two_histories :
    let node (id : String) (tags : List String) : ServerNode :=
      ⟨id, "10.0.0.1", 80, 5, 0, 100, 1, 0, .ofList tags⟩
    let es : List ClusterEvent :=
      [.heartbeat 10 (node "a" ["ssd"]), .heartbeat 10 (node "b" ["ssd"])]
    let es' : List ClusterEvent := [.refresh (some [98]), .heartbeat 0 (node "b" ["ssd"]),
      .heartbeat 5 (node "a" ["ssd"]), .check 9000, .heartbeat 10 (node "b" ["ssd"]),
      .heartbeat 10 (node "a" []), .heartbeat 7 (node "a" ["ssd"]), .refresh (some [])]
    let k : Coordinator := ⟨20, .start 0, 1000, 2, none, ∅, {}, none, none, none⟩
    let c := { k with cluster := Cluster.run 1000 es }
    let d := { k with clock := 30, cluster := Cluster.run 5000 es' }
    let required : NameSet := .ofList ["ssd"]
    (∀ n, n ∈ c.eligible required ↔ n ∈ d.eligible required) ∧
      c.eligible required ≠ d.eligible required ∧
      ∃ p, c.place 5 2 1 required = .ok p ∧ d.MayPlace 5 2 1 required (.ok p) ∧
        p.serverIds.map (fun e => e.2.map (·.id)) = [["a"], ["b"], ["a"]] := by
  intro node es es' k c d required
  have hsame : ∀ n, n ∈ c.eligible required ↔ n ∈ d.eligible required := by
    have hreverse : c.eligible required = (d.eligible required).reverse := by decide +kernel
    intro n
    rw [hreverse, List.mem_reverse]
  obtain ⟨-, -, houtcome, horder⟩ := place_of_same_servers k { k with clock := 30 } 1000 5000 es es'
    required rfl hsame
  let a : ServerNode := { node "a" ["ssd"] with timestamp := 10 }
  let b : ServerNode := { node "b" ["ssd"] with timestamp := 10 }
  have hrank : [a, b] = ServerNode.rank (c.eligible required) :=
    (horder _ _ [a, b] (by decide +kernel) (.refl _) (by decide +kernel) (by decide +kernel)).2
  have hplace : c.place 5 2 1 required = .ok [(⟨0, 1⟩, [a]), (⟨2, 3⟩, [b]), (⟨4, 4⟩, [a])] := by
    have hranges : cutRanges 5 2 = [⟨0, 1⟩, ⟨2, 3⟩, ⟨4, 4⟩] := by decide
    unfold place Placement.place
    rw [← hrank, hranges]
    simp [Placement.spread, Placement.goRound, c, k]
  exact ⟨hsame, by decide +kernel, _, hplace, (houtcome 5 2 1 _).2.2 hplace.symm, by decide +kernel⟩

end Coordinator

end ShuffleService
