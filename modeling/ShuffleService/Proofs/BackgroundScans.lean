import ShuffleService.Proofs.Membership
import ShuffleService.Proofs.PlacementLaw

/-!
# Looking for silent servers in the background

A coordinator may look for silent servers as often as it likes: a server that has been silent for
too long cannot be chosen anyway, removed or not. Two clusters that have the same servers up to
silent ones are `Cluster.Alike`. As long as the clock does not go back, no node bears a time that
is still to come (`Cluster.Past`), so a server that comes back gets the same node whether it was
removed or not, and clusters that are alike stay alike (`Coordinator.Alike.after`). Therefore a run
with any looks for silent servers leads to the same servers and the same placements as the run
without them (`scans_change_no_placement`).
-/

namespace ShuffleService

/-- Something that happens to a coordinator: time passes, a server sends a heartbeat, the exclude
file is looked at, which may have changed in the meantime, or silent servers are looked for. -/
inductive CoordinatorEvent
  | pass (ms : Nat)
  | heartbeat (node : ServerNode)
  | refresh (file : FileEntry)
  | scan

/-- Whether an event is a look for silent servers. -/
def CoordinatorEvent.isScan : CoordinatorEvent → Bool
  | .scan => true
  | _ => false

/-! ### Clusters up to silent servers -/

namespace Cluster

variable {c d : Cluster} {id : String} {now later : Int} {node : ServerNode}

/-- No node bears a time that is still to come. -/
def Past (now : Int) (c : Cluster) : Prop := ∀ id n, c.node? id = some n → n.timestamp ≤ now

theorem Past.mono (h : Past now c) (hle : now ≤ later) : Past later c :=
  fun id n hn => Int.le_trans (h id n hn) hle

/-- A heartbeat is not earlier than the ones before it, so its node bears its own time. -/
theorem Past.node?_update (h : Past now c) : (c.update now node).node? id =
    if id = node.id then some { node with timestamp := now } else c.node? id := by
  rw [Cluster.node?_update]
  cases hnode : c.node? id with
  | none => rfl
  | some n =>
    rw [Option.map_some, Option.getD_some, Int.max_eq_left (h id n hnode)]

theorem Past.update (h : Past now c) (node : ServerNode) : Past now (c.update now node) := by
  intro id n hn
  rw [h.node?_update] at hn
  split at hn
  · cases hn
    exact Int.le_refl now
  · exact h id n hn

theorem Past.removeExpired (h : Past now c) : Past now (c.removeExpired now).2 := by
  intro id n hn
  rw [node?_removeExpired] at hn
  split at hn
  · cases hn
  · exact h id n hn

/-- Two clusters have the same servers, up to those that are silent at the given time. -/
structure Alike (now : Int) (c d : Cluster) : Prop where
  timeout : c.timeout = d.timeout
  exclude : c.exclude = d.exclude
  node? : ∀ id n, now - n.timestamp ≤ c.timeout → (c.node? id = some n ↔ d.node? id = some n)

namespace Alike

theorem refl (now : Int) (c : Cluster) : Alike now c c := ⟨rfl, rfl, fun _ _ _ => Iff.rfl⟩

/-- A server that is silent stays so until it is heard of again. -/
theorem mono (h : Alike now c d) (hle : now ≤ later) : Alike later c d where
  timeout := h.timeout
  exclude := h.exclude
  node? := fun id n hn => h.node? id n (by omega)

theorem refreshExclude (h : Alike now c d) (content : Option Bytes) :
    Alike now (c.refreshExclude content) (d.refreshExclude content) where
  timeout := h.timeout
  exclude := congrArg (·.refresh content) h.exclude
  node? := h.node?

theorem exclude_update (c : Cluster) : (c.update now node).exclude = c.exclude := by
  unfold Cluster.update
  cases c.nodes.find? node.id <;> rfl

/-- The server of a heartbeat gets the same node, whether or not it was silent and removed. -/
theorem update (h : Alike now c d) (hc : Past now c) (hd : Past now d) (node : ServerNode) :
    Alike now (c.update now node) (d.update now node) where
  timeout := (timeout_after (.heartbeat now node)).trans
    (h.timeout.trans (timeout_after (.heartbeat now node)).symm)
  exclude := (exclude_update c).trans (h.exclude.trans (exclude_update d).symm)
  node? := fun id n hn => by
    rw [show (c.update now node).timeout = c.timeout from timeout_after (.heartbeat now node)] at hn
    rw [hc.node?_update, hd.node?_update]
    split
    · rfl
    · exact h.node? id n hn

theorem exclude_remove (c : Cluster) : (c.remove id).exclude = c.exclude := by
  unfold Cluster.remove
  cases c.nodes.find? id <;> rfl

/-- Only silent servers are removed. -/
theorem removeExpired (h : Alike now c d) : Alike now (c.removeExpired now).2 d where
  timeout := (timeout_after (.check now)).trans h.timeout
  exclude := (List.foldlRecOn (c.expired now) remove (motive := (·.exclude = c.exclude)) rfl
    fun _ heq _ _ => (exclude_remove _).trans heq).trans h.exclude
  node? := fun id n hn => by
    have htimeout : (c.removeExpired now).2.timeout = c.timeout := timeout_after (.check now)
    rw [htimeout] at hn
    rw [← h.node? id n hn, node?_removeExpired]
    split
    · rename_i hmem
      obtain ⟨m, hm, hsilent⟩ := mem_expired.1 hmem
      refine iff_of_false nofun fun hnode => ?_
      cases hm.symm.trans hnode
      omega
    · rfl

/-- The servers that can be chosen are the same. -/
theorem perm_eligible (h : Alike now c d) (hc : c.Indexed) (hd : d.Indexed) (required : NameSet) :
    (c.eligible now required).Perm (d.eligible now required) := by
  rw [List.perm_ext_iff_of_nodup (.of_map _ hc.nodup_eligible) (.of_map _ hd.nodup_eligible)]
  intro n
  rw [hc.mem_eligible, hd.mem_eligible, ← h.timeout, ← h.exclude]
  constructor
  · rintro ⟨hnode, hheard, hrest⟩
    exact ⟨(h.node? n.id n hheard).1 hnode, hheard, hrest⟩
  · rintro ⟨hnode, hheard, hrest⟩
    exact ⟨(h.node? n.id n hheard).2 hnode, hheard, hrest⟩

end Alike

end Cluster

/-! ### Runs of a coordinator -/

namespace Coordinator

variable {c d : Coordinator}

/-- The coordinator after an event. The clock never goes back, and silent servers are looked for as
of its current reading. -/
def after (c : Coordinator) : CoordinatorEvent → Coordinator
  | .pass ms => { c with clock := c.clock + ms }
  | .heartbeat node => c.serverHeartbeat node
  | .refresh file => { c with excludeFile := c.excludeFile.map fun _ => file }.refreshExclude
  | .scan => (c.checkNodes c.clock).2

/-- Let one thing happen after the other. -/
def run (c : Coordinator) (es : List CoordinatorEvent) : Coordinator := es.foldl after c

/-- The nodes of a coordinator are in order: kept under their ids, with no time to come. -/
structure Orderly (c : Coordinator) : Prop where
  indexed : c.cluster.Indexed
  past : c.cluster.Past c.clock

section Refresh

variable (file : FileEntry)

/-- A look at the exclude file takes in what it shows, if one is configured. -/
theorem cluster_refresh : (c.after (.refresh file)).cluster =
    if c.excludeFile.isSome then c.cluster.refreshExclude file.content? else c.cluster := by
  unfold after refreshExclude
  cases c.excludeFile <;> rfl

theorem clock_refresh : (c.after (.refresh file)).clock = c.clock := by
  unfold after refreshExclude
  cases c.excludeFile <;> rfl

theorem serversPerShuffle_refresh :
    (c.after (.refresh file)).serversPerShuffle = c.serversPerShuffle := by
  unfold after refreshExclude
  cases c.excludeFile <;> rfl

theorem excludeFile_refresh :
    (c.after (.refresh file)).excludeFile = c.excludeFile.map fun _ => file := by
  unfold after refreshExclude
  cases c.excludeFile <;> rfl

end Refresh

theorem Orderly.after (h : c.Orderly) (e : CoordinatorEvent) : (c.after e).Orderly := by
  cases e with
  | pass ms => exact ⟨h.indexed, h.past.mono (Int.le_add_of_nonneg_right (Int.natCast_nonneg ms))⟩
  | heartbeat node => exact ⟨h.indexed.update c.clock node, h.past.update node⟩
  | refresh file =>
    constructor
    · rw [cluster_refresh]
      split
      · exact h.indexed.after (.refresh file.content?)
      · exact h.indexed
    · rw [cluster_refresh, clock_refresh]
      split
      · exact h.past
      · exact h.past
  | scan => exact ⟨h.indexed.after (.check c.clock), h.past.removeExpired⟩

/-- Two coordinators that differ at most in silent servers, and in what they count. -/
structure Alike (c d : Coordinator) : Prop where
  clock : c.clock = d.clock
  serversPerShuffle : c.serversPerShuffle = d.serversPerShuffle
  excludeFile : c.excludeFile = d.excludeFile
  cluster : c.cluster.Alike c.clock d.cluster

namespace Alike

/-- What happens to both, other than a look for silent servers, keeps two coordinators alike. -/
theorem after (h : Alike c d) (hc : c.Orderly) (hd : d.Orderly) {e : CoordinatorEvent}
    (he : e.isScan = false) : Alike (c.after e) (d.after e) := by
  obtain ⟨hclock, hmost, hfile, hcluster⟩ := h
  cases e with
  | pass ms =>
    exact ⟨congrArg (· + (ms : Int)) hclock, hmost, hfile,
      hcluster.mono (Int.le_add_of_nonneg_right (Int.natCast_nonneg ms))⟩
  | heartbeat node =>
    refine ⟨hclock, hmost, hfile, ?_⟩
    show (c.cluster.update c.clock node).Alike c.clock (d.cluster.update d.clock node)
    have hpast := hd.past
    rw [← hclock] at hpast ⊢
    exact hcluster.update hc.past hpast node
  | refresh file =>
    constructor
    case clock => rw [clock_refresh, clock_refresh, hclock]
    case serversPerShuffle => rw [serversPerShuffle_refresh, serversPerShuffle_refresh, hmost]
    case excludeFile => rw [excludeFile_refresh, excludeFile_refresh, hfile]
    case cluster =>
      rw [clock_refresh, cluster_refresh, cluster_refresh, ← hfile]
      split
      · exact hcluster.refreshExclude file.content?
      · exact hcluster
  | scan => cases he

/-- A look for silent servers on one side keeps two coordinators alike. -/
theorem scan (h : Alike c d) : Alike (c.after .scan) d :=
  ⟨h.clock, h.serversPerShuffle, h.excludeFile, h.cluster.removeExpired⟩

/-- The servers that can be chosen are the same. -/
theorem perm_eligible (h : Alike c d) (hc : c.Orderly) (hd : d.Orderly) (required : NameSet) :
    (c.eligible required).Perm (d.eligible required) := by
  have := h.cluster.perm_eligible hc.indexed hd.indexed required
  unfold eligible
  rwa [← h.clock]

end Alike

/-- A run with any looks for silent servers leads to a coordinator like that of the run without. -/
theorem alike_run (hc : c.Orderly) (hd : d.Orderly) (h : c.Alike d) (es : List CoordinatorEvent) :
    (c.run es).Orderly ∧ (d.run (es.filter (!·.isScan))).Orderly ∧
      (c.run es).Alike (d.run (es.filter (!·.isScan))) := by
  induction es generalizing c d with
  | nil => exact ⟨hc, hd, h⟩
  | cons e es ih =>
    cases he : e.isScan with
    | true =>
      rw [List.filter_cons_of_neg (by simp [he])]
      cases e with
      | scan => exact ih (hc.after .scan) hd h.scan
      | _ => cases he
    | false =>
      rw [List.filter_cons_of_pos (by simp [he])]
      exact ih (hc.after e) (hd.after e) (h.after hc hd he)

/-- **Looking for silent servers changes no placement.** Take any run of heartbeats and looks at an
exclude file that may change, under a clock that does not go back, with looks for silent servers
anywhere in between, each as of the current time. At its end (and so at any point of it, since a
query changes nothing) the servers that can be chosen for some tags, their number, and the outcome
of placing a shuffle are those of the run without the looks for silent servers. -/
theorem scans_change_no_placement (k : Coordinator) (timeout : Int) (es : List CoordinatorEvent) :
    let start := { k with cluster := Cluster.start timeout }
    let c := start.run es
    let d := start.run (es.filter (!·.isScan))
    (∀ required, (c.eligible required).Perm (d.eligible required)) ∧
    c.serverCount = d.serverCount ∧
    ∀ total per replica required,
      c.place total per replica required = d.place total per replica required := by
  intro start c d
  have hstart : start.Orderly := ⟨Cluster.indexed_start timeout, fun _ _ h => nomatch h⟩
  obtain ⟨hc, hd, halike⟩ := alike_run hstart hstart ⟨rfl, rfl, rfl, .refl _ _⟩ es
  have hperm (required : NameSet) : (c.eligible required).Perm (d.eligible required) :=
    halike.perm_eligible hc hd required
  refine ⟨hperm, (hperm ∅).length_eq, fun total per replica required => ?_⟩
  have hmost : c.serversPerShuffle = d.serversPerShuffle := halike.serversPerShuffle
  unfold place
  rw [hmost]
  exact Placement.place_eq_of_perm hd.indexed.nodup_eligible (hperm required) _ _ _

end Coordinator

end ShuffleService
