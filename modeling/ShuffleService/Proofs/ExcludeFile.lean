import ShuffleService.Proofs.BackgroundScans

/-!
# The exclude file

A coordinator looks at its exclude file again and again, and replaces the set of excluded servers
only when there is something new. What tells it is the content that was loaded last, which it keeps
beside the set. Both are what the latest look has shown (`ExcludeList.Shows`), so keeping the set is
as good as reading it again from the same content (`Shows.refresh_eq`), and the gauge is right
although it is set only along with the set (`Coordinator.Follows.act`).

`exclude_list_follows_file` says this for any run of a coordinator, whatever happens to the file,
and that the file decides over nothing but which servers are hidden.
-/

namespace ShuffleService

/-! ### Looks at the file -/

namespace ExcludeList

variable {l : ExcludeList} {seen : Option Bytes}

/-- The ids that a look at the file shows. A file that cannot be read shows none. -/
def shown : Option Bytes → NameSet
  | some content => parse (Utf8.decodeLossy content)
  | none => ∅

/-- What is kept is what a look at the file has shown. -/
structure Shows (seen : Option Bytes) (l : ExcludeList) : Prop where
  content : l.content = seen
  names : l.names = shown seen

theorem shows_start : Shows none {} := ⟨rfl, rfl⟩

/-- Another look keeps what it finds unchanged, and replaces the set otherwise. -/
theorem Shows.refresh_eq (h : Shows seen l) (outcome : Option Bytes) :
    l.refresh outcome = if outcome = seen then l else l.replace (shown outcome) outcome := by
  obtain ⟨hcontent, hnames⟩ := h
  cases outcome with
  | some content =>
    rw [refresh, hcontent]
    simp only [eq_comm, shown]
  | none =>
    cases seen with
    | some content => simp [refresh, hcontent, shown]
    | none =>
      -- nothing was loaded, so there is nothing to clear
      have hempty : l.names.isEmpty = true := by
        rw [hnames]
        rfl
      rw [if_pos rfl, refresh, hcontent, hempty, if_neg (by simp), ← hcontent]

theorem Shows.refresh (h : Shows seen l) (outcome : Option Bytes) :
    Shows outcome (l.refresh outcome) := by
  rw [h.refresh_eq]
  split
  · rename_i hsame
    exact hsame ▸ h
  · exact ⟨rfl, rfl⟩

/-- The set is replaced just if the file is not as it was. -/
theorem Shows.generation_refresh (h : Shows seen l) (outcome : Option Bytes) :
    (l.refresh outcome).generation = l.generation + if outcome = seen then 0 else 1 := by
  rw [h.refresh_eq]
  split <;> rfl

end ExcludeList

/-! ### Servers that are not hidden -/

namespace Cluster

variable {c : Cluster} {now : Int}

/-- The cluster with no server excluded. -/
def unhidden (c : Cluster) : Cluster := { c with exclude := {} }

theorem unhidden_update (c : Cluster) (now : Int) (node : ServerNode) :
    (c.update now node).unhidden = c.unhidden.update now node := by
  unfold update unhidden
  cases c.nodes.find? node.id <;> rfl

theorem unhidden_remove (c : Cluster) (id : String) :
    (c.remove id).unhidden = c.unhidden.remove id := by
  unfold remove unhidden
  cases c.nodes.find? id <;> rfl

theorem unhidden_removeExpired (c : Cluster) (now : Int) :
    (c.removeExpired now).2.unhidden = (c.unhidden.removeExpired now).2 := by
  show ((c.expired now).foldl remove c).unhidden = (c.expired now).foldl remove c.unhidden
  generalize c.expired now = silent
  induction silent generalizing c with
  | nil => rfl
  | cons id silent ih => rw [List.foldl_cons, List.foldl_cons, ih, unhidden_remove]

/-- Excluding servers hides these and no others. -/
theorem eligible_eq_filter (required : NameSet) : c.eligible now required =
    (c.unhidden.eligible now required).filter (·.id ∉ c.exclude.names) := by
  unfold eligible
  rw [List.filter_filter]
  refine List.filter_congr fun n _ => ?_
  simp only [isEligible, unhidden, NameSet.not_mem_empty, not_false_eq_true, decide_true,
    Bool.and_true]
  rw [Bool.and_left_comm, Bool.and_assoc]

end Cluster

/-! ### Runs of a coordinator -/

/-- Something that a coordinator does: its clock moves on or back, it takes in a heartbeat, answers
a request, looks for silent servers or apps, or looks at the exclude file, which may have changed. -/
inductive CoordinatorAct
  | tick (reading : ClockReading)
  | serverHeartbeat (node : ServerNode)
  | appHeartbeat (app : String)
  | place (q : PlacementRequest)
  | checkNodes (now : Int)
  | checkApps (now : Int)
  | look (file : FileEntry)

namespace CoordinatorAct

/-- What comes of a look at the exclude file: its content, or nothing if it cannot be read. -/
def outcome? : CoordinatorAct → Option (Option Bytes)
  | .look file => some file.content?
  | _ => none

/-- What came of the latest look at the exclude file. Before the first one it is as if the file
could not be read. -/
def seen (as : List CoordinatorAct) : Option Bytes := (as.filterMap outcome?).getLast?.join

theorem seen_concat (as : List CoordinatorAct) (a : CoordinatorAct) :
    seen (as ++ [a]) = a.outcome?.getD (seen as) := by
  unfold seen
  cases h : a.outcome? <;> simp [h]

end CoordinatorAct

namespace Coordinator

variable {c d : Coordinator} {seen : Option Bytes}

/-- The coordinator after an act. -/
def act (c : Coordinator) : CoordinatorAct → Coordinator
  | .tick reading => { c with clock := reading }
  | .serverHeartbeat node => c.serverHeartbeat node
  | .appHeartbeat app => c.refreshApp app
  | .place q => (c.placeShuffle q).2
  | .checkNodes now => (c.checkNodes now).2
  | .checkApps now => (c.checkApps now).2
  | .look file => { c with excludeFile := c.excludeFile.map fun _ => file }.refreshExclude

/-- Let one act follow the other. -/
def acts (c : Coordinator) (as : List CoordinatorAct) : Coordinator := as.foldl act c

theorem acts_concat (c : Coordinator) (as : List CoordinatorAct) (a : CoordinatorAct) :
    c.acts (as ++ [a]) = (c.acts as).act a := List.foldl_append

/-- A request of an app changes neither the clock nor the servers, nor what is known of the exclude
file. -/
structure LeavesServers (c d : Coordinator) : Prop where
  clock : d.clock = c.clock
  cluster : d.cluster = c.cluster
  excludeFile : d.excludeFile = c.excludeFile
  excluded : d.metrics.excluded = c.metrics.excluded

theorem leavesServers_refreshApp (c : Coordinator) (app : String) :
    c.LeavesServers (c.refreshApp app) := by
  rw [refreshApp_eq]
  exact ⟨rfl, rfl, rfl, rfl⟩

theorem leavesServers_placeShuffle (c : Coordinator) (q : PlacementRequest) :
    c.LeavesServers (c.placeShuffle q).2 := by
  by_cases hreplica : q.replica ≤ 0
  · rw [placeShuffle_of_nonpos hreplica]
    exact ⟨rfl, rfl, rfl, rfl⟩
  · obtain ⟨failures, hplace⟩ := c.placeShuffle_of_pos hreplica
    rw [hplace, refreshApp_eq]
    exact ⟨rfl, rfl, rfl, rfl⟩

/-- A coordinator has an exclude file, its list is what the latest look at the file has shown, and
the gauge tells its size. -/
structure Follows (seen : Option Bytes) (c : Coordinator) : Prop where
  configured : c.excludeFile.isSome
  shows : c.cluster.exclude.Shows seen
  gauge : c.metrics.excluded = c.cluster.exclude.names.size

theorem Follows.of_eq (h : Follows seen c) (hfile : d.excludeFile = c.excludeFile)
    (hexclude : d.cluster.exclude = c.cluster.exclude)
    (hgauge : d.metrics.excluded = c.metrics.excluded) : Follows seen d where
  configured := hfile ▸ h.configured
  shows := hexclude ▸ h.shows
  gauge := by rw [hgauge, hexclude, h.gauge]

theorem Follows.of_leavesServers (h : Follows seen c) (hd : c.LeavesServers d) : Follows seen d :=
  h.of_eq hd.excludeFile (congrArg Cluster.exclude hd.cluster) hd.excluded

/-- A look at the exclude file changes only the list. -/
theorem Follows.cluster_look (h : Follows seen c) (file : FileEntry) :
    (c.act (.look file)).cluster = c.cluster.refreshExclude file.content? := by
  obtain ⟨entry, hentry⟩ := Option.isSome_iff_exists.1 h.configured
  simp [act, refreshExclude, hentry]

/-- The gauge is set along with the set. -/
theorem Follows.excluded_look (h : Follows seen c) (file : FileEntry) :
    (c.act (.look file)).metrics.excluded =
      if (c.cluster.exclude.refresh file.content?).generation = c.cluster.exclude.generation then
        c.metrics.excluded
      else (c.cluster.exclude.refresh file.content?).names.size := by
  obtain ⟨entry, hentry⟩ := Option.isSome_iff_exists.1 h.configured
  simp only [act, refreshExclude, hentry, Option.map_some]
  exact ite_not ..

theorem Follows.look (h : Follows seen c) (file : FileEntry) :
    Follows file.content? (c.act (.look file)) where
  configured := by
    obtain ⟨entry, hentry⟩ := Option.isSome_iff_exists.1 h.configured
    simp [act, refreshExclude, hentry]
  shows := by
    rw [h.cluster_look]
    exact h.shows.refresh file.content?
  gauge := by
    rw [h.excluded_look, h.cluster_look, h.shows.generation_refresh]
    show _ = ((c.cluster.exclude.refresh file.content?).names.size : Int)
    by_cases hsame : file.content? = seen
    · -- the set that is kept has its size in the gauge from when it was loaded
      rw [if_pos hsame, if_pos (Nat.add_zero _), h.shows.refresh_eq, if_pos hsame, h.gauge]
    · rw [if_neg hsame, if_neg (Nat.succ_ne_self _)]

/-- Each act keeps up with the file. -/
theorem Follows.act (h : Follows seen c) (a : CoordinatorAct) :
    Follows (a.outcome?.getD seen) (c.act a) := by
  cases a with
  | tick reading => exact h.of_eq rfl rfl rfl
  | serverHeartbeat node => exact h.of_eq rfl (Cluster.Alike.exclude_update c.cluster) rfl
  | appHeartbeat app => exact h.of_leavesServers (c.leavesServers_refreshApp app)
  | place q => exact h.of_leavesServers (c.leavesServers_placeShuffle q)
  | checkNodes now => exact h.of_eq rfl (Cluster.Alike.refl now c.cluster).removeExpired.exclude rfl
  | checkApps now => exact h.of_eq rfl rfl rfl
  | look file => exact h.look file

/-- A coordinator whose exclude file is left out of account. -/
structure Unhides (c d : Coordinator) : Prop where
  clock : d.clock = c.clock
  cluster : d.cluster = c.cluster.unhidden
  unconfigured : d.excludeFile = none

theorem Unhides.of_leavesServers {c' d' : Coordinator} (h : Unhides c d) (hc : c.LeavesServers c')
    (hd : d.LeavesServers d') : Unhides c' d' where
  clock := by rw [hd.clock, hc.clock, h.clock]
  cluster := by rw [hd.cluster, hc.cluster, h.cluster]
  unconfigured := hd.excludeFile.trans h.unconfigured

/-- The same act does the same to the servers with the exclude file left out of account. -/
theorem Unhides.act (h : Unhides c d) (a : CoordinatorAct) : Unhides (c.act a) (d.act a) := by
  cases a with
  | tick reading => exact ⟨rfl, h.cluster, h.unconfigured⟩
  | serverHeartbeat node =>
    refine ⟨h.clock, ?_, h.unconfigured⟩
    show d.cluster.update d.clock node = (c.cluster.update c.clock node).unhidden
    rw [h.clock, h.cluster, Cluster.unhidden_update]
  | appHeartbeat app =>
    exact h.of_leavesServers (c.leavesServers_refreshApp app) (d.leavesServers_refreshApp app)
  | place q =>
    exact h.of_leavesServers (c.leavesServers_placeShuffle q) (d.leavesServers_placeShuffle q)
  | checkNodes now =>
    refine ⟨h.clock, ?_, h.unconfigured⟩
    show (d.cluster.removeExpired now).2 = (c.cluster.removeExpired now).2.unhidden
    rw [h.cluster, Cluster.unhidden_removeExpired]
  | checkApps now => exact ⟨h.clock, h.cluster, h.unconfigured⟩
  | look file =>
    simp only [Coordinator.act, refreshExclude, h.unconfigured, Option.map_none]
    cases c.excludeFile <;> exact ⟨h.clock, h.cluster, rfl⟩

/-- **The exclude file.** Take any run of a new coordinator with an exclude file, with any readings
of the clock, where the file is in any state when it is looked at. Until the file is looked at
again, the excluded servers are the ids that the latest look has shown, none if the file could not
be read, and the gauge tells how many they are. Another look changes neither the nodes nor the index
of tags; it replaces the set just if what comes of it is not what came of the look before, and
otherwise keeps everything as it is. The servers that can be chosen for some tags are those that the
same coordinator without an exclude file has after the same run, with the excluded ones, and only
these, hidden. -/
theorem exclude_list_follows_file (k : Coordinator) (timeout : Int) (file : FileEntry)
    (as : List CoordinatorAct) :
    let start := { k with
      cluster := Cluster.start timeout
      excludeFile := some file
      metrics := {} }
    let c := start.acts as
    let d := { start with excludeFile := none }.acts as
    let seen := CoordinatorAct.seen as
    c.cluster.exclude.names = ExcludeList.shown seen ∧
    c.metrics.excluded = c.cluster.exclude.names.size ∧
    (∀ file, let c' := c.act (.look file)
      c'.cluster.nodes = c.cluster.nodes ∧ c'.cluster.tagIndex = c.cluster.tagIndex ∧
      c'.cluster.exclude.generation =
        c.cluster.exclude.generation + (if file.content? = seen then 0 else 1) ∧
      (file.content? = seen → c'.cluster = c.cluster)) ∧
    ∀ required, c.eligible required =
      (d.eligible required).filter (·.id ∉ c.cluster.exclude.names) := by
  intro start c d seen
  obtain ⟨hfollows, hunhides⟩ : Follows seen c ∧ Unhides c d := by
    induction as using List.reverseRecOn with
    | nil => exact ⟨⟨rfl, ExcludeList.shows_start, rfl⟩, rfl, rfl, rfl⟩
    | append_singleton as a ih =>
      obtain ⟨hfollows, hunhides⟩ := ih
      show Follows (CoordinatorAct.seen (as ++ [a])) (start.acts (as ++ [a])) ∧
        Unhides (start.acts (as ++ [a])) (acts _ (as ++ [a]))
      rw [CoordinatorAct.seen_concat, acts_concat, acts_concat]
      exact ⟨hfollows.act a, hunhides.act a⟩
  refine ⟨hfollows.shows.names, hfollows.gauge, fun file => ?_, fun required => ?_⟩
  · intro c'
    have hcluster : c'.cluster = c.cluster.refreshExclude file.content? := hfollows.cluster_look file
    rw [hcluster]
    refine ⟨rfl, rfl, hfollows.shows.generation_refresh file.content?, fun hsame => ?_⟩
    unfold Cluster.refreshExclude
    rw [hfollows.shows.refresh_eq, if_pos hsame]
  · unfold eligible
    rw [hunhides.clock, hunhides.cluster]
    exact Cluster.eligible_eq_filter required

end Coordinator

end ShuffleService
