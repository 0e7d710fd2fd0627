import ShuffleService.Proofs.ExcludeFile
import ShuffleService.Proofs.TableTotals

/-!
# The accounts of a coordinator

A coordinator sets the gauge of servers from its table of nodes, moves the gauge of apps up and down
as apps come and go, and adds to its totals on the way. To say what the numbers should be, two
ledgers take down what happens: which servers were heard of and which were removed
(`ServerEntry`), and which apps showed a sign of life and which were removed (`AppEntry`).

A ledger tells without a table which servers are there (`ServerEntry.Present`), how often one was
admitted (`ServerEntry.admissions`), and which signs of life of an app count (`AppEntry.signs`).
Each act keeps gauges, totals and tables in agreement with it (`ServersBooked.act`,
`AppsBooked.act`), whatever the clock shows; `accounts_of_run` says what follows for a run.
-/

namespace ShuffleService

/-! ### Ledgers -/

/-- What is taken down about servers: the heartbeat of one, or a look for silent servers with the
ids of those that it removed. -/
inductive ServerEntry
  | heard (id : String)
  | removed (ids : List String)
  deriving DecidableEq

namespace ServerEntry

variable {e : ServerEntry} {l : List ServerEntry} {id : String}

/-- Whether a server was removed. -/
def removes (id : String) : ServerEntry → Bool
  | heard _ => false
  | removed ids => id ∈ ids

/-- By a ledger, the latest entry first, a server is there: it was heard of since it was last
removed. -/
def Present (l : List ServerEntry) (id : String) : Prop :=
  .heard id ∈ l.takeWhile fun e => !e.removes id

instance : Decidable (Present l id) := inferInstanceAs (Decidable (_ ∈ _))

/-- How often a server was heard of that was not there. -/
def admissions : List ServerEntry → Nat
  | [] => 0
  | .heard id :: l => admissions l + if Present l id then 0 else 1
  | .removed _ :: l => admissions l

/-- How many servers were removed, each time they were. -/
def removals : List ServerEntry → Nat
  | [] => 0
  | .heard _ :: l => removals l
  | .removed ids :: l => removals l + ids.length

theorem present_cons :
    Present (e :: l) id ↔ e.removes id = false ∧ (e = .heard id ∨ Present l id) := by
  unfold Present
  rw [List.takeWhile_cons]
  cases e.removes id <;> simp [eq_comm]

end ServerEntry

/-- What is taken down about apps: a sign of life of one with what the clock showed, or a look for
silent apps with the names of those that it removed. -/
inductive AppEntry
  | sign (app : String) (reading : Int)
  | gone (apps : List String)

namespace AppEntry

variable {l : List AppEntry} {app : String}

/-- Whether an app was removed. -/
def removes (app : String) : AppEntry → Bool
  | sign _ _ => false
  | gone apps => app ∈ apps

/-- The time of a sign of life of an app. -/
def sign? (app : String) : AppEntry → Option Int
  | sign name reading => if name = app then some reading else none
  | gone _ => none

/-- By a ledger, the latest entry first, the times of the signs of life of an app since it was last
removed, again the latest first. -/
def signs (app : String) (l : List AppEntry) : List Int :=
  (l.takeWhile fun e => !e.removes app).filterMap (sign? app)

/-- How many apps were removed, each time they were. -/
def departures : List AppEntry → Nat
  | [] => 0
  | .sign _ _ :: l => departures l
  | .gone apps :: l => departures l + apps.length

theorem signs_sign {name : String} {reading : Int} :
    signs app (.sign name reading :: l) =
      if name = app then reading :: signs app l else signs app l := by
  by_cases h : name = app <;> simp [signs, removes, sign?, h]

theorem signs_gone {apps : List String} :
    signs app (.gone apps :: l) = if app ∈ apps then [] else signs app l := by
  unfold signs
  rw [List.takeWhile_cons]
  by_cases h : app ∈ apps
  · rw [if_pos h, if_neg (by simp [removes, h])]
    rfl
  · rw [if_neg h, if_pos (by simp [removes, h])]
    rfl

end AppEntry

/-- An app as its signs of life show it, the latest first. Without any there is no app. -/
def RunningApp.ofSigns? (app : String) (signs : List Int) : Option RunningApp :=
  signs.head?.bind fun latest => signs.getLast?.map fun first => ⟨app, latest, first⟩

/-- One more sign of life changes the time of the latest one, or brings the app into being. -/
theorem RunningApp.ofSigns?_cons {app : String} {reading : Int} {signs : List Int} :
    ofSigns? app (reading :: signs) = some
      (((ofSigns? app signs).map ({ · with lastHeartbeat := reading })).getD
        ⟨app, reading, reading⟩) := by
  cases signs with
  | nil => rfl
  | cons latest older => simp [ofSigns?, List.getLast?_cons]

/-! ### The number of nodes -/

namespace Cluster

variable {c : Cluster} {id : String}

/-- A heartbeat adds a node for a server that has none. -/
theorem size_update (now : Int) (node : ServerNode) : (c.update now node).nodes.size =
    c.nodes.size + if (c.node? node.id).isSome then 0 else 1 := by
  unfold update node?
  cases hfind : c.nodes.find? node.id <;> simp [Table.size_insert, Table.contains, hfind]

theorem size_remove (h : (c.node? id).isSome) : (c.remove id).nodes.size + 1 = c.nodes.size := by
  obtain ⟨n, hn⟩ := Option.isSome_iff_exists.1 h
  have herase := Table.total_erase (t := c.nodes) (k := id) (f := fun _ => 1)
  unfold node? at hn
  rw [Table.total_one, Table.total_one, hn] at herase
  unfold remove
  rw [hn]
  exact herase

/-- A look for silent servers takes a node from the table for each id that it returns. -/
theorem size_removeExpired (now : Int) :
    (c.removeExpired now).2.nodes.size + (c.removeExpired now).1.length = c.nodes.size := by
  show ((c.expired now).foldl remove c).nodes.size + (c.expired now).length = c.nodes.size
  have hnodup : (c.expired now).Nodup := nodup_expired
  have hpresent : ∀ id ∈ c.expired now, (c.node? id).isSome := fun id hid => by
    obtain ⟨n, hn, -⟩ := mem_expired.1 hid
    rw [hn]
    rfl
  generalize c.expired now = silent at hnodup hpresent ⊢
  induction silent generalizing c with
  | nil => rfl
  | cons removed silent ih =>
    rw [List.nodup_cons] at hnodup
    -- the other servers are still there when the first one has been removed
    have hothers : ∀ id ∈ silent, ((c.remove removed).node? id).isSome := fun id hid => by
      have hother : id ≠ removed := ne_of_mem_of_not_mem hid hnodup.1
      rw [node?_remove, if_neg hother]
      exact hpresent id (List.mem_cons_of_mem _ hid)
    have hfirst := size_remove (hpresent removed List.mem_cons_self)
    have hrest := ih hnodup.2 hothers
    rw [List.foldl_cons, List.length_cons]
    omega

end Cluster

namespace Coordinator

variable {c d : Coordinator} {app : String}

/-! ### What is taken down -/

/-- What an act adds to the ledger of servers. -/
def serverNote? (c : Coordinator) : CoordinatorAct → Option ServerEntry
  | .serverHeartbeat node => some (.heard node.id)
  | .checkNodes now => some (.removed (c.checkNodes now).1)
  | _ => none

/-- What an act adds to the ledger of apps. A request to place a shuffle is a sign of life whatever
comes of it, unless its number of replicas makes no sense. -/
def appNote? (c : Coordinator) : CoordinatorAct → Option AppEntry
  | .appHeartbeat app => some (.sign app c.clock)
  | .place q => if q.replica ≤ 0 then none else some (.sign q.app c.clock)
  | .checkApps now => some (.gone (c.checkApps now).1)
  | _ => none

/-- What is taken down while one act follows the other, the latest entry first. -/
def ledger {ε : Type} (note? : Coordinator → CoordinatorAct → Option ε) (c : Coordinator) :
    List CoordinatorAct → List ε
  | [] => []
  | a :: as => (c.act a).ledger note? as ++ (note? c a).toList

theorem ledger_concat {ε : Type} (note? : Coordinator → CoordinatorAct → Option ε)
    (c : Coordinator) (as : List CoordinatorAct) (a : CoordinatorAct) :
    c.ledger note? (as ++ [a]) = (note? (c.acts as) a).toList ++ c.ledger note? as := by
  induction as generalizing c with
  | nil => exact (List.append_nil _).symm
  | cons b as ih =>
    rw [List.cons_append, ledger, ih, List.append_assoc]
    rfl

/-! ### Servers -/

/-- The gauge and the total of servers agree with the table of nodes and the ledger. -/
structure ServersBooked (l : List ServerEntry) (c : Coordinator) : Prop where
  gauge : c.metrics.servers = c.cluster.nodes.size
  removals : c.metrics.totalRemoved = ServerEntry.removals l
  admissions : ServerEntry.admissions l = c.cluster.nodes.size + ServerEntry.removals l
  present : ∀ id, (c.cluster.node? id).isSome ↔ ServerEntry.Present l id

namespace ServersBooked

variable {l : List ServerEntry}

theorem of_eq (h : ServersBooked l c) (hnodes : d.cluster.nodes = c.cluster.nodes)
    (hgauge : d.metrics.servers = c.metrics.servers)
    (htotal : d.metrics.totalRemoved = c.metrics.totalRemoved) : ServersBooked l d where
  gauge := by rw [hgauge, hnodes, h.gauge]
  removals := htotal.trans h.removals
  admissions := by rw [hnodes, h.admissions]
  present := by
    unfold Cluster.node?
    rw [hnodes]
    exact h.present

theorem heard (h : ServersBooked l c) (node : ServerNode) :
    ServersBooked (.heard node.id :: l) (c.serverHeartbeat node) where
  gauge := rfl
  removals := h.removals
  admissions := by
    show _ = (c.cluster.update c.clock node).nodes.size + ServerEntry.removals l
    rw [ServerEntry.admissions, h.admissions, Cluster.size_update]
    simp only [h.present]
    omega
  present := fun id => by
    show ((c.cluster.update c.clock node).node? id).isSome ↔ _
    rw [Cluster.node?_update, ServerEntry.present_cons, ← h.present]
    by_cases hid : id = node.id
    · rw [if_pos hid, hid]
      exact iff_of_true rfl ⟨rfl, .inl rfl⟩
    · have hother : ServerEntry.heard node.id ≠ .heard id := fun heq =>
        hid (ServerEntry.heard.inj heq).symm
      simp [ServerEntry.removes, hid, hother]

theorem removed (h : ServersBooked l c) (now : Int) :
    ServersBooked (.removed (c.checkNodes now).1 :: l) (c.checkNodes now).2 where
  gauge := rfl
  removals := congrArg (· + (c.checkNodes now).1.length) h.removals
  admissions := by
    have hsize := c.cluster.size_removeExpired now
    have hbefore := h.admissions
    show ServerEntry.admissions l = (c.cluster.removeExpired now).2.nodes.size +
      (ServerEntry.removals l + (c.cluster.removeExpired now).1.length)
    omega
  present := fun id => by
    show ((c.cluster.removeExpired now).2.node? id).isSome ↔ _
    rw [Cluster.node?_removeExpired, ServerEntry.present_cons, ← h.present]
    show _ ↔ decide (id ∈ c.cluster.expired now) = false ∧ _
    by_cases hid : id ∈ c.cluster.expired now <;> simp [hid]

/-- Each act keeps the accounts of the servers. -/
theorem act (h : ServersBooked l c) (a : CoordinatorAct) :
    ServersBooked ((c.serverNote? a).toList ++ l) (c.act a) := by
  cases a with
  | tick reading => exact h.of_eq rfl rfl rfl
  | serverHeartbeat node => exact h.heard node
  | appHeartbeat app =>
    rw [Coordinator.act, refreshApp_eq]
    exact h.of_eq rfl rfl rfl
  | place q =>
    by_cases hreplica : q.replica ≤ 0
    · rw [Coordinator.act, placeShuffle_of_nonpos hreplica]
      exact h
    · obtain ⟨failures, hplace⟩ := c.placeShuffle_of_pos hreplica
      rw [Coordinator.act, hplace, refreshApp_eq]
      exact h.of_eq rfl rfl rfl
  | checkNodes now => exact h.removed now
  | checkApps now => exact h.of_eq rfl rfl rfl
  | look file =>
    unfold Coordinator.act refreshExclude
    cases c.excludeFile <;> exact h.of_eq rfl rfl rfl

end ServersBooked

/-! ### Apps -/

theorem appTimeout_act (c : Coordinator) (a : CoordinatorAct) :
    (c.act a).appTimeout = c.appTimeout := by
  cases a with
  | appHeartbeat app => rw [act, refreshApp_eq]
  | place q =>
    by_cases hreplica : q.replica ≤ 0
    · rw [act, placeShuffle_of_nonpos hreplica]
    · obtain ⟨failures, hplace⟩ := c.placeShuffle_of_pos hreplica
      rw [act, hplace, refreshApp_eq]
  | look file =>
    unfold act refreshExclude
    cases c.excludeFile <;> rfl
  | _ => rfl

theorem mem_checkApps {now : Int} : app ∈ (c.checkApps now).1 ↔
    ∃ a, c.apps.find? app = some a ∧ c.appTimeout < now - a.lastHeartbeat := by
  unfold checkApps
  rw [Table.mem_keys_filter]
  simp only [isSilent, decide_eq_true_eq]

theorem nodup_checkApps {now : Int} : (c.checkApps now).1.Nodup :=
  (c.apps.filter fun _ a => isSilent c.appTimeout now a).nodup

/-- A look for silent apps removes those that it returns and no others. -/
theorem find?_checkApps {now : Int} : (c.checkApps now).2.apps.find? app =
    if app ∈ (c.checkApps now).1 then none else c.apps.find? app := by
  simp only [mem_checkApps]
  show (c.apps.filter _).find? app = _
  rw [Table.find?_filter]
  cases hfind : c.apps.find? app with
  | none => simp
  | some a =>
    simp only [Option.filter_some, isSilent, Option.some.injEq, exists_eq_left', Bool.not_eq_true',
      decide_eq_false_iff_not, ite_not]

/-- The gauge and the total of apps agree with the table of apps and the ledger, and the table tells
what the ledger says about each app. -/
structure AppsBooked (l : List AppEntry) (c : Coordinator) : Prop where
  gauge : c.metrics.apps = c.apps.size
  departures : c.metrics.totalApps = c.apps.size + AppEntry.departures l
  signs : ∀ app, c.apps.find? app = RunningApp.ofSigns? app (AppEntry.signs app l)

namespace AppsBooked

variable {l : List AppEntry}

theorem of_eq (h : AppsBooked l c) (happs : d.apps = c.apps)
    (hgauge : d.metrics.apps = c.metrics.apps)
    (htotal : d.metrics.totalApps = c.metrics.totalApps) : AppsBooked l d where
  gauge := by rw [hgauge, happs, h.gauge]
  departures := by rw [htotal, happs, h.departures]
  signs := happs ▸ h.signs

theorem sign (h : AppsBooked l c) (app : String) :
    AppsBooked (.sign app c.clock :: l) (c.refreshApp app) := by
  have hgauge := h.gauge
  have htotal := h.departures
  rw [refreshApp_eq]
  constructor
  · dsimp only
    rw [Table.size_insert]
    split <;> omega
  · dsimp only
    rw [Table.size_insert, AppEntry.departures]
    split <;> omega
  · intro name
    dsimp only
    rw [Table.find?_insert, AppEntry.signs_sign]
    by_cases hname : name = app
    · rw [if_pos hname, if_pos hname.symm, hname, RunningApp.ofSigns?_cons, h.signs]
    · rw [if_neg hname, if_neg (Ne.symm hname), h.signs]

theorem gone (h : AppsBooked l c) (now : Int) :
    AppsBooked (.gone (c.checkApps now).1 :: l) (c.checkApps now).2 := by
  have hgauge := h.gauge
  have htotal := h.departures
  have hsize : (c.checkApps now).1.length + (c.checkApps now).2.apps.size = c.apps.size := by
    rw [← Table.size_filter (t := c.apps) fun _ a => isSilent c.appTimeout now a]
    exact congrArg (· + _) (List.length_map _)
  constructor
  · show c.metrics.apps - ((c.checkApps now).1.length : Int) = _
    omega
  · show c.metrics.totalApps = _ + (AppEntry.departures l + (c.checkApps now).1.length)
    omega
  · intro app
    rw [find?_checkApps, AppEntry.signs_gone, h.signs]
    split <;> rfl

/-- Each act keeps the accounts of the apps. -/
theorem act (h : AppsBooked l c) (a : CoordinatorAct) :
    AppsBooked ((c.appNote? a).toList ++ l) (c.act a) := by
  cases a with
  | tick reading => exact h.of_eq rfl rfl rfl
  | serverHeartbeat node => exact h.of_eq rfl rfl rfl
  | appHeartbeat app => exact h.sign app
  | place q =>
    rw [appNote?, Coordinator.act]
    by_cases hreplica : q.replica ≤ 0
    · rw [if_pos hreplica, placeShuffle_of_nonpos hreplica]
      exact h
    · obtain ⟨failures, hplace⟩ := c.placeShuffle_of_pos hreplica
      rw [if_neg hreplica, hplace]
      exact (h.sign q.app).of_eq rfl rfl rfl
  | checkNodes now => exact h.of_eq rfl rfl rfl
  | checkApps now => exact h.gone now
  | look file =>
    unfold Coordinator.act refreshExclude
    cases c.excludeFile <;> exact h.of_eq rfl rfl rfl

end AppsBooked

/-- **The accounts of a coordinator.** Take any run of a new coordinator, with any readings of the
clock. A server has a node just if it was heard of since it was last removed. The gauge of servers
tells how many nodes there are, and with those that were ever removed they are as many as were
admitted. The gauge of apps tells how many apps there are, and with those that were ever removed
they are as many as were brought into being. An app is there just if it has shown a sign of life
since it was last removed, and it is kept with the times of the first and the latest of these; a
request with no replicas is none and changes nothing at all. A look for silent apps returns once
each app whose latest sign of life is further back than the timeout, and removes these and no
others. -/
theorem accounts_of_run (k : Coordinator) (timeout : Int) (as : List CoordinatorAct) :
    let start := { k with
      cluster := Cluster.start timeout
      apps := ∅
      metrics := {} }
    let c := start.acts as
    let servers := start.ledger serverNote? as
    let apps := start.ledger appNote? as
    ((∀ id, (c.cluster.node? id).isSome ↔ ServerEntry.Present servers id) ∧
      c.metrics.servers = c.cluster.nodes.size ∧
      c.metrics.totalRemoved = ServerEntry.removals servers ∧
      (c.metrics.totalRemoved : Int) = ServerEntry.admissions servers - c.cluster.nodes.size) ∧
    (c.metrics.apps = c.apps.size ∧
      c.metrics.apps = (c.metrics.totalApps : Int) - AppEntry.departures apps) ∧
    (∀ app, c.apps.find? app = RunningApp.ofSigns? app (AppEntry.signs app apps)) ∧
    (∀ q, q.replica ≤ 0 → (c.placeShuffle q).2 = c) ∧
    ∀ now, let (names, c') := c.checkApps now
      names.Nodup ∧
      (∀ app, app ∈ names ↔
        ∃ a, c.apps.find? app = some a ∧ k.appTimeout < now - a.lastHeartbeat) ∧
      ∀ app, c'.apps.find? app = if app ∈ names then none else c.apps.find? app := by
  intro start c servers apps
  obtain ⟨hservers, happs, htimeout⟩ :
      ServersBooked servers c ∧ AppsBooked apps c ∧ c.appTimeout = k.appTimeout := by
    induction as using List.reverseRecOn with
    | nil =>
      refine ⟨⟨rfl, rfl, rfl, fun id => iff_of_false nofun nofun⟩, ⟨rfl, rfl, fun app => rfl⟩, rfl⟩
    | append_singleton as a ih =>
      obtain ⟨hservers, happs, htimeout⟩ := ih
      show ServersBooked (start.ledger serverNote? (as ++ [a])) (start.acts (as ++ [a])) ∧
        AppsBooked (start.ledger appNote? (as ++ [a])) (start.acts (as ++ [a])) ∧
        (start.acts (as ++ [a])).appTimeout = k.appTimeout
      rw [ledger_concat, ledger_concat, acts_concat]
      exact ⟨hservers.act a, happs.act a, (appTimeout_act _ a).trans htimeout⟩
  have hgauge := happs.gauge
  have htotal := happs.departures
  have hremoved := hservers.removals
  have hadmitted := hservers.admissions
  refine ⟨⟨hservers.present, hservers.gauge, hremoved, by omega⟩, ⟨hgauge, by omega⟩, happs.signs,
    fun q hreplica => congrArg Prod.snd (placeShuffle_of_nonpos hreplica),
    fun now => ⟨nodup_checkApps, fun app => ?_, fun app => find?_checkApps⟩⟩
  rw [← htimeout]
  exact mem_checkApps

/-- A server is removed and admitted anew. An app is removed and comes again; a request with no
replicas does not keep it alive, and one that finds too few servers does. -/
example :
    let node : ServerNode := ⟨"a", "10.0.0.1", 80, 5, 0, 100, 1, 0, ∅⟩
    let start : Coordinator := ⟨5, .start 10, 100, 2, none, ∅, {}, none, none, none⟩
    let as : List CoordinatorAct := [.serverHeartbeat node, .appHeartbeat "app", .checkNodes 16,
      .checkApps 106, .serverHeartbeat node, .tick 3, .appHeartbeat "app", .tick 6,
      .place ⟨"app", 0, 1, 1, 0, ∅⟩, .tick 7, .place ⟨"app", 0, 1, 1, 9, ∅⟩]
    ServerEntry.admissions (start.ledger serverNote? as) = 2 ∧
      AppEntry.signs "app" (start.ledger appNote? as) = [7, 3] ∧
      AppEntry.departures (start.ledger appNote? as) = 1 := by decide +kernel

end Coordinator

end ShuffleService
