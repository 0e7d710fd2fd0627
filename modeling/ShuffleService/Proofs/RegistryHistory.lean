import Mathlib.Algebra.Order.Ring.Int
import ShuffleService.ShuffleServer
import ShuffleService.Proofs.AppRequests

/-!
# What a server remembers of its history

Registrations, accepted reports, heartbeats and purges make up the history of a server. What a
query is to answer can be read off the history alone: an app is there if something has created it
since the last purge of the whole app, a shuffle is known if it was registered or reported since
the last purge that covers it, and its ids and ranges are those that came with these requests.

The apps hold the same in two tables, and partitions are split up into shards on their first report.
`Chronicle.Sound` says that the tables agree with the history; each event preserves it
(`Chronicle.Sound.step`), so it holds after any run (`Chronicle.sound_run`). What the queries answer
follows (`answers_of_history`).
-/

namespace ShuffleService

/-! ### Histories -/

/-- A past event that the answer to a query may depend on. -/
inductive Deed
  | register (app : String) (shuffle : Int) (ranges : List PartitionRange)
  /-- A report that was accepted. -/
  | report (app : String) (shuffle : Int) (ids : BlockIdTracker.Report)
  | heartbeat (app : String)
  /-- A purge that was carried out. -/
  | purge (reason : PurgeReason)

/-- What has happened, the latest first. -/
abbrev History := List Deed

namespace PurgeReason

/-- Whether a purge drops an app as a whole. -/
def endsApp (app : String) (reason : PurgeReason) : Bool :=
  reason.app = app && reason.shuffle? = none

/-- Whether a purge drops a shuffle of an app, alone or with the app. -/
def covers (app : String) (shuffle : Int) (reason : PurgeReason) : Bool :=
  reason.app = app && (reason.shuffle? = none || reason.shuffle? = some shuffle)

end PurgeReason

namespace Deed

/-- The app that a deed is about. -/
def app : Deed → String
  | register app .. => app
  | report app .. => app
  | heartbeat app => app
  | purge reason => reason.app

/-- Whether a deed is a purge that passes a test. -/
def isPurge (test : PurgeReason → Bool) : Deed → Bool
  | purge reason => test reason
  | _ => false

end Deed

namespace History

variable {app : String} {s p : Int} {x : Nat} {g : PartitionRange} {d : Deed} {h : History}

/-- What has happened since the last purge that passes a test. -/
def since (h : History) (test : PurgeReason → Bool) : History :=
  h.takeWhile fun d => !d.isPurge test

/-- Something has created the app since it was last purged. -/
def Created (h : History) (app : String) : Prop :=
  ∃ d ∈ h.since (·.endsApp app),
    d = .heartbeat app ∨ ∃ shuffle ranges, d = .register app shuffle ranges

/-- The shuffle was registered or reported since it was last purged. -/
def Known (h : History) (app : String) (shuffle : Int) : Prop :=
  ∃ d ∈ h.since (·.covers app shuffle),
    (∃ ranges, d = .register app shuffle ranges) ∨ ∃ ids, d = .report app shuffle ids

/-- A range of the shuffle was registered since the shuffle was last purged. -/
def Ranged (h : History) (app : String) (shuffle : Int) (g : PartitionRange) : Prop :=
  ∃ d ∈ h.since (·.covers app shuffle), ∃ ranges, d = .register app shuffle ranges ∧ g ∈ ranges

/-- A block id was reported for the partition since the shuffle was last purged. -/
def Reported (h : History) (app : String) (shuffle partition : Int) (x : Nat) : Prop :=
  ∃ d ∈ h.since (·.covers app shuffle), ∃ ids, d = .report app shuffle ids ∧
    ∃ part ∈ ids, part.1 = partition ∧ ∃ id ∈ part.2, IdSet.key id = x

/-- A purge that passes the test ends the past; another deed adds to it. -/
theorem exists_since_cons {test : PurgeReason → Bool} {P : Deed → Prop} :
    (∃ e ∈ since (d :: h) test, P e) ↔
      d.isPurge test = false ∧ (P d ∨ ∃ e ∈ h.since test, P e) := by
  unfold since
  cases hd : d.isPurge test <;> simp [hd]

theorem created_cons : Created (d :: h) app ↔ d.isPurge (·.endsApp app) = false ∧
    ((d = .heartbeat app ∨ ∃ shuffle ranges, d = .register app shuffle ranges) ∨
      h.Created app) := exists_since_cons

theorem known_cons : Known (d :: h) app s ↔ d.isPurge (·.covers app s) = false ∧
    (((∃ ranges, d = .register app s ranges) ∨ ∃ ids, d = .report app s ids) ∨
      h.Known app s) := exists_since_cons

theorem ranged_cons : Ranged (d :: h) app s g ↔ d.isPurge (·.covers app s) = false ∧
    ((∃ ranges, d = .register app s ranges ∧ g ∈ ranges) ∨ h.Ranged app s g) :=
  exists_since_cons

theorem reported_cons : Reported (d :: h) app s p x ↔ d.isPurge (·.covers app s) = false ∧
    ((∃ ids, d = .report app s ids ∧
        ∃ part ∈ ids, part.1 = p ∧ ∃ id ∈ part.2, IdSet.key id = x) ∨
      h.Reported app s p x) := exists_since_cons

theorem Ranged.known (hg : h.Ranged app s g) : h.Known app s := by
  obtain ⟨d, hd, ranges, rfl, -⟩ := hg
  exact ⟨_, hd, .inl ⟨ranges, rfl⟩⟩

theorem Reported.known (hx : h.Reported app s p x) : h.Known app s := by
  obtain ⟨d, hd, ids, rfl, -⟩ := hx
  exact ⟨_, hd, .inr ⟨ids, rfl⟩⟩

/-- A deed about another app changes nothing for this one. -/
theorem frame (hd : d.app ≠ app) :
    (Created (d :: h) app ↔ h.Created app) ∧
      ∀ s, (Known (d :: h) app s ↔ h.Known app s) ∧
        (∀ g, Ranged (d :: h) app s g ↔ h.Ranged app s g) ∧
        ∀ p x, Reported (d :: h) app s p x ↔ h.Reported app s p x := by
  have hends : d.isPurge (·.endsApp app) = false := by
    cases d <;> simp_all [Deed.isPurge, PurgeReason.endsApp, Deed.app]
  have hcovers (s : Int) : d.isPurge (·.covers app s) = false := by
    cases d <;> simp_all [Deed.isPurge, PurgeReason.covers, Deed.app]
  simp only [created_cons, known_cons, ranged_cons, reported_cons, hends, hcovers, true_and]
  cases d <;> simp_all [Deed.app]

end History

/-! ### Apps and their history -/

/-- What an app holds is what its history says. -/
structure App.Tells (a : App) (app : String) (h : History) : Prop where
  name : a.name = app
  sized : a.tracker.Sized
  known : ∀ s, a.isRegistered s = true ↔ h.Known app s
  ranges : ∀ s, ((a.ranges? s).getD []).Pairwise PartitionRange.Before ∧
    ∀ g, g ∈ (a.ranges? s).getD [] ↔ h.Ranged app s g
  ids : ∀ s p x, x ∈ (a.tracker.blockIds s p).set ↔ h.Reported app s p x

namespace App.Tells

variable {a : App} {app : String} {h : History} {now : Nat} {shuffle task bitmaps : Int}

/-- Heartbeats and scans are not remembered. -/
theorem of_tables {b : App} (ha : a.Tells app h) (hname : b.name = a.name)
    (hshuffles : b.shuffles = a.shuffles) (htracker : b.tracker = a.tracker) : b.Tells app h := by
  obtain ⟨name, time, shuffles, tracker, notified⟩ := b
  subst hname hshuffles htracker
  exact ⟨ha.name, ha.sized, ha.known, ha.ranges, ha.ids⟩

/-- A new app holds nothing. -/
theorem new (hnone : ∀ s, ¬ h.Known app s) : (App.new app now).Tells app h where
  name := rfl
  sized := fun k shards hk => by cases hk
  known := fun s => iff_of_false (by simp [App.new, isRegistered, Table.contains]) (hnone s)
  ranges := fun s => ⟨.nil, fun g => iff_of_false List.not_mem_nil fun hg => hnone s hg.known⟩
  ids := fun s p x => iff_of_false (IdSet.not_mem_empty x) fun hx => hnone s hx.known

theorem register (ha : a.Tells app h) (ranges : List PartitionRange) :
    (a.register now shuffle ranges).Tells app (.register app shuffle ranges :: h) where
  name := ha.name
  sized := ha.sized
  known := fun s => by
    rw [isRegistered_eq, ranges?_register, History.known_cons]
    have hknown := ha.known s
    rw [isRegistered_eq] at hknown
    split
    · rename_i hs
      simp [Deed.isPurge, hs]
    · rename_i hs
      simp [Deed.isPurge, hknown, Ne.symm hs]
  ranges := fun s => by
    rw [ranges?_register]
    split
    · rename_i hs
      subst hs
      obtain ⟨hbefore, hmem⟩ := ha.ranges s
      obtain ⟨hbefore', hmem'⟩ := mergeRanges_spec (hbefore.imp PartitionRange.Before.ne) ranges
      refine ⟨hbefore', fun g => ?_⟩
      rw [Option.getD_some, hmem', hmem, History.ranged_cons]
      simp [Deed.isPurge, or_comm]
    · rename_i hs
      refine ⟨(ha.ranges s).1, fun g => ?_⟩
      rw [(ha.ranges s).2, History.ranged_cons]
      simp [Deed.isPurge, Ne.symm hs]
  ids := fun s p x => by
    have hids : (a.register now shuffle ranges).tracker = a.tracker := rfl
    rw [hids, ha.ids, History.reported_cons]
    simp [Deed.isPurge]

/-- An accepted report. -/
theorem report (ha : a.Tells app h) (hpos : 0 < bitmaps) {ids : BlockIdTracker.Report} {b : App}
    {added : Nat} (hb : a.report now shuffle task bitmaps ids = .ok (b, added)) :
    b.Tells app (.report app shuffle ids :: h) := by
  rw [report_eq, if_neg (by omega)] at hb
  cases hb
  -- the shuffle is registered along with the report, with the ranges that it had, if any
  obtain ⟨hsized, hmem⟩ :=
    BlockIdTracker.reportAll_spec ha.sized shuffle (show 0 < bitmaps.toNat by omega) ids
  have hranges (s : Int) : ((a.shuffles.insert shuffle ((a.ranges? shuffle).getD [])).find? s) =
      if s = shuffle then some ((a.ranges? s).getD []) else a.ranges? s := by
    rw [Table.find?_insert]
    split
    · rename_i hs
      rw [hs]
    · rfl
  constructor
  · exact ha.name
  · exact hsized
  · intro s
    rw [isRegistered_eq, ranges?, hranges, History.known_cons]
    have hknown := ha.known s
    rw [isRegistered_eq] at hknown
    split
    · rename_i hs
      simp [Deed.isPurge, hs]
    · rename_i hs
      simp [Deed.isPurge, hknown, Ne.symm hs]
  · intro s
    have hsame : ((a.shuffles.insert shuffle ((a.ranges? shuffle).getD [])).find? s).getD [] =
        (a.ranges? s).getD [] := by
      rw [hranges]
      split <;> rfl
    rw [ranges?, hsame]
    refine ⟨(ha.ranges s).1, fun g => ?_⟩
    rw [(ha.ranges s).2, History.ranged_cons]
    simp [Deed.isPurge]
  · intro s p x
    rw [hmem, ha.ids, History.reported_cons]
    simp only [Deed.isPurge, Deed.report.injEq, true_and]
    grind

theorem heartbeat (ha : a.Tells app h) : a.Tells app (.heartbeat app :: h) where
  name := ha.name
  sized := ha.sized
  known := fun s => by
    rw [ha.known, History.known_cons]
    simp [Deed.isPurge]
  ranges := fun s => ⟨(ha.ranges s).1, fun g => by
    rw [(ha.ranges s).2, History.ranged_cons]
    simp [Deed.isPurge]⟩
  ids := fun s p x => by
    rw [ha.ids, History.reported_cons]
    simp [Deed.isPurge]

/-- The purge of one shuffle. -/
theorem purge (ha : a.Tells app h) :
    (a.purge (.shuffleUnregistered app shuffle)).1.Tells app
      (.purge (.shuffleUnregistered app shuffle) :: h) := by
  have hranges (s : Int) : (a.shuffles.erase shuffle).find? s =
      if s = shuffle then none else a.ranges? s := Table.find?_erase
  have hcovers (s : Int) : PurgeReason.covers app s (.shuffleUnregistered app shuffle) =
      decide (s = shuffle) := by
    simp [PurgeReason.covers, PurgeReason.app, PurgeReason.shuffle?, eq_comm]
  rw [purge_shuffle]
  constructor
  · exact ha.name
  · exact BlockIdTracker.sized_purgeWhere ha.sized _
  · intro s
    rw [isRegistered_eq, ranges?, hranges, History.known_cons]
    have hknown := ha.known s
    rw [isRegistered_eq] at hknown
    split <;> rename_i hs <;> simp [Deed.isPurge, hcovers, hs, hknown]
  · intro s
    rw [ranges?, hranges]
    split
    · rename_i hs
      refine ⟨.nil, fun g => ?_⟩
      rw [History.ranged_cons]
      simp [Deed.isPurge, hcovers, hs]
    · rename_i hs
      refine ⟨(ha.ranges s).1, fun g => ?_⟩
      rw [(ha.ranges s).2, History.ranged_cons]
      simp [Deed.isPurge, hcovers, hs]
  · intro s p x
    rw [BlockIdTracker.mem_blockIds_purgeWhere, ha.ids, History.reported_cons]
    simp [Deed.isPurge, hcovers]

end App.Tells

/-! ### Events -/

/-- Something that happens to the apps of a server. A purge is the one that has waited longest; it
may come at any time. -/
inductive RegistryEvent
  | request (now : Nat) (q : ServerRequest)
  | scan (now : Nat)
  | purge

/-- What an event leaves of the purges that wait: one of them is carried out, or none. -/
def RegistryEvent.leaves {α : Type} : RegistryEvent → List α → List α
  | .purge, waiting => waiting.tail
  | _, waiting => waiting

namespace AppRegistry

variable {r : AppRegistry} {app app' : String} {now : Nat}

/-- The registry after a request. -/
def accept (r : AppRegistry) (now : Nat) : ServerRequest → AppRegistry
  | .register app shuffle ranges => r.register now app shuffle ranges
  | .report app shuffle task bitmaps ids =>
    match r.report now app shuffle task bitmaps ids with
    | .ok (r', _) => r'
    | .error _ => r
  | .blockIds app shuffle partition => (r.blockIds now app shuffle partition).2
  | .blockIdsOfAll app shuffle partitions => (r.blockIdsOfAll now app shuffle partitions).2
  | .heartbeat app => r.heartbeat now app
  | .unregisterShuffle app shuffle => r.unregisterShuffle app shuffle
  | .unregisterApp app => r.unregisterApp app

/-- The registry after an event. -/
def after (r : AppRegistry) : RegistryEvent → AppRegistry
  | .request now q => r.accept now q
  | .scan now => (r.detectExpired now).2
  | .purge => r.purgeNext

/-- What is remembered of an event. -/
def deed? (r : AppRegistry) : RegistryEvent → Option Deed
  | .request _ (.register app shuffle ranges) => some (.register app shuffle ranges)
  | .request now (.report app shuffle task bitmaps ids) =>
    match r.report now app shuffle task bitmaps ids with
    | .ok _ => some (.report app shuffle ids)
    | .error _ => none
  | .request _ (.heartbeat app) => some (.heartbeat app)
  | .purge => r.queue.head?.map .purge
  | _ => none

/-- The purges that an event asks for. -/
def asks (r : AppRegistry) : RegistryEvent → List PurgeReason
  | .request _ (.unregisterShuffle app shuffle) => [.shuffleUnregistered app shuffle]
  | .request _ (.unregisterApp app) => [.appUnregistered app]
  | .scan now => (r.detectExpired now).1.map .appExpired
  | _ => []

/-- Each app is held under its own name. -/
def Named (r : AppRegistry) : Prop := ∀ app a, r.find? app = some a → a.name = app

@[simp] theorem find?_put {a : App} :
    (r.put a).find? app = if app = a.name then some a else r.find? app :=
  Table.find?_insert

theorem find?_put_getOrCreate {a : App} (ha : a.name = app) :
    ((r.getOrCreate now app).2.put a).find? app' = if app' = app then some a else r.find? app' := by
  subst ha
  unfold getOrCreate
  cases h : r.find? a.name with
  | some _ => simp
  | none =>
    simp only [find?, put, Table.find?_insert, App.new]
    split <;> rfl

theorem report_of_none (h : r.find? app = none) (now : Nat) (shuffle task bitmaps : Int)
    (ids : BlockIdTracker.Report) :
    r.report now app shuffle task bitmaps ids = .error (.appNotFound app) := by
  unfold report
  rw [h]

theorem report_of_some {a : App} (h : r.find? app = some a) (now : Nat)
    (shuffle task bitmaps : Int) (ids : BlockIdTracker.Report) :
    r.report now app shuffle task bitmaps ids =
      (a.report now shuffle task bitmaps ids).map fun (b, added) =>
        ({ r.put b with
          metrics := { r.metrics with
            blockIds := r.metrics.blockIds + added
            totalReported := r.metrics.totalReported + (ids.map (·.2.length)).sum } }, added) := by
  unfold report
  rw [h]
  dsimp only
  cases a.report now shuffle task bitmaps ids <;> rfl

/-- A report that is accepted is one that the app accepts. -/
theorem exists_of_report {shuffle task bitmaps : Int} {ids : BlockIdTracker.Report}
    {r' : AppRegistry} {added : Nat}
    (h : r.report now app shuffle task bitmaps ids = .ok (r', added)) :
    ∃ a b, r.find? app = some a ∧ a.report now shuffle task bitmaps ids = .ok (b, added) ∧
      r' = { r.put b with
        metrics := { r.metrics with
          blockIds := r.metrics.blockIds + added
          totalReported := r.metrics.totalReported + (ids.map (·.2.length)).sum } } := by
  cases hfind : r.find? app with
  | none =>
    rw [report_of_none hfind] at h
    cases h
  | some a =>
    rw [report_of_some hfind] at h
    cases hreport : a.report now shuffle task bitmaps ids with
    | error e =>
      rw [hreport] at h
      cases h
    | ok res =>
      rw [hreport] at h
      cases h
      exact ⟨a, res.1, rfl, hreport, rfl⟩

/-- A query is a heartbeat of the app, if there is one. -/
theorem query_cases {ask : App → Except ShuffleError IdBitmap × App}
    (hask : ∀ a, ∃ t, (ask a).2 = a.heartbeat t) :
    (r.query app ask).2 = r ∨
      ∃ a t, r.find? app = some a ∧ (r.query app ask).2 = r.put (a.heartbeat t) := by
  unfold query
  cases hfind : r.find? app with
  | none => exact .inl rfl
  | some a =>
    obtain ⟨t, ht⟩ := hask a
    exact .inr ⟨a, t, rfl, congrArg r.put ht⟩

/-- A report that is refused leaves everything as it is. -/
theorem accept_refused {shuffle task bitmaps : Int} {ids : BlockIdTracker.Report} {e : ShuffleError}
    (h : r.report now app shuffle task bitmaps ids = .error e) :
    r.accept now (.report app shuffle task bitmaps ids) = r := by
  unfold accept
  dsimp only
  rw [h]

/-- A purge takes an app, or a shuffle out of it. Nothing happens where the app is not there. -/
theorem find?_purge {reason : PurgeReason}
    (hname : ∀ a, r.find? reason.app = some a → a.name = reason.app) :
    (r.purge reason).2.find? app =
      if app = reason.app then
        (r.find? reason.app).bind fun a =>
          reason.shuffle?.map fun _ => (a.purge reason).1
      else r.find? app := by
  unfold purge
  cases hfind : r.find? reason.app with
  | none =>
    show r.find? app = _
    split
    · rename_i h
      rw [h, hfind]
      rfl
    · rfl
  | some a =>
    have ha := hname a hfind
    cases reason with
    | shuffleUnregistered app' shuffle =>
      show (r.put (a.purge (.shuffleUnregistered app' shuffle)).1).find? app = _
      have hsame : (a.purge (.shuffleUnregistered app' shuffle)).1.name = app' := ha
      rw [find?_put, hsame]
      rfl
    | appUnregistered app' => exact Table.find?_erase
    | appExpired app' => exact Table.find?_erase

/-- Two registries have the same purges waiting, and the same timeout. -/
def SameQueue (r r' : AppRegistry) : Prop := r'.queue = r.queue ∧ r'.timeout = r.timeout

theorem sameQueue_getOrCreate : r.SameQueue (r.getOrCreate now app).2 := by
  unfold getOrCreate
  cases r.find? app <;> exact ⟨rfl, rfl⟩

theorem sameQueue_query (ask : App → Except ShuffleError IdBitmap × App) :
    r.SameQueue (r.query app ask).2 := by
  unfold query
  cases r.find? app <;> exact ⟨rfl, rfl⟩

theorem sameQueue_purge (reason : PurgeReason) : r.SameQueue (r.purge reason).2 := by
  unfold purge
  cases r.find? reason.app with
  | none => exact ⟨rfl, rfl⟩
  | some a => cases reason <;> exact ⟨rfl, rfl⟩

theorem sameQueue_report {shuffle task bitmaps : Int} {ids : BlockIdTracker.Report}
    {r' : AppRegistry} {added : Nat}
    (h : r.report now app shuffle task bitmaps ids = .ok (r', added)) : r.SameQueue r' := by
  obtain ⟨a, b, -, -, rfl⟩ := exists_of_report h
  exact ⟨rfl, rfl⟩

/-- Purges are carried out in the order in which they were asked for. -/
theorem queue_after (r : AppRegistry) (e : RegistryEvent) :
    (r.after e).queue = e.leaves r.queue ++ r.asks e ∧ (r.after e).timeout = r.timeout := by
  have hquiet {r' : AppRegistry} (h : r.SameQueue r') :
      r'.queue = r.queue ++ [] ∧ r'.timeout = r.timeout := by
    rw [List.append_nil]
    exact h
  cases e with
  | scan now => exact ⟨rfl, rfl⟩
  | purge =>
    simp only [after, purgeNext, RegistryEvent.leaves, asks, List.append_nil]
    cases hqueue : r.queue with
    | nil => exact ⟨hqueue, rfl⟩
    | cons reason rest => exact sameQueue_purge (r := { r with queue := rest }) reason
  | request now q =>
    cases q with
    | unregisterShuffle app shuffle => exact ⟨rfl, rfl⟩
    | unregisterApp app => exact ⟨rfl, rfl⟩
    | register app shuffle ranges => exact hquiet sameQueue_getOrCreate
    | heartbeat app => exact hquiet sameQueue_getOrCreate
    | blockIds app shuffle partition => exact hquiet (sameQueue_query _)
    | blockIdsOfAll app shuffle partitions => exact hquiet (sameQueue_query _)
    | report app shuffle task bitmaps ids =>
      refine hquiet ?_
      unfold after accept
      dsimp only
      cases hreport : r.report now app shuffle task bitmaps ids with
      | error e => exact ⟨rfl, rfl⟩
      | ok res => exact sameQueue_report hreport

end AppRegistry

/-- A registry with what has happened to it. -/
structure Chronicle where
  registry : AppRegistry
  history : History

namespace Chronicle

variable {c : Chronicle} {app : String} {now : Nat}

/-- A registry without apps, and no past. -/
def start (timeout : Nat) : Chronicle where
  registry := { timeout := timeout }
  history := []

/-- Let something happen. -/
def step (c : Chronicle) (e : RegistryEvent) : Chronicle where
  registry := c.registry.after e
  history := (c.registry.deed? e).toList ++ c.history

/-- Let one thing happen after the other. -/
def run (timeout : Nat) (es : List RegistryEvent) : Chronicle := es.foldl step (start timeout)

/-- What a registry holds for a name is what its history says. -/
def Vouched (app : String) (h : History) : Option App → Prop
  | none => ¬ h.Created app ∧ ∀ s, ¬ h.Known app s
  | some a => h.Created app ∧ a.Tells app h

/-- The registry agrees with the history. -/
def Sound (c : Chronicle) : Prop := ∀ app, Vouched app c.history (c.registry.find? app)

/-- Under a name there is either nothing, and no history, or an app that agrees with its history. -/
theorem Sound.cases (hc : c.Sound) (app : String) :
    (c.registry.find? app = none ∧ ¬ c.history.Created app ∧ ∀ s, ¬ c.history.Known app s) ∨
      ∃ a, c.registry.find? app = some a ∧ c.history.Created app ∧ a.Tells app c.history := by
  have happ := hc app
  cases hfind : c.registry.find? app with
  | none =>
    rw [hfind] at happ
    exact .inl ⟨rfl, happ⟩
  | some a =>
    rw [hfind] at happ
    exact .inr ⟨a, rfl, happ⟩

theorem Sound.named (hc : c.Sound) : c.registry.Named := by
  intro app a h
  have happ := hc app
  rw [h] at happ
  exact happ.2.name

theorem Vouched.frame {d : Deed} {h : History} {o : Option App} (hd : d.app ≠ app)
    (ho : Vouched app h o) : Vouched app (d :: h) o := by
  obtain ⟨hcreated, hrest⟩ := History.frame (h := h) hd
  cases o with
  | none => exact ⟨fun hc => ho.1 (hcreated.1 hc), fun s hs => ho.2 s ((hrest s).1.1 hs)⟩
  | some a =>
    refine ⟨hcreated.2 ho.1, ho.2.name, ho.2.sized, fun s => ?_, fun s => ?_, fun s p x => ?_⟩
    · rw [ho.2.known, (hrest s).1]
    · exact ⟨(ho.2.ranges s).1, fun g => by rw [(ho.2.ranges s).2, (hrest s).2.1]⟩
    · rw [ho.2.ids, (hrest s).2.2]

/-- An app that is there, or one that is brought into being, agrees with the history. -/
theorem Sound.getOrCreate (hc : c.Sound) :
    (c.registry.getOrCreate now app).1.Tells app c.history := by
  unfold AppRegistry.getOrCreate
  rcases hc.cases app with ⟨hfind, -, hknown⟩ | ⟨a, hfind, -, ha⟩
  · rw [hfind]
    exact .new hknown
  · rw [hfind]
    exact ha

/-- A deed about one app leaves the other apps as they are. -/
theorem Sound.of_deed (hc : c.Sound) {r : AppRegistry} {d : Deed} {o : Option App}
    (hr : ∀ app', r.find? app' = if app' = d.app then o else c.registry.find? app')
    (ho : Vouched d.app (d :: c.history) o) : Sound ⟨r, d :: c.history⟩ := by
  intro app
  show Vouched app (d :: c.history) (r.find? app)
  rw [hr]
  split
  · rename_i h
    rw [h]
    exact ho
  · rename_i h
    exact (hc app).frame (Ne.symm h)

/-- What brings an app into being and then changes it, is told by the deed. -/
theorem Sound.of_creation (hc : c.Sound) (app : String) {d : Deed} {a : App} (hd : d.app = app)
    (hcreated : History.Created (d :: c.history) app) (ha : a.Tells app (d :: c.history)) :
    Sound ⟨(c.registry.getOrCreate now app).2.put a, d :: c.history⟩ := by
  subst hd
  exact hc.of_deed (fun _ => AppRegistry.find?_put_getOrCreate ha.name) ⟨hcreated, ha⟩

theorem Sound.report (hc : c.Sound) {shuffle task bitmaps : Int} {ids : BlockIdTracker.Report}
    {r : AppRegistry} {added : Nat}
    (hr : c.registry.report now app shuffle task bitmaps ids = .ok (r, added)) :
    Sound ⟨r, .report app shuffle ids :: c.history⟩ := by
  obtain ⟨a, b, hfind, hreport, rfl⟩ := AppRegistry.exists_of_report hr
  obtain ⟨hcreated, ha⟩ : Vouched app c.history (some a) := hfind ▸ hc app
  -- a report without bitmaps is refused, which is why every partition has a shard
  have hpos : 0 < bitmaps := by
    rw [App.report_eq] at hreport
    split at hreport
    · cases hreport
    · omega
  have hb := ha.report hpos hreport
  refine hc.of_deed (d := .report app shuffle ids) (o := some b) (fun app' => ?_) ⟨?_, hb⟩
  · rw [Deed.app, ← hb.name]
    exact AppRegistry.find?_put
  · exact History.created_cons.2 ⟨rfl, .inr hcreated⟩

/-- A query is a heartbeat at most. -/
theorem Sound.query (hc : c.Sound) {ask : App → Except ShuffleError IdBitmap × App}
    (hask : ∀ a, ∃ t, (ask a).2 = a.heartbeat t) :
    Sound ⟨(c.registry.query app ask).2, c.history⟩ := by
  intro app'
  have happ := hc app'
  show Vouched app' c.history ((c.registry.query app ask).2.find? app')
  rcases AppRegistry.query_cases hask with hquery | ⟨a, t, hfind, hquery⟩
  · rw [hquery]
    exact happ
  · rw [hquery, AppRegistry.find?_put]
    split
    · rename_i hname
      -- the app is put back under its own name, which is the one that it was found under
      obtain rfl : app = app' := (hc.named app a hfind).symm.trans hname.symm
      rw [hfind] at happ
      exact ⟨happ.1, happ.2.of_tables rfl rfl rfl⟩
    · exact happ

theorem Sound.detectExpired (hc : c.Sound) :
    Sound ⟨(c.registry.detectExpired now).2, c.history⟩ := by
  intro app
  have happ := hc app
  unfold AppRegistry.detectExpired
  simp only [AppRegistry.find?, Table.find?_mapValues] at happ ⊢
  cases hfind : c.registry.apps.find? app with
  | none =>
    rw [hfind] at happ
    exact happ
  | some a =>
    rw [hfind] at happ
    refine ⟨happ.1, ?_⟩
    dsimp only
    split
    · exact happ.2.of_tables rfl rfl rfl
    · exact happ.2

/-- After the purge of a whole app nothing is remembered of it. -/
theorem vouched_none_of_end (reason : PurgeReason) (hwhole : reason.shuffle? = none) {h : History} :
    Vouched reason.app (.purge reason :: h) none := by
  refine ⟨fun hcreated => ?_, fun s hknown => ?_⟩
  · have := (History.created_cons.1 hcreated).1
    simp [Deed.isPurge, PurgeReason.endsApp, hwhole] at this
  · have := (History.known_cons.1 hknown).1
    simp [Deed.isPurge, PurgeReason.covers, hwhole] at this

theorem Sound.purge (hc : c.Sound) (reason : PurgeReason) :
    Sound ⟨(c.registry.purge reason).2, .purge reason :: c.history⟩ := by
  refine hc.of_deed (d := .purge reason)
    (fun _ => AppRegistry.find?_purge (hc.named reason.app)) ?_
  show Vouched reason.app _ _
  rcases hc.cases reason.app with ⟨hfind, hcreated, hknown⟩ | ⟨a, hfind, hcreated, ha⟩
  · rw [hfind]
    refine ⟨fun h => hcreated ?_, fun s h => hknown s ?_⟩
    · exact (History.created_cons.1 h).2.resolve_left (by simp)
    · exact (History.known_cons.1 h).2.resolve_left (by simp)
  · rw [hfind]
    cases reason with
    | shuffleUnregistered app shuffle =>
      refine ⟨History.created_cons.2 ⟨?_, .inr hcreated⟩, ha.purge⟩
      simp [Deed.isPurge, PurgeReason.endsApp, PurgeReason.shuffle?]
    | appUnregistered app => exact vouched_none_of_end (.appUnregistered app) rfl
    | appExpired app => exact vouched_none_of_end (.appExpired app) rfl

/-- Each event keeps the registry and the history in step. -/
theorem Sound.step (hc : c.Sound) (e : RegistryEvent) : (c.step e).Sound := by
  cases e with
  | scan now => exact hc.detectExpired
  | purge =>
    -- a purge is remembered when it is carried out, not when it is put into the queue
    unfold Chronicle.step AppRegistry.after AppRegistry.purgeNext AppRegistry.deed?
    cases hqueue : c.registry.queue with
    | nil => exact hc
    | cons reason rest =>
      have hrest : Sound ⟨{ c.registry with queue := rest }, c.history⟩ := hc
      exact hrest.purge reason
  | request now q =>
    cases q with
    | register app shuffle ranges =>
      refine hc.of_creation app rfl ?_ (hc.getOrCreate.register ranges)
      exact History.created_cons.2 ⟨rfl, .inl (.inr ⟨_, _, rfl⟩)⟩
    | heartbeat app =>
      refine hc.of_creation app rfl ?_ (hc.getOrCreate.heartbeat.of_tables rfl rfl rfl)
      exact History.created_cons.2 ⟨rfl, .inl (.inl rfl)⟩
    | report app shuffle task bitmaps ids =>
      simp only [Chronicle.step, AppRegistry.after, AppRegistry.accept, AppRegistry.deed?]
      cases hreport : c.registry.report now app shuffle task bitmaps ids with
      | error e => exact hc
      | ok res => exact hc.report hreport
    | blockIds app shuffle partition =>
      exact hc.query fun a => ⟨now, a.snd_query ..⟩
    | blockIdsOfAll app shuffle partitions =>
      exact hc.query fun a => ⟨now, a.snd_query ..⟩
    | unregisterShuffle app shuffle => exact hc
    | unregisterApp app => exact hc

theorem sound_start (timeout : Nat) : (start timeout).Sound := by
  refine fun app => ⟨?_, fun s => ?_⟩
  · rintro ⟨d, hd, -⟩
    exact List.not_mem_nil hd
  · rintro ⟨d, hd, -⟩
    exact List.not_mem_nil hd

/-- After any run the registry agrees with the history. -/
theorem sound_run (timeout : Nat) (es : List RegistryEvent) : (run timeout es).Sound :=
  List.foldlRecOn es step (sound_start timeout) fun _ hc e _ => hc.step e

/-- A shuffle is known only with its app. -/
theorem Sound.not_known (hc : c.Sound) (hcreated : ¬ c.history.Created app) (shuffle : Int) :
    ¬ c.history.Known app shuffle := by
  rcases hc.cases app with ⟨-, -, hknown⟩ | ⟨a, -, hcreated', -⟩
  · exact hknown shuffle
  · exact absurd hcreated' hcreated

/-! ### Answers -/

/-- What a query for ids of a shuffle is to answer: that the app is not there, else that the
shuffle is not known, else the ids. -/
inductive Answers (h : History) (app : String) (shuffle : Int) (ids : Nat → Prop) :
    Except ShuffleError IdBitmap → Prop
  | noApp (hcreated : ¬ h.Created app) : Answers h app shuffle ids (.error (.appNotFound app))
  | noShuffle (hcreated : h.Created app) (hknown : ¬ h.Known app shuffle) :
    Answers h app shuffle ids (.error (.shuffleNotFound app shuffle))
  | found {b : IdBitmap} (hcreated : h.Created app) (hknown : h.Known app shuffle)
    (hhollow : b.hollow = []) (hids : ∀ x, x ∈ b.set ↔ ids x) : Answers h app shuffle ids (.ok b)

/-- A query answers out of the tracker of the app. -/
theorem Sound.answers (hc : c.Sound) {shuffle : Int} (answer : BlockIdTracker → IdBitmap)
    {ids : Nat → Prop} (hhollow : ∀ t, (answer t).hollow = [])
    (hids : ∀ a : App, a.Tells app c.history → ∀ x, x ∈ (answer a.tracker).set ↔ ids x) :
    Answers c.history app shuffle ids
      (c.registry.query app (·.query now shuffle answer)).1 := by
  unfold AppRegistry.query
  rcases hc.cases app with ⟨hfind, hcreated, -⟩ | ⟨a, hfind, hcreated, ha⟩
  · rw [hfind]
    exact .noApp hcreated
  · rw [hfind]
    dsimp only
    rw [App.query_eq]
    dsimp only
    split
    · rename_i h
      exact .found hcreated ((ha.known shuffle).1 h) (hhollow _) (hids a ha)
    · rename_i h
      rw [ha.name]
      exact .noShuffle hcreated fun hk => h ((ha.known shuffle).2 hk)

theorem Sound.answers_blockIds (hc : c.Sound) (now : Nat) (app : String)
    (shuffle partition : Int) :
    Answers c.history app shuffle (c.history.Reported app shuffle partition)
      (c.registry.blockIds now app shuffle partition).1 :=
  hc.answers (·.blockIds shuffle partition) (fun _ => BlockIdTracker.hollow_blockIds)
    fun _ ha x => ha.ids shuffle partition x

theorem Sound.answers_blockIdsOfAll (hc : c.Sound) (now : Nat) (app : String) (shuffle : Int)
    (partitions : List Int) :
    Answers c.history app shuffle (fun x => ∃ p ∈ partitions, c.history.Reported app shuffle p x)
      (c.registry.blockIdsOfAll now app shuffle partitions).1 := by
  refine hc.answers (·.blockIdsOfAll shuffle partitions)
    (fun _ => BlockIdTracker.hollow_blockIdsOfAll) fun a ha x => ?_
  rw [BlockIdTracker.mem_blockIdsOfAll]
  simp only [ha.ids]

/-- A report is refused where there is no app, or where its number of bitmaps is not positive. -/
theorem Sound.report_cases (hc : c.Sound) (shuffle task bitmaps : Int)
    (ids : BlockIdTracker.Report) :
    match c.registry.report now app shuffle task bitmaps ids with
    | .error e => c.registry.accept now (.report app shuffle task bitmaps ids) = c.registry ∧
        (¬ c.history.Created app ∧ e = .appNotFound app ∨
          c.history.Created app ∧ bitmaps ≤ 0 ∧ e = .invalidArgument
            s!"Illegal bitmap number: {bitmaps} reported by task: {task}")
    | .ok _ => c.history.Created app ∧ 0 < bitmaps := by
  rcases hc.cases app with ⟨hfind, hcreated, -⟩ | ⟨a, hfind, hcreated, -⟩
  · have hreport := AppRegistry.report_of_none hfind now shuffle task bitmaps ids
    rw [hreport]
    exact ⟨AppRegistry.accept_refused hreport, .inl ⟨hcreated, rfl⟩⟩
  · have hreport := AppRegistry.report_of_some hfind now shuffle task bitmaps ids
    rw [App.report_eq] at hreport
    by_cases hpos : bitmaps ≤ 0
    · rw [if_pos hpos] at hreport
      rw [hreport]
      exact ⟨AppRegistry.accept_refused hreport, .inr ⟨hcreated, hpos, rfl⟩⟩
    · rw [if_neg hpos] at hreport
      rw [hreport]
      exact ⟨hcreated, by omega⟩

/-- The ranges of a shuffle are there as long as the shuffle is known. -/
theorem Sound.ranges_cases (hc : c.Sound) (shuffle : Int) :
    match (c.registry.find? app).bind (·.ranges? shuffle) with
    | none => ¬ (c.history.Created app ∧ c.history.Known app shuffle)
    | some rs => c.history.Created app ∧ c.history.Known app shuffle ∧
        rs.Pairwise PartitionRange.Before ∧ ∀ g, g ∈ rs ↔ c.history.Ranged app shuffle g := by
  rcases hc.cases app with ⟨hfind, hcreated, -⟩ | ⟨a, hfind, hcreated, ha⟩
  · rw [hfind]
    exact fun h => hcreated h.1
  · have hknown := ha.known shuffle
    have hranges := ha.ranges shuffle
    rw [App.isRegistered_eq] at hknown
    rw [hfind, Option.bind_some]
    cases hrs : a.ranges? shuffle with
    | none =>
      rw [hrs] at hknown
      exact fun h => absurd (hknown.2 h.2) (by simp)
    | some rs =>
      rw [hrs] at hknown hranges
      exact ⟨hcreated, hknown.1 rfl, hranges.1, hranges.2⟩

/-- **What a server answers.** After any requests, scans and purges, in any order, the history
tells what the queries for ids answer, what the ranges of a shuffle are, and which reports are
refused. A refused report leaves everything as it is. The purges that wait are those that requests and
scans have asked for, in that order, less those that were carried out. -/
theorem answers_of_history (timeout : Nat) (es : List RegistryEvent) (now : Nat) (app : String)
    (shuffle : Int) :
    let c := run timeout es
    (∀ partition, Answers c.history app shuffle (c.history.Reported app shuffle partition)
      (c.registry.blockIds now app shuffle partition).1) ∧
    (∀ partitions, Answers c.history app shuffle
      (fun x => ∃ p ∈ partitions, c.history.Reported app shuffle p x)
      (c.registry.blockIdsOfAll now app shuffle partitions).1) ∧
    (match (c.registry.find? app).bind (·.ranges? shuffle) with
      | none => ¬ (c.history.Created app ∧ c.history.Known app shuffle)
      | some rs => c.history.Created app ∧ c.history.Known app shuffle ∧
          rs.Pairwise PartitionRange.Before ∧ ∀ g, g ∈ rs ↔ c.history.Ranged app shuffle g) ∧
    (∀ task bitmaps ids, match c.registry.report now app shuffle task bitmaps ids with
      | .error e => c.registry.accept now (.report app shuffle task bitmaps ids) = c.registry ∧
          (¬ c.history.Created app ∧ e = .appNotFound app ∨
            c.history.Created app ∧ bitmaps ≤ 0 ∧ e = .invalidArgument
              s!"Illegal bitmap number: {bitmaps} reported by task: {task}")
      | .ok _ => c.history.Created app ∧ 0 < bitmaps) ∧
    ∀ e, (c.registry.after e).queue = e.leaves c.registry.queue ++ c.registry.asks e := by
  intro c
  have hc : c.Sound := sound_run timeout es
  exact ⟨hc.answers_blockIds now app shuffle, hc.answers_blockIdsOfAll now app shuffle,
    hc.ranges_cases shuffle, hc.report_cases shuffle, fun e => (c.registry.queue_after e).1⟩

end Chronicle

end ShuffleService
