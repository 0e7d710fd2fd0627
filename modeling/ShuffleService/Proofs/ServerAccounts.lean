import ShuffleService.Proofs.RegistryHistory
import ShuffleService.Proofs.ShardPlacement

/-!
# The counters of a server

The counters and gauges of a server are changed by each request and each purge on its own. In every
state that a server can reach they are nevertheless what a count over the whole registry, or over
the whole history, would give: `AppRegistry.Balanced` is about the gauges, `Chronicle.Accounts` adds
the totals, and each event preserves them (`Accounts.step`). What a report or a purge returns is by
how much the number of held ids changes (`counters_of_run`).
-/

namespace ShuffleService

/-! ### What the history amounts to -/

namespace Deed

/-- Whether a deed brings the app into being that it is about, if it is not there. -/
def creates : Deed → Bool
  | register .. | heartbeat _ => true
  | _ => false

/-- How many ids a report lists, repetitions included. -/
def idCount : Deed → Nat
  | report _ _ ids => (ids.map (·.2.length)).sum
  | _ => 0

end Deed

namespace History

theorem created_iff {h : History} {app : String} :
    h.Created app ↔ ((h.since (·.endsApp app)).any fun d => d.creates && d.app = app) = true := by
  unfold Created
  rw [List.any_eq_true]
  refine exists_congr fun d => and_congr_right fun _ => ?_
  simp only [Bool.and_eq_true, decide_eq_true_eq]
  cases d <;> simp [Deed.creates, Deed.app]

instance (h : History) (app : String) : Decidable (h.Created app) :=
  decidable_of_iff _ created_iff.symm

/-- How often an app was brought into being. -/
def creations : History → Nat
  | [] => 0
  | d :: h => creations h + if d.creates = true ∧ ¬ Created h d.app then 1 else 0

/-- How many ids the accepted reports listed. -/
def listedIds (h : History) : Nat := (h.map (·.idCount)).sum

/-- How many purges found no app. -/
def failedPurges : History → Nat
  | [] => 0
  | .purge reason :: h => failedPurges h + if Created h reason.app then 0 else 1
  | _ :: h => failedPurges h

end History

/-! ### Gauges -/

namespace App

theorem name_purge (a : App) (reason : PurgeReason) : (a.purge reason).1.name = a.name := by
  unfold purge
  cases reason.shuffle? <;> rfl

/-- The purge of a whole app leaves no ids. -/
theorem held_purge_whole (a : App) {reason : PurgeReason} (h : reason.shuffle? = none) :
    (a.purge reason).1.tracker.held = 0 := by
  unfold purge
  rw [h]
  have hnone : (a.tracker.partitions.filter fun _ _ => !true).entries = [] :=
    List.filter_eq_nil_iff.2 fun _ _ => Bool.false_ne_true
  show Table.total _ _ = 0
  rw [Table.total, Table.values, BlockIdTracker.purgeAll, BlockIdTracker.purgeWhere, hnone]
  rfl

end App

/-- What a purge returns is by how much the ids of the app shrink. -/
theorem BlockIdTracker.Counted.purge {a : App} (h : a.tracker.Counted) (reason : PurgeReason) :
    (a.purge reason).1.tracker.Counted ∧
      (a.purge reason).1.tracker.held + (a.purge reason).2 = a.tracker.held := by
  unfold App.purge
  cases reason.shuffle? with
  | some shuffle => exact h.purgeWhere _
  | none => exact h.purgeWhere _

namespace AppRegistry

variable {r : AppRegistry} {app : String} {now : Nat} {a b : App}

/-- How many distinct ids are held for all apps. -/
def held (r : AppRegistry) : Nat := r.apps.total (·.tracker.held)

/-- The gauges agree with what is held. -/
structure Balanced (r : AppRegistry) : Prop where
  counted : ∀ app a, r.find? app = some a → a.tracker.Counted
  blockIds : r.metrics.blockIds = r.apps.total (·.tracker.number)
  apps : r.metrics.apps = r.alive

/-- What an app holds takes the place of what it held before. -/
theorem total_put (h : r.find? a.name = some b) (f : App → Nat) :
    (r.put a).apps.total f + f b = r.apps.total f + f a := by
  have hinsert := Table.total_insert (t := r.apps) (k := a.name) (v := a) (f := f)
  unfold find? at h
  rw [h] at hinsert
  exact hinsert

theorem alive_put (h : r.find? a.name = some b) : (r.put a).alive = r.alive := by
  unfold find? at h
  show (r.apps.insert a.name a).size = _
  rw [Table.size_insert, Table.contains, h]
  rfl

/-- An app is put back with other ids, and the gauge of ids is moved by the difference. -/
theorem Balanced.put (h : r.Balanced) (hfind : r.find? a.name = some b) (ha : a.tracker.Counted)
    {m : ServerMetrics} (hblocks : m.blockIds + b.tracker.number =
      r.metrics.blockIds + a.tracker.number) (happs : m.apps = r.metrics.apps) :
    { r.put a with metrics := m }.Balanced where
  counted := by
    intro app a' h'
    have h' : (r.put a).find? app = some a' := h'
    rw [find?_put] at h'
    split at h'
    · cases h'
      exact ha
    · exact h.counted app a' h'
  blockIds := by
    have hput := total_put hfind (·.tracker.number)
    have hbefore := h.blockIds
    show m.blockIds = (r.put a).apps.total (·.tracker.number)
    omega
  apps := by
    show m.apps = (r.put a).alive
    rw [happs, h.apps, alive_put hfind]

/-- An app whose ids stay as they are. -/
theorem Balanced.put_same (h : r.Balanced) (hfind : r.find? a.name = some b)
    (ha : a.tracker = b.tracker) : (r.put a).Balanced :=
  h.put hfind (ha ▸ h.counted _ b hfind) (m := r.metrics) (by rw [ha]) rfl

theorem find?_getOrCreate :
    (r.getOrCreate now app).2.find? app = some (r.getOrCreate now app).1 := by
  unfold getOrCreate
  cases hfind : r.find? app with
  | none => exact Table.find?_insert.trans (if_pos rfl)
  | some a => exact hfind

theorem Balanced.getOrCreate (h : r.Balanced) : (r.getOrCreate now app).2.Balanced := by
  unfold AppRegistry.getOrCreate
  cases hfind : r.find? app with
  | some a => exact h
  | none =>
    unfold find? at hfind
    constructor
    · intro app' a' h'
      have h' : (r.put (App.new app now)).find? app' = some a' := h'
      rw [find?_put] at h'
      split at h'
      · cases h'
        exact BlockIdTracker.counted_new
      · exact h.counted app' a' h'
    · have hinsert := Table.total_insert (t := r.apps) (k := app) (v := App.new app now)
        (f := (·.tracker.number))
      rw [hfind] at hinsert
      exact h.blockIds.trans (congrArg Nat.cast hinsert.symm)
    · show r.metrics.apps + 1 = ((r.apps.insert app (App.new app now)).size : Int)
      rw [Table.size_insert, Table.contains, hfind, h.apps]
      rfl

/-- What bringing an app into being does to the totals. -/
theorem totals_getOrCreate (r : AppRegistry) (now : Nat) (app : String) :
    (r.getOrCreate now app).2.metrics.totalApps =
        r.metrics.totalApps + (if r.find? app = none then 1 else 0) ∧
      (r.getOrCreate now app).2.metrics.totalReported = r.metrics.totalReported ∧
      (r.getOrCreate now app).2.metrics.purgeFailures = r.metrics.purgeFailures := by
  unfold getOrCreate
  cases hfind : r.find? app <;> simp

/-- An accepted report moves the gauge of ids by what it returns, and that is by how much the ids
of its app, and of all apps together, have grown. -/
theorem Balanced.report (h : r.Balanced) (hname : r.Named) {shuffle task bitmaps : Int}
    {ids : BlockIdTracker.Report}
    (hids : ∀ part ∈ ids, ∀ id ∈ part.2, IndexRecord.fitsBytes 8 id) {r' : AppRegistry}
    {added : Nat} (hr : r.report now app shuffle task bitmaps ids = .ok (r', added)) :
    r'.Balanced ∧ (∃ a b, r.find? app = some a ∧ r'.find? app = some b ∧
      b.tracker.held = a.tracker.held + added) ∧ r'.held = r.held + added := by
  obtain ⟨a, b, hfind, hreport, rfl⟩ := exists_of_report hr
  obtain ⟨hsame, -, htracker⟩ := App.of_report hreport
  have hname : b.name = app := hsame.trans (hname app a hfind)
  subst hname
  obtain ⟨hcounted, hheld⟩ := (h.counted _ a hfind).reportAll shuffle bitmaps.toNat hids
  rw [← htracker] at hcounted hheld
  have hnumber := hcounted.number
  have hnumber' := (h.counted _ a hfind).number
  have hput := total_put hfind (·.tracker.held)
  dsimp only at hnumber hheld
  refine ⟨h.put hfind hcounted ?_ rfl, ⟨a, b, hfind, find?_put.trans (if_pos rfl), hheld⟩, ?_⟩
  · show r.metrics.blockIds + (added : Int) + _ = _
    omega
  · show (r.put b).apps.total _ = r.apps.total _ + added
    omega

theorem Balanced.query (h : r.Balanced) (hname : r.Named)
    {ask : App → Except ShuffleError IdBitmap × App} (hask : ∀ a, ∃ t, (ask a).2 = a.heartbeat t) :
    (r.query app ask).2.Balanced := by
  rcases query_cases hask with hquery | ⟨a, t, hfind, hquery⟩
  · rw [hquery]
    exact h
  · rw [hquery]
    have hsame : (a.heartbeat t).name = app := hname app a hfind
    rw [← hsame] at hfind
    exact h.put_same hfind rfl

theorem metrics_query {ask : App → Except ShuffleError IdBitmap × App} :
    (r.query app ask).2.metrics = r.metrics := by
  unfold AppRegistry.query
  cases r.find? app <;> rfl

theorem Balanced.detectExpired (h : r.Balanced) : (r.detectExpired now).2.Balanced := by
  have hmark (a : App) : (if isNewlyExpired r.timeout now a then { a with expiryNotified := true }
      else a).tracker = a.tracker := by
    split <;> rfl
  unfold AppRegistry.detectExpired
  constructor
  · intro app a ha
    simp only [find?, Table.find?_mapValues, Option.map_eq_some_iff] at ha
    obtain ⟨b, hb, rfl⟩ := ha
    rw [hmark]
    exact h.counted app b hb
  · dsimp only
    rw [Table.total_mapValues]
    simp only [hmark]
    exact h.blockIds
  · dsimp only [alive]
    rw [← Table.total_one, Table.total_mapValues, Table.total_one]
    exact h.apps

/-- A purge of an app that is not there changes nothing but the count of such purges. -/
theorem purge_of_none {reason : PurgeReason} (h : r.find? reason.app = none) :
    r.purge reason = (none, { r with
      metrics := { r.metrics with purgeFailures := r.metrics.purgeFailures + 1 } }) := by
  unfold purge
  rw [h]

/-- What a purge returns is what the purge of the app returns. -/
theorem purge_fst_of_some {reason : PurgeReason} (h : r.find? reason.app = some a) :
    (r.purge reason).1 = some (a.purge reason).2 := by
  unfold purge
  rw [h]
  dsimp only
  cases reason.shuffle? <;> rfl

/-- The totals do not change with a purge of an app that is there. -/
theorem totals_purge {reason : PurgeReason} (h : r.find? reason.app = some a) :
    (r.purge reason).2.metrics.totalApps = r.metrics.totalApps ∧
      (r.purge reason).2.metrics.totalReported = r.metrics.totalReported ∧
      (r.purge reason).2.metrics.purgeFailures = r.metrics.purgeFailures := by
  unfold purge
  rw [h]
  dsimp only
  cases reason.shuffle? <;> exact ⟨rfl, rfl, rfl⟩

/-- An app goes, and the gauges are moved by what it held. -/
theorem Balanced.erase (h : r.Balanced) (hfind : r.find? app = some a) {m : ServerMetrics}
    (hblocks : m.blockIds + a.tracker.number = r.metrics.blockIds)
    (happs : m.apps + 1 = r.metrics.apps) :
    { r with apps := r.apps.erase app, metrics := m }.Balanced ∧
      (r.apps.erase app).total (·.tracker.held) + a.tracker.held = r.held := by
  unfold find? at hfind
  have herase (f : App → Nat) : (r.apps.erase app).total f + f a = r.apps.total f := by
    have := Table.total_erase (t := r.apps) (k := app) (f := f)
    rwa [hfind] at this
  refine ⟨⟨fun app' b hb => ?_, ?_, ?_⟩, herase (·.tracker.held)⟩
  · have hb : (r.apps.erase app).find? app' = some b := hb
    rw [Table.find?_erase] at hb
    split at hb
    · cases hb
    · exact h.counted app' b hb
  · have hnumber := herase (·.tracker.number)
    have hbefore := h.blockIds
    show m.blockIds = (r.apps.erase app).total (·.tracker.number)
    omega
  · have hone := herase fun _ => 1
    rw [Table.total_one, Table.total_one] at hone
    have hbefore := h.apps
    show m.apps = (r.apps.erase app).size
    unfold alive at hbefore
    omega

/-- A purge of an app that is there moves the gauges by what goes. What it returns is by how much
the ids of the app, and of all apps together, shrink; it is never more than what was there. -/
theorem Balanced.purge (h : r.Balanced) (hname : r.Named) {reason : PurgeReason}
    (hfind : r.find? reason.app = some a) :
    (r.purge reason).2.Balanced ∧
      (a.purge reason).1.tracker.held + (a.purge reason).2 = a.tracker.held ∧
      (r.purge reason).2.held + (a.purge reason).2 = r.held := by
  have ha := h.counted _ a hfind
  obtain ⟨hcounted, hheld⟩ := ha.purge reason
  have hnumber := ha.number
  have hnumber' := hcounted.number
  have hsame : (a.purge reason).1.name = reason.app :=
    (App.name_purge a reason).trans (hname _ a hfind)
  cases hshuffle : reason.shuffle? with
  | some shuffle =>
    have hafter : (r.purge reason).2 = { r.put (a.purge reason).1 with
        metrics := { r.metrics with
          blockIds := r.metrics.blockIds - (a.purge reason).2 } } := by
      unfold AppRegistry.purge
      rw [hfind]
      dsimp only
      rw [hshuffle]
    have hfind' := hsame ▸ hfind
    have hput := total_put hfind' (·.tracker.held)
    rw [hafter]
    refine ⟨h.put hfind' hcounted ?_ rfl, hheld, ?_⟩
    · show r.metrics.blockIds - ((a.purge reason).2 : Int) + _ = _
      omega
    · show (r.put (a.purge reason).1).apps.total _ + _ = r.apps.total _
      omega
  | none =>
    have hgone := App.held_purge_whole a hshuffle
    have hafter : (r.purge reason).2 = { r with
        apps := r.apps.erase reason.app
        metrics := { r.metrics with
          blockIds := r.metrics.blockIds - (a.purge reason).2
          apps := r.metrics.apps - 1 } } := by
      unfold AppRegistry.purge
      rw [hfind]
      dsimp only
      rw [hshuffle]
    obtain ⟨hbalanced, htotal⟩ := h.erase hfind (m := (r.purge reason).2.metrics)
      (by rw [hafter]; dsimp only; omega) (by rw [hafter]; dsimp only; omega)
    rw [hafter] at hbalanced ⊢
    refine ⟨hbalanced, hheld, ?_⟩
    show (r.apps.erase reason.app).total _ + _ = r.held
    omega

end AppRegistry

/-! ### Totals -/

/-- The ids of a report are signed words. -/
def RegistryEvent.Fits : RegistryEvent → Prop
  | .request _ (.report _ _ _ _ ids) => ∀ part ∈ ids, ∀ id ∈ part.2, IndexRecord.fitsBytes 8 id
  | _ => True

instance : DecidablePred RegistryEvent.Fits := fun e => by
  unfold RegistryEvent.Fits
  split <;> infer_instance

namespace Chronicle

variable {c : Chronicle} {app : String} {now : Nat}

theorem Sound.find?_eq_none (hc : c.Sound) :
    c.registry.find? app = none ↔ ¬ c.history.Created app := by
  rcases hc.cases app with ⟨hfind, hcreated, -⟩ | ⟨a, hfind, hcreated, -⟩ <;> simp [hfind, hcreated]

/-- The gauges agree with what is held, and the totals with the history. -/
structure Accounts (c : Chronicle) : Prop where
  balanced : c.registry.Balanced
  totalApps : c.registry.metrics.totalApps = c.history.creations
  totalReported : c.registry.metrics.totalReported = c.history.listedIds
  purgeFailures : c.registry.metrics.purgeFailures = c.history.failedPurges

theorem accounts_start (timeout : Nat) : (start timeout).Accounts where
  balanced := ⟨fun _ _ h => (nomatch h), rfl, rfl⟩
  totalApps := rfl
  totalReported := rfl
  purgeFailures := rfl

/-- The purges that wait count for nothing. -/
theorem Accounts.queue (hc : c.Accounts) (queue : List PurgeReason) :
    Accounts ⟨{ c.registry with queue := queue }, c.history⟩ where
  balanced := ⟨hc.balanced.counted, hc.balanced.blockIds, hc.balanced.apps⟩
  totalApps := hc.totalApps
  totalReported := hc.totalReported
  purgeFailures := hc.purgeFailures

/-- What brings an app into being and leaves its ids alone. -/
theorem Accounts.of_creation (hc : c.Accounts) (hs : c.Sound) {d : Deed} {a : App}
    (happ : d.app = app) (hd : d.creates = true)
    (hname : a.name = (c.registry.getOrCreate now app).1.name)
    (htracker : a.tracker = (c.registry.getOrCreate now app).1.tracker) :
    Accounts ⟨(c.registry.getOrCreate now app).2.put a, d :: c.history⟩ := by
  subst happ
  obtain ⟨happs, hreported, hfailures⟩ := AppRegistry.totals_getOrCreate c.registry now d.app
  have hfind : (c.registry.getOrCreate now d.app).2.find? a.name =
      some (c.registry.getOrCreate now d.app).1 := by
    rw [hname, hs.getOrCreate.name]
    exact AppRegistry.find?_getOrCreate
  refine ⟨hc.balanced.getOrCreate.put_same hfind htracker, ?_, ?_, ?_⟩
  · refine happs.trans ?_
    rw [hc.totalApps, History.creations]
    simp [hd, hs.find?_eq_none]
  · refine hreported.trans (hc.totalReported.trans ?_)
    cases d <;> simp_all [Deed.creates, History.listedIds, Deed.idCount]
  · refine hfailures.trans (hc.purgeFailures.trans ?_)
    cases d <;> simp_all [Deed.creates, History.failedPurges]

theorem Accounts.report (hc : c.Accounts) (hs : c.Sound) {shuffle task bitmaps : Int}
    {ids : BlockIdTracker.Report}
    (hids : ∀ part ∈ ids, ∀ id ∈ part.2, IndexRecord.fitsBytes 8 id) {r : AppRegistry} {added : Nat}
    (hr : c.registry.report now app shuffle task bitmaps ids = .ok (r, added)) :
    Accounts ⟨r, .report app shuffle ids :: c.history⟩ := by
  have hbalanced := (hc.balanced.report hs.named hids hr).1
  obtain ⟨a, b, -, -, rfl⟩ := AppRegistry.exists_of_report hr
  refine ⟨hbalanced, hc.totalApps, ?_, hc.purgeFailures⟩
  show c.registry.metrics.totalReported + _ = _
  rw [hc.totalReported, Nat.add_comm]
  rfl

theorem Accounts.query (hc : c.Accounts) (hs : c.Sound)
    {ask : App → Except ShuffleError IdBitmap × App} (hask : ∀ a, ∃ t, (ask a).2 = a.heartbeat t) :
    Accounts ⟨(c.registry.query app ask).2, c.history⟩ := by
  have hmetrics : (c.registry.query app ask).2.metrics = c.registry.metrics :=
    AppRegistry.metrics_query
  refine ⟨hc.balanced.query hs.named hask, ?_, ?_, ?_⟩ <;> dsimp only <;> rw [hmetrics]
  · exact hc.totalApps
  · exact hc.totalReported
  · exact hc.purgeFailures

theorem Accounts.purge (hc : c.Accounts) (hs : c.Sound) (reason : PurgeReason) :
    Accounts ⟨(c.registry.purge reason).2, .purge reason :: c.history⟩ := by
  cases hfind : c.registry.find? reason.app with
  | none =>
    have hcreated := hs.find?_eq_none.1 hfind
    rw [AppRegistry.purge_of_none hfind]
    refine ⟨⟨hc.balanced.counted, hc.balanced.blockIds, hc.balanced.apps⟩, hc.totalApps,
      hc.totalReported.trans (Nat.zero_add _).symm, ?_⟩
    rw [History.failedPurges, if_neg hcreated, ← hc.purgeFailures]
  | some a =>
    have hcreated : c.history.Created reason.app := Decidable.not_not.1 fun hcreated => by
      rw [hs.find?_eq_none.2 hcreated] at hfind
      cases hfind
    obtain ⟨happs, hreported, hfailures⟩ := AppRegistry.totals_purge hfind
    refine ⟨(hc.balanced.purge hs.named hfind).1, happs.trans hc.totalApps,
      hreported.trans (hc.totalReported.trans (Nat.zero_add _).symm), ?_⟩
    rw [History.failedPurges, if_pos hcreated, ← hc.purgeFailures]
    exact hfailures

/-- Each event keeps the counters right. -/
theorem Accounts.step (hc : c.Accounts) (hs : c.Sound) {e : RegistryEvent} (he : e.Fits) :
    (c.step e).Accounts := by
  cases e with
  | scan now => exact ⟨hc.balanced.detectExpired, hc.totalApps, hc.totalReported, hc.purgeFailures⟩
  | purge =>
    unfold Chronicle.step AppRegistry.after AppRegistry.purgeNext AppRegistry.deed?
    cases hqueue : c.registry.queue with
    | nil => exact hc
    | cons reason rest =>
      exact (hc.queue rest).purge hs reason
  | request now q =>
    cases q with
    | register app shuffle ranges => exact hc.of_creation hs rfl rfl rfl rfl
    | heartbeat app => exact hc.of_creation hs rfl rfl rfl rfl
    | report app shuffle task bitmaps ids =>
      simp only [Chronicle.step, AppRegistry.after, AppRegistry.accept, AppRegistry.deed?]
      cases hreport : c.registry.report now app shuffle task bitmaps ids with
      | error e => exact hc
      | ok res => exact hc.report hs he hreport
    | blockIds app shuffle partition =>
      exact hc.query hs fun a => ⟨now, a.snd_query ..⟩
    | blockIdsOfAll app shuffle partitions =>
      exact hc.query hs fun a => ⟨now, a.snd_query ..⟩
    | unregisterShuffle app shuffle => exact hc.queue _
    | unregisterApp app => exact hc.queue _

/-- After any run the counters are right. -/
theorem run_accounts (timeout : Nat) (es : List RegistryEvent) (hfits : ∀ e ∈ es, e.Fits) :
    (run timeout es).Accounts := by
  refine (List.foldlRecOn es step (motive := fun c => c.Accounts ∧ c.Sound)
    ⟨accounts_start timeout, sound_start timeout⟩ fun c hc e he => ?_).1
  exact ⟨hc.1.step hc.2 (hfits e he), hc.2.step e⟩

/-- What a purge returns, and what it does to the ids. -/
theorem Accounts.of_purge (hc : c.Accounts) (hs : c.Sound) (reason : PurgeReason) :
    let r := c.registry
    match r.purge reason with
    | (none, r') => r.find? reason.app = none ∧
        r' = { r with metrics := { r.metrics with purgeFailures := r.metrics.purgeFailures + 1 } }
    | (some gone, r') => ∃ a, r.find? reason.app = some a ∧
        r'.find? reason.app = (reason.shuffle?.map fun _ => (a.purge reason).1) ∧
        (a.purge reason).1.tracker.held + gone = a.tracker.held ∧ gone ≤ a.tracker.number ∧
        r'.held + gone = r.held := by
  cases hfind : c.registry.find? reason.app with
  | none =>
    dsimp only
    rw [AppRegistry.purge_of_none hfind]
    exact ⟨hfind, rfl⟩
  | some a =>
    obtain ⟨-, happ, hall⟩ := hc.balanced.purge hs.named hfind
    have hnumber := (hc.balanced.counted _ a hfind).number
    have hpurge : c.registry.purge reason =
        (some (a.purge reason).2, (c.registry.purge reason).2) :=
      Prod.ext (AppRegistry.purge_fst_of_some hfind) rfl
    have hafter : (c.registry.purge reason).2.find? reason.app = _ :=
      AppRegistry.find?_purge (hs.named reason.app)
    rw [if_pos rfl, hfind, Option.bind_some] at hafter
    dsimp only
    rw [hpurge]
    exact ⟨a, hfind, hafter, happ, by omega, hall⟩

/-- **What the counters of a server say.** After any requests, scans and purges, each app knows how
many distinct ids are held for its partitions; the gauges are what the apps that are there add up
to; and the totals are what the history adds up to. What a report returns is by how much the ids of
its app, and of all apps together, grow. What a purge returns is by how much they shrink, and a
purge that finds no app changes nothing but the count of such purges. -/
theorem counters_of_run (timeout : Nat) (es : List RegistryEvent) (hfits : ∀ e ∈ es, e.Fits) :
    let c := run timeout es
    let r := c.registry
    (∀ app a, r.find? app = some a → a.tracker.number = a.tracker.held) ∧
    (r.metrics.blockIds = r.apps.total (·.tracker.number) ∧ r.metrics.apps = r.alive) ∧
    (r.metrics.totalApps = c.history.creations ∧ r.metrics.totalReported = c.history.listedIds ∧
      r.metrics.purgeFailures = c.history.failedPurges) ∧
    (∀ now app shuffle task bitmaps ids r' added,
      (RegistryEvent.request now (.report app shuffle task bitmaps ids)).Fits →
      r.report now app shuffle task bitmaps ids = .ok (r', added) →
      (∃ a b, r.find? app = some a ∧ r'.find? app = some b ∧
        b.tracker.held = a.tracker.held + added) ∧ r'.held = r.held + added) ∧
    ∀ reason, match r.purge reason with
      | (none, r') => r.find? reason.app = none ∧
          r' = { r with metrics := { r.metrics with purgeFailures := r.metrics.purgeFailures + 1 } }
      | (some gone, r') => ∃ a, r.find? reason.app = some a ∧
          r'.find? reason.app = (reason.shuffle?.map fun _ => (a.purge reason).1) ∧
          (a.purge reason).1.tracker.held + gone = a.tracker.held ∧ gone ≤ a.tracker.number ∧
          r'.held + gone = r.held := by
  have hs := sound_run timeout es
  have hc := run_accounts timeout es hfits
  refine ⟨fun app a h => (hc.balanced.counted app a h).number,
    ⟨hc.balanced.blockIds, hc.balanced.apps⟩,
    ⟨hc.totalApps, hc.totalReported, hc.purgeFailures⟩, ?_, hc.of_purge hs⟩
  intro now app shuffle task bitmaps ids r' added hids hr
  exact (hc.balanced.report hs.named hids hr).2

/-- Ids are reported repeatedly, and a shuffle is purged; then an app that is not there. -/
theorem counters_of_run_repeated_ids :
    let es : List RegistryEvent := [.request 0 (.register "app" 0 []),
      .request 1 (.report "app" 0 1 2 [(0, [1, -1, 1]), (1, [1])]),
      .request 2 (.report "app" 1 1 2 [(0, [1, 2])]), .request 3 (.unregisterShuffle "app" 0),
      .request 4 (.unregisterApp "other"), .purge, .purge]
    let m := (run 1000 es).registry.metrics
    (∀ e ∈ es, e.Fits) ∧ m.blockIds = (run 1000 es).registry.apps.total (·.tracker.number) ∧
      m.apps = 1 ∧ m.totalApps = 1 ∧ m.totalReported = 6 ∧ m.purgeFailures = 1 := by
  intro es m
  have hfits : ∀ e ∈ es, e.Fits := by decide
  obtain ⟨-, ⟨hblocks, happs⟩, ⟨htotal, hlisted, hfailed⟩, -⟩ := counters_of_run 1000 es hfits
  exact ⟨hfits, hblocks, happs.trans rfl, htotal.trans (by decide), hlisted.trans rfl,
    hfailed.trans (by decide)⟩

end Chronicle

end ShuffleService
