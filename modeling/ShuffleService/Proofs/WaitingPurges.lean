import ShuffleService.Proofs.RegistryHistory

/-!
# Purges that wait

A purge is carried out some time after it was asked for, and in between anything may happen. It
carries a name and nothing else, so it takes what is there under the name when its turn comes:
also what a client has brought in since it was asked for (`purge_takes_later_deeds`).

A `Docket` keeps, beside the registry, where each waiting purge comes from and what has happened
since. `purge_keeps_to_its_name` says what a purge leaves alone, what it takes, and what was asked
for at the time. A purge for silence is asked for once in the life of an app, so it does not hit a
later app of the same name unless some client has unregistered an app of that name before
(`Docket.Single`).
-/

namespace ShuffleService

/-! ### Purges that are asked for -/

namespace RegistryEvent

theorem map_leaves {α β : Type} (f : α → β) (e : RegistryEvent) (waiting : List α) :
    (e.leaves waiting).map f = e.leaves (waiting.map f) := by
  cases e <;> simp [leaves]

theorem leaves_sublist {α : Type} (e : RegistryEvent) (waiting : List α) :
    (e.leaves waiting).Sublist waiting := by
  cases e with
  | purge => exact List.tail_sublist waiting
  | _ => exact List.Sublist.refl waiting

end RegistryEvent

/-- An app goes as a whole when a client has asked for that, or for silence. -/
theorem PurgeReason.endsApp_iff {app : String} {reason : PurgeReason} :
    reason.endsApp app = true ↔ reason = .appUnregistered app ∨ reason = .appExpired app := by
  simp only [endsApp, Bool.and_eq_true, decide_eq_true_eq]
  cases reason <;> simp [PurgeReason.app, shuffle?]

/-- The app that a request is about. -/
def ServerRequest.app : ServerRequest → String
  | .register app .. => app
  | .report app .. => app
  | .blockIds app .. => app
  | .blockIdsOfAll app .. => app
  | .heartbeat app => app
  | .unregisterShuffle app _ => app
  | .unregisterApp app => app

namespace AppRegistry

variable {r : AppRegistry} {app app' : String} {now : Nat}

theorem name_getOrCreate (hname : r.Named) : (r.getOrCreate now app).1.name = app := by
  unfold getOrCreate
  cases hfind : r.find? app with
  | none => rfl
  | some a => exact hname app a hfind

/-- A scan asks for the purge of the apps that are silent for too long, unless an earlier scan has
done so, and nothing else asks for a purge for silence. -/
theorem appExpired_mem_asks {e : RegistryEvent} : .appExpired app ∈ r.asks e ↔
    ∃ now a, e = .scan now ∧ r.find? app = some a ∧ isNewlyExpired r.timeout now a = true := by
  cases e with
  | purge => simp [asks]
  | request now q => cases q <;> simp [asks]
  | scan now =>
    simp only [asks, detectExpired, List.mem_map, PurgeReason.appExpired.injEq, exists_eq_right,
      RegistryEvent.scan.injEq, exists_and_left, exists_eq_left', find?, Table.mem_keys_filter]

/-- No event asks twice for the purge of an app for silence. -/
theorem count_asks_le (r : AppRegistry) (e : RegistryEvent) (app : String) :
    (r.asks e).count (.appExpired app) ≤ 1 := by
  cases e with
  | purge => simp [asks]
  | request now q => cases q <;> simp [asks]
  | scan now =>
    have hnodup : (r.asks (.scan now)).Nodup := by
      rw [asks, List.Nodup, List.pairwise_map]
      exact (r.apps.filter _).nodup.imp fun h h' => h (PurgeReason.appExpired.inj h')
    rw [hnodup.count]
    split <;> omega

/-! ### Apps that a scan has reported -/

/-- The app is there, and a scan has asked for its purge. -/
def Notified (r : AppRegistry) (app : String) : Prop :=
  ∃ a, r.find? app = some a ∧ a.expiryNotified = true

theorem Notified.put {a : App} (h : r.Notified app)
    (ha : ∀ b, r.find? a.name = some b → a.expiryNotified = b.expiryNotified) :
    (r.put a).Notified app := by
  obtain ⟨b, hfind, hb⟩ := h
  by_cases hname : app = a.name
  · subst hname
    exact ⟨a, by rw [find?_put, if_pos rfl], (ha b hfind).trans hb⟩
  · exact ⟨b, by rw [find?_put, if_neg hname, hfind], hb⟩

theorem Notified.put_getOrCreate {a : App} (h : r.Notified app) (hname : a.name = app')
    (ha : a.expiryNotified = (r.getOrCreate now app').1.expiryNotified) :
    ((r.getOrCreate now app').2.put a).Notified app := by
  obtain ⟨b, hfind, hb⟩ := h
  by_cases happ : app = app'
  · subst happ
    refine ⟨a, by rw [find?_put_getOrCreate hname, if_pos rfl], ?_⟩
    rw [ha, getOrCreate, hfind]
    exact hb
  · exact ⟨b, by rw [find?_put_getOrCreate hname, if_neg happ, hfind], hb⟩

/-- What a purge takes of an app that a scan has reported: nothing but the app as a whole. -/
theorem Notified.purge (h : r.Notified app) (reason : PurgeReason)
    (hname : r.Named) (hend : reason.endsApp app = false) : (r.purge reason).2.Notified app := by
  obtain ⟨a, hfind, ha⟩ := h
  unfold Notified
  rw [find?_purge (hname reason.app)]
  by_cases happ : app = reason.app
  · subst happ
    rw [if_pos rfl, hfind]
    cases reason with
    | shuffleUnregistered app shuffle => exact ⟨_, rfl, ha⟩
    | appUnregistered app =>
      cases hend.symm.trans (PurgeReason.endsApp_iff.2 (.inl rfl))
    | appExpired app =>
      cases hend.symm.trans (PurgeReason.endsApp_iff.2 (.inr rfl))
  · rw [if_neg happ]
    exact ⟨a, hfind, ha⟩

theorem Notified.query (h : r.Notified app) (hname : r.Named)
    {ask : App → Except ShuffleError IdBitmap × App} (hask : ∀ a, ∃ t, (ask a).2 = a.heartbeat t) :
    (r.query app' ask).2.Notified app := by
  rcases query_cases hask with hquery | ⟨a, t, hfind, hquery⟩
  · rw [hquery]
    exact h
  · rw [hquery]
    refine h.put fun b hb => ?_
    have hsame : (a.heartbeat t).name = app' := hname app' a hfind
    rw [hsame, hfind] at hb
    cases hb
    rfl

theorem Notified.report (h : r.Notified app) (hname : r.Named) {shuffle task bitmaps : Int}
    {ids : BlockIdTracker.Report} {r' : AppRegistry} {added : Nat}
    (hr : r.report now app' shuffle task bitmaps ids = .ok (r', added)) : r'.Notified app := by
  obtain ⟨a, b, hfind, hreport, rfl⟩ := exists_of_report hr
  obtain ⟨hsame, hflag, -⟩ := App.of_report hreport
  show (r.put b).Notified app
  refine h.put fun c hc => ?_
  rw [hsame, hname app' a hfind, hfind] at hc
  cases hc
  exact hflag

/-- An app that a scan has reported stays as long as it is not purged. -/
theorem Notified.after (h : r.Notified app) (hname : r.Named) (e : RegistryEvent)
    (hend : ∀ d ∈ r.deed? e, d.isPurge (·.endsApp app) = false) : (r.after e).Notified app := by
  cases e with
  | scan now =>
    obtain ⟨a, hfind, ha⟩ := h
    unfold find? at hfind
    refine ⟨if isNewlyExpired r.timeout now a then { a with expiryNotified := true } else a, ?_, ?_⟩
    · simp [AppRegistry.after, detectExpired, find?, hfind]
    · split
      · rfl
      · exact ha
  | purge =>
    simp only [AppRegistry.after, purgeNext, deed?] at hend ⊢
    cases hqueue : r.queue with
    | nil => exact h
    | cons reason rest =>
      rw [hqueue] at hend
      exact Notified.purge (r := { r with queue := rest }) h reason hname (hend _ rfl)
  | request now q =>
    cases q with
    | unregisterShuffle app shuffle => exact h
    | unregisterApp app => exact h
    | register app' shuffle ranges => exact h.put_getOrCreate (name_getOrCreate hname) rfl
    | heartbeat app' => exact h.put_getOrCreate (name_getOrCreate hname) rfl
    | blockIds app' shuffle partition =>
      exact h.query hname fun a => ⟨now, a.snd_query ..⟩
    | blockIdsOfAll app' shuffle partitions =>
      exact h.query hname fun a => ⟨now, a.snd_query ..⟩
    | report app' shuffle task bitmaps ids =>
      simp only [AppRegistry.after, accept]
      cases hreport : r.report now app' shuffle task bitmaps ids with
      | error e => exact h
      | ok res => exact h.report hname hreport

end AppRegistry

/-! ### Where a purge comes from -/

/-- A purge that waits, and where it comes from. -/
structure WaitingPurge where
  reason : PurgeReason
  /-- The server when the purge was asked for. -/
  asked : Chronicle
  /-- The event that asked for it. -/
  cause : RegistryEvent
  /-- What has happened since, in order. -/
  since : List RegistryEvent

namespace WaitingPurge

/-- Let something happen while the purge waits. -/
def later (w : WaitingPurge) (e : RegistryEvent) : WaitingPurge :=
  { w with since := w.since ++ [e] }

/-- A client has asked for just what the purge names, or a scan has found the app silent for longer
than the timeout, and was the first to do so. -/
def Justified (timeout : Nat) (w : WaitingPurge) : Prop :=
  match w.reason with
  | .shuffleUnregistered app shuffle =>
    ∃ now, w.cause = .request now (.unregisterShuffle app shuffle)
  | .appUnregistered app => ∃ now, w.cause = .request now (.unregisterApp app)
  | .appExpired app => ∃ now a, w.cause = .scan now ∧ w.asked.registry.find? app = some a ∧
      timeout < now - a.lastHeartbeat ∧ a.expiryNotified = false

theorem justified_of_mem_asks {c : Chronicle} {e : RegistryEvent} {reason : PurgeReason}
    (h : reason ∈ c.registry.asks e) :
    Justified c.registry.timeout ⟨reason, c, e, []⟩ := by
  cases reason with
  | appExpired app =>
    obtain ⟨now, a, rfl, hfind, ha⟩ := AppRegistry.appExpired_mem_asks.1 h
    simp only [AppRegistry.isNewlyExpired, App.isExpired, Bool.and_eq_true, decide_eq_true_eq,
      Bool.not_eq_true'] at ha
    exact ⟨now, a, rfl, hfind, ha.1, ha.2⟩
  | shuffleUnregistered app shuffle =>
    cases e with
    | request now q => cases q <;> simp_all [AppRegistry.asks, Justified]
    | _ => simp [AppRegistry.asks] at h
  | appUnregistered app =>
    cases e with
    | request now q => cases q <;> simp_all [AppRegistry.asks, Justified]
    | _ => simp [AppRegistry.asks] at h

end WaitingPurge

/-- A server with the purges that wait and where they come from. -/
structure Docket where
  chronicle : Chronicle
  waiting : List WaitingPurge

namespace Docket

variable {d : Docket} {app : String} {timeout : Nat}

/-- A server on which nothing has happened. -/
def start (timeout : Nat) : Docket := ⟨.start timeout, []⟩

/-- Let something happen. -/
def step (d : Docket) (e : RegistryEvent) : Docket where
  chronicle := d.chronicle.step e
  waiting := (e.leaves d.waiting).map (·.later e) ++
    (d.chronicle.registry.asks e).map fun reason => ⟨reason, d.chronicle, e, []⟩

/-- Let one thing happen after the other. -/
def run (timeout : Nat) (es : List RegistryEvent) : Docket := es.foldl step (start timeout)

theorem chronicle_run (timeout : Nat) (es : List RegistryEvent) :
    (run timeout es).chronicle = Chronicle.run timeout es := by
  unfold run Chronicle.run
  show _ = es.foldl Chronicle.step (start timeout).chronicle
  generalize start timeout = d
  induction es generalizing d with
  | nil => rfl
  | cons e es ih => exact ih (d.step e)

/-- The purges are the ones in the queue of the registry, and each of them is justified by what has
happened. -/
structure Kept (timeout : Nat) (d : Docket) : Prop where
  sound : d.chronicle.Sound
  timeout_eq : d.chronicle.registry.timeout = timeout
  reasons : d.waiting.map (·.reason) = d.chronicle.registry.queue
  causes : ∀ w ∈ d.waiting, w.Justified timeout ∧
    d.chronicle = w.since.foldl Chronicle.step (w.asked.step w.cause)

theorem Kept.step (hd : d.Kept timeout) (e : RegistryEvent) : (d.step e).Kept timeout where
  sound := hd.sound.step e
  timeout_eq := (AppRegistry.queue_after _ e).2.trans hd.timeout_eq
  reasons := by
    show List.map _ (List.map _ _ ++ List.map _ _) = (d.chronicle.registry.after e).queue
    rw [(AppRegistry.queue_after _ e).1, ← hd.reasons, List.map_append, List.map_map, List.map_map,
      ← RegistryEvent.map_leaves]
    congr 1
    exact List.map_id _
  causes := by
    intro w hw
    rcases List.mem_append.1 hw with hw | hw
    · obtain ⟨w, hmem, rfl⟩ := List.mem_map.1 hw
      obtain ⟨hjust, hsince⟩ := hd.causes w ((e.leaves_sublist _).mem hmem)
      refine ⟨hjust, ?_⟩
      show d.chronicle.step e = (w.since ++ [e]).foldl Chronicle.step (w.asked.step w.cause)
      rw [List.foldl_append, ← hsince]
      rfl
    · obtain ⟨reason, hmem, rfl⟩ := List.mem_map.1 hw
      exact ⟨hd.timeout_eq ▸ WaitingPurge.justified_of_mem_asks hmem, rfl⟩

theorem kept_run (timeout : Nat) (es : List RegistryEvent) : (run timeout es).Kept timeout := by
  refine List.foldlRecOn es step (motive := Kept timeout) ?_ fun _ hd e _ => hd.step e
  exact ⟨Chronicle.sound_start timeout, rfl, rfl, fun w hw => absurd hw List.not_mem_nil⟩

/-! ### One purge for silence -/

/-- At most one purge of the app for silence waits, and the app that it will find is the one that
was silent. -/
def Single (app : String) (d : Docket) : Prop :=
  d.chronicle.registry.queue.count (.appExpired app) ≤ 1 ∧
    ∀ w ∈ d.waiting, w.reason = .appExpired app → d.chronicle.registry.Notified app ∧
      ∃ later, d.chronicle.history = later ++ w.asked.history ∧
        ∀ deed ∈ later, deed.isPurge (·.endsApp app) = false

/-- An app goes as a whole when the purge that comes next says so. -/
theorem endsApp_of_deed {r : AppRegistry} {e : RegistryEvent} {deed : Deed}
    (hdeed : r.deed? e = some deed) (hend : deed.isPurge (·.endsApp app) = true) :
    e = .purge ∧ ∃ reason rest, r.queue = reason :: rest ∧ deed = .purge reason ∧
      (reason = .appUnregistered app ∨ reason = .appExpired app) := by
  cases e with
  | scan now => cases hdeed
  | purge =>
    cases hqueue : r.queue with
    | nil => simp [AppRegistry.deed?, hqueue] at hdeed
    | cons reason rest =>
      obtain rfl : .purge reason = deed := by simpa [AppRegistry.deed?, hqueue] using hdeed
      exact ⟨rfl, reason, rest, rfl, rfl, PurgeReason.endsApp_iff.1 hend⟩
  | request now q =>
    -- no request is remembered as a purge
    cases q with
    | report app' shuffle task bitmaps ids =>
      unfold AppRegistry.deed? at hdeed
      dsimp only at hdeed
      split at hdeed
      · cases hdeed
        cases hend
      · cases hdeed
    | register app' shuffle ranges =>
      cases hdeed
      cases hend
    | heartbeat app' =>
      cases hdeed
      cases hend
    | _ => cases hdeed

/-- An event that asks for no purge for silence of the app leaves the one that waits, if any. -/
theorem Single.step_quiet (hd : d.Kept timeout) (hsingle : d.Single app) {e : RegistryEvent}
    (hquiet : .appExpired app ∉ d.chronicle.registry.asks e)
    (hnever : .purge (.appUnregistered app) ∉ (d.step e).chronicle.history) :
    (d.step e).Single app := by
  obtain ⟨hcount, hfound⟩ := hsingle
  have hleft := (e.leaves_sublist d.chronicle.registry.queue).count_le (.appExpired app)
  refine ⟨?_, fun w hw hreason => ?_⟩
  · show (d.chronicle.registry.after e).queue.count _ ≤ 1
    rw [(AppRegistry.queue_after _ e).1, List.count_append, List.count_eq_zero.2 hquiet]
    omega
  · rcases List.mem_append.1 hw with hw | hw
    · obtain ⟨v, hv, rfl⟩ := List.mem_map.1 hw
      obtain ⟨hnotified, later, hlater, hends⟩ := hfound v ((e.leaves_sublist _).mem hv) hreason
      have hdeed : ∀ deed ∈ d.chronicle.registry.deed? e,
          deed.isPurge (·.endsApp app) = false := by
        intro deed hdeed
        rw [← Bool.not_eq_true]
        intro hend
        obtain ⟨rfl, reason, rest, hqueue, rfl, rfl | rfl⟩ := endsApp_of_deed hdeed hend
        · apply hnever
          show _ ∈ (d.chronicle.registry.deed? .purge).toList ++ _
          rw [hdeed]
          exact List.mem_cons_self ..
        · -- one purge for silence is carried out and another one waits, which makes two
          have htail : (.appExpired app) ∈ rest := by
            have hmem := List.mem_map_of_mem (f := (·.reason)) hv
            rw [RegistryEvent.map_leaves, hd.reasons, hqueue] at hmem
            exact hreason ▸ hmem
          rw [hqueue, List.count_cons_self] at hcount
          have := List.count_pos_iff.2 htail
          omega
      refine ⟨hnotified.after hd.sound.named e hdeed,
        (d.chronicle.registry.deed? e).toList ++ later, ?_, ?_⟩
      · show _ ++ d.chronicle.history = _
        rw [hlater, List.append_assoc]
        rfl
      · intro deed hmem
        rcases List.mem_append.1 hmem with h | h
        · exact hdeed deed (Option.mem_toList.1 h)
        · exact hends deed h
    · obtain ⟨reason, hmem, rfl⟩ := List.mem_map.1 hw
      exact absurd (hreason ▸ hmem) hquiet

/-- A scan asks for the purge of an app for silence when no such purge waits. -/
theorem Single.step_scan (hd : d.Kept timeout) (hsingle : d.Single app) {now : Nat}
    (hasked : .appExpired app ∈ d.chronicle.registry.asks (.scan now)) :
    (d.step (.scan now)).Single app := by
  obtain ⟨_, a, hscan, hfind, hexpired⟩ := AppRegistry.appExpired_mem_asks.1 hasked
  cases hscan
  have hfresh : a.expiryNotified = false := by
    simp only [AppRegistry.isNewlyExpired, Bool.and_eq_true, Bool.not_eq_true'] at hexpired
    exact hexpired.2
  have hnone : .appExpired app ∉ d.chronicle.registry.queue := by
    rw [← hd.reasons]
    intro hmem
    obtain ⟨w, hw, hreason⟩ := List.mem_map.1 hmem
    obtain ⟨⟨b, hb, hflag⟩, -⟩ := hsingle.2 w hw hreason
    rw [hfind] at hb
    cases hb
    rw [hfresh] at hflag
    cases hflag
  refine ⟨?_, fun w hw hreason => ⟨?_, ?_⟩⟩
  · show (d.chronicle.registry.after _).queue.count _ ≤ 1
    rw [(AppRegistry.queue_after _ _).1, List.count_append]
    show d.chronicle.registry.queue.count _ + _ ≤ 1
    rw [List.count_eq_zero.2 hnone]
    have := AppRegistry.count_asks_le d.chronicle.registry (.scan now) app
    omega
  · refine ⟨{ a with expiryNotified := true }, ?_, rfl⟩
    unfold AppRegistry.find? at hfind ⊢
    simp [step, Chronicle.step, AppRegistry.after, AppRegistry.detectExpired, hfind, hexpired]
  · refine ⟨[], ?_, fun _ h => absurd h List.not_mem_nil⟩
    rcases List.mem_append.1 hw with hw | hw
    · obtain ⟨v, hv, rfl⟩ := List.mem_map.1 hw
      refine absurd ?_ hnone
      rw [← hd.reasons, ← hreason]
      exact List.mem_map_of_mem (f := (·.reason)) hv
    · obtain ⟨reason, -, rfl⟩ := List.mem_map.1 hw
      rfl

theorem Single.step (hd : d.Kept timeout) (hsingle : d.Single app) (e : RegistryEvent)
    (hnever : .purge (.appUnregistered app) ∉ (d.step e).chronicle.history) :
    (d.step e).Single app := by
  by_cases hasked : .appExpired app ∈ d.chronicle.registry.asks e
  · obtain ⟨now, _, rfl, -⟩ := AppRegistry.appExpired_mem_asks.1 hasked
    exact hsingle.step_scan hd hasked
  · exact hsingle.step_quiet hd hasked hnever

/-- As long as no client has unregistered the app, a purge for silence finds the app that was
silent. -/
theorem single_run (timeout : Nat) (es : List RegistryEvent) (app : String)
    (hnever : .purge (.appUnregistered app) ∉ (run timeout es).chronicle.history) :
    (run timeout es).Single app := by
  suffices h : (run timeout es).Kept timeout ∧
      (.purge (.appUnregistered app) ∉ (run timeout es).chronicle.history →
        (run timeout es).Single app) from h.2 hnever
  refine List.foldlRecOn es step
    (motive := fun d => d.Kept timeout ∧
      (.purge (.appUnregistered app) ∉ d.chronicle.history → d.Single app)) ?_ ?_
  · exact ⟨kept_run timeout [], fun _ => ⟨Nat.zero_le 1, fun w hw => absurd hw List.not_mem_nil⟩⟩
  · intro d hd e _
    refine ⟨hd.1.step e, fun hnever => (hd.2 fun h => hnever ?_).step hd.1 e hnever⟩
    exact List.mem_append_right _ h

end Docket

/-! ### What a purge takes -/

/-- An app has lost one of its shuffles and nothing else. -/
structure App.Lost (shuffle : Int) (before after : App) : Prop where
  name : after.name = before.name
  lastHeartbeat : after.lastHeartbeat = before.lastHeartbeat
  expiryNotified : after.expiryNotified = before.expiryNotified
  gone : after.ranges? shuffle = none ∧ ∀ p x, x ∉ (after.tracker.blockIds shuffle p).set
  kept : ∀ s, s ≠ shuffle → after.ranges? s = before.ranges? s ∧
    ∀ p, after.tracker.blockIds s p = before.tracker.blockIds s p

theorem App.lost_purge (a : App) (app : String) (shuffle : Int) :
    App.Lost shuffle a (a.purge (.shuffleUnregistered app shuffle)).1 := by
  rw [App.purge_shuffle]
  refine ⟨rfl, rfl, rfl, ⟨?_, fun p x => ?_⟩, fun s hs => ⟨?_, fun p => ?_⟩⟩
  · exact Table.find?_erase.trans (if_pos rfl)
  · rw [BlockIdTracker.mem_blockIds_purgeWhere]
    simp
  · exact Table.find?_erase.trans (if_neg hs)
  · simp only [BlockIdTracker.blockIds, BlockIdTracker.shards?, BlockIdTracker.purgeWhere,
      Table.find?_filter]
    cases a.tracker.partitions.find? (s, p) <;> simp [Option.filter, hs]

/-- The purge that comes next takes an app, or a shuffle out of it. -/
theorem AppRegistry.find?_after_purge {r : AppRegistry} (hname : r.Named) {reason : PurgeReason}
    {rest : List PurgeReason} (hqueue : r.queue = reason :: rest) (app : String) :
    (r.after .purge).find? app =
      if app = reason.app then
        (r.find? reason.app).bind fun a => reason.shuffle?.map fun _ => (a.purge reason).1
      else r.find? app := by
  unfold after purgeNext
  rw [hqueue]
  exact find?_purge (r := { r with queue := rest }) (hname reason.app)

/-- What a deed of a client has brought in is there. -/
def AppRegistry.Shows (r : AppRegistry) : Deed → Prop
  | .register app shuffle ranges => ∃ a, r.find? app = some a ∧
      ∃ known, a.ranges? shuffle = some known ∧ ∀ g ∈ ranges, g ∈ known
  | .report app shuffle ids => ∃ a, r.find? app = some a ∧
      ∀ part ∈ ids, ∀ id ∈ part.2, IdSet.key id ∈ (a.tracker.blockIds shuffle part.1).set
  | .heartbeat app => ∃ a, r.find? app = some a
  | .purge _ => True

namespace Docket

/-- The purge that comes next leaves alone what has been brought in since it was asked for. -/
def SparesLater (d : Docket) : Prop :=
  ∀ w ∈ d.waiting.head?, ∀ later, d.chronicle.history = later ++ w.asked.history →
    ∀ deed ∈ later, d.chronicle.registry.Shows deed →
      (d.chronicle.registry.after .purge).Shows deed

/-- **A purge keeps to its name.** Take any run and the purge that comes next. It was asked for by
a client, for just what it names, or by a scan that found the app silent. It leaves every app of
another name as it is, and the purge of a shuffle leaves the rest of its app as well. What a client
has unregistered is gone afterwards. An app that a scan found silent is gone if nobody has asked for
it since; and unless a client has ever unregistered the app, it is still the app that was silent. -/
theorem purge_keeps_to_its_name (timeout : Nat) (es : List RegistryEvent) {w : WaitingPurge}
    {rest : List WaitingPurge} (hw : (run timeout es).waiting = w :: rest) :
    let c := Chronicle.run timeout es
    let after := c.registry.after .purge
    (w.Justified timeout ∧ c = w.since.foldl Chronicle.step (w.asked.step w.cause)) ∧
    (∀ app, app ≠ w.reason.app → after.find? app = c.registry.find? app) ∧
    match w.reason with
    | .shuffleUnregistered app shuffle => ∀ a, c.registry.find? app = some a →
        ∃ b, after.find? app = some b ∧ App.Lost shuffle a b
    | .appUnregistered app => after.find? app = none
    | .appExpired app =>
        ((∀ now q, .request now q ∈ w.since → q.app ≠ app) → after.find? app = none) ∧
        (.purge (.appUnregistered app) ∉ c.history → c.registry.Notified app ∧
          ∃ later, c.history = later ++ w.asked.history ∧
            ∀ deed ∈ later, deed.isPurge (·.endsApp app) = false) := by
  have hkept := kept_run timeout es
  have hsingle := single_run timeout es
  rw [← chronicle_run]
  generalize run timeout es = d at *
  have hmem : w ∈ d.waiting := hw ▸ List.mem_cons_self ..
  have hqueue : d.chronicle.registry.queue = w.reason :: rest.map (·.reason) := by
    rw [← hkept.reasons, hw, List.map_cons]
  have hfind := AppRegistry.find?_after_purge hkept.sound.named hqueue
  refine ⟨hkept.causes w hmem, fun app happ => (hfind app).trans (if_neg happ), ?_⟩
  cases hreason : w.reason with
  | shuffleUnregistered app shuffle =>
    intro a ha
    refine ⟨(a.purge (.shuffleUnregistered app shuffle)).1, ?_, a.lost_purge app shuffle⟩
    rw [hfind, hreason, PurgeReason.app, if_pos rfl, ha]
    rfl
  | appUnregistered app =>
    show (d.chronicle.registry.after .purge).find? app = none
    rw [hfind, hreason, PurgeReason.app, if_pos rfl]
    cases d.chronicle.registry.find? app <;> rfl
  | appExpired app =>
    refine ⟨fun _ => ?_, fun hnever => (hsingle app hnever).2 w hmem hreason⟩
    rw [hfind, hreason, PurgeReason.app, if_pos rfl]
    cases d.chronicle.registry.find? app <;> rfl

/-- A shuffle is unregistered and at once used again, while another one of the same app goes on. -/
theorem purge_keeps_to_its_name_two_shuffles :
    let es : List RegistryEvent := [.request 0 (.register "app" 0 []),
      .request 1 (.report "app" 1 1 1 [(0, [1])]), .request 2 (.unregisterShuffle "app" 0),
      .request 3 (.report "app" 0 1 1 [(0, [2])])]
    ∃ w, (run 1000 es).waiting = [w] ∧ w.reason = .shuffleUnregistered "app" 0 ∧
      ∃ a b, (Chronicle.run 1000 es).registry.find? "app" = some a ∧
        ((Chronicle.run 1000 es).registry.after .purge).find? "app" = some b ∧
        a.isRegistered 0 = true ∧ App.Lost 0 a b := by
  intro es
  refine ⟨_, rfl, rfl, ?_⟩
  obtain ⟨-, -, hlost⟩ := purge_keeps_to_its_name 1000 es rfl
  obtain ⟨b, hb, hlost⟩ := hlost _ rfl
  exact ⟨_, b, rfl, hb, rfl, hlost⟩

/-- A purge also takes what has come since it was asked for: a scan finds an app silent, and the
app goes although it is heard of again; a shuffle is unregistered, and the ids that are reported for
it afterwards go. -/
theorem purge_takes_later_deeds :
    ¬ (run 1000 [.request 0 (.register "app" 0 []), .scan 2000,
      .request 2001 (.heartbeat "app")]).SparesLater ∧
    ¬ (run 1000 [.request 0 (.register "app" 0 []), .request 1 (.unregisterShuffle "app" 0),
      .request 2 (.report "app" 0 1 1 [(0, [1])])]).SparesLater := by
  constructor
  · intro h
    obtain ⟨a, ha⟩ := h _ rfl [.heartbeat "app"] rfl _ (List.mem_singleton_self _) ⟨_, rfl⟩
    cases ha
  · intro h
    have hsound := Chronicle.sound_run 1000 [.request 0 (.register "app" 0 []),
      .request 1 (.unregisterShuffle "app" 0), .request 2 (.report "app" 0 1 1 [(0, [1])])]
    rcases hsound.cases "app" with ⟨hnone, -⟩ | ⟨a, ha, -, htells⟩
    · cases hnone
    · have hthere : IdSet.key 1 ∈ (a.tracker.blockIds 0 0).set :=
        (htells.ids 0 0 _).2 ⟨_, List.mem_cons_self .., _, rfl, _, List.mem_cons_self .., rfl, 1,
          List.mem_cons_self .., rfl⟩
      obtain ⟨b, hb, hids⟩ := h _ rfl [.report "app" 0 [(0, [1])]] rfl _
        (List.mem_singleton_self _) ⟨a, ha, by simpa using hthere⟩
      have hqueue : (run 1000 [.request 0 (.register "app" 0 []),
          .request 1 (.unregisterShuffle "app" 0),
          .request 2 (.report "app" 0 1 1 [(0, [1])])]).chronicle.registry.queue =
          [.shuffleUnregistered "app" 0] := rfl
      have hfind := AppRegistry.find?_after_purge hsound.named hqueue "app"
      rw [PurgeReason.app, if_pos rfl, ha] at hfind
      cases hfind.symm.trans hb
      exact (a.lost_purge "app" 0).gone.2 0 _
        (hids (0, [1]) (List.mem_singleton_self _) 1 (List.mem_singleton_self _))

end Docket

end ShuffleService
