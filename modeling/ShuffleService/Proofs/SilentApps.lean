import Mathlib.Data.List.Induction
import ShuffleService.Proofs.WaitingPurges

/-!
# Apps that fall silent

A scan reports an app that has been silent for too long, and asks for its purge, once in the life of
the app. It marks the app for that and never takes the mark away, so an app whose purge got lost
would stay for ever. None gets lost: as long as a marked app is there, a purge for its silence is in
the queue (`appExpired_mem_queue`), whatever else waits there for apps of the same name.

`Pulse` is what expiry depends on, and `pulse?_after` says what each event does to it. A run is cut
where an app came into being (`Life`), and `Life.pulse` reads the pulse off the events since then.
`silent_reported_once` says what a scan returns, and what becomes of the apps that it finds silent.
-/

namespace ShuffleService

namespace ServerRequest

/-- Whether a request is a sign of life of its app. A report that is refused for its number of
bitmaps is none, nor is a request for a purge. -/
def isSign : ServerRequest → Bool
  | .report _ _ _ bitmaps _ => 0 < bitmaps
  | .unregisterShuffle .. | .unregisterApp _ => false
  | _ => true

/-- Whether a request brings its app into being, if it is not there. -/
def creates : ServerRequest → Bool
  | .register .. | .heartbeat _ => true
  | _ => false

end ServerRequest

/-- When an app was last heard of, and whether a scan has reported it. -/
structure Pulse where
  last : Nat
  reported : Bool

namespace RegistryEvent

/-- The reading of the clock at an event that is a sign of life of the app. -/
def sign? (app : String) : RegistryEvent → Option Nat
  | .request now q => if q.app = app ∧ q.isSign = true then some now else none
  | _ => none

/-- The readings of the clock at the signs of life of an app, in order. -/
def signs (app : String) (es : List RegistryEvent) : List Nat := es.filterMap (sign? app)

/-- Whether the purge that comes next is carried out. -/
def isPurge : RegistryEvent → Bool
  | .purge => true
  | _ => false

/-- What an event does to the pulse of an app. -/
def move (timeout : Nat) (next : Option PurgeReason) (app : String) :
    RegistryEvent → Option Pulse → Option Pulse
  | .request now q, p =>
    if q.app = app ∧ q.isSign = true then
      if q.creates then some ⟨now, p.any (·.reported)⟩ else p.map fun p => { p with last := now }
    else p
  | .scan now, p => p.map fun p =>
    { p with reported := p.reported || decide (timeout < now - p.last) }
  | .purge, p => if next.any (·.endsApp app) then none else p

/-- An app that is not there comes into being by a request for it, and no scan has reported it. -/
theorem of_move_none {timeout : Nat} {next : Option PurgeReason} {app : String} {e : RegistryEvent}
    {p : Pulse} (h : e.move timeout next app none = some p) :
    ∃ now q, e = .request now q ∧ e.sign? app = some now ∧ p = ⟨now, false⟩ := by
  cases e with
  | scan now => cases h
  | purge => simp [move] at h
  | request now q =>
    by_cases hsign : q.app = app ∧ q.isSign = true
    · cases hcreates : q.creates with
      | true =>
        simp only [move, if_pos hsign, hcreates, if_true, Option.some.injEq] at h
        exact ⟨now, q, rfl, if_pos hsign, h.symm⟩
      | false => simp [move, hcreates] at h
    · simp [move, hsign] at h

end RegistryEvent

/-! ### The pulse of an app -/

/-- The pulse of an app. -/
def App.pulse (a : App) : Pulse := ⟨a.lastHeartbeat, a.expiryNotified⟩

namespace AppRegistry

variable {r : AppRegistry} {app app' : String} {now : Nat}

/-- The pulse of the app of a name, if there is one. -/
def pulse? (r : AppRegistry) (app : String) : Option Pulse := (r.find? app).map App.pulse

theorem pulse?_put {a : App} :
    (r.put a).pulse? app = if app = a.name then some a.pulse else r.pulse? app := by
  rw [pulse?, find?_put]
  split <;> rfl

theorem expiryNotified_getOrCreate (now : Nat) :
    (r.getOrCreate now app).1.expiryNotified = (r.pulse? app).any (·.reported) := by
  unfold getOrCreate pulse?
  cases r.find? app <;> rfl

/-- What brings an app into being, and hears of it. -/
theorem pulse?_put_getOrCreate {a : App} (hname : a.name = app')
    (hflag : a.expiryNotified = (r.getOrCreate now app').1.expiryNotified) :
    ((r.getOrCreate now app').2.put a).pulse? app =
      if app' = app then some ⟨a.lastHeartbeat, (r.pulse? app).any (·.reported)⟩
      else r.pulse? app := by
  rw [pulse?, find?_put_getOrCreate hname]
  by_cases happ : app = app'
  · subst happ
    rw [if_pos rfl, if_pos rfl, ← expiryNotified_getOrCreate now, ← hflag]
    rfl
  · rw [if_neg happ, if_neg (Ne.symm happ)]
    rfl

/-- An app that is there is heard of. -/
theorem pulse?_put_of_find? (hname : r.Named) {a b : App} (hfind : r.find? app' = some a)
    (hb : b.name = a.name) (hpulse : b.pulse = { a.pulse with last := now }) :
    (r.put b).pulse? app =
      if app' = app then (r.pulse? app).map fun p => { p with last := now } else r.pulse? app := by
  rw [pulse?_put, hb, hname app' a hfind]
  by_cases happ : app = app'
  · subst happ
    rw [if_pos rfl, if_pos rfl, hpulse, pulse?, hfind]
    rfl
  · rw [if_neg happ, if_neg (Ne.symm happ)]

/-- Nothing is heard of an app that is not there. -/
theorem pulse?_of_none (hfind : r.find? app' = none) : r.pulse? app =
    if app' = app then (r.pulse? app).map fun p => { p with last := now } else r.pulse? app := by
  by_cases happ : app' = app
  · subst happ
    rw [if_pos rfl, pulse?, hfind]
    rfl
  · rw [if_neg happ]

theorem pulse?_query (hname : r.Named) {ask : App → Except ShuffleError IdBitmap × App}
    (hask : ∀ a, (ask a).2 = a.heartbeat now) :
    (r.query app' ask).2.pulse? app =
      if app' = app then (r.pulse? app).map fun p => { p with last := now } else r.pulse? app := by
  unfold query
  cases hfind : r.find? app' with
  | none => exact pulse?_of_none hfind
  | some a =>
    dsimp only
    rw [hask]
    exact pulse?_put_of_find? hname hfind rfl rfl

theorem pulse?_report (hname : r.Named) (shuffle task bitmaps : Int)
    (ids : BlockIdTracker.Report) :
    (r.accept now (.report app' shuffle task bitmaps ids)).pulse? app =
      if app' = app ∧ 0 < bitmaps then (r.pulse? app).map fun p => { p with last := now }
      else r.pulse? app := by
  by_cases hpos : 0 < bitmaps
  · simp only [hpos, and_true]
    cases hfind : r.find? app' with
    | none =>
      rw [accept_refused (report_of_none hfind now shuffle task bitmaps ids)]
      exact pulse?_of_none hfind
    | some a =>
      unfold accept
      dsimp only
      rw [report_of_some hfind, App.report_eq, if_neg (by omega)]
      exact pulse?_put_of_find? hname hfind rfl rfl
  · -- without bitmaps the report is refused, if only because there is no app
    obtain ⟨e, he⟩ : ∃ e, r.report now app' shuffle task bitmaps ids = .error e := by
      cases hfind : r.find? app' with
      | none => exact ⟨_, report_of_none hfind ..⟩
      | some a =>
        rw [report_of_some hfind, App.report_eq, if_pos (by omega)]
        exact ⟨_, rfl⟩
    rw [accept_refused he, if_neg fun h => hpos h.2]

theorem pulse?_detectExpired : (r.detectExpired now).2.pulse? app =
    (r.pulse? app).map fun p =>
      { p with reported := p.reported || decide (r.timeout < now - p.last) } := by
  unfold detectExpired pulse? find?
  simp only [Table.find?_mapValues, Option.map_map]
  congr 1
  funext a
  simp only [Function.comp_apply, isNewlyExpired, App.isExpired, App.pulse]
  -- a scan marks an app that it finds silent and that is not marked yet
  by_cases hsilent : r.timeout < now - a.lastHeartbeat <;>
    by_cases hmarked : a.expiryNotified = true <;> simp [hsilent, hmarked]

/-- The purge of a shuffle leaves the pulse of its app. -/
theorem pulse?_purge (hname : r.Named) (reason : PurgeReason) :
    (r.purge reason).2.pulse? app = if reason.endsApp app then none else r.pulse? app := by
  rw [pulse?, find?_purge (hname reason.app)]
  by_cases happ : app = reason.app
  · subst happ
    rw [if_pos rfl, pulse?]
    cases r.find? reason.app with
    | none => simp
    | some a => cases reason <;> simp [PurgeReason.endsApp, PurgeReason.app, PurgeReason.shuffle?,
        App.purge, App.pulse]
  · have hend : reason.endsApp app = false := by simp [PurgeReason.endsApp, Ne.symm happ]
    rw [if_neg happ, hend]
    rfl

/-- A request that is a sign of life of an app moves its pulse, or gives it one. -/
theorem pulse?_accept (hname : r.Named) (q : ServerRequest) :
    (r.accept now q).pulse? app = (RegistryEvent.request now q).move r.timeout r.queue.head? app
      (r.pulse? app) := by
  unfold RegistryEvent.move
  cases q with
  | unregisterShuffle app' shuffle => simp [ServerRequest.isSign]; rfl
  | unregisterApp app' => simp [ServerRequest.isSign]; rfl
  | register app' shuffle ranges =>
    simp only [ServerRequest.app, ServerRequest.isSign, ServerRequest.creates, and_true, if_true]
    exact pulse?_put_getOrCreate (a := (r.getOrCreate now app').1.register now shuffle ranges)
      (name_getOrCreate hname) rfl
  | heartbeat app' =>
    simp only [ServerRequest.app, ServerRequest.isSign, ServerRequest.creates, and_true, if_true]
    exact pulse?_put_getOrCreate (a := (r.getOrCreate now app').1.heartbeat now)
      (name_getOrCreate hname) rfl
  | blockIds app' shuffle partition =>
    simp only [ServerRequest.app, ServerRequest.isSign, ServerRequest.creates, and_true]
    exact pulse?_query hname fun a => a.snd_query ..
  | blockIdsOfAll app' shuffle partitions =>
    simp only [ServerRequest.app, ServerRequest.isSign, ServerRequest.creates, and_true]
    exact pulse?_query hname fun a => a.snd_query ..
  | report app' shuffle task bitmaps ids =>
    simp only [ServerRequest.app, ServerRequest.isSign, ServerRequest.creates, decide_eq_true_eq]
    exact pulse?_report hname shuffle task bitmaps ids

/-- What each event does to the pulse of an app. -/
theorem pulse?_after (hname : r.Named) (e : RegistryEvent) :
    (r.after e).pulse? app = e.move r.timeout r.queue.head? app (r.pulse? app) := by
  cases e with
  | scan now => exact pulse?_detectExpired
  | request now q => exact pulse?_accept hname q
  | purge =>
    simp only [after, purgeNext, RegistryEvent.move]
    cases r.queue with
    | nil => rfl
    | cons reason rest => exact pulse?_purge (r := { r with queue := rest }) hname reason

/-- A scan reports the apps that are silent for too long and that no scan has reported. -/
theorem mem_detectExpired : app ∈ (r.detectExpired now).1 ↔
    ∃ p, r.pulse? app = some p ∧ r.timeout < now - p.last ∧ p.reported = false := by
  have hasks : .appExpired app ∈ r.asks (.scan now) ↔ _ := appExpired_mem_asks
  simp only [asks, List.mem_map, PurgeReason.appExpired.injEq, exists_eq_right,
    RegistryEvent.scan.injEq, exists_and_left, exists_eq_left'] at hasks
  rw [hasks]
  simp [pulse?, App.pulse, isNewlyExpired, App.isExpired]

theorem nodup_detectExpired : (r.detectExpired now).1.Nodup :=
  (r.apps.filter fun _ a => isNewlyExpired r.timeout now a).nodup

theorem isSome_pulse? : (r.pulse? app).isSome = (r.find? app).isSome := Option.isSome_map

end AppRegistry

/-! ### Since an app came into being -/

namespace Chronicle

variable {timeout : Nat} {app : String} {es past life : List RegistryEvent} {e : RegistryEvent}

theorem run_concat (timeout : Nat) (es : List RegistryEvent) (e : RegistryEvent) :
    run timeout (es ++ [e]) = (run timeout es).step e := List.foldl_append

theorem queue_run_concat : (run timeout (es ++ [e])).registry.queue =
    e.leaves (run timeout es).registry.queue ++ (run timeout es).registry.asks e := by
  rw [run_concat]
  exact (AppRegistry.queue_after _ e).1

theorem timeout_run (timeout : Nat) (es : List RegistryEvent) :
    (run timeout es).registry.timeout = timeout := by
  rw [← Docket.chronicle_run]
  exact (Docket.kept_run timeout es).timeout_eq

/-- What an event does to the pulse of an app, anywhere in a run. -/
theorem pulse?_run_concat : (run timeout (es ++ [e])).registry.pulse? app =
    e.move timeout (run timeout es).registry.queue.head? app
      ((run timeout es).registry.pulse? app) := by
  rw [run_concat]
  have hafter : ((run timeout es).registry.after e).pulse? app = _ :=
    AppRegistry.pulse?_after (sound_run timeout es).named e
  rwa [timeout_run] at hafter

/-- The events of a run since an app came into being: it was not there after the past, and it has
been there after each event since then. -/
inductive Life (timeout : Nat) (app : String) (past : List RegistryEvent) :
    List RegistryEvent → Prop
  | born {e : RegistryEvent} (absent : (run timeout past).registry.find? app = none)
    (present : ((run timeout (past ++ [e])).registry.find? app).isSome) : Life timeout app past [e]
  | lasts {life : List RegistryEvent} {e : RegistryEvent} (before : Life timeout app past life)
    (present : ((run timeout (past ++ (life ++ [e]))).registry.find? app).isSome) :
    Life timeout app past (life ++ [e])

/-- A scan has reported the app since it came into being. -/
def ReportedSilent (timeout : Nat) (app : String) (past life : List RegistryEvent) : Prop :=
  ∃ before now after, life = before ++ .scan now :: after ∧
    app ∈ ((run timeout (past ++ before)).registry.detectExpired now).1

/-- The app is there, and nothing has been heard of it for longer than the timeout. -/
structure Silent (timeout : Nat) (app : String) (past life : List RegistryEvent) (now : Nat) :
    Prop where
  lives : Life timeout app past life
  silent : ∃ last, (RegistryEvent.signs app life).getLast? = some last ∧ timeout < now - last

/-- After some events a request brings the app into being, which is not there before it. -/
def Recreated (timeout : Nat) (app : String) (es later : List RegistryEvent) : Prop :=
  ∃ before now q after, later = before ++ .request now q :: after ∧
    (run timeout (es ++ before)).registry.find? app = none ∧
    ((run timeout (es ++ (before ++ [.request now q]))).registry.find? app).isSome

theorem Recreated.cons {later : List RegistryEvent} (h : Recreated timeout app (es ++ [e]) later) :
    Recreated timeout app es (e :: later) := by
  obtain ⟨before, now, q, after, rfl, hgone, hback⟩ := h
  refine ⟨e :: before, now, q, after, rfl, ?_, ?_⟩
  · rwa [List.append_cons]
  · rwa [List.cons_append, List.append_cons]

/-- An app that is there came into being at some point of the run. -/
theorem exists_life (timeout : Nat) (app : String) (es : List RegistryEvent) :
    ((run timeout es).registry.find? app).isSome ↔
      ∃ past life, es = past ++ life ∧ Life timeout app past life := by
  constructor
  · intro hpresent
    induction es using List.reverseRecOn with
    | nil => cases hpresent
    | append_singleton es e ih =>
      cases hbefore : (run timeout es).registry.find? app with
      | none => exact ⟨es, [e], rfl, .born hbefore hpresent⟩
      | some a =>
        obtain ⟨past, life, rfl, hlife⟩ := ih (by rw [hbefore]; rfl)
        rw [List.append_assoc] at hpresent
        exact ⟨past, life ++ [e], List.append_assoc .., hlife.lasts hpresent⟩
  · rintro ⟨past, life, rfl, hlife⟩
    cases hlife with
    | born _ present => exact present
    | lasts _ present => exact present

theorem reportedSilent_concat : ReportedSilent timeout app past (life ++ [e]) ↔
    ReportedSilent timeout app past life ∨
      ∃ now, e = .scan now ∧ app ∈ ((run timeout (past ++ life)).registry.detectExpired now).1 := by
  constructor
  · rintro ⟨before, now, after, hsplit, hmem⟩
    rcases List.eq_nil_or_concat after with rfl | ⟨after, last, rfl⟩
    · obtain ⟨rfl, he⟩ := List.append_inj' hsplit rfl
      cases he
      exact .inr ⟨now, rfl, hmem⟩
    · rw [List.concat_eq_append, ← List.cons_append, ← List.append_assoc] at hsplit
      exact .inl ⟨before, now, after, (List.append_inj' hsplit rfl).1, hmem⟩
  · rintro (⟨before, now, after, rfl, hmem⟩ | ⟨now, rfl, hmem⟩)
    · exact ⟨before, now, after ++ [e], by simp, hmem⟩
    · exact ⟨life, now, [], rfl, hmem⟩

/-- What the pulse of an app says about its life: when the latest sign of life was, and whether a
scan has reported it. -/
theorem Life.pulse (h : Life timeout app past life) :
    ∃ p, (run timeout (past ++ life)).registry.pulse? app = some p ∧
      (RegistryEvent.signs app life).getLast? = some p.last ∧
      (p.reported = true ↔ ReportedSilent timeout app past life) := by
  induction h with
  | @born e absent present =>
    have hnone : (run timeout past).registry.pulse? app = none := by
      rw [AppRegistry.pulse?, absent]
      rfl
    rw [← AppRegistry.isSome_pulse?, Option.isSome_iff_exists] at present
    obtain ⟨p, hp⟩ := present
    have hmove := hp
    rw [pulse?_run_concat, hnone] at hmove
    obtain ⟨now, q, rfl, hsign, rfl⟩ := RegistryEvent.of_move_none hmove
    refine ⟨_, hp, by simp [RegistryEvent.signs, hsign], iff_of_false Bool.false_ne_true ?_⟩
    rintro ⟨before, t, after, hsplit, -⟩
    cases before <;> simp at hsplit
  | @lasts life e before present ih =>
    obtain ⟨p, hp, hlast, hreported⟩ := ih
    rw [← AppRegistry.isSome_pulse?, Option.isSome_iff_exists] at present
    obtain ⟨p', hp'⟩ := present
    refine ⟨p', hp', ?_⟩
    rw [reportedSilent_concat, ← hreported]
    rw [← List.append_assoc, pulse?_run_concat, hp] at hp'
    cases e with
    | purge =>
      -- the purge of the whole app would have ended its life
      simp only [RegistryEvent.move] at hp'
      split at hp'
      · cases hp'
      · cases hp'
        exact ⟨by simpa [RegistryEvent.signs, RegistryEvent.sign?] using hlast, by simp⟩
    | scan now =>
      cases hp'
      refine ⟨by simpa [RegistryEvent.signs, RegistryEvent.sign?] using hlast, ?_⟩
      simp only [RegistryEvent.scan.injEq, exists_eq_left', AppRegistry.mem_detectExpired, hp,
        timeout_run, Option.some.injEq, Bool.or_eq_true, decide_eq_true_eq]
      cases p.reported <;> simp
    | request now q =>
      by_cases hsign : q.app = app ∧ q.isSign = true
      · have hp' : p' = { p with last := now } := by
          simp only [RegistryEvent.move, if_pos hsign] at hp'
          split at hp' <;> cases hp' <;> rfl
        subst hp'
        exact ⟨by simp [RegistryEvent.signs, RegistryEvent.sign?, hsign], by simp⟩
      · simp only [RegistryEvent.move, if_neg hsign] at hp'
        cases hp'
        exact ⟨by simpa [RegistryEvent.signs, RegistryEvent.sign?, hsign] using hlast, by simp⟩

/-! ### Purges for silence -/

/-- As long as an app is there that a scan has reported, the purge that the scan has asked for, or
another one for its silence, waits. -/
theorem appExpired_mem_queue {p : Pulse} (h : (run timeout es).registry.pulse? app = some p)
    (hreported : p.reported = true) : .appExpired app ∈ (run timeout es).registry.queue := by
  induction es using List.reverseRecOn generalizing p with
  | nil => cases h
  | append_singleton es e ih =>
    rw [queue_run_concat]
    rw [pulse?_run_concat] at h
    cases hbefore : (run timeout es).registry.pulse? app with
    | none =>
      rw [hbefore] at h
      obtain ⟨_, _, -, -, rfl⟩ := RegistryEvent.of_move_none h
      cases hreported
    | some before =>
      rw [hbefore] at h
      cases e with
      | scan now =>
        cases h
        by_cases hold : before.reported = true
        · exact List.mem_append_left _ (ih hbefore hold)
        · refine List.mem_append_right _ (List.mem_map_of_mem (AppRegistry.mem_detectExpired.2 ?_))
          exact ⟨before, hbefore, by simpa [hold, timeout_run] using hreported, by simpa using hold⟩
      | request now q =>
        refine List.mem_append_left _ (ih hbefore ?_)
        rw [← hreported]
        simp only [RegistryEvent.move, Option.any_some] at h
        split at h
        · split at h <;> cases h <;> rfl
        · cases h
          rfl
      | purge =>
        -- the purge that is carried out is not the one that waits for the app, which would be gone
        simp only [RegistryEvent.move] at h
        split at h
        · cases h
        · rename_i hspared
          cases h
          have hmem := ih hbefore hreported
          refine List.mem_append_left _ ?_
          cases hfront : (run timeout es).registry.queue with
          | nil => rw [hfront] at hmem; cases hmem
          | cons reason rest =>
            rw [hfront] at hmem hspared
            refine (List.mem_cons.1 hmem).resolve_left fun heq => hspared ?_
            rw [← heq]
            exact PurgeReason.endsApp_iff.2 (.inr rfl)

/-- An app that was not there and then is there was brought into being by a request. -/
theorem exists_creation {later : List RegistryEvent}
    (habsent : (run timeout es).registry.find? app = none)
    (hpresent : ((run timeout (es ++ later)).registry.find? app).isSome) :
    Recreated timeout app es later := by
  induction later generalizing es with
  | nil =>
    rw [List.append_nil, habsent] at hpresent
    cases hpresent
  | cons e later ih =>
    rw [List.append_cons] at hpresent
    cases hnext : (run timeout (es ++ [e])).registry.find? app with
    | none => exact (ih hnext hpresent).cons
    | some a =>
      have hpulse : (run timeout (es ++ [e])).registry.pulse? app = some a.pulse := by
        rw [AppRegistry.pulse?, hnext]
        rfl
      have hnone : (run timeout es).registry.pulse? app = none := by
        rw [AppRegistry.pulse?, habsent]
        rfl
      rw [pulse?_run_concat, hnone] at hpulse
      obtain ⟨now, q, rfl, -⟩ := RegistryEvent.of_move_none hpulse
      refine ⟨[], now, q, later, rfl, by simpa using habsent, ?_⟩
      rw [List.nil_append, hnext]
      rfl

/-- A purge for silence takes the app when its turn comes, so an app that is there after that was
created anew. -/
theorem exists_creation_of_waiting {later : List RegistryEvent} {i : Nat}
    (hwaits : (run timeout es).registry.queue[i]? = some (.appExpired app))
    (hdrained : i < later.countP (·.isPurge))
    (hpresent : ((run timeout (es ++ later)).registry.find? app).isSome) :
    Recreated timeout app es later := by
  induction later generalizing es i with
  | nil => cases hdrained
  | cons e later ih =>
    rw [List.append_cons] at hpresent
    have hlt : i < (run timeout es).registry.queue.length := (List.getElem?_eq_some_iff.1 hwaits).1
    refine Recreated.cons ?_
    cases e with
    | purge =>
      cases hfront : (run timeout es).registry.queue with
      | nil => rw [hfront] at hlt; cases hlt
      | cons reason rest =>
        rw [hfront] at hwaits
        cases i with
        | zero =>
          cases hwaits
          -- its turn has come
          have hgone : (run timeout (es ++ [.purge])).registry.pulse? app = none := by
            rw [pulse?_run_concat, hfront]
            exact if_pos (PurgeReason.endsApp_iff.2 (.inr rfl))
          rw [AppRegistry.pulse?, Option.map_eq_none_iff] at hgone
          exact exists_creation hgone hpresent
        | succ i =>
          refine ih (i := i) ?_ (by simpa [RegistryEvent.isPurge] using hdrained) hpresent
          rw [queue_run_concat, hfront]
          simpa [RegistryEvent.leaves, AppRegistry.asks] using hwaits
    | request now q =>
      refine ih ?_ (by simpa [RegistryEvent.isPurge] using hdrained) hpresent
      rw [queue_run_concat]
      exact (List.getElem?_append_left hlt).trans hwaits
    | scan now =>
      refine ih ?_ (by simpa [RegistryEvent.isPurge] using hdrained) hpresent
      rw [queue_run_concat]
      exact (List.getElem?_append_left hlt).trans hwaits

/-! ### What a scan finds -/

/-- An app that is silent at a scan is one that the scan reports or that was reported before. -/
theorem Silent.pulse {now : Nat} (h : Silent timeout app past life now) :
    ∃ p, (run timeout (past ++ life)).registry.pulse? app = some p ∧ timeout < now - p.last ∧
      (p.reported = true ↔ ReportedSilent timeout app past life) := by
  obtain ⟨p, hp, hlast, hreported⟩ := h.lives.pulse
  obtain ⟨last, hlast', hsilent⟩ := h.silent
  obtain rfl : p.last = last := Option.some.inj (hlast.symm.trans hlast')
  exact ⟨p, hp, hsilent, hreported⟩

/-- A scan reports each app that is silent, unless it was reported before in its life. -/
theorem mem_detectExpired_iff {now : Nat} :
    app ∈ ((run timeout es).registry.detectExpired now).1 ↔ ∃ past life, es = past ++ life ∧
      Silent timeout app past life now ∧ ¬ ReportedSilent timeout app past life := by
  rw [AppRegistry.mem_detectExpired, timeout_run]
  constructor
  · rintro ⟨p, hp, hsilent, hreported⟩
    obtain ⟨past, life, rfl, hlife⟩ := (exists_life timeout app es).1 (by
      rw [← AppRegistry.isSome_pulse?, hp]
      rfl)
    obtain ⟨p', hp', hlast, hreported'⟩ := hlife.pulse
    cases hp.symm.trans hp'
    refine ⟨past, life, rfl, ⟨hlife, p.last, hlast, hsilent⟩, fun h => ?_⟩
    rw [hreported'.2 h] at hreported
    cases hreported
  · rintro ⟨past, life, rfl, hsilent, hnew⟩
    obtain ⟨p, hp, hlong, hreported⟩ := hsilent.pulse
    exact ⟨p, hp, hlong, Bool.eq_false_iff.2 fun h => hnew (hreported.1 h)⟩

/-- After a scan a purge for silence waits for each app that it found silent. -/
theorem Silent.appExpired_mem_queue {now : Nat} (h : Silent timeout app past life now) :
    .appExpired app ∈ (run timeout (past ++ life ++ [.scan now])).registry.queue := by
  obtain ⟨p, hp, hlong, -⟩ := h.pulse
  have hmarked : (run timeout (past ++ life ++ [.scan now])).registry.pulse? app =
      some { p with reported := p.reported || decide (timeout < now - p.last) } := by
    rw [pulse?_run_concat, hp]
    rfl
  exact Chronicle.appExpired_mem_queue hmarked (by simp [hlong])

/-- **Silent apps.** Take any run of requests, scans and purges with any readings of the clock. An
app that is there came into being at some point of the run and has been there since, and what counts
are the signs of life since then. A scan reports, once each, the apps that have been silent for too
long and that no scan has reported since they came into being, and asks for the purge of each of
these. As long as an app is there that was reported since it came into being, a purge for its
silence waits. Therefore, once all purges that wait after a scan have been carried out, an app that
was silent at the scan is there only if a request has created it again. -/
theorem silent_reported_once (timeout : Nat) (es : List RegistryEvent) :
    let r := (run timeout es).registry
    (∀ app, (r.find? app).isSome ↔
      ∃ past life, es = past ++ life ∧ Life timeout app past life) ∧
    (∀ now, let (names, r') := r.detectExpired now
      names.Nodup ∧ r'.queue = r.queue ++ names.map .appExpired ∧
      ∀ app, app ∈ names ↔ ∃ past life, es = past ++ life ∧ Silent timeout app past life now ∧
        ¬ ReportedSilent timeout app past life) ∧
    (∀ app past life, es = past ++ life → Life timeout app past life →
      ReportedSilent timeout app past life → .appExpired app ∈ r.queue) ∧
    ∀ now app past life later, es = past ++ life → Silent timeout app past life now →
      (r.detectExpired now).2.queue.length ≤ later.countP (·.isPurge) →
      ((run timeout (es ++ .scan now :: later)).registry.find? app).isSome →
      Recreated timeout app (es ++ [.scan now]) later := by
  intro r
  refine ⟨fun app => exists_life timeout app es, fun now => ⟨AppRegistry.nodup_detectExpired, rfl,
    fun app => mem_detectExpired_iff⟩, ?_, ?_⟩
  · rintro app past life rfl hlife hreported
    obtain ⟨p, hp, -, hiff⟩ := hlife.pulse
    exact appExpired_mem_queue hp (hiff.2 hreported)
  · rintro now app past life later rfl hsilent hdrained hpresent
    obtain ⟨i, hi, hwaits⟩ := List.getElem_of_mem hsilent.appExpired_mem_queue
    rw [List.append_cons] at hpresent
    have hscan : (run timeout (past ++ life ++ [.scan now])).registry = (r.detectExpired now).2 := by
      rw [run_concat]
      rfl
    have hlt : i < later.countP (·.isPurge) := by
      rw [hscan] at hi
      omega
    exact exists_creation_of_waiting (List.getElem?_eq_some_iff.2 ⟨hi, hwaits⟩) hlt hpresent

/-- An app is reported and purged; under its name there is soon another one that is heard of a
while, is reported in its turn, goes with a purge that a client has asked for, and comes again. -/
theorem silent_reported_once_two_lives :
    let es : List RegistryEvent := [.request 0 (.register "app" 0 []), .scan 20, .purge,
      .request 21 (.heartbeat "app"), .request 30 (.blockIds "app" 5 0),
      .request 39 (.report "app" 0 1 0 []), .request 40 (.unregisterApp "app")]
    let later : List RegistryEvent := [.purge, .purge, .request 50 (.heartbeat "app")]
    let r := (run 10 es).registry
    (r.detectExpired 40).1 = [] ∧ (r.detectExpired 41).1 = ["app"] ∧
      (∃ past life, es = past ++ life ∧ Silent 10 "app" past life 41) ∧
      (r.detectExpired 41).2.queue.length ≤ later.countP (·.isPurge) ∧
      Recreated 10 "app" (es ++ [.scan 41]) later := by
  intro es later r
  obtain ⟨-, hscan, -, hdrained⟩ := silent_reported_once 10 es
  have hnames : (r.detectExpired 41).1 = ["app"] := rfl
  have hreported : "app" ∈ (r.detectExpired 41).1 := by
    rw [hnames]
    exact List.mem_singleton_self _
  obtain ⟨past, life, hsplit, hsilent, -⟩ := ((hscan 41).2.2 "app").1 hreported
  exact ⟨rfl, hnames, ⟨past, life, hsplit, hsilent⟩, by decide,
    hdrained 41 "app" past life later hsplit hsilent (by decide) rfl⟩

end Chronicle

end ShuffleService
