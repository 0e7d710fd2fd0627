import ShuffleService.Proofs.RegistryHistory
import ShuffleService.Proofs.StoredTable
import ShuffleService.Proofs.WrittenFiles

/-!
# From reports to blocks

Task attempts write blocks, some more than once, and report their ids to a server. Later a reader
asks the server for the ids of a partition, gets them in their stored form, and reads the files. It
gets each block that was reported by an attempt that counts exactly once, with the bytes of its
first copy, in the order in which the files hold them (`delivers_reported`).

The parts are what the server remembers (`RegistryHistory`), the stored form of a table
(`StoredTable`), the files (`WrittenFiles`) and the reader (`ReaderReference`).
-/

namespace ShuffleService

namespace WrittenBlock

variable {layout : BlockIdLayout} {ws : List WrittenBlock} {ids tasks : IdSet}

/-- The blocks to be delivered: the first one with each id that is asked for, if the attempt in the
id counts. -/
def due (layout : BlockIdLayout) (ids tasks : IdSet) (ws : List WrittenBlock) : List WrittenBlock :=
  (firstPer key ws).filter fun w => ids.contains w.key && tasks.contains (w.taskKey layout)

theorem idOf_key (w : WrittenBlock) : IdSet.idOf w.key = w.id :=
  signed_unsigned (by decide) w.id_fits.1 w.id_fits.2

theorem mem_expectedOf_key {w : WrittenBlock} :
    w.key ∈ BlockReader.expectedOf layout ids tasks ↔ w.key ∈ ids ∧ w.taskKey layout ∈ tasks := by
  rw [BlockReader.mem_expectedOf, idOf_key, taskKey]

/-- The blocks that are due are those that a reader has to deliver. The record of a block carries the
attempt in the id, so the two tests on attempts are one. -/
theorem dueBy_view :
    BlockReader.dueBy layout ids tasks (view layout) ws = due layout ids tasks ws := by
  refine List.filter_congr fun w _ => ?_
  have hexpected : (BlockReader.expectedOf layout ids tasks).contains w.key =
      (ids.contains w.key && tasks.contains (w.taskKey layout)) := by
    rw [Bool.eq_iff_iff, IdSet.contains_iff, mem_expectedOf_key]
    simp
  show ((BlockReader.expectedOf layout ids tasks).contains w.key &&
    tasks.contains (w.taskKey layout)) = _
  rw [hexpected, Bool.and_assoc, Bool.and_self]

/-- Each block that is due is the first with its id. -/
theorem find?_of_mem_due {w : WrittenBlock} (h : w ∈ due layout ids tasks ws) :
    ws.find? (·.key = w.key) = some w :=
  mem_firstPer.1 (List.mem_filter.1 h).1

theorem sublist_due (layout : BlockIdLayout) (ids tasks : IdSet) (ws : List WrittenBlock) :
    (due layout ids tasks ws).Sublist ws :=
  List.filter_sublist.trans (firstPer_sublist key ws)

theorem nodup_due (layout : BlockIdLayout) (ids tasks : IdSet) (ws : List WrittenBlock) :
    ((due layout ids tasks ws).map key).Nodup :=
  (List.filter_sublist.map _).nodup (nodup_firstPer key ws)

/-- A block is due for each id that was written and is asked for, if the attempt in the id
counts. -/
theorem mem_map_key_due {x : Nat} :
    x ∈ (due layout ids tasks ws).map key ↔
      (∃ w ∈ ws, w.key = x) ∧ x ∈ BlockReader.expectedOf layout ids tasks := by
  have hfirst : (∃ w ∈ ws, w.key = x) ↔ ∃ w ∈ firstPer key ws, w.key = x := by
    rw [← List.mem_map, ← List.mem_map, mem_map_firstPer]
  simp only [hfirst, due, List.mem_map, List.mem_filter, Bool.and_eq_true, IdSet.contains_iff]
  constructor
  · rintro ⟨w, ⟨hw, hcounts⟩, rfl⟩
    exact ⟨⟨w, hw, rfl⟩, mem_expectedOf_key.2 hcounts⟩
  · rintro ⟨⟨w, hw, rfl⟩, hx⟩
    exact ⟨w, ⟨hw, mem_expectedOf_key.1 hx⟩, rfl⟩

/-! ### Reading the files of a partition -/

/-- A reader of the files gets the blocks that are due, in order and without an error. If every id
that is asked for was written, the check at the end succeeds. -/
theorem reads_files {ids : IdBitmap} (hids : ids.hollow = []) (layout : BlockIdLayout)
    (tasks : IdSet) (indexPath : String) (readLimit spare : Nat) (hpos : ∀ w ∈ ws, w.payload ≠ [])
    (htotal : (dataFile ws).length < 2 ^ 63) (hwritten : ∀ x ∈ ids.set, ∃ w ∈ ws, w.key = x) :
    ∃ r cs r' files', BlockReader.start? layout ids tasks = some r ∧
      BlockReader.Reads LocalFiles.source r (files layout indexPath readLimit spare ws)
        cs r' files' ∧
      cs.map (·.outcome) =
        (due layout ids.set tasks ws).map (fun w => .ok (some w.block)) ++ [.ok none] ∧
      r'.check = .ok () := by
  obtain ⟨r, hstart⟩ := BlockReader.exists_start layout hids tasks
  obtain ⟨good, answers, hanswers, hgood, hcopies⟩ :=
    exists_answers layout indexPath readLimit spare hpos htotal
  obtain ⟨cs, r', files', hreads, houtcomes, hcheck⟩ :=
    BlockReader.reads_by hanswers hgood hstart hcopies
  refine ⟨r, cs, r', files', hstart, hreads, ?_, ?_⟩
  · rw [houtcomes, dueBy_view]
    rfl
  · rw [hcheck, BlockReader.check_eq_ok_iff]
    intro x hx
    replace hx : x ∈ r.expected := hx
    rw [BlockReader.expected_start hstart, BlockReader.mem_expectedOf] at hx
    obtain ⟨w, hw, rfl⟩ := hwritten x hx.1
    exact IdSet.mem_ofIds.2 ⟨w.id, List.mem_map_of_mem hw, rfl⟩

end WrittenBlock

/-! ### From the server to the reader -/

/-- A query for a shuffle that is known is answered with bytes that hold the ids that were reported,
unless their bitmaps are too many to be counted. -/
theorem load?_reply {timeout : Nat} {es : List RegistryEvent} {app : String}
    {shuffle partition : Int}
    (hknown : (Chronicle.run timeout es).history.Known app shuffle)
    (hhigh : ∃ high < 2 ^ 32, ∀ x,
      (Chronicle.run timeout es).history.Reported app shuffle partition x → highOf x ≠ high)
    {s : ShuffleServer} (hs : s.registry = (Chronicle.run timeout es).registry) :
    ∃ ids, (s.handle (.blockIds app shuffle partition)).1.status = .success ∧
      IdBitmap.load? (s.handle (.blockIds app shuffle partition)).1.bitmap = some (.ok ids) ∧
      ids.hollow = [] ∧
      ∀ x, x ∈ ids.set ↔ (Chronicle.run timeout es).history.Reported app shuffle partition x := by
  have hanswers := (Chronicle.sound_run timeout es).answers_blockIds s.now app shuffle partition
  have hreply : (s.handle (.blockIds app shuffle partition)).1 =
      .ofQuery (s.registry.blockIds s.now app shuffle partition).1 := rfl
  rw [hreply, hs]
  generalize ((Chronicle.run timeout es).registry.blockIds s.now app shuffle partition).1 = ans at *
  cases hanswers with
  | noApp hcreated =>
    exact absurd hknown ((Chronicle.sound_run timeout es).not_known hcreated shuffle)
  | noShuffle _ hunknown => exact absurd hknown hunknown
  | @found b _ _ hhollow hids =>
    obtain ⟨high, hlt, hunused⟩ := hhigh
    have hcount : b.entries.length < 2 ^ 32 := by
      refine IdBitmap.length_entries_lt hlt (fun x hx => hunused x ((hids x).1 hx)) ?_
      rw [hhollow]
      exact List.not_mem_nil
    obtain ⟨ids, hload, hset, hhollow'⟩ := IdBitmap.load?_store hcount
    exact ⟨ids, rfl, hload, hhollow'.trans hhollow, fun x => by rw [hset, hids]⟩

/-- Ids without the sign bit leave high halves unused. -/
theorem exists_high_ne {P : Nat → Prop} (h : ∀ x, P x → x < 2 ^ 63) :
    ∃ high < 2 ^ 32, ∀ x, P x → highOf x ≠ high := by
  refine ⟨2 ^ 31, by decide, fun x hx => ?_⟩
  have := h x hx
  unfold highOf
  omega

/-- **From reports to blocks.** Take a server after any requests, scans and purges, and a shuffle
that it knows; blocks with distinct or repeated ids that were written to the files of a partition,
among them at least one for each id that was reported for the partition; any attempts that count,
and any size of chunks. A reader that is given the bytes that the server answers with gets from the
files, one after the other, the first written block of each reported id with an attempt that
counts; then it finds nothing left, and the check succeeds.

The ids of a layout leave the sign bit alone. Ids with the sign bit are read as well, as long as
there is a high half that no reported id has: with all `2 ^ 32` of them in use, their number would
not fit the four bytes that the answer has for it. -/
theorem delivers_reported (timeout : Nat) (es : List RegistryEvent) {app : String}
    {shuffle partition : Int}
    (hknown : (Chronicle.run timeout es).history.Known app shuffle)
    (hids : (∀ x,
        (Chronicle.run timeout es).history.Reported app shuffle partition x → x < 2 ^ 63) ∨
      ∃ high < 2 ^ 32, ∀ x,
        (Chronicle.run timeout es).history.Reported app shuffle partition x → highOf x ≠ high)
    (s : ShuffleServer) (hs : s.registry = (Chronicle.run timeout es).registry)
    (layout : BlockIdLayout) (tasks : IdSet) (indexPath : String) (readLimit spare : Nat)
    (ws : List WrittenBlock) (hpos : ∀ w ∈ ws, w.payload ≠ [])
    (htotal : (WrittenBlock.dataFile ws).length < 2 ^ 63)
    (hwritten : ∀ x, (Chronicle.run timeout es).history.Reported app shuffle partition x →
      ∃ w ∈ ws, w.key = x) :
    (s.handle (.blockIds app shuffle partition)).1.status = .success ∧
    ∃ ids r cs r' files',
      IdBitmap.load? (s.handle (.blockIds app shuffle partition)).1.bitmap = some (.ok ids) ∧
      (∀ x, x ∈ ids.set ↔ (Chronicle.run timeout es).history.Reported app shuffle partition x) ∧
      BlockReader.start? layout ids tasks = some r ∧
      BlockReader.Reads LocalFiles.source r
        (WrittenBlock.files layout indexPath readLimit spare ws) cs r' files' ∧
      let due := WrittenBlock.due layout ids.set tasks ws
      cs.map (·.outcome) =
        due.map (fun w => .ok (some ⟨w.payload, w.payload.length⟩)) ++ [.ok none] ∧
      due.Sublist ws ∧ (due.map (·.key)).Nodup ∧
      (∀ w ∈ due, ws.find? (·.key = w.key) = some w) ∧
      (∀ x, x ∈ due.map (·.key) ↔
        (Chronicle.run timeout es).history.Reported app shuffle partition x ∧
          IdSet.key (layout.taskOf (IdSet.idOf x)) ∈ tasks) ∧
      r'.check = .ok () := by
  -- what the server answers
  obtain ⟨ids, hstatus, hload, hhollow, hids⟩ := load?_reply hknown (hids.elim exists_high_ne id) hs
  -- what a reader gets that is told these ids
  obtain ⟨r, cs, r', files', hstart, hreads, houtcomes, hcheck⟩ :=
    WrittenBlock.reads_files hhollow layout tasks indexPath readLimit spare hpos htotal
      fun x hx => hwritten x ((hids x).1 hx)
  refine ⟨hstatus, ids, r, cs, r', files', hload, hids, hstart, hreads, houtcomes,
    WrittenBlock.sublist_due .., WrittenBlock.nodup_due ..,
    fun w hw => WrittenBlock.find?_of_mem_due hw, fun x => ?_, hcheck⟩
  rw [WrittenBlock.mem_map_key_due, BlockReader.mem_expectedOf, hids]
  constructor
  · exact fun h => h.2
  · exact fun h => ⟨hwritten x h.1, h⟩

/-- Two reports, a block that is written twice, one that nobody reported for the partition, and one
by an attempt that does not count. -/
theorem delivers_reported_two_reports :
    let es : List RegistryEvent := [.request 0 (.register "app" 0 [⟨0, 1⟩]),
      .request 1 (.report "app" 0 1 2 [(0, [1, 2097153]), (1, [4194305])]),
      .request 2 (.report "app" 0 1 3 [(0, [2097153, 3])])]
    let s : ShuffleServer := ⟨0, ⟨0, 1⟩, (Chronicle.run 0 es).registry⟩
    let ws : List WrittenBlock := [⟨2097153, [98], by decide, by decide⟩,
      ⟨4194305, [99], by decide, by decide⟩, ⟨3, [100], by decide, by decide⟩,
      ⟨2097153, [98, 98], by decide, by decide⟩, ⟨1, [97], by decide, by decide⟩]
    ∃ ids r cs r' files',
      IdBitmap.load? (s.handle (.blockIds "app" 0 0)).1.bitmap = some (.ok ids) ∧
      BlockReader.start? .standard ids (.ofIds [1]) = some r ∧
      BlockReader.Reads LocalFiles.source r (WrittenBlock.files .standard "index" 2 9 ws)
        cs r' files' ∧
      cs.map (·.outcome) = [.ok (some ⟨[98], 1⟩), .ok (some ⟨[97], 1⟩), .ok none] ∧
      r'.check = .ok () := by
  intro es s ws
  have hhistory : (Chronicle.run 0 es).history = [.report "app" 0 [(0, [2097153, 3])],
      .report "app" 0 [(0, [1, 2097153]), (1, [4194305])], .register "app" 0 [⟨0, 1⟩]] := rfl
  have h1 : IdSet.key 1 = 1 := by decide
  have h2 : IdSet.key 2097153 = 2097153 := by decide
  have h3 : IdSet.key 3 = 3 := by decide
  have h4 : IdSet.key 4194305 = 4194305 := by decide
  have hreported (x : Nat) : (Chronicle.run 0 es).history.Reported "app" 0 0 x ↔
      x = 1 ∨ x = 3 ∨ x = 2097153 := by
    rw [hhistory]
    simp [History.Reported, History.since, Deed.isPurge, -Prod.exists, h1, h2, h3]
    omega
  have hknown : (Chronicle.run 0 es).history.Known "app" 0 := by
    rw [hhistory]
    simp [History.known_cons, Deed.isPurge]
  have hlt (x : Nat) (hx : (Chronicle.run 0 es).history.Reported "app" 0 0 x) : x < 2 ^ 63 := by
    rcases (hreported x).1 hx with rfl | rfl | rfl <;> decide
  have hwritten (x : Nat) (hx : (Chronicle.run 0 es).history.Reported "app" 0 0 x) :
      ∃ w ∈ ws, w.key = x := by
    rcases (hreported x).1 hx with rfl | rfl | rfl <;>
      simp [ws, WrittenBlock.key, h1, h2, h3]
  obtain ⟨-, ids, r, cs, r', files', hload, hids, hstart, hreads, houtcomes, -, -, -, -, hcheck⟩ :=
    delivers_reported 0 es hknown (.inl hlt) s rfl .standard (.ofIds [1]) "index" 2 9 ws (by decide)
      (by decide) hwritten
  refine ⟨ids, r, cs, r', files', hload, hstart, hreads, ?_, hcheck⟩
  rw [houtcomes]
  have hdue : WrittenBlock.due .standard ids.set (.ofIds [1]) ws =
      [⟨2097153, [98], by decide, by decide⟩, ⟨1, [97], by decide, by decide⟩] := by
    have hmem (x : Nat) : ids.set.contains x = decide (x = 1 ∨ x = 3 ∨ x = 2097153) := by
      rw [Bool.eq_iff_iff, IdSet.contains_iff, hids, hreported, decide_eq_true_eq]
    have htask1 : IdSet.key (BlockIdLayout.standard.taskOf 1) = 1 := by decide
    have htask2 : IdSet.key (BlockIdLayout.standard.taskOf 2097153) = 1 := by decide
    have htask3 : IdSet.key (BlockIdLayout.standard.taskOf 3) = 3 := by decide
    simp [WrittenBlock.due, ws, firstPer, WrittenBlock.key, WrittenBlock.taskKey, hmem, h1, h2, h3,
      h4, htask1, htask2, htask3]
  rw [hdue]
  rfl

end ShuffleService
