import ShuffleService.Proofs.ReaderRun

/-!
# What a reader reads from a list of chunks

A source without errors is a list of answers (`ChunkSource.Answers`). Up to the first answer that
holds nothing, its chunks hold a list of copies, the `stock`. A reader that expects anything looks
at the whole stock, copy after copy, however the copies are spread over the chunks
(`reads_of_answers`); what it answers is said by the stock alone (`reads_recorded`).
-/

namespace ShuffleService

theorem IdSet.ne_empty_of_mem {s : IdSet} {x : Nat} (h : x ∈ s) : s ≠ ∅ := by
  rintro rfl
  exact not_mem_empty x h

/-- The copies in a chunk. -/
def Chunk.copies (c : Chunk) : List StoredCopy := c.segments.map (⟨c.data, ·⟩)

/-- The copies that answers hold, up to the first answer with no chunk, no bytes or no segments. -/
def stock : List (Option Chunk) → List StoredCopy
  | some c :: rest => if c.data = [] ∨ c.segments = [] then [] else c.copies ++ stock rest
  | _ => []

/-- The source answers by a list whatever it was asked before, as long as it is in a good state. -/
def ChunkSource.Answers {σ : Type} (source : ChunkSource σ) (good : σ → Prop)
    (answers : List (Option Chunk)) : Prop :=
  ∀ s k, good s → (source.read s k).1 = .ok (answers.getD k none) ∧ good (source.read s k).2

theorem answers_recorded (answers : List (Option Chunk)) :
    (ChunkSource.recorded (answers.map .ok)).Answers (fun _ => True) answers := by
  intro s k _
  refine ⟨?_, trivial⟩
  simp only [ChunkSource.recorded, List.getD_eq_getElem?_getD, List.getElem?_map]
  cases answers[k]? <;> rfl

namespace BlockReader

variable {σ : Type} {source : ChunkSource σ} {good : σ → Prop} {answers : List (Option Chunk)}

/-- The copies that a reader has still to look at. -/
def pending (answers : List (Option Chunk)) (r : BlockReader) : List StoredCopy :=
  r.waiting ++ stock (answers.drop r.cursor)

/-- A refill brings the next part of the stock into the queue, or finds that there is none. -/
theorem refill_of_answers (h : source.Answers good answers) {r r' : BlockReader} {s s' : σ}
    {ans : Except ShuffleError Bool} (hs : good s) (hrefill : refill source r s = (ans, r', s')) :
    good s' ∧ (ans = .ok false ∧ stock (answers.drop r.cursor) = [] ∨
      ans = .ok true ∧ stock (answers.drop r.cursor) = pending answers r') := by
  obtain ⟨hread, hgood⟩ := h s r.cursor hs
  have hdrop : answers.drop r.cursor =
      match answers[r.cursor]? with
      | some a => a :: answers.drop (r.cursor + 1)
      | none => [] := by
    cases ha : answers[r.cursor]? with
    | none => simpa using ha
    | some a =>
      obtain ⟨hlt, rfl⟩ := List.getElem?_eq_some_iff.1 ha
      exact List.drop_eq_getElem_cons hlt
  rw [List.getD_eq_getElem?_getD] at hread
  -- past the end of the list, and on an element without a chunk, the source has nothing left
  unfold refill at hrefill
  generalize source.read s r.cursor = read at hread hgood hrefill
  obtain ⟨ans', t⟩ := read
  subst hread
  cases ha : answers[r.cursor]? with
  | none =>
    simp only [ha, Option.getD_none] at hrefill
    cases hrefill
    exact ⟨hgood, .inl ⟨rfl, by rw [hdrop, ha]; rfl⟩⟩
  | some a =>
    cases a with
    | none =>
      simp only [ha, Option.getD_some] at hrefill
      cases hrefill
      exact ⟨hgood, .inl ⟨rfl, by rw [hdrop, ha]; rfl⟩⟩
    | some c =>
      simp only [ha, Option.getD_some] at hrefill
      simp only [hdrop, ha, stock]
      by_cases hdata : c.data = []
      · simp only [hdata, List.isEmpty_nil, if_true] at hrefill
        cases hrefill
        exact ⟨hgood, .inl ⟨rfl, by simp [hdata]⟩⟩
      · simp only [List.isEmpty_iff, hdata, if_false] at hrefill
        cases hrefill
        refine ⟨hgood, ?_⟩
        by_cases hsegments : c.segments = []
        · exact .inl ⟨by simp [hsegments], by simp [hsegments]⟩
        · refine .inr ⟨by simpa using hsegments, ?_⟩
          simp [hdata, hsegments, pending, waiting, Chunk.copies]

/-- A search looks at what is pending up to the copy that it ends with. -/
theorem looked_seek (h : source.Answers good answers) (r : BlockReader) {s : σ} (hs : good s) :
    good (seek source r s).state ∧
      ((seek source r s).found = .ok none ∧ (seek source r s).looked = pending answers r ∨
        ∃ c, (seek source r s).found = .ok (some c) ∧
          pending answers r =
            (seek source r s).looked ++ pending answers (seek source r s).reader) := by
  fun_induction seek source r s with
  | case1 r s segment r' hnext =>
    obtain ⟨-, heq, hwaiting⟩ := nextAccepted_some hnext
    have hcursor := cursor_of_nextAccepted hnext
    refine ⟨hs, .inr ⟨_, rfl, ?_⟩⟩
    rw [pending, pending, hcursor, ← List.append_assoc, ← hwaiting]
  | case2 r s r' hnext e r'' s' hrefill =>
    obtain ⟨-, ⟨hans, -⟩ | ⟨hans, -⟩⟩ := refill_of_answers h hs hrefill <;> cases hans
  | case3 r s r' hnext r'' s' hrefill =>
    have hcursor := cursor_of_nextAccepted hnext
    obtain ⟨hgood, ⟨-, hstock⟩ | ⟨hans, -⟩⟩ := refill_of_answers h hs hrefill
    · refine ⟨hgood, .inl ⟨rfl, ?_⟩⟩
      rw [pending, ← hcursor, hstock, List.append_nil]
    · cases hans
  | case4 r s r' hnext r'' s' hrefill rest ih =>
    have hcursor := cursor_of_nextAccepted hnext
    obtain ⟨hgood, ⟨hans, -⟩ | ⟨-, hstock⟩⟩ := refill_of_answers h hs hrefill
    · cases hans
    · -- The queue is used up, and what was refilled is pending from here on.
      have hpending : pending answers r = r.waiting ++ pending answers r'' := by
        rw [← hstock, hcursor, pending]
      obtain ⟨hstate, ⟨hfound, hlooked⟩ | ⟨c, hfound, hrest⟩⟩ := ih hgood
      · exact ⟨hstate, .inl ⟨hfound, by rw [hpending, ← hlooked]⟩⟩
      · exact ⟨hstate, .inr ⟨c, hfound, by rw [hpending, hrest, List.append_assoc]⟩⟩

/-- A reader that expects anything looks at all that is pending, and answers with the blocks of the
copies that it picks. -/
theorem reads_of_answers (h : source.Answers good answers) {r : BlockReader} {s : σ} (hs : good s)
    (hexpected : r.expected.isEmpty = false) :
    ∃ cs r' s', Reads source r s cs r' s' ∧ good s' ∧ lookedAt cs = pending answers r ∧
      cs.map (·.outcome) = (r.picks (pending answers r)).map (·.block.map some) ++ [.ok none] := by
  -- every call but the last takes at least one copy off what is pending
  induction hn : (pending answers r).length using Nat.strongRecOn generalizing r s with
  | ind n ih =>
    obtain ⟨hgood, hfound⟩ := looked_seek h r hs
    obtain ⟨hpicks, hagrees⟩ := seek_spec source r s
    have hcall := call_eq hexpected source s
    rcases hfound with ⟨hfound, hlooked⟩ | ⟨c, hfound, hpending⟩
    · have hnone : (seek source r s).outcome = .ok none := by simp [Search.outcome, hfound]
      have hdelivered : (seek source r s).delivered = none := by simp [Search.delivered, hfound]
      refine ⟨_, _, _, .last hcall hnone, hgood, ?_, ?_⟩
      · simp [lookedAt, hlooked]
      · rw [hdelivered, hlooked] at hpicks
        simp [hpicks, hnone]
    · have hsome : (seek source r s).outcome = c.block.map some := by
        simp [Search.outcome, hfound]
      have hdelivered : (seek source r s).delivered = some c := by
        simp [Search.delivered, hfound]
      have hne : (seek source r s).outcome ≠ .ok none := by
        rw [hsome]
        cases c.block <;> simp [Except.map]
      rw [hdelivered] at hpicks
      have hlt : (pending answers (seek source r s).reader).length < n := by
        have hpos : (seek source r s).looked ≠ [] := by
          intro hnil
          simp [hnil, picks] at hpicks
        rw [← hn, hpending, List.length_append]
        have := List.length_pos_iff.2 hpos
        omega
      have hexpected' : (seek source r s).reader.expected.isEmpty = false := by
        rw [hagrees.expected, expected_lookAll, hexpected]
      obtain ⟨cs, r', s', hreads, hgood', hlooked, houtcomes⟩ := ih _ hlt hgood hexpected' rfl
      refine ⟨_, r', s', .more hcall hne hreads, hgood', ?_, ?_⟩
      · rw [hpending, ← hlooked]
        rfl
      · rw [hpending, picks_append, hpicks, ← hagrees.picks, List.map_cons, houtcomes, hsome]
        rfl

/-- A reader that expects nothing asks for nothing. -/
theorem reads_of_isEmpty (source : ChunkSource σ) {r : BlockReader} (s : σ)
    (hexpected : r.expected.isEmpty = true) : Reads source r s [⟨[], none, .ok none⟩] r s :=
  .last (call_of_isEmpty hexpected source s) rfl

/-! ### From the start to the end -/

/-- A reader before its first chunk has the whole stock before it. -/
theorem pending_start {layout : BlockIdLayout} {ids : IdBitmap} {tasks : IdSet} {r : BlockReader}
    (h : start? layout ids tasks = some r) (answers : List (Option Chunk)) :
    pending answers r = stock answers := by
  obtain ⟨s, -, rfl⟩ := Option.map_eq_some_iff.1 h
  rfl

theorem processed_start {layout : BlockIdLayout} {ids : IdBitmap} {tasks : IdSet} {r : BlockReader}
    (h : start? layout ids tasks = some r) : r.processed = ∅ := by
  obtain ⟨s, -, rfl⟩ := Option.map_eq_some_iff.1 h
  rfl

theorem expected_start {layout : BlockIdLayout} {ids : IdBitmap} {tasks : IdSet} {r : BlockReader}
    (h : start? layout ids tasks = some r) : r.expected = expectedOf layout ids.set tasks := by
  obtain ⟨s, hs, rfl⟩ := Option.map_eq_some_iff.1 h
  rw [(IdBitmap.walk?_eq_some_iff.1 hs).2]
  rfl

theorem tasks_start {layout : BlockIdLayout} {ids : IdBitmap} {tasks : IdSet} {r : BlockReader}
    (h : start? layout ids tasks = some r) : r.tasks = tasks := by
  obtain ⟨s, -, rfl⟩ := Option.map_eq_some_iff.1 h
  rfl

theorem mem_expectedOf {layout : BlockIdLayout} {ids tasks : IdSet} {x : Nat} :
    x ∈ expectedOf layout ids tasks ↔
      x ∈ ids ∧ IdSet.key (layout.taskOf (IdSet.idOf x)) ∈ tasks := by
  simp [expectedOf, expectedBy]

/-- The blocks of copies. -/
def blocksOf (cs : List StoredCopy) : IdSet := .ofIds (cs.map (·.segment.blockId))

@[simp] theorem mem_blocksOf {x : Nat} {cs : List StoredCopy} :
    x ∈ blocksOf cs ↔ ∃ c ∈ cs, c.key = x := by
  rw [blocksOf, IdSet.mem_ofIds]
  constructor
  · rintro ⟨id, hid, rfl⟩
    obtain ⟨c, hc, rfl⟩ := List.mem_map.1 hid
    exact ⟨c, hc, rfl⟩
  · rintro ⟨c, hc, rfl⟩
    exact ⟨_, List.mem_map_of_mem hc, rfl⟩

theorem check_eq (r : BlockReader) :
    r.check = if r.expected.inter r.processed = r.expected then .ok ()
      else .error (.blocksInconsistent r.expected.card (r.expected.inter r.processed).card) := rfl

theorem check_eq_ok_iff {r : BlockReader} :
    r.check = .ok () ↔ ∀ x ∈ r.expected, x ∈ r.processed := by
  rw [check_eq]
  constructor
  · intro h x hx
    split at h
    · rename_i heq
      rw [← heq, IdSet.mem_inter] at hx
      exact hx.2
    · cases h
  · intro h
    have heq : r.expected.inter r.processed = r.expected :=
      IdSet.ext fun x => by simpa using h x
    rw [if_pos heq]

theorem check_of_ne_ok {r : BlockReader} (h : r.check ≠ .ok ()) :
    r.check = .error (.blocksInconsistent r.expected.card (r.expected.inter r.processed).card) := by
  rw [check_eq] at h ⊢
  split at h
  · exact absurd rfl h
  · rename_i hne
    rw [if_neg hne]

/-- The copies that have to be delivered: of each block the first copy, if the block is expected and
the copy carries a task attempt that counts. -/
def due (layout : BlockIdLayout) (ids tasks : IdSet) (cs : List StoredCopy) : List StoredCopy :=
  (firstPer StoredCopy.key cs).filter fun c =>
    (expectedOf layout ids tasks).contains c.key && tasks.contains c.taskKey

theorem picks_start {layout : BlockIdLayout} {ids : IdBitmap} {tasks : IdSet} {r : BlockReader}
    (h : start? layout ids tasks = some r) (cs : List StoredCopy) :
    r.picks cs = due layout ids.set tasks cs := by
  have hempty (x : Nat) : (∅ : IdSet).contains x = false := by
    simp [Bool.eq_false_iff]
  rw [picks_eq, due]
  simp only [wants, processed_start h, expected_start h, tasks_start h, hempty, Bool.not_false,
    Bool.true_and]

theorem nodup_due (layout : BlockIdLayout) (ids tasks : IdSet) (cs : List StoredCopy) :
    ((due layout ids tasks cs).map (·.key)).Nodup :=
  (List.filter_sublist.map _).nodup (nodup_firstPer StoredCopy.key cs)

/-- After a run the copies that were looked at are the blocks seen. -/
theorem processed_of_reads {s s' : σ} {layout : BlockIdLayout} {ids : IdBitmap} {tasks : IdSet}
    {r r' : BlockReader} {cs : List Call} (h : start? layout ids tasks = some r)
    (hreads : Reads source r s cs r' s') :
    r'.processed = blocksOf (lookedAt cs) := by
  refine IdSet.ext fun x => ?_
  rw [hreads.spec.2.processed, mem_processed_lookAll, processed_start h]
  simp

/-- What a reader that expects any block reads from a source that answers by a list. -/
theorem reads_of_start (h : source.Answers good answers) {s : σ} (hs : good s)
    {layout : BlockIdLayout} {ids : IdBitmap} {tasks : IdSet} {r : BlockReader}
    (hstart : start? layout ids tasks = some r) (hne : expectedOf layout ids.set tasks ≠ ∅) :
    ∃ cs r' s', Reads source r s cs r' s' ∧ lookedAt cs = stock answers ∧
      cs.map (·.outcome) =
        (due layout ids.set tasks (stock answers)).map (·.block.map some) ++ [.ok none] ∧
      delivered cs = due layout ids.set tasks (stock answers) ∧
      r'.expected = expectedOf layout ids.set tasks ∧ r'.processed = blocksOf (stock answers) := by
  have hexpected := expected_start hstart
  have hempty : r.expected.isEmpty = false := by
    rw [Bool.eq_false_iff, Ne, IdSet.isEmpty_iff, hexpected]
    exact hne
  obtain ⟨cs, r', s', hreads, -, hlooked, houtcomes⟩ := reads_of_answers h hs hempty
  rw [pending_start hstart] at hlooked houtcomes
  refine ⟨cs, r', s', hreads, hlooked, ?_, ?_, ?_, ?_⟩
  · rw [houtcomes, picks_start hstart]
  · rw [hreads.spec.1, hlooked, picks_start hstart]
  · rw [hreads.spec.2.expected, expected_lookAll, hexpected]
  · rw [processed_of_reads hstart hreads, hlooked]

theorem exists_start (layout : BlockIdLayout) {ids : IdBitmap} (hids : ids.hollow = [])
    (tasks : IdSet) : ∃ r, start? layout ids tasks = some r := by
  have hwalk : ids.walk? = some ids.set := IdBitmap.walk?_eq_some_iff.2 ⟨hids, rfl⟩
  simp [start?, startBy?, hwalk]

/-- **A reader against its reference.** From a source that answers by a list, a reader that expects
any block answers with the blocks of the copies that are due in the stock, each once and in order;
a copy that fails stops nothing. At the end it has seen the blocks of the stock and no others. A
reader that expects no block answers at once that nothing is left.

A table of ids stands for a set if it has no empty bitmaps: no walk gets past one of these. -/
theorem reads_recorded (layout : BlockIdLayout) {ids : IdBitmap} (hids : ids.hollow = [])
    (tasks : IdSet) (answers : List (Option Chunk)) (log : AccessLog) :
    ∃ r cs r' log', start? layout ids tasks = some r ∧
      Reads (.recorded (answers.map .ok)) r log cs r' log' ∧
      let expected := expectedOf layout ids.set tasks
      let due := due layout ids.set tasks (stock answers)
      let seen := blocksOf (stock answers)
      (expected ≠ ∅ →
        cs.map (·.outcome) = due.map (·.block.map some) ++ [.ok none] ∧
        delivered cs = due ∧ (due.map (·.key)).Nodup ∧
        r'.processed = seen ∧
        (r'.check = .ok () ↔ ∀ x ∈ expected, ∃ c ∈ stock answers, c.key = x) ∧
        (r'.check ≠ .ok () →
          r'.check = .error (.blocksInconsistent expected.card (expected.inter seen).card))) ∧
      (expected = ∅ → cs.map (·.outcome) = [.ok none] ∧ r' = r ∧ log' = log) := by
  obtain ⟨r, hstart⟩ := exists_start layout hids tasks
  by_cases hne : expectedOf layout ids.set tasks = ∅
  · have hempty : r.expected.isEmpty = true := by
      rw [IdSet.isEmpty_iff, expected_start hstart, hne]
    refine ⟨r, _, r, log, hstart, reads_of_isEmpty _ log hempty, ?_, fun _ => ⟨rfl, rfl, rfl⟩⟩
    exact fun h => absurd hne h
  · obtain ⟨cs, r', log', hreads, -, houtcomes, hdelivered, hexpected, hprocessed⟩ :=
      reads_of_start (answers_recorded answers) (s := log) trivial hstart hne
    refine ⟨r, cs, r', log', hstart, hreads, fun _ => ?_, fun h => absurd h hne⟩
    refine ⟨houtcomes, hdelivered, nodup_due .., hprocessed, ?_, fun hfailed => ?_⟩
    · rw [check_eq_ok_iff, hexpected, hprocessed]
      simp
    · rw [check_of_ne_ok hfailed, hexpected, hprocessed]

/-- Two chunks with a good copy, one out of range, a second copy and one that was altered. -/
theorem reads_recorded_two_chunks :
    let ids : IdBitmap := .ofSet (.ofIds [1, 2097153, 4194305])
    let answers : List (Option Chunk) :=
      [some ⟨[97], [⟨1, 0, 0, 7, 0, 1⟩, ⟨2097153, 1, 1, 1, 0, 1⟩]⟩,
        some ⟨[98], [⟨1, 0, 1, 1, 0, 1⟩, ⟨4194305, 1, 0, 2, 5, 1⟩]⟩]
    ids.hollow = [] ∧
      ∃ r cs r' log', start? .standard ids (.ofIds [1]) = some r ∧
        Reads (.recorded (answers.map .ok)) r ⟨[], 0⟩ cs r' log' ∧
        cs.map (·.outcome) =
          [.ok (some ⟨[], 7⟩),
            .error (.dataCorrupted ("Can't read data for blockId[2097153], " ++
              "range [1, 2) is out of the read buffer with length 1")),
            .error (.checksumMismatch 4194305 5 0), .ok none] ∧
        r'.check = .ok () := by
  intro ids answers
  obtain ⟨r, cs, r', log', hstart, hreads, hsome, -⟩ :=
    reads_recorded .standard (show ids.hollow = [] from rfl) (.ofIds [1]) answers ⟨[], 0⟩
  have h1 : IdSet.key 1 = 1 := by decide
  have h2 : IdSet.key 2097153 = 2097153 := by decide
  have h3 : IdSet.key 4194305 = 4194305 := by decide
  have hexpected (x : Nat) : x ∈ expectedOf .standard ids.set (.ofIds [1]) ↔
      x = 1 ∨ x = 2097153 ∨ x = 4194305 := by
    rw [mem_expectedOf]
    constructor
    · rintro ⟨h, -⟩
      simpa [ids, h1, h2, h3, eq_comm] using h
    · rintro (rfl | rfl | rfl) <;> exact ⟨by simp [ids, h1, h2, h3], by simp; decide⟩
  have hne := IdSet.ne_empty_of_mem ((hexpected 1).2 (.inl rfl))
  have hstock : due .standard ids.set (.ofIds [1]) (stock answers) =
      [⟨[97], ⟨1, 0, 0, 7, 0, 1⟩⟩, ⟨[97], ⟨2097153, 1, 1, 1, 0, 1⟩⟩,
        ⟨[98], ⟨4194305, 1, 0, 2, 5, 1⟩⟩] := by
    simp [due, stock, answers, Chunk.copies, firstPer, StoredCopy.key, StoredCopy.taskKey, h1,
      h2, h3, hexpected]
  obtain ⟨houtcomes, -, -, -, hcheck, -⟩ := hsome hne
  refine ⟨rfl, r, cs, r', log', hstart, hreads, ?_, hcheck.2 fun x hx => ?_⟩
  · have hcrc : Crc32.checksum [] = 0 := by decide +kernel
    rw [houtcomes, hstock]
    simp [StoredCopy.block, hcrc, Except.map]
    rfl
  · rcases (hexpected x).1 hx with rfl | rfl | rfl <;>
      simp [stock, answers, Chunk.copies, StoredCopy.key, h1, h2, h3]

end BlockReader

end ShuffleService
