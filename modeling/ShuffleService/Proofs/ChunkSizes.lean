import ShuffleService.Proofs.DirectRead

/-!
# Chunks of any size

How many bytes are read at once is a setting, and two runs with different settings cut the same
records into different chunks. What a reader gets for a record does not depend on its chunk. But a
reader takes a chunk without data for the end, and a chunk has none if its records need nothing: so
a run reads the records of the chunks before the first such one (`IndexRecord.readIn`), which may be
fewer for one size than for another.

`reads_in_chunks` says what a run reads, and `reads_in_two_sizes` compares two runs. Blocks that a
size loses are noticed: if the check at the end succeeds, no other size gives more results.
-/

namespace ShuffleService

namespace IndexRecord

variable {layout : BlockIdLayout} {ids tasks : IdSet} {content : Bytes} {limit : Nat}
  {rs rs' : List IndexRecord}

/-! ### Records that are due -/

/-- The member of an id set that stands for the block. -/
def key (r : IndexRecord) : Nat := IdSet.key r.blockId

/-- The records whose blocks have to be delivered: of each block the first record, if the block is
expected and the record carries a task attempt that counts. -/
def due (layout : BlockIdLayout) (ids tasks : IdSet) (rs : List IndexRecord) : List IndexRecord :=
  (firstPer key rs).filter fun r =>
    (BlockReader.expectedOf layout ids tasks).contains r.key && tasks.contains (IdSet.key r.task)

/-- More records add to those that are due. -/
theorem due_append (more : List IndexRecord) : due layout ids tasks (rs ++ more) =
    due layout ids tasks rs ++
      (due layout ids tasks more).filter (key · ∉ rs.map key) := by
  simp only [due, firstPer_append, List.filter_append, List.filter_filter, Bool.and_comm]

theorem isPrefix_due (h : rs <+: rs') : due layout ids tasks rs <+: due layout ids tasks rs' := by
  obtain ⟨more, rfl⟩ := h
  rw [due_append]
  exact List.prefix_append ..

theorem key_mem_of_mem_due {r : IndexRecord} (h : r ∈ due layout ids tasks rs) :
    r.key ∈ BlockReader.expectedOf layout ids tasks := by
  have hcounts := (List.mem_filter.1 h).2
  rw [Bool.and_eq_true, IdSet.contains_iff] at hcounts
  exact hcounts.1

/-- Once there is a record of each expected block, further records are not due. -/
theorem due_eq_of_isPrefix (h : rs <+: rs')
    (hall : ∀ x ∈ BlockReader.expectedOf layout ids tasks, ∃ r ∈ rs, r.key = x) :
    due layout ids tasks rs' = due layout ids tasks rs := by
  obtain ⟨more, rfl⟩ := h
  have hmore : (due layout ids tasks more).filter (key · ∉ rs.map key) = [] := by
    refine List.filter_eq_nil_iff.2 fun r hr => ?_
    obtain ⟨s, hs, hkey⟩ := hall r.key (key_mem_of_mem_due hr)
    simpa using ⟨s, hs, hkey⟩
  rw [due_append, hmore, List.append_nil]

/-! ### Records that are read -/

/-- The records that are read in chunks of some size: those of the chunks before the first one whose
records need nothing. -/
def readIn (limit : Nat) (rs : List IndexRecord) : List IndexRecord :=
  ((groupIntoChunks limit rs).takeWhile (¬ NeedNothing ·)).flatten

theorem isPrefix_readIn (limit : Nat) (rs : List IndexRecord) : readIn limit rs <+: rs := by
  obtain ⟨rest, hrest⟩ := List.takeWhile_prefix (l := groupIntoChunks limit rs)
    fun chunk => decide (¬ NeedNothing chunk)
  refine ⟨rest.flatten, ?_⟩
  rw [readIn, ← List.flatten_append, hrest, flatten_groupIntoChunks]

theorem readIn_eq_self (h : ∀ chunk ∈ groupIntoChunks limit rs, ¬ NeedNothing chunk) :
    readIn limit rs = rs := by
  rw [readIn, List.takeWhile_eq_self_iff.2 fun chunk hchunk => decide_eq_true (h chunk hchunk),
    flatten_groupIntoChunks]

/-- Of what is read in two sizes, one begins the other. -/
theorem readIn_total (m n : Nat) (rs : List IndexRecord) :
    readIn m rs <+: readIn n rs ∨ readIn n rs <+: readIn m rs :=
  List.prefix_or_prefix_of_prefix (isPrefix_readIn m rs) (isPrefix_readIn n rs)

end IndexRecord

/-! ### Runs -/

/-- The files of a partition, before anything is read from them. -/
def LocalFiles.unread (indexPath : String) (readLimit farthest : Nat) (content index : Bytes) :
    LocalFiles where
  indexPath := indexPath
  readLimit := readLimit
  farthest := farthest
  data := .file content
  index := .file index

namespace BlockReader

open IndexRecord (decodeAll groupIntoChunks readIn)

variable {layout : BlockIdLayout} {ids : IdBitmap} {tasks : IdSet} {r : BlockReader}
  {content index : Bytes}

theorem check_having_eq_ok_iff {rs : List IndexRecord} :
    (r.having (rs.map (·.blockId))).check = .ok () ↔ ∀ x ∈ r.expected, ∃ s ∈ rs, s.key = x := by
  rw [check_eq_ok_iff]
  simp only [having, IdSet.mem_ofIds, List.mem_map, exists_exists_and_eq_and]
  rfl

/-- The results that a run gives for records: their blocks, as they stand in the data file. -/
def resultsOf (content : Bytes) (rs : List IndexRecord) : List Outcome :=
  rs.map fun x => (x.directBlock content).map some

/-- What a run reads: the blocks of the records that are due among those that are read in chunks of
the given size, each as it stands in the data file. -/
theorem reads_in_chunks (hstart : start? layout ids tasks = some r)
    (hlength : content.length < 2 ^ 63) (hinside : ∀ x ∈ decodeAll index, x.Inside content)
    (path : String) (limit spare : Nat) :
    let f : LocalFiles := .unread path limit (content.length + spare) content index
    ∃ cs r' f', Reads LocalFiles.source r f cs r' f' ∧
      cs.map (·.outcome) =
        resultsOf content (IndexRecord.due layout ids.set tasks (readIn limit (decodeAll index))) ++
          [.ok none] ∧
      r'.check = (r.having ((readIn limit (decodeAll index)).map (·.blockId))).check := by
  intro f
  let chunks := groupIntoChunks limit (decodeAll index)
  have hflat : chunks.flatten = decodeAll index := IndexRecord.flatten_groupIntoChunks ..
  have hchunk : ∀ rs ∈ chunks, ∀ x ∈ rs, x.Inside content := fun rs hrs x hx =>
    hinside x (hflat ▸ List.mem_flatten.2 ⟨rs, hrs, hx⟩)
  have hfit : ∀ rs ∈ chunks, LocalFiles.EndsFit rs := fun rs hrs =>
    LocalFiles.endsFit_of_inside hlength (hchunk rs hrs)
  have hshows : LocalFiles.Shows content chunks f :=
    ⟨rfl, ⟨_, rfl⟩, fun rs hrs =>
      LocalFiles.firstByte_le_of_inside (Nat.le_add_right ..) (hchunk rs hrs)⟩
  exact reads_by (LocalFiles.answers_source hfit) hshows hstart
    (LocalFiles.map_view_stock_takeWhile
      (fun rs hrs => IndexRecord.ne_nil_of_mem_groupIntoChunks hrs) (hflat ▸ hinside))

/-- If the check succeeds after some records, then further records add no results. -/
theorem isPrefix_of_check (hstart : start? layout ids tasks = some r) {rs rs' : List IndexRecord}
    (htotal : rs <+: rs' ∨ rs' <+: rs)
    (hcheck : (r.having (rs.map (·.blockId))).check = .ok ()) :
    resultsOf content (IndexRecord.due layout ids.set tasks rs') <+:
      resultsOf content (IndexRecord.due layout ids.set tasks rs) := by
  rcases htotal with h | h
  · rw [check_having_eq_ok_iff, expected_start hstart] at hcheck
    have hsame := IndexRecord.due_eq_of_isPrefix h hcheck
    exact hsame ▸ List.prefix_rfl
  · exact (IndexRecord.isPrefix_due h).map _

/-- **Two sizes.** Take files whose records all lie inside the data file, in whatever order, and a
reader of any blocks, and let it read the files in chunks of two sizes, on a file system that goes
to the end of the data file and `spare` places past it. Both runs come to an end, and each gives the
results of the records that it reads (`IndexRecord.readIn`).

* If both sizes read the same records, as they do if neither has a chunk whose records need nothing,
  then the two runs give the same results and the same answer of the check.
* In any case the results of one run begin those of the other, up to the end of the shorter one.
* If the check succeeds after a run, then the other one has no further results. -/
theorem reads_in_two_sizes (hstart : start? layout ids tasks = some r)
    (hlength : content.length < 2 ^ 63) (hinside : ∀ x ∈ decodeAll index, x.Inside content)
    (path : String) (m n spare : Nat) :
    let rs := decodeAll index
    let files (limit : Nat) : LocalFiles :=
      .unread path limit (content.length + spare) content index
    let results limit := resultsOf content (IndexRecord.due layout ids.set tasks (readIn limit rs))
    (∃ cs r₁ f₁ ds r₂ f₂,
      Reads LocalFiles.source r (files m) cs r₁ f₁ ∧
      Reads LocalFiles.source r (files n) ds r₂ f₂ ∧
      cs.map (·.outcome) = results m ++ [.ok none] ∧
      ds.map (·.outcome) = results n ++ [.ok none] ∧
      (readIn m rs = readIn n rs → cs.map (·.outcome) = ds.map (·.outcome) ∧ r₁.check = r₂.check) ∧
      (results m <+: results n ∨ results n <+: results m) ∧
      (r₁.check = .ok () → results n <+: results m) ∧
      (r₂.check = .ok () → results m <+: results n)) ∧
    ((∀ limit, limit = m ∨ limit = n →
      ∀ chunk ∈ groupIntoChunks limit rs, ¬ IndexRecord.NeedNothing chunk) →
        readIn m rs = readIn n rs) := by
  intro rs files results
  obtain ⟨cs, r₁, f₁, hcs, houtcomes₁, hcheck₁⟩ :=
    reads_in_chunks hstart hlength hinside path m spare
  obtain ⟨ds, r₂, f₂, hds, houtcomes₂, hcheck₂⟩ :=
    reads_in_chunks hstart hlength hinside path n spare
  have htotal := IndexRecord.readIn_total m n rs
  refine ⟨⟨cs, r₁, f₁, ds, r₂, f₂, hcs, hds, houtcomes₁, houtcomes₂, fun hsame => ?_, ?_,
    fun hok => ?_, fun hok => ?_⟩, fun hneeds => ?_⟩
  · rw [houtcomes₁, houtcomes₂, hcheck₁, hcheck₂, hsame]
    exact ⟨rfl, rfl⟩
  · exact htotal.imp (fun h => (IndexRecord.isPrefix_due h).map _)
      fun h => (IndexRecord.isPrefix_due h).map _
  · exact isPrefix_of_check hstart htotal (hcheck₁ ▸ hok)
  · exact isPrefix_of_check hstart htotal.symm (hcheck₂ ▸ hok)
  · rw [IndexRecord.readIn_eq_self (hneeds m (.inl rfl)),
      IndexRecord.readIn_eq_self (hneeds n (.inr rfl))]

/-- A block without bytes, one of two bytes, and one that overlaps it: all three share a chunk in the
larger size, and the last has one of its own in the smaller. -/
theorem reads_in_two_sizes_three_blocks :
    let rs : List IndexRecord := [⟨0, 0, 0, 0, 1, 1⟩, ⟨0, 2, 2, 2659403885, 2097153, 1⟩,
      ⟨1, 1, 1, 1908338681, 4194305, 1⟩]
    let index := rs.flatMap IndexRecord.encode
    groupIntoChunks 2 rs ≠ groupIntoChunks 3 rs ∧
    ∃ r cs r₁ f₁ ds r₂ f₂,
      start? .standard (.ofSet (.ofIds [1, 2097153, 4194305])) (.ofIds [1]) = some r ∧
      Reads LocalFiles.source r (.unread "index" 2 2 [97, 98] index) cs r₁ f₁ ∧
      Reads LocalFiles.source r (.unread "index" 3 2 [97, 98] index) ds r₂ f₂ ∧
      cs.map (·.outcome) = [.ok (some ⟨[], 0⟩), .ok (some ⟨[97, 98], 2⟩), .ok (some ⟨[98], 1⟩),
        .ok none] ∧
      cs.map (·.outcome) = ds.map (·.outcome) ∧ r₁.check = r₂.check := by
  intro rs index
  have hdecode : decodeAll index = rs := by decide +kernel
  have hinside : ∀ x ∈ rs, x.Inside [97, 98] := by
    simp only [rs, List.forall_mem_cons]
    exact ⟨⟨by decide, by decide, by decide⟩, ⟨by decide, by decide, by decide⟩,
      ⟨by decide, by decide, by decide⟩, fun x hx => absurd hx List.not_mem_nil⟩
  have hneeds : ∀ limit, limit = 2 ∨ limit = 3 →
      ∀ chunk ∈ groupIntoChunks limit rs, ¬ IndexRecord.NeedNothing chunk := by
    rintro limit (rfl | rfl) <;> decide
  obtain ⟨r, hstart⟩ := exists_start .standard
    (show (IdBitmap.ofSet (.ofIds [1, 2097153, 4194305])).hollow = [] from rfl) (.ofIds [1])
  obtain ⟨⟨cs, r₁, f₁, ds, r₂, f₂, hcs, hds, houtcomes, -, hsame, -⟩, hread⟩ :=
    reads_in_two_sizes hstart (by decide) (hdecode ▸ hinside) "index" 2 3 0
  obtain ⟨heq, hcheck⟩ := hsame (hread (hdecode ▸ hneeds))
  refine ⟨by decide, r, cs, r₁, f₁, ds, r₂, f₂, hstart, hcs, hds, ?_, heq, hcheck⟩
  rw [houtcomes, hdecode]
  decide +kernel

/-- In chunks of one byte the empty block that comes first has a chunk of its own, which the reader
takes for the end. In chunks of two bytes it reads both blocks. -/
theorem chunk_size_hides_blocks :
    let rs : List IndexRecord := [⟨0, 0, 0, 0, 1, 1⟩, ⟨0, 2, 2, 2659403885, 2097153, 1⟩]
    let index := rs.flatMap IndexRecord.encode
    (∀ x ∈ decodeAll index, x.Inside [97, 98]) ∧
    ∃ r cs r₁ f₁ ds r₂ f₂,
      start? .standard (.ofSet (.ofIds [1, 2097153])) (.ofIds [1]) = some r ∧
      Reads LocalFiles.source r (.unread "index" 1 2 [97, 98] index) cs r₁ f₁ ∧
      cs.map (·.outcome) = [.ok none] ∧ r₁.check = .error (.blocksInconsistent 2 0) ∧
      Reads LocalFiles.source r (.unread "index" 2 2 [97, 98] index) ds r₂ f₂ ∧
      ds.map (·.outcome) = [.ok (some ⟨[], 0⟩), .ok (some ⟨[97, 98], 2⟩), .ok none] ∧
      r₂.check = .ok () := by
  intro rs index
  have hdecode : decodeAll index = rs := by decide +kernel
  have hinside : ∀ x ∈ decodeAll index, x.Inside [97, 98] := by
    rw [hdecode]
    simp only [rs, List.forall_mem_cons]
    exact ⟨⟨by decide, by decide, by decide⟩, ⟨by decide, by decide, by decide⟩,
      fun x hx => absurd hx List.not_mem_nil⟩
  let r : BlockReader :=
    ⟨expectedOf .standard (.ofIds [1, 2097153]) (.ofIds [1]), .ofIds [1], ∅, 0, #[], []⟩
  have hstart : start? .standard (.ofSet (.ofIds [1, 2097153])) (.ofIds [1]) = some r := rfl
  obtain ⟨cs, r₁, f₁, hcs, houtcomes₁, hcheck₁⟩ :=
    reads_in_chunks hstart (by decide) hinside "index" 1 0
  obtain ⟨ds, r₂, f₂, hds, houtcomes₂, hcheck₂⟩ :=
    reads_in_chunks hstart (by decide) hinside "index" 2 0
  refine ⟨hinside, r, cs, r₁, f₁, ds, r₂, f₂, hstart, hcs, ?_, ?_, hds, ?_, ?_⟩
  · rw [houtcomes₁, hdecode]
    decide +kernel
  · rw [hcheck₁, hdecode]
    decide +kernel
  · rw [houtcomes₂, hdecode]
    decide +kernel
  · rw [hcheck₂, hdecode]
    decide +kernel

end BlockReader

end ShuffleService
