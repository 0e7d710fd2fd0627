import ShuffleService.Proofs.DirectRead

/-!
# The files of a partition as they are written

Blocks are written one after the other into the data file, and the index file gets a record for
each. A reader of the two files finds a copy of every block that was written, in the same order and
with the same bytes, whatever the size of its chunks (`exists_answers`).
-/

namespace ShuffleService

/-- A block to be written, with its id. -/
structure WrittenBlock where
  id : Int
  payload : Bytes
  id_fits : IndexRecord.fitsBytes 8 id
  length_lt : payload.length < 2 ^ 31

namespace WrittenBlock

variable {layout : BlockIdLayout} {w : WrittenBlock} {ws : List WrittenBlock}

/-- The member of an id set that stands for the block. -/
def key (w : WrittenBlock) : Nat := IdSet.key w.id

/-- The member of an id set that stands for the task attempt in the id. -/
def taskKey (layout : BlockIdLayout) (w : WrittenBlock) : Nat := IdSet.key (layout.taskOf w.id)

/-- The block that a reader is to get. -/
def block (w : WrittenBlock) : Block := ⟨w.payload, w.payload.length⟩

/-- The record of a block that is written at the given place. -/
def record (layout : BlockIdLayout) (offset : Nat) (w : WrittenBlock) : IndexRecord where
  offset := offset
  length := w.payload.length
  rawLength := w.payload.length
  crc := Crc32.checksum w.payload
  blockId := w.id
  task := layout.taskOf w.id

/-- The records of blocks that are written from the given place on. -/
def records (layout : BlockIdLayout) : Nat → List WrittenBlock → List IndexRecord
  | _, [] => []
  | offset, w :: ws => w.record layout offset :: records layout (offset + w.payload.length) ws

/-- The data file. -/
def dataFile (ws : List WrittenBlock) : Bytes := ws.flatMap (·.payload)

/-- The index file. -/
def indexFile (layout : BlockIdLayout) (ws : List WrittenBlock) : Bytes :=
  (records layout 0 ws).flatMap IndexRecord.encode

/-- The two files before anything is read from them, on a file system that goes as many places
past the end of the data file as `spare` says. -/
def files (layout : BlockIdLayout) (indexPath : String) (readLimit spare : Nat)
    (ws : List WrittenBlock) : LocalFiles where
  indexPath := indexPath
  readLimit := readLimit
  farthest := (dataFile ws).length + spare
  data := .file (dataFile ws)
  index := .file (indexFile layout ws)

/-! ### Records -/

theorem taskOf_nonneg (layout : BlockIdLayout) (id : Int) : 0 ≤ layout.taskOf id :=
  Int.emod_nonneg _ (by
    have : (0 : Int) < 2 ^ layout.taskBits := Int.pow_pos (by decide)
    omega)

theorem taskOf_lt (layout : BlockIdLayout) (id : Int) : layout.taskOf id < 2 ^ 63 := by
  have hpos : (0 : Int) < 2 ^ layout.taskBits := Int.pow_pos (by decide)
  have hlt : layout.taskOf id < 2 ^ layout.taskBits := Int.emod_lt_of_pos _ hpos
  have hbits := layout.total_le
  have hle : 2 ^ layout.taskBits ≤ 2 ^ 63 := Nat.pow_le_pow_right (by decide) (by omega)
  have hle' : (2 ^ layout.taskBits : Int) ≤ 2 ^ 63 := by exact_mod_cast hle
  omega

/-- The record of a block fits its words, if the place of the block does. -/
theorem fits_record {offset : Nat} (h : offset < 2 ^ 63) : (w.record layout offset).Fits := by
  have hlength := w.length_lt
  have hcrc := Crc32.checksum_lt w.payload
  have htask := taskOf_lt layout w.id
  have htask' := taskOf_nonneg layout w.id
  refine ⟨⟨?_, ?_⟩, ⟨?_, ?_⟩, ⟨?_, ?_⟩, ⟨?_, ?_⟩, w.id_fits, ⟨?_, ?_⟩⟩ <;>
    simp only [record] <;> omega

theorem fits_of_mem_records {offset : Nat} (h : offset + (dataFile ws).length < 2 ^ 63)
    {r : IndexRecord} (hr : r ∈ records layout offset ws) : r.Fits := by
  induction ws generalizing offset with
  | nil => exact absurd hr List.not_mem_nil
  | cons w ws ih =>
    rw [dataFile, List.flatMap_cons, List.length_append] at h
    rcases List.mem_cons.1 hr with rfl | hr
    · exact fits_record (by omega)
    · exact ih (by unfold dataFile; omega) hr

/-- What a reader is to find for a block. -/
def view (layout : BlockIdLayout) (w : WrittenBlock) : Int × Int × Except ShuffleError Block :=
  (w.id, layout.taskOf w.id, .ok w.block)

/-- What is written before a block is part of what is written before the next one. -/
theorem append_dataFile_cons (before : Bytes) (w : WrittenBlock) (ws : List WrittenBlock) :
    before ++ dataFile (w :: ws) = (before ++ w.payload) ++ dataFile ws := by
  simp [dataFile, List.flatMap_cons]

/-- Each record names the place of its block. -/
theorem inside_of_mem_records (before : Bytes) (hpos : ∀ w ∈ ws, w.payload ≠ []) {r : IndexRecord}
    (hr : r ∈ records layout before.length ws) :
    r.Inside (before ++ dataFile ws) ∧ 0 < r.length := by
  induction ws generalizing before with
  | nil => exact absurd hr List.not_mem_nil
  | cons w ws ih =>
    rw [append_dataFile_cons]
    rcases List.mem_cons.1 hr with rfl | hr
    · have := List.length_pos_iff.2 (hpos w (List.mem_cons_self ..))
      refine ⟨⟨Int.natCast_nonneg _, Int.natCast_nonneg _, ?_⟩, ?_⟩
      · simp only [record, List.length_append]
        omega
      · simp only [record]
        omega
    · rw [← List.length_append] at hr
      exact ih (before ++ w.payload) (fun v hv => hpos v (List.mem_cons_of_mem w hv)) hr

/-- Each record leads to the bytes of its block. -/
theorem map_view_records (before : Bytes) (ws : List WrittenBlock) :
    (records layout before.length ws).map (IndexRecord.view (before ++ dataFile ws)) =
      ws.map (view layout) := by
  induction ws generalizing before with
  | nil => rfl
  | cons w ws ih =>
    have ih := ih (before ++ w.payload)
    rw [← append_dataFile_cons, List.length_append] at ih
    have hbytes : ((before ++ dataFile (w :: ws)).drop before.length).take w.payload.length =
        w.payload := by
      rw [List.drop_left, dataFile, List.flatMap_cons, List.take_left]
    have hblock : (w.record layout before.length).directBlock (before ++ dataFile (w :: ws)) =
        .ok w.block := by
      rw [IndexRecord.directBlock]
      simp only [record, Int.toNat_natCast, hbytes]
      exact if_pos trivial
    rw [records, List.map_cons, ih, IndexRecord.view, hblock]
    rfl

/-! ### Reading the files -/

theorem decodeAll_indexFile (h : (dataFile ws).length < 2 ^ 63) :
    IndexRecord.decodeAll (indexFile layout ws) = records layout 0 ws := by
  have hfits : ∀ r ∈ records layout 0 ws, r.Fits :=
    fun r hr => fits_of_mem_records (by omega) hr
  have := IndexRecord.decodeAll_flatMap_encode hfits (show ([] : Bytes).length < _ by decide)
  rwa [List.append_nil] at this

/-- The source that reads the files answers by a list of chunks, in which the copies are those of
the blocks that were written, in order. -/
theorem exists_answers (layout : BlockIdLayout) (indexPath : String) (readLimit spare : Nat)
    (hpos : ∀ w ∈ ws, w.payload ≠ []) (htotal : (dataFile ws).length < 2 ^ 63) :
    ∃ good answers, LocalFiles.source.Answers good answers ∧
      good (files layout indexPath readLimit spare ws) ∧
      (stock answers).map StoredCopy.view = ws.map (view layout) := by
  let chunks := IndexRecord.groupIntoChunks readLimit (records layout 0 ws)
  have hflat : chunks.flatten = records layout 0 ws := IndexRecord.flatten_groupIntoChunks ..
  have hinside : ∀ r ∈ chunks.flatten, r.Inside (dataFile ws) ∧ 0 < r.length := by
    rw [hflat]
    exact fun r hr => inside_of_mem_records [] hpos hr
  have hchunk : ∀ rs ∈ chunks, ∀ r ∈ rs, r.Inside (dataFile ws) := fun rs hrs r hr =>
    (hinside r (List.mem_flatten.2 ⟨rs, hrs, hr⟩)).1
  have hfit : ∀ rs ∈ chunks, LocalFiles.EndsFit rs := fun rs hrs =>
    LocalFiles.endsFit_of_inside htotal (hchunk rs hrs)
  refine ⟨LocalFiles.Shows (dataFile ws) chunks, _, LocalFiles.answers_source hfit,
    ⟨?_, ⟨_, rfl⟩, fun rs hrs =>
      LocalFiles.firstByte_le_of_inside (Nat.le_add_right ..) (hchunk rs hrs)⟩, ?_⟩
  · simp only [LocalFiles.loadChunks, files, decodeAll_indexFile htotal]
    rfl
  · rw [LocalFiles.map_view_stock (fun rs hrs => IndexRecord.ne_nil_of_mem_groupIntoChunks hrs)
      hinside, hflat]
    exact map_view_records [] ws

end WrittenBlock

end ShuffleService
