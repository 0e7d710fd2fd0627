import Mathlib.Data.List.TakeWhile
import ShuffleService.LocalFiles
import ShuffleService.Proofs.ReaderReference
import ShuffleService.Proofs.RecordBytes

/-!
# Reading through chunks and reading directly

The blocks of a chunk are read from the data file together, and each is then located relative to
the first byte that was read. What a reader gets for a record is still what stands in the data file
at the place that the record names (`block_copyOf`). As long as nobody writes to the files, the
source answers by the list of its chunks (`answers_source`), and the stock of copies runs through
the records of the index in order, up to a chunk that has no data (`map_view_stock_takeWhile`).

With what a reader finds for its copies known, `BlockReader.reads_by` says what a run reads.
-/

namespace ShuffleService

/-- What stands in a data file at the place that a record names. -/
def IndexRecord.directBlock (content : Bytes) (r : IndexRecord) : Except ShuffleError Block :=
  let bytes := (content.drop r.offset.toNat).take r.length.toNat
  if (Crc32.checksum bytes : Int) = r.crc then .ok ⟨bytes, r.rawLength⟩
  else .error (.checksumMismatch r.blockId r.crc (Crc32.checksum bytes))

/-- What a reader finds for a copy: the id, the attempt that it carries, and the block. -/
def StoredCopy.view (c : StoredCopy) : Int × Int × Except ShuffleError Block :=
  (c.segment.blockId, c.segment.task, c.block)

/-- What a record says about a block: the id, the attempt, and what stands in the data file. -/
def IndexRecord.view (content : Bytes) (r : IndexRecord) : Int × Int × Except ShuffleError Block :=
  (r.blockId, r.task, r.directBlock content)

/-- Whether the place that a record names lies inside a data file. -/
structure IndexRecord.Inside (content : Bytes) (r : IndexRecord) : Prop where
  offset_nonneg : 0 ≤ r.offset
  length_nonneg : 0 ≤ r.length
  end_le : r.offset + r.length ≤ content.length

/-! ### What a reader finds -/

namespace BlockReader

variable {layout : BlockIdLayout} {ids tasks : IdSet} {β : Type}
  {v : β → Int × Int × Except ShuffleError Block} {bs : List β} {cs : List StoredCopy}

/-- What has to be delivered of a list that stands for copies by what a reader finds for them. -/
def dueBy (layout : BlockIdLayout) (ids tasks : IdSet)
    (v : β → Int × Int × Except ShuffleError Block) (bs : List β) : List β :=
  (firstPer (fun b => IdSet.key (v b).1) bs).filter fun b =>
    (expectedOf layout ids tasks).contains (IdSet.key (v b).1) &&
      tasks.contains (IdSet.key (v b).2.1)

theorem map_view_due (h : cs.map StoredCopy.view = bs.map v) :
    (due layout ids tasks cs).map StoredCopy.view = (dueBy layout ids tasks v bs).map v := by
  let wanted (v : Int × Int × Except ShuffleError Block) : Bool :=
    (expectedOf layout ids tasks).contains (IdSet.key v.1) && tasks.contains (IdSet.key v.2.1)
  have hcopies : (due layout ids tasks cs).map StoredCopy.view =
      (firstPer (fun v => IdSet.key v.1) (cs.map StoredCopy.view)).filter wanted := by
    rw [firstPer_map, List.filter_map]
    rfl
  have hlist : (dueBy layout ids tasks v bs).map v =
      (firstPer (fun v => IdSet.key v.1) (bs.map v)).filter wanted := by
    rw [firstPer_map, List.filter_map]
    rfl
  rw [hcopies, hlist, h]

/-- A reader that has seen the blocks of some ids. -/
def having (r : BlockReader) (seen : List Int) : BlockReader :=
  { r with processed := .ofIds seen }

/-- What a run reads, of whatever stands for the copies of its source: the blocks of what is due, and
the check at the end is made on the ids of all. -/
theorem reads_by {σ : Type} {source : ChunkSource σ} {good : σ → Prop}
    {answers : List (Option Chunk)} (h : source.Answers good answers) {s : σ} (hs : good s)
    {ids : IdBitmap} {r : BlockReader} (hstart : start? layout ids tasks = some r)
    (hstock : (stock answers).map StoredCopy.view = bs.map v) :
    ∃ cs r' s', Reads source r s cs r' s' ∧
      cs.map (·.outcome) =
        (dueBy layout ids.set tasks v bs).map (fun b => (v b).2.2.map some) ++ [.ok none] ∧
      r'.check = (r.having (bs.map fun b => (v b).1)).check := by
  have hexpected := expected_start hstart
  by_cases hne : expectedOf layout ids.set tasks = ∅
  · -- a reader that expects nothing asks for nothing, and nothing is due
    rw [hne] at hexpected
    have hdue : dueBy layout ids.set tasks v bs = [] :=
      List.filter_eq_nil_iff.2 fun b _ => by simp [hne]
    refine ⟨_, r, s, reads_of_isEmpty source s (IdSet.isEmpty_iff.2 hexpected), ?_, ?_⟩
    · rw [hdue]
      rfl
    · have hok (q : BlockReader) (hq : q.expected = ∅) : q.check = .ok () :=
        check_eq_ok_iff.2 fun x hx => absurd (hq ▸ hx) (IdSet.not_mem_empty x)
      rw [hok r hexpected, hok (r.having _) hexpected]
  · obtain ⟨cs, r', s', hreads, -, houtcomes, -, hkept, hprocessed⟩ :=
      reads_of_start h hs hstart hne
    refine ⟨cs, r', s', hreads, ?_, ?_⟩
    · have hview : (due layout ids.set tasks (stock answers)).map StoredCopy.view =
          (dueBy layout ids.set tasks v bs).map v := map_view_due hstock
      have hblocks := congrArg (List.map fun v : Int × Int × Except ShuffleError Block =>
        v.2.2.map some) hview
      rw [List.map_map, List.map_map] at hblocks
      rw [houtcomes]
      exact congrArg (· ++ [.ok none]) hblocks
    · have hseen : blocksOf (stock answers) = .ofIds (bs.map fun b => (v b).1) := by
        have hids := congrArg (List.map (·.1)) hstock
        rw [List.map_map, List.map_map] at hids
        exact congrArg IdSet.ofIds hids
      rw [check_eq, check_eq, hkept, hprocessed, hseen, ← hexpected]
      rfl

end BlockReader

/-- Records of empty blocks that all lie at the same place: they need no byte of a data file. -/
def IndexRecord.NeedNothing (rs : List IndexRecord) : Prop :=
  ∀ r ∈ rs, r.length = 0 ∧ ∀ s ∈ rs, s.offset = r.offset

instance (rs : List IndexRecord) : Decidable (IndexRecord.NeedNothing rs) :=
  inferInstanceAs (Decidable (∀ r ∈ rs, _))

namespace LocalFiles

variable {content : Bytes} {rs : List IndexRecord} {r : IndexRecord}

/-! ### The stretch that a chunk needs -/

/-- The byte after the last one that the blocks of a chunk need, if no end overflows. -/
def lastByte (rs : List IndexRecord) : Int :=
  rs.foldl (fun stop r => max stop (r.offset + r.length)) (firstByte rs)

/-- A chunk does not begin behind a place that none of its blocks begins behind. -/
theorem firstByte_le_of_offsets {stop : Nat} (h : ∀ r ∈ rs, r.offset ≤ stop) :
    firstByte rs ≤ stop := by
  unfold firstByte
  cases hmin : (rs.map (·.offset)).min? with
  | none => exact Int.natCast_nonneg stop
  | some m =>
    obtain ⟨r, hr, rfl⟩ := List.mem_map.1 (List.min?_eq_some_iff.1 hmin).1
    exact Int.max_le.2 ⟨Int.natCast_nonneg stop, h r hr⟩

/-- The blocks of a chunk all begin behind a place if its first byte is behind it. -/
theorem lt_firstByte_iff (hne : rs ≠ []) {stop : Nat} :
    (stop : Int) < firstByte rs ↔ ∀ r ∈ rs, (stop : Int) < r.offset := by
  unfold firstByte
  cases hmin : (rs.map (·.offset)).min? with
  | none =>
    rw [List.min?_eq_none_iff, List.map_eq_nil_iff] at hmin
    exact absurd hmin hne
  | some m =>
    obtain ⟨hm, hleast⟩ := List.min?_eq_some_iff.1 hmin
    rw [Option.getD_some, lt_max_iff, or_iff_right (by omega)]
    constructor
    · exact fun h r hr => Int.lt_of_lt_of_le h (hleast _ (List.mem_map_of_mem hr))
    · intro h
      obtain ⟨r, hr, rfl⟩ := List.mem_map.1 hm
      exact h r hr

/-- No end in a chunk is past what a word can hold. -/
def EndsFit (rs : List IndexRecord) : Prop := ∀ r ∈ rs, fitsWord (r.offset + r.length) = true

/-- No end inside a data file is past what a word can hold. -/
theorem endsFit_of_inside (hlength : content.length < 2 ^ 63)
    (hinside : ∀ r ∈ rs, r.Inside content) : EndsFit rs := by
  intro r hr
  obtain ⟨hoffset, hlen, hend⟩ := hinside r hr
  simp only [fitsWord, Bool.and_eq_true, decide_eq_true_eq]
  omega

/-- A chunk of records inside a data file begins no farther than the file goes. -/
theorem firstByte_le_of_inside {farthest : Nat} (hroom : content.length ≤ farthest)
    (hinside : ∀ r ∈ rs, r.Inside content) : firstByte rs ≤ farthest := by
  refine firstByte_le_of_offsets fun r hr => ?_
  obtain ⟨hoffset, hlength, hend⟩ := hinside r hr
  omega

theorem endByte_eq (path : String) (start : Int) (h : EndsFit rs) :
    endByte path start rs =
      .ok (rs.foldl (fun stop r => max stop (r.offset + r.length)) start) := by
  unfold endByte
  induction rs generalizing start with
  | nil => rfl
  | cons r rs ih =>
    rw [List.foldlM_cons, List.foldl_cons]
    dsimp only
    rw [if_pos (h r (List.mem_cons_self ..))]
    exact ih _ fun s hs => h s (List.mem_cons_of_mem r hs)

/-- No block of a chunk begins before its first byte. -/
theorem firstByte_le (hr : r ∈ rs) (hoffset : 0 ≤ r.offset) : firstByte rs ≤ r.offset := by
  unfold firstByte
  cases hmin : (rs.map (·.offset)).min? with
  | none =>
    rw [List.min?_eq_none_iff, List.map_eq_nil_iff] at hmin
    subst hmin
    exact absurd hr List.not_mem_nil
  | some m =>
    have := (List.min?_eq_some_iff.1 hmin).2 _ (List.mem_map_of_mem (f := (·.offset)) hr)
    rw [Option.getD_some]
    omega

theorem firstByte_nonneg (rs : List IndexRecord) : 0 ≤ firstByte rs := Int.le_max_left ..

/-- No block of a chunk ends after its last byte. -/
theorem le_lastByte (hr : r ∈ rs) : r.offset + r.length ≤ lastByte rs := by
  have hmono (start : Int) (rs : List IndexRecord) :
      start ≤ rs.foldl (fun stop r => max stop (r.offset + r.length)) start := by
    induction rs generalizing start with
    | nil => exact Int.le_refl _
    | cons s rs ih => exact Int.le_trans (Int.le_max_left ..) (ih _)
  unfold lastByte
  generalize firstByte rs = start
  induction rs generalizing start with
  | nil => exact absurd hr List.not_mem_nil
  | cons s rs ih =>
    rw [List.foldl_cons]
    rcases List.mem_cons.1 hr with rfl | hr
    · exact Int.le_trans (Int.le_max_right ..) (hmono _ _)
    · exact ih hr _

/-- Some block of a chunk begins at its first byte. -/
theorem exists_offset_eq (hne : rs ≠ []) (hoffset : ∀ r ∈ rs, 0 ≤ r.offset) :
    ∃ r ∈ rs, r.offset = firstByte rs := by
  unfold firstByte
  cases hmin : (rs.map (·.offset)).min? with
  | none =>
    rw [List.min?_eq_none_iff, List.map_eq_nil_iff] at hmin
    exact absurd hmin hne
  | some m =>
    obtain ⟨r, hr, rfl⟩ := List.mem_map.1 (List.min?_eq_some_iff.1 hmin).1
    have := hoffset r hr
    exact ⟨r, hr, by rw [Option.getD_some]; omega⟩

/-- A chunk does not go on where none of its blocks does. -/
theorem lastByte_le {stop : Int} (hfirst : firstByte rs ≤ stop)
    (hends : ∀ r ∈ rs, r.offset + r.length ≤ stop) : lastByte rs ≤ stop := by
  unfold lastByte
  generalize firstByte rs = start at hfirst
  induction rs generalizing start with
  | nil => exact hfirst
  | cons r rs ih =>
    obtain ⟨hr, hrs⟩ := List.forall_mem_cons.1 hends
    exact ih hrs _ (Int.max_le.2 ⟨hfirst, hr⟩)

/-! ### Chunks -/

/-- The chunk of some records. -/
def chunkOf (content : Bytes) (rs : List IndexRecord) : Chunk :=
  ⟨slice content (firstByte rs) (lastByte rs), rs.map (segmentOf (firstByte rs))⟩

/-- The copy of a record in its chunk. -/
def copyOf (content : Bytes) (rs : List IndexRecord) (r : IndexRecord) : StoredCopy :=
  ⟨slice content (firstByte rs) (lastByte rs), segmentOf (firstByte rs) r⟩

/-- A record inside the data file has its range inside the bytes of its chunk. -/
theorem range_of_inside (hr : r ∈ rs) (hinside : r.Inside content) :
    0 ≤ r.offset - firstByte rs ∧ 0 ≤ r.length ∧
      r.offset - firstByte rs + r.length ≤ (slice content (firstByte rs) (lastByte rs)).length := by
  obtain ⟨hoffset, hlength, hend⟩ := hinside
  have hfirst := firstByte_le hr hoffset
  have hnonneg := firstByte_nonneg rs
  have hlast := le_lastByte hr
  rw [slice, List.length_take, List.length_drop]
  omega

/-- What stands in that range is what stands in the data file. -/
theorem bytes_slice (hr : r ∈ rs) (hoffset : 0 ≤ r.offset) :
    ((slice content (firstByte rs) (lastByte rs)).drop (r.offset - firstByte rs).toNat).take
      r.length.toNat = (content.drop r.offset.toNat).take r.length.toNat := by
  have hfirst := firstByte_le hr hoffset
  have hnonneg := firstByte_nonneg rs
  have hlast := le_lastByte hr
  -- the chunk was cut at its first byte, and the place of the block counts from there
  rw [slice, List.drop_take, List.drop_drop, List.take_take]
  congr 1
  · omega
  · congr 1
    omega

/-- A block is read from its chunk as it stands in the data file. -/
theorem block_copyOf (hr : r ∈ rs) (hinside : r.Inside content) :
    (copyOf content rs r).block = r.directBlock content := by
  unfold StoredCopy.block copyOf segmentOf
  dsimp only
  rw [if_pos (range_of_inside hr hinside), bytes_slice hr hinside.offset_nonneg]
  rfl

/-- A chunk is empty just if its records need nothing. -/
theorem slice_eq_nil_iff (hne : rs ≠ []) (hinside : ∀ r ∈ rs, r.Inside content) :
    slice content (firstByte rs) (lastByte rs) = [] ↔ IndexRecord.NeedNothing rs := by
  have hnonneg := firstByte_nonneg rs
  rw [← List.length_eq_zero_iff, slice, List.length_take, List.length_drop]
  constructor
  · intro hempty
    have hat : ∀ r ∈ rs, r.length = 0 ∧ r.offset = firstByte rs := by
      intro r hr
      obtain ⟨hoffset, hlength, hend⟩ := hinside r hr
      have hfirst := firstByte_le hr hoffset
      have hlast := le_lastByte hr
      omega
    exact fun r hr => ⟨(hat r hr).1, fun s hs => (hat s hs).2.trans (hat r hr).2.symm⟩
  · intro h
    obtain ⟨r, hr, hfirst⟩ := exists_offset_eq hne fun r hr => (hinside r hr).offset_nonneg
    have hlast : lastByte rs ≤ firstByte rs := by
      refine lastByte_le (Int.le_refl _) fun s hs => ?_
      have hlength := (h s hs).1
      have hoffset := (h r hr).2 s hs
      omega
    omega

/-! ### The source -/

/-- The files hold the given data and, read already or not, the given chunks, of which none begins
behind the places that the file system goes to. -/
structure Shows (content : Bytes) (chunks : List (List IndexRecord)) (f : LocalFiles) : Prop where
  loaded : f.loadChunks = .ok chunks
  openable : ∃ opened, f.openData = .ok (some (content, opened))
  reachable : ∀ rs ∈ chunks, firstByte rs ≤ f.farthest

theorem openData_opened {f : LocalFiles} {opened : OpenFile}
    (h : f.openData = .ok (some (content, opened))) :
    { f with opened := some opened }.openData = .ok (some (content, opened)) := by
  obtain ⟨path, limit, farthest, data, index, chunks, held⟩ := f
  unfold openData at h ⊢
  dsimp only at h ⊢
  split at h
  · cases h
    rfl
  · cases h
    rfl
  · cases h
  · cases h

/-- As long as nobody writes to the files, the source answers by the list of its chunks. -/
theorem answers_source {chunks : List (List IndexRecord)} (hfit : ∀ rs ∈ chunks, EndsFit rs) :
    source.Answers (Shows content chunks) (chunks.map fun rs => some (chunkOf content rs)) := by
  rintro f k ⟨hchunks, ⟨opened, hopen⟩, hplaces⟩
  show (read f k).1 = _ ∧ Shows content chunks (read f k).2
  unfold read
  rw [hchunks]
  dsimp only
  rw [List.getD_eq_getElem?_getD, List.getElem?_map]
  cases hk : chunks[k]? with
  | none => exact ⟨rfl, rfl, ⟨opened, hopen⟩, hplaces⟩
  | some rs =>
    -- keeping the chunks does not touch the data file, and a file that is open is not opened again
    have hopen' : { f with chunks := some chunks }.openData = .ok (some (content, opened)) := hopen
    dsimp only
    unfold readChunk
    dsimp only
    rw [endByte_eq _ _ (hfit rs (List.mem_of_getElem? hk)), hopen']
    dsimp only
    rw [if_neg (Int.not_lt.2 (hplaces rs (List.mem_of_getElem? hk)))]
    exact ⟨rfl, rfl, ⟨opened, openData_opened hopen'⟩, hplaces⟩

/-- The stock runs through the records of the chunks in order, up to a chunk whose records need
nothing. -/
theorem map_view_stock_takeWhile {chunks : List (List IndexRecord)} (hne : ∀ rs ∈ chunks, rs ≠ [])
    (hinside : ∀ r ∈ chunks.flatten, r.Inside content) :
    (stock (chunks.map fun rs => some (chunkOf content rs))).map StoredCopy.view =
      (chunks.takeWhile (¬ IndexRecord.NeedNothing ·)).flatten.map (IndexRecord.view content) := by
  induction chunks with
  | nil => rfl
  | cons rs chunks ih =>
    obtain ⟨hrs, hne⟩ := List.forall_mem_cons.1 hne
    rw [List.flatten_cons, List.forall_mem_append] at hinside
    obtain ⟨hinside, hrest⟩ := hinside
    have hstop : ((chunkOf content rs).data = [] ∨ (chunkOf content rs).segments = []) ↔
        IndexRecord.NeedNothing rs := by
      rw [← slice_eq_nil_iff hrs hinside]
      simp [chunkOf, hrs]
    rw [List.map_cons, stock, List.takeWhile_cons]
    by_cases hempty : IndexRecord.NeedNothing rs
    · rw [if_pos (hstop.2 hempty), if_neg (by simpa using hempty)]
      rfl
    · rw [if_neg (mt hstop.1 hempty), if_pos (by simpa using hempty), List.map_append, ih hne hrest,
        List.flatten_cons, List.map_append]
      congr 1
      simp only [Chunk.copies, chunkOf, List.map_map]
      refine List.map_congr_left fun r hr => ?_
      have hblock := block_copyOf hr (hinside r hr)
      rw [copyOf] at hblock
      simp only [Function.comp_apply, StoredCopy.view, hblock]
      rfl

/-- The stock runs through the records of all chunks in order. -/
theorem map_view_stock {chunks : List (List IndexRecord)} (hne : ∀ rs ∈ chunks, rs ≠ [])
    (hinside : ∀ r ∈ chunks.flatten, r.Inside content ∧ 0 < r.length) :
    (stock (chunks.map fun rs => some (chunkOf content rs))).map StoredCopy.view =
      chunks.flatten.map (IndexRecord.view content) := by
  rw [map_view_stock_takeWhile hne fun r hr => (hinside r hr).1, List.takeWhile_eq_self_iff.2]
  intro rs hrs
  obtain ⟨r, hr⟩ := List.exists_mem_of_ne_nil rs (hne rs hrs)
  have hpos := (hinside r (List.mem_flatten.2 ⟨rs, hrs, hr⟩)).2
  exact decide_eq_true fun h => by
    have := (h r hr).1
    omega

end LocalFiles

end ShuffleService
