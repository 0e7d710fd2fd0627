import Mathlib.Data.List.Forall2
import ShuffleService.Proofs.Delivery

/-!
# Files that were cut off

The data file and the index file of a partition may each have lost their last bytes, or be gone. A
reader then finds copies of the first blocks only (`BlockWrite.copies_left`), and of these it reads
what was written or fails (`Locates.copies`): the end of a chunk that is missing is no place to read
from. So what it returns is right as far as it goes, and the check at the end says whether anything
is left out (`cut_is_noticed`).

A record has a signed word of 32 bits for the length of its block. Blocks of 2 ^ 31 bytes and more
are written all the same, and their records state another length (`BlockWrite.stated`): of such a
block a reader may take a beginning for the whole (`cut_passes_for_long_block`).
-/

namespace ShuffleService

/-! ### Reading up to the first failure -/

namespace BlockReader

/-- Calls up to the first that finds nothing left or fails, with the blocks that they return and how
they end. -/
inductive Drains {σ : Type} (source : ChunkSource σ) :
    BlockReader → σ → List Block → Except ShuffleError Unit → BlockReader → σ → Prop
  | last {r s r' s'} (hcall : nextBlock source r s = (.ok none, r', s')) :
    Drains source r s [] (.ok ()) r' s'
  | failed {r s e r' s'} (hcall : nextBlock source r s = (.error e, r', s')) :
    Drains source r s [] (.error e) r' s'
  | more {r s b r₁ s₁ bs stop r' s'} (hcall : nextBlock source r s = (.ok (some b), r₁, s₁))
    (hrest : Drains source r₁ s₁ bs stop r' s') : Drains source r s (b :: bs) stop r' s'

variable {σ : Type} {source : ChunkSource σ} {r r' r₁ r₂ : BlockReader} {s s' s₁ s₂ : σ}

theorem Drains.unique {bs bs' : List Block} {stop stop' : Except ShuffleError Unit}
    (h : Drains source r s bs stop r₁ s₁) (h' : Drains source r s bs' stop' r₂ s₂) :
    bs = bs' ∧ stop = stop' ∧ r₁ = r₂ ∧ s₁ = s₂ := by
  induction h generalizing bs' with
  | last hcall =>
    cases h' with
    | last hcall' =>
      cases hcall.symm.trans hcall'
      exact ⟨rfl, rfl, rfl, rfl⟩
    | failed hcall' | more hcall' => cases hcall.symm.trans hcall'
  | failed hcall =>
    cases h' with
    | failed hcall' =>
      cases hcall.symm.trans hcall'
      exact ⟨rfl, rfl, rfl, rfl⟩
    | last hcall' | more hcall' => cases hcall.symm.trans hcall'
  | more hcall hrest ih =>
    cases h' with
    | last hcall' | failed hcall' => cases hcall.symm.trans hcall'
    | more hcall' hrest' =>
      cases hcall.symm.trans hcall'
      obtain ⟨rfl, rfl, rfl, rfl⟩ := ih hrest'
      exact ⟨rfl, rfl, rfl, rfl⟩

/-- The blocks of copies up to the first that fails, and whether one does. -/
def upToFailure : List StoredCopy → List Block × Except ShuffleError Unit
  | [] => ([], .ok ())
  | c :: cs =>
    match c.block with
    | .ok b => (b :: (upToFailure cs).1, (upToFailure cs).2)
    | .error e => ([], .error e)

theorem nextBlock_of_call {c : Call} (h : call source r s = (c, r', s')) :
    nextBlock source r s = (c.outcome, r', s') := by
  unfold call at h
  dsimp only at h
  split at h <;> cases h <;> rfl

/-- Calls up to the end come to the first failure on their way. -/
theorem Reads.exists_drains {cs : List Call} {ds : List StoredCopy}
    (h : Reads source r s cs r' s')
    (houtcomes : cs.map (·.outcome) = ds.map (·.block.map some) ++ [.ok none]) :
    ∃ r₁ s₁, Drains source r s (upToFailure ds).1 (upToFailure ds).2 r₁ s₁ ∧
      ((upToFailure ds).2 = .ok () → r₁ = r') := by
  induction h generalizing ds with
  | last hcall hnone =>
    cases ds with
    | nil => exact ⟨_, _, .last (hnone ▸ nextBlock_of_call hcall), fun _ => rfl⟩
    | cons d ds => simp at houtcomes
  | more hcall hsome hrest ih =>
    cases ds with
    | nil => simp at houtcomes; exact absurd houtcomes.1 hsome
    | cons d ds =>
      rw [List.map_cons, List.map_cons, List.cons_append, List.cons.injEq] at houtcomes
      obtain ⟨hfirst, hothers⟩ := houtcomes
      have hnext := nextBlock_of_call hcall
      rw [hfirst] at hnext
      unfold upToFailure
      cases hd : d.block with
      | error e =>
        rw [hd] at hnext
        exact ⟨_, _, .failed hnext, nofun⟩
      | ok b =>
        rw [hd] at hnext
        obtain ⟨r₁, s₁, hdrains, hend⟩ := ih hothers
        exact ⟨r₁, s₁, .more hnext hdrains, hend⟩

end BlockReader

/-! ### Sources that end early -/

namespace LocalFiles

variable {chunks : List (List IndexRecord)}

/-- There is no data file, and the files hold the given chunks, read already or not. -/
def Lacks (chunks : List (List IndexRecord)) (f : LocalFiles) : Prop :=
  f.loadChunks = .ok chunks ∧ f.openData = .ok none

/-- Without a data file there is nothing to read. -/
theorem answers_lacks (hfit : ∀ rs ∈ chunks, EndsFit rs) : source.Answers (Lacks chunks) [] := by
  rintro f k ⟨hchunks, hopen⟩
  show (read f k).1 = _ ∧ Lacks chunks (read f k).2
  unfold read
  rw [hchunks]
  dsimp only
  cases hk : chunks[k]? with
  | none => exact ⟨rfl, rfl, hopen⟩
  | some rs =>
    have hopen' : { f with chunks := some chunks }.openData = .ok none := hopen
    dsimp only
    unfold readChunk
    dsimp only
    rw [endByte_eq _ _ (hfit rs (List.mem_of_getElem? hk)), hopen']
    exact ⟨rfl, rfl, hopen'⟩

/-- The stock runs through the records of the first chunks, each in its chunk, up to one of which
nothing is there. -/
theorem exists_stock_eq (content : Bytes) (chunks : List (List IndexRecord)) :
    ∃ placed : List (List IndexRecord × IndexRecord), (∀ p ∈ placed, p.2 ∈ p.1) ∧
      placed.map (·.2) <+: chunks.flatten ∧
      stock (chunks.map fun rs => some (chunkOf content rs)) =
        placed.map fun p => copyOf content p.1 p.2 := by
  induction chunks with
  | nil => exact ⟨[], nofun, List.prefix_rfl, rfl⟩
  | cons rs chunks ih =>
    obtain ⟨placed, hplaced, hinit, hstock⟩ := ih
    rw [List.map_cons, stock]
    split
    · exact ⟨[], nofun, List.nil_prefix, rfl⟩
    · refine ⟨rs.map (rs, ·) ++ placed, List.forall_mem_append.2 ⟨?_, hplaced⟩, ?_, ?_⟩
      · rw [List.forall_mem_map]
        exact fun r hr => hr
      · have hrs : (rs.map (rs, ·)).map (·.2) = rs := by simp [Function.comp_def]
        rw [List.flatten_cons, List.map_append, hrs]
        exact (List.prefix_append_right_inj rs).2 hinit
      · rw [hstock, List.map_append]
        simp [Chunk.copies, chunkOf, copyOf, Function.comp_def]

end LocalFiles

/-! ### What is left of the files -/

/-- A file of which only some first bytes are left, or none that has the name. -/
def FileEntry.leftOf (whole : Bytes) : Option Nat → FileEntry
  | none => .missing
  | some n => .file (whole.take n)

/-- A block to be written, with its id. The payload may have any length. -/
structure BlockWrite where
  id : Int
  payload : Bytes
  id_fits : IndexRecord.fitsBytes 8 id

namespace BlockWrite

variable {layout : BlockIdLayout} {w : BlockWrite} {ws us : List BlockWrite} {ids tasks : IdSet}
  {whole : Bytes} {r : IndexRecord} {rs : List IndexRecord} {c : StoredCopy} {cs : List StoredCopy}

/-- The member of an id set that stands for the block. -/
def key (w : BlockWrite) : Nat := IdSet.key w.id

/-- The length that the record states, which has a signed word of 32 bits for it. -/
def stated (w : BlockWrite) : Int := signed 32 w.payload.length

/-- The record of a block that is written at the given place. -/
def record (layout : BlockIdLayout) (offset : Nat) (w : BlockWrite) : IndexRecord where
  offset := offset
  length := w.stated
  rawLength := w.stated
  crc := Crc32.checksum w.payload
  blockId := w.id
  task := layout.taskOf w.id

/-- The records of blocks that are written from the given place on. -/
def records (layout : BlockIdLayout) : Nat → List BlockWrite → List IndexRecord
  | _, [] => []
  | offset, w :: ws => w.record layout offset :: records layout (offset + w.payload.length) ws

/-- The data file. -/
def dataFile (ws : List BlockWrite) : Bytes := ws.flatMap (·.payload)

/-- The index file. -/
def indexFile (layout : BlockIdLayout) (ws : List BlockWrite) : Bytes :=
  (records layout 0 ws).flatMap IndexRecord.encode

/-- What is left of the two files, before anything is read from them. The file system goes as many
places past the end of the data file, as it was written, as `spare` says. -/
def filesLeft (layout : BlockIdLayout) (indexPath : String) (readLimit spare : Nat)
    (ws : List BlockWrite) (dataCut indexCut : Option Nat) : LocalFiles where
  indexPath := indexPath
  readLimit := readLimit
  farthest := (dataFile ws).length + spare
  data := .leftOf (dataFile ws) dataCut
  index := .leftOf (indexFile layout ws) indexCut

/-- What a reader can get for a block: its beginning, as much as the record states. -/
def block (w : BlockWrite) : Block := ⟨w.payload.take w.stated.toNat, w.stated⟩

/-! ### Records -/

theorem stated_le (w : BlockWrite) : w.stated ≤ w.payload.length := by
  rw [stated, signed_eq, Int.bmod_def]
  split <;> omega

theorem fits_stated (w : BlockWrite) : IndexRecord.fitsBytes 4 w.stated := by
  have hle := Int.le_bmod (x := w.payload.length) (m := 2 ^ 32) (by decide)
  have hlt := Int.bmod_lt (x := w.payload.length) (m := 2 ^ 32) (by decide)
  rw [stated, signed_eq]
  constructor <;> omega

theorem stated_of_lt (h : w.payload.length < 2 ^ 31) : w.stated = w.payload.length := by
  rw [stated, signed_eq]
  exact Int.bmod_eq_of_le (by omega) (by omega)

/-- A block whose length fits the record can be read as it was written. -/
theorem block_of_lt (h : w.payload.length < 2 ^ 31) : w.block = ⟨w.payload, w.payload.length⟩ := by
  rw [block, stated_of_lt h, Int.toNat_natCast, List.take_length]

/-- A record is that of a block, and names the place where the block was written. -/
def Locates (layout : BlockIdLayout) (whole : Bytes) (r : IndexRecord) (w : BlockWrite) : Prop :=
  ∃ before after, r = w.record layout before.length ∧ whole = before ++ w.payload ++ after

theorem locates_records (layout : BlockIdLayout) (before : Bytes) (ws : List BlockWrite) :
    List.Forall₂ (Locates layout (before ++ dataFile ws)) (records layout before.length ws) ws := by
  induction ws generalizing before with
  | nil => exact .nil
  | cons w ws ih =>
    have hwhole : before ++ dataFile (w :: ws) = before ++ w.payload ++ dataFile ws := by
      simp [dataFile, List.flatMap_cons]
    have ih := ih (before ++ w.payload)
    rw [List.length_append] at ih
    rw [hwhole]
    exact .cons ⟨before, dataFile ws, rfl, rfl⟩ ih

theorem Locates.fits (h : Locates layout whole r w) (htotal : whole.length < 2 ^ 63) : r.Fits := by
  obtain ⟨before, after, rfl, rfl⟩ := h
  have hcrc := Crc32.checksum_lt w.payload
  have htask := WrittenBlock.taskOf_lt layout w.id
  have htask' := WrittenBlock.taskOf_nonneg layout w.id
  simp only [List.length_append] at htotal
  refine ⟨⟨?_, ?_⟩, w.fits_stated, w.fits_stated, ⟨?_, ?_⟩, w.id_fits, ⟨?_, ?_⟩⟩ <;>
    simp only [record] <;> omega

/-- The end of a block is not past what a word can hold. -/
theorem Locates.end_fits (h : Locates layout whole r w) (htotal : whole.length < 2 ^ 63) :
    LocalFiles.fitsWord (r.offset + r.length) = true := by
  obtain ⟨before, after, rfl, rfl⟩ := h
  have hle := w.stated_le
  have hfits := w.fits_stated.1
  simp only [List.length_append] at htotal
  show LocalFiles.fitsWord (before.length + w.stated) = true
  rw [LocalFiles.fitsWord, Bool.and_eq_true, decide_eq_true_eq, decide_eq_true_eq]
  omega

/-! ### Copies -/

/-- A block can be read at all: as many of its bytes as the record states have the checksum of
all. -/
structure Readable (w : BlockWrite) : Prop where
  stated_nonneg : 0 ≤ w.stated
  checksum : Crc32.checksum w.block.data = Crc32.checksum w.payload

/-- A copy is that of a block: it carries the id and the attempt in the id, and what is read of it
is the block. -/
structure Copies (layout : BlockIdLayout) (c : StoredCopy) (w : BlockWrite) : Prop where
  id : c.segment.blockId = w.id
  task : c.segment.task = layout.taskOf w.id
  block : ∀ b, c.block = .ok b → b = w.block ∧ w.Readable

/-- What can be read off a chunk of a file that was cut off stands in the whole file at the place
that the record names. -/
theorem block_copyOf_take {n : Nat} (hr : r ∈ rs) (hoffset : 0 ≤ r.offset) {b : Block}
    (h : (LocalFiles.copyOf (whole.take n) rs r).block = .ok b) :
    0 ≤ r.length ∧ b = ⟨(whole.drop r.offset.toNat).take r.length.toNat, r.rawLength⟩ ∧
      (Crc32.checksum b.data : Int) = r.crc := by
  have hfirst := LocalFiles.firstByte_le hr hoffset
  have hnonneg := LocalFiles.firstByte_nonneg rs
  have hlast := LocalFiles.le_lastByte hr
  unfold StoredCopy.block LocalFiles.copyOf LocalFiles.segmentOf at h
  dsimp only at h
  split at h
  case isFalse => cases h
  case isTrue hrange =>
    obtain ⟨hrel, hlength, hend⟩ := hrange
    rw [LocalFiles.slice, List.length_take, List.length_drop, List.length_take] at hend
    -- the bytes are all there, so the place where the file was cut is behind them
    have hbytes : ((LocalFiles.slice (whole.take n) (LocalFiles.firstByte rs)
        (LocalFiles.lastByte rs)).drop (r.offset - LocalFiles.firstByte rs).toNat).take
          r.length.toNat = (whole.drop r.offset.toNat).take r.length.toNat := by
      rw [LocalFiles.slice, List.drop_take, List.drop_drop, List.drop_take, List.take_take,
        List.take_take]
      by_cases hempty : r.length = 0
      · simp [hempty]
      · congr 1
        · omega
        · congr 1
          omega
    rw [hbytes] at h
    split at h
    · cases h
      exact ⟨hlength, rfl, ‹_›⟩
    · cases h

theorem Locates.copies {n : Nat} (h : Locates layout whole r w) (hr : r ∈ rs) :
    Copies layout (LocalFiles.copyOf (whole.take n) rs r) w := by
  obtain ⟨before, after, rfl, rfl⟩ := h
  refine ⟨rfl, rfl, fun b hb => ?_⟩
  obtain ⟨hlength, rfl, hcrc⟩ := block_copyOf_take hr (Int.natCast_nonneg _) hb
  have hle := w.stated_le
  have hblock : ((before ++ w.payload ++ after).drop before.length).take w.stated.toNat =
      w.payload.take w.stated.toNat := by
    rw [List.append_assoc, List.drop_left, List.take_append_of_le_length (by omega)]
  have hread : (⟨((before ++ w.payload ++ after).drop before.length).take w.stated.toNat,
      w.stated⟩ : Block) = w.block := by
    rw [hblock, block]
  refine ⟨hread, hlength, ?_⟩
  rw [← hread]
  exact Int.ofNat_inj.1 hcrc

/-! ### What the source answers -/

/-- The chunks of the records that are left. -/
def chunksLeft (layout : BlockIdLayout) (readLimit : Nat) (ws : List BlockWrite)
    (indexCut : Option Nat) : List (List IndexRecord) :=
  IndexRecord.groupIntoChunks readLimit
    ((records layout 0 ws).take (indexCut.getD 0 / IndexRecord.width))

/-- What the source answers: nothing without a data file, and else what is left of each chunk. -/
def answersLeft (layout : BlockIdLayout) (readLimit : Nat) (ws : List BlockWrite)
    (dataCut indexCut : Option Nat) : List (Option Chunk) :=
  match dataCut with
  | none => []
  | some n => (chunksLeft layout readLimit ws indexCut).map fun rs =>
    some (LocalFiles.chunkOf ((dataFile ws).take n) rs)

section Left

variable {readLimit : Nat} {dataCut indexCut : Option Nat}

theorem exists_locates (hr : r ∈ records layout 0 ws) : ∃ w, Locates layout (dataFile ws) r w := by
  have h : List.Forall₂ (fun r w => (∃ w, Locates layout (dataFile ws) r w) ∧
      Locates layout (dataFile ws) r w) (records layout 0 ws) ws :=
    (locates_records layout [] ws).imp fun r w h => ⟨⟨w, h⟩, h⟩
  exact ((List.forall₂_and_left ..).1 h).1 r hr

theorem loadChunks_left (indexPath : String) (spare : Nat)
    (htotal : (dataFile ws).length < 2 ^ 63) :
    (filesLeft layout indexPath readLimit spare ws dataCut indexCut).loadChunks =
      .ok (chunksLeft layout readLimit ws indexCut) := by
  cases indexCut with
  | none => rfl
  | some n =>
    have hfits : ∀ r ∈ records layout 0 ws, r.Fits := by
      intro r hr
      obtain ⟨w, hw⟩ := exists_locates hr
      exact hw.fits htotal
    show Except.ok (IndexRecord.groupIntoChunks readLimit (IndexRecord.decodeAll _)) = _
    rw [indexFile, IndexRecord.decodeAll_take hfits]
    rfl

theorem flatten_chunksLeft : (chunksLeft layout readLimit ws indexCut).flatten =
    (records layout 0 ws).take (indexCut.getD 0 / IndexRecord.width) :=
  IndexRecord.flatten_groupIntoChunks ..

theorem ends_fit_left (htotal : (dataFile ws).length < 2 ^ 63) :
    ∀ rs ∈ chunksLeft layout readLimit ws indexCut, LocalFiles.EndsFit rs := by
  intro rs hrs r hr
  have hmem := List.mem_flatten.2 ⟨rs, hrs, hr⟩
  rw [flatten_chunksLeft] at hmem
  obtain ⟨w, hw⟩ := exists_locates (List.mem_of_mem_take hmem)
  exact hw.end_fits htotal

theorem firstByte_le_left : ∀ rs ∈ chunksLeft layout readLimit ws indexCut,
    LocalFiles.firstByte rs ≤ (dataFile ws).length := by
  intro rs hrs
  refine LocalFiles.firstByte_le_of_offsets fun r hr => ?_
  have hmem := List.mem_flatten.2 ⟨rs, hrs, hr⟩
  rw [flatten_chunksLeft] at hmem
  obtain ⟨w, before, after, rfl, hwhole⟩ := exists_locates (List.mem_of_mem_take hmem)
  rw [hwhole, List.length_append, List.length_append]
  show (before.length : Int) ≤ _
  omega

theorem answers_left (layout : BlockIdLayout) (indexPath : String) (readLimit spare : Nat)
    (htotal : (dataFile ws).length < 2 ^ 63) (dataCut indexCut : Option Nat) :
    ∃ good, LocalFiles.source.Answers good (answersLeft layout readLimit ws dataCut indexCut) ∧
      good (filesLeft layout indexPath readLimit spare ws dataCut indexCut) := by
  have hload : (filesLeft layout indexPath readLimit spare ws dataCut indexCut).loadChunks = _ :=
    loadChunks_left indexPath spare htotal
  have hfit : ∀ rs ∈ chunksLeft layout readLimit ws indexCut, LocalFiles.EndsFit rs :=
    ends_fit_left htotal
  cases dataCut with
  | none => exact ⟨_, LocalFiles.answers_lacks hfit, hload, rfl⟩
  | some n =>
    refine ⟨_, LocalFiles.answers_source hfit, hload, ⟨_, rfl⟩, fun rs hrs => ?_⟩
    exact (firstByte_le_left rs hrs).trans (Int.ofNat_le.2 (Nat.le_add_right ..))

/-- The copies that the source has are, one by one, those of the first blocks. -/
theorem copies_left : ∃ p, List.Forall₂ (Copies layout)
    (stock (answersLeft layout readLimit ws dataCut indexCut)) (ws.take p) := by
  cases dataCut with
  | none => exact ⟨0, .nil⟩
  | some n =>
    obtain ⟨placed, hplaced, hinit, hstock⟩ := LocalFiles.exists_stock_eq ((dataFile ws).take n)
      (chunksLeft layout readLimit ws indexCut)
    obtain ⟨p, hrecords⟩ : ∃ p, placed.map (·.2) = (records layout 0 ws).take p := by
      rw [flatten_chunksLeft, List.prefix_iff_eq_take, List.take_take] at hinit
      exact ⟨_, hinit⟩
    have hlocates : List.Forall₂ (Locates layout (dataFile ws)) (placed.map (·.2)) (ws.take p) :=
      hrecords ▸ List.forall₂_take p (locates_records layout [] ws)
    rw [List.forall₂_map_left_iff] at hlocates
    refine ⟨p, ?_⟩
    rw [answersLeft, hstock, List.forall₂_map_left_iff]
    refine ((List.forall₂_and_left ..).2 ⟨hplaced, hlocates⟩).imp fun p w h => ?_
    exact h.2.copies h.1

end Left

/-! ### What is returned -/

theorem forall₂_firstPer {α β : Type} {R : α → β → Prop} {f : α → Nat} {g : β → Nat}
    {as : List α} {bs : List β} (h : List.Forall₂ R as bs) (hkey : ∀ a b, R a b → f a = g b) :
    List.Forall₂ R (firstPer f as) (firstPer g bs) := by
  induction h with
  | nil => exact .nil
  | @cons a b as bs hab h ih =>
    refine .cons hab (List.rel_filter (fun a' b' hab' => ?_) ih)
    dsimp only
    rw [hkey a b hab, hkey a' b' hab']

/-- The blocks to be delivered: the first one with each id that is expected. -/
def due (layout : BlockIdLayout) (ids tasks : IdSet) (ws : List BlockWrite) : List BlockWrite :=
  (firstPer key ws).filter fun w => (BlockReader.expectedOf layout ids tasks).contains w.key

theorem idOf_key (w : BlockWrite) : IdSet.idOf w.key = w.id :=
  signed_unsigned (by decide) w.id_fits.1 w.id_fits.2

theorem Copies.key (h : Copies layout c w) : c.key = w.key := congrArg IdSet.key h.id

theorem Copies.taskKey (h : Copies layout c w) : c.taskKey = IdSet.key (layout.taskOf w.id) :=
  congrArg IdSet.key h.task

/-- The copies to be delivered are those of the blocks to be delivered: the attempt in the id of
an expected block counts, and its copies carry that one. -/
theorem forall₂_due (h : List.Forall₂ (Copies layout) cs us) : List.Forall₂ (Copies layout)
    (BlockReader.due layout ids tasks cs) (due layout ids tasks us) := by
  refine List.rel_filter (fun c w hcw => ?_) (forall₂_firstPer h fun _ _ hcw => hcw.key)
  dsimp only
  rw [hcw.key, hcw.taskKey, Bool.and_eq_true, IdSet.contains_iff, IdSet.contains_iff,
    BlockReader.mem_expectedOf, idOf_key]
  exact and_iff_left_of_imp And.right

/-- Of the blocks to be delivered the first are returned, and all if no copy fails. -/
theorem exists_returned (h : List.Forall₂ (Copies layout) cs us) :
    ∃ q, (BlockReader.upToFailure cs).1 = (us.take q).map block ∧
      (∀ w ∈ us.take q, w.Readable) ∧
      ((BlockReader.upToFailure cs).2 = .ok () → us.take q = us) := by
  induction h with
  | nil => exact ⟨0, rfl, by simp, fun _ => rfl⟩
  | @cons c w cs us hcw h ih =>
    unfold BlockReader.upToFailure
    cases hc : c.block with
    | error e => exact ⟨0, rfl, by simp, nofun⟩
    | ok b =>
      obtain ⟨rfl, hread⟩ := hcw.block b hc
      obtain ⟨q, hblocks, hothers, hall⟩ := ih
      refine ⟨q + 1, congrArg (w.block :: ·) hblocks, List.forall_mem_cons.2 ⟨hread, hothers⟩, ?_⟩
      exact fun hend => congrArg (w :: ·) (hall hend)

/-- Each block to be delivered is expected, and the first that was written with its id. -/
theorem mem_due_take {p : Nat} : w ∈ due layout ids tasks (ws.take p) →
    w.key ∈ BlockReader.expectedOf layout ids tasks ∧ ws.find? (·.key = w.key) = some w := by
  intro hw
  obtain ⟨hfirst, hexpected⟩ := List.mem_filter.1 hw
  refine ⟨IdSet.contains_iff.1 hexpected, ?_⟩
  rw [mem_firstPer] at hfirst
  rw [← List.take_append_drop p ws, List.find?_append, hfirst]
  rfl

theorem sublist_due (layout : BlockIdLayout) (ids tasks : IdSet) (ws : List BlockWrite) :
    (due layout ids tasks ws).Sublist ws :=
  List.filter_sublist.trans (firstPer_sublist key ws)

theorem nodup_due (layout : BlockIdLayout) (ids tasks : IdSet) (ws : List BlockWrite) :
    ((due layout ids tasks ws).map key).Nodup :=
  (List.filter_sublist.map _).nodup (nodup_firstPer key ws)

theorem map_key_eq (h : List.Forall₂ (Copies layout) cs us) :
    cs.map StoredCopy.key = us.map key := by
  rw [← List.forall₂_eq_eq_eq, List.forall₂_map_left_iff, List.forall₂_map_right_iff]
  exact h.imp fun _ _ hcw => hcw.key

theorem mem_map_key_due {x : Nat} (hx : x ∈ BlockReader.expectedOf layout ids tasks)
    (hmem : x ∈ us.map key) : x ∈ (due layout ids tasks us).map key := by
  obtain ⟨w, hw, rfl⟩ := List.mem_map.1 (mem_map_firstPer.2 hmem)
  exact List.mem_map_of_mem (List.mem_filter.2 ⟨hw, IdSet.contains_iff.2 hx⟩)

/-- How a run over what is left of the files goes, for a reader that expects any block. -/
theorem exists_drains_left {ids : IdBitmap} {r : BlockReader}
    (hstart : BlockReader.start? layout ids tasks = some r)
    (hne : BlockReader.expectedOf layout ids.set tasks ≠ ∅) (indexPath : String)
    (readLimit spare : Nat) (htotal : (dataFile ws).length < 2 ^ 63)
    (dataCut indexCut : Option Nat) :
    let copies := stock (answersLeft layout readLimit ws dataCut indexCut)
    let way := BlockReader.upToFailure (BlockReader.due layout ids.set tasks copies)
    ∃ r' files', BlockReader.Drains LocalFiles.source r
        (filesLeft layout indexPath readLimit spare ws dataCut indexCut) way.1 way.2 r' files' ∧
      (way.2 = .ok () → (r'.check = .ok () ↔
        ∀ x ∈ BlockReader.expectedOf layout ids.set tasks, ∃ c ∈ copies, c.key = x)) := by
  intro copies way
  obtain ⟨good, hanswers, hgood⟩ :=
    answers_left layout indexPath readLimit spare htotal dataCut indexCut
  obtain ⟨cs, r₁, files₁, hreads, -, houtcomes, -, hkept, hprocessed⟩ :=
    BlockReader.reads_of_start hanswers hgood hstart hne
  obtain ⟨r', files', hdrains, hend⟩ := hreads.exists_drains houtcomes
  refine ⟨r', files', hdrains, fun hway => ?_⟩
  rw [hend hway, BlockReader.check_eq_ok_iff, hkept, hprocessed]
  simp only [BlockReader.mem_blocksOf]
  rfl

/-- **What a reader makes of files that were cut off.** Take blocks of any lengths, written to the
files of a partition with distinct or repeated ids, and let each of the two files lose any number of
its last bytes, or be gone. A reader for any ids, any attempts that count and any size of chunks
comes to an end or fails. Before that it returns blocks that are expected, each the first that was
written with its id, no id twice, and in the order in which they were written. A block of less than
2 ^ 31 bytes is returned as it was written, and a longer one as far as its record states its length,
if so many of its bytes have its checksum. If the reader came to an end and the check succeeds, no
expected id was left out. -/
theorem cut_is_noticed {ids : IdBitmap} (hids : ids.hollow = []) (layout : BlockIdLayout)
    (tasks : IdSet) (indexPath : String) (readLimit spare : Nat) (ws : List BlockWrite)
    (htotal : (dataFile ws).length < 2 ^ 63) (dataCut indexCut : Option Nat) :
    let files := filesLeft layout indexPath readLimit spare ws dataCut indexCut
    let expected := BlockReader.expectedOf layout ids.set tasks
    ∃ r, BlockReader.start? layout ids tasks = some r ∧
      (∃ bs stop r' files', BlockReader.Drains LocalFiles.source r files bs stop r' files') ∧
      ∀ bs stop r' files', BlockReader.Drains LocalFiles.source r files bs stop r' files' →
        ∃ returned : List BlockWrite, bs = returned.map block ∧
          returned.Sublist ws ∧ (returned.map key).Nodup ∧
          (∀ w ∈ returned, w.key ∈ expected ∧ ws.find? (·.key = w.key) = some w ∧ w.Readable ∧
            (w.payload.length < 2 ^ 31 → w.block = ⟨w.payload, w.payload.length⟩)) ∧
          (stop = .ok () → r'.check = .ok () → ∀ x ∈ expected, x ∈ returned.map key) := by
  intro files expected
  obtain ⟨r, hstart⟩ := BlockReader.exists_start layout hids tasks
  have hexpected : r.expected = expected := BlockReader.expected_start hstart
  by_cases hne : expected = ∅
  case pos =>
    have hdrains : BlockReader.Drains LocalFiles.source r files [] (.ok ()) r files :=
      .last (BlockReader.nextBlock_of_call
        (BlockReader.call_of_isEmpty (IdSet.isEmpty_iff.2 (hexpected.trans hne)) _ _))
    refine ⟨r, hstart, ⟨_, _, _, _, hdrains⟩, fun bs stop r' files' h => ?_⟩
    obtain ⟨rfl, rfl, rfl, rfl⟩ := hdrains.unique h
    refine ⟨[], rfl, List.nil_sublist _, .nil, by simp, fun _ _ x hx => ?_⟩
    exact absurd (hne ▸ hx) (IdSet.not_mem_empty x)
  case neg =>
    obtain ⟨p, hcopies⟩ := copies_left
    obtain ⟨r', files', hdrains, hcheck⟩ :=
      exists_drains_left hstart hne indexPath readLimit spare htotal dataCut indexCut
    obtain ⟨q, hblocks, hread, hall⟩ := exists_returned (forall₂_due hcopies)
    refine ⟨r, hstart, ⟨_, _, _, _, hdrains⟩, fun bs stop r₁ files₁ h => ?_⟩
    obtain ⟨rfl, rfl, rfl, rfl⟩ := hdrains.unique h
    have hsublist := List.take_sublist q (due layout ids.set tasks (ws.take p))
    refine ⟨_, hblocks, hsublist.trans ((sublist_due ..).trans (List.take_sublist ..)),
      (hsublist.map _).nodup (nodup_due ..), fun w hw => ?_, fun hstop hok x hx => ?_⟩
    · obtain ⟨hkey, hfirst⟩ := mem_due_take (hsublist.subset hw)
      exact ⟨hkey, hfirst, hread w hw, block_of_lt⟩
    · -- every expected id was seen, and nothing that was seen and expected has failed
      obtain ⟨c, hc, rfl⟩ := (hcheck hstop).1 hok x hx
      rw [hall hstop]
      refine mem_map_key_due hx ?_
      rw [← map_key_eq hcopies]
      exact List.mem_map_of_mem hc

/-- Three blocks, one of them empty; the data file was cut off inside the third, and the index file
inside its record. -/
theorem cut_is_noticed_three_blocks :
    let ids : IdBitmap := .ofSet (.ofIds [1, 2097153, 4194305])
    let ws : List BlockWrite := [⟨1, [97], by decide⟩, ⟨2097153, [], by decide⟩,
      ⟨4194305, [98, 99], by decide⟩]
    let files := filesLeft .standard "index" 2 9 ws (some 2) (some 119)
    ids.hollow = [] ∧ (dataFile ws).length < 2 ^ 63 ∧
      ∃ r, BlockReader.start? .standard ids (.ofIds [1]) = some r ∧
        (∃ bs stop r' files', BlockReader.Drains LocalFiles.source r files bs stop r' files') ∧
        ∀ bs stop r' files', BlockReader.Drains LocalFiles.source r files bs stop r' files' →
          bs.Sublist [⟨[97], 1⟩, ⟨[], 0⟩, ⟨[98, 99], 2⟩] ∧
          (stop = .ok () → r'.check = .ok () → bs = [⟨[97], 1⟩, ⟨[], 0⟩, ⟨[98, 99], 2⟩]) := by
  intro ids ws files
  refine ⟨rfl, by decide, ?_⟩
  obtain ⟨r, hstart, hexists, hall⟩ := cut_is_noticed (show ids.hollow = [] from rfl) .standard
    (.ofIds [1]) "index" 2 9 ws (by decide) (some 2) (some 119)
  refine ⟨r, hstart, hexists, fun bs stop r' files' h => ?_⟩
  obtain ⟨returned, rfl, hsublist, hnodup, -, hcomplete⟩ := hall bs stop r' files' h
  refine ⟨hsublist.map block, fun hstop hcheck => ?_⟩
  have hid : ∀ w ∈ ws, w.id ∈ [1, 2097153, 4194305] := by decide
  have htask : ∀ w ∈ ws, BlockIdLayout.standard.taskOf w.id = 1 := by decide
  have hexpected : ∀ x ∈ ws.map key, x ∈ BlockReader.expectedOf .standard ids.set (.ofIds [1]) := by
    intro x hx
    obtain ⟨w, hw, rfl⟩ := List.mem_map.1 hx
    rw [BlockReader.mem_expectedOf, idOf_key, htask w hw]
    exact ⟨IdSet.mem_ofIds.2 ⟨w.id, hid w hw, rfl⟩, IdSet.mem_ofIds.2 ⟨1, by simp, rfl⟩⟩
  -- all three ids are expected, so none of the three blocks was left out
  have hperm : (returned.map key).Perm (ws.map key) := by
    refine (List.perm_ext_iff_of_nodup hnodup (by decide)).2 fun x => ?_
    exact ⟨fun hx => (hsublist.map key).subset hx,
      fun hx => hcomplete hstop hcheck x (hexpected x hx)⟩
  have hlength := hperm.length_eq
  rw [List.length_map, List.length_map] at hlength
  rw [hsublist.eq_of_length hlength]
  rfl

/-- Once the register is zero, zeros leave it as it is. -/
theorem update_zeros {zeros : Bytes} (h : ∀ b ∈ zeros, b = 0) : Crc32.update 0 zeros = 0 := by
  refine List.foldlRecOn zeros Crc32.feed (motive := (· = 0)) rfl fun register hregister b hb => ?_
  rw [hregister, h b hb]
  decide +kernel

/-- Four bytes that turn the register to zero have the checksum of the four bytes and any zeros. -/
theorem checksum_append_zeros {zeros : Bytes} (h : ∀ b ∈ zeros, b = 0) :
    Crc32.checksum ([255, 255, 255, 255] ++ zeros) = 4294967295 := by
  have hfour : Crc32.update 0xFFFFFFFF [255, 255, 255, 255] = 0 := by decide +kernel
  rw [Crc32.checksum, Crc32.updateInSteps_eq, Crc32.update_append, hfour, update_zeros h]
  rfl

/-- If the record of a block states no more than these four bytes, and no more of them are left, a
reader takes them for the block. -/
theorem drains_four_bytes {zeros : Bytes} (hzeros : ∀ b ∈ zeros, b = 0)
    (hlength : zeros.length = 2 ^ 32) :
    let ws : List BlockWrite :=
      [⟨1, [255, 255, 255, 255] ++ zeros, by decide⟩, ⟨2, [97], by decide⟩]
    ∃ r r' files', BlockReader.start? .standard (.ofSet (.ofIds [1])) (.ofIds [1]) = some r ∧
      BlockReader.Drains LocalFiles.source r
        (filesLeft .standard "index" 40 (2 ^ 43) ws (some 4) (some 80))
        [⟨[255, 255, 255, 255], 4⟩] (.ok ()) r' files' ∧
      r'.check = .ok () ∧ (∀ x, x ∈ r.expected ↔ x = 1) ∧
      ∀ w ∈ ws, w.payload ≠ [255, 255, 255, 255] := by
  intro ws
  have hlong : ([255, 255, 255, 255] ++ zeros).length = 4294967300 := by
    rw [List.length_append, hlength]
    rfl
  have htotal : (dataFile ws).length < 2 ^ 63 := by
    simp only [ws, dataFile, List.flatMap_cons, List.flatMap_nil, List.length_append, hlength]
    decide
  have hdata : (dataFile ws).take 4 = [255, 255, 255, 255] := rfl
  have hrecords : records .standard 0 ws =
      [⟨0, 4, 4, 4294967295, 1, 1⟩, ⟨4294967300, 1, 1, 3904355907, 2, 2⟩] := by
    have hcrc : Crc32.checksum [97] = 3904355907 := by
      rw [Crc32.checksum, Crc32.updateInSteps_eq]
      decide +kernel
    simp only [ws, records, record, stated, hlong, hcrc, checksum_append_zeros hzeros]
    rfl
  -- both records are in one chunk, of which the first four bytes are left
  have hstock : stock (answersLeft .standard 40 ws (some 4) (some 80)) =
      [⟨[255, 255, 255, 255], ⟨1, 0, 4, 4, 4294967295, 1⟩⟩,
        ⟨[255, 255, 255, 255], ⟨2, 4294967300, 1, 1, 3904355907, 2⟩⟩] := by
    rw [answersLeft, chunksLeft, hrecords, hdata]
    rfl
  have hkey1 : IdSet.key 1 = 1 := by decide
  have hkey2 : IdSet.key 2 = 2 := by decide
  have hexpected (x : Nat) :
      x ∈ BlockReader.expectedOf .standard (.ofIds [1]) (.ofIds [1]) ↔ x = 1 := by
    rw [BlockReader.mem_expectedOf]
    constructor
    · rintro ⟨h, -⟩
      simpa [hkey1, eq_comm] using h
    · rintro rfl
      exact ⟨by simp [hkey1], by simp; decide⟩
  have hway : BlockReader.upToFailure
      (BlockReader.due .standard (IdBitmap.ofSet (.ofIds [1])).set (.ofIds [1])
        (stock (answersLeft .standard 40 ws (some 4) (some 80)))) =
          ([⟨[255, 255, 255, 255], 4⟩], .ok ()) := by
    have hfour : Crc32.checksum [255, 255, 255, 255] = 4294967295 :=
      checksum_append_zeros fun b hb => absurd hb List.not_mem_nil
    simp [hstock, BlockReader.due, firstPer, StoredCopy.key, StoredCopy.taskKey, hkey1, hkey2,
      hexpected, BlockReader.upToFailure, StoredCopy.block, hfour]
  obtain ⟨r, hstart⟩ := BlockReader.exists_start .standard
    (show (IdBitmap.ofSet (.ofIds [1])).hollow = [] from rfl) (.ofIds [1])
  obtain ⟨r', files', hdrains, hcheck⟩ := exists_drains_left hstart
    (IdSet.ne_empty_of_mem ((hexpected 1).2 rfl)) "index" 40 (2 ^ 43) htotal (some 4) (some 80)
  rw [hway] at hdrains hcheck
  refine ⟨r, r', files', hstart, hdrains, (hcheck rfl).2 fun x hx => ?_, fun x => ?_, ?_⟩
  · rw [(hexpected x).1 hx, hstock]
    exact ⟨_, List.mem_cons_self .., hkey1⟩
  · rw [BlockReader.expected_start hstart]
    exact hexpected x
  · refine List.forall_mem_cons.2 ⟨fun h => ?_, by simp⟩
    have := congrArg List.length h
    rw [hlong] at this
    cases this

/-- A length that does not fit the record: of four bytes and 2 ^ 32 zeros the record states four
bytes, which have the same checksum. Where the data file was cut off behind them, the reader returns
these four as the block, finds nothing left, and the check succeeds. -/
theorem cut_passes_for_long_block :
    let long : BlockWrite := ⟨1, [255, 255, 255, 255] ++ List.replicate (2 ^ 32) 0, by decide⟩
    let ws : List BlockWrite := [long, ⟨2, [97], by decide⟩]
    let files := filesLeft .standard "index" 40 (2 ^ 43) ws (some 4) (some 80)
    ∃ r r' files', BlockReader.start? .standard (.ofSet (.ofIds [1])) (.ofIds [1]) = some r ∧
      BlockReader.Drains LocalFiles.source r files [⟨[255, 255, 255, 255], 4⟩] (.ok ()) r' files' ∧
      r'.check = .ok () ∧ (∀ x, x ∈ r.expected ↔ x = 1) ∧
      ∀ w ∈ ws, w.payload ≠ [255, 255, 255, 255] :=
  drains_four_bytes (fun _ hb => List.eq_of_mem_replicate hb) List.length_replicate

end BlockWrite

end ShuffleService
