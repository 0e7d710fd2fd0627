import ShuffleService.Proofs.AnyIndex

/-!
# Reading in words

The numbers of a reader have no bounds in this model. A program that reads has words of 64 bits for
them, unsigned ones for sizes and signed ones for places in a file. `Words` goes the way of a call
once more in words, one segment at a time: a sum or a difference that does not fit its word has no
result, nor has a slice whose bounds are out of order or outside of its bytes, nor a call that is
not over after a given number of steps.

Whatever the files hold, all the results are there and are those of the model (`reads_in_words`).
That is because the stretch of a chunk begins at its first block or at zero, so that no offset
within it is larger than the one in the file (`fitsWord_offset`), and because a chunk is not read
unless the ends of its blocks fit (`fitsWord_end`).
-/

namespace ShuffleService

namespace Words

open BlockReader (Outcome bytesAt copy advance nextBlock)
open IndexRecord (decodeAll groupIntoChunks groupOnto ofBytes width)
open LocalFiles (EndsFit Intact chunkOf endByte firstByte fitsWord lastByte noSuchPlace segmentOf
  slice source)

/-! ### Steps on words -/

/-- The result of a step on signed words. -/
def word? (x : Int) : Option Int := if fitsWord x then some x else none

/-- The result of a step on unsigned words. -/
def size? (n : Nat) : Option Nat := if n < 2 ^ 64 then some n else none

/-- Room for some bytes, whose number has to fit a signed word. -/
def room? (n : Nat) : Option Nat := if n < 2 ^ 63 then some n else none

/-- The bytes of a buffer between two bounds. -/
def between? (buffer : Array UInt8) (start stop : Nat) : Option Bytes :=
  if start ≤ stop ∧ stop ≤ buffer.size then some (bytesAt buffer start (stop - start)) else none

/-! ### The way of a call -/

/-- The record in some bytes, read field by field. -/
def record? (bs : Bytes) : Option IndexRecord := do
  let (offset, bs) ← takeBigWord? 8 bs
  let (length, bs) ← takeBigWord? 4 bs
  let (rawLength, bs) ← takeBigWord? 4 bs
  let (crc, bs) ← takeBigWord? 8 bs
  let (blockId, bs) ← takeBigWord? 8 bs
  let (task, _) ← takeBigWord? 8 bs
  return {
    offset := signed 64 offset
    length := signed 32 length
    rawLength := signed 32 rawLength
    crc := signed 64 crc
    blockId := signed 64 blockId
    task := signed 64 task }

/-- The given number of records, each cut off and read on its own. -/
def records? : (count : Nat) → Bytes → Option (List IndexRecord)
  | 0, _ => some []
  | n + 1, bs => do
    let (head, rest) ← takeBytes? width bs
    let r ← record? head
    let rs ← records? n rest
    return r :: rs

/-- The chunks after those that are done, given in reverse, and one that has been begun, given in
reverse with its size. -/
def group? (limit : Nat) : (done : List (List IndexRecord)) → (begun : List IndexRecord) → Nat →
    List IndexRecord → Option (List (List IndexRecord))
  | done, begun, _, [] => some (if begun.isEmpty then done else begun.reverse :: done).reverse
  | done, begun, size, r :: rs => do
    let full ← if begun.isEmpty then some false
      else (size? (size + r.room)).map fun total => decide (limit < total)
    if full then
      let size ← size? (0 + r.room)
      group? limit (begun.reverse :: done) [r] size rs
    else
      let size ← size? (size + r.room)
      group? limit done (r :: begun) size rs

/-- The chunks of the index: the ones that are held, or those of the file. -/
def chunks? (f : LocalFiles) : Option (Except ShuffleError (List (List IndexRecord))) :=
  match f.chunks with
  | some chunks => some (.ok chunks)
  | none =>
    match f.index with
    | .missing => some (.ok [])
    | .file content => do
      let count := content.length / width
      let _ ← room? (count * width)
      let rs ← records? count content
      let chunks ← group? f.readLimit [] [] 0 rs
      return .ok chunks
    | .directory => some (.error (.storage "the index is a directory"))

/-- A record's block within the bytes of its chunk. -/
def segment? (start : Int) (r : IndexRecord) : Option Segment := do
  let offset ← word? (r.offset - start)
  return { segmentOf start r with offset := offset }

/-- Read the data of a chunk. The ends of the blocks are checked already in the model. -/
def readChunk? (f : LocalFiles) (rs : List IndexRecord) : Option (ChunkAnswer × LocalFiles) :=
  let start := firstByte rs
  match endByte f.indexPath start rs with
  | .error e => some (.error e, f)
  | .ok stop => do
    let stretch ← word? (stop - start)
    match f.openData with
    | .error e => return (.error e, f)
    | .ok none => return (.ok none, f)
    | .ok (some (content, opened)) =>
      let f := { f with opened := some opened }
      let first := unsigned 64 start
      if f.farthest < first then return (.error noSuchPlace, f)
      else
        let length ← room? (min (unsigned 64 stretch) (content.length - first))
        let segments ← rs.mapM (segment? start)
        return (.ok (some ⟨(content.drop first).take length, segments⟩), f)

/-- Answer with a chunk. -/
def read? (f : LocalFiles) (k : Nat) : Option (ChunkAnswer × LocalFiles) := do
  match ← chunks? f with
  | .error e => return (.error e, f)
  | .ok chunks =>
    let f := { f with chunks := some chunks }
    match chunks[k]? with
    | none => return (.ok none, f)
    | some rs => readChunk? f rs

/-- The block of a segment, if its bytes are there and are the ones that were written. -/
def copy? (buffer : Array UInt8) (s : Segment) : Option (Except ShuffleError Block) := do
  let stop ← word? (s.offset + s.length)
  if s.offset < 0 ∨ s.length < 0 ∨ stop > signed 64 buffer.size then
    return .error (.dataCorrupted (s!"Can't read data for blockId[{s.blockId}], " ++
      s!"range [{s.offset}, {stop}) is out of the read buffer with length {buffer.size}"))
  else
    let data ← between? buffer (unsigned 64 s.offset) (unsigned 64 stop)
    let actual : Int := Crc32.checksum data
    return if actual = s.crc then .ok ⟨data, s.rawLength⟩
      else .error (.checksumMismatch s.blockId s.crc actual)

/-- One step of a call: ask for a chunk if the queue is empty, and otherwise look at the next
segment. There is an answer if the call is over. -/
def step? (r : BlockReader) (f : LocalFiles) :
    Option (Option Outcome × BlockReader × LocalFiles) :=
  match r.queue with
  | [] => do
    let (answer, f) ← read? f r.cursor
    match answer with
    | .error e => return (some (.error e), r, f)
    | .ok none => return (some (.ok none), { r with cursor := r.cursor + 1 }, f)
    | .ok (some chunk) =>
      if chunk.data.isEmpty then return (some (.ok none), { r with cursor := r.cursor + 1 }, f)
      else
        let filled := { r with
          cursor := r.cursor + 1
          buffer := chunk.data.toArray
          queue := chunk.segments }
        return (if chunk.segments.isEmpty then some (.ok none) else none, filled, f)
  | s :: rest =>
    let seen := { r with processed := r.processed.insert (IdSet.key s.blockId), queue := rest }
    if r.accepts s then do
      let block ← copy? r.buffer s
      return (some (block.map some), seen, f)
    else some (none, seen, f)

/-- The steps of a call, of which there may be as many as are given. -/
def steps? : (bound : Nat) → BlockReader → LocalFiles →
    Option (Outcome × BlockReader × LocalFiles)
  | 0, _, _ => none
  | n + 1, r, f => do
    match ← step? r f with
    | (some outcome, r', f') => return (outcome, r', f')
    | (none, r', f') => steps? n r' f'

/-- The next block, or `none` when the source has nothing left. -/
def nextBlock? (bound : Nat) (r : BlockReader) (f : LocalFiles) :
    Option (Outcome × BlockReader × LocalFiles) :=
  if r.expected.isEmpty then some (.ok none, r, f) else steps? bound r f

/-- What is asked of a reader. -/
inductive Request
  | next
  | close
  deriving DecidableEq

/-- Ask a reader for blocks and close its files in between, however often. -/
def run? (bound : Nat) : List Request → BlockReader → LocalFiles →
    Option (List Outcome × BlockReader × LocalFiles)
  | [], r, f => some ([], r, f)
  | .close :: rest, r, f => run? bound rest r f.close
  | .next :: rest, r, f => do
    let (outcome, r, f) ← nextBlock? bound r f
    let (outcomes, r, f) ← run? bound rest r f
    return (outcome :: outcomes, r, f)

/-- The same in numbers without bounds. -/
def run : List Request → BlockReader → LocalFiles → List Outcome × BlockReader × LocalFiles
  | [], r, f => ([], r, f)
  | .close :: rest, r, f => run rest r f.close
  | .next :: rest, r, f =>
    let (outcome, r, f) := nextBlock source r f
    let (outcomes, r, f) := run rest r f
    (outcome :: outcomes, r, f)

/-! ### Fields and records -/

variable {bs : Bytes} {rs : List IndexRecord} {x : IndexRecord} {n : Nat}

theorem word?_eq {x : Int} (h : fitsWord x = true) : word? x = some x := if_pos h

theorem size?_eq (h : n < 2 ^ 64) : size? n = some n := if_pos h

theorem room?_eq (h : n < 2 ^ 63) : room? n = some n := if_pos h

theorem fitsWord_iff {x : Int} : fitsWord x = true ↔ -2 ^ 63 ≤ x ∧ x < 2 ^ 63 := by
  simp [fitsWord]

/-- A number of a signed word that is not negative is the same in an unsigned one. -/
theorem unsigned_eq_toNat {x : Int} (h0 : 0 ≤ x) (h : x < 2 ^ 63) : unsigned 64 x = x.toNat := by
  rw [unsigned_eq, Int.emod_eq_of_lt h0 (by omega)]

theorem signed_eq_natCast (h : n < 2 ^ 63) : signed 64 n = n := by
  rw [signed_eq, Int.bmod_eq_of_le] <;> omega

theorem takeBytes?_eq {k : Nat} (h : k ≤ bs.length) :
    takeBytes? k bs = some (bs.take k, bs.drop k) :=
  if_pos (by rw [List.length_take]; omega)

/-- Cut a field off bytes that are left of a record. -/
theorem takeBigWord?_drop (bs : Bytes) (start k : Nat) (h : start + k ≤ bs.length) :
    takeBigWord? k (bs.drop start) =
      some (ofBigEndian ((bs.drop start).take k), bs.drop (start + k)) := by
  rw [takeBigWord?, takeBytes?_eq (by rw [List.length_drop]; omega), List.drop_drop]
  rfl

theorem record?_eq (h : width ≤ bs.length) : record? bs = some (ofBytes bs) := by
  have hlength : 40 ≤ bs.length := h
  have hfirst := takeBigWord?_drop bs 0 8 (by omega)
  rw [List.drop_zero, Nat.zero_add] at hfirst
  simp only [record?, hfirst, Option.bind_eq_bind, Option.bind_some,
    takeBigWord?_drop bs 8 4 (by omega),
    takeBigWord?_drop bs 12 4 (by omega),
    takeBigWord?_drop bs 16 8 (by omega),
    takeBigWord?_drop bs 24 8 (by omega),
    takeBigWord?_drop bs 32 8 (by omega)]
  rfl

theorem records?_eq {count : Nat} (h : count * width ≤ bs.length) :
    records? count bs = some (IndexRecord.decodeOnto [] count bs) := by
  induction count generalizing bs with
  | zero => rfl
  | succ n ih =>
    rw [Nat.succ_mul] at h
    have hrest : n * width ≤ (bs.drop width).length := by
      rw [List.length_drop]
      omega
    have hhead : width ≤ (bs.take width).length := by
      rw [List.length_take]
      omega
    rw [records?, takeBytes?_eq (by omega), IndexRecord.decodeOnto, IndexRecord.decodeOnto_eq]
    simp only [Option.bind_eq_bind, Option.bind_some, record?_eq hhead, ih hrest,
      IndexRecord.ofBytes_take (show width ≤ bs.length by omega)]
    rfl

/-! ### Chunks -/

/-- Sizes stay within a word if the room of all records that are left does. -/
theorem group?_eq (limit : Nat) {done : List (List IndexRecord)} {begun : List IndexRecord}
    {size : Nat} (hsize : size + (rs.map IndexRecord.room).sum < 2 ^ 64) :
    group? limit done begun size rs = some (groupOnto limit done begun size rs) := by
  induction rs generalizing done begun size with
  | nil => rfl
  | cons r rs ih =>
    rw [List.map_cons, List.sum_cons] at hsize
    have htotal : size? (size + r.room) = some (size + r.room) := size?_eq (by omega)
    have hanew : size? (0 + r.room) = some r.room := by
      rw [Nat.zero_add]
      exact size?_eq (by omega)
    rw [group?, groupOnto, htotal, hanew]
    have hrest (begun : List IndexRecord) : group? limit done begun (size + r.room) rs =
        some (groupOnto limit done begun (size + r.room) rs) := ih (by omega)
    have hafresh : group? limit (begun.reverse :: done) [r] r.room rs =
        some (groupOnto limit (begun.reverse :: done) [r] r.room rs) := ih (by omega)
    cases begun.isEmpty with
    | true => simp [hrest]
    | false => by_cases hfull : limit < size + r.room <;> simp [hfull, hrest, hafresh]

/-- A record takes no more room than its field for the length can state. -/
theorem sum_room_le (hfits : ∀ r ∈ rs, r.Fits) :
    (rs.map IndexRecord.room).sum ≤ 2 ^ 31 * rs.length := by
  induction rs with
  | nil => exact Nat.le_refl 0
  | cons r rs ih =>
    obtain ⟨hr, hrs⟩ := List.forall_mem_cons.1 hfits
    have hrest := ih hrs
    have hroom : r.room < 2 ^ 31 := by
      have := hr.length.2
      unfold IndexRecord.room
      omega
    rw [List.map_cons, List.sum_cons, List.length_cons]
    omega

/-- The chunks of an index file that is not too long. -/
theorem chunks?_unread (path : String) (limit farthest : Nat) (content : Bytes) {index : Bytes}
    (hsize : index.length / width < 2 ^ 33) :
    chunks? (.unread path limit farthest content index) =
      some (.ok (groupIntoChunks limit (decodeAll index))) := by
  have hcount : index.length / width * width ≤ index.length := Nat.div_mul_le_self ..
  have hroom : index.length / width * width < 2 ^ 63 := by
    have hwidth : width = 40 := rfl
    rw [hwidth] at hsize ⊢
    omega
  have hfits : ∀ r ∈ decodeAll index, r.Fits := fun r hr => IndexRecord.fits_of_mem_decodeAll hr
  have hgroup : group? limit [] [] 0 (decodeAll index) =
      some (groupIntoChunks limit (decodeAll index)) := by
    have hrooms := sum_room_le hfits
    rw [IndexRecord.length_decodeAll] at hrooms
    exact group?_eq limit (by omega)
  simp only [chunks?, LocalFiles.unread, room?_eq hroom, records?_eq hcount, Option.bind_eq_bind,
    Option.bind_some]
  rw [← decodeAll, hgroup]
  rfl

theorem firstByte_eq_zero (hx : x ∈ rs) (h : x.offset < 0) : firstByte rs = 0 := by
  unfold firstByte
  cases hmin : (rs.map (·.offset)).min? with
  | none => rfl
  | some m =>
    have := (List.min?_eq_some_iff.1 hmin).2 _ (List.mem_map_of_mem (f := (·.offset)) hx)
    rw [Option.getD_some]
    omega

/-- The first byte of a chunk fits a word. -/
theorem firstByte_lt (hfits : ∀ r ∈ rs, r.Fits) : firstByte rs < 2 ^ 63 := by
  unfold firstByte
  cases hmin : (rs.map (·.offset)).min? with
  | none => decide
  | some m =>
    obtain ⟨r, hr, rfl⟩ := List.mem_map.1 (List.min?_eq_some_iff.1 hmin).1
    have := (hfits r hr).offset.2
    rw [Option.getD_some]
    omega

theorem firstByte_le_lastByte (rs : List IndexRecord) : firstByte rs ≤ lastByte rs := by
  unfold lastByte
  generalize firstByte rs = start
  induction rs generalizing start with
  | nil => exact Int.le_refl _
  | cons r rs ih => exact Int.le_trans (Int.le_max_left ..) (ih _)

theorem lastByte_lt (hfits : ∀ r ∈ rs, r.Fits) (hends : EndsFit rs) : lastByte rs < 2 ^ 63 := by
  have hfirst := firstByte_lt hfits
  have hlast : lastByte rs ≤ 2 ^ 63 - 1 := by
    refine LocalFiles.lastByte_le (by omega) fun r hr => ?_
    have := (fitsWord_iff.1 (hends r hr)).2
    omega
  omega

/-- The offset of a block within its chunk fits a word: it is the one in the file, or one that is
smaller and not negative. -/
theorem fitsWord_offset (hx : x ∈ rs) (hfits : x.Fits) :
    fitsWord (x.offset - firstByte rs) = true := by
  obtain ⟨hlo, hhi⟩ := hfits.offset
  rw [fitsWord_iff]
  by_cases hneg : x.offset < 0
  · rw [firstByte_eq_zero hx hneg]
    omega
  · have hfirst := LocalFiles.firstByte_nonneg rs
    have hle := LocalFiles.firstByte_le hx (by omega)
    omega

/-- So does the end of the block within its chunk, if the one in the file fits. -/
theorem fitsWord_end (hx : x ∈ rs) (hfits : x.Fits)
    (hend : fitsWord (x.offset + x.length) = true) :
    fitsWord (x.offset - firstByte rs + x.length) = true := by
  obtain ⟨hlo, hhi⟩ := hfits.length
  rw [fitsWord_iff] at hend ⊢
  by_cases hneg : x.offset < 0
  · rw [firstByte_eq_zero hx hneg]
    omega
  · have hfirst := LocalFiles.firstByte_nonneg rs
    have hle := LocalFiles.firstByte_le hx (by omega)
    omega

theorem segments_eq (hfits : ∀ r ∈ rs, r.Fits) :
    rs.mapM (segment? (firstByte rs)) = some (rs.map (segmentOf (firstByte rs))) := by
  have hsegment : ∀ r ∈ rs, segment? (firstByte rs) r = some (segmentOf (firstByte rs) r) := by
    intro r hr
    simp only [segment?, word?_eq (fitsWord_offset hr (hfits r hr))]
    rfl
  generalize firstByte rs = start at hsegment ⊢
  induction rs with
  | nil => rfl
  | cons r rs ih =>
    obtain ⟨hr, hrs⟩ := List.forall_mem_cons.1 hsegment
    rw [List.mapM_cons, hr, ih (fun s hs => hfits s (List.mem_cons_of_mem r hs)) hrs]
    rfl

theorem readChunk?_eq (f : LocalFiles) (hfits : ∀ r ∈ rs, r.Fits) :
    readChunk? f rs = some (f.readChunk rs) := by
  unfold readChunk? LocalFiles.readChunk
  by_cases hends : EndsFit rs
  · have hfirst := LocalFiles.firstByte_nonneg rs
    have hle := firstByte_le_lastByte rs
    have hlast := lastByte_lt hfits hends
    have hstretch : word? (lastByte rs - firstByte rs) = some (lastByte rs - firstByte rs) :=
      word?_eq (fitsWord_iff.2 (by omega))
    have hstop : endByte f.indexPath (firstByte rs) rs = .ok (lastByte rs) :=
      LocalFiles.endByte_eq _ _ hends
    simp only [hstop, hstretch]
    rcases f.openData with e | _ | ⟨content, opened⟩
    · rfl
    · rfl
    · have hroom (n : Nat) : room? (min (lastByte rs - firstByte rs).toNat n) =
          some (min (lastByte rs - firstByte rs).toNat n) := room?_eq (by omega)
      have hdata : (content.drop (firstByte rs).toNat).take
          (min (lastByte rs - firstByte rs).toNat (content.length - (firstByte rs).toNat)) =
            slice content (firstByte rs) (lastByte rs) := by
        rw [slice, ← List.length_drop, ← List.take_eq_take_min]
      have hbegin := unsigned_eq_toNat hfirst (by omega)
      have hlength : unsigned 64 (lastByte rs - firstByte rs) =
          (lastByte rs - firstByte rs).toNat := unsigned_eq_toNat (by omega) (by omega)
      have hplace : f.farthest < (firstByte rs).toNat ↔ (f.farthest : Int) < firstByte rs := by omega
      simp only [Option.bind_eq_bind, Option.bind_some, hbegin, hlength, hroom, hplace,
        segments_eq hfits, hdata]
      split <;> rfl
  · obtain ⟨text, htext⟩ :=
      LocalFiles.endByte_of_not_endsFit f.indexPath (firstByte rs) hends
    simp only [htext]

/-! ### Segments -/

theorem copy?_eq {buffer : Array UInt8} {s : Segment} (hbuffer : buffer.size < 2 ^ 63)
    (hend : fitsWord (s.offset + s.length) = true) :
    copy? buffer s = some (copy buffer s) := by
  unfold copy? copy
  rw [word?_eq hend, signed_eq_natCast hbuffer]
  simp only [Option.bind_eq_bind, Option.bind_some]
  by_cases hout : s.offset < 0 ∨ s.length < 0 ∨ s.offset + s.length > buffer.size
  · rw [if_pos hout, if_pos hout]
    rfl
  · rw [if_neg hout, if_neg hout]
    have hstop := (fitsWord_iff.1 hend).2
    have hbetween : between? buffer s.offset.toNat (s.offset + s.length).toNat =
        some (bytesAt buffer s.offset.toNat s.length.toNat) := by
      rw [between?, if_pos (by omega)]
      congr 2
      omega
    rw [unsigned_eq_toNat (by omega) (by omega), unsigned_eq_toNat (by omega) (by omega),
      hbetween]
    rfl

/-! ### One step -/

variable {content : Bytes} {chunks : List (List IndexRecord)} {r : BlockReader} {f : LocalFiles}
  {k : Nat}

theorem read?_eq (h : f.Intact content chunks) (hchunks : chunks? f = some (.ok chunks))
    (hfits : ∀ rs ∈ chunks, ∀ x ∈ rs, x.Fits) (k : Nat) :
    read? f k = some (f.read k) ∧ chunks? (f.read k).2 = some (.ok chunks) := by
  unfold read? LocalFiles.read
  rw [hchunks, h.loaded]
  simp only [Option.bind_eq_bind, Option.bind_some]
  cases hk : chunks[k]? with
  | none => exact ⟨rfl, rfl⟩
  | some rs =>
    refine ⟨readChunk?_eq _ (hfits rs (List.mem_of_getElem? hk)), ?_⟩
    rw [chunks?, LocalFiles.chunks_readChunk]

/-- A chunk that is read is one of the index, and the ends of its records fit. -/
theorem chunk_of_read (h : f.Intact content chunks) {chunk : Chunk}
    (hread : (f.read k).1 = .ok (some chunk)) :
    ∃ rs, chunks[k]? = some rs ∧ EndsFit rs ∧ chunk = chunkOf content rs := by
  have hanswered := (h.read k).2
  rw [hread] at hanswered
  cases hanswered with
  | read hk hends => exact ⟨_, hk, hends, rfl⟩

/-- What holds between two steps. -/
structure Sound (content : Bytes) (chunks : List (List IndexRecord)) (r : BlockReader)
    (f : LocalFiles) : Prop where
  intact : f.Intact content chunks
  chunks_eq : chunks? f = some (.ok chunks)
  buffer_lt : r.buffer.size < 2 ^ 63
  ends_fit : ∀ s ∈ r.queue, fitsWord (s.offset + s.length) = true

/-- The most steps that are left before a call runs out of chunks. -/
def work (chunks : List (List IndexRecord)) (r : BlockReader) : Nat :=
  r.queue.length + ((chunks.drop r.cursor).map (·.length + 1)).sum

theorem sum_drop_succ_le (chunks : List (List IndexRecord)) (k : Nat) :
    ((chunks.drop (k + 1)).map (·.length + 1)).sum ≤
      ((chunks.drop k).map (·.length + 1)).sum := by
  rcases Nat.lt_or_ge k chunks.length with hlt | hle
  · rw [List.drop_eq_getElem_cons hlt, List.map_cons, List.sum_cons]
    omega
  · rw [List.drop_of_length_le hle, List.drop_of_length_le (by omega)]

/-- What a step comes to: it is the end of the call, with the answer of the model; or the call goes
on as it does in the model, with fewer steps left. -/
inductive Stepped (content : Bytes) (chunks : List (List IndexRecord)) (r : BlockReader)
    (f : LocalFiles) : Prop
  | answers {o : Outcome} {r' : BlockReader} {f' : LocalFiles}
    (hstep : step? r f = some (some o, r', f')) (hsame : advance source r f = (o, r', f'))
    (hsound : Sound content chunks r' f') (hwork : work chunks r' ≤ work chunks r)
    (hcursor : r'.cursor ≤ r.cursor + 1)
  | goesOn {r' : BlockReader} {f' : LocalFiles} (hstep : step? r f = some (none, r', f'))
    (hsame : advance source r f = advance source r' f') (hsound : Sound content chunks r' f')
    (hwork : work chunks r' < work chunks r) (hcursor : r'.cursor ≤ max r.cursor chunks.length)

/-- A reader that has been given the segments of a chunk. -/
theorem Sound.filled (h : Sound content chunks r f) (hfits : ∀ rs ∈ chunks, ∀ x ∈ rs, x.Fits)
    (hk : chunks[k]? = some rs) (hends : EndsFit rs) :
    Sound content chunks
      { r with
        cursor := k + 1
        buffer := (chunkOf content rs).data.toArray
        queue := (chunkOf content rs).segments } f where
  intact := h.intact
  chunks_eq := h.chunks_eq
  buffer_lt := by
    have hfirst := LocalFiles.firstByte_nonneg rs
    have hlast := lastByte_lt (hfits rs (List.mem_of_getElem? hk)) hends
    simp only [chunkOf, slice, List.size_toArray, List.length_take]
    omega
  ends_fit s hs := by
    obtain ⟨x, hx, rfl⟩ := List.mem_map.1 hs
    exact fitsWord_end hx (hfits rs (List.mem_of_getElem? hk) x hx) (hends x hx)

theorem Sound.moved (h : Sound content chunks r f) (k : Nat) :
    Sound content chunks { r with cursor := k } f :=
  ⟨h.intact, h.chunks_eq, h.buffer_lt, h.ends_fit⟩

/-- A step that asks for a chunk. -/
theorem stepped_of_nil (hfits : ∀ rs ∈ chunks, ∀ x ∈ rs, x.Fits) (h : Sound content chunks r f)
    (hqueue : r.queue = []) : Stepped content chunks r f := by
  have hnext : r.nextAccepted r.queue = (none, r) := by
    obtain ⟨expected, tasks, processed, cursor, buffer, queue⟩ := r
    cases hqueue
    rfl
  have hadvance := BlockReader.advance_eq source r f
  have hsource : source.read f r.cursor = f.read r.cursor := rfl
  simp only [hnext, BlockReader.refill, hsource] at hadvance
  obtain ⟨hread, hheld⟩ := read?_eq h.intact h.chunks_eq hfits r.cursor
  have hasked : Sound content chunks r (f.read r.cursor).2 :=
    ⟨(h.intact.read r.cursor).1, hheld, h.buffer_lt, h.ends_fit⟩
  have hchunk (chunk : Chunk) (hread : (f.read r.cursor).1 = .ok (some chunk)) :=
    chunk_of_read h.intact hread
  have hpassed : work chunks { r with cursor := r.cursor + 1 } ≤ work chunks r :=
    Nat.add_le_add_left (sum_drop_succ_le chunks r.cursor) _
  rcases hanswer : f.read r.cursor with ⟨e | _ | chunk, f'⟩ <;>
    rw [hanswer] at hadvance hread hasked hchunk
  · refine .answers ?_ hadvance hasked (Nat.le_refl _) (Nat.le_succ _)
    simp only [step?, hqueue, hread, Option.bind_eq_bind, Option.bind_some]
    rfl
  · refine .answers ?_ hadvance (hasked.moved _) hpassed (Nat.le_refl _)
    simp only [step?, hqueue, hread, Option.bind_eq_bind, Option.bind_some]
    rfl
  · obtain ⟨rs, hk, hends, rfl⟩ := hchunk chunk rfl
    have hfilled := hasked.filled hfits hk hends
    obtain ⟨hlt, rfl⟩ := List.getElem?_eq_some_iff.1 hk
    have hlength : (chunkOf content chunks[r.cursor]).segments.length = chunks[r.cursor].length :=
      List.length_map _
    generalize chunkOf content chunks[r.cursor] = chunk at hadvance hread hfilled hlength
    -- the segments that come in are fewer than the steps that the chunk was counted with
    have hwork : work chunks { r with
        cursor := r.cursor + 1
        buffer := chunk.data.toArray
        queue := chunk.segments } < work chunks r := by
      simp only [work, List.drop_eq_getElem_cons hlt, List.map_cons, List.sum_cons]
      omega
    dsimp only at hadvance
    cases hdata : chunk.data.isEmpty with
    | true =>
      rw [if_pos hdata] at hadvance
      refine .answers ?_ hadvance (hasked.moved _) hpassed (Nat.le_refl _)
      simp only [step?, hqueue, hread, Option.bind_eq_bind, Option.bind_some, hdata]
      rfl
    | false =>
      rw [if_neg (by simp [hdata])] at hadvance
      cases hsegments : chunk.segments.isEmpty with
      | true =>
        rw [hsegments] at hadvance
        refine .answers ?_ hadvance hfilled (Nat.le_of_lt hwork) (Nat.le_refl _)
        simp only [step?, hqueue, hread, Option.bind_eq_bind, Option.bind_some, hdata, hsegments]
        rfl
      | false =>
        rw [hsegments] at hadvance
        refine .goesOn ?_ hadvance hfilled hwork (by dsimp only; omega)
        simp only [step?, hqueue, hread, Option.bind_eq_bind, Option.bind_some, hdata, hsegments]
        rfl

/-- Looking for a segment in a queue does not depend on the queue that is held. -/
theorem nextAccepted_queue (r : BlockReader) (queue rest : List Segment) :
    { r with queue := rest }.nextAccepted queue = r.nextAccepted queue := by
  induction queue generalizing r with
  | nil => rfl
  | cons s queue ih =>
    simp only [BlockReader.nextAccepted]
    have haccepts : { r with queue := rest }.accepts s = r.accepts s := rfl
    rw [haccepts]
    split
    · rfl
    · exact ih { r with processed := r.processed.insert (IdSet.key s.blockId) }

/-- A step that looks at a segment. -/
theorem stepped_of_cons (h : Sound content chunks r f) {s : Segment} {rest : List Segment}
    (hqueue : r.queue = s :: rest) : Stepped content chunks r f := by
  let seen : BlockReader :=
    { r with processed := r.processed.insert (IdSet.key s.blockId), queue := rest }
  have hends := h.ends_fit
  rw [hqueue, List.forall_mem_cons] at hends
  have hseen : Sound content chunks seen f := ⟨h.intact, h.chunks_eq, h.buffer_lt, hends.2⟩
  have hwork : work chunks seen < work chunks r := by
    simp only [work, hqueue, List.length_cons, seen]
    omega
  have hadvance := BlockReader.advance_eq source r f
  rw [hqueue] at hadvance
  cases haccepts : r.accepts s with
  | true =>
    have hcopy := copy?_eq h.buffer_lt hends.1
    simp only [BlockReader.nextAccepted, haccepts, if_true] at hadvance
    refine .answers ?_ hadvance hseen (Nat.le_of_lt hwork) (Nat.le_succ _)
    simp only [step?, hqueue, haccepts, if_true, hcopy]
    rfl
  | false =>
    have hnext : r.nextAccepted (s :: rest) = seen.nextAccepted seen.queue := by
      simp only [BlockReader.nextAccepted, haccepts]
      exact (nextAccepted_queue _ rest rest).symm
    rw [hnext, ← BlockReader.advance_eq] at hadvance
    refine .goesOn ?_ hadvance hseen hwork (Nat.le_max_left ..)
    simp only [step?, hqueue, haccepts]
    rfl

/-- **One step.** -/
theorem stepped (hfits : ∀ rs ∈ chunks, ∀ x ∈ rs, x.Fits) (h : Sound content chunks r f) :
    Stepped content chunks r f := by
  cases hqueue : r.queue with
  | nil => exact stepped_of_nil hfits h hqueue
  | cons s rest => exact stepped_of_cons h hqueue

/-! ### Calls -/

/-- The steps of a call come to an end, with the answer of the model. -/
theorem steps?_spec (hfits : ∀ rs ∈ chunks, ∀ x ∈ rs, x.Fits) (h : Sound content chunks r f)
    {bound : Nat} (hbound : work chunks r < bound) :
    ∃ o r' f', steps? bound r f = some (o, r', f') ∧ advance source r f = (o, r', f') ∧
      Sound content chunks r' f' ∧ work chunks r' ≤ work chunks r ∧
      r'.cursor ≤ max r.cursor chunks.length + 1 := by
  induction bound generalizing r f with
  | zero => exact absurd hbound (Nat.not_lt_zero _)
  | succ n ih =>
    rcases stepped hfits h with ⟨hstep, hsame, hsound, hwork, hcursor⟩ |
      ⟨hstep, hsame, hsound, hwork, hcursor⟩
    · refine ⟨_, _, _, ?_, hsame, hsound, hwork, by omega⟩
      simp only [steps?, hstep]
      rfl
    · obtain ⟨o, r', f', hsteps, hsame', hsound', hwork', hcursor'⟩ := ih hsound (by omega)
      refine ⟨o, r', f', ?_, hsame.trans hsame', hsound', by omega, by omega⟩
      simp only [steps?, hstep]
      exact hsteps

/-- **One call.** -/
theorem nextBlock?_spec (hfits : ∀ rs ∈ chunks, ∀ x ∈ rs, x.Fits) (h : Sound content chunks r f)
    {bound : Nat} (hbound : work chunks r < bound) :
    ∃ o r' f', nextBlock? bound r f = some (o, r', f') ∧ nextBlock source r f = (o, r', f') ∧
      Sound content chunks r' f' ∧ work chunks r' ≤ work chunks r ∧
      r'.cursor ≤ max r.cursor chunks.length + 1 := by
  unfold nextBlock? nextBlock
  cases r.expected.isEmpty with
  | true => exact ⟨_, r, f, rfl, rfl, h, Nat.le_refl _, by omega⟩
  | false => exact steps?_spec hfits h hbound

/-- **Any number of calls.** -/
theorem run?_spec (hfits : ∀ rs ∈ chunks, ∀ x ∈ rs, x.Fits) (h : Sound content chunks r f)
    {bound : Nat} (hbound : work chunks r < bound) (requests : List Request) :
    run? bound requests r f = some (run requests r f) ∧
      (run requests r f).2.1.cursor ≤ max r.cursor chunks.length + requests.length := by
  induction requests generalizing r f with
  | nil => exact ⟨rfl, Nat.le_max_left ..⟩
  | cons request rest ih =>
    cases request with
    | close =>
      have hclosed : Sound content chunks r f.close :=
        ⟨h.intact.close, h.chunks_eq, h.buffer_lt, h.ends_fit⟩
      obtain ⟨hrun, hcursor⟩ := ih hclosed hbound
      exact ⟨hrun, Nat.le_succ_of_le hcursor⟩
    | next =>
      obtain ⟨o, r', f', hnext, hsame, hsound, hwork, hcursor⟩ := nextBlock?_spec hfits h hbound
      obtain ⟨hrun, hcursor'⟩ := ih hsound (by omega)
      have hreader : (run (.next :: rest) r f).2.1 = (run rest r' f').2.1 := by
        simp only [run, hsame]
      refine ⟨?_, ?_⟩
      · simp only [run?, run, hnext, hsame, Option.bind_eq_bind, Option.bind_some, hrun]
        rfl
      · rw [hreader, List.length_cons]
        omega

/-- There are no more chunks than records. -/
theorem length_le_length_flatten (hne : ∀ rs ∈ chunks, rs ≠ []) :
    chunks.length ≤ chunks.flatten.length := by
  induction chunks with
  | nil => exact Nat.le_refl _
  | cons rs chunks ih =>
    obtain ⟨hrs, hne⟩ := List.forall_mem_cons.1 hne
    have hpos := List.length_pos_iff.2 hrs
    have hle := ih hne
    rw [List.length_cons, List.flatten_cons, List.length_append]
    omega

theorem sum_length_succ (chunks : List (List IndexRecord)) :
    (chunks.map (·.length + 1)).sum = chunks.flatten.length + chunks.length := by
  induction chunks with
  | nil => rfl
  | cons rs chunks ih =>
    rw [List.map_cons, List.sum_cons, ih, List.flatten_cons, List.length_append, List.length_cons]
    omega

/-- **Reading in words.** Take a data file and an index file of any bytes, the latter with fewer
than `2 ^ 33` records, any limit for the size of a chunk, and a reader of any blocks. Call the
reader and close the files in between, however often.

* All steps have a result, and no call takes more steps than twice the number of records and one.
  The answers, and the reader at the end, are those of the model.
* The number of the next chunk, which grows with each call, stays below the sum of `2 ^ 33` and the
  number of requests. -/
theorem reads_in_words {layout : BlockIdLayout} {ids : IdBitmap} {tasks : IdSet}
    (hstart : BlockReader.start? layout ids tasks = some r) {index : Bytes}
    (hsize : index.length / width < 2 ^ 33) (path : String) (limit farthest : Nat) (content : Bytes)
    (requests : List Request) :
    let files := LocalFiles.unread path limit farthest content index
    run? (2 * (index.length / width) + 1) requests r files = some (run requests r files) ∧
      (run requests r files).2.1.cursor < 2 ^ 33 + requests.length := by
  intro files
  let chunks := groupIntoChunks limit (decodeAll index)
  have hflat : chunks.flatten = decodeAll index := IndexRecord.flatten_groupIntoChunks ..
  have hfits : ∀ rs ∈ chunks, ∀ x ∈ rs, x.Fits := fun rs hrs x hx =>
    IndexRecord.fits_of_mem_decodeAll (hflat ▸ List.mem_flatten.2 ⟨rs, hrs, hx⟩)
  obtain ⟨hqueue, hbuffer, hcursor⟩ : r.queue = [] ∧ r.buffer = #[] ∧ r.cursor = 0 := by
    obtain ⟨s, -, rfl⟩ := Option.map_eq_some_iff.1 hstart
    exact ⟨rfl, rfl, rfl⟩
  have hsound : Sound content chunks r files :=
    ⟨LocalFiles.intact_unread .., chunks?_unread path limit farthest content hsize,
      by rw [hbuffer]; decide, by rw [hqueue]; exact fun s hs => absurd hs List.not_mem_nil⟩
  have hlength : chunks.length ≤ index.length / width := by
    rw [← IndexRecord.length_decodeAll, ← hflat]
    exact length_le_length_flatten fun rs hrs => IndexRecord.ne_nil_of_mem_groupIntoChunks hrs
  have hwork : work chunks r ≤ 2 * (index.length / width) := by
    rw [work, hqueue, hcursor, List.length_nil, Nat.zero_add, List.drop_zero, sum_length_succ,
      hflat, IndexRecord.length_decodeAll]
    omega
  obtain ⟨hrun, hnumber⟩ := run?_spec hfits hsound (Nat.lt_succ_of_le hwork) requests
  exact ⟨hrun, by omega⟩

/-- Three blocks share a chunk: one before all files, one that is there, and one that goes back from
the last place of a word. The end of the fourth does not fit a word. -/
theorem reads_in_words_far_blocks :
    let rs : List IndexRecord := [⟨-2 ^ 63, 2 ^ 31 - 1, 0, 0, 1, 1⟩,
      ⟨0, 2, 5, 2659403885, 2097153, 1⟩, ⟨2 ^ 63 - 1, -2 ^ 31, 0, 0, 4194305, 1⟩,
      ⟨2 ^ 63 - 1, 1, 0, 0, 6291457, 1⟩]
    let index := rs.flatMap IndexRecord.encode ++ [0]
    let files := LocalFiles.unread "index" (2 ^ 31 + 1) (2 ^ 44 - 4096) [97, 98] index
    let ids : IdSet := .ofIds [1, 2097153, 4194305, 6291457]
    index.length / width < 2 ^ 33 ∧
    ∃ r, BlockReader.start? .standard (.ofSet ids) (.ofIds [1]) = some r ∧
      (run [.next, .next, .close, .next, .next] r files).1 =
        [.error (.dataCorrupted ("Can't read data for blockId[1], range " ++
            "[-9223372036854775808, -9223372034707292161) is out of the read buffer with length " ++
            "2")),
          .ok (some ⟨[97, 98], 5⟩),
          .error (.dataCorrupted ("Can't read data for blockId[4194305], range " ++
            "[9223372036854775807, 9223372034707292159) is out of the read buffer with length " ++
            "2")),
          .error (.dataCorrupted ("Index of \"index\" has block: 6291457 " ++
            "with offset: 9223372036854775807 and length: 1 overflowing"))] := by
  intro rs index files ids
  let r : BlockReader :=
    ⟨BlockReader.expectedOf .standard ids (.ofIds [1]), .ofIds [1], ∅, 0, #[], []⟩
  have hstart : BlockReader.start? .standard (.ofSet ids) (.ofIds [1]) = some r := rfl
  have hsize : index.length / width < 2 ^ 33 := by decide +kernel
  let requests : List Request := [.next, .next, .close, .next, .next]
  obtain ⟨hrun, -⟩ := reads_in_words hstart hsize "index" (2 ^ 31 + 1) (2 ^ 44 - 4096) [97, 98]
    requests
  refine ⟨hsize, r, hstart, ?_⟩
  -- the run in words can be computed, since each call is given a number of steps
  have hwords : (run? (2 * (index.length / width) + 1) requests r files).map (·.1) =
      some (run requests r files).1 := congrArg (Option.map (·.1)) hrun
  apply Option.some_inj.1
  rw [← hwords]
  decide +kernel

end Words

end ShuffleService
