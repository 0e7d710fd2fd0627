import ShuffleService.Proofs.ChunkSizes

/-!
# Index files of any content

The records of an index file need not lie inside the data file: an offset or a length may be
negative, and an end may be far out. A chunk is read all the same, unless an end does not even fit a
word (`endByte_of_not_endsFit`) or all its records begin where the file system does not go
(`far_chunk_is_refused`); and if it has any bytes, the range check for a segment lets through just
the records that lie inside the data file, each with the bytes that stand there, whatever the other
records of the chunk say (`cut?_segmentOf`).

What was asked for before makes no difference (`read_any_index`): the chunks that are held are those
of the index, and the data file that is open is the one that has the name (`Intact`).
-/

namespace ShuffleService

/-- The bytes of the data file at the place that a record names. -/
def IndexRecord.bytesIn (content : Bytes) (r : IndexRecord) : Bytes :=
  (content.drop r.offset.toNat).take r.length.toNat

namespace BlockReader

/-- The bytes of a segment, if its range lies inside the buffer. -/
def cut? (buffer : Array UInt8) (s : Segment) : Option Bytes :=
  if s.offset < 0 ∨ s.length < 0 ∨ s.offset + s.length > buffer.size then none
  else some (bytesAt buffer s.offset.toNat s.length.toNat)

/-- A block is copied by cutting its bytes out and comparing the checksum. -/
theorem copy_eq_cut (buffer : Array UInt8) (s : Segment) : copy buffer s =
    match cut? buffer s with
    | none =>
      let stop := s.offset + s.length
      .error (.dataCorrupted (s!"Can't read data for blockId[{s.blockId}], " ++
        s!"range [{s.offset}, {stop}) is out of the read buffer with length {buffer.size}"))
    | some data =>
      if (Crc32.checksum data : Int) = s.crc then .ok ⟨data, s.rawLength⟩
      else .error (.checksumMismatch s.blockId s.crc (Crc32.checksum data)) := by
  unfold copy cut?
  by_cases hout : s.offset < 0 ∨ s.length < 0 ∨ s.offset + s.length > buffer.size
  · simp only [if_pos hout]
  · simp only [if_neg hout]

theorem cut?_eq_some_iff {data bytes : Bytes} {s : Segment} :
    cut? data.toArray s = some bytes ↔
      (0 ≤ s.offset ∧ 0 ≤ s.length ∧ s.offset + s.length ≤ data.length) ∧
        (data.drop s.offset.toNat).take s.length.toNat = bytes := by
  rw [cut?, List.size_toArray, bytesAt_eq]
  by_cases hout : s.offset < 0 ∨ s.length < 0 ∨ s.offset + s.length > data.length
  · rw [if_pos hout]
    exact ⟨nofun, fun h => by omega⟩
  · rw [if_neg hout, Option.some_inj]
    exact ⟨fun h => ⟨by omega, h⟩, fun h => h.2⟩

end BlockReader

namespace LocalFiles

open BlockReader (copy cut?)
open IndexRecord (decodeAll groupIntoChunks)

variable {content : Bytes} {chunks : List (List IndexRecord)} {rs : List IndexRecord}
  {r : IndexRecord} {f : LocalFiles} {k : Nat}

/-! ### Segments -/

/-- Of a chunk with any bytes, the range of a segment lies inside it just if the record lies inside
the data file. -/
theorem range_iff_inside (hr : r ∈ rs)
    (hdata : slice content (firstByte rs) (lastByte rs) ≠ []) :
    (0 ≤ r.offset - firstByte rs ∧ 0 ≤ r.length ∧
      r.offset - firstByte rs + r.length ≤ (slice content (firstByte rs) (lastByte rs)).length) ↔
        r.Inside content := by
  refine ⟨?_, range_of_inside hr⟩
  rintro ⟨hoffset, hlength, hend⟩
  have hnonneg := firstByte_nonneg rs
  -- some byte was read, so the chunk begins inside the data file
  have hpos := List.length_pos_iff.2 hdata
  rw [slice, List.length_take, List.length_drop] at hend hpos
  exact ⟨by omega, hlength, by omega⟩

/-- Of a chunk with any bytes, cutting a segment out gives the bytes of the data file at the place
that the record names, if that lies inside the data file, and nothing otherwise. -/
theorem cut?_segmentOf (hr : r ∈ rs) (hdata : slice content (firstByte rs) (lastByte rs) ≠ [])
    (bytes : Bytes) :
    cut? (slice content (firstByte rs) (lastByte rs)).toArray (segmentOf (firstByte rs) r) =
      some bytes ↔ r.Inside content ∧ r.bytesIn content = bytes := by
  rw [BlockReader.cut?_eq_some_iff, ← range_iff_inside hr hdata]
  refine and_congr_right fun h => ?_
  have hoffset : 0 ≤ r.offset - firstByte rs := h.1
  have hnonneg := firstByte_nonneg rs
  rw [IndexRecord.bytesIn, ← bytes_slice hr (by omega : 0 ≤ r.offset)]
  rfl

/-- So the block of a record that lies inside the data file is copied as it stands there. -/
theorem copy_segmentOf (hr : r ∈ rs) (hdata : slice content (firstByte rs) (lastByte rs) ≠ [])
    (hinside : r.Inside content) :
    copy (slice content (firstByte rs) (lastByte rs)).toArray (segmentOf (firstByte rs) r) =
      r.directBlock content := by
  rw [BlockReader.copy_eq_cut, (cut?_segmentOf hr hdata _).2 ⟨hinside, rfl⟩]
  rfl

/-! ### Reads -/

/-- A record whose end does not fit a word makes the chunk unreadable. -/
theorem endByte_of_not_endsFit (path : String) (start : Int) (h : ¬ EndsFit rs) :
    ∃ text, endByte path start rs = .error (.dataCorrupted text) := by
  unfold endByte
  induction rs generalizing start with
  | nil => exact absurd (fun r hr => absurd hr List.not_mem_nil) h
  | cons r rs ih =>
    rw [List.foldlM_cons]
    dsimp only
    by_cases hr : fitsWord (r.offset + r.length) = true
    · rw [if_pos hr]
      exact ih _ fun hrs => h (List.forall_mem_cons.2 ⟨hr, hrs⟩)
    · rw [if_neg hr]
      exact ⟨_, rfl⟩

/-- The files are there, and what is held of them is what they hold. -/
structure Intact (content : Bytes) (chunks : List (List IndexRecord)) (f : LocalFiles) : Prop where
  data_eq : f.data = .file content
  opened : ∀ o, f.opened = some o → o = .linked
  loaded : f.loadChunks = .ok chunks

theorem Intact.openData (h : f.Intact content chunks) :
    f.openData = .ok (some (content, .linked)) := by
  obtain ⟨hdata, hopened, -⟩ := h
  unfold LocalFiles.openData
  rw [hdata]
  cases ho : f.opened with
  | none => rfl
  | some o =>
    cases hopened o ho
    rfl

theorem Intact.close (h : f.Intact content chunks) : f.close.Intact content chunks where
  data_eq := h.data_eq
  opened _ ho := by cases ho
  loaded := h.loaded

/-- How a request for a chunk is answered by files that nobody changes. -/
inductive Answered (content : Bytes) (farthest : Nat) (chunks : List (List IndexRecord)) (k : Nat) :
    ChunkAnswer → Prop
  | past (hk : chunks[k]? = none) : Answered content farthest chunks k (.ok none)
  | corrupted {rs : List IndexRecord} (hk : chunks[k]? = some rs) (hends : ¬ EndsFit rs)
    (text : String) : Answered content farthest chunks k (.error (.dataCorrupted text))
  | refused {rs : List IndexRecord} (hk : chunks[k]? = some rs) (hends : EndsFit rs)
    (hfar : farthest < firstByte rs) : Answered content farthest chunks k (.error noSuchPlace)
  | read {rs : List IndexRecord} (hk : chunks[k]? = some rs) (hends : EndsFit rs)
    (hnear : firstByte rs ≤ farthest) :
    Answered content farthest chunks k (.ok (some (chunkOf content rs)))

namespace Answered

variable {farthest : Nat} {answer : ChunkAnswer}

/-! What a chunk is like decides how it is answered. -/

theorem eq_past (h : Answered content farthest chunks k answer) (hk : chunks[k]? = none) :
    answer = .ok none := by
  cases h with
  | past => rfl
  | corrupted hk' | refused hk' | read hk' => cases hk.symm.trans hk'

theorem eq_corrupted (h : Answered content farthest chunks k answer) (hk : chunks[k]? = some rs)
    (hends : ¬ EndsFit rs) : ∃ text, answer = .error (.dataCorrupted text) := by
  cases h with
  | past hk' => cases hk.symm.trans hk'
  | corrupted _ _ text => exact ⟨text, rfl⟩
  | refused hk' hends' | read hk' hends' =>
    cases hk.symm.trans hk'
    exact absurd hends' hends

theorem eq_refused (h : Answered content farthest chunks k answer) (hk : chunks[k]? = some rs)
    (hends : EndsFit rs) (hfar : farthest < firstByte rs) : answer = .error noSuchPlace := by
  cases h with
  | past hk' => cases hk.symm.trans hk'
  | corrupted hk' hends' =>
    cases hk.symm.trans hk'
    exact absurd hends hends'
  | refused => rfl
  | read hk' _ hnear =>
    cases hk.symm.trans hk'
    exact absurd hfar (Int.not_lt.2 hnear)

theorem eq_read (h : Answered content farthest chunks k answer) (hk : chunks[k]? = some rs)
    (hends : EndsFit rs) (hnear : firstByte rs ≤ farthest) :
    answer = .ok (some (chunkOf content rs)) := by
  cases h with
  | past hk' => cases hk.symm.trans hk'
  | corrupted hk' hends' =>
    cases hk.symm.trans hk'
    exact absurd hends hends'
  | refused hk' _ hfar =>
    cases hk.symm.trans hk'
    exact absurd hfar (Int.not_lt.2 hnear)
  | read hk' =>
    cases hk.symm.trans hk'
    rfl

end Answered

theorem Intact.readChunk (h : f.Intact content chunks) (hk : chunks[k]? = some rs) :
    (f.readChunk rs).2.Intact content chunks ∧
      Answered content f.farthest chunks k (f.readChunk rs).1 := by
  unfold LocalFiles.readChunk
  dsimp only
  by_cases hends : EndsFit rs
  · have hopened : ({ f with opened := some .linked } : LocalFiles).Intact content chunks :=
      ⟨h.data_eq, fun o ho => (Option.some_inj.1 ho).symm, h.loaded⟩
    rw [endByte_eq _ _ hends, h.openData]
    dsimp only
    split
    · exact ⟨hopened, .refused hk hends ‹_›⟩
    · exact ⟨hopened, .read hk hends (Int.not_lt.1 ‹_›)⟩
  · obtain ⟨text, htext⟩ := endByte_of_not_endsFit f.indexPath (firstByte rs) hends
    rw [htext]
    exact ⟨h, .corrupted hk hends text⟩

/-- The answer to a request for a chunk, of files that nobody changes. -/
theorem Intact.read (h : f.Intact content chunks) (k : Nat) :
    (f.read k).2.Intact content chunks ∧
      Answered content f.farthest chunks k (f.read k).1 := by
  have hheld : ({ f with chunks := some chunks } : LocalFiles).Intact content chunks :=
    ⟨h.data_eq, h.opened, rfl⟩
  unfold LocalFiles.read
  rw [h.loaded]
  dsimp only
  cases hk : chunks[k]? with
  | none => exact ⟨hheld, .past hk⟩
  | some rs => exact hheld.readChunk hk

/-! ### What was asked for before -/

/-- What a source is asked for. -/
inductive Access
  | read (k : Nat)
  | close

/-- The files after a request. -/
def after (f : LocalFiles) : Access → LocalFiles
  | .read k => (f.read k).2
  | .close => f.close

theorem Intact.after (h : f.Intact content chunks) (a : Access) :
    (f.after a).Intact content chunks := by
  cases a with
  | read k => exact (h.read k).1
  | close => exact h.close

theorem Intact.foldl_after (h : f.Intact content chunks) (past : List Access) :
    (past.foldl LocalFiles.after f).Intact content chunks := by
  induction past generalizing f with
  | nil => exact h
  | cons a past ih => exact ih (h.after a)

/-- How far the file system goes does not change. -/
theorem farthest_readChunk (f : LocalFiles) (rs : List IndexRecord) :
    (f.readChunk rs).2.farthest = f.farthest := by
  simp only [LocalFiles.readChunk]
  cases endByte f.indexPath (firstByte rs) rs with
  | error e => rfl
  | ok stop =>
    rcases f.openData with e | _ | ⟨content, opened⟩
    · rfl
    · rfl
    · dsimp only
      split <;> rfl

theorem farthest_after (f : LocalFiles) (a : Access) : (f.after a).farthest = f.farthest := by
  cases a with
  | close => rfl
  | read k =>
    simp only [LocalFiles.after, LocalFiles.read]
    cases f.loadChunks with
    | error e => rfl
    | ok chunks =>
      dsimp only
      cases chunks[k]? with
      | none => rfl
      | some rs => exact farthest_readChunk _ rs

theorem farthest_foldl_after (f : LocalFiles) (past : List Access) :
    (past.foldl LocalFiles.after f).farthest = f.farthest := by
  induction past generalizing f with
  | nil => rfl
  | cons a past ih => exact (ih _).trans (farthest_after f a)

theorem intact_unread (path : String) (limit farthest : Nat) (content index : Bytes) :
    (unread path limit farthest content index).Intact content
      (groupIntoChunks limit (decodeAll index)) where
  data_eq := rfl
  opened _ ho := by cases ho
  loaded := rfl

/-- **Reading an index file of any content.** Take a data file and an index file of any bytes that
nobody changes, and ask for a chunk after any reads and closes.

* There is nothing left just if the number is past the last chunk.
* The chunk is corrupted just if the end of some record of it does not fit a word.
* The storage fails just if all ends fit, and all records of the chunk begin behind the places that
  the file system goes to.
* Otherwise the answer holds a segment for each record of the chunk, in order, that differs from the
  record in the offset alone. If the chunk has any bytes, then cutting the segment out of it
  succeeds just if the record lies inside the data file, and gives the bytes that stand there; so
  the block is copied as it stands in the data file. -/
theorem read_any_index (path : String) (limit farthest : Nat) (content index : Bytes)
    (past : List Access) (k : Nat) :
    let chunks := groupIntoChunks limit (decodeAll index)
    let answer := ((past.foldl after (unread path limit farthest content index)).read k).1
    (answer = .ok none ↔ chunks.length ≤ k) ∧
    ((∃ text, answer = .error (.dataCorrupted text)) ↔
      ∃ rs, chunks[k]? = some rs ∧ ∃ r ∈ rs, fitsWord (r.offset + r.length) = false) ∧
    ((∃ text, answer = .error (.storage text)) ↔
      ∃ rs, chunks[k]? = some rs ∧ (∀ r ∈ rs, fitsWord (r.offset + r.length) = true) ∧
        ∀ r ∈ rs, farthest < r.offset) ∧
    ∀ rs, chunks[k]? = some rs → (∀ r ∈ rs, fitsWord (r.offset + r.length) = true) →
      (∃ r ∈ rs, r.offset ≤ farthest) →
      ∃ start data, answer = .ok (some ⟨data, rs.map (segmentOf start)⟩) ∧
        (data ≠ [] → ∀ r ∈ rs,
          (∀ bytes, cut? data.toArray (segmentOf start r) = some bytes ↔
            r.Inside content ∧ r.bytesIn content = bytes) ∧
          (r.Inside content →
            copy data.toArray (segmentOf start r) = r.directBlock content)) := by
  intro chunks answer
  have hanswered : Answered content farthest chunks k answer := by
    have hread := ((intact_unread path limit farthest content index).foldl_after past).read k
    rw [farthest_foldl_after] at hread
    exact hread.2
  have hends (rs : List IndexRecord) :
      (∃ r ∈ rs, fitsWord (r.offset + r.length) = false) ↔ ¬ EndsFit rs := by
    simp [EndsFit]
  have hfar {rs : List IndexRecord} (hk : chunks[k]? = some rs) :
      (∀ r ∈ rs, farthest < r.offset) ↔ farthest < firstByte rs :=
    (lt_firstByte_iff (IndexRecord.ne_nil_of_mem_groupIntoChunks (List.mem_of_getElem? hk))).symm
  refine ⟨?_, ?_, ?_, fun rs hk hfit hnear => ?_⟩
  · rw [← List.getElem?_eq_none_iff]
    refine ⟨fun h => ?_, hanswered.eq_past⟩
    rw [h] at hanswered
    cases hanswered with
    | past hk => exact hk
  · constructor
    · rintro ⟨text, h⟩
      rw [h] at hanswered
      cases hanswered with
      | corrupted hk hbad => exact ⟨_, hk, (hends _).2 hbad⟩
    · rintro ⟨rs, hk, hbad⟩
      exact hanswered.eq_corrupted hk ((hends rs).1 hbad)
  · constructor
    · rintro ⟨text, h⟩
      rw [h] at hanswered
      cases hanswered with
      | refused hk hfit hlt => exact ⟨_, hk, hfit, (hfar hk).2 hlt⟩
    · rintro ⟨rs, hk, hfit, hlt⟩
      exact ⟨_, hanswered.eq_refused hk hfit ((hfar hk).1 hlt)⟩
  · obtain ⟨r, hr, hle⟩ := hnear
    have hnear : firstByte rs ≤ farthest :=
      Int.not_lt.1 fun hlt => Int.not_lt.2 hle ((hfar hk).2 hlt r hr)
    exact ⟨_, _, hanswered.eq_read hk hfit hnear, fun hdata r hr =>
      ⟨cut?_segmentOf hr hdata, copy_segmentOf hr hdata⟩⟩

/-- A record before the data file and one far behind it, and between them one that lies inside. -/
theorem read_any_index_bad_neighbours :
    let good : IndexRecord := ⟨1, 2, 2, 0, 2, 1⟩
    let rs : List IndexRecord := [⟨-5, 3, 3, 0, 1, 1⟩, good, ⟨2 ^ 50, 10, 10, 0, 3, 1⟩]
    let f := unread "index" 100 (2 ^ 44 - 4096) [97, 98, 99, 100] (rs.flatMap IndexRecord.encode)
    ∃ start data, (([.read 1, .read 0, .close].foldl after f).read 0).1 =
        .ok (some ⟨data, rs.map (segmentOf start)⟩) ∧
      data = [97, 98, 99, 100] ∧ cut? data.toArray (segmentOf start good) = some [98, 99] := by
  intro good rs f
  have hdecode : decodeAll (rs.flatMap IndexRecord.encode) = rs := by decide +kernel
  have hchunk :
      (groupIntoChunks 100 (decodeAll (rs.flatMap IndexRecord.encode)))[0]? = some rs := by
    rw [hdecode]
    decide +kernel
  have hfit : ∀ r ∈ rs, fitsWord (r.offset + r.length) = true := by decide
  let past : List Access := [.read 1, .read 0, .close]
  obtain ⟨-, -, -, hread⟩ := read_any_index "index" 100 (2 ^ 44 - 4096) [97, 98, 99, 100]
    (rs.flatMap IndexRecord.encode) past 0
  obtain ⟨start, data, hanswer, hcut⟩ := hread rs hchunk hfit (by decide)
  have hdata : data = [97, 98, 99, 100] := by
    have hintact := (intact_unread "index" 100 (2 ^ 44 - 4096) [97, 98, 99, 100]
      (rs.flatMap IndexRecord.encode)).foldl_after past
    have hplace : firstByte rs ≤ (past.foldl after f).farthest := by
      rw [farthest_foldl_after]
      decide
    have hsame := hanswer.symm.trans ((hintact.read 0).2.eq_read hchunk hfit hplace)
    rw [Except.ok.injEq, Option.some_inj] at hsame
    rw [show data = (chunkOf [97, 98, 99, 100] rs).data from congrArg Chunk.data hsame]
    decide
  refine ⟨start, data, hanswer, hdata, ?_⟩
  refine ((hcut (by simp [hdata]) good (by simp [rs])).1 [98, 99]).2 ⟨⟨?_, ?_, ?_⟩, ?_⟩ <;> decide

/-- A file system of blocks of 4096 bytes that numbers them in 32 bits goes no farther than
`2 ^ 44 - 4096`. A chunk whose only record begins behind that is not answered with a segment: the
storage fails, though the end of the record fits a word. -/
theorem far_chunk_is_refused :
    let far : IndexRecord := ⟨2 ^ 44, 10, 10, 0, 1, 1⟩
    let f := unread "index" 100 (2 ^ 44 - 4096) [97] far.encode
    (groupIntoChunks 100 (decodeAll far.encode))[0]? = some [far] ∧
      fitsWord (far.offset + far.length) = true ∧
      (f.read 0).1 = .error noSuchPlace ∧
      ∀ data segments, (f.read 0).1 ≠ .ok (some ⟨data, segments⟩) := by
  intro far f
  have hdecode : decodeAll far.encode = [far] := by decide +kernel
  have hchunk : (groupIntoChunks 100 (decodeAll far.encode))[0]? = some [far] := by
    rw [hdecode]
    rfl
  have hends : EndsFit [far] := by
    unfold EndsFit
    decide
  have hanswer : (f.read 0).1 = .error noSuchPlace :=
    ((intact_unread "index" 100 (2 ^ 44 - 4096) [97] far.encode).read 0).2.eq_refused hchunk hends
      (by decide)
  refine ⟨hchunk, by decide, hanswer, fun data segments h => ?_⟩
  cases hanswer.symm.trans h

end LocalFiles

end ShuffleService
