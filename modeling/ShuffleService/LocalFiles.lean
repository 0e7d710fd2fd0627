import ShuffleService.ChunkSource
import ShuffleService.FileEntry
import ShuffleService.IndexRecord
import ShuffleService.Text.Quoted

/-!
# Chunks from the files of a partition

The source that reads a partition from its data file and its index file. The index is read once and
its chunks are kept; a missing index is an empty one. The data file is opened with the first chunk
that is asked for and stays open until the source is closed; while it is missing, there is nothing
to read.

A data file that is open stays readable when its name is removed (`OpenFile.unlinked`). A file
system has a largest file size, and refuses to go to a place in a file that is beyond it, also in a
file that is much shorter (`LocalFiles.farthest`).
-/

namespace ShuffleService

open scoped PlainNumbers

/-- A data file that is open: the one that has the name, or one that has lost it. -/
inductive OpenFile
  | linked
  | unlinked (content : Bytes)
  deriving DecidableEq

/-- The files of a partition and what a source holds of them. -/
structure LocalFiles where
  indexPath : String
  /-- The most bytes of a chunk with more than one block. -/
  readLimit : Nat
  /-- The farthest place in a file that the file system goes to. -/
  farthest : Nat
  data : FileEntry
  index : FileEntry
  /-- The chunks of the index, once it has been read. -/
  chunks : Option (List (List IndexRecord)) := none
  opened : Option OpenFile := none

namespace LocalFiles

/-! ### The directory -/

/-- Write the data file. An open file that still has the name shows the new content. -/
def writeData (f : LocalFiles) (content : Bytes) : LocalFiles := { f with data := .file content }

/-- Write the index file. -/
def writeIndex (f : LocalFiles) (content : Bytes) : LocalFiles := { f with index := .file content }

/-- Remove the data file, if there is one. An open file keeps its content. -/
def removeData (f : LocalFiles) : Option LocalFiles :=
  match f.data with
  | .file content =>
    some { f with
      data := .missing
      opened := f.opened.map fun | .linked => .unlinked content | o => o }
  | _ => none

/-- Remove the index file, if there is one. -/
def removeIndex (f : LocalFiles) : Option LocalFiles :=
  match f.index with
  | .file _ => some { f with index := .missing }
  | _ => none

/-! ### Reading -/

/-- The chunks of the index: the ones that are held, or those of the file. -/
def loadChunks (f : LocalFiles) : Except ShuffleError (List (List IndexRecord)) :=
  match f.chunks with
  | some chunks => .ok chunks
  | none =>
    match f.index with
    | .missing => .ok []
    | .file content => .ok (IndexRecord.groupIntoChunks f.readLimit (IndexRecord.decodeAll content))
    | .directory => .error (.storage "the index is a directory")

/-- The first byte of the data file that the blocks of a chunk need. -/
def firstByte (rs : List IndexRecord) : Int := max 0 ((rs.map (·.offset)).min?.getD 0)

/-- Whether a number fits a signed word of 64 bits. -/
def fitsWord (x : Int) : Bool := -2 ^ (63 : Nat) ≤ x && x < 2 ^ (63 : Nat)

/-- The byte after the last one that the blocks of a chunk need. A record whose end is past what a
word can hold locates nothing. -/
def endByte (indexPath : String) (start : Int) (rs : List IndexRecord) : Except ShuffleError Int :=
  rs.foldlM (fun stop r =>
    let blockEnd := r.offset + r.length
    if fitsWord blockEnd then .ok (max stop blockEnd)
    else .error (.dataCorrupted (s!"Index of {Quoted.quote indexPath} has block: {r.blockId} " ++
      s!"with offset: {r.offset} and length: {r.length} overflowing"))) start

/-- A record's block within the bytes of its chunk. -/
def segmentOf (start : Int) (r : IndexRecord) : Segment where
  blockId := r.blockId
  offset := r.offset - start
  length := r.length
  rawLength := r.rawLength
  crc := r.crc
  task := r.task

/-- The content of the data file, opened if it is not yet: `ok none` where there is no such file. -/
def openData (f : LocalFiles) : Except ShuffleError (Option (Bytes × OpenFile)) :=
  match f.opened, f.data with
  | some (.unlinked content), _ => .ok (some (content, .unlinked content))
  | _, .file content => .ok (some (content, .linked))
  | _, .missing => .ok none
  | _, .directory => .error (.storage "the data is a directory")

/-- The bytes of the file from `start` to `stop`, or to its end. -/
def slice (content : Bytes) (start stop : Int) : Bytes :=
  (content.drop start.toNat).take (stop - start).toNat

/-- What is answered when the file system refuses to go to a place. -/
def noSuchPlace : ShuffleError := .storage "Invalid argument (os error 22)"

/-- Read the data of a chunk. -/
def readChunk (f : LocalFiles) (rs : List IndexRecord) : ChunkAnswer × LocalFiles :=
  let start := firstByte rs
  match endByte f.indexPath start rs with
  | .error e => (.error e, f)
  | .ok stop =>
    match f.openData with
    | .error e => (.error e, f)
    | .ok none => (.ok none, f)
    | .ok (some (content, opened)) =>
      -- the file stays open, whether or not the place can be gone to
      let f := { f with opened := some opened }
      if f.farthest < start then (.error noSuchPlace, f)
      else (.ok (some ⟨slice content start stop, rs.map (segmentOf start)⟩), f)

/-- Answer with a chunk. -/
def read (f : LocalFiles) (k : Nat) : ChunkAnswer × LocalFiles :=
  match f.loadChunks with
  | .error e => (.error e, f)
  | .ok chunks =>
    let f := { f with chunks := some chunks }
    match chunks[k]? with
    | none => (.ok none, f)
    | some rs => f.readChunk rs

/-- Close the data file. The chunks of the index stay. -/
def close (f : LocalFiles) : LocalFiles := { f with opened := none }

/-- The number of chunks. -/
def chunkCount (f : LocalFiles) : Nat := (f.loadChunks.toOption.getD []).length

theorem chunks_readChunk (f : LocalFiles) (rs : List IndexRecord) :
    (f.readChunk rs).2.chunks = f.chunks := by
  simp only [readChunk]
  cases endByte f.indexPath (firstByte rs) rs with
  | error e => rfl
  | ok stop =>
    rcases f.openData with e | _ | ⟨content, opened⟩
    · rfl
    · rfl
    · dsimp only
      split <;> rfl

/-- The files of a partition as a source of chunks. -/
def source : ChunkSource LocalFiles where
  read := read
  close := close
  bound := chunkCount
  lt_bound {f f' k c} h := by
    unfold read at h
    cases hc : f.loadChunks with
    | error e => simp [hc] at h
    | ok chunks =>
      simp only [hc] at h
      split at h
      · simp at h
      · rename_i rs hk
        have := (List.getElem?_eq_some_iff.1 hk).1
        simpa [chunkCount, hc, Except.toOption] using this
  bound_le {f f' k c} h := by
    unfold read at h
    cases hc : f.loadChunks with
    | error e => simp [hc] at h
    | ok chunks =>
      simp only [hc] at h
      split at h
      · simp at h
      · have hf' := chunks_readChunk { f with chunks := some chunks } ‹_›
        rw [h] at hf'
        replace hf' : f'.chunks = some chunks := hf'
        have hload : f'.loadChunks = .ok chunks := by simp [loadChunks, hf']
        simp [chunkCount, hc, hload, Except.toOption]

end LocalFiles

end ShuffleService
