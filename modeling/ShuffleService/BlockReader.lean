import ShuffleService.BlockId
import ShuffleService.ChunkSource
import ShuffleService.Crc32
import ShuffleService.IdBitmap

/-!
# Reading the blocks of a partition

A reader is told which blocks of a partition exist and which task attempts count. It reads chunks
until a source has nothing left and delivers each expected block once: copies of a block after the
first, blocks of other partitions and blocks of other task attempts are passed over. At the end
`check` says whether every expected block was seen.

* `start?`: a reader before its first chunk;
* `nextBlock`: the next block, `none` when the source has nothing left;
* `check`: whether the blocks seen are the ones expected.
-/

namespace ShuffleService

/-- A block as it was stored, still compressed. -/
structure Block where
  data : Bytes
  rawLength : Int
  deriving DecidableEq

/-- What a reader knows and holds between two calls. -/
structure BlockReader where
  /-- The blocks to deliver. -/
  expected : IdSet
  /-- The task attempts whose blocks count. -/
  tasks : IdSet
  /-- The blocks seen so far, delivered or not. -/
  processed : IdSet
  /-- The number of the chunk to ask for next. -/
  cursor : Nat
  /-- The bytes of the latest chunk. -/
  buffer : Array UInt8
  /-- The segments of the buffer that are still to be looked at. -/
  queue : List Segment

namespace BlockReader

/-- The ids whose task attempt counts, where the attempt is found in an id in the given way. -/
def expectedBy (taskOf : Int → Int) (ids tasks : IdSet) : IdSet :=
  ids.filter fun x => tasks.contains (IdSet.key (taskOf (IdSet.idOf x)))

/-- A reader of the given blocks. The table of ids is walked once, so one with an empty bitmap
yields no reader. -/
def startBy? (taskOf : Int → Int) (ids : IdBitmap) (tasks : IdSet) : Option BlockReader :=
  ids.walk?.map fun s =>
    { expected := expectedBy taskOf s tasks
      tasks := tasks
      processed := ∅
      cursor := 0
      buffer := #[]
      queue := [] }

/-- The ids of a layout whose task attempt counts. -/
def expectedOf (layout : BlockIdLayout) (ids tasks : IdSet) : IdSet :=
  expectedBy layout.taskOf ids tasks

/-- A reader of the given blocks, whose ids are those of a layout. -/
def start? (layout : BlockIdLayout) (ids : IdBitmap) (tasks : IdSet) : Option BlockReader :=
  startBy? layout.taskOf ids tasks

/-- Whether a segment is the first copy of a block that is to be delivered. -/
def accepts (r : BlockReader) (s : Segment) : Bool :=
  !r.processed.contains (IdSet.key s.blockId) && r.expected.contains (IdSet.key s.blockId) &&
    r.tasks.contains (IdSet.key s.task)

/-- Look at segments up to the first that is accepted. Each segment looked at counts as seen. -/
def nextAccepted (r : BlockReader) : List Segment → Option Segment × BlockReader
  | [] => (none, { r with queue := [] })
  | s :: rest =>
    let seen := { r with processed := r.processed.insert (IdSet.key s.blockId) }
    if r.accepts s then (some s, { seen with queue := rest }) else seen.nextAccepted rest

@[simp] theorem cursor_nextAccepted (r : BlockReader) (queue : List Segment) :
    (r.nextAccepted queue).2.cursor = r.cursor := by
  induction queue generalizing r with
  | nil => rfl
  | cons s rest ih =>
    simp only [nextAccepted]
    split
    · rfl
    · rw [ih]

/-- The bytes from a place on, as many as there are up to the given number. -/
def bytesAt (buffer : Array UInt8) (start length : Nat) : Bytes :=
  (buffer.extract start (start + length)).toList

theorem bytesAt_eq (buffer : Array UInt8) (start length : Nat) :
    bytesAt buffer start length = (buffer.toList.drop start).take length := by
  simp [bytesAt]

/-- The block of a segment, if its bytes are there and are the ones that were written. The end of the
segment has no bounds here, and a source has to see to it that it fits a signed word of 64 bits: then
this is the answer that is computed in words (`Words.copy?_eq`). -/
def copy (buffer : Array UInt8) (s : Segment) : Except ShuffleError Block :=
  let stop := s.offset + s.length
  if s.offset < 0 ∨ s.length < 0 ∨ stop > buffer.size then
    .error (.dataCorrupted (s!"Can't read data for blockId[{s.blockId}], " ++
      s!"range [{s.offset}, {stop}) is out of the read buffer with length {buffer.size}"))
  else
    let data := bytesAt buffer s.offset.toNat s.length.toNat
    let actual : Int := Crc32.checksum data
    if actual = s.crc then .ok ⟨data, s.rawLength⟩
    else .error (.checksumMismatch s.blockId s.crc actual)

/-- The answer to a call. -/
abbrev Outcome := Except ShuffleError (Option Block)

variable {σ : Type}

/-- Deliver the next block that is accepted, refilling the queue from the source as long as it runs
empty. An error of the source leaves the cursor where it is. -/
def advance (source : ChunkSource σ) (r : BlockReader) (s : σ) : Outcome × BlockReader × σ :=
  match r.nextAccepted r.queue with
  | (some segment, r') => ((copy r'.buffer segment).map some, r', s)
  | (none, r') =>
    match _hread : source.read s r.cursor with
    | (.error e, s') => (.error e, r', s')
    | (.ok none, s') => (.ok none, { r' with cursor := r.cursor + 1 }, s')
    | (.ok (some chunk), s') =>
      if chunk.data.isEmpty then (.ok none, { r' with cursor := r.cursor + 1 }, s')
      else
        let filled := { r' with
          cursor := r.cursor + 1
          buffer := chunk.data.toArray
          queue := chunk.segments }
        if chunk.segments.isEmpty then (.ok none, filled, s') else advance source filled s'
termination_by source.bound s - r.cursor
decreasing_by
  have h1 := source.lt_bound _hread
  have h2 := source.bound_le _hread
  omega

/-- The next block, or `none` when the source has nothing left. A reader that expects no block does
not ask the source. -/
def nextBlock (source : ChunkSource σ) (r : BlockReader) (s : σ) : Outcome × BlockReader × σ :=
  if r.expected.isEmpty then (.ok none, r, s) else advance source r s

/-- Whether every expected block was seen. -/
def check (r : BlockReader) : Except ShuffleError Unit :=
  let seen := r.expected.inter r.processed
  if seen = r.expected then .ok ()
  else .error (.blocksInconsistent r.expected.card seen.card)

end BlockReader

end ShuffleService
