import ShuffleService.Error
import ShuffleService.Word

/-!
# Block ids

A block id packs three numbers into the 63 low bits of a signed 64-bit word, from the highest bits
to the lowest: the sequence number of the block, its partition and the task attempt that wrote it.
The task attempt stays at offset zero, where a reader that knows nothing else finds it.

* `BlockIdLayout`: how many bits each field has;
* `encode`, `decode`: the id of three fields and back.

The numbers have no bounds here; a layout as it is computed in words is a `WordLayout`.
-/

namespace ShuffleService

open scoped PlainNumbers

/-- The three fields of a block id. -/
structure BlockIdParts where
  sequence : Int
  partition : Int
  task : Int
  deriving DecidableEq, Repr

/-- The widths of the three fields in bits. The sign bit of a word is never used. -/
structure BlockIdLayout where
  sequenceBits : Nat
  partitionBits : Nat
  taskBits : Nat
  sequence_pos : 0 < sequenceBits
  partition_pos : 0 < partitionBits
  task_pos : 0 < taskBits
  total_le : sequenceBits + partitionBits + taskBits ≤ 63
  deriving DecidableEq

namespace BlockIdLayout

/-- The most bits that a layout may use. -/
def maxBits : Nat := 63

/-- The layout that is used where none is given. -/
def standard : BlockIdLayout where
  sequenceBits := 18
  partitionBits := 24
  taskBits := 21
  sequence_pos := by decide
  partition_pos := by decide
  task_pos := by decide
  total_le := by decide

/-- What is answered to widths that are not all positive. -/
def notPositive (sequence partition task : Int) : ShuffleError :=
  .invalidArgument (s!"All bit widths of block id layout must be positive, " ++
    s!"but got sequence: {sequence}, partition: {partition}, task attempt: {task}")

/-- What is answered to widths that add up to more bits than an id has. -/
def tooManyBits (total : Int) : ShuffleError :=
  .invalidArgument
    (s!"Total bits of block id layout must not exceed {maxBits}, " ++ s!"but got {total}")

/-- A layout with the given widths: all positive, and no more bits than an id has. -/
def ofBits (sequence partition task : Int) : Except ShuffleError BlockIdLayout :=
  if hpos : 0 < sequence ∧ 0 < partition ∧ 0 < task then
    if hle : sequence + partition + task ≤ maxBits then
      .ok {
        sequenceBits := sequence.toNat
        partitionBits := partition.toNat
        taskBits := task.toNat
        sequence_pos := by omega
        partition_pos := by omega
        task_pos := by omega
        total_le := by unfold maxBits at hle; omega }
    else .error (tooManyBits (sequence + partition + task))
  else .error (notPositive sequence partition task)

variable (l : BlockIdLayout)

/-- The number of bits that a layout uses. -/
def totalBits : Nat := l.sequenceBits + l.partitionBits + l.taskBits

/-- The largest sequence number. -/
def maxSequence : Int := 2 ^ l.sequenceBits - 1

/-- The largest partition. -/
def maxPartition : Int := 2 ^ l.partitionBits - 1

/-- The largest task attempt. -/
def maxTask : Int := 2 ^ l.taskBits - 1

/-- A number that fits its field, or the error that names the field. -/
def checkField (field : String) (value max : Int) : Except ShuffleError Unit :=
  if 0 ≤ value ∧ value ≤ max then .ok ()
  else .error (.invalidArgument
    s!"Can't encode block id, {field} {value} is out of range [0, {max}]")

/-- Place three fields side by side. -/
def pack (p : BlockIdParts) : Int :=
  p.sequence * 2 ^ (l.partitionBits + l.taskBits) + p.partition * 2 ^ l.taskBits + p.task

/-- The block id of three fields, each of which has to fit. -/
def encode (sequence partition task : Int) : Except ShuffleError Int := do
  checkField "sequenceNo" sequence l.maxSequence
  checkField "partitionId" partition l.maxPartition
  checkField "taskAttemptId" task l.maxTask
  return l.pack ⟨sequence, partition, task⟩

/-- The `width` bits of an id above its `offset` lowest, the sign bit repeating without end. -/
def field (id : Int) (offset width : Nat) : Int := (id >>> offset) % 2 ^ width

/-- The sequence number in a block id. -/
def sequenceOf (id : Int) : Int := field id (l.partitionBits + l.taskBits) l.sequenceBits

/-- The partition in a block id. -/
def partitionOf (id : Int) : Int := field id l.taskBits l.partitionBits

/-- The task attempt in a block id. -/
def taskOf (id : Int) : Int := field id 0 l.taskBits

/-- The three fields of a block id. -/
def decode (id : Int) : BlockIdParts := ⟨l.sequenceOf id, l.partitionOf id, l.taskOf id⟩

end BlockIdLayout

end ShuffleService
