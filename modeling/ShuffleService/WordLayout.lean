import ShuffleService.BlockId

/-!
# Block id layouts in words

A program has words for the numbers of a layout: signed ones of 32 bits for the widths and of 64 bits
for the ids, the fields and the largest values of the fields. All that follows from the widths is
computed once, when a layout is made. Where the result of a step does not fit its word, the program
stops or goes on with the bits that do, depending on how it was built (`Overflow`).

* `new?`: the layout of three widths;
* `encode?`, `decode?`: the id of three fields and back.

There is no result where the program stops.
-/

namespace ShuffleService

open scoped PlainNumbers

/-- What a program does where the result of a step on words does not fit. -/
inductive Overflow
  /-- It stops. -/
  | stops
  /-- It goes on with the bits that fit. -/
  | wraps
  deriving DecidableEq

namespace Overflow

variable {α : Type} (o : Overflow)

/-- The result of a step, unless the program stops there. -/
def keep? (fits : Bool) (result : α) : Option α :=
  if fits ∨ o = wraps then some result else none

@[simp] theorem keep?_true (result : α) : o.keep? true result = some result := if_pos (.inl rfl)

@[simp] theorem keep?_stops (result : α) : stops.keep? false result = none := if_neg (by decide)

/-- The sum of two words. -/
def add? (x y : BitVec 32) : Option (BitVec 32) := o.keep? (!x.saddOverflow y) (x + y)

/-- The word before the given one. -/
def pred? (x : BitVec 64) : Option (BitVec 64) := o.keep? (!x.ssubOverflow 1#64) (x - 1#64)

/-- A word shifted to the left. An amount that does not fit counts with its six low bits. -/
def shiftLeft? (x : BitVec 64) (amount : BitVec 32) : Option (BitVec 64) :=
  o.keep? (amount.toNat < 64) (x <<< (amount.toNat % 64))

/-- A word shifted to the right, the sign bit repeating. -/
def shiftRight? (x : BitVec 64) (amount : BitVec 32) : Option (BitVec 64) :=
  o.keep? (amount.toNat < 64) (x.sshiftRight (amount.toNat % 64))

end Overflow

/-- The three fields of a block id as words. -/
structure PartWords where
  sequence : BitVec 64
  partition : BitVec 64
  task : BitVec 64
  deriving DecidableEq

/-- The numbers that three fields stand for. -/
def PartWords.toParts (x : PartWords) : BlockIdParts :=
  ⟨x.sequence.toInt, x.partition.toInt, x.task.toInt⟩

/-- A layout: the widths of the fields, the largest values that fit them, and where the upper two
begin. -/
structure WordLayout where
  sequenceBits : BitVec 32
  partitionBits : BitVec 32
  taskBits : BitVec 32
  maxSequence : BitVec 64
  maxPartition : BitVec 64
  maxTask : BitVec 64
  sequenceOffset : BitVec 32
  partitionOffset : BitVec 32
  deriving DecidableEq

namespace WordLayout

/-- The largest value of a field. -/
def maxOf? (o : Overflow) (bits : BitVec 32) : Option (BitVec 64) := do
  let power ← o.shiftLeft? 1#64 bits
  o.pred? power

/-- The layout of widths that were checked. -/
def build? (o : Overflow) (sequence partition task : BitVec 32) : Option WordLayout := do
  let maxSequence ← maxOf? o sequence
  let maxPartition ← maxOf? o partition
  let maxTask ← maxOf? o task
  let sequenceOffset ← o.add? partition task
  return {
    sequenceBits := sequence
    partitionBits := partition
    taskBits := task
    maxSequence := maxSequence
    maxPartition := maxPartition
    maxTask := maxTask
    sequenceOffset := sequenceOffset
    partitionOffset := task }

/-- A layout with the given widths. They are added up as words, too. -/
def new? (o : Overflow) (sequence partition task : BitVec 32) :
    Option (Except ShuffleError WordLayout) :=
  if 0 < sequence.toInt ∧ 0 < partition.toInt ∧ 0 < task.toInt then do
    let total ← o.add? sequence partition
    let total ← o.add? total task
    if total.toInt ≤ BlockIdLayout.maxBits then
      let l ← build? o sequence partition task
      return .ok l
    else return .error (BlockIdLayout.tooManyBits total.toInt)
  else some (.error (BlockIdLayout.notPositive sequence.toInt partition.toInt task.toInt))

/-- Three fields that fit, or the error that names the first one that does not. -/
def checkFields (l : WordLayout) (x : PartWords) : Except ShuffleError Unit := do
  BlockIdLayout.checkField "sequenceNo" x.sequence.toInt l.maxSequence.toInt
  BlockIdLayout.checkField "partitionId" x.partition.toInt l.maxPartition.toInt
  BlockIdLayout.checkField "taskAttemptId" x.task.toInt l.maxTask.toInt

/-- The block id of three fields, each of which has to fit. -/
def encode? (o : Overflow) (l : WordLayout) (x : PartWords) :
    Option (Except ShuffleError (BitVec 64)) :=
  match l.checkFields x with
  | .error e => some (.error e)
  | .ok () => do
    let sequence ← o.shiftLeft? x.sequence l.sequenceOffset
    let partition ← o.shiftLeft? x.partition l.partitionOffset
    return .ok (sequence ||| partition ||| x.task)

/-- The sequence number in a block id. -/
def sequenceOf? (o : Overflow) (l : WordLayout) (id : BitVec 64) : Option (BitVec 64) :=
  (o.shiftRight? id l.sequenceOffset).map (· &&& l.maxSequence)

/-- The partition in a block id. -/
def partitionOf? (o : Overflow) (l : WordLayout) (id : BitVec 64) : Option (BitVec 64) :=
  (o.shiftRight? id l.partitionOffset).map (· &&& l.maxPartition)

/-- The task attempt in a block id. -/
def taskOf (l : WordLayout) (id : BitVec 64) : BitVec 64 := id &&& l.maxTask

/-- The three fields of a block id. -/
def decode? (o : Overflow) (l : WordLayout) (id : BitVec 64) : Option PartWords := do
  let sequence ← l.sequenceOf? o id
  let partition ← l.partitionOf? o id
  return ⟨sequence, partition, l.taskOf id⟩

end WordLayout

end ShuffleService
