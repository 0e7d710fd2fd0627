import ShuffleService.Error
import ShuffleService.Word

/-!
# Chunks and where they come from

A reader asks a source for one chunk after the other, by numbers from zero on. A source answers
with a chunk, with the news that there is nothing left, or with an error, after which the same
number may be asked for again.

* `Segment`, `Chunk`: bytes and the blocks that lie in them;
* `ChunkSource`: what a reader asks of a source, and the bound on its chunks by which reading ends;
* `ChunkSource.recorded`: the source that answers each number by a given list.
-/

namespace ShuffleService

/-- Where a block lies in the bytes of a chunk, and what is known about it. -/
structure Segment where
  blockId : Int
  offset : Int
  length : Int
  /-- The length of the block before it was compressed. -/
  rawLength : Int
  crc : Int
  task : Int
  deriving DecidableEq, Repr

/-- A stretch of a data file and the blocks in it. -/
structure Chunk where
  data : Bytes
  segments : List Segment
  deriving DecidableEq

/-- The answer of a source: `ok none` says that there is nothing left. -/
abbrev ChunkAnswer := Except ShuffleError (Option Chunk)

/-- A source of chunks with states `σ`. No number from `bound s` on is answered with a chunk, and
answering with a chunk does not move the bound up. -/
structure ChunkSource (σ : Type) where
  read : σ → Nat → ChunkAnswer × σ
  close : σ → σ
  bound : σ → Nat
  lt_bound {s s' : σ} {k : Nat} {c : Chunk} : read s k = (.ok (some c), s') → k < bound s
  bound_le {s s' : σ} {k : Nat} {c : Chunk} : read s k = (.ok (some c), s') → bound s' ≤ bound s

/-- What has been asked of a source. -/
structure AccessLog where
  /-- The numbers that were asked for, the latest first. -/
  reads : List Nat
  closes : Nat

/-- The source that answers number `k` with element `k` of a list, and with nothing left past its
end. -/
def ChunkSource.recorded (answers : List ChunkAnswer) : ChunkSource AccessLog where
  read log k := (answers.getD k (.ok none), { log with reads := k :: log.reads })
  close log := { log with closes := log.closes + 1 }
  bound _ := answers.length
  lt_bound h := by
    simp only [Prod.mk.injEq] at h
    apply Decidable.byContradiction
    intro hle
    simp [List.getD, List.getElem?_eq_none (Nat.le_of_not_lt hle)] at h
  bound_le _ := Nat.le_refl _

end ShuffleService
