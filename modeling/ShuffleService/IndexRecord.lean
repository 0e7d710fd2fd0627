import ShuffleService.Error
import ShuffleService.Word

/-!
# Index records

A partition is stored in two files: the data file holds the blocks one after the other, and the
index file holds a record of 40 bytes for each block that says where it lies. The six fields of a
record are signed big-endian words of 8 or 4 bytes.

* `encode`, `decode`, `decodeAll`: records as bytes and back;
* `groupIntoChunks`: the records that are read from the data file together.
-/

namespace ShuffleService

/-- Where a block lies in a data file, and what is known about it. -/
structure IndexRecord where
  offset : Int
  length : Int
  /-- The length of the block before it was compressed. -/
  rawLength : Int
  crc : Int
  blockId : Int
  task : Int
  deriving DecidableEq, Repr

namespace IndexRecord

/-- The number of bytes of a record. -/
def width : Nat := 40

/-- A signed number as a big-endian word of `k` bytes. -/
def signedBytes (k : Nat) (x : Int) : Bytes := bigEndian k (unsigned (8 * k) x)

/-- The signed number in the `k` bytes from the given place on. -/
def signedAt (bs : Bytes) (start k : Nat) : Int :=
  signed (8 * k) (ofBigEndian ((bs.drop start).take k))

/-- The bytes of a record. -/
def encode (r : IndexRecord) : Bytes :=
  signedBytes 8 r.offset ++ signedBytes 4 r.length ++ signedBytes 4 r.rawLength ++
    signedBytes 8 r.crc ++ signedBytes 8 r.blockId ++ signedBytes 8 r.task

@[simp] theorem length_encode (r : IndexRecord) : r.encode.length = width := by
  simp [encode, signedBytes, width]

/-- The record in the first 40 bytes. -/
def ofBytes (bs : Bytes) : IndexRecord where
  offset := signedAt bs 0 8
  length := signedAt bs 8 4
  rawLength := signedAt bs 12 4
  crc := signedAt bs 16 8
  blockId := signedAt bs 24 8
  task := signedAt bs 32 8

/-- Read the first record. Further bytes are not looked at. -/
def decode (bs : Bytes) : Except ShuffleError IndexRecord :=
  if bs.length < width then .error (.other "Not enough bytes to decode") else .ok (ofBytes bs)

/-- Read the given number of records, after those that have been read, given in reverse. -/
def decodeOnto : (done : List IndexRecord) → (count : Nat) → Bytes → List IndexRecord
  | done, 0, _ => done.reverse
  | done, n + 1, bs => decodeOnto (ofBytes bs :: done) n (bs.drop width)

theorem decodeOnto_eq (done : List IndexRecord) (count : Nat) (bs : Bytes) :
    decodeOnto done count bs = done.reverse ++ decodeOnto [] count bs := by
  induction count generalizing done bs with
  | zero => simp [decodeOnto]
  | succ n ih =>
    rw [decodeOnto, ih, decodeOnto, ih [ofBytes bs]]
    simp

/-- Read every complete record. An incomplete last one is dropped. -/
def decodeAll (bs : Bytes) : List IndexRecord := decodeOnto [] (bs.length / width) bs

theorem decodeAll_of_lt {bs : Bytes} (h : bs.length < width) : decodeAll bs = [] := by
  rw [decodeAll, Nat.div_eq_of_lt h]
  rfl

theorem decodeAll_of_le {bs : Bytes} (h : width ≤ bs.length) :
    decodeAll bs = ofBytes bs :: decodeAll (bs.drop width) := by
  have hcount : bs.length / width = (bs.drop width).length / width + 1 := by
    rw [List.length_drop, ← Nat.add_div_right _ (by decide), Nat.sub_add_cancel h]
  rw [decodeAll, hcount, decodeOnto, decodeOnto_eq, decodeAll]
  rfl

/-- The room that a block takes in a chunk. A negative length takes none. -/
def room (r : IndexRecord) : Nat := r.length.toNat

/-- The chunks after those that are done, given in reverse, and one that has been begun, given in
reverse with the room it takes. -/
def groupOnto (limit : Nat) : (done : List (List IndexRecord)) → (begun : List IndexRecord) → Nat →
    List IndexRecord → List (List IndexRecord)
  | done, begun, _, [] => (if begun.isEmpty then done else begun.reverse :: done).reverse
  | done, begun, size, r :: rs =>
    if begun.isEmpty = false ∧ limit < size + r.room then
      groupOnto limit (begun.reverse :: done) [r] r.room rs
    else groupOnto limit done (r :: begun) (size + r.room) rs

theorem groupOnto_eq (limit : Nat) (done : List (List IndexRecord)) (begun : List IndexRecord)
    (size : Nat) (rs : List IndexRecord) :
    groupOnto limit done begun size rs = done.reverse ++ groupOnto limit [] begun size rs := by
  induction rs generalizing done begun size with
  | nil =>
    simp only [groupOnto]
    split <;> simp
  | cons r rs ih =>
    simp only [groupOnto]
    split
    · rw [ih, ih [begun.reverse]]
      simp
    · rw [ih]

/-- Group consecutive records into chunks of at most `limit` bytes. A block that takes more room
than that is a chunk of its own. -/
def groupIntoChunks (limit : Nat) (rs : List IndexRecord) : List (List IndexRecord) :=
  groupOnto limit [] [] 0 rs

end IndexRecord

end ShuffleService
