import ShuffleService.Ascending
import ShuffleService.IdBitmap.Bucket
import ShuffleService.Word
import Std.Data.HashSet

/-!
# Containers

A bitmap of 32-bit numbers is a list of containers, ascending by the 16 high bits of their numbers.
A container holds the 16 low bits in one of three forms: a short one as the sorted array of its
numbers, a long one as 65536 bits, and one that is kept as runs as pairs of a first number and a
length.

* `Container.body`, `Container.readBody?`: the bytes of the numbers, and back;
* `portable`, `readPortable?`: the bytes of a whole bitmap, and back.
-/

namespace ShuffleService

open scoped PlainNumbers

/-- The numbers of a bitmap with the same 16 high bits. -/
structure Container where
  /-- The 16 high bits. -/
  key : Nat
  /-- The 16 low bits of each number, ascending. -/
  values : List Nat
  /-- Whether the numbers are kept as runs. -/
  asRuns : Bool
  deriving DecidableEq

/-! ### Lists of equal parts -/

/-- Read the given number of parts, one after the other. -/
def readMany {α : Type} (read : Bytes → Option (α × Bytes)) (count : Nat) (bs : Bytes) :
    Option (List α × Bytes) :=
  go [] count bs
where
  /-- Read on, with the parts so far in reverse. -/
  go (done : List α) : Nat → Bytes → Option (List α × Bytes)
    | 0, bs => some (done.reverse, bs)
    | n + 1, bs =>
      match read bs with
      | some (a, rest) => go (a :: done) n rest
      | none => none

/-- Read one part for each element of a list. -/
def readEach {α β : Type} (read : α → Bytes → Option (β × Bytes)) (as : List α) (bs : Bytes) :
    Option (List β × Bytes) :=
  go [] as bs
where
  /-- Read on, with the parts so far in reverse. -/
  go (done : List β) : List α → Bytes → Option (List β × Bytes)
    | [], bs => some (done.reverse, bs)
    | a :: as, bs =>
      match read a bs with
      | some (b, rest) => go (b :: done) as rest
      | none => none

/-! ### Runs -/

/-- Runs within 16 bits, in order and with a gap before each next one. -/
def validRuns : List (Nat × Nat) → Bool
  | [] => true
  | [(first, more)] => first + more < 65536
  | (first, more) :: (next, more') :: rest =>
    first + more + 1 < next && validRuns ((next, more') :: rest)

/-! ### Bits -/

/-- The byte whose bit `j` is set where the test holds of `j`. -/
def byteOfBits (bit : Nat → Bool) : UInt8 :=
  UInt8.ofNat ((List.range 8).foldl (fun n j => if bit j then n + 2 ^ j else n) 0)

/-- The 8192 bytes that have the bits of the given numbers set. -/
def bitBytes (values : List Nat) : Bytes :=
  let held := Std.HashSet.ofList values
  (List.range 8192).map fun i => byteOfBits fun j => held.contains (8 * i + j)

/-- The numbers of the bits that are set. -/
def setBits (bs : Bytes) : List Nat :=
  bs.zipIdx.flatMap fun (b, i) =>
    ((List.range 8).filter fun j => b.toNat.testBit j).map fun j => 8 * i + j

/-! ### One container -/

namespace Container

/-- The bytes of the values. -/
def body (c : Container) : Bytes :=
  if c.asRuns then
    let runs := toRuns c.values
    littleEndian 2 runs.length ++
      runs.flatMap fun (first, more) => littleEndian 2 first ++ littleEndian 2 more
  else if c.values.length ≤ Bucket.maxArray then c.values.flatMap (littleEndian 2)
  else bitBytes c.values

/-- The key and the size that stand before the bodies of all containers. -/
def header (c : Container) : Bytes := littleEndian 2 c.key ++ littleEndian 2 (c.values.length - 1)

/-- What a header says: the key, the number of values, and whether they are runs. -/
structure Header where
  key : Nat
  size : Nat
  asRuns : Bool

/-- Read one run. -/
def readRun? (bs : Bytes) : Option ((Nat × Nat) × Bytes) := do
  let (first, bs) ← takeWord? 2 bs
  let (more, bs) ← takeWord? 2 bs
  return ((first, more), bs)

/-- Read the values that a header announces. The size in the header of runs does not count. -/
def readBody? (h : Header) (bs : Bytes) : Option (Container × Bytes) :=
  if h.asRuns then do
    let (count, bs) ← takeWord? 2 bs
    let (runs, bs) ← readMany readRun? count bs
    if runs ≠ [] ∧ validRuns runs then some (⟨h.key, ofRuns runs, true⟩, bs) else none
  else if h.size ≤ Bucket.maxArray then do
    let (values, bs) ← readMany (takeWord? 2) h.size bs
    if isAscending values then some (⟨h.key, values, false⟩, bs) else none
  else do
    let (bits, bs) ← takeBytes? 8192 bs
    let values := setBits bits
    if values.length = h.size then some (⟨h.key, values, false⟩, bs) else none

end Container

/-! ### A whole bitmap -/

/-- The cookie of a bitmap without runs. -/
def plainCookie : Nat := 12346

/-- The low half of the cookie of a bitmap with runs. -/
def runCookie : Nat := 12347

/-- The fewest containers whose offsets are written beside runs. -/
def offsetThreshold : Nat := 4

/-- The most containers of a bitmap. -/
def maxContainers : Nat := 65536

/-- Where each part begins, the first one at the given place. -/
def offsets : Nat → List Nat → List Nat
  | _, [] => []
  | start, size :: sizes => start :: offsets (start + size) sizes

/-- A bit for each flag, eight to a byte. -/
def packFlags (flags : List Bool) : Bytes :=
  (List.range ((flags.length + 7) / 8)).map fun i => byteOfBits fun j => flags.getD (8 * i + j) false

/-- The bits of the given bytes as flags. -/
def unpackFlags (bs : Bytes) : List Bool :=
  bs.flatMap fun b => (List.range 8).map fun j => b.toNat.testBit j

/-- The bytes of a bitmap. -/
def portable (cs : List Container) : Bytes :=
  let bodies := cs.map (·.body)
  let headers := cs.flatMap (·.header)
  let hasRuns := cs.any (·.asRuns)
  let intro :=
    if hasRuns then
      littleEndian 4 (runCookie + (cs.length - 1) * 65536) ++ packFlags (cs.map (·.asRuns))
    else littleEndian 4 plainCookie ++ littleEndian 4 cs.length
  let hasOffsets := !hasRuns || offsetThreshold ≤ cs.length
  let table :=
    if hasOffsets then
      (offsets (intro.length + headers.length + 4 * cs.length) (bodies.map (·.length))).flatMap
        (littleEndian 4)
    else []
  intro ++ headers ++ table ++ bodies.flatten

/-- Read how many containers there are, and which of them are kept as runs: `none` where the
bitmap has no runs at all. -/
def readIntro? (bs : Bytes) : Option ((Nat × Option (List Bool)) × Bytes) := do
  let (cookie, bs) ← takeWord? 4 bs
  if cookie = plainCookie then
    let (count, bs) ← takeWord? 4 bs
    if count ≤ maxContainers then some ((count, none), bs) else none
  else if cookie % 65536 = runCookie then
    let count := cookie / 65536 + 1
    let (flags, bs) ← takeBytes? ((count + 7) / 8) bs
    return ((count, some (unpackFlags flags)), bs)
  else none

/-- Read a key and a size. -/
def readKeySize? (bs : Bytes) : Option ((Nat × Nat) × Bytes) := do
  let (key, bs) ← takeWord? 2 bs
  let (size, bs) ← takeWord? 2 bs
  return ((key, size + 1), bs)

/-- Read the bytes of a bitmap. The offsets have to be there and are not looked at, since the
bodies follow each other. -/
def readPortable? (bs : Bytes) : Option (List Container × Bytes) := do
  let ((count, flags), bs) ← readIntro? bs
  let (keys, bs) ← readMany readKeySize? count bs
  let hasOffsets := flags.isNone || offsetThreshold ≤ count
  let (_, bs) ← takeBytes? (if hasOffsets then 4 * count else 0) bs
  let runs := flags.getD [] ++ List.replicate count false
  let headers := (keys.zip runs).map fun ((key, size), asRuns) => ⟨key, size, asRuns⟩
  let (cs, bs) ← readEach Container.readBody? headers bs
  if isAscending (keys.map (·.1)) then some (cs, bs) else none

end ShuffleService
