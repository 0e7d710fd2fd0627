/-!
# How the members of one container are kept

The members of a set with the same 48 high bits share one container. It keeps few members as an
array and many as bits, or else it keeps them as runs of consecutive numbers. Reading may bring
runs in, and so does a union that fills a container; only the joining of two containers gives runs
up.

* `toRuns`, `ofRuns`: the maximal runs of consecutive numbers, and back;
* `Bucket.joinedAsRuns`, `Bucket.commonAsRuns`: whether runs come out of a union and of an
  intersection; `Bucket.filledAsRuns` is the first of them where the last of several disjoint shares
  fills a container up.
-/

namespace ShuffleService

/-- Split a list where the key of its elements changes. -/
def groupByKey {α : Type} (key : α → Nat) (xs : List α) : List (Nat × List α) :=
  xs.foldr (fun x groups =>
    match groups with
    | (k, group) :: rest => if key x = k then (k, x :: group) :: rest else (key x, [x]) :: groups
    | [] => [(key x, [x])]) []

/-- The maximal runs of consecutive numbers, each as its first number and how many follow it. -/
def toRuns (values : List Nat) : List (Nat × Nat) :=
  values.foldr (fun x runs =>
    match runs with
    | (first, more) :: rest => if x + 1 = first then (x, more + 1) :: rest else (x, 0) :: runs
    | [] => [(x, 0)]) []

/-- The numbers of a list of runs. -/
def ofRuns (runs : List (Nat × Nat)) : List Nat :=
  runs.flatMap fun (first, more) => (List.range (more + 1)).map (first + ·)

/-- What is known of a container: how many members it has, and how they are kept. -/
structure Bucket where
  size : Nat
  /-- Whether the members are kept as runs. -/
  asRuns : Bool
  deriving DecidableEq, Repr

namespace Bucket

/-- The most members that a container can have. -/
def capacity : Nat := 65536

/-- The most members that are kept as an array. -/
def maxArray : Nat := 4096

/-- Whether nothing more fits in. -/
def isFull (c : Bucket) : Bool := c.size = capacity

/-- Whether the members are kept as bits. -/
def isBits (c : Bucket) : Bool := !c.asRuns && maxArray < c.size

/-- Whether no other form takes less room than runs do. -/
def runsPay (members : List Nat) : Bool :=
  2 + 4 * (toRuns members).length ≤ min 8192 (2 + 2 * members.length)

/-- Whether the union of two containers is kept as runs, by its size and by whether runs pay for it.
A full container stays as it is, a full one of runs is taken over, and bits that fill up become one
run. -/
def joinedAsRuns (a b : Bucket) (size : Nat) (pay : Unit → Bool) : Bool :=
  if a.isFull then a.asRuns
  else if a.isBits then if b.isBits then size = capacity else b.isFull
  else if b.isBits then false
  else (a.asRuns || b.asRuns) && pay ()

/-- Whether the intersection of two containers is kept as runs, by whether runs pay for it. -/
def commonAsRuns (a b : Bucket) (_size : Nat) (pay : Unit → Bool) : Bool :=
  a.asRuns && b.asRuns && pay ()

/-- Whether a container is kept as runs after a last share of the given size has filled it up: if it
was kept as bits before, and the share as well. -/
def filledAsRuns (last : Nat) : Bool := maxArray < last && last + maxArray < capacity

end Bucket

end ShuffleService
