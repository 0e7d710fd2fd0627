/-!
# Ranges of partitions

A shuffle is placed on servers by ranges of its partitions; both ends belong to the range.
-/

namespace ShuffleService

/-- The partitions from `first` to `last`, both included. -/
structure PartitionRange where
  first : Int
  last : Int
  deriving DecidableEq, Repr

namespace PartitionRange

/-- Whether a partition belongs to a range. -/
def contains (r : PartitionRange) (partition : Int) : Bool :=
  r.first ≤ partition && partition ≤ r.last

instance : Membership Int PartitionRange := ⟨fun r p => r.first ≤ p ∧ p ≤ r.last⟩

theorem mem_def {r : PartitionRange} {p : Int} : p ∈ r ↔ r.first ≤ p ∧ p ≤ r.last := Iff.rfl

@[simp] theorem contains_iff {r : PartitionRange} {p : Int} : r.contains p = true ↔ p ∈ r := by
  simp [contains, mem_def]

/-- How many partitions a range holds, if its ends are in order. -/
def count (r : PartitionRange) : Int := r.last - r.first + 1

/-- The partitions of a range in ascending order. -/
def toList (r : PartitionRange) : List Int :=
  (List.range r.count.toNat).map fun i : Nat => r.first + i

@[simp] theorem mem_toList {r : PartitionRange} {p : Int} : p ∈ r.toList ↔ p ∈ r := by
  simp only [toList, count, List.mem_map, List.mem_range, mem_def]
  constructor
  · rintro ⟨i, hi, rfl⟩
    omega
  · intro h
    exact ⟨(p - r.first).toNat, by omega, by omega⟩

/-- The order of ranges: by the first partition, then by the last. -/
def le (r s : PartitionRange) : Bool :=
  r.first < s.first || (r.first = s.first && r.last ≤ s.last)

/-- A list of ranges in ascending order. -/
def sort (rs : List PartitionRange) : List PartitionRange := rs.mergeSort le

/-- The text of a range. -/
def text (r : PartitionRange) : String := s!"PartitionRange[{r.first}, {r.last}]"

end PartitionRange

end ShuffleService
