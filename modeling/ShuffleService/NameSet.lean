/-!
# Sets of names

A set of names is the list of its members, each once and in order. Names are ordered by their
characters' code points.
-/

namespace ShuffleService

/-- Put names in order. -/
def sortNames (names : List String) : List String := names.mergeSort (· ≤ ·)

/-- A finite set of names. -/
structure NameSet where
  toList : List String
  deriving DecidableEq, Repr

namespace NameSet

instance : Membership String NameSet := ⟨fun s x => x ∈ s.toList⟩

@[simp] theorem mem_toList {s : NameSet} {x : String} : x ∈ s.toList ↔ x ∈ s := Iff.rfl

instance (x : String) (s : NameSet) : Decidable (x ∈ s) :=
  inferInstanceAs (Decidable (x ∈ s.toList))

instance : EmptyCollection NameSet := ⟨⟨[]⟩⟩

instance : Inhabited NameSet := ⟨∅⟩

@[simp] theorem not_mem_empty (x : String) : x ∉ (∅ : NameSet) := List.not_mem_nil

/-- Whether there is no member. -/
def isEmpty (s : NameSet) : Bool := s.toList.isEmpty

/-- The number of members. -/
def size (s : NameSet) : Nat := s.toList.length

/-- The set of the given names. -/
def ofList (names : List String) : NameSet := ⟨sortNames names.eraseDups⟩

@[simp] theorem mem_ofList {x : String} {names : List String} : x ∈ ofList names ↔ x ∈ names := by
  simp [← mem_toList, ofList, sortNames]

/-- One more member. -/
def insert (s : NameSet) (x : String) : NameSet := ofList (x :: s.toList)

@[simp] theorem mem_insert {x y : String} {s : NameSet} : x ∈ s.insert y ↔ x = y ∨ x ∈ s := by
  simp [insert]

/-- One member less. -/
def erase (s : NameSet) (x : String) : NameSet := ⟨s.toList.filter (· != x)⟩

@[simp] theorem mem_erase {x y : String} {s : NameSet} : x ∈ s.erase y ↔ x ∈ s ∧ x ≠ y := by
  simp [← mem_toList, erase]

/-- The members of the first set that the second lacks. -/
def diff (s t : NameSet) : NameSet := ⟨s.toList.filter (· ∉ t)⟩

@[simp] theorem mem_diff {x : String} {s t : NameSet} : x ∈ s.diff t ↔ x ∈ s ∧ x ∉ t := by
  simp [← mem_toList, diff]

/-- Whether every member of the first set is one of the second. -/
def subset (s t : NameSet) : Bool := s.toList.all (· ∈ t)

@[simp] theorem subset_iff {s t : NameSet} : s.subset t = true ↔ ∀ x ∈ s, x ∈ t := by
  simp [subset]

end NameSet

end ShuffleService
