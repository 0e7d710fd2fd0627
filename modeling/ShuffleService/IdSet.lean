import ShuffleService.Ascending
import ShuffleService.Word

/-!
# Sets of 64-bit ids

A set of block ids or of task attempts, held as the ascending array of its members. Ids are words of
64 bits in their unsigned reading; `IdSet.key` is the member that a signed id stands for.

Each operation is pinned down by its members: `mem_ofList`, `mem_union`, `mem_unionAll`, `mem_inter`,
`mem_diff`, `mem_filter`, `mem_insert`, `mem_erase`. Two sets with the same members are equal (`ext`).
-/

namespace ShuffleService

open scoped PlainNumbers

/-- A finite set of 64-bit words, as the ascending array of its members. -/
structure IdSet where
  toArray : Array Nat
  ascending : toArray.toList.Pairwise (· < ·)
  bounded : ∀ x ∈ toArray.toList, x < 2 ^ (64 : Nat)
  deriving DecidableEq

namespace IdSet

/-- The member that a signed id stands for. -/
def key (id : Int) : Nat := unsigned 64 id

/-- The signed id that a member stands for. -/
def idOf (x : Nat) : Int := signed 64 x

theorem key_lt (id : Int) : key id < 2 ^ (64 : Nat) := unsigned_lt 64 id

/-- The members in ascending order. -/
def toList (s : IdSet) : List Nat := s.toArray.toList

theorem pairwise_toList (s : IdSet) : s.toList.Pairwise (· < ·) := s.ascending

theorem nodup (s : IdSet) : s.toList.Nodup := s.ascending.imp (fun h => Nat.ne_of_lt h)

instance : Membership Nat IdSet := ⟨fun s x => x ∈ s.toList⟩

@[simp] theorem mem_toList {s : IdSet} {x : Nat} : x ∈ s.toList ↔ x ∈ s := Iff.rfl

theorem lt_of_mem {s : IdSet} {x : Nat} (h : x ∈ s) : x < 2 ^ (64 : Nat) := s.bounded x h

/-- Sets with the same members are equal. -/
theorem ext {s t : IdSet} (h : ∀ x, x ∈ s ↔ x ∈ t) : s = t := by
  have hl : s.toArray.toList = t.toArray.toList := eq_of_ascending s.ascending t.ascending h
  cases s with
  | mk xs hx bx =>
    cases t with
    | mk ys hy b =>
      obtain rfl : xs = ys := Array.toList_inj.1 hl
      rfl

/-- The number of members. -/
def card (s : IdSet) : Nat := s.toArray.size

@[simp] theorem length_toList (s : IdSet) : s.toList.length = s.card := rfl

/-- Whether there is no member. -/
def isEmpty (s : IdSet) : Bool := s.toArray.isEmpty

/-- The set without members. -/
def empty : IdSet := ⟨#[], .nil, by simp⟩

instance : EmptyCollection IdSet := ⟨empty⟩

instance : Inhabited IdSet := ⟨∅⟩

@[simp] theorem toList_empty : (∅ : IdSet).toList = [] := rfl

@[simp] theorem not_mem_empty (x : Nat) : x ∉ (∅ : IdSet) := List.not_mem_nil

theorem isEmpty_iff {s : IdSet} : s.isEmpty = true ↔ s = ∅ := by
  constructor
  · intro h
    have : s.toList = [] := by simpa [isEmpty, toList] using h
    exact ext fun x => by simp [← mem_toList, this]
  · rintro rfl
    rfl

/-! ### Looking up -/

/-- How many members are below a number. -/
def countBelow (s : IdSet) (x : Nat) : Nat := placeIn s.toArray x 0 s.toArray.size

/-- The members below a number come before the place that is their number, all others from it on. -/
theorem countBelow_spec (s : IdSet) (x : Nat) {k : Nat} (h : k < s.toArray.size) :
    (k < s.countBelow x → s.toArray[k] < x) ∧ (s.countBelow x ≤ k → x ≤ s.toArray[k]) :=
  placeIn_spec s.ascending (fun _ _ h => absurd h (Nat.not_lt_zero _))
    (fun _ h h' => absurd h (Nat.not_lt.2 h')) k h

theorem mem_iff_getElem {s : IdSet} {x : Nat} : x ∈ s ↔ ∃ k, ∃ h : k < s.toArray.size,
    s.toArray[k] = x := by
  rw [← mem_toList, toList, Array.mem_toList_iff, Array.mem_iff_getElem]

/-- Whether there is a member from `lo` on and below `hi`. -/
def meets (s : IdSet) (lo hi : Nat) : Bool := (s.toArray[s.countBelow lo]?).any (· < hi)

theorem meets_iff {s : IdSet} {lo hi : Nat} :
    s.meets lo hi = true ↔ ∃ x ∈ s, lo ≤ x ∧ x < hi := by
  constructor
  · intro h
    cases hx : s.toArray[s.countBelow lo]? with
    | none => simp [meets, hx] at h
    | some x =>
      obtain ⟨hk, hx'⟩ := Array.getElem?_eq_some_iff.1 hx
      refine ⟨x, mem_iff_getElem.2 ⟨_, hk, hx'⟩, ?_, by simpa [meets, hx] using h⟩
      have := (s.countBelow_spec lo hk).2 (Nat.le_refl _)
      omega
  · rintro ⟨x, hx, hlo, hhi⟩
    obtain ⟨k, hk, rfl⟩ := mem_iff_getElem.1 hx
    have hp : s.countBelow lo ≤ k := by
      apply Decidable.byContradiction
      intro hlt
      have := (s.countBelow_spec lo hk).1 (by omega)
      omega
    have hp' : s.countBelow lo < s.toArray.size := by omega
    have hle : s.toArray[s.countBelow lo] ≤ s.toArray[k] := by
      rcases Nat.lt_or_eq_of_le hp with hlt | heq
      · have := List.pairwise_iff_getElem.1 s.ascending _ k (by simpa using hp') (by simpa using hk)
          hlt
        exact Nat.le_of_lt (by simpa using this)
      · simp [heq]
    simp only [meets, Array.getElem?_eq_getElem hp', Option.any_some, decide_eq_true_iff]
    omega

/-- Whether a number is a member. -/
def contains (s : IdSet) (x : Nat) : Bool := s.meets x (x + 1)

@[simp] theorem contains_iff {s : IdSet} {x : Nat} : s.contains x = true ↔ x ∈ s := by
  rw [contains, meets_iff]
  constructor
  · rintro ⟨y, hy, h1, h2⟩
    obtain rfl : x = y := by omega
    exact hy
  · exact fun h => ⟨x, h, Nat.le_refl x, Nat.lt_succ_self x⟩

instance (x : Nat) (s : IdSet) : Decidable (x ∈ s) := decidable_of_iff _ contains_iff

/-- The number of members from `lo` on and below `hi`. -/
def sizeWithin (s : IdSet) (lo hi : Nat) : Nat := s.countBelow hi - s.countBelow lo

/-- The members from `lo` on and below `hi`. -/
def within (s : IdSet) (lo hi : Nat) : List Nat :=
  (s.toArray.extract (s.countBelow lo) (s.countBelow hi)).toList

/-! ### Building sets -/

/-- The set of the given words. -/
def ofList (xs : List Nat) : IdSet where
  toArray := (sortDistinct (xs.map (lowBits 64))).toArray
  ascending := pairwise_sortDistinct _
  bounded x hx := by
    rw [mem_sortDistinct, List.mem_map] at hx
    obtain ⟨y, -, rfl⟩ := hx
    rw [lowBits_eq]
    exact Nat.mod_lt _ (by decide)

theorem mem_ofList {x : Nat} {xs : List Nat} : x ∈ ofList xs ↔ ∃ y ∈ xs, y % 2 ^ (64 : Nat) = x := by
  simp [← mem_toList, ofList, toList, lowBits_eq]

/-- The set of the words that signed ids stand for. -/
def ofIds (ids : List Int) : IdSet := ofList (ids.map key)

@[simp] theorem mem_ofIds {x : Nat} {ids : List Int} : x ∈ ofIds ids ↔ ∃ id ∈ ids, key id = x := by
  rw [ofIds, mem_ofList]
  constructor
  · rintro ⟨y, hy, rfl⟩
    obtain ⟨id, hid, rfl⟩ := List.mem_map.1 hy
    exact ⟨id, hid, (Nat.mod_eq_of_lt (key_lt id)).symm⟩
  · rintro ⟨id, hid, rfl⟩
    exact ⟨key id, List.mem_map_of_mem hid, Nat.mod_eq_of_lt (key_lt id)⟩

/-- The members of either set. -/
def union (s t : IdSet) : IdSet where
  toArray := mergeFrom s.toArray t.toArray 0 0 #[]
  ascending := by
    rw [toList_mergeFrom]
    simpa using pairwise_mergeAscending s.ascending t.ascending
  bounded x hx := by
    rw [toList_mergeFrom] at hx
    have hx : x ∈ s.toArray.toList ∨ x ∈ t.toArray.toList := by simpa using hx
    exact hx.elim (s.bounded x) (t.bounded x)

@[simp] theorem mem_union {x : Nat} {s t : IdSet} : x ∈ s.union t ↔ x ∈ s ∨ x ∈ t := by
  rw [← mem_toList, toList, union, toList_mergeFrom]
  simp [← mem_toList, toList]

/-- The members of any of the sets. Halves are joined first, so that each member is moved only a few
times. -/
def unionAll (sets : List IdSet) : IdSet :=
  match sets with
  | [] => ∅
  | [s] => s
  | s :: t :: rest =>
    let half := (rest.length + 2) / 2
    (unionAll ((s :: t :: rest).take half)).union (unionAll ((s :: t :: rest).drop half))
termination_by sets.length
decreasing_by
  · simp only [List.length_take, List.length_cons]
    omega
  · simp only [List.length_drop, List.length_cons]
    omega

@[simp] theorem mem_unionAll {x : Nat} {sets : List IdSet} : x ∈ unionAll sets ↔ ∃ s ∈ sets, x ∈ s := by
  fun_induction unionAll sets with
  | case1 => simp
  | case2 => simp
  | case3 s t rest half ih1 ih2 =>
    rw [mem_union, ih1, ih2]
    conv => rhs; rw [← List.take_append_drop half (s :: t :: rest)]
    simp only [List.mem_append]
    constructor
    · rintro (⟨u, hu, hx⟩ | ⟨u, hu, hx⟩)
      · exact ⟨u, .inl hu, hx⟩
      · exact ⟨u, .inr hu, hx⟩
    · rintro ⟨u, hu | hu, hx⟩
      · exact .inl ⟨u, hu, hx⟩
      · exact .inr ⟨u, hu, hx⟩

/-- The members that pass a test. -/
def filter (s : IdSet) (keep : Nat → Bool) : IdSet where
  toArray := s.toArray.filter keep
  ascending := by
    rw [Array.toList_filter]
    exact s.ascending.filter keep
  bounded x hx := by
    rw [Array.toList_filter] at hx
    exact s.bounded x (List.mem_filter.1 hx).1

@[simp] theorem mem_filter {x : Nat} {s : IdSet} {keep : Nat → Bool} :
    x ∈ s.filter keep ↔ x ∈ s ∧ keep x = true := by
  rw [← mem_toList, toList, filter, Array.toList_filter, List.mem_filter]
  rfl

/-- The members of both sets. -/
def inter (s t : IdSet) : IdSet := s.filter t.contains

@[simp] theorem mem_inter {x : Nat} {s t : IdSet} : x ∈ s.inter t ↔ x ∈ s ∧ x ∈ t := by
  simp [inter]

/-- The members of the first set that the second lacks. -/
def diff (s t : IdSet) : IdSet := s.filter (!t.contains ·)

@[simp] theorem mem_diff {x : Nat} {s t : IdSet} : x ∈ s.diff t ↔ x ∈ s ∧ x ∉ t := by
  rw [diff, mem_filter, Bool.not_eq_true', Bool.eq_false_iff, Ne, contains_iff]

/-- One more member. -/
def insert (s : IdSet) (x : Nat) : IdSet := if s.contains x then s else s.union (ofList [x])

theorem mem_insert {x y : Nat} {s : IdSet} (h : y < 2 ^ (64 : Nat)) :
    x ∈ s.insert y ↔ x = y ∨ x ∈ s := by
  have hy (z : Nat) : z ∈ ofList [y] ↔ z = y := by
    rw [mem_ofList]
    constructor
    · rintro ⟨w, hw, rfl⟩
      rw [List.mem_singleton.1 hw, Nat.mod_eq_of_lt h]
    · rintro rfl
      exact ⟨z, List.mem_singleton_self z, Nat.mod_eq_of_lt h⟩
  unfold insert
  split
  · rename_i hc
    rw [contains_iff] at hc
    constructor
    · exact .inr
    · rintro (rfl | hx)
      · exact hc
      · exact hx
  · rw [mem_union, hy, or_comm]

/-- One member less. -/
def erase (s : IdSet) (x : Nat) : IdSet := s.filter (· != x)

@[simp] theorem mem_erase {x y : Nat} {s : IdSet} : x ∈ s.erase y ↔ x ∈ s ∧ x ≠ y := by
  simp [erase]

end IdSet

end ShuffleService
