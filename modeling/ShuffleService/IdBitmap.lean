import ShuffleService.IdBitmap.Bucket
import ShuffleService.IdSet

/-!
# Id sets in their stored form

In its stored form a set is a table of bitmaps: the members with the same 32 high bits share one
bitmap, and within it the members with the same 48 high bits share one container. Besides the
members, a table remembers two things:

* `hollow`: high halves under which an empty bitmap was read. Such an entry adds no member, but it
  is written again, it tells two tables apart, and no walk over the members gets past it;
* `runs`: the containers that are kept as runs. They are written as runs.
-/

namespace ShuffleService

open scoped PlainNumbers

/-- The high half of a member: the key of the bitmap that holds it. -/
def highOf (x : Nat) : Nat := x / 2 ^ (32 : Nat)

/-- The 48 high bits of a member: the key of the container that holds it. -/
def containerOf (x : Nat) : Nat := x / 2 ^ (16 : Nat)

/-- A set of ids in its stored form. -/
structure IdBitmap where
  set : IdSet
  hollow : List Nat
  runs : List Nat
  hollow_ascending : hollow.Pairwise (· < ·)
  hollow_bounded : ∀ h ∈ hollow, h < 2 ^ (32 : Nat)
  hollow_unused : ∀ x ∈ set, highOf x ∉ hollow

namespace IdBitmap

/-- A table of the given members, with empty bitmaps under those of the given high halves that have
no member. Of the given containers, those that have a member are kept as runs. -/
def assemble (set : IdSet) (hollow runs : List Nat) : IdBitmap where
  set := set
  hollow := (sortDistinct (hollow.map (· % 2 ^ (32 : Nat)))).filter
    fun h => !set.meets (h * 2 ^ (32 : Nat)) ((h + 1) * 2 ^ (32 : Nat))
  runs := runs.filter fun k => set.meets (k * 2 ^ (16 : Nat)) ((k + 1) * 2 ^ (16 : Nat))
  hollow_ascending := (pairwise_sortDistinct _).filter _
  hollow_bounded h hh := by
    have hm := (List.mem_filter.1 hh).1
    rw [mem_sortDistinct, List.mem_map] at hm
    obtain ⟨y, -, rfl⟩ := hm
    exact Nat.mod_lt _ (by decide)
  hollow_unused x hx hh := by
    have hnone : (!set.meets (highOf x * 2 ^ (32 : Nat)) ((highOf x + 1) * 2 ^ (32 : Nat))) = true :=
      (List.mem_filter.1 hh).2
    have hmeets : set.meets (highOf x * 2 ^ (32 : Nat)) ((highOf x + 1) * 2 ^ (32 : Nat)) = true :=
      IdSet.meets_iff.2 ⟨x, hx, by unfold highOf; omega, by unfold highOf; omega⟩
    rw [hmeets] at hnone
    exact absurd hnone (by decide)

@[simp] theorem set_assemble (s : IdSet) (hollow runs : List Nat) :
    (assemble s hollow runs).set = s := rfl

/-- The stored form of a set that was never read. -/
def ofSet (s : IdSet) : IdBitmap where
  set := s
  hollow := []
  runs := []
  hollow_ascending := pairwise_nil
  hollow_bounded := List.forall_mem_nil _
  hollow_unused _ _ := List.not_mem_nil

@[simp] theorem set_ofSet (s : IdSet) : (ofSet s).set = s := rfl

instance : EmptyCollection IdBitmap := ⟨ofSet ∅⟩

instance : Inhabited IdBitmap := ⟨∅⟩

/-- Whether two tables hold the same, however their containers are kept. -/
def same (a b : IdBitmap) : Bool := a.set = b.set && a.hollow = b.hollow

/-- The members, one after the other. No walk gets past an empty bitmap. -/
def walk? (b : IdBitmap) : Option IdSet := if b.hollow = [] then some b.set else none

theorem walk?_eq_some_iff {b : IdBitmap} {s : IdSet} :
    b.walk? = some s ↔ b.hollow = [] ∧ b.set = s := by
  simp [walk?]

/-- The short text that stands for a table where its members would be too many. -/
def text (b : IdBitmap) : String := s!"BitSet64(cardinality={b.set.card})"

/-! ### How containers are kept -/

/-- What is known of a container, if there is one with the given key. -/
def bucket? (b : IdBitmap) (key : Nat) : Option Bucket :=
  let size := b.set.sizeWithin (key * 2 ^ (16 : Nat)) ((key + 1) * 2 ^ (16 : Nat))
  if size = 0 then none else some ⟨size, b.runs.contains key⟩

/-- The keys of the full containers of a set. -/
def fullContainers (s : IdSet) : List Nat :=
  ((s.filter (· % 2 ^ (16 : Nat) = 0)).toList.filter fun x =>
    s.sizeWithin x (x + 2 ^ (16 : Nat)) = Bucket.capacity).map containerOf

/-- The containers of `result` that are kept as runs, if it came from two tables: a container of one
side only is taken over as it is, and a rule decides for one of both sides. Only a container that has
runs on one side, or one that is full, can come out as runs. -/
def mergedRuns (rule : Bucket → Bucket → Nat → (Unit → Bool) → Bool) (a b : IdBitmap)
    (result : IdSet) : List Nat :=
  (sortDistinct (a.runs ++ b.runs ++ fullContainers result)).filter fun key =>
    match a.bucket? key, b.bucket? key with
    | some x, some y =>
      let lo := key * 2 ^ (16 : Nat)
      let hi := (key + 1) * 2 ^ (16 : Nat)
      rule x y (result.sizeWithin lo hi) fun _ => Bucket.runsPay (result.within lo hi)
    | some x, none => x.asRuns
    | none, some y => y.asRuns
    | none, none => false

/-- The table that comes of joining disjoint sets one after the other, none of which was read. A
container is kept as runs if it is full and the last set with a share of it has filled it so. -/
def ofShares (shares : List IdSet) : IdBitmap :=
  let shares := shares.filter (!·.isEmpty)
  let whole := IdSet.unionAll shares
  { ofSet whole with
    runs := (fullContainers whole).filter fun key =>
      let sizes := shares.map (·.sizeWithin (key * 2 ^ (16 : Nat)) ((key + 1) * 2 ^ (16 : Nat)))
      Bucket.filledAsRuns (((sizes.filter (0 < ·)).getLast?).getD 0) }

@[simp] theorem mem_ofShares {x : Nat} {shares : List IdSet} :
    x ∈ (ofShares shares).set ↔ ∃ s ∈ shares, x ∈ s := by
  refine IdSet.mem_unionAll.trans ⟨?_, ?_⟩
  · rintro ⟨s, hs, hx⟩
    exact ⟨s, (List.mem_filter.1 hs).1, hx⟩
  · rintro ⟨s, hs, hx⟩
    refine ⟨s, List.mem_filter.2 ⟨hs, ?_⟩, hx⟩
    rw [Bool.not_eq_true', Bool.eq_false_iff, Ne, IdSet.isEmpty_iff]
    rintro rfl
    exact IdSet.not_mem_empty x hx

/-! ### Operations -/

/-- Add members. -/
def insertAll (b : IdBitmap) (s : IdSet) : IdBitmap := assemble (b.set.union s) b.hollow b.runs

/-- Remove a member. An empty bitmap that could have held it goes as well. -/
def erase (b : IdBitmap) (x : Nat) : IdBitmap :=
  assemble (b.set.erase x) (b.hollow.filter (· != highOf x)) b.runs

/-- Keep the members that pass a test, walking over all of them. -/
def retain? (b : IdBitmap) (keep : Nat → Bool) : Option IdBitmap :=
  b.walk?.map fun s => assemble (s.filter keep) [] b.runs

/-- All members and empty bitmaps of two tables. -/
def union (a b : IdBitmap) : IdBitmap :=
  let joined := a.set.union b.set
  assemble joined (a.hollow ++ b.hollow) (mergedRuns Bucket.joinedAsRuns a b joined)

/-- The members of both tables. No empty bitmap is left. -/
def inter (a b : IdBitmap) : IdBitmap :=
  let common := a.set.inter b.set
  assemble common [] (mergedRuns Bucket.commonAsRuns a b common)

@[simp] theorem set_union (a b : IdBitmap) : (a.union b).set = a.set.union b.set := rfl

end IdBitmap

end ShuffleService
