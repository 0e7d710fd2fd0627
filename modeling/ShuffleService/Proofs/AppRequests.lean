import ShuffleService.App
import ShuffleService.Proofs.TrackedIds

/-!
# What requests and purges do to an app

An app keeps the shuffles it has registered in one table and the block ids in another. Each
operation is described here by what it does to both. The ranges of a shuffle stay in strictly
ascending order (`mergeRanges_spec`).
-/

namespace ShuffleService

namespace PartitionRange

/-- The strict order of ranges: by the first partition, then by the last. -/
def Before (r s : PartitionRange) : Prop :=
  r.first < s.first ∨ r.first = s.first ∧ r.last < s.last

theorem Before.ne {r s : PartitionRange} (h : r.Before s) : r ≠ s := by
  rintro rfl
  unfold Before at h
  omega

theorem before_of_le_of_ne {r s : PartitionRange} (hle : r.le s = true) (hne : r ≠ s) :
    r.Before s := by
  obtain ⟨a, b⟩ := r
  obtain ⟨c, d⟩ := s
  simp only [le, Bool.or_eq_true, Bool.and_eq_true, decide_eq_true_eq] at hle
  simp only [ne_eq, mk.injEq, not_and] at hne
  unfold Before
  dsimp only
  rcases hle with h | ⟨rfl, h⟩
  · exact .inl h
  · have := hne rfl
    exact .inr ⟨rfl, by omega⟩

@[simp] theorem mem_sort {r : PartitionRange} {rs : List PartitionRange} : r ∈ sort rs ↔ r ∈ rs :=
  List.mem_mergeSort

/-- Sorting distinct ranges puts them in strictly ascending order. -/
theorem pairwise_sort {rs : List PartitionRange} (h : rs.Nodup) : (sort rs).Pairwise Before := by
  have hsorted : (sort rs).Pairwise (fun r s => r.le s = true) := by
    apply List.pairwise_mergeSort
    · intro a b c hab hbc
      simp only [le, Bool.or_eq_true, Bool.and_eq_true, decide_eq_true_eq] at *
      omega
    · intro a b
      simp only [le, Bool.or_eq_true, Bool.and_eq_true, decide_eq_true_eq]
      omega
  have hnodup : (sort rs).Nodup := (List.mergeSort_perm rs le).nodup_iff.2 h
  exact (hsorted.and hnodup).imp fun ⟨hle, hne⟩ => before_of_le_of_ne hle hne

end PartitionRange

namespace App

variable {a : App} {now : Nat} {s shuffle task bitmaps : Int}

/-! ### Ranges -/

/-- Merging adds the ranges that are not there yet, once each. -/
theorem mergeRanges_spec {known : List PartitionRange} (h : known.Nodup)
    (more : List PartitionRange) :
    (mergeRanges known more).Pairwise PartitionRange.Before ∧
      ∀ g, g ∈ mergeRanges known more ↔ g ∈ known ∨ g ∈ more := by
  suffices hfold : (more.foldl (fun rs r => if r ∈ rs then rs else rs ++ [r]) known).Nodup ∧
      ∀ g, g ∈ more.foldl (fun rs r => if r ∈ rs then rs else rs ++ [r]) known ↔
        g ∈ known ∨ g ∈ more by
    exact ⟨PartitionRange.pairwise_sort hfold.1, fun g => by
      rw [mergeRanges, PartitionRange.mem_sort, hfold.2]⟩
  induction more generalizing known with
  | nil => exact ⟨h, fun g => by simp⟩
  | cons r more ih =>
    rw [List.foldl_cons]
    by_cases hr : r ∈ known
    · rw [if_pos hr]
      obtain ⟨hnodup, hmem⟩ := ih h
      refine ⟨hnodup, fun g => ?_⟩
      rw [hmem, List.mem_cons]
      grind
    · rw [if_neg hr]
      have hmore : (known ++ [r]).Nodup := by
        rw [List.nodup_append]
        refine ⟨h, by simp, ?_⟩
        intro g hg r' hr'
        rw [List.mem_singleton] at hr'
        rintro rfl
        exact hr (hr' ▸ hg)
      obtain ⟨hnodup, hmem⟩ := ih hmore
      refine ⟨hnodup, fun g => ?_⟩
      rw [hmem, List.mem_append, List.mem_singleton, List.mem_cons, or_assoc]

theorem isRegistered_eq (a : App) (s : Int) : a.isRegistered s = (a.ranges? s).isSome := rfl

/-! ### Operations -/

theorem ranges?_register {ranges : List PartitionRange} :
    (a.register now shuffle ranges).ranges? s =
      if s = shuffle then some (mergeRanges ((a.ranges? shuffle).getD []) ranges)
      else a.ranges? s :=
  Table.find?_insert

/-- A report is refused for its number of bitmaps and for nothing else. One that is accepted
registers the shuffle and adds the ids. -/
theorem report_eq {ids : BlockIdTracker.Report} :
    a.report now shuffle task bitmaps ids =
      if bitmaps ≤ 0 then
        .error (.invalidArgument s!"Illegal bitmap number: {bitmaps} reported by task: {task}")
      else
        .ok ({ a.heartbeat now with
          shuffles := a.shuffles.insert shuffle ((a.ranges? shuffle).getD [])
          tracker := (a.tracker.reportAll shuffle bitmaps.toNat ids).1 },
          (a.tracker.reportAll shuffle bitmaps.toNat ids).2) := by
  unfold report
  split
  · rfl
  · rename_i hpos
    have hcount : bitmaps.toNat ≠ 0 := by omega
    rw [BlockIdTracker.report, if_neg hcount]
    rfl

/-- What an accepted report changes besides the shuffles, and what it returns. -/
theorem of_report {ids : BlockIdTracker.Report} {b : App} {added : Nat}
    (h : a.report now shuffle task bitmaps ids = .ok (b, added)) :
    b.name = a.name ∧ b.expiryNotified = a.expiryNotified ∧
      (b.tracker, added) = a.tracker.reportAll shuffle bitmaps.toNat ids := by
  rw [report_eq] at h
  split at h
  · cases h
  · cases h
    exact ⟨rfl, rfl, rfl⟩

/-- A query is a heartbeat, and is answered if the shuffle is registered. -/
theorem query_eq {answer : BlockIdTracker → IdBitmap} :
    a.query now shuffle answer =
      (if a.isRegistered shuffle then .ok (answer a.tracker)
        else .error (.shuffleNotFound a.name shuffle), a.heartbeat now) := by
  have hsame : (a.heartbeat now).isRegistered shuffle = a.isRegistered shuffle := rfl
  unfold query
  dsimp only
  rw [hsame]
  split <;> rfl

/-- A query is a heartbeat, whatever it answers. -/
theorem snd_query (a : App) (now : Nat) (shuffle : Int) (answer : BlockIdTracker → IdBitmap) :
    (a.query now shuffle answer).2 = a.heartbeat now :=
  congrArg Prod.snd query_eq

/-- The purge of a shuffle takes the shuffle and its ids, and leaves the others. -/
theorem purge_shuffle {app : String} :
    (a.purge (.shuffleUnregistered app shuffle)).1 =
      { a with
        shuffles := a.shuffles.erase shuffle
        tracker := (a.tracker.purgeWhere (·.1 = shuffle)).1 } :=
  rfl

end App

end ShuffleService
