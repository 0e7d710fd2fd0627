import Mathlib.Algebra.Order.Ring.Int
import ShuffleService.Table
import ShuffleService.Word

/-!
# Sums over a table

A number that is summed up over all values of a table (`Table.total`) goes along with each change
of the table: what is said here for `insert`, `erase`, `filter` and `mapValues` is what keeps a
counter right that is changed step by step.
-/

namespace ShuffleService.Table

variable {κ ν : Type} {t : Table κ ν} {k : κ} {v : ν} {f g : ν → Nat}

/-- The sum of a number over all values. -/
def total (t : Table κ ν) (f : ν → Nat) : Nat := (t.values.map f).sum

theorem total_one : (t.total fun _ => 1) = t.size := by
  unfold total values size
  rw [List.map_map]
  induction t.entries with
  | nil => rfl
  | cons e es ih => rw [List.map_cons, List.sum_cons, ih, List.length_cons, Nat.add_comm]; rfl

theorem total_mapValues {h : ν → ν} : (t.mapValues h).total f = t.total fun v => f (h v) := by
  simp [total, values, mapValues, Function.comp_def]

/-- A test cuts a sum into two. -/
theorem total_filter (keep : κ → ν → Bool) :
    (t.filter keep).total f + (t.filter fun k v => !keep k v).total f = t.total f := by
  unfold total values filter
  simp only [List.map_map]
  induction t.entries with
  | nil => rfl
  | cons e es ih => cases hkeep : keep e.1 e.2 <;> simp [hkeep] <;> omega

/-- A test cuts a table into two. -/
theorem size_filter (keep : κ → ν → Bool) :
    (t.filter keep).size + (t.filter fun k v => !keep k v).size = t.size := by
  rw [← total_one, ← total_one, ← total_one]
  exact total_filter keep

variable [DecidableEq κ]

theorem total_congr (h : ∀ k v, t.find? k = some v → f v = g v) : t.total f = t.total g := by
  unfold total values
  rw [List.map_map, List.map_map]
  congr 1
  refine List.map_congr_left fun e he => h e.1 e.2 ?_
  exact find?_eq_some_iff.2 he

/-- The value of a key makes a sum of its own. -/
theorem total_filter_key : (t.filter fun j _ => j = k).total f = ((t.find? k).map f).getD 0 := by
  obtain ⟨es, hnodup⟩ := t
  unfold total values filter find?
  simp only
  induction es with
  | nil => rfl
  | cons e es ih =>
    rw [List.map_cons, List.nodup_cons] at hnodup
    by_cases hk : e.1 = k
    · have hnone : es.filter (fun e => e.1 = k) = [] := by
        rw [List.filter_eq_nil_iff]
        intro e' he' hk'
        exact hnodup.1 (hk ▸ of_decide_eq_true hk' ▸ List.mem_map_of_mem he')
      simp [hk, hnone]
    · simpa [hk] using ih hnodup.2

theorem total_erase : (t.erase k).total f + ((t.find? k).map f).getD 0 = t.total f := by
  unfold erase contains
  cases hfind : t.find? k with
  | none => rfl
  | some v =>
    have hcut := total_filter (t := t) (f := f) fun j _ => j = k
    rw [total_filter_key, hfind] at hcut
    rw [Nat.add_comm, ← hcut]
    simp

theorem total_insert :
    (t.insert k v).total f + ((t.find? k).map f).getD 0 = t.total f + f v := by
  have h := total_erase (t := t) (k := k) (f := f)
  have hnew : (t.insert k v).total f = f v + (t.erase k).total f := rfl
  omega

theorem size_insert : (t.insert k v).size = if t.contains k then t.size else t.size + 1 := by
  have h := total_insert (t := t) (k := k) (v := v) (f := fun _ => 1)
  rw [total_one, total_one] at h
  unfold contains
  cases hfind : t.find? k <;> simp [hfind] at h ⊢ <;> omega

end ShuffleService.Table
