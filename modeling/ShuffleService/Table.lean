/-!
# Tables

A finite map as a list of entries with distinct keys. The order of the entries means nothing.

`find?` is the view of a table: `find?_insert`, `find?_erase`, `find?_filter` and `find?_mapValues`
say what each operation does to it.
-/

namespace ShuffleService

/-- A finite map from keys to values. -/
structure Table (κ ν : Type) where
  entries : List (κ × ν)
  nodup : (entries.map (·.1)).Nodup

namespace Table

variable {κ ν : Type}

/-- The table without entries. -/
def empty : Table κ ν := ⟨[], .nil⟩

instance : EmptyCollection (Table κ ν) := ⟨empty⟩

instance : Inhabited (Table κ ν) := ⟨∅⟩

/-- The keys that have a value. -/
def keys (t : Table κ ν) : List κ := t.entries.map (·.1)

/-- The values. -/
def values (t : Table κ ν) : List ν := t.entries.map (·.2)

/-- The number of entries. -/
def size (t : Table κ ν) : Nat := t.entries.length

/-- Keep the entries that pass a test. -/
def filter (t : Table κ ν) (keep : κ → ν → Bool) : Table κ ν where
  entries := t.entries.filter fun e => keep e.1 e.2
  nodup := (List.filter_sublist.map _).nodup t.nodup

/-- Change every value. -/
def mapValues (t : Table κ ν) (f : ν → ν) : Table κ ν where
  entries := t.entries.map fun e => (e.1, f e.2)
  nodup := by
    rw [List.map_map]
    exact t.nodup

@[simp] theorem size_empty : (∅ : Table κ ν).size = 0 := rfl

variable [DecidableEq κ]

/-- The value of a key. -/
def find? (t : Table κ ν) (k : κ) : Option ν := (t.entries.find? (·.1 = k)).map (·.2)

/-- Whether a key has a value. -/
def contains (t : Table κ ν) (k : κ) : Bool := (t.find? k).isSome

/-- Remove a key. A table without it stays as it is. -/
def erase (t : Table κ ν) (k : κ) : Table κ ν :=
  if t.contains k then t.filter fun j _ => j ≠ k else t

/-- Give a key a value. -/
def insert (t : Table κ ν) (k : κ) (v : ν) : Table κ ν where
  entries := (k, v) :: (t.erase k).entries
  nodup := by
    rw [List.map_cons, List.nodup_cons]
    refine ⟨?_, (t.erase k).nodup⟩
    unfold erase
    split
    · simp [filter]
    · rename_i h
      simpa [contains, find?] using h

/-- Change the value of a key, if it has one. -/
def modify (t : Table κ ν) (k : κ) (f : ν → ν) : Table κ ν :=
  match t.find? k with
  | some v => t.insert k (f v)
  | none => t

@[simp] theorem find?_empty (k : κ) : (∅ : Table κ ν).find? k = none := rfl

/-- The value of a key is the one of its entry. -/
theorem find?_eq_some_iff {t : Table κ ν} {k : κ} {v : ν} :
    t.find? k = some v ↔ (k, v) ∈ t.entries := by
  obtain ⟨es, h⟩ := t
  unfold find?
  simp only
  induction es with
  | nil => simp
  | cons e es ih =>
    obtain ⟨j, w⟩ := e
    rw [List.map_cons, List.nodup_cons] at h
    by_cases hj : j = k
    · subst hj
      simp only [List.find?_cons, decide_true, Option.map_some, List.mem_cons, Prod.mk.injEq,
        true_and, Option.some.injEq]
      constructor
      · exact fun hw => .inl hw.symm
      · rintro (hw | hm)
        · exact hw.symm
        · exact absurd (List.mem_map_of_mem hm) h.1
    · simp only [List.find?_cons, hj, decide_false, List.mem_cons, Prod.mk.injEq]
      rw [ih h.2]
      simp [Ne.symm hj]

/-- What holds of all entries holds of all keys that have a value. -/
theorem forall_mem_entries {t : Table κ ν} {p : ν → Prop} :
    (∀ e ∈ t.entries, p e.2) ↔ ∀ k v, t.find? k = some v → p v := by
  simp only [find?_eq_some_iff, Prod.forall]

theorem find?_filter {t : Table κ ν} {keep : κ → ν → Bool} {k : κ} :
    (t.filter keep).find? k = (t.find? k).filter (keep k) := by
  apply Option.ext
  intro v
  simp [find?_eq_some_iff, filter, Option.filter_eq_some_iff]

/-- The keys of the entries that pass a test. -/
theorem mem_keys_filter {t : Table κ ν} {test : κ → ν → Bool} {k : κ} :
    k ∈ (t.filter test).keys ↔ ∃ v, t.find? k = some v ∧ test k v = true := by
  simp [keys, filter, find?_eq_some_iff]

@[simp] theorem find?_erase {t : Table κ ν} {j k : κ} :
    (t.erase j).find? k = if k = j then none else t.find? k := by
  unfold erase
  split
  · rw [find?_filter]
    by_cases hk : k = j <;> cases t.find? k <;> simp [Option.filter, hk]
  · rename_i h
    by_cases hk : k = j
    · subst hk
      simpa [contains] using h
    · simp [hk]

@[simp] theorem find?_insert {t : Table κ ν} {j k : κ} {v : ν} :
    (t.insert j v).find? k = if k = j then some v else t.find? k := by
  have h := @find?_erase κ ν _ t j k
  unfold find? at h ⊢
  by_cases hk : k = j
  · subst hk
    simp [insert]
  · rw [if_neg hk] at h ⊢
    rw [← h]
    simp [insert, Ne.symm hk]

@[simp] theorem find?_mapValues {t : Table κ ν} {f : ν → ν} {k : κ} :
    (t.mapValues f).find? k = (t.find? k).map f := by
  simp [find?, mapValues, List.find?_map, Function.comp_def]

end Table

end ShuffleService
