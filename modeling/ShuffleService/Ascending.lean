/-!
# Ascending numbers

A list of numbers in strictly ascending order is determined by its members (`eq_of_ascending`).

* `sortDistinct`: the distinct numbers of a list in ascending order;
* `mergeAscending`: the numbers of two ascending lists in one, and `mergeFrom`, the same on arrays;
* `placeIn`: where a number stands in an ascending array, or would stand.
-/

namespace ShuffleService

/-- Whether each number is above the one before it. -/
def isAscending : List Nat → Bool
  | x :: y :: rest => x < y && isAscending (y :: rest)
  | _ => true

theorem isAscending_iff {xs : List Nat} : isAscending xs = true ↔ xs.Pairwise (· < ·) := by
  fun_induction isAscending xs with
  | case1 x y rest ih =>
    rw [Bool.and_eq_true, decide_eq_true_iff, ih, List.pairwise_cons (a := x)]
    constructor
    · rintro ⟨hxy, h⟩
      refine ⟨fun a ha => ?_, h⟩
      rcases List.mem_cons.1 ha with rfl | ha
      · exact hxy
      · exact Nat.lt_trans hxy ((List.pairwise_cons.1 h).1 a ha)
    · exact fun h => ⟨h.1 y (List.mem_cons_self ..), h.2⟩
  | case2 xs h =>
    match xs with
    | [] => simp
    | [_] => simp
    | x :: y :: rest => exact absurd rfl (h x y rest)

theorem pairwise_nil : ([] : List Nat).Pairwise (· < ·) := .nil

/-- An ascending list is determined by its members. -/
theorem eq_of_ascending {xs ys : List Nat} (hx : xs.Pairwise (· < ·)) (hy : ys.Pairwise (· < ·))
    (h : ∀ a, a ∈ xs ↔ a ∈ ys) : xs = ys := by
  induction xs generalizing ys with
  | nil =>
    cases ys with
    | nil => rfl
    | cons y ys => exact absurd ((h y).2 (by simp)) (by simp)
  | cons x xs ih =>
    cases ys with
    | nil => exact absurd ((h x).1 (by simp)) (by simp)
    | cons y ys =>
      rw [List.pairwise_cons] at hx hy
      have hxy : x = y := by
        have h1 := (h x).1 (by simp)
        have h2 := (h y).2 (by simp)
        rw [List.mem_cons] at h1 h2
        rcases h1 with h1 | h1
        · exact h1
        · rcases h2 with h2 | h2
          · exact h2.symm
          · have := hx.1 y h2
            have := hy.1 x h1
            omega
      subst hxy
      congr 1
      apply ih hx.2 hy.2
      intro a
      have ha := h a
      simp only [List.mem_cons] at ha
      constructor
      · intro hm
        have hlt := hx.1 a hm
        rcases ha.1 (.inr hm) with h1 | h1
        · omega
        · exact h1
      · intro hm
        have hlt := hy.1 a hm
        rcases ha.2 (.inr hm) with h1 | h1
        · omega
        · exact h1

/-! ### Sorting -/

/-- Drop each number that equals the one after it. -/
def dropRepeats (xs : List Nat) : List Nat :=
  xs.foldr (fun x ys => if ys.head? = some x then ys else x :: ys) []

@[simp] theorem dropRepeats_nil : dropRepeats [] = [] := rfl

theorem dropRepeats_cons (x : Nat) (xs : List Nat) :
    dropRepeats (x :: xs) =
      if (dropRepeats xs).head? = some x then dropRepeats xs else x :: dropRepeats xs := rfl

@[simp] theorem mem_dropRepeats {a : Nat} {xs : List Nat} : a ∈ dropRepeats xs ↔ a ∈ xs := by
  induction xs with
  | nil => simp
  | cons x xs ih =>
    rw [dropRepeats_cons]
    split
    · rename_i h
      have hx : x ∈ dropRepeats xs := List.mem_of_mem_head? h
      simp only [List.mem_cons, ih]
      constructor
      · exact .inr
      · rintro (rfl | h')
        · exact ih.1 hx
        · exact h'
    · simp [ih]

/-- What is left of numbers in order is strictly ascending. -/
theorem pairwise_dropRepeats {xs : List Nat} (h : xs.Pairwise (· ≤ ·)) :
    (dropRepeats xs).Pairwise (· < ·) := by
  induction xs with
  | nil => exact .nil
  | cons x xs ih =>
    rw [List.pairwise_cons] at h
    have ih := ih h.2
    rw [dropRepeats_cons]
    split
    · exact ih
    · rename_i hne
      rw [List.pairwise_cons]
      refine ⟨fun a ha => ?_, ih⟩
      have hle := h.1 a (mem_dropRepeats.1 ha)
      cases hd : dropRepeats xs with
      | nil => rw [hd] at ha; simp at ha
      | cons y ys =>
        rw [hd] at ha ih hne
        simp only [List.head?_cons, Option.some.injEq] at hne
        have hy := h.1 y (mem_dropRepeats.1 (by rw [hd]; simp))
        rcases List.mem_cons.1 ha with rfl | hm
        · omega
        · have := (List.pairwise_cons.1 ih).1 a hm
          omega

/-- The distinct numbers of a list in ascending order. A list that is ascending stays as it is. -/
def sortDistinct (xs : List Nat) : List Nat :=
  if isAscending xs then xs else dropRepeats (xs.mergeSort (· ≤ ·))

@[simp] theorem mem_sortDistinct {a : Nat} {xs : List Nat} : a ∈ sortDistinct xs ↔ a ∈ xs := by
  unfold sortDistinct
  split <;> simp

theorem pairwise_sortDistinct (xs : List Nat) : (sortDistinct xs).Pairwise (· < ·) := by
  unfold sortDistinct
  split
  · rename_i h
    exact isAscending_iff.1 h
  · apply pairwise_dropRepeats
    have h := @List.pairwise_mergeSort _ (fun a b : Nat => decide (a ≤ b))
      (fun a b c => by simp; omega) (fun a b => by simp; omega) xs
    exact h.imp (by simp)

/-! ### Merging -/

/-- The numbers of two ascending lists in one. -/
def mergeAscending : List Nat → List Nat → List Nat
  | [], ys => ys
  | x :: xs, [] => x :: xs
  | x :: xs, y :: ys =>
    if x < y then x :: mergeAscending xs (y :: ys)
    else if y < x then y :: mergeAscending (x :: xs) ys
    else x :: mergeAscending xs ys
termination_by xs ys => xs.length + ys.length

@[simp] theorem mergeAscending_nil (xs : List Nat) : mergeAscending xs [] = xs := by
  cases xs <;> simp [mergeAscending]

@[simp] theorem mem_mergeAscending {a : Nat} {xs ys : List Nat} :
    a ∈ mergeAscending xs ys ↔ a ∈ xs ∨ a ∈ ys := by
  fun_induction mergeAscending xs ys with
  | case1 => simp
  | case2 => simp
  | case3 x xs y ys h ih => simp [ih, or_assoc]
  | case4 x xs y ys h h' ih => simp [ih, or_left_comm]
  | case5 x xs y ys h h' ih =>
    have : x = y := by omega
    subst this
    simp [ih]
    grind

theorem pairwise_mergeAscending {xs ys : List Nat} (hx : xs.Pairwise (· < ·))
    (hy : ys.Pairwise (· < ·)) : (mergeAscending xs ys).Pairwise (· < ·) := by
  fun_induction mergeAscending xs ys with
  | case1 => exact hy
  | case2 => exact hx
  | case3 x xs y ys h ih =>
    rw [List.pairwise_cons] at hx ⊢
    refine ⟨fun a ha => ?_, ih hx.2 hy⟩
    rcases mem_mergeAscending.1 ha with ha | ha
    · exact hx.1 a ha
    · rcases List.mem_cons.1 ha with rfl | ha
      · exact h
      · exact Nat.lt_trans h ((List.pairwise_cons.1 hy).1 a ha)
  | case4 x xs y ys h h' ih =>
    rw [List.pairwise_cons] at hy ⊢
    refine ⟨fun a ha => ?_, ih hx hy.2⟩
    rcases mem_mergeAscending.1 ha with ha | ha
    · rcases List.mem_cons.1 ha with rfl | ha
      · exact h'
      · exact Nat.lt_trans h' ((List.pairwise_cons.1 hx).1 a ha)
    · exact hy.1 a ha
  | case5 x xs y ys h h' ih =>
    rw [List.pairwise_cons] at hx hy ⊢
    refine ⟨fun a ha => ?_, ih hx.2 hy.2⟩
    rcases mem_mergeAscending.1 ha with ha | ha
    · exact hx.1 a ha
    · have := hy.1 a ha
      omega

/-- The numbers of two ascending arrays from the places `i` and `j` on, after those of `merged`. -/
def mergeFrom (xs ys : Array Nat) (i j : Nat) (merged : Array Nat) : Array Nat :=
  if hi : i < xs.size then
    if hj : j < ys.size then
      if xs[i] < ys[j] then mergeFrom xs ys (i + 1) j (merged.push xs[i])
      else if ys[j] < xs[i] then mergeFrom xs ys i (j + 1) (merged.push ys[j])
      else mergeFrom xs ys (i + 1) (j + 1) (merged.push xs[i])
    else merged ++ xs.extract i xs.size
  else merged ++ ys.extract j ys.size
termination_by (xs.size - i) + (ys.size - j)

theorem toList_mergeFrom (xs ys : Array Nat) (i j : Nat) (merged : Array Nat) :
    (mergeFrom xs ys i j merged).toList =
      merged.toList ++ mergeAscending (xs.toList.drop i) (ys.toList.drop j) := by
  fun_induction mergeFrom xs ys i j merged with
  | case1 i j merged hi hj h ih =>
    rw [ih, List.drop_eq_getElem_cons (i := i) (by simpa using hi),
      List.drop_eq_getElem_cons (i := j) (by simpa using hj)]
    simp [mergeAscending, h]
  | case2 i j merged hi hj h h' ih =>
    rw [ih, List.drop_eq_getElem_cons (i := i) (by simpa using hi),
      List.drop_eq_getElem_cons (i := j) (by simpa using hj)]
    simp [mergeAscending, h, h']
  | case3 i j merged hi hj h h' ih =>
    rw [ih, List.drop_eq_getElem_cons (i := i) (by simpa using hi),
      List.drop_eq_getElem_cons (i := j) (by simpa using hj)]
    simp [mergeAscending, h, h']
  | case4 i j merged hi hj =>
    rw [List.drop_eq_nil_of_le (show ys.toList.length ≤ j by simpa using hj)]
    simp [List.take_of_length_le]
  | case5 i j merged hi =>
    rw [List.drop_eq_nil_of_le (show xs.toList.length ≤ i by simpa using hi)]
    simp [mergeAscending, List.take_of_length_le]

/-! ### Searching -/

/-- The place of the first element that is not below `x`, in an ascending array that has it between
the places `lo` and `hi`. -/
def placeIn (xs : Array Nat) (x lo hi : Nat) : Nat :=
  if lo < hi then
    let mid := (lo + hi) / 2
    if xs.getD mid x < x then placeIn xs x (mid + 1) hi else placeIn xs x lo mid
  else lo
termination_by hi - lo

/-- If the elements before `lo` are below `x` and those from `hi` on are not, then the elements
before the place that is found are below `x` and those from it on are not. -/
theorem placeIn_spec {xs : Array Nat} (ascending : xs.toList.Pairwise (· < ·)) {x lo hi : Nat}
    (hlo : ∀ k (h : k < xs.size), k < lo → xs[k] < x)
    (hhi : ∀ k (h : k < xs.size), hi ≤ k → x ≤ xs[k]) :
    ∀ k (h : k < xs.size), (k < placeIn xs x lo hi → xs[k] < x) ∧
      (placeIn xs x lo hi ≤ k → x ≤ xs[k]) := by
  have mono (j k : Nat) (hk : k < xs.size) (hjk : j < k) : xs[j] < xs[k] := by
    have := List.pairwise_iff_getElem.1 ascending j k (by simp; omega) (by simpa using hk) hjk
    simpa using this
  fun_induction placeIn xs x lo hi with
  | case1 lo hi hlt mid hbelow ih =>
    apply ih _ hhi
    intro k hk hkm
    have hmid : mid < xs.size := by
      apply Decidable.byContradiction
      intro hge
      simp [hge] at hbelow
    have hx : xs[mid] < x := by simpa [hmid] using hbelow
    by_cases heq : k = mid
    · subst heq
      exact hx
    · exact Nat.lt_trans (mono k mid hmid (by omega)) hx
  | case2 lo hi hlt mid hnot ih =>
    apply ih hlo
    intro k hk hkm
    have hmid : mid < xs.size := by omega
    have hx : x ≤ xs[mid] := by simpa [hmid] using hnot
    by_cases heq : mid = k
    · subst heq
      exact hx
    · exact Nat.le_of_lt (Nat.lt_of_le_of_lt hx (mono mid k hk (by omega)))
  | case3 lo hi hge =>
    intro k hk
    exact ⟨hlo k hk, fun h => hhi k hk (by omega)⟩

end ShuffleService
