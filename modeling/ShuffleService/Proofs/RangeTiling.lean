import ShuffleService.Proofs.PlacementLaw
import ShuffleService.Proofs.RecordBytes

/-!
# Ranges lie side by side

The ranges that partitions are cut into lie side by side from the first partition to the last, each
of the size that was asked for, but for the last one, which gets what is left (`Tiles`).

The numbers of partitions have no bounds in this model. A program has words for them and goes over
the partitions in strides. `RangeWords` goes this way once more in words of 32 bits: a stride that
leads past the last word ends the way, as one past the last partition does, and any other number
that does not fit its word has no result. All results are there and are those of the model
(`cutRanges?_eq`), also if the partitions reach up to the last word.
-/

namespace ShuffleService

open IndexRecord (fitsBytes)

variable {total per next : Int} {r s : PartitionRange} {i : Nat}

/-! ### Each range by its number -/

/-- The range with a number, counted from zero. -/
def rangeAt (total per : Int) (i : Nat) : PartitionRange :=
  ⟨i * per, min (i * per + per - 1) (total - 1)⟩

theorem getElem?_cutRanges (hper : 0 < per) (i : Nat) :
    (cutRanges total per)[i]? = if i * per < total then some (rangeAt total per i) else none := by
  unfold cutRanges
  by_cases htotal : total ≤ 0
  · have hstart : 0 ≤ i * per := Int.mul_nonneg (Int.natCast_nonneg i) (by omega)
    rw [if_pos (.inl htotal), if_neg (by omega)]
    rfl
  · have hcount : i < ((total - 1) / per + 1).toNat ↔ i * per < total := by
      have hdiv := Int.le_ediv_iff_mul_le (a := i) (b := total - 1) hper
      have hpos : 0 ≤ (total - 1) / per := Int.ediv_nonneg (by omega) (by omega)
      omega
    rw [if_neg (by omega), List.getElem?_map]
    by_cases hi : i * per < total
    · rw [if_pos hi, List.getElem?_range (hcount.2 hi)]
      rfl
    · have hnone : (List.range ((total - 1) / per + 1).toNat)[i]? = none := by
        rw [List.getElem?_eq_none_iff, List.length_range, ← Nat.not_lt, hcount]
        exact hi
      rw [if_neg hi, hnone]
      rfl

/-- There are as many ranges as the quotient says, rounded up. -/
theorem length_cutRanges (htotal : 0 < total) (hper : 0 < per) :
    ((cutRanges total per).length : Int) = (total + per - 1) / per := by
  have hquotient : (total + per - 1) / per = (total - 1) / per + 1 := by
    rw [← Int.add_mul_ediv_right _ 1 (by omega)]
    congr 1
    omega
  have hpos : 0 ≤ (total - 1) / per := Int.ediv_nonneg (by omega) (by omega)
  unfold cutRanges
  rw [if_neg (by omega), List.length_map, List.length_range, hquotient]
  omega

/-! ### Side by side -/

/-- Ranges lie side by side from zero to the last of `total` partitions, all with `per` partitions
but for the last one, which has at least one and no more. -/
structure Tiles (total per : Int) (rs : List PartitionRange) : Prop where
  length : (rs.length : Int) = (total + per - 1) / per
  ascending : rs.Pairwise fun r s => r.first < s.first
  start : ∃ r, rs.head? = some r ∧ r.first = 0
  beside : ∀ i r s, rs[i]? = some r → rs[i + 1]? = some s → s.first = r.last + 1
  full : ∀ r ∈ rs.dropLast, r.count = per
  stop : ∃ r, rs.getLast? = some r ∧ r.last = total - 1 ∧ 1 ≤ r.count ∧ r.count ≤ per
  once : ∀ x, rs.countP (·.contains x) = if 0 ≤ x ∧ x < total then 1 else 0

/-- A range is followed by another one just if it is full and not the end. -/
theorem rangeAt_of_next (hnext : (i + 1 : Nat) * per < total) :
    rangeAt total per i = ⟨i * per, (i + 1 : Nat) * per - 1⟩ := by
  rw [Nat.cast_add_one, Int.add_mul, Int.one_mul] at hnext ⊢
  rw [rangeAt, Int.min_eq_left (by omega)]

theorem countP_contains_cutRanges (hper : 0 < per) (x : Int) :
    (cutRanges total per).countP (·.contains x) = if 0 ≤ x ∧ x < total then 1 else 0 := by
  have hle := countP_contains_le_one (pairwise_apart_cutRanges total per) x
  have hpos : 0 < (cutRanges total per).countP (·.contains x) ↔ 0 ≤ x ∧ x < total := by
    rw [List.countP_pos_iff, ← exists_range_iff hper]
    simp
  split
  · have := hpos.2 ‹_›
    omega
  · have := mt hpos.1 ‹_›
    omega

theorem cutRanges_tiles (htotal : 0 < total) (hper : 0 < per) :
    Tiles total per (cutRanges total per) := by
  have hlength := length_cutRanges htotal hper
  have hne : cutRanges total per ≠ [] := by
    rw [Ne, cutRanges_eq_nil]
    omega
  -- the last range is the one whose successor would start past the last partition
  obtain ⟨n, hn⟩ := Nat.exists_eq_succ_of_ne_zero (mt List.length_eq_zero_iff.1 hne)
  have hat (j : Nat) : j ≤ n ↔ j * per < total := by
    have hget : (cutRanges total per)[j]? = _ := getElem?_cutRanges hper j
    by_cases hj : j * per < total
    · rw [if_pos hj] at hget
      have := (List.getElem?_eq_some_iff.1 hget).1
      omega
    · rw [if_neg hj, List.getElem?_eq_none_iff] at hget
      omega
  have hlast : n * per < total := (hat n).1 (Nat.le_refl n)
  have hover : total ≤ n * per + per := by
    have := mt (hat (n + 1)).2 (by omega)
    rw [Nat.cast_add_one, Int.add_mul, Int.one_mul] at this
    omega
  constructor
  case length => exact hlength
  case ascending => exact pairwise_cutRanges total per
  case start =>
    refine ⟨rangeAt total per 0, ?_, Int.zero_mul per⟩
    rw [List.head?_eq_getElem?, getElem?_cutRanges hper, if_pos (by omega)]
  case beside =>
    intro j r s hr hs
    rw [getElem?_cutRanges hper, Option.ite_none_right_eq_some] at hr hs
    obtain ⟨-, hr⟩ := hr
    obtain ⟨hnext, hs⟩ := hs
    rw [rangeAt_of_next hnext] at hr
    cases hr
    cases hs
    exact (Int.sub_add_cancel _ 1).symm
  case full =>
    intro r hr
    obtain ⟨j, hj, rfl⟩ := List.getElem_of_mem hr
    rw [List.length_dropLast] at hj
    have hget : (cutRanges total per)[j]? = _ := getElem?_cutRanges hper j
    rw [if_pos ((hat j).1 (by omega)), rangeAt_of_next ((hat (j + 1)).1 (by omega))] at hget
    rw [List.getElem_dropLast, (List.getElem?_eq_some_iff.1 hget).2, PartitionRange.count]
    simp only [Nat.cast_add_one, Int.add_mul, Int.one_mul]
    omega
  case stop =>
    have hend : rangeAt total per n = ⟨n * per, total - 1⟩ := by
      rw [rangeAt, Int.min_eq_right (by omega)]
    refine ⟨⟨n * per, total - 1⟩, ?_, rfl, ?_, ?_⟩
    · rw [List.getLast?_eq_getElem?, hn, Nat.succ_sub_one, getElem?_cutRanges hper, if_pos hlast,
        hend]
    · simp only [PartitionRange.count]
      omega
    · simp only [PartitionRange.count]
      omega
  case once => exact countP_contains_cutRanges hper

/-! ### Cutting in words -/

namespace RangeWords

/-- A number that has to fit a signed word of `k` bytes. -/
def fit? (k : Nat) (x : Int) : Option Int := if fitsBytes k x then some x else none

/-- The range that begins with a partition. Its end is looked for in long words. -/
def rangeFrom? (total per start : Int) : Option PartitionRange := do
  let next ← fit? 8 (start + per)
  let full ← fit? 8 (next - 1)
  let last ← fit? 8 (total - 1)
  let stop ← fit? 4 (min full last)
  return ⟨start, stop⟩

/-- The ranges from a partition on, `skip` partitions after it. Each further one begins after
another `per - 1` that are passed over. -/
def walk? (total per : Int) (skip : Nat) (next : Int) : Option (List PartitionRange) :=
  if _h : fitsBytes 4 (next + skip) ∧ next + skip < total then do
    let r ← rangeFrom? total per (next + skip)
    let _ ← fit? 4 (next + skip + 1)
    let rs ← walk? total per (per.toNat - 1) (next + skip + 1)
    return r :: rs
  else some []
termination_by (total - next).toNat
decreasing_by omega

/-- Cut the partitions into ranges, all in words. -/
def cutRanges? (total per : Int) : Option (List PartitionRange) :=
  if total ≤ 0 ∨ per ≤ 0 then some [] else walk? total per 0 0

/-- How many partitions a range holds, in words. -/
def count? (r : PartitionRange) : Option Int := do
  let distance ← fit? 4 (r.last - r.first)
  fit? 4 (distance + 1)

theorem fit?_eq {k : Nat} {x : Int} (h : fitsBytes k x) : fit? k x = some x := if_pos h

theorem fitsBytes_four_iff {x : Int} : fitsBytes 4 x ↔ -2 ^ 31 ≤ x ∧ x < 2 ^ 31 := Iff.rfl

theorem fitsBytes_eight_iff {x : Int} : fitsBytes 8 x ↔ -2 ^ 63 ≤ x ∧ x < 2 ^ 63 := Iff.rfl

/-- The end of a range is looked for in words that are long enough. -/
theorem rangeFrom?_eq (htotal : fitsBytes 4 total) (hper : fitsBytes 4 per) (hpos : 0 < per)
    (hi : i * per < total) : rangeFrom? total per (i * per) = some (rangeAt total per i) := by
  have hstart : 0 ≤ i * per := Int.mul_nonneg (Int.natCast_nonneg i) (by omega)
  rw [fitsBytes_four_iff] at htotal hper
  have hnext : fit? 8 (i * per + per) = some (i * per + per) :=
    fit?_eq (fitsBytes_eight_iff.2 (by omega))
  have hfull : fit? 8 (i * per + per - 1) = some (i * per + per - 1) :=
    fit?_eq (fitsBytes_eight_iff.2 (by omega))
  have hlast : fit? 8 (total - 1) = some (total - 1) := fit?_eq (fitsBytes_eight_iff.2 (by omega))
  have hstop : fit? 4 (min (i * per + per - 1) (total - 1)) =
      some (min (i * per + per - 1) (total - 1)) := fit?_eq (fitsBytes_four_iff.2 (by omega))
  simp only [rangeFrom?, hnext, hfull, hlast, hstop, Option.bind_eq_bind, Option.bind_some]
  rfl

/-- From the start of a range on, the walk comes to that range and those after it. -/
theorem walk?_eq (htotal : fitsBytes 4 total) (hper : fitsBytes 4 per) (hpos : 0 < per)
    (skip : Nat) (next : Int) (i : Nat) (hi : next + skip = i * per) :
    walk? total per skip next = some ((cutRanges total per).drop i) := by
  have hstart : 0 ≤ i * per := Int.mul_nonneg (Int.natCast_nonneg i) (by omega)
  have hget : (cutRanges total per)[i]? = _ := getElem?_cutRanges hpos i
  rw [fitsBytes_four_iff] at htotal
  fun_induction walk? total per skip next generalizing i with
  | case1 skip next hmore ih =>
    rw [hi] at hmore ih ⊢
    rw [if_pos hmore.2] at hget
    obtain ⟨hlt, hr⟩ := List.getElem?_eq_some_iff.1 hget
    have hnext : i * per + 1 + (per.toNat - 1 : Nat) = (i + 1 : Nat) * per := by
      rw [Nat.cast_add_one, Int.add_mul, Int.one_mul]
      omega
    have hrest := ih (i + 1) hnext (Int.mul_nonneg (Int.natCast_nonneg _) (by omega))
      (getElem?_cutRanges hpos (i + 1))
    have hone : fit? 4 (i * per + 1) = some (i * per + 1) :=
      fit?_eq (fitsBytes_four_iff.2 (by omega))
    rw [rangeFrom?_eq htotal hper hpos hmore.2, hone, List.drop_eq_getElem_cons hlt, hr]
    simp only [hrest, Option.bind_eq_bind, Option.bind_some]
    rfl
  | case2 skip next hdone =>
    -- a start that does not fit a word is past the last partition too
    have hend : ¬ i * per < total := by
      rw [hi, fitsBytes_four_iff] at hdone
      omega
    rw [if_neg hend, List.getElem?_eq_none_iff] at hget
    rw [List.drop_eq_nil_of_le hget]

/-- Cutting in words gives the ranges of the model. -/
theorem cutRanges?_eq (htotal : fitsBytes 4 total) (hper : fitsBytes 4 per) :
    cutRanges? total per = some (cutRanges total per) := by
  unfold cutRanges?
  split
  · rw [cutRanges_eq_nil.2 ‹_›]
  · exact walk?_eq htotal hper (by omega) 0 0 0 (by simp)

/-- The ends of a range, and what is computed from them, fit their words. -/
theorem fits_of_mem (htotal : fitsBytes 4 total) (hr : r ∈ cutRanges total per) :
    fitsBytes 4 r.first ∧ fitsBytes 4 r.last ∧ count? r = some r.count := by
  have hle := first_le_last_of_mem_cutRanges hr
  obtain ⟨hpos, i, hi, rfl⟩ := mem_cutRanges.1 hr
  have hstart : 0 ≤ i * per := Int.mul_nonneg (Int.natCast_nonneg i) (by omega)
  simp only [fitsBytes_four_iff] at *
  refine ⟨by omega, by omega, ?_⟩
  simp only [count?, PartitionRange.count]
  rw [fit?_eq (fitsBytes_four_iff.2 (by omega)), Option.bind_eq_bind, Option.bind_some,
    fit?_eq (fitsBytes_four_iff.2 (by omega))]

end RangeWords

/-- **Ranges lie side by side.** Take any number of partitions and any number for each range, both
of them words of 32 bits. There is no range just if one of the numbers is not positive. Otherwise
the ranges lie side by side from the first partition to the last, so each partition is in one range
and nothing else is in any. They are found in words too, and so are the sizes of all of them: no end
of a range, and nothing that is computed on the way, leaves its word. -/
theorem cutRanges_side_by_side (total per : Int) (htotal : fitsBytes 4 total)
    (hper : fitsBytes 4 per) :
    let rs := cutRanges total per
    (rs = [] ↔ total ≤ 0 ∨ per ≤ 0) ∧
    (0 < total → 0 < per → Tiles total per rs) ∧
    RangeWords.cutRanges? total per = some rs ∧
    ∀ r ∈ rs, fitsBytes 4 r.first ∧ fitsBytes 4 r.last ∧
      RangeWords.count? r = some r.count :=
  ⟨cutRanges_eq_nil, cutRanges_tiles, RangeWords.cutRanges?_eq htotal hper,
    fun _ hr => RangeWords.fits_of_mem htotal hr⟩

/-- The partitions reach up to the last word, and a third range would start past it. -/
theorem cutRanges_side_by_side_last_word :
    let total : Int := 2 ^ 31 - 1
    let per : Int := 2 ^ 30 + 1
    fitsBytes 4 total ∧ fitsBytes 4 per ∧ ¬ fitsBytes 4 (per + per) ∧
      RangeWords.cutRanges? total per = some [⟨0, 2 ^ 30⟩, ⟨2 ^ 30 + 1, 2 ^ 31 - 2⟩] ∧
      (cutRanges total per).countP (·.contains (2 ^ 31 - 2)) = 1 := by
  intro total per
  have htotal : fitsBytes 4 total := by decide
  have hper : fitsBytes 4 per := by decide
  obtain ⟨-, htiles, hwords, -⟩ := cutRanges_side_by_side total per htotal hper
  exact ⟨htotal, hper, by decide, hwords.trans (by decide), (htiles (by decide) (by decide)).once _⟩

end ShuffleService
