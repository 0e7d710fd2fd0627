import ShuffleService.Text.Hex

/-!
# Numbers as digits

* `ofDigits`: the number that digits stand for in a base;
* `ofDigitsUpTo?`: the same for a number that may be too large, in one pass that does not go beyond
  the limit (`ofDigitsUpTo?_eq`).
-/

namespace ShuffleService

/-- The value of a digit, zero if it is none. -/
def digitValue (c : Char) : Nat := (Hex.value? c).getD 0

/-- The number that comes of writing a digit after the digits of `n`. -/
def appendDigit (base n : Nat) (c : Char) : Nat := base * n + digitValue c

/-- The number of some digits in a base. -/
def ofDigits (base : Nat) (ds : List Char) : Nat := ds.foldl (appendDigit base) 0

/-- The number of some digits in a base after those of `n`, unless it is above `most`. -/
def appendUpTo? (base most : Nat) : (n : Nat) → List Char → Option Nat
  | n, [] => some n
  | n, c :: ds =>
    if appendDigit base n c ≤ most then appendUpTo? base most (appendDigit base n c) ds else none

/-- The number of some digits in a base, unless it is above `most`. -/
def ofDigitsUpTo? (base most : Nat) (ds : List Char) : Option Nat := appendUpTo? base most 0 ds

/-- More digits do not make a number smaller. -/
theorem le_foldl_appendDigit {base : Nat} (hbase : 0 < base) (n : Nat) (ds : List Char) :
    n ≤ ds.foldl (appendDigit base) n := by
  induction ds generalizing n with
  | nil => exact Nat.le_refl n
  | cons c ds ih =>
    calc n ≤ base * n := Nat.le_mul_of_pos_left n hbase
      _ ≤ appendDigit base n c := Nat.le_add_right ..
      _ ≤ ds.foldl (appendDigit base) (appendDigit base n c) := ih _

theorem appendUpTo?_eq {base most n : Nat} (hbase : 0 < base) (hn : n ≤ most) (ds : List Char) :
    appendUpTo? base most n ds =
      if ds.foldl (appendDigit base) n ≤ most then some (ds.foldl (appendDigit base) n)
      else none := by
  induction ds generalizing n with
  | nil => simp [appendUpTo?, hn]
  | cons c ds ih =>
    rw [appendUpTo?, List.foldl_cons]
    split
    · rename_i h
      exact ih h
    · rename_i h
      have := le_foldl_appendDigit hbase (appendDigit base n c) ds
      rw [if_neg (by omega)]

theorem ofDigitsUpTo?_eq {base most : Nat} (hbase : 0 < base) (ds : List Char) :
    ofDigitsUpTo? base most ds =
      if ofDigits base ds ≤ most then some (ofDigits base ds) else none :=
  appendUpTo?_eq hbase (Nat.zero_le most) ds

end ShuffleService
