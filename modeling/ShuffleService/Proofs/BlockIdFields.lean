import Mathlib.Algebra.Order.Ring.Int
import ShuffleService.BlockId

/-!
# Block ids and their fields

The ids of a layout are the numbers below `2 ^ totalBits`, and each of them stands for one triple of
fields (`decode_pack`, `pack_decode`). An id has two borders, one between each field and the next,
and what there is to say about them is said of one: a number is a high part joined to a low part
(`field_join`, `join_field`, `join_lt_iff`).
-/

namespace ShuffleService

/-- The order of fields by the first one that differs. -/
def BlockIdParts.Before (x y : BlockIdParts) : Prop :=
  x.sequence < y.sequence ∨ x.sequence = y.sequence ∧
    (x.partition < y.partition ∨ x.partition = y.partition ∧ x.task < y.task)

namespace BlockIdLayout

variable {l : BlockIdLayout} {x y : BlockIdParts} {hi hi' lo lo' id : Int} {a b k n w : Nat}

/-! ### One border -/

theorem shiftRight_eq_div (id : Int) (k : Nat) : id >>> k = id / 2 ^ k := by
  rw [Int.shiftRight_eq_div_pow, Int.natCast_pow]
  rfl

/-- Above the border stands the high part. -/
theorem field_join (h : 0 ≤ lo ∧ lo < 2 ^ k) :
    field (hi * 2 ^ k + lo) (k + n) w = field hi n w := by
  have hpos : (0 : Int) < 2 ^ k := Int.pow_pos (by decide)
  have hhigh : (hi * 2 ^ k + lo) / 2 ^ k = hi := by
    rw [Int.add_comm, Int.add_mul_ediv_right _ _ (by omega), Int.ediv_eq_zero_of_lt h.1 h.2,
      Int.zero_add]
  rw [field, field, Int.shiftRight_add, shiftRight_eq_div _ k, hhigh]

theorem field_join_high (h : 0 ≤ lo ∧ lo < 2 ^ k) : field (hi * 2 ^ k + lo) k w = field hi 0 w :=
  field_join (n := 0) h

/-- Below the border stands the low part. -/
theorem field_join_low (h : 0 ≤ lo ∧ lo < 2 ^ k) : field (hi * 2 ^ k + lo) 0 k = lo := by
  rw [field, Int.shiftRight_zero, Int.add_comm, Int.add_mul_emod_self_right,
    Int.emod_eq_of_lt h.1 h.2]

theorem field_of_lt (h : 0 ≤ lo ∧ lo < 2 ^ k) : field lo 0 k = lo := by
  rw [field, Int.shiftRight_zero, Int.emod_eq_of_lt h.1 h.2]

theorem field_bounds (id : Int) (n w : Nat) : 0 ≤ field id n w ∧ field id n w < 2 ^ w := by
  have hpos : (0 : Int) < 2 ^ w := Int.pow_pos (by decide)
  exact ⟨Int.emod_nonneg _ (by omega), Int.emod_lt_of_pos _ hpos⟩

theorem join_bounds (hhi : 0 ≤ hi ∧ hi < 2 ^ n) (hlo : 0 ≤ lo ∧ lo < 2 ^ k) :
    0 ≤ hi * 2 ^ k + lo ∧ hi * 2 ^ k + lo < 2 ^ (n + k) := by
  have hpos : (0 : Int) < 2 ^ k := Int.pow_pos (by decide)
  have hnonneg : 0 ≤ hi * 2 ^ k := Int.mul_nonneg hhi.1 (by omega)
  have hle : (hi + 1) * 2 ^ k ≤ 2 ^ n * 2 ^ k :=
    Int.mul_le_mul_of_nonneg_right (by omega) (by omega)
  rw [Int.add_mul, Int.one_mul] at hle
  rw [Int.pow_add]
  omega

/-- The low bits of a number on both sides of a border. -/
theorem join_field (id : Int) (n k : Nat) :
    field id k n * 2 ^ k + id % 2 ^ k = id % 2 ^ (n + k) := by
  have hpos : (0 : Int) < 2 ^ k := Int.pow_pos (by decide)
  have hbounds := join_bounds (field_bounds id k n)
    ⟨Int.emod_nonneg id (by omega), Int.emod_lt_of_pos id hpos⟩
  have hdigits : id = field id k n * 2 ^ k + id % 2 ^ k + 2 ^ (n + k) * (id / 2 ^ k / 2 ^ n) := by
    have hlow := Int.emod_add_mul_ediv id (2 ^ k)
    have hhigh := Int.emod_add_mul_ediv (id / 2 ^ k) (2 ^ n)
    rw [field, shiftRight_eq_div, Int.pow_add]
    grind
  conv => rhs; rw [hdigits]
  rw [Int.add_mul_emod_self_left, Int.emod_eq_of_lt hbounds.1 hbounds.2]

/-- The high part comes first in the order. -/
theorem join_lt_iff (h : 0 ≤ lo ∧ lo < 2 ^ k) (h' : 0 ≤ lo' ∧ lo' < 2 ^ k) :
    hi * 2 ^ k + lo < hi' * 2 ^ k + lo' ↔ hi < hi' ∨ hi = hi' ∧ lo < lo' := by
  have hstep {i j : Int} (hij : i < j) : i * 2 ^ k + 2 ^ k ≤ j * 2 ^ k := by
    have hpos : (0 : Int) < 2 ^ k := Int.pow_pos (by decide)
    have hle : (i + 1) * 2 ^ k ≤ j * 2 ^ k :=
      Int.mul_le_mul_of_nonneg_right (by omega) (by omega)
    rwa [Int.add_mul, Int.one_mul] at hle
  rcases Int.lt_trichotomy hi hi' with hlt | rfl | hgt
  · have := hstep hlt
    omega
  · omega
  · have := hstep hgt
    omega

/-- Both parts can be told from the number. -/
theorem join_eq_iff (h : 0 ≤ lo ∧ lo < 2 ^ k) (h' : 0 ≤ lo' ∧ lo' < 2 ^ k) :
    hi * 2 ^ k + lo = hi' * 2 ^ k + lo' ↔ hi = hi' ∧ lo = lo' := by
  refine ⟨fun heq => ?_, fun heq => by rw [heq.1, heq.2]⟩
  have hlt : ¬ (hi < hi' ∨ hi = hi' ∧ lo < lo') := mt (join_lt_iff h h').2 (by omega)
  have hgt : ¬ (hi' < hi ∨ hi' = hi ∧ lo' < lo) := mt (join_lt_iff h' h).2 (by omega)
  omega

/-! ### Three fields -/

/-- Fields that fit a layout. -/
structure Holds (l : BlockIdLayout) (x : BlockIdParts) : Prop where
  sequence : 0 ≤ x.sequence ∧ x.sequence ≤ l.maxSequence
  partition : 0 ≤ x.partition ∧ x.partition ≤ l.maxPartition
  task : 0 ≤ x.task ∧ x.task ≤ l.maxTask

namespace Holds

theorem sequence_lt (h : l.Holds x) : 0 ≤ x.sequence ∧ x.sequence < 2 ^ l.sequenceBits :=
  ⟨h.sequence.1, Int.lt_of_le_sub_one h.sequence.2⟩

theorem partition_lt (h : l.Holds x) : 0 ≤ x.partition ∧ x.partition < 2 ^ l.partitionBits :=
  ⟨h.partition.1, Int.lt_of_le_sub_one h.partition.2⟩

theorem task_lt (h : l.Holds x) : 0 ≤ x.task ∧ x.task < 2 ^ l.taskBits :=
  ⟨h.task.1, Int.lt_of_le_sub_one h.task.2⟩

end Holds

theorem pack_eq (l : BlockIdLayout) (x : BlockIdParts) : l.pack x =
    (x.sequence * 2 ^ l.partitionBits + x.partition) * 2 ^ l.taskBits + x.task := by
  rw [pack, Int.pow_add, Int.add_mul, Int.mul_assoc]

theorem totalBits_eq (l : BlockIdLayout) :
    l.totalBits = l.sequenceBits + l.partitionBits + l.taskBits := rfl

theorem pack_bounds (h : l.Holds x) : 0 ≤ l.pack x ∧ l.pack x < 2 ^ l.totalBits := by
  rw [pack_eq, totalBits_eq]
  exact join_bounds (join_bounds h.sequence_lt h.partition_lt) h.task_lt

theorem decode_pack (h : l.Holds x) : l.decode (l.pack x) = x := by
  have hsequence : l.sequenceOf (l.pack x) = x.sequence := by
    rw [sequenceOf, pack_eq, Nat.add_comm, field_join h.task_lt, field_join_high h.partition_lt,
      field_of_lt h.sequence_lt]
  have hpartition : l.partitionOf (l.pack x) = x.partition := by
    rw [partitionOf, pack_eq, field_join_high h.task_lt, field_join_low h.partition_lt]
  have htask : l.taskOf (l.pack x) = x.task := by
    rw [taskOf, pack_eq, field_join_low h.task_lt]
  rw [decode, hsequence, hpartition, htask]

theorem holds_decode (l : BlockIdLayout) (id : Int) : l.Holds (l.decode id) where
  sequence := ⟨(field_bounds ..).1, Int.le_sub_one_of_lt (field_bounds ..).2⟩
  partition := ⟨(field_bounds ..).1, Int.le_sub_one_of_lt (field_bounds ..).2⟩
  task := ⟨(field_bounds ..).1, Int.le_sub_one_of_lt (field_bounds ..).2⟩

/-- Of any number, decoding keeps the bits that the layout uses. -/
theorem pack_decode (l : BlockIdLayout) (id : Int) :
    l.pack (l.decode id) = id % 2 ^ l.totalBits := by
  have htask : l.taskOf id = id % 2 ^ l.taskBits := by
    rw [taskOf, field, Int.shiftRight_zero]
  have hlow := join_field id l.partitionBits l.taskBits
  have hhigh := join_field id l.sequenceBits (l.partitionBits + l.taskBits)
  rw [totalBits_eq, Nat.add_assoc, ← hhigh, ← hlow, ← htask, ← Int.add_assoc]
  rfl

theorem decode_eq_iff {i j : Int} :
    l.decode i = l.decode j ↔ i % 2 ^ l.totalBits = j % 2 ^ l.totalBits := by
  rw [← pack_decode, ← pack_decode]
  refine ⟨fun h => by rw [h], fun h => ?_⟩
  rw [← decode_pack (holds_decode l i), h, decode_pack (holds_decode l j)]

theorem pack_lt_pack_iff (hx : l.Holds x) (hy : l.Holds y) : l.pack x < l.pack y ↔ x.Before y := by
  rw [pack_eq, pack_eq, join_lt_iff hx.task_lt hy.task_lt,
    join_lt_iff hx.partition_lt hy.partition_lt, join_eq_iff hx.partition_lt hy.partition_lt,
    BlockIdParts.Before]
  omega

/-! ### Checks -/

theorem checkField_eq_ok_iff {field : String} {value max : Int} :
    checkField field value max = .ok () ↔ 0 ≤ value ∧ value ≤ max := by
  rw [checkField]
  split <;> simp [*]

theorem encode_of_holds {s p t : Int} (h : l.Holds ⟨s, p, t⟩) :
    l.encode s p t = .ok (l.pack ⟨s, p, t⟩) := by
  rw [encode, checkField_eq_ok_iff.2 h.sequence, checkField_eq_ok_iff.2 h.partition,
    checkField_eq_ok_iff.2 h.task]
  rfl

/-- A check that fails names its field. -/
theorem checkField_cases (field : String) (value max : Int) :
    checkField field value max = .ok () ∨
      ∃ text, checkField field value max = .error (.invalidArgument text) := by
  rw [checkField]
  split
  · exact .inl rfl
  · exact .inr ⟨_, rfl⟩

theorem encode_of_not_holds {s p t : Int} (h : ¬ l.Holds ⟨s, p, t⟩) :
    ∃ text, l.encode s p t = .error (.invalidArgument text) := by
  unfold encode
  rcases checkField_cases "sequenceNo" s l.maxSequence with hs | ⟨text, hs⟩
  · rcases checkField_cases "partitionId" p l.maxPartition with hp | ⟨text, hp⟩
    · rcases checkField_cases "taskAttemptId" t l.maxTask with ht | ⟨text, ht⟩
      · exact absurd ⟨checkField_eq_ok_iff.1 hs, checkField_eq_ok_iff.1 hp,
          checkField_eq_ok_iff.1 ht⟩ h
      · rw [hs, hp, ht]
        exact ⟨text, rfl⟩
    · rw [hs, hp]
      exact ⟨text, rfl⟩
  · rw [hs]
    exact ⟨text, rfl⟩

theorem encode_eq_ok_iff {s p t : Int} :
    l.encode s p t = .ok id ↔ l.Holds ⟨s, p, t⟩ ∧ l.pack ⟨s, p, t⟩ = id := by
  constructor
  · intro h
    by_cases hx : l.Holds ⟨s, p, t⟩
    · rw [encode_of_holds hx, Except.ok.injEq] at h
      exact ⟨hx, h⟩
    · obtain ⟨text, htext⟩ := encode_of_not_holds hx
      cases htext.symm.trans h
  · rintro ⟨hx, rfl⟩
    exact encode_of_holds hx

/-- The widths that make up a layout. -/
theorem ofBits_eq_ok_iff {sequence partition task : Int} :
    ofBits sequence partition task = .ok l ↔
      sequence = l.sequenceBits ∧ partition = l.partitionBits ∧ task = l.taskBits := by
  have hs := l.sequence_pos
  have hp := l.partition_pos
  have ht := l.task_pos
  have htotal := l.total_le
  unfold ofBits
  constructor
  · intro h
    split at h
    · split at h
      · cases h
        dsimp only
        omega
      · cases h
    · cases h
  · rintro ⟨rfl, rfl, rfl⟩
    rw [dif_pos (by omega), dif_pos (by unfold maxBits; omega)]
    rfl

theorem exists_ofBits_iff {sequence partition task : Int} :
    (∃ l, ofBits sequence partition task = .ok l) ↔
      (0 < sequence ∧ 0 < partition ∧ 0 < task) ∧ sequence + partition + task ≤ 63 := by
  constructor
  · rintro ⟨l, h⟩
    obtain ⟨hs, hp, ht⟩ := ofBits_eq_ok_iff.1 h
    have := l.sequence_pos
    have := l.partition_pos
    have := l.task_pos
    have := l.total_le
    omega
  · rintro ⟨hpos, hle⟩
    have hle' : sequence + partition + task ≤ maxBits := hle
    exact ⟨_, by rw [ofBits, dif_pos hpos, dif_pos hle']⟩

/-- Widths that make up no layout are refused. -/
theorem ofBits_of_not_valid {sequence partition task : Int}
    (h : ¬ ((0 < sequence ∧ 0 < partition ∧ 0 < task) ∧ sequence + partition + task ≤ 63)) :
    ∃ text, ofBits sequence partition task = .error (.invalidArgument text) := by
  rw [ofBits]
  by_cases hpos : 0 < sequence ∧ 0 < partition ∧ 0 < task
  · have hlt : ¬ sequence + partition + task ≤ maxBits := fun hle => h ⟨hpos, hle⟩
    rw [dif_pos hpos, dif_neg hlt]
    exact ⟨_, rfl⟩
  · rw [dif_neg hpos]
    exact ⟨_, rfl⟩

end BlockIdLayout

end ShuffleService
