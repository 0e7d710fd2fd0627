import Mathlib.Algebra.Order.Ring.Int
import Mathlib.Logic.Function.Iterate
import ShuffleService.Crc32

/-!
# The algebra of the checksum

A register is a polynomial over the field of two elements, its low bit the highest power, and to
shift a bit out of it is to multiply by `x` modulo the generator. So a shift is linear
(`shiftBit_xor`), and as the generator has a constant term, no two registers become the same
(`shiftBit_injective`).

Up to four bytes fit into the register at once: feeding them one by one comes to adding their word
and shifting it out (`update_of_length_le`). So two strings of the same length have different
checksums if they differ, and do so only in a window of four consecutive bytes (`checksum_ne`).
-/

namespace ShuffleService

/-- Two byte strings that are the same outside a window of four bytes. -/
def SameOutside (start : Nat) (as bs : Bytes) : Prop :=
  ∀ i, i < start ∨ start + 4 ≤ i → as[i]? = bs[i]?

/-- To change one byte is to change nothing outside a window that begins with it. -/
theorem sameOutside_set (bs : Bytes) (i : Nat) (b : UInt8) : SameOutside i (bs.set i b) bs :=
  fun _ h => List.getElem?_set_ne (by omega)

namespace SameOutside

variable {start : Nat} {as bs : Bytes}

theorem take_eq (h : SameOutside start as bs) : as.take start = bs.take start := by
  refine List.ext_getElem? fun i => ?_
  rw [List.getElem?_take, List.getElem?_take]
  split
  · rename_i hi
    exact h i (.inl hi)
  · rfl

theorem drop_eq (h : SameOutside start as bs) : as.drop (start + 4) = bs.drop (start + 4) := by
  refine List.ext_getElem? fun i => ?_
  rw [List.getElem?_drop, List.getElem?_drop]
  exact h _ (.inr (Nat.le_add_right ..))

end SameOutside

namespace Crc32

/-! ### Shifts -/

theorem low_bit_iff (r : UInt32) : r &&& 1 = 1 ↔ r.toNat % 2 = 1 := by
  rw [← UInt32.toNat_inj, UInt32.toNat_and]
  simp [Nat.and_one_is_mod]

theorem toNat_shiftRight_one (r : UInt32) : (r >>> 1).toNat = r.toNat / 2 := by
  simp [UInt32.toNat_shiftRight, Nat.shiftRight_eq_div_pow]

theorem toNat_shiftRight_eight (r : UInt32) : (r >>> 8).toNat = r.toNat / 256 := by
  simp [UInt32.toNat_shiftRight, Nat.shiftRight_eq_div_pow]

/-- A shift moves the register down, and takes the generator away if a bit was lost. -/
theorem shiftBit_eq (r : UInt32) :
    shiftBit r = (r >>> 1) ^^^ if r.toNat % 2 = 1 then polynomial else 0 := by
  rw [shiftBit]
  simp only [low_bit_iff]
  split
  · rfl
  · exact (UInt32.xor_zero).symm

theorem shiftBit_xor (a b : UInt32) : shiftBit (a ^^^ b) = shiftBit a ^^^ shiftBit b := by
  have hswap (p q : UInt32) :
      (a >>> 1 ^^^ p) ^^^ (b >>> 1 ^^^ q) = (a ^^^ b) >>> 1 ^^^ (p ^^^ q) := by
    rw [UInt32.shiftRight_xor]
    ac_rfl
  -- a bit is lost of the sum just if it is lost of one of the two
  have hlost : (a ^^^ b).toNat % 2 = 1 ↔ ¬(a.toNat % 2 = 1 ↔ b.toNat % 2 = 1) := by
    rw [UInt32.toNat_xor, Nat.xor_mod_two_eq_one]
  rw [shiftBit_eq, shiftBit_eq a, shiftBit_eq b, hswap]
  simp only [hlost]
  by_cases ha : a.toNat % 2 = 1 <;> by_cases hb : b.toNat % 2 = 1 <;> simp [ha, hb]

/-- Only the empty register becomes empty: the generator has the highest bit, and a register that
was moved down has not. -/
theorem eq_zero_of_shiftBit {r : UInt32} (h : shiftBit r = 0) : r = 0 := by
  have hlt := r.toNat_lt
  have hhalf := toNat_shiftRight_one r
  rw [shiftBit_eq, UInt32.xor_eq_zero_iff] at h
  rw [h] at hhalf
  rw [← UInt32.toNat_inj]
  split at hhalf
  · have hpoly : polynomial.toNat = 0xEDB88320 := rfl
    omega
  · have hzero : (0 : UInt32).toNat = 0 := rfl
    omega

theorem shiftBit_injective : Function.Injective shiftBit := fun a b h => by
  have hsum : shiftBit (a ^^^ b) = 0 := by rw [shiftBit_xor, h, UInt32.xor_self]
  exact UInt32.xor_eq_zero_iff.1 (eq_zero_of_shiftBit hsum)

/-- Bits that are zero are shifted out without a trace. -/
theorem iterate_shiftBit_ofNat {k n : Nat} (h : 2 ^ k * n < 2 ^ 32) :
    shiftBit^[k] (.ofNat (2 ^ k * n)) = .ofNat n := by
  induction k with
  | zero => simp
  | succ k ih =>
    have hdouble : 2 ^ (k + 1) * n = 2 * (2 ^ k * n) := by
      rw [Nat.pow_succ', Nat.mul_assoc]
    have hlt : 2 ^ k * n < 2 ^ 32 := by omega
    have hstep : shiftBit (.ofNat (2 ^ (k + 1) * n)) = .ofNat (2 ^ k * n) := by
      have hmod := Nat.mod_eq_of_lt h
      rw [shiftBit_eq, UInt32.toNat_ofNat', hmod, if_neg (by omega), UInt32.xor_zero,
        ← UInt32.toNat_inj, toNat_shiftRight_one, UInt32.toNat_ofNat', UInt32.toNat_ofNat', hmod,
        Nat.mod_eq_of_lt hlt]
      omega
    rw [Function.iterate_succ_apply, hstep, ih hlt]

theorem shiftByte_xor (a b : UInt32) : shiftByte (a ^^^ b) = shiftByte a ^^^ shiftByte b := by
  simp only [shiftByte, shiftBit_xor]

theorem shiftByte_injective : Function.Injective shiftByte := shiftBit_injective.iterate 8

theorem shiftByte_ofNat {n : Nat} (h : 256 * n < 2 ^ 32) :
    shiftByte (.ofNat (256 * n)) = .ofNat n :=
  iterate_shiftBit_ofNat (k := 8) h

/-! ### Bytes -/

/-- The low bits of a sum and the others do not meet. -/
theorem ofNat_add_two_pow_mul {k a : Nat} (ha : a < 2 ^ k) (n : Nat) :
    UInt32.ofNat (a + 2 ^ k * n) = .ofNat a ^^^ .ofNat (2 ^ k * n) := by
  have hsum : a + 2 ^ k * n = a ^^^ (2 ^ k * n) := by
    refine Nat.eq_of_testBit_eq fun i => ?_
    rw [Nat.add_comm, Nat.testBit_two_pow_mul_add _ ha, Nat.testBit_xor, Nat.testBit_two_pow_mul]
    by_cases hi : i < k
    · simp [hi, Nat.not_le_of_lt hi]
    · have hhigh : a.testBit i = false :=
        Nat.testBit_lt_two_pow
          (Nat.lt_of_lt_of_le ha (Nat.pow_le_pow_right (by decide) (Nat.le_of_not_lt hi)))
      simp [hi, hhigh, Nat.le_of_not_lt hi]
  rw [hsum, UInt32.ofNat_xor]

/-- The bytes of a sum do not meet. -/
theorem ofNat_add_mul (b : UInt8) (n : Nat) :
    UInt32.ofNat (b.toNat + 256 * n) = b.toUInt32 ^^^ .ofNat (256 * n) := by
  rw [← UInt32.ofNat_uInt8ToNat]
  exact ofNat_add_two_pow_mul (k := 8) b.toNat_lt n

/-- One look into the table does what eight shifts do. -/
theorem feed_eq (r : UInt32) (b : UInt8) : feed r b = feedBits r b := by
  have hdown : r >>> 8 = .ofNat ((r ^^^ b.toUInt32).toNat / 256) := by
    have hbyte : b.toUInt32 >>> 8 = 0 := by
      rw [← UInt32.toNat_inj, toNat_shiftRight_eight, UInt8.toNat_toUInt32,
        Nat.div_eq_of_lt b.toNat_lt]
      rfl
    have hmoved : (r ^^^ b.toUInt32) >>> 8 = r >>> 8 := by
      rw [UInt32.shiftRight_xor, hbyte, UInt32.xor_zero]
    rw [← hmoved, ← toNat_shiftRight_eight, UInt32.ofNat_toNat]
  unfold feedBits feed
  rw [hdown]
  generalize r ^^^ b.toUInt32 = x
  have hlt : x.toNat < 2 ^ 32 := x.toNat_lt
  have hlook : table.get x.toUInt8.toFin = shiftByte x.toUInt8.toUInt32 := by
    show table[x.toUInt8.toFin.val] = _
    rw [table, Vector.getElem_ofFn, ← UInt32.ofNat_uInt8ToNat]
    rfl
  have hsplit : x = x.toUInt8.toUInt32 ^^^ .ofNat (256 * (x.toNat / 256)) := by
    have hlow : x.toUInt8.toNat = x.toNat % 256 := UInt32.toNat_toUInt8 x
    rw [← ofNat_add_mul, hlow, Nat.mod_add_div, UInt32.ofNat_toNat]
  rw [hlook, ← shiftByte_ofNat (by omega), ← shiftByte_xor, ← hsplit]

/-- The register after more bytes is the one that is got bit by bit. -/
theorem update_eq (r : UInt32) (bs : Bytes) : update r bs = bs.foldl feedBits r := by
  rw [update, show feed = feedBits from funext fun r => funext fun b => feed_eq r b]

theorem update_injective (bs : Bytes) : Function.Injective (update · bs) := by
  intro a b h
  simp only [update_eq] at h
  induction bs generalizing a b with
  | nil => exact h
  | cons c bs ih => exact (UInt32.xor_left_inj _).1 (shiftByte_injective (ih h))

/-- To feed up to four bytes is to add their word to the register and to shift it out. -/
theorem update_of_length_le (r : UInt32) {bs : Bytes} (h : bs.length ≤ 4) :
    update r bs = shiftByte^[bs.length] (r ^^^ .ofNat (ofLittleEndian bs)) := by
  rw [update_eq]
  induction bs generalizing r with
  | nil => exact (UInt32.xor_zero).symm
  | cons b bs ih =>
    rw [List.length_cons] at h
    have hword : 256 * ofLittleEndian bs < 2 ^ 32 := by
      have hlt := ofLittleEndian_lt bs
      have hle : 256 ^ bs.length ≤ 256 ^ 3 := Nat.pow_le_pow_right (by decide) (by omega)
      omega
    -- the later bytes pass the first shift as if they had been there from the beginning
    have hfirst : feedBits r b ^^^ .ofNat (ofLittleEndian bs) =
        shiftByte (r ^^^ .ofNat (ofLittleEndian (b :: bs))) := by
      rw [feedBits, ← shiftByte_ofNat hword, ← shiftByte_xor, ofLittleEndian_cons, ofNat_add_mul,
        UInt32.xor_assoc]
    rw [List.foldl_cons, ih _ (by omega), hfirst, List.length_cons, Function.iterate_succ_apply]

/-- No two strings of the same length up to four lead from one register to the same register. -/
theorem eq_of_update_eq {r : UInt32} {as bs : Bytes} (hlength : as.length = bs.length)
    (hle : bs.length ≤ 4) (h : update r as = update r bs) : as = bs := by
  have hlt {cs : Bytes} (hcs : cs.length ≤ 4) : ofLittleEndian cs < 2 ^ 32 :=
    Nat.lt_of_lt_of_le (ofLittleEndian_lt cs) (Nat.pow_le_pow_right (n := 256) (by decide) hcs)
  rw [update_of_length_le r hle, update_of_length_le r (hlength ▸ hle), hlength] at h
  have hword := (UInt32.xor_right_inj r).1 (shiftByte_injective.iterate _ h)
  rw [← UInt32.toNat_inj, UInt32.toNat_ofNat_of_lt' (hlt (hlength ▸ hle)),
    UInt32.toNat_ofNat_of_lt' (hlt hle)] at hword
  rw [← littleEndian_ofLittleEndian as, ← littleEndian_ofLittleEndian bs, hword, hlength]

theorem checksum_eq_iff {as bs : Bytes} :
    checksum as = checksum bs ↔ update 0xFFFFFFFF as = update 0xFFFFFFFF bs := by
  rw [checksum, checksum, UInt32.toNat_inj, UInt32.xor_left_inj, updateInSteps_eq, updateInSteps_eq]

/-- **Bursts are seen.** Two strings of the same length have different checksums if they differ, and
do so only in a window of four bytes. -/
theorem checksum_ne {start : Nat} {as bs : Bytes} (hlength : as.length = bs.length)
    (hsame : SameOutside start as bs) (hne : as ≠ bs) : checksum as ≠ checksum bs := by
  intro h
  have hsplit (cs : Bytes) :
      cs = cs.take start ++ ((cs.drop start).take 4 ++ cs.drop (start + 4)) := by
    rw [← List.drop_drop, List.take_append_drop, List.take_append_drop]
  rw [checksum_eq_iff, hsplit as, hsplit bs, hsame.take_eq, hsame.drop_eq, update_append,
    update_append, update_append, update_append] at h
  have hwindow : (as.drop start).take 4 = (bs.drop start).take 4 := by
    refine eq_of_update_eq ?_ (List.length_take_le ..) (update_injective _ h)
    rw [List.length_take, List.length_take, List.length_drop, List.length_drop, hlength]
  exact hne (by rw [hsplit as, hsplit bs, hsame.take_eq, hsame.drop_eq, hwindow])

end Crc32

end ShuffleService
