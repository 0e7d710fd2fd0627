import ShuffleService.Proofs.ChecksumAlgebra

/-!
# The checksum bit by bit

CRC-32 is defined on bits: a register takes in one after the other, and knows nothing of bytes or of
steps (`feedBit`, `serial`). A byte is sent from its lowest bit on. To feed it by one look into the
table comes to feeding its eight bits (`feed_eq_foldl`), so the register may be carried over any
borders between bytes, and where the borders of the steps lie does not matter.
-/

namespace ShuffleService.Crc32

variable {k n : Nat}

/-! ### The definition on bits -/

/-- The `k` low bits of a number, from the lowest on. -/
def lowest (k n : Nat) : List Bool := (List.range k).map n.testBit

/-- The bits of a byte string, in the order in which they are sent. -/
def bits (bs : Bytes) : List Bool := bs.flatMap fun b => lowest 8 b.toNat

/-- The register after one more bit: what is left of it when its lowest bit is moved out, plus the
generator if that bit is not the one that comes in. -/
def feedBit (r : UInt32) (bit : Bool) : UInt32 :=
  if r.toNat.testBit 0 = bit then r >>> 1 else r >>> 1 ^^^ 0xEDB88320

/-- The CRC-32 of a string of bits. -/
def serial (message : List Bool) : Nat :=
  (message.foldl feedBit 0xFFFFFFFF ^^^ 0xFFFFFFFF).toNat

/-! ### Bits and bytes -/

theorem lowest_succ (k n : Nat) : lowest (k + 1) n = n.testBit 0 :: lowest k (n / 2) := by
  rw [lowest, List.range_succ_eq_map, List.map_cons, List.map_map]
  congr 1
  exact List.map_congr_left fun i _ => Nat.testBit_succ n i

/-- To feed a bit is to add it to the register and to shift it out. -/
theorem feedBit_eq (r : UInt32) (n : Nat) :
    feedBit r (n.testBit 0) = shiftBit (r ^^^ .ofNat (n % 2)) := by
  have hbit : shiftBit (.ofNat (n % 2)) = if n % 2 = 1 then polynomial else 0 := by
    rcases Nat.mod_two_eq_zero_or_one n with h | h <;> rw [h] <;> decide
  have hfeed (bit : Bool) : feedBit r bit =
      if r.toNat.testBit 0 = bit then r >>> 1 else r >>> 1 ^^^ polynomial := rfl
  -- a bit that comes in takes back what the one that goes out has brought
  have hcancel : r >>> 1 ^^^ polynomial ^^^ polynomial = r >>> 1 := by
    rw [UInt32.xor_assoc, UInt32.xor_self, UInt32.xor_zero]
  rw [shiftBit_xor, shiftBit_eq, hbit, hfeed, Nat.testBit_zero, Nat.testBit_zero]
  by_cases hr : r.toNat % 2 = 1 <;> by_cases hn : n % 2 = 1
  · simp only [hr, hn, if_true, hcancel]
  · simp only [hr, hn, decide_true, decide_false, Bool.true_eq_false, if_true, if_false,
      UInt32.xor_zero]
  · simp only [hr, hn, decide_true, decide_false, Bool.false_eq_true, if_true, if_false,
      UInt32.xor_zero]
  · simp only [hr, hn, if_true, if_false, UInt32.xor_zero]

/-- To feed the bits of a word is to add it to the register and to shift them out. -/
theorem foldl_feedBit_lowest (r : UInt32) (hk : k ≤ 32) (hn : n < 2 ^ k) :
    (lowest k n).foldl feedBit r = shiftBit^[k] (r ^^^ .ofNat n) := by
  induction k generalizing r n with
  | zero =>
    obtain rfl : n = 0 := by omega
    exact (UInt32.xor_zero).symm
  | succ k ih =>
    have hword : 2 ^ (k + 1) ≤ 2 ^ 32 := Nat.pow_le_pow_right (by decide) hk
    have hhalf : n / 2 < 2 ^ k := by
      rw [Nat.pow_succ] at hn
      omega
    -- the later bits pass the first shift as if they had been there from the beginning
    have hlater : shiftBit (.ofNat (2 * (n / 2))) = .ofNat (n / 2) :=
      iterate_shiftBit_ofNat (k := 1) (by omega)
    have hsum : UInt32.ofNat (n % 2) ^^^ .ofNat (2 * (n / 2)) = .ofNat n := by
      have hparts := ofNat_add_two_pow_mul (k := 1) (Nat.mod_lt n (by decide)) (n / 2)
      rw [Nat.pow_one, Nat.mod_add_div] at hparts
      exact hparts.symm
    rw [lowest_succ, List.foldl_cons, ih _ (by omega) hhalf, feedBit_eq, ← hlater, ← shiftBit_xor,
      UInt32.xor_assoc, hsum, Function.iterate_succ_apply]

theorem feed_eq_foldl (r : UInt32) (b : UInt8) :
    feed r b = (lowest 8 b.toNat).foldl feedBit r := by
  rw [feed_eq, foldl_feedBit_lowest r (by decide) b.toNat_lt, UInt32.ofNat_uInt8ToNat]
  rfl

/-- The register after more bytes is the one after their bits. -/
theorem update_eq_foldl (r : UInt32) (bs : Bytes) : update r bs = (bits bs).foldl feedBit r := by
  rw [bits, List.foldl_flatMap, update,
    show feed = fun r b => (lowest 8 b.toNat).foldl feedBit r from
      funext fun r => funext fun b => feed_eq_foldl r b]

/-- The register is carried over any borders. -/
theorem foldl_update (r : UInt32) (pieces : List Bytes) :
    pieces.foldl update r = update r pieces.flatten :=
  List.foldl_flatten.symm

/-- **The checksum is the CRC-32 of the bits.** Take any byte string, empty or of any length. Its
checksum, though computed in steps and by looks into a table, is the number of 32 bits that comes of
feeding all its bits one after the other. It is also what comes of adding each byte to the register
and shifting eight bits out, and of feeding the string in any pieces, of which some may be empty. -/
theorem checksum_bit_by_bit (bs : Bytes) :
    checksum bs = serial (bits bs) ∧ checksum bs = bitwise bs ∧ checksum bs < 2 ^ 32 ∧
    ∀ pieces : List Bytes, pieces.flatten = bs →
      (pieces.foldl update 0xFFFFFFFF ^^^ 0xFFFFFFFF).toNat = checksum bs := by
  refine ⟨?_, ?_, checksum_lt bs, ?_⟩
  · rw [checksum, updateInSteps_eq, update_eq_foldl, serial]
  · rw [checksum, updateInSteps_eq, update_eq, bitwise]
  · rintro pieces rfl
    rw [foldl_update, checksum, updateInSteps_eq]

/-- The digits from one to nine, in pieces of two, none and seven. -/
theorem checksum_bit_by_bit_nine_digits :
    let digits : Bytes := [0x31, 0x32, 0x33, 0x34, 0x35, 0x36, 0x37, 0x38, 0x39]
    let pieces : List Bytes := [digits.take 2, [], digits.drop 2]
    pieces.flatten = digits ∧ checksum digits = 0xCBF43926 ∧
      serial (bits digits) = 0xCBF43926 ∧ bitwise digits = 0xCBF43926 ∧
      (pieces.foldl update 0xFFFFFFFF ^^^ 0xFFFFFFFF).toNat = 0xCBF43926 := by
  intro digits pieces
  have hpieces : pieces.flatten = digits := rfl
  have hserial : serial (bits digits) = 0xCBF43926 := by decide +kernel
  obtain ⟨hbits, hbytes, -, hall⟩ := checksum_bit_by_bit digits
  rw [← hbits] at hserial
  exact ⟨hpieces, hserial, hbits ▸ hserial, hbytes ▸ hserial, (hall pieces hpieces).trans hserial⟩

end ShuffleService.Crc32
