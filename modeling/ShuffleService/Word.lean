/-!
# Words

Whole numbers as words of a fixed width and as bytes.

* `unsigned`, `signed`: the two readings of a word of a given number of bits;
* `littleEndian`, `bigEndian`: the bytes of a number, and `ofLittleEndian`, `ofBigEndian` back;
* `takeWord?`: cut a word of a given number of bytes off a byte string.
-/

namespace ShuffleService

namespace PlainNumbers

/-- Powers of `Nat` and `Int` as these define them, also where a monoid's power is in scope. For an
exponent without a type the monoid's would still be the default, so the type is written out. -/
scoped instance (priority := 2000) powOfNatPow {α : Type} [NatPow α] : Pow α Nat := instPowNat

/-- Sums of counts start at the literal `0`, also where a semiring's zero is in scope. -/
scoped instance (priority := 2000) zeroOfLiteral : Zero Nat := ⟨0⟩

end PlainNumbers

open scoped PlainNumbers

/-- A byte string. -/
abbrev Bytes := List UInt8

/-- The number that the `bits` low bits of a number stand for. -/
def lowBits (bits n : Nat) : Nat := if n.log2 < bits then n else n % 2 ^ bits

theorem lowBits_eq (bits n : Nat) : lowBits bits n = n % 2 ^ bits := by
  unfold lowBits
  split
  · rename_i h
    by_cases hn : n = 0
    · simp [hn]
    · exact (Nat.mod_eq_of_lt ((Nat.log2_lt hn).1 h)).symm
  · rfl

/-- The unsigned reading of a word of `bits` bits. -/
def unsigned (bits : Nat) (x : Int) : Nat :=
  if 0 ≤ x then lowBits bits x.toNat else (x % (2 ^ bits : Nat)).toNat

/-- The signed reading of a word of `bits` bits. -/
def signed (bits : Nat) (n : Nat) : Int :=
  if n.log2 + 1 < bits then n else Int.bmod n (2 ^ bits)

theorem unsigned_eq (bits : Nat) (x : Int) : unsigned bits x = (x % (2 ^ bits : Nat)).toNat := by
  unfold unsigned
  split
  · rename_i h
    obtain ⟨n, rfl⟩ := Int.eq_ofNat_of_zero_le h
    rw [lowBits_eq, Int.toNat_natCast, ← Int.natCast_emod, Int.toNat_natCast]
  · rfl

theorem signed_eq (bits n : Nat) : signed bits n = Int.bmod n (2 ^ bits) := by
  unfold signed
  split
  · rename_i h
    have hlt : n < 2 ^ (bits - 1) := by
      by_cases hn : n = 0
      · rw [hn]
        exact Nat.two_pow_pos _
      · exact (Nat.log2_lt hn).1 (by omega)
    have hpow : 2 ^ bits = 2 * 2 ^ (bits - 1) := by
      rw [← Nat.pow_succ']
      congr 1
      omega
    rw [Int.bmod_eq_of_le] <;> omega
  · rfl

theorem unsigned_lt (bits : Nat) (x : Int) : unsigned bits x < 2 ^ bits := by
  have hpos := Nat.two_pow_pos bits
  have h := Int.emod_lt_of_pos x (b := (2 ^ bits : Nat)) (by omega)
  have h0 := Int.emod_nonneg x (b := (2 ^ bits : Nat)) (by omega)
  rw [unsigned_eq]
  omega

/-- The two readings name the same word. -/
theorem unsigned_signed {bits n : Nat} (h : n < 2 ^ bits) : unsigned bits (signed bits n) = n := by
  rw [unsigned_eq, signed_eq, Int.bmod_emod, Int.emod_eq_of_lt (by omega) (by omega)]
  simp

/-- The `width` low bytes of a number, the lowest first. -/
def littleEndian : (width : Nat) → Nat → Bytes
  | 0, _ => []
  | k + 1, n => UInt8.ofNat n :: littleEndian k (n / 256)

/-- The `width` low bytes of a number, the lowest last. -/
def bigEndian (width n : Nat) : Bytes := (littleEndian width n).reverse

/-- The number whose bytes these are, the lowest first. -/
def ofLittleEndian (bs : Bytes) : Nat := bs.foldr (fun b n => b.toNat + 256 * n) 0

/-- The number whose bytes these are, the lowest last. -/
def ofBigEndian (bs : Bytes) : Nat := bs.foldl (fun n b => 256 * n + b.toNat) 0

@[simp] theorem length_littleEndian (k n : Nat) : (littleEndian k n).length = k := by
  induction k generalizing n with
  | zero => rfl
  | succ k ih => simp [littleEndian, ih]

@[simp] theorem length_bigEndian (k n : Nat) : (bigEndian k n).length = k := by
  simp [bigEndian]

theorem ofLittleEndian_cons (b : UInt8) (bs : Bytes) :
    ofLittleEndian (b :: bs) = b.toNat + 256 * ofLittleEndian bs := rfl

theorem ofBigEndian_eq (bs : Bytes) : ofBigEndian bs = ofLittleEndian bs.reverse := by
  have h : (fun (b : UInt8) (n : Nat) => b.toNat + 256 * n) = fun b n => 256 * n + b.toNat := by
    funext b n
    omega
  simp [ofBigEndian, ofLittleEndian, h]

/-- Writing a number that fits and reading it back. -/
theorem ofLittleEndian_littleEndian {k n : Nat} (h : n < 256 ^ k) :
    ofLittleEndian (littleEndian k n) = n := by
  induction k generalizing n with
  | zero => simp [littleEndian, ofLittleEndian] at *; omega
  | succ k ih =>
    have hlt : n / 256 < 256 ^ k := by rw [Nat.pow_succ] at h; omega
    rw [littleEndian, ofLittleEndian_cons, ih hlt, UInt8.toNat_ofNat']
    omega

theorem ofBigEndian_bigEndian {k n : Nat} (h : n < 256 ^ k) : ofBigEndian (bigEndian k n) = n := by
  rw [ofBigEndian_eq, bigEndian, List.reverse_reverse, ofLittleEndian_littleEndian h]

theorem ofLittleEndian_lt (bs : Bytes) : ofLittleEndian bs < 256 ^ bs.length := by
  induction bs with
  | nil => decide
  | cons b bs ih =>
    have hb : b.toNat < 256 := b.toNat_lt
    rw [ofLittleEndian_cons, List.length_cons, Nat.pow_succ]
    omega

/-- Reading bytes and writing as many again. -/
theorem littleEndian_ofLittleEndian (bs : Bytes) :
    littleEndian bs.length (ofLittleEndian bs) = bs := by
  induction bs with
  | nil => rfl
  | cons b bs ih =>
    have hb : b.toNat < 256 := b.toNat_lt
    have hq : (b.toNat + 256 * ofLittleEndian bs) / 256 = ofLittleEndian bs := by omega
    have hr : UInt8.ofNat (b.toNat + 256 * ofLittleEndian bs) = b := by
      apply UInt8.toNat_inj.1
      rw [UInt8.toNat_ofNat']
      omega
    rw [ofLittleEndian_cons, List.length_cons, littleEndian, hq, hr, ih]

theorem bigEndian_ofBigEndian (bs : Bytes) : bigEndian bs.length (ofBigEndian bs) = bs := by
  rw [ofBigEndian_eq, bigEndian, ← List.length_reverse, littleEndian_ofLittleEndian,
    List.reverse_reverse]

/-- Cut the first `width` bytes off, if there are as many. -/
def takeBytes? (width : Nat) (bs : Bytes) : Option (Bytes × Bytes) :=
  let head := bs.take width
  if head.length = width then some (head, bs.drop width) else none

/-- Cut a little-endian word of `width` bytes off. -/
def takeWord? (width : Nat) (bs : Bytes) : Option (Nat × Bytes) :=
  (takeBytes? width bs).map fun (head, rest) => (ofLittleEndian head, rest)

/-- Cut a big-endian word of `width` bytes off. -/
def takeBigWord? (width : Nat) (bs : Bytes) : Option (Nat × Bytes) :=
  (takeBytes? width bs).map fun (head, rest) => (ofBigEndian head, rest)

theorem takeBytes?_append {width : Nat} {head : Bytes} (h : head.length = width) (rest : Bytes) :
    takeBytes? width (head ++ rest) = some (head, rest) := by
  subst h
  simp [takeBytes?]

theorem takeWord?_append {width n : Nat} (h : n < 256 ^ width) (rest : Bytes) :
    takeWord? width (littleEndian width n ++ rest) = some (n, rest) := by
  simp [takeWord?, takeBytes?_append, ofLittleEndian_littleEndian h]

theorem takeBigWord?_append {width n : Nat} (h : n < 256 ^ width) (rest : Bytes) :
    takeBigWord? width (bigEndian width n ++ rest) = some (n, rest) := by
  simp [takeBigWord?, takeBytes?_append, ofBigEndian_bigEndian h]

end ShuffleService
