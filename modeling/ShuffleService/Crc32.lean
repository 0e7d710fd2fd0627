import ShuffleService.Word

/-!
# CRC-32

The reflected CRC-32 with polynomial `0xEDB88320`, register and result inverted.

* `shiftBit`, `feedBits`, `bitwise`: the definition, one bit at a time;
* `table`, `feed`, `update`: the same register change, one byte at a time;
* `checksum`: the checksum of a block, fed in steps of at most `stepSize` bytes.

The steps do not show in the result: `updateInSteps_eq`.
-/

namespace ShuffleService.Crc32

open scoped PlainNumbers

/-- The generator polynomial with its bits reflected. -/
def polynomial : UInt32 := 0xEDB88320

/-- Shift one bit out of the register, dividing by the polynomial where it was set. -/
def shiftBit (r : UInt32) : UInt32 :=
  if r &&& 1 = 1 then (r >>> 1) ^^^ polynomial else r >>> 1

/-- Shift eight bits out of the register. -/
def shiftByte (r : UInt32) : UInt32 :=
  shiftBit (shiftBit (shiftBit (shiftBit (shiftBit (shiftBit (shiftBit (shiftBit r)))))))

/-- The register after one more byte, bit by bit. -/
def feedBits (r : UInt32) (b : UInt8) : UInt32 := shiftByte (r ^^^ b.toUInt32)

/-- The CRC-32 of a byte string by its definition. -/
def bitwise (bs : Bytes) : Nat := (bs.foldl feedBits 0xFFFFFFFF ^^^ 0xFFFFFFFF).toNat

/-- What shifting a byte out of an otherwise empty register leaves, for each byte. -/
def table : Vector UInt32 256 := Vector.ofFn fun i => shiftByte (UInt32.ofNat i.val)

/-- The register after one more byte, by one look into the table. -/
def feed (r : UInt32) (b : UInt8) : UInt32 :=
  table.get (r ^^^ b.toUInt32).toUInt8.toFin ^^^ (r >>> 8)

/-- The register after more bytes. -/
def update (r : UInt32) (bs : Bytes) : UInt32 := bs.foldl feed r

@[simp] theorem update_nil (r : UInt32) : update r [] = r := rfl

/-- Feeding two byte strings one after the other is feeding both at once. -/
theorem update_append (r : UInt32) (as bs : Bytes) :
    update r (as ++ bs) = update (update r as) bs := List.foldl_append

/-- The most bytes that are fed at a time. -/
def stepSize : Nat := 4096

/-- The register after more bytes, fed in steps. -/
def updateInSteps (r : UInt32) (bs : Bytes) : UInt32 :=
  match _h : bs with
  | [] => r
  | _ :: _ => updateInSteps (update r (bs.take stepSize)) (bs.drop stepSize)
termination_by bs.length
decreasing_by
  have hs : 0 < stepSize := by decide
  subst _h
  simp only [List.length_drop, List.length_cons]
  omega

/-- The checksum that is stored beside a block. -/
def checksum (bs : Bytes) : Nat := (updateInSteps 0xFFFFFFFF bs ^^^ 0xFFFFFFFF).toNat

/-- The borders of the steps do not show in the register. -/
theorem updateInSteps_eq (r : UInt32) (bs : Bytes) : updateInSteps r bs = update r bs := by
  fun_induction updateInSteps r bs with
  | case1 r => rfl
  | case2 r b bs ih => rw [ih, ← update_append, List.take_append_drop]

theorem checksum_lt (bs : Bytes) : checksum bs < 2 ^ (32 : Nat) := UInt32.toNat_lt _

end ShuffleService.Crc32
