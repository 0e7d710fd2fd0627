/-!
# Wall clock readings

A clock reading is a number of milliseconds since the start of 1970, negative before it. A
timestamp counts from 1970 on and is zero for every earlier reading.
-/

namespace ShuffleService

/-- A reading of the wall clock in milliseconds since the start of 1970. -/
abbrev ClockReading := Int

namespace ClockReading

/-- The timestamp of a reading in milliseconds. -/
def millis (c : ClockReading) : Nat := c.toNat

/-- The timestamp of a reading in whole seconds. -/
def seconds (c : ClockReading) : Nat := c.toNat / 1000

end ClockReading

/-- Times and timeouts are compared without bounds here. In words of 64 bits that is the same as long
as the difference of the two times fits one. -/
theorem lt_sub_eq_slt {timeout now time : BitVec 64} (h : now.ssubOverflow time = false) :
    decide (timeout.toInt < now.toInt - time.toInt) = timeout.slt (now - time) := by
  rw [BitVec.slt_eq_decide, BitVec.toInt_sub_of_not_ssubOverflow (by simp [h])]

end ShuffleService
