import ShuffleService.Word

/-!
# Reading UTF-8

Bytes are read character by character. Where no character can be read, the longest beginning of one
is skipped as a whole, and at least one byte.

* `takeChar`: the first character, or that there is none;
* `decodeStrict?`: the text of well-formed bytes;
* `decodeLossy`: the text of any bytes, with a replacement character for each part skipped.
-/

namespace ShuffleService.Utf8

/-- What a first byte announces: how many bytes follow, the bits it holds itself, and the least and
the greatest byte that may come next. -/
def announced (b : Nat) : Option (Nat × Nat × Nat × Nat) :=
  if b < 0x80 then some (0, b, 0x80, 0xBF)
  else if b < 0xC2 then none
  else if b < 0xE0 then some (1, b - 0xC0, 0x80, 0xBF)
  else if b = 0xE0 then some (2, 0, 0xA0, 0xBF)
  else if b = 0xED then some (2, 0xD, 0x80, 0x9F)
  else if b < 0xF0 then some (2, b - 0xE0, 0x80, 0xBF)
  else if b = 0xF0 then some (3, 0, 0x90, 0xBF)
  else if b < 0xF4 then some (3, b - 0xF0, 0x80, 0xBF)
  else if b = 0xF4 then some (3, 4, 0x80, 0x8F)
  else none

/-- Read the bytes that have been announced, as far as they are there. -/
def follow : (count value low high : Nat) → Bytes → Option Char × Bytes
  | 0, value, _, _, bs => (some (Char.ofNat value), bs)
  | _ + 1, _, _, _, [] => (none, [])
  | k + 1, value, low, high, b :: bs =>
    if low ≤ b.toNat ∧ b.toNat ≤ high then follow k (value * 64 + b.toNat % 64) 0x80 0xBF bs
    else (none, b :: bs)

/-- Read the first character of some bytes. -/
def takeChar (b : UInt8) (bs : Bytes) : Option Char × Bytes :=
  match announced b.toNat with
  | some (count, value, low, high) => follow count value low high bs
  | none => (none, bs)

theorem length_follow (k v lo hi : Nat) (bs : Bytes) :
    (follow k v lo hi bs).2.length ≤ bs.length := by
  induction k generalizing v lo hi bs with
  | zero => simp [follow]
  | succ k ih =>
    cases bs with
    | nil => simp [follow]
    | cons b bs =>
      simp only [follow]
      split
      · exact Nat.le_succ_of_le (ih ..)
      · simp

theorem length_takeChar (b : UInt8) (bs : Bytes) : (takeChar b bs).2.length ≤ bs.length := by
  unfold takeChar
  split
  · exact length_follow ..
  · simp

/-- The characters of some bytes, with `none` for each part that is skipped. -/
def chars : Bytes → List (Option Char)
  | [] => []
  | b :: bs => (takeChar b bs).1 :: chars (takeChar b bs).2
termination_by bs => bs.length
decreasing_by
  have := length_takeChar b bs
  rw [List.length_cons]
  omega

/-- The text of well-formed bytes. -/
def decodeStrict? (bs : Bytes) : Option String :=
  let cs := chars bs
  if cs.all (·.isSome) then some (String.ofList (cs.filterMap id)) else none

/-- The character that stands for a part that is skipped. -/
def replacement : Char := '\uFFFD'

/-- The text of any bytes. -/
def decodeLossy (bs : Bytes) : String := String.ofList ((chars bs).map (·.getD replacement))

end ShuffleService.Utf8
