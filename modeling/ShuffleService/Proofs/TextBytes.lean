import ShuffleService.Text.Utf8

/-!
# Bytes that hold a text

The bytes of a text are those of its characters, one after the other. They are read as that text
(`decodeStrict?_eq_some_iff`, `decodeLossy_of_text`), and no other bytes are read as it without a
character being replaced. Each of the two ways goes by the first byte of a character: it says how
many bytes follow, and which of them may come next, so that no character has two forms and none is
read that a text cannot have.
-/

namespace ShuffleService.Utf8

variable {n k count value low high : Nat} {b : UInt8} {bs rest : Bytes} {c : Char} {s : String}

/-! ### From characters to bytes -/

theorem announced_two (h : 0xC2 ≤ n ∧ n < 0xE0) :
    announced n = some (1, n - 0xC0, 0x80, 0xBF) := by
  rw [announced, if_neg (by omega), if_neg (by omega), if_pos h.2]

theorem announced_three (h : 0xE0 ≤ n ∧ n < 0xF0) : announced n =
    some (2, n - 0xE0, if n = 0xE0 then 0xA0 else 0x80, if n = 0xED then 0x9F else 0xBF) := by
  rw [announced, if_neg (by omega), if_neg (by omega), if_neg (by omega)]
  by_cases hfirst : n = 0xE0
  · subst hfirst
    rfl
  by_cases hlast : n = 0xED
  · subst hlast
    rfl
  rw [if_neg hfirst, if_neg hlast, if_pos h.2, if_neg hfirst, if_neg hlast]

theorem announced_four (h : 0xF0 ≤ n ∧ n ≤ 0xF4) : announced n =
    some (3, n - 0xF0, if n = 0xF0 then 0x90 else 0x80, if n = 0xF4 then 0x8F else 0xBF) := by
  rw [announced, if_neg (by omega), if_neg (by omega), if_neg (by omega), if_neg (by omega),
    if_neg (by omega), if_neg (by omega)]
  by_cases hfirst : n = 0xF0
  · subst hfirst
    rfl
  by_cases hlast : n = 0xF4
  · subst hlast
    rfl
  rw [if_neg hfirst, if_pos (by omega), if_neg hfirst, if_neg hlast]

theorem takeChar_byte (hbyte : n < 256) (h : announced n = some (count, value, low, high))
    (bs : Bytes) : takeChar (.ofNat n) bs = follow count value low high bs := by
  rw [takeChar, UInt8.toNat_ofNat_of_lt' hbyte, h]

theorem follow_byte (hbyte : n < 256) (h : low ≤ n ∧ n ≤ high) (bs : Bytes) :
    follow (k + 1) value low high (.ofNat n :: bs) =
      follow k (value * 64 + n % 64) 0x80 0xBF bs := by
  rw [follow, UInt8.toNat_ofNat_of_lt' hbyte, if_pos h]

/-- The bytes of a character are read as that character. -/
theorem chars_utf8EncodeChar (c : Char) (bs : Bytes) :
    chars (String.utf8EncodeChar c ++ bs) = some c :: chars bs := by
  have hvalid : c.val.toNat < 0xD800 ∨ 0xDFFF < c.val.toNat ∧ c.val.toNat < 0x110000 := c.valid
  have hvalue {n : Nat} (h : n = c.val.toNat) : some (Char.ofNat n) = some c := by
    rw [h]
    exact congrArg some (Char.ofNat_toNat c)
  unfold String.utf8EncodeChar
  generalize c.val.toNat = v at hvalid hvalue
  dsimp only
  split
  · rw [List.singleton_append, chars, takeChar_byte (by omega) (if_pos (by omega)), follow,
      hvalue rfl]
  split
  · rw [List.cons_append, List.singleton_append, chars,
      takeChar_byte (by omega) (announced_two (by omega)), follow_byte (by omega) (by omega), follow,
      hvalue (by omega)]
  split
  · rw [List.cons_append, List.cons_append, List.singleton_append, chars,
      takeChar_byte (by omega) (announced_three (by omega)),
      follow_byte (by omega) (by split <;> split <;> omega), follow_byte (by omega) (by omega),
      follow, hvalue (by omega)]
  · rw [List.cons_append, List.cons_append, List.cons_append, List.singleton_append, chars,
      takeChar_byte (by omega) (announced_four (by omega)),
      follow_byte (by omega) (by split <;> split <;> omega), follow_byte (by omega) (by omega),
      follow_byte (by omega) (by omega), follow, hvalue (by omega)]

/-! ### From bytes to characters -/

/-- What a first byte announces, by the number of bytes that follow. -/
theorem announced_cases (h : announced n = some (count, value, low, high)) :
    (count = 0 ∧ n < 0x80 ∧ value = n) ∨
    (count = 1 ∧ 0xC2 ≤ n ∧ n < 0xE0 ∧ value + 0xC0 = n ∧ 0x80 ≤ low ∧ high ≤ 0xBF) ∨
    (count = 2 ∧ 0xE0 ≤ n ∧ n < 0xF0 ∧ value + 0xE0 = n ∧ 0x80 ≤ low ∧ high ≤ 0xBF ∧
      (n = 0xE0 → 0xA0 ≤ low) ∧ (n = 0xED → high ≤ 0x9F)) ∨
    (count = 3 ∧ 0xF0 ≤ n ∧ n ≤ 0xF4 ∧ value + 0xF0 = n ∧ 0x80 ≤ low ∧ high ≤ 0xBF ∧
      (n = 0xF0 → 0x90 ≤ low) ∧ (n = 0xF4 → high ≤ 0x8F)) := by
  unfold announced at h
  repeat' split at h
  all_goals
    simp only [Option.some.injEq, Prod.mk.injEq, reduceCtorEq] at h <;> omega

theorem exists_of_follow (h : follow (k + 1) value low high bs = (some c, rest)) :
    ∃ b bs', bs = b :: bs' ∧ (low ≤ b.toNat ∧ b.toNat ≤ high) ∧
      follow k (value * 64 + b.toNat % 64) 0x80 0xBF bs' = (some c, rest) := by
  cases bs with
  | nil => cases h
  | cons b bs =>
    rw [follow] at h
    split at h
    · exact ⟨b, bs, rfl, ‹_›, h⟩
    · cases h

theorem toNat_ofNat_of_valid (h : n.isValidChar) : (Char.ofNat n).val.toNat = n := by
  unfold Char.ofNat
  rw [dif_pos h]
  rfl

theorem ofNat_of_eq_toNat (h : n = b.toNat) : UInt8.ofNat n = b := by
  rw [h, UInt8.ofNat_toNat]

/-- What is read as a character are the bytes of that character. -/
theorem eq_of_takeChar (h : takeChar b bs = (some c, rest)) :
    b :: bs = String.utf8EncodeChar c ++ rest := by
  unfold takeChar at h
  split at h
  case h_2 => cases h
  case h_1 count value low high hannounced =>
    have hb := b.toNat_lt
    obtain ⟨rfl, hlt, rfl⟩ | ⟨rfl, hlo, hhi, hvalue, hlow, hhigh⟩ |
      ⟨rfl, hlo, hhi, hvalue, hlow, hhigh, hfirst, hlast⟩ |
      ⟨rfl, hlo, hhi, hvalue, hlow, hhigh, hfirst, hlast⟩ := announced_cases hannounced
    · rw [follow] at h
      cases h
      have hv := toNat_ofNat_of_valid (n := b.toNat) (.inl (by omega))
      rw [String.utf8EncodeChar, hv, if_pos (by omega), ofNat_of_eq_toNat rfl]
      rfl
    · obtain ⟨b₁, bs, rfl, hb₁, h⟩ := exists_of_follow h
      cases h
      have hv := toNat_ofNat_of_valid (n := value * 64 + b₁.toNat % 64) (.inl (by omega))
      rw [String.utf8EncodeChar, hv, if_neg (by omega), if_pos (by omega),
        ofNat_of_eq_toNat (b := b) (by omega), ofNat_of_eq_toNat (b := b₁) (by omega)]
      rfl
    · obtain ⟨b₁, bs, rfl, hb₁, h⟩ := exists_of_follow h
      obtain ⟨b₂, bs, rfl, hb₂, h⟩ := exists_of_follow h
      cases h
      have hv := toNat_ofNat_of_valid (n := (value * 64 + b₁.toNat % 64) * 64 + b₂.toNat % 64)
        (by unfold Nat.isValidChar; omega)
      rw [String.utf8EncodeChar, hv, if_neg (by omega), if_neg (by omega), if_pos (by omega),
        ofNat_of_eq_toNat (b := b) (by omega), ofNat_of_eq_toNat (b := b₁) (by omega),
        ofNat_of_eq_toNat (b := b₂) (by omega)]
      rfl
    · obtain ⟨b₁, bs, rfl, hb₁, h⟩ := exists_of_follow h
      obtain ⟨b₂, bs, rfl, hb₂, h⟩ := exists_of_follow h
      obtain ⟨b₃, bs, rfl, hb₃, h⟩ := exists_of_follow h
      cases h
      have hv := toNat_ofNat_of_valid
        (n := ((value * 64 + b₁.toNat % 64) * 64 + b₂.toNat % 64) * 64 + b₃.toNat % 64)
        (by unfold Nat.isValidChar; omega)
      rw [String.utf8EncodeChar, hv, if_neg (by omega), if_neg (by omega), if_neg (by omega),
        ofNat_of_eq_toNat (b := b) (by omega), ofNat_of_eq_toNat (b := b₁) (by omega),
        ofNat_of_eq_toNat (b := b₂) (by omega), ofNat_of_eq_toNat (b := b₃) (by omega)]
      rfl

/-! ### Texts -/

/-- Bytes are read without a part being skipped just if they are those of the characters read. -/
theorem chars_eq_map_some_iff {cs : List Char} :
    chars bs = cs.map some ↔ bs = cs.flatMap String.utf8EncodeChar := by
  constructor
  · intro h
    induction cs generalizing bs with
    | nil =>
      cases bs with
      | nil => rfl
      | cons b bs =>
        rw [chars] at h
        cases h
    | cons c cs ih =>
      cases bs with
      | nil =>
        rw [chars] at h
        cases h
      | cons b bs =>
        rw [chars, List.map_cons, List.cons.injEq] at h
        rw [List.flatMap_cons, ← ih h.2]
        exact eq_of_takeChar (Prod.ext h.1 rfl)
  · rintro rfl
    induction cs with
    | nil => rw [List.flatMap_nil, chars, List.map_nil]
    | cons c cs ih => rw [List.flatMap_cons, chars_utf8EncodeChar, ih, List.map_cons]

/-- The bytes of a text are those of its characters. -/
theorem toList_data_toByteArray (s : String) :
    s.toByteArray.data.toList = s.toList.flatMap String.utf8EncodeChar := by
  rw [← String.utf8Encode_toList, List.utf8Encode, List.data_toByteArray]

theorem map_some_filterMap {xs : List (Option Char)} (h : xs.all (·.isSome) = true) :
    (xs.filterMap id).map some = xs := by
  induction xs with
  | nil => rfl
  | cons x xs ih =>
    rw [List.all_cons, Bool.and_eq_true] at h
    cases x with
    | none => cases h.1
    | some c => exact congrArg (some c :: ·) (ih h.2)

/-- **Well-formed bytes.** Bytes are read as a text just if they are the bytes of that text. -/
theorem decodeStrict?_eq_some_iff : decodeStrict? bs = some s ↔ bs = s.toByteArray.data.toList := by
  rw [toList_data_toByteArray, ← chars_eq_map_some_iff]
  unfold decodeStrict?
  dsimp only
  constructor
  · intro h
    split at h
    · rw [← Option.some.inj h, String.toList_ofList, map_some_filterMap ‹_›]
    · cases h
  · intro h
    rw [h, if_pos (by simp), List.filterMap_map]
    exact congrArg some ((congrArg String.ofList List.filterMap_some).trans String.ofList_toList)

/-- The bytes of a text are read as that text. -/
theorem decodeLossy_of_text (s : String) : decodeLossy s.toByteArray.data.toList = s := by
  rw [toList_data_toByteArray, decodeLossy, chars_eq_map_some_iff.2 rfl, List.map_map]
  exact (congrArg String.ofList (List.map_id _)).trans String.ofList_toList

-- the three bytes begin a character of four, so they are skipped as one part
example : decodeLossy [0x48, 0x69, 0xF0, 0x90, 0x80, 0x21] = "Hi\uFFFD!" := by decide +kernel

end ShuffleService.Utf8
