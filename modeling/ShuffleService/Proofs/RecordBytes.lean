import Mathlib.Algebra.Order.Ring.Int
import ShuffleService.IndexRecord

/-!
# Index records through their bytes, and in chunks

A record whose fields fit their words is read back from its bytes, and so is a list of records
(`decodeAll_flatMap_encode`). The other way round, the records that are read from any bytes fit, and
are written as the same bytes again (`fits_of_mem_decodeAll`, `flatMap_encode_decodeAll`);
`records_through_bytes` says both. Grouping records into chunks keeps them all in order and leaves
no chunk empty (`flatten_groupIntoChunks`, `ne_nil_of_mem_groupIntoChunks`).
-/

namespace ShuffleService

/-- A number that fits a signed word is the number that the word stands for. -/
theorem signed_unsigned {bits : Nat} {x : Int} (hpos : 0 < bits) (hlo : -2 ^ (bits - 1) ≤ x)
    (hhi : x < 2 ^ (bits - 1)) : signed bits (unsigned bits x) = x := by
  have hpow : ((2 ^ bits : Nat) : Int) = 2 * 2 ^ (bits - 1) := by
    obtain ⟨k, rfl⟩ : ∃ k, bits = k + 1 := ⟨bits - 1, by omega⟩
    rw [Nat.pow_succ, Nat.add_sub_cancel]
    push_cast
    omega
  have hmod : 0 ≤ x % (2 ^ bits : Nat) := Int.emod_nonneg x (by
    have := Nat.two_pow_pos bits
    omega)
  rw [signed_eq, unsigned_eq, Int.toNat_of_nonneg hmod, Int.emod_bmod]
  exact Int.bmod_eq_of_le (by omega) (by omega)

namespace IndexRecord

variable {bs : Bytes}

/-- Whether a number fits a signed word of `k` bytes. -/
def fitsBytes (k : Nat) (x : Int) : Prop := -2 ^ (8 * k - 1) ≤ x ∧ x < 2 ^ (8 * k - 1)

instance (k : Nat) (x : Int) : Decidable (fitsBytes k x) := inferInstanceAs (Decidable (_ ∧ _))

/-- The fields of a record fit their words. -/
structure Fits (r : IndexRecord) : Prop where
  offset : fitsBytes 8 r.offset
  length : fitsBytes 4 r.length
  rawLength : fitsBytes 4 r.rawLength
  crc : fitsBytes 8 r.crc
  blockId : fitsBytes 8 r.blockId
  task : fitsBytes 8 r.task

@[simp] theorem length_signedBytes (k : Nat) (x : Int) : (signedBytes k x).length = k := by
  simp [signedBytes]

/-- A field stands where the fields before it end. -/
theorem signedAt_append (before after : Bytes) (start : Nat) {k : Nat} {x : Int}
    (hstart : before.length = start) (hpos : 0 < k) (hx : fitsBytes k x) :
    signedAt (before ++ (signedBytes k x ++ after)) start k = x := by
  have hword : unsigned (8 * k) x < 256 ^ k := by
    have := unsigned_lt (8 * k) x
    rwa [Nat.pow_mul] at this
  rw [signedAt, List.drop_left' hstart, List.take_left' (length_signedBytes k x), signedBytes,
    ofBigEndian_bigEndian hword]
  exact signed_unsigned (by omega) hx.1 hx.2

/-- A record is read back from its bytes, whatever follows them. -/
theorem ofBytes_encode {r : IndexRecord} (h : r.Fits) (rest : Bytes) :
    ofBytes (r.encode ++ rest) = r := by
  obtain ⟨offset, length, rawLength, crc, blockId, task⟩ := r
  have hoffset := signedAt_append [] (signedBytes 4 length ++ signedBytes 4 rawLength ++
    signedBytes 8 crc ++ signedBytes 8 blockId ++ signedBytes 8 task ++ rest) 0 rfl (by decide)
    h.offset
  have hlength := signedAt_append (signedBytes 8 offset) (signedBytes 4 rawLength ++
    signedBytes 8 crc ++ signedBytes 8 blockId ++ signedBytes 8 task ++ rest) 8 (by simp)
    (by decide) h.length
  have hrawLength := signedAt_append (signedBytes 8 offset ++ signedBytes 4 length)
    (signedBytes 8 crc ++ signedBytes 8 blockId ++ signedBytes 8 task ++ rest) 12 (by simp)
    (by decide) h.rawLength
  have hcrc := signedAt_append (signedBytes 8 offset ++ signedBytes 4 length ++
    signedBytes 4 rawLength) (signedBytes 8 blockId ++ signedBytes 8 task ++ rest) 16 (by simp)
    (by decide) h.crc
  have hblockId := signedAt_append (signedBytes 8 offset ++ signedBytes 4 length ++
    signedBytes 4 rawLength ++ signedBytes 8 crc) (signedBytes 8 task ++ rest) 24 (by simp)
    (by decide) h.blockId
  have htask := signedAt_append (signedBytes 8 offset ++ signedBytes 4 length ++
    signedBytes 4 rawLength ++ signedBytes 8 crc ++ signedBytes 8 blockId) rest 32 (by simp)
    (by decide) h.task
  simp only [List.append_assoc, List.nil_append] at hoffset hlength hrawLength hcrc hblockId htask
  simp only [ofBytes, encode, List.append_assoc, hoffset, hlength, hrawLength, hcrc, hblockId,
    htask]

/-- Records are read back from their bytes, and the beginning of another one after them is
dropped. -/
theorem decodeAll_flatMap_encode {rs : List IndexRecord} (h : ∀ r ∈ rs, r.Fits) {tail : Bytes}
    (htail : tail.length < width) : decodeAll (rs.flatMap encode ++ tail) = rs := by
  induction rs with
  | nil => exact decodeAll_of_lt htail
  | cons r rs ih =>
    have hlen : width ≤ ((r :: rs).flatMap encode ++ tail).length := by
      simp [List.flatMap_cons]
    rw [decodeAll_of_le hlen, List.flatMap_cons, List.append_assoc,
      ofBytes_encode (h r (List.mem_cons_self ..)), List.drop_left' (length_encode r),
      ih fun s hs => h s (List.mem_cons_of_mem r hs)]

/-- Of records that were cut off, the complete ones are read back. -/
theorem decodeAll_take {rs : List IndexRecord} (h : ∀ r ∈ rs, r.Fits) (n : Nat) :
    decodeAll ((rs.flatMap encode).take n) = rs.take (n / width) := by
  induction rs generalizing n with
  | nil =>
    rw [List.flatMap_nil, List.take_nil, List.take_nil]
    rfl
  | cons r rs ih =>
    by_cases hn : n < width
    · rw [decodeAll_of_lt (Nat.lt_of_le_of_lt (List.length_take_le n _) hn), Nat.div_eq_of_lt hn]
      rfl
    · have hn : width ≤ n := by omega
      have hcut : ((r :: rs).flatMap encode).take n =
          r.encode ++ (rs.flatMap encode).take (n - width) := by
        rw [List.flatMap_cons, List.take_append, length_encode,
          List.take_of_length_le (by rw [length_encode]; exact hn)]
      have hlen : width ≤ (((r :: rs).flatMap encode).take n).length := by
        rw [hcut, List.length_append, length_encode]
        exact Nat.le_add_right ..
      have hcount : n / width = (n - width) / width + 1 := by
        rw [← Nat.add_div_right _ (by decide), Nat.sub_add_cancel hn]
      rw [decodeAll_of_le hlen, hcut, ofBytes_encode (h r (List.mem_cons_self ..)),
        List.drop_left' (length_encode r), ih fun s hs => h s (List.mem_cons_of_mem r hs), hcount]
      rfl

/-! ### Records from any bytes -/

theorem ofBigEndian_lt (bs : Bytes) : ofBigEndian bs < 256 ^ bs.length := by
  have h := ofLittleEndian_lt bs.reverse
  rwa [← ofBigEndian_eq, List.length_reverse] at h

/-- The number in a field fits the word of the field. -/
theorem fitsBytes_signedAt (bs : Bytes) (start : Nat) {k : Nat} (hpos : 0 < k) :
    fitsBytes k (signedAt bs start k) := by
  have hword : (2 ^ (8 * k) : Nat) = 2 * 2 ^ (8 * k - 1) := by
    rw [← Nat.pow_succ', Nat.succ_eq_add_one, Nat.sub_add_cancel (by omega)]
  have hhalf := Nat.two_pow_pos (8 * k - 1)
  have hcast : ((2 ^ (8 * k - 1) : Nat) : Int) = 2 ^ (8 * k - 1) := Int.natCast_pow 2 _
  rw [signedAt, signed_eq, hword]
  generalize ofBigEndian ((bs.drop start).take k) = n
  have hlo := @Int.le_bmod n (2 * 2 ^ (8 * k - 1)) (by omega)
  have hhi := @Int.bmod_lt n (2 * 2 ^ (8 * k - 1)) (by omega)
  rw [fitsBytes, ← hcast]
  omega

/-- Reading a field and writing it again gives its bytes. -/
theorem signedBytes_signedAt {start k : Nat} (h : start + k ≤ bs.length) :
    signedBytes k (signedAt bs start k) = (bs.drop start).take k := by
  have hlength : ((bs.drop start).take k).length = k := by
    rw [List.length_take, List.length_drop]
    omega
  have hlt : ofBigEndian ((bs.drop start).take k) < 2 ^ (8 * k) := by
    have hlt := ofBigEndian_lt ((bs.drop start).take k)
    rw [hlength] at hlt
    rwa [Nat.pow_mul]
  have hbytes := bigEndian_ofBigEndian ((bs.drop start).take k)
  rw [hlength] at hbytes
  rw [signedBytes, signedAt, unsigned_signed hlt, hbytes]

theorem fits_ofBytes (bs : Bytes) : (ofBytes bs).Fits where
  offset := fitsBytes_signedAt bs 0 (by decide)
  length := fitsBytes_signedAt bs 8 (by decide)
  rawLength := fitsBytes_signedAt bs 12 (by decide)
  crc := fitsBytes_signedAt bs 16 (by decide)
  blockId := fitsBytes_signedAt bs 24 (by decide)
  task := fitsBytes_signedAt bs 32 (by decide)

/-- A record that was read is written as the bytes that it was read from. -/
theorem encode_ofBytes (h : width ≤ bs.length) : (ofBytes bs).encode = bs.take width := by
  have hlength : 40 ≤ bs.length := h
  have hwidth : width = 8 + 4 + 4 + 8 + 8 + 8 := rfl
  simp only [encode, ofBytes, hwidth, List.take_add]
  rw [signedBytes_signedAt (by omega), signedBytes_signedAt (by omega),
    signedBytes_signedAt (by omega), signedBytes_signedAt (by omega),
    signedBytes_signedAt (by omega), signedBytes_signedAt (by omega)]
  rfl

/-- Read record after record, each on its own, as long as there are bytes for one more. -/
def decodeEach (bs : Bytes) : Except ShuffleError (List IndexRecord) :=
  if width ≤ bs.length then do
    let r ← decode (bs.take width)
    let rs ← decodeEach (bs.drop width)
    return r :: rs
  else return []
termination_by bs.length
decreasing_by
  have hpos : 0 < width := by decide
  rw [List.length_drop]
  omega

theorem decode_of_le (h : width ≤ bs.length) : decode bs = .ok (ofBytes bs) := by
  rw [decode, if_neg (by omega)]

/-- What follows the bytes of a record is not looked at. -/
theorem ofBytes_take (h : width ≤ bs.length) : ofBytes (bs.take width) = ofBytes bs := by
  have hrecord := ofBytes_encode (fits_ofBytes bs) []
  rwa [List.append_nil, encode_ofBytes h] at hrecord

/-- No record on the way fails, since there are always enough bytes for it. -/
theorem decodeEach_eq (bs : Bytes) : decodeEach bs = .ok (decodeAll bs) := by
  fun_induction decodeEach bs with
  | case1 bs h ih =>
    have hhead : width ≤ (bs.take width).length := by
      rw [List.length_take]
      omega
    rw [ih, decode_of_le hhead, ofBytes_take h, decodeAll_of_le h]
    rfl
  | case2 bs h =>
    rw [decodeAll_of_lt (by omega)]
    rfl

theorem fits_of_mem_decodeAll {r : IndexRecord} (h : r ∈ decodeAll bs) : r.Fits := by
  fun_induction decodeEach bs with
  | case1 bs hlength ih =>
    rw [decodeAll_of_le hlength] at h
    rcases List.mem_cons.1 h with rfl | h
    · exact fits_ofBytes bs
    · exact ih h
  | case2 bs hlength =>
    rw [decodeAll_of_lt (by omega)] at h
    exact absurd h List.not_mem_nil

theorem length_decodeAll (bs : Bytes) : (decodeAll bs).length = bs.length / width := by
  fun_induction decodeEach bs with
  | case1 bs h ih =>
    rw [decodeAll_of_le h, List.length_cons, ih, List.length_drop,
      ← Nat.add_div_right _ (by decide), Nat.sub_add_cancel h]
  | case2 bs h =>
    rw [decodeAll_of_lt (by omega), Nat.div_eq_of_lt (by omega)]
    rfl

/-- Records that were read are written as the bytes that they were read from. -/
theorem flatMap_encode_decodeAll (bs : Bytes) :
    (decodeAll bs).flatMap encode = bs.take (width * (decodeAll bs).length) := by
  fun_induction decodeEach bs with
  | case1 bs h ih =>
    rw [decodeAll_of_le h, List.flatMap_cons, ih, encode_ofBytes h, List.length_cons,
      Nat.mul_succ, Nat.add_comm, List.take_add]
  | case2 bs h =>
    rw [decodeAll_of_lt (by omega)]
    rfl

/-- **Records and their bytes.**

* Records whose fields fit their words are read back from their bytes, and fewer bytes than a record
  has after them are dropped.
* Of any bytes all records are read, one for every 40 bytes, without a failure, and their fields
  fit. Written again they are the bytes that they were read from.
* A single record is read just if there are 40 bytes for it, which are then the bytes of the
  record. -/
theorem records_through_bytes :
    (∀ (rs : List IndexRecord) (tail : Bytes), (∀ r ∈ rs, r.Fits) → tail.length < width →
      decodeEach (rs.flatMap encode ++ tail) = .ok rs) ∧
    (∀ bs : Bytes, decodeEach bs = .ok (decodeAll bs) ∧
      (decodeAll bs).length = bs.length / width ∧ (∀ r ∈ decodeAll bs, r.Fits) ∧
      (decodeAll bs).flatMap encode = bs.take (width * (bs.length / width))) ∧
    ∀ bs : Bytes, ((∃ e, decode bs = .error e) ↔ bs.length < width) ∧
      (width ≤ bs.length → ∃ r, decode bs = .ok r ∧ r.Fits ∧ r.encode = bs.take width) := by
  refine ⟨fun rs tail hrs htail => ?_, fun bs => ⟨decodeEach_eq bs, length_decodeAll bs,
    fun r hr => fits_of_mem_decodeAll hr, ?_⟩, fun bs => ⟨⟨?_, fun h => ?_⟩, fun h => ?_⟩⟩
  · rw [decodeEach_eq, decodeAll_flatMap_encode hrs htail]
  · rw [flatMap_encode_decodeAll, length_decodeAll]
  · rintro ⟨e, he⟩
    refine Nat.lt_of_not_le fun hle => ?_
    cases (decode_of_le hle).symm.trans he
  · exact ⟨_, if_pos h⟩
  · exact ⟨ofBytes bs, decode_of_le h, fits_ofBytes bs, encode_ofBytes h⟩

/-- Two records with the least and the greatest number in every field, and a byte too many. -/
theorem records_through_bytes_extremes :
    let rs : List IndexRecord := [⟨-2 ^ 63, -2 ^ 31, -2 ^ 31, -2 ^ 63, -2 ^ 63, -2 ^ 63⟩,
      ⟨2 ^ 63 - 1, 2 ^ 31 - 1, 2 ^ 31 - 1, 2 ^ 63 - 1, 2 ^ 63 - 1, 2 ^ 63 - 1⟩]
    (∀ r ∈ rs, r.Fits) ∧ [(7 : UInt8)].length < width ∧
      decodeEach (rs.flatMap encode ++ [7]) = .ok rs ∧
      ∃ r, decode (rs.flatMap encode ++ [7]) = .ok r ∧
        r.encode = (rs.flatMap encode ++ [7]).take width := by
  intro rs
  have hfits : ∀ r ∈ rs, r.Fits := by
    simp only [rs, List.forall_mem_cons]
    exact ⟨⟨by decide, by decide, by decide, by decide, by decide, by decide⟩,
      ⟨by decide, by decide, by decide, by decide, by decide, by decide⟩,
      fun r hr => absurd hr List.not_mem_nil⟩
  obtain ⟨hread, -, hone⟩ := records_through_bytes
  obtain ⟨-, hfirst⟩ := hone (rs.flatMap encode ++ [7])
  obtain ⟨r, hr, -, hbytes⟩ := hfirst (by simp [rs, width])
  exact ⟨hfits, by decide, hread rs [7] hfits (by decide), r, hr, hbytes⟩

/-! ### Chunks -/

/-- Grouping loses no record, keeps them in order, and begins no chunk without one. -/
theorem groupOnto_spec (limit : Nat) (begun : List IndexRecord) (size : Nat)
    (rs : List IndexRecord) :
    (groupOnto limit [] begun size rs).flatten = begun.reverse ++ rs ∧
      ∀ chunk ∈ groupOnto limit [] begun size rs, chunk ≠ [] := by
  induction rs generalizing begun size with
  | nil =>
    unfold groupOnto
    cases begun with
    | nil => simp
    | cons r begun => simp
  | cons r rs ih =>
    unfold groupOnto
    split
    · rename_i hfull
      obtain ⟨hflat, hne⟩ := ih [r] r.room
      rw [groupOnto_eq]
      refine ⟨by simp [hflat], fun chunk hchunk => ?_⟩
      rcases List.mem_append.1 hchunk with hchunk | hchunk
      · rw [List.reverse_singleton, List.mem_singleton] at hchunk
        subst hchunk
        simpa using hfull.1
      · exact hne chunk hchunk
    · obtain ⟨hflat, hne⟩ := ih (r :: begun) (size + r.room)
      exact ⟨by simp [hflat], hne⟩

theorem flatten_groupIntoChunks (limit : Nat) (rs : List IndexRecord) :
    (groupIntoChunks limit rs).flatten = rs :=
  (groupOnto_spec limit [] 0 rs).1

theorem ne_nil_of_mem_groupIntoChunks {limit : Nat} {rs chunk : List IndexRecord}
    (h : chunk ∈ groupIntoChunks limit rs) : chunk ≠ [] :=
  (groupOnto_spec limit [] 0 rs).2 chunk h

end IndexRecord

end ShuffleService
