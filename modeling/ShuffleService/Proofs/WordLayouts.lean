import ShuffleService.Proofs.BlockIdFields
import ShuffleService.WordLayout

/-!
# Block ids as words

In words the fields of an id are put in place and cut out by shifts and masks. This comes to the same
as in numbers, since no bit of one field meets a bit of another (`encode?_ofLayout`), and since a mask
cuts the same bits out of a negative word (`decode?_ofLayout`). So what is known of the layouts in
numbers holds of those in words (`codec_ofLayout`).

The widths are added up in words as well. Where the sum does not fit, a program that goes on takes the
bits that fit for the sum, and may make a layout for which nothing of this holds (`wrapped_widths`);
otherwise the layouts that are made are the ones in numbers (`new?_eq`, `new?_stops`).
-/

namespace ShuffleService

namespace WordLayout

variable {o : Overflow} {l : BlockIdLayout} {x y : PartWords} {k n w : Nat}

/-! ### Masks -/

/-- The word with the given number of low bits set. -/
def mask (width : Nat) : BitVec 64 := 1#64 <<< width - 1#64

theorem toNat_mask (h : w ≤ 63) : (mask w).toNat = 2 ^ w - 1 := by
  have hpow : 2 ^ w ≤ 2 ^ 63 := Nat.pow_le_pow_right (by decide) h
  have hpos := Nat.two_pow_pos w
  rw [mask, BitVec.toNat_sub, BitVec.toNat_shiftLeft, BitVec.toNat_ofNat, Nat.shiftLeft_eq]
  omega

/-- A word below the sign bit stands for the same number in both readings. -/
theorem toInt_of_lt {v : BitVec 64} (h : v.toNat < 2 ^ 63) : v.toInt = v.toNat :=
  BitVec.toInt_eq_toNat_of_lt (by omega)

theorem toInt_of_nonneg {v : BitVec n} (h : 0 ≤ v.toInt) : v.toInt = v.toNat := by
  have hlt := v.isLt
  rw [BitVec.toInt_eq_toNat_cond] at h ⊢
  split at h <;> omega

theorem toInt_mask (h : w ≤ 63) : (mask w).toInt = 2 ^ w - 1 := by
  have hpow : 2 ^ w ≤ 2 ^ 63 := Nat.pow_le_pow_right (by decide) h
  have hpos := Nat.two_pow_pos w
  have hcast : ((2 ^ w : Nat) : Int) = 2 ^ w := Int.natCast_pow 2 w
  rw [toInt_of_lt (by rw [toNat_mask h]; omega), toNat_mask h]
  omega

/-- A mask cuts a field out of the bits that come after an arithmetic shift. -/
theorem toInt_and_mask (id : BitVec 64) (offset : Nat) (h : w ≤ 63) :
    (id.sshiftRight offset &&& mask w).toInt = BlockIdLayout.field id.toInt offset w := by
  have hpow : 2 ^ w ≤ 2 ^ 63 := Nat.pow_le_pow_right (by decide) h
  have hpos := Nat.two_pow_pos w
  rw [BlockIdLayout.field, ← BitVec.toInt_sshiftRight]
  generalize id.sshiftRight offset = v
  have hnat : (v &&& mask w).toNat = v.toNat % 2 ^ w := by
    rw [BitVec.toNat_and, toNat_mask h, Nat.and_two_pow_sub_one_eq_mod]
  have hlt : v.toNat % 2 ^ w < 2 ^ w := Nat.mod_lt _ hpos
  have hdvd : ((2 ^ w : Nat) : Int) ∣ (2 ^ 64 : Nat) :=
    Int.natCast_dvd_natCast.2 (Nat.pow_dvd_pow 2 (by omega))
  have hcast : ((2 ^ w : Nat) : Int) = 2 ^ w := Int.natCast_pow 2 w
  -- the two readings of a word differ by a multiple of 2 ^ 64, which the mask does not see
  rw [toInt_of_lt (by rw [hnat]; omega), hnat, BitVec.toInt_eq_toNat_bmod, ← hcast,
    ← Int.emod_emod_of_dvd _ hdvd, Int.bmod_emod, Int.emod_emod_of_dvd _ hdvd, Int.natCast_emod]

/-! ### Placing fields -/

/-- On both sides of a border the bits do not meet, so that joining them adds the parts up. -/
theorem toInt_join {hi lo : BitVec 64} (hhi : 0 ≤ hi.toInt ∧ hi.toInt < 2 ^ n)
    (hlo : 0 ≤ lo.toInt ∧ lo.toInt < 2 ^ k) (hfit : n + k ≤ 63) :
    (hi <<< k ||| lo).toInt = hi.toInt * 2 ^ k + lo.toInt := by
  have hbounds := BlockIdLayout.join_bounds hhi hlo
  have hpow : 2 ^ (n + k) ≤ 2 ^ 63 := Nat.pow_le_pow_right (by decide) hfit
  have hcast (m : Nat) : ((2 ^ m : Nat) : Int) = 2 ^ m := Int.natCast_pow 2 m
  rw [toInt_of_nonneg hhi.1, toInt_of_nonneg hlo.1] at *
  rw [← hcast] at hlo hbounds
  rw [← hcast] at hbounds
  have hnat : (hi <<< k ||| lo).toNat = hi.toNat * 2 ^ k + lo.toNat := by
    rw [BitVec.toNat_or, BitVec.toNat_shiftLeft, Nat.mod_eq_of_lt (by rw [Nat.shiftLeft_eq]; omega),
      ← Nat.shiftLeft_add_eq_or_of_lt (by omega), Nat.shiftLeft_eq]
  rw [toInt_of_lt (by omega), hnat, ← hcast]
  rfl

/-- The fields of an id do not meet, so that placing them side by side adds them up. -/
theorem toInt_place (h : l.Holds x.toParts) :
    (x.sequence <<< (l.partitionBits + l.taskBits) ||| x.partition <<< l.taskBits |||
      x.task).toInt = l.pack x.toParts := by
  have htotal := l.total_le
  have hpart := toInt_join h.sequence_lt h.partition_lt (by omega)
  have hbounds := BlockIdLayout.join_bounds h.sequence_lt h.partition_lt
  simp only [PartWords.toParts] at hbounds
  rw [← hpart] at hbounds
  rw [BitVec.shiftLeft_add, ← BitVec.shiftLeft_or_distrib, toInt_join hbounds h.task_lt htotal,
    hpart, BlockIdLayout.pack_eq]
  rfl

/-! ### The layouts in numbers -/

/-- A layout in words. -/
def ofLayout (l : BlockIdLayout) : WordLayout where
  sequenceBits := .ofNat 32 l.sequenceBits
  partitionBits := .ofNat 32 l.partitionBits
  taskBits := .ofNat 32 l.taskBits
  maxSequence := mask l.sequenceBits
  maxPartition := mask l.partitionBits
  maxTask := mask l.taskBits
  sequenceOffset := .ofNat 32 (l.partitionBits + l.taskBits)
  partitionOffset := .ofNat 32 l.taskBits

theorem toInt_max_ofLayout (l : BlockIdLayout) :
    (ofLayout l).maxSequence.toInt = l.maxSequence ∧
      (ofLayout l).maxPartition.toInt = l.maxPartition ∧ (ofLayout l).maxTask.toInt = l.maxTask := by
  have htotal := l.total_le
  exact ⟨toInt_mask (by omega), toInt_mask (by omega), toInt_mask (by omega)⟩

theorem toNat_ofNat_of_le {m : Nat} (h : m ≤ 63) : (BitVec.ofNat 32 m).toNat = m := by
  rw [BitVec.toNat_ofNat]
  omega

theorem toInt_ofNat_of_le {m : Nat} (h : m ≤ 63) : (BitVec.ofNat 32 m).toInt = m := by
  rw [BitVec.toInt_eq_toNat_of_lt (by rw [toNat_ofNat_of_le h]; omega), toNat_ofNat_of_le h]

theorem shiftLeft?_ofNat (v : BitVec 64) {m : Nat} (h : m ≤ 63) :
    o.shiftLeft? v (.ofNat 32 m) = some (v <<< m) := by
  have hlt : m < 64 := by omega
  simp [Overflow.shiftLeft?, toNat_ofNat_of_le h, hlt, Nat.mod_eq_of_lt hlt]

theorem shiftRight?_ofNat (v : BitVec 64) {m : Nat} (h : m ≤ 63) :
    o.shiftRight? v (.ofNat 32 m) = some (v.sshiftRight m) := by
  have hlt : m < 64 := by omega
  simp [Overflow.shiftRight?, toNat_ofNat_of_le h, hlt, Nat.mod_eq_of_lt hlt]

theorem add?_eq {v u : BitVec 32} (hlo : -2 ^ 31 ≤ v.toInt + u.toInt)
    (hhi : v.toInt + u.toInt < 2 ^ 31) :
    o.add? v u = some (v + u) ∧ (v + u).toInt = v.toInt + u.toInt := by
  have hfits : v.saddOverflow u = false := by
    simp [BitVec.saddOverflow]
    omega
  refine ⟨?_, ?_⟩
  · rw [Overflow.add?, hfits, Bool.not_false, Overflow.keep?_true]
  · rw [BitVec.toInt_add_of_not_saddOverflow (by simp [hfits])]

/-- The power of two is below the sign bit, so taking one away does not go below the last word. -/
theorem maxOf?_ofNat {m : Nat} (h : m ≤ 62) : maxOf? o (.ofNat 32 m) = some (mask m) := by
  have hpow : 2 ^ m ≤ 2 ^ 62 := Nat.pow_le_pow_right (by decide) h
  have hpos := Nat.two_pow_pos m
  have hnat : (1#64 <<< m).toNat = 2 ^ m := by
    rw [BitVec.toNat_shiftLeft, BitVec.toNat_ofNat, Nat.shiftLeft_eq]
    omega
  have hint : 0 ≤ (1#64 <<< m).toInt ∧ (1#64 <<< m).toInt ≤ 2 ^ 62 := by
    rw [toInt_of_lt (by omega), hnat]
    omega
  have hfits : (1#64 <<< m).ssubOverflow 1#64 = false := by
    have hone : (1#64).toInt = 1 := by decide
    simp only [BitVec.ssubOverflow, hone, Bool.or_eq_false_iff, decide_eq_false_iff_not]
    omega
  rw [maxOf?, shiftLeft?_ofNat _ (by omega)]
  show o.pred? (1#64 <<< m) = _
  rw [Overflow.pred?, hfits, Bool.not_false, Overflow.keep?_true]
  rfl

theorem build?_eq (o : Overflow) (l : BlockIdLayout) :
    build? o (.ofNat 32 l.sequenceBits) (.ofNat 32 l.partitionBits) (.ofNat 32 l.taskBits) =
      some (ofLayout l) := by
  have hs := l.sequence_pos
  have hp := l.partition_pos
  have ht := l.task_pos
  have htotal := l.total_le
  have hpart := toInt_ofNat_of_le (show l.partitionBits ≤ 63 by omega)
  have htask := toInt_ofNat_of_le (show l.taskBits ≤ 63 by omega)
  obtain ⟨hoffset, -⟩ := add?_eq (o := o) (v := .ofNat 32 l.partitionBits)
    (u := .ofNat 32 l.taskBits) (by omega) (by omega)
  simp only [build?, maxOf?_ofNat (show l.sequenceBits ≤ 62 by omega),
    maxOf?_ofNat (show l.partitionBits ≤ 62 by omega), maxOf?_ofNat (show l.taskBits ≤ 62 by omega),
    hoffset, Option.bind_eq_bind, Option.bind_some, ofLayout, BitVec.ofNat_add]
  rfl

theorem ofNat_toNat_toInt {v : BitVec 32} (h : 0 ≤ v.toInt) : BitVec.ofNat 32 v.toInt.toNat = v := by
  rw [toInt_of_nonneg h, Int.toNat_natCast, BitVec.ofNat_toNat, BitVec.setWidth_eq]

/-- Where the sum of the widths fits a word, the layouts that are made are those in numbers. -/
theorem new?_eq (o : Overflow) {s p t : BitVec 32} (hsum : s.toInt + p.toInt + t.toInt < 2 ^ 31) :
    new? o s p t = some ((BlockIdLayout.ofBits s.toInt p.toInt t.toInt).map ofLayout) := by
  unfold new? BlockIdLayout.ofBits
  by_cases hpos : 0 < s.toInt ∧ 0 < p.toInt ∧ 0 < t.toInt
  · obtain ⟨hfirst, hfirst'⟩ := add?_eq (o := o) (v := s) (u := p) (by omega) (by omega)
    obtain ⟨hsecond, hsecond'⟩ := add?_eq (o := o) (v := s + p) (u := t) (by omega) (by omega)
    rw [if_pos hpos, dif_pos hpos]
    simp only [hfirst, hsecond, Option.bind_eq_bind, Option.bind_some, hsecond', hfirst']
    by_cases hle : s.toInt + p.toInt + t.toInt ≤ BlockIdLayout.maxBits
    · rw [if_pos hle, dif_pos hle]
      have hle' : s.toInt + p.toInt + t.toInt ≤ 63 := hle
      have hbuild := build?_eq o ⟨s.toInt.toNat, p.toInt.toNat, t.toInt.toNat, by omega, by omega,
        by omega, by omega⟩
      dsimp only at hbuild
      rw [ofNat_toNat_toInt (by omega), ofNat_toNat_toInt (by omega),
        ofNat_toNat_toInt (by omega)] at hbuild
      rw [hbuild]
      rfl
    · rw [if_neg hle, dif_neg hle]
      rfl
  · rw [if_neg hpos, dif_neg hpos]
    rfl

/-- Where it does not fit, a program that does not go on makes no layout. -/
theorem new?_stops {s p t : BitVec 32} (hs : 0 < s.toInt) (hp : 0 < p.toInt) (ht : 0 < t.toInt)
    (hsum : 2 ^ 31 ≤ s.toInt + p.toInt + t.toInt) : new? .stops s p t = none := by
  have hstops {v u : BitVec 32} (h : 2 ^ 31 ≤ v.toInt + u.toInt) :
      Overflow.stops.add? v u = none := by
    have hfits : v.saddOverflow u = true := by
      simp only [BitVec.saddOverflow, Bool.or_eq_true, decide_eq_true_eq]
      omega
    rw [Overflow.add?, hfits, Bool.not_true, Overflow.keep?_stops]
  rw [new?, if_pos ⟨hs, hp, ht⟩]
  by_cases hfirst : s.toInt + p.toInt < 2 ^ 31
  · obtain ⟨hadd, hadd'⟩ := add?_eq (o := .stops) (v := s) (u := p) (by omega) hfirst
    rw [hadd, Option.bind_eq_bind, Option.bind_some, hstops (by omega)]
    rfl
  · rw [hstops (by omega)]
    rfl

/-- Making an id of words is making one of the numbers that they stand for. -/
theorem encode?_ofLayout (o : Overflow) (l : BlockIdLayout) (x : PartWords) :
    ((ofLayout l).encode? o x).map (·.map BitVec.toInt) =
      some (l.encode x.sequence.toInt x.partition.toInt x.task.toInt) := by
  have htotal := l.total_le
  obtain ⟨hs, hp, ht⟩ := toInt_max_ofLayout l
  unfold encode? checkFields BlockIdLayout.encode
  rw [hs, hp, ht]
  simp only [ofLayout, shiftLeft?_ofNat _ (show l.taskBits ≤ 63 by omega),
    shiftLeft?_ofNat _ (show l.partitionBits + l.taskBits ≤ 63 by omega)]
  cases hcs : BlockIdLayout.checkField "sequenceNo" x.sequence.toInt l.maxSequence with
  | error e => rfl
  | ok _ =>
    cases hcp : BlockIdLayout.checkField "partitionId" x.partition.toInt l.maxPartition with
    | error e => rfl
    | ok _ =>
      cases hct : BlockIdLayout.checkField "taskAttemptId" x.task.toInt l.maxTask with
      | error e => rfl
      | ok _ =>
        have hholds : l.Holds x.toParts := ⟨BlockIdLayout.checkField_eq_ok_iff.1 hcs,
          BlockIdLayout.checkField_eq_ok_iff.1 hcp, BlockIdLayout.checkField_eq_ok_iff.1 hct⟩
        exact congrArg (fun id => some (Except.ok id)) (toInt_place hholds)

theorem decode?_ofLayout (o : Overflow) (l : BlockIdLayout) (id : BitVec 64) :
    ((ofLayout l).decode? o id).map PartWords.toParts = some (l.decode id.toInt) := by
  have htotal := l.total_le
  have htask : (id &&& mask l.taskBits).toInt = l.taskOf id.toInt := by
    have h := toInt_and_mask id 0 (show l.taskBits ≤ 63 by omega)
    rwa [BitVec.sshiftRight_zero] at h
  simp only [decode?, sequenceOf?, partitionOf?, taskOf, ofLayout,
    shiftRight?_ofNat id (show l.partitionBits + l.taskBits ≤ 63 by omega),
    shiftRight?_ofNat id (show l.taskBits ≤ 63 by omega), Option.map_some, Option.bind_eq_bind,
    Option.bind_some]
  rw [BlockIdLayout.decode, ← htask, BlockIdLayout.sequenceOf, BlockIdLayout.partitionOf,
    ← toInt_and_mask _ _ (show l.sequenceBits ≤ 63 by omega),
    ← toInt_and_mask _ _ (show l.partitionBits ≤ 63 by omega)]
  rfl

/-! ### What a layout is good for -/

/-- Fields that fit a layout. -/
structure Holds (l : WordLayout) (x : PartWords) : Prop where
  sequence : 0 ≤ x.sequence.toInt ∧ x.sequence.toInt ≤ l.maxSequence.toInt
  partition : 0 ≤ x.partition.toInt ∧ x.partition.toInt ≤ l.maxPartition.toInt
  task : 0 ≤ x.task.toInt ∧ x.task.toInt ≤ l.maxTask.toInt

/-- A layout of the given width in all encodes fields and decodes ids. The ids are the words from
zero up to `2 ^ width`, in the order of their fields, and any word is decoded by its `width` low
bits. Fields that do not fit are refused, and nothing stops. -/
structure Codec (o : Overflow) (l : WordLayout) (width : Nat) : Prop where
  encode_ok_iff (x : PartWords) : (∃ id, l.encode? o x = some (.ok id)) ↔ l.Holds x
  encode_error (x : PartWords) :
    ¬ l.Holds x → ∃ text, l.encode? o x = some (.error (.invalidArgument text))
  decode_encode (x : PartWords) (id : BitVec 64) : l.encode? o x = some (.ok id) →
    (0 ≤ id.toInt ∧ id.toInt < 2 ^ width) ∧ l.decode? o id = some x
  encode_decoded (id : BitVec 64) : 0 ≤ id.toInt → id.toInt < 2 ^ width →
    ∃ x, l.decode? o id = some x ∧ l.encode? o x = some (.ok id)
  lt_iff (x y : PartWords) (i j : BitVec 64) : l.encode? o x = some (.ok i) →
    l.encode? o y = some (.ok j) → (i.toInt < j.toInt ↔ x.toParts.Before y.toParts)
  decode_holds (id : BitVec 64) : ∃ x, l.decode? o id = some x ∧ l.Holds x
  decode_eq_iff (i j : BitVec 64) :
    l.decode? o i = l.decode? o j ↔ i.toInt % 2 ^ width = j.toInt % 2 ^ width

theorem toParts_inj : x.toParts = y.toParts ↔ x = y := by
  refine ⟨fun h => ?_, fun h => by rw [h]⟩
  obtain ⟨hs, hp, ht⟩ := BlockIdParts.mk.inj h
  obtain ⟨s, p, t⟩ := x
  rw [PartWords.mk.injEq]
  exact ⟨BitVec.toInt_inj.1 hs, BitVec.toInt_inj.1 hp, BitVec.toInt_inj.1 ht⟩

theorem encode?_eq_ok_iff {id : BitVec 64} : (ofLayout l).encode? o x = some (.ok id) ↔
    l.Holds x.toParts ∧ l.pack x.toParts = id.toInt := by
  rw [← BlockIdLayout.encode_eq_ok_iff]
  obtain ⟨r, hr, hencode⟩ := Option.map_eq_some_iff.1 (encode?_ofLayout o l x)
  rw [hr, Option.some_inj]
  show _ ↔ l.encode x.sequence.toInt x.partition.toInt x.task.toInt = .ok id.toInt
  rw [← hencode]
  cases r with
  | error e => exact ⟨nofun, nofun⟩
  | ok id' =>
    show Except.ok id' = Except.ok id ↔ Except.ok id'.toInt = Except.ok id.toInt
    rw [Except.ok.injEq, Except.ok.injEq, BitVec.toInt_inj]

theorem decode?_eq_some_iff {id : BitVec 64} :
    (ofLayout l).decode? o id = some x ↔ l.decode id.toInt = x.toParts := by
  obtain ⟨y, hy, hdecode⟩ := Option.map_eq_some_iff.1 (decode?_ofLayout o l id)
  rw [hy, ← hdecode, Option.some_inj, toParts_inj]

theorem exists_decode? (o : Overflow) (l : BlockIdLayout) (id : BitVec 64) :
    ∃ x, (ofLayout l).decode? o id = some x ∧ l.decode id.toInt = x.toParts := by
  obtain ⟨x, hx, hdecode⟩ := Option.map_eq_some_iff.1 (decode?_ofLayout o l id)
  exact ⟨x, hx, hdecode.symm⟩

theorem holds_ofLayout : (ofLayout l).Holds x ↔ l.Holds x.toParts := by
  obtain ⟨hs, hp, ht⟩ := toInt_max_ofLayout l
  constructor
  · rintro ⟨hsequence, hpartition, htask⟩
    exact ⟨hs ▸ hsequence, hp ▸ hpartition, ht ▸ htask⟩
  · rintro ⟨hsequence, hpartition, htask⟩
    exact ⟨hs.symm ▸ hsequence, hp.symm ▸ hpartition, ht.symm ▸ htask⟩

/-- A layout in numbers does in words what it does in numbers. -/
theorem codec_ofLayout (o : Overflow) (l : BlockIdLayout) : (ofLayout l).Codec o l.totalBits where
  encode_ok_iff x := by
    rw [holds_ofLayout]
    refine ⟨fun ⟨id, h⟩ => (encode?_eq_ok_iff.1 h).1, fun h => ?_⟩
    obtain ⟨r, hr, hencode⟩ := Option.map_eq_some_iff.1 (encode?_ofLayout o l x)
    rw [BlockIdLayout.encode_of_holds h] at hencode
    cases r with
    | error e => cases hencode
    | ok id => exact ⟨id, hr⟩
  encode_error x h := by
    rw [holds_ofLayout] at h
    obtain ⟨text, htext⟩ := BlockIdLayout.encode_of_not_holds h
    obtain ⟨r, hr, hencode⟩ := Option.map_eq_some_iff.1 (encode?_ofLayout o l x)
    rw [htext] at hencode
    cases r with
    | ok id => cases hencode
    | error e =>
      cases hencode
      exact ⟨text, hr⟩
  decode_encode x id h := by
    obtain ⟨hholds, hpack⟩ := encode?_eq_ok_iff.1 h
    rw [decode?_eq_some_iff, ← hpack]
    exact ⟨BlockIdLayout.pack_bounds hholds, BlockIdLayout.decode_pack hholds⟩
  encode_decoded id hnonneg hlt := by
    obtain ⟨x, hx, hdecode⟩ := exists_decode? o l id
    refine ⟨x, hx, encode?_eq_ok_iff.2 ?_⟩
    rw [← hdecode]
    exact ⟨BlockIdLayout.holds_decode l _,
      (BlockIdLayout.pack_decode l _).trans (Int.emod_eq_of_lt hnonneg hlt)⟩
  lt_iff x y i j hi hj := by
    obtain ⟨hx, hi⟩ := encode?_eq_ok_iff.1 hi
    obtain ⟨hy, hj⟩ := encode?_eq_ok_iff.1 hj
    rw [← hi, ← hj]
    exact BlockIdLayout.pack_lt_pack_iff hx hy
  decode_holds id := by
    obtain ⟨x, hx, hdecode⟩ := exists_decode? o l id
    exact ⟨x, hx, holds_ofLayout.2 (hdecode ▸ BlockIdLayout.holds_decode l _)⟩
  decode_eq_iff i j := by
    obtain ⟨x, hx, hi⟩ := exists_decode? o l i
    obtain ⟨y, hy, hj⟩ := exists_decode? o l j
    rw [hx, hy, Option.some_inj, ← toParts_inj, ← hi, ← hj, BlockIdLayout.decode_eq_iff]

/-- **Encoding and decoding.** Take three widths whose sum fits a word of 32 bits, or a program that
stops where it does not. A layout is made of them just if they are positive and add up to no more
than 63; widths that add up to more or are not positive are refused, as long as the sum fits. The
layout has these widths, and the largest values that they allow. It encodes fields and decodes ids:

* encoding succeeds just if the three fields fit, and otherwise an argument is invalid;
* the ids are the numbers from zero up to two to the sum of the widths, each is the id of the fields
  that it is decoded to, and they come in the order of these fields;
* every word, also a negative one, is decoded to fields that fit, by the low bits that the layout
  uses. -/
theorem encode_decode (o : Overflow) (s p t : BitVec 32)
    (hsum : o = .stops ∨ s.toInt + p.toInt + t.toInt < 2 ^ 31) :
    let total := s.toInt + p.toInt + t.toInt
    let valid := (0 < s.toInt ∧ 0 < p.toInt ∧ 0 < t.toInt) ∧ total ≤ 63
    ((∃ l, new? o s p t = some (.ok l)) ↔ valid) ∧
    (¬ valid → total < 2 ^ 31 → ∃ text, new? o s p t = some (.error (.invalidArgument text))) ∧
    ∀ l, new? o s p t = some (.ok l) →
      (l.sequenceBits = s ∧ l.partitionBits = p ∧ l.taskBits = t) ∧
      (l.maxSequence.toInt = 2 ^ s.toNat - 1 ∧ l.maxPartition.toInt = 2 ^ p.toNat - 1 ∧
        l.maxTask.toInt = 2 ^ t.toNat - 1) ∧
      l.Codec o total.toNat := by
  intro total valid
  have hmade {l : WordLayout} (h : new? o s p t = some (.ok l)) (hfit : total < 2 ^ 31) :
      ∃ k, BlockIdLayout.ofBits s.toInt p.toInt t.toInt = .ok k ∧ ofLayout k = l := by
    rw [new?_eq o hfit, Option.some_inj] at h
    cases hk : BlockIdLayout.ofBits s.toInt p.toInt t.toInt with
    | error e =>
      rw [hk] at h
      cases h
    | ok k =>
      rw [hk] at h
      exact ⟨k, rfl, Except.ok.inj h⟩
  by_cases hfit : total < 2 ^ 31
  case neg =>
    -- no word holds the sum, so the program stops, unless it has refused the widths before
    have hnone (l : WordLayout) : new? o s p t ≠ some (.ok l) := by
      intro h
      by_cases hpos : 0 < s.toInt ∧ 0 < p.toInt ∧ 0 < t.toInt
      · rw [hsum.resolve_right hfit, new?_stops hpos.1 hpos.2.1 hpos.2.2 (by omega)] at h
        cases h
      · rw [new?, if_neg hpos] at h
        cases h
    exact ⟨⟨fun ⟨l, h⟩ => absurd h (hnone l), fun h => by omega⟩, fun _ h => absurd h hfit,
      fun l h => absurd h (hnone l)⟩
  case pos =>
    refine ⟨⟨fun ⟨l, h⟩ => ?_, fun h => ?_⟩, fun h _ => ?_, fun l h => ?_⟩
    · obtain ⟨k, hk, -⟩ := hmade h hfit
      exact BlockIdLayout.exists_ofBits_iff.1 ⟨k, hk⟩
    · obtain ⟨k, hk⟩ := BlockIdLayout.exists_ofBits_iff.2 h
      exact ⟨ofLayout k, by rw [new?_eq o hfit, hk]; rfl⟩
    · obtain ⟨text, htext⟩ := BlockIdLayout.ofBits_of_not_valid h
      exact ⟨text, by rw [new?_eq o hfit, htext]; rfl⟩
    · obtain ⟨k, hk, rfl⟩ := hmade h hfit
      obtain ⟨hs, hp, ht⟩ := BlockIdLayout.ofBits_eq_ok_iff.1 hk
      have hle := k.total_le
      have hword {v : BitVec 32} {m : Nat} (hv : v.toInt = m) : .ofNat 32 m = v := by
        have := ofNat_toNat_toInt (v := v) (by omega)
        rwa [hv, Int.toNat_natCast] at this
      have hmax {v : BitVec 32} {m : Nat} (hm : m ≤ 63) (hv : v.toInt = m) :
          (mask m).toInt = 2 ^ v.toNat - 1 := by
        rw [toInt_mask hm, ← hword hv, toNat_ofNat_of_le hm]
      have htotal : total.toNat = k.totalBits := by
        rw [BlockIdLayout.totalBits_eq]
        omega
      rw [htotal]
      exact ⟨⟨hword hs, hword hp, hword ht⟩,
        ⟨hmax (by omega) hs, hmax (by omega) hp, hmax (by omega) ht⟩, codec_ofLayout o k⟩

/-- Ten bits, of which a negative number has as many as any other. -/
theorem encode_decode_ten_bits :
    (Overflow.wraps = .stops ∨ (4#32).toInt + (3#32).toInt + (3#32).toInt < 2 ^ 31) ∧
    ∃ l, new? .wraps 4 3 3 = some (.ok l) ∧
      l.encode? .wraps ⟨15, 5, 2⟩ = some (.ok 1002) ∧ l.decode? .wraps 1002 = some ⟨15, 5, 2⟩ ∧
      (∃ text, l.encode? .wraps ⟨16, 0, 0⟩ = some (.error (.invalidArgument text))) ∧
      l.decode? .wraps (-22) = l.decode? .wraps 1002 := by
  have hsum : Overflow.wraps = .stops ∨ (4#32).toInt + (3#32).toInt + (3#32).toInt < 2 ^ 31 :=
    .inr (by decide)
  obtain ⟨hmade, -, hcodec⟩ := encode_decode .wraps 4 3 3 hsum
  obtain ⟨l, hl⟩ := hmade.2 (by decide)
  obtain ⟨-, hmax, codec⟩ := hcodec l hl
  have hok : l.encode? .wraps ⟨15, 5, 2⟩ = some (.ok 1002) := by
    cases hl
    decide
  refine ⟨hsum, l, hl, hok, (codec.decode_encode _ _ hok).2, codec.encode_error _ fun h => ?_,
    (codec.decode_eq_iff _ _).2 (by decide)⟩
  exact absurd (hmax.1 ▸ h.sequence.2) (by decide)

/-- Of widths whose sum is `2 ^ 31 + 1`, a program that goes on makes a layout, since the bits that
fit stand for a negative number. Any sequence number fits it, but its upper bits have no place in an
id: `2 ^ 62` comes out like zero. -/
theorem wrapped_widths :
    ∃ l, new? .wraps 0x7FFFFFFF 1 1 = some (.ok l) ∧ l.Holds ⟨0x4000000000000000, 0, 0⟩ ∧
      l.encode? .wraps ⟨0x4000000000000000, 0, 0⟩ = some (.ok 0) ∧
      l.encode? .wraps ⟨0, 0, 0⟩ = some (.ok 0) ∧
      l.decode? .wraps 0 = some ⟨0, 0, 0⟩ ∧ ∀ width, ¬ l.Codec .wraps width := by
  let l : WordLayout := ⟨0x7FFFFFFF, 1, 1, 0x7FFFFFFFFFFFFFFF, 1, 1, 2, 1⟩
  have hencode : l.encode? .wraps ⟨0x4000000000000000, 0, 0⟩ = some (.ok 0) := by decide +kernel
  have hdecode : l.decode? .wraps 0 = some ⟨0, 0, 0⟩ := by decide +kernel
  refine ⟨l, by decide +kernel, ⟨by decide, by decide, by decide⟩, hencode, by decide +kernel,
    hdecode, fun width codec => ?_⟩
  have hback := hdecode.symm.trans (codec.decode_encode _ _ hencode).2
  exact absurd hback (by decide)

end WordLayout

end ShuffleService
