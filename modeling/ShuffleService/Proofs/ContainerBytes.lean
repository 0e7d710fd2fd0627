import Mathlib.Algebra.Order.Ring.Int
import ShuffleService.IdBitmap.Container

/-!
# Containers through their bytes and back

A well-formed container (`Container.WellFormed`) is read back from its bytes in each of the three
forms: as an array, as bits (`setBits_bitBytes`) and as runs (`ofRuns_toRuns`, `validRuns_toRuns`).
A bitmap of well-formed containers with ascending keys is read back as a whole, and exactly its
bytes are taken off (`readPortable?_portable`).
-/

namespace ShuffleService

/-- There is room for few numbers below a bound. -/
theorem length_le_of_ascending {xs : List Nat} {n : Nat} (h : xs.Pairwise (· < ·))
    (hlt : ∀ x ∈ xs, x < n) : xs.length ≤ n := by
  have hfrom (lo : Nat) (hlo : ∀ x ∈ xs, lo ≤ x) : lo ≤ n → xs.length + lo ≤ n := by
    induction xs generalizing lo with
    | nil => simp
    | cons x xs ih =>
      rw [List.pairwise_cons] at h
      intro _
      have hx := hlt x (List.mem_cons_self ..)
      have hx' := hlo x (List.mem_cons_self ..)
      have := ih h.2 (fun y hy => hlt y (List.mem_cons_of_mem x hy)) (x + 1) (fun y hy => h.1 y hy)
        (by omega)
      rw [List.length_cons]
      omega
  simpa using hfrom 0 (fun _ _ => Nat.zero_le _) (Nat.zero_le _)

/-- There is room for fewer numbers below a bound if one is missing. -/
theorem length_lt_of_ascending {xs : List Nat} {gap n : Nat} (h : xs.Pairwise (· < ·))
    (hlt : ∀ x ∈ xs, x < n) (hgap : gap < n) (hmissing : gap ∉ xs) : xs.length < n := by
  -- the numbers above the missing one move down by one
  let shift (x : Nat) : Nat := if gap < x then x - 1 else x
  have hne : ∀ x ∈ xs, x ≠ gap := fun x hx hxg => hmissing (hxg ▸ hx)
  have hascending : (xs.map shift).Pairwise (· < ·) := by
    rw [List.pairwise_map]
    refine h.imp_of_mem fun hx hy hxy => ?_
    have := hne _ hx
    have := hne _ hy
    dsimp only [shift]
    split <;> split <;> omega
  have hbound : ∀ k ∈ xs.map shift, k < n - 1 := by
    intro k hk
    obtain ⟨x, hx, rfl⟩ := List.mem_map.1 hk
    have := hne x hx
    have := hlt x hx
    dsimp only [shift]
    split <;> omega
  have := length_le_of_ascending hascending hbound
  rw [List.length_map] at this
  omega

/-! ### Lists of equal parts -/

/-- Parts that can be read back one by one can be read back in a row. -/
theorem readMany_flatMap {α β : Type} {read : Bytes → Option (α × Bytes)} {view : β → α}
    {write : β → Bytes} {bs : List β}
    (h : ∀ b ∈ bs, ∀ rest, read (write b ++ rest) = some (view b, rest)) (rest : Bytes) :
    readMany read bs.length (bs.flatMap write ++ rest) = some (bs.map view, rest) := by
  have hgo (done : List α) :
      readMany.go read done bs.length (bs.flatMap write ++ rest) =
        some (done.reverse ++ bs.map view, rest) := by
    induction bs generalizing done with
    | nil => simp [readMany.go]
    | cons b bs ih =>
      rw [List.length_cons, List.flatMap_cons, List.append_assoc, readMany.go,
        h b (List.mem_cons_self ..)]
      dsimp only
      rw [ih fun c hc => h c (List.mem_cons_of_mem b hc)]
      simp
  exact hgo []

theorem readEach_flatMap {α β : Type} {read : α → Bytes → Option (β × Bytes)} {head : β → α}
    {write : β → Bytes} {bs : List β}
    (h : ∀ b ∈ bs, ∀ rest, read (head b) (write b ++ rest) = some (b, rest)) (rest : Bytes) :
    readEach read (bs.map head) (bs.flatMap write ++ rest) = some (bs, rest) := by
  have hgo (done : List β) :
      readEach.go read done (bs.map head) (bs.flatMap write ++ rest) =
        some (done.reverse ++ bs, rest) := by
    induction bs generalizing done with
    | nil => simp [readEach.go]
    | cons b bs ih =>
      rw [List.map_cons, List.flatMap_cons, List.append_assoc, readEach.go,
        h b (List.mem_cons_self ..)]
      dsimp only
      rw [ih fun c hc => h c (List.mem_cons_of_mem b hc)]
      simp
  exact hgo []

/-! ### Runs -/

theorem toRuns_cons (x : Nat) (xs : List Nat) :
    toRuns (x :: xs) =
      match toRuns xs with
      | (first, more) :: rest =>
        if x + 1 = first then (x, more + 1) :: rest else (x, 0) :: toRuns xs
      | [] => [(x, 0)] := by
  conv => lhs; rw [toRuns, List.foldr_cons]
  rfl

theorem ofRuns_cons (first more : Nat) (rest : List (Nat × Nat)) :
    ofRuns ((first, more) :: rest) = (List.range (more + 1)).map (first + ·) ++ ofRuns rest := rfl

/-- The numbers of a run are its first one and those of the run after it. -/
theorem ofRuns_succ (x more : Nat) (rest : List (Nat × Nat)) :
    ofRuns ((x, more + 1) :: rest) = x :: ofRuns ((x + 1, more) :: rest) := by
  rw [ofRuns_cons, ofRuns_cons, List.range_succ_eq_map]
  simp [Function.comp_def, Nat.add_comm, Nat.add_left_comm]

/-- Runs stand for the numbers that they were made from. -/
theorem ofRuns_toRuns (xs : List Nat) : ofRuns (toRuns xs) = xs := by
  induction xs with
  | nil => rfl
  | cons x xs ih =>
    rw [toRuns_cons]
    split
    · rename_i first more rest hruns
      rw [hruns] at ih
      split
      · rename_i hnext
        rw [ofRuns_succ, hnext, ih]
      · rw [ofRuns_cons, hruns, ih]
        simp
    · rename_i hruns
      rw [hruns] at ih
      rw [← ih]
      rfl

/-- The first run begins with the first number. -/
theorem head?_toRuns (xs : List Nat) : (toRuns xs).head?.map (·.1) = xs.head? := by
  cases xs with
  | nil => rfl
  | cons x xs =>
    rw [toRuns_cons]
    split
    · split <;> rfl
    · rfl

theorem validRuns_cons_cons {first more next more' : Nat} {rest : List (Nat × Nat)} :
    validRuns ((first, more) :: (next, more') :: rest) = true ↔
      first + more + 1 < next ∧ validRuns ((next, more') :: rest) = true := by
  simp [validRuns]

/-- The runs of ascending numbers of 16 bits are in order, with a gap before each next one. -/
theorem validRuns_toRuns {xs : List Nat} (h : xs.Pairwise (· < ·)) (hlt : ∀ x ∈ xs, x < 65536) :
    validRuns (toRuns xs) = true := by
  induction xs with
  | nil => rfl
  | cons x xs ih =>
    have ih := ih (List.pairwise_cons.1 h).2 fun y hy => hlt y (List.mem_cons_of_mem x hy)
    rw [toRuns_cons]
    split
    · rename_i first more rest hruns
      rw [hruns] at ih
      have hfirst : first ∈ xs := by
        have hhead := head?_toRuns xs
        rw [hruns] at hhead
        exact List.mem_of_mem_head? hhead.symm
      have hx := (List.pairwise_cons.1 h).1 first hfirst
      split
      · -- the first number lengthens the first run
        rename_i hnext
        subst hnext
        cases rest with
        | nil => simp [validRuns] at ih ⊢; omega
        | cons run rest =>
          rw [validRuns_cons_cons] at ih ⊢
          exact ⟨by omega, ih.2⟩
      · -- the first number is a run of its own
        rename_i hgap
        rw [hruns, validRuns_cons_cons]
        exact ⟨by omega, ih⟩
    · simpa [validRuns] using hlt x (List.mem_cons_self ..)

/-- Runs within 16 bits are few and short. -/
theorem lt_of_validRuns {runs : List (Nat × Nat)} (h : validRuns runs = true) :
    runs.length < 65536 ∧ ∀ run ∈ runs, run.1 < 65536 ∧ run.2 < 65536 := by
  have hroom (first more : Nat) (rest : List (Nat × Nat))
      (h : validRuns ((first, more) :: rest) = true) :
      first + more + 2 * rest.length < 65536 ∧
        ∀ run ∈ (first, more) :: rest, run.1 < 65536 ∧ run.2 < 65536 := by
    induction rest generalizing first more with
    | nil =>
      simp only [validRuns, decide_eq_true_eq] at h
      simp
      omega
    | cons run rest ih =>
      obtain ⟨next, more'⟩ := run
      rw [validRuns_cons_cons] at h
      obtain ⟨hlt, hrest⟩ := ih next more' h.2
      refine ⟨by rw [List.length_cons]; omega, fun run hrun => ?_⟩
      rcases List.mem_cons.1 hrun with rfl | hrun
      · exact ⟨by dsimp only; omega, by dsimp only; omega⟩
      · exact hrest run hrun
  cases runs with
  | nil => simp
  | cons run rest =>
    obtain ⟨hlt, hrest⟩ := hroom run.1 run.2 rest h
    exact ⟨by rw [List.length_cons]; omega, hrest⟩

/-! ### Bits -/

/-- The number that has the first `n` bits as given and no others. -/
def numberOfBits (bit : Nat → Bool) (n : Nat) : Nat :=
  (List.range n).foldl (fun m j => if bit j then m + 2 ^ j else m) 0

theorem numberOfBits_succ (bit : Nat → Bool) (n : Nat) :
    numberOfBits bit (n + 1) =
      if bit n then numberOfBits bit n + 2 ^ n else numberOfBits bit n := by
  rw [numberOfBits, List.range_succ, List.foldl_append]
  rfl

theorem numberOfBits_spec (bit : Nat → Bool) (n : Nat) :
    numberOfBits bit n < 2 ^ n ∧ ∀ j < n, (numberOfBits bit n).testBit j = bit j := by
  induction n with
  | zero => simp [numberOfBits]
  | succ n ih =>
    obtain ⟨hlt, hbits⟩ := ih
    have hpow : 2 ^ (n + 1) = 2 ^ n + 2 ^ n := by rw [Nat.pow_succ]; omega
    rw [numberOfBits_succ]
    cases hn : bit n with
    | false =>
      rw [if_neg (by decide)]
      refine ⟨by omega, fun j hj => ?_⟩
      rcases Nat.lt_or_eq_of_le (Nat.le_of_lt_succ hj) with hj | rfl
      · exact hbits j hj
      · rw [hn, Nat.testBit_lt_two_pow hlt]
    | true =>
      rw [if_pos rfl, Nat.add_comm]
      refine ⟨by omega, fun j hj => ?_⟩
      rcases Nat.lt_or_eq_of_le (Nat.le_of_lt_succ hj) with hj | rfl
      · rw [Nat.testBit_two_pow_add_gt hj, hbits j hj]
      · rw [Nat.testBit_two_pow_add_eq, Nat.testBit_lt_two_pow hlt, hn]
        rfl

/-- A byte has the bits that it was made from. -/
theorem testBit_byteOfBits (bit : Nat → Bool) {j : Nat} (hj : j < 8) :
    (byteOfBits bit).toNat.testBit j = bit j := by
  have hbyte : (byteOfBits bit).toNat = numberOfBits bit 8 % 2 ^ 8 := UInt8.toNat_ofNat'
  obtain ⟨hlt, hbits⟩ := numberOfBits_spec bit 8
  rw [hbyte, Nat.mod_eq_of_lt hlt, hbits j hj]

/-- The bits that are set, eight to a byte, are in ascending order. -/
theorem pairwise_setBits (bs : Bytes) : (setBits bs).Pairwise (· < ·) := by
  unfold setBits
  rw [List.pairwise_flatMap]
  constructor
  · intro e _
    rw [List.pairwise_map]
    refine (List.Pairwise.filter _ List.pairwise_lt_range).imp fun h => ?_
    omega
  · rw [List.pairwise_iff_getElem]
    intro i j hi hj hij x hx y hy
    simp only [List.getElem_zipIdx, List.mem_map, List.mem_filter, List.mem_range] at hx hy
    obtain ⟨a, ⟨ha, -⟩, rfl⟩ := hx
    obtain ⟨b, ⟨hb, -⟩, rfl⟩ := hy
    omega

theorem mem_setBits {bs : Bytes} {x : Nat} :
    x ∈ setBits bs ↔ ∃ b, bs[x / 8]? = some b ∧ b.toNat.testBit (x % 8) = true := by
  simp only [setBits, List.mem_flatMap, List.mem_map, List.mem_filter, List.mem_range, Prod.exists,
    List.mem_zipIdx_iff_getElem?]
  constructor
  · rintro ⟨b, i, hb, j, ⟨hj, hbit⟩, rfl⟩
    have hi : (8 * i + j) / 8 = i := by omega
    have hmod : (8 * i + j) % 8 = j := by omega
    exact ⟨b, by rw [hi]; exact hb, by rw [hmod]; exact hbit⟩
  · rintro ⟨b, hb, hbit⟩
    exact ⟨b, x / 8, hb, x % 8, ⟨by omega, hbit⟩, by omega⟩

@[simp] theorem length_bitBytes (values : List Nat) : (bitBytes values).length = 8192 := by
  simp [bitBytes]

/-- Bits stand for the numbers that they were set for. -/
theorem setBits_bitBytes {values : List Nat} (h : values.Pairwise (· < ·))
    (hlt : ∀ v ∈ values, v < 65536) : setBits (bitBytes values) = values := by
  refine eq_of_ascending (pairwise_setBits _) h fun x => ?_
  rw [mem_setBits]
  have hbyte (b : UInt8) : (bitBytes values)[x / 8]? = some b ↔ x / 8 < 8192 ∧
      byteOfBits (fun j => (Std.HashSet.ofList values).contains (8 * (x / 8) + j)) = b := by
    by_cases h8 : x / 8 < 8192
    · simp [bitBytes, h8]
    · simp [bitBytes, h8]
  have hx : 8 * (x / 8) + x % 8 = x := by omega
  constructor
  · rintro ⟨b, hb, hbit⟩
    obtain ⟨-, rfl⟩ := (hbyte b).1 hb
    rw [testBit_byteOfBits _ (by omega), hx] at hbit
    simpa using hbit
  · intro hmem
    have := hlt x hmem
    refine ⟨_, (hbyte _).2 ⟨by omega, rfl⟩, ?_⟩
    rw [testBit_byteOfBits _ (by omega), hx]
    simpa using hmem

/-- Numbers counted eight by eight. -/
theorem flatMap_range_eight {α : Type} (f : Nat → α) (n : Nat) :
    (List.range n).flatMap (fun i => (List.range 8).map fun j => f (8 * i + j)) =
      (List.range (8 * n)).map f := by
  induction n with
  | zero => rfl
  | succ n ih =>
    rw [List.range_succ (n := n), List.flatMap_append, ih, Nat.mul_succ, List.range_add,
      List.map_append, List.map_map]
    simp [Function.comp_def]

/-- Flags that are packed eight to a byte come back, and some more after them. -/
theorem unpackFlags_packFlags (flags : List Bool) :
    ∃ more, unpackFlags (packFlags flags) = flags ++ more := by
  have hbits : unpackFlags (packFlags flags) =
      (List.range (8 * ((flags.length + 7) / 8))).map (flags.getD · false) := by
    rw [← flatMap_range_eight, unpackFlags, packFlags, List.flatMap_map]
    congr 1
    funext i
    refine List.map_congr_left fun j hj => ?_
    exact testBit_byteOfBits _ (List.mem_range.1 hj)
  obtain ⟨k, hk⟩ :=
    Nat.exists_eq_add_of_le (show flags.length ≤ 8 * ((flags.length + 7) / 8) by omega)
  rw [hbits, hk, List.range_add, List.map_append]
  refine ⟨_, congrArg (· ++ _) ?_⟩
  apply List.ext_getElem
  · simp
  · intro i hi hi'
    simp [hi']

@[simp] theorem length_packFlags (flags : List Bool) :
    (packFlags flags).length = (flags.length + 7) / 8 := by
  simp [packFlags]

/-! ### One container -/

namespace Container

/-- A container that a bitmap can have: its numbers are words of 16 bits, ascending, and there is at
least one. -/
structure WellFormed (c : Container) : Prop where
  key_lt : c.key < 65536
  ne_nil : c.values ≠ []
  ascending : c.values.Pairwise (· < ·)
  lt : ∀ v ∈ c.values, v < 65536

/-- The header of a container. -/
def toHeader (c : Container) : Header := ⟨c.key, c.values.length, c.asRuns⟩

/-- Ascending words of 16 bits are at most 65536. -/
theorem WellFormed.length_le {c : Container} (h : c.WellFormed) : c.values.length ≤ 65536 :=
  length_le_of_ascending h.ascending h.lt

theorem readRun?_append {run : Nat × Nat} (h1 : run.1 < 65536) (h2 : run.2 < 65536) (rest : Bytes) :
    readRun? (littleEndian 2 run.1 ++ littleEndian 2 run.2 ++ rest) = some (run, rest) := by
  rw [readRun?, List.append_assoc, takeWord?_append (by omega)]
  dsimp only [Option.bind_eq_bind, Option.bind_some]
  rw [takeWord?_append (by omega)]
  rfl

theorem readKeySize?_header {c : Container} (h : c.WellFormed) (rest : Bytes) :
    readKeySize? (c.header ++ rest) = some ((c.key, c.values.length), rest) := by
  have hlen := h.length_le
  have hpos := List.length_pos_iff.2 h.ne_nil
  have hkey := h.key_lt
  rw [readKeySize?, header, List.append_assoc, takeWord?_append (by omega)]
  dsimp only [Option.bind_eq_bind, Option.bind_some]
  rw [takeWord?_append (by omega), Option.bind_some, Nat.sub_add_cancel hpos]
  rfl

/-- The bytes of a container are read back, and nothing after them is touched. -/
theorem readBody?_body {c : Container} (h : c.WellFormed) (rest : Bytes) :
    readBody? c.toHeader (c.body ++ rest) = some (c, rest) := by
  obtain ⟨key, values, asRuns⟩ := c
  unfold readBody? toHeader body
  dsimp only
  split
  · -- as runs
    rename_i hruns
    have hvalid := validRuns_toRuns h.ascending h.lt
    obtain ⟨hcount, hlt⟩ := lt_of_validRuns hvalid
    have hne : toRuns values ≠ [] := by
      intro hnil
      have := ofRuns_toRuns values
      rw [hnil] at this
      exact h.ne_nil this.symm
    dsimp only at hvalid hcount hlt
    rw [List.append_assoc, takeWord?_append (by omega)]
    dsimp only [Option.bind_eq_bind, Option.bind_some]
    have hread : ∀ run ∈ toRuns values, ∀ rest,
        readRun? (littleEndian 2 run.1 ++ littleEndian 2 run.2 ++ rest) = some (id run, rest) :=
      fun run hrun => readRun?_append (hlt run hrun).1 (hlt run hrun).2
    rw [readMany_flatMap hread, List.map_id]
    dsimp only [Option.bind_some]
    rw [if_pos ⟨hne, hvalid⟩, ofRuns_toRuns, hruns]
  · rename_i hruns
    rw [Bool.not_eq_true] at hruns
    subst hruns
    split
    · -- as an array
      have hread : ∀ v ∈ values, ∀ rest,
          takeWord? 2 (littleEndian 2 v ++ rest) = some (id v, rest) :=
        fun v hv rest => takeWord?_append (by have := h.lt v hv; omega) rest
      dsimp only [Option.bind_eq_bind]
      rw [readMany_flatMap hread, List.map_id]
      dsimp only [Option.bind_some]
      rw [if_pos (isAscending_iff.2 h.ascending)]
    · -- as bits
      dsimp only [Option.bind_eq_bind]
      rw [takeBytes?_append (length_bitBytes values)]
      dsimp only [Option.bind_some]
      rw [setBits_bitBytes h.ascending h.lt, if_pos rfl]

end Container

/-! ### A whole bitmap -/

/-- The containers of a bitmap: well-formed, and ascending by their keys. -/
structure Bitmap (cs : List Container) : Prop where
  wellFormed : ∀ c ∈ cs, c.WellFormed
  ascending : (cs.map (·.key)).Pairwise (· < ·)

theorem Bitmap.length_le {cs : List Container} (h : Bitmap cs) : cs.length ≤ maxContainers := by
  have hlt : ∀ k ∈ cs.map (·.key), k < maxContainers := by
    intro k hk
    obtain ⟨c, hc, rfl⟩ := List.mem_map.1 hk
    exact (h.wellFormed c hc).key_lt
  simpa using length_le_of_ascending h.ascending hlt

/-- The bytes that say how many containers there are, and which of them are kept as runs. -/
def introBytes (cs : List Container) : Bytes :=
  if cs.any (·.asRuns) then
    littleEndian 4 (runCookie + (cs.length - 1) * 65536) ++ packFlags (cs.map (·.asRuns))
  else littleEndian 4 plainCookie ++ littleEndian 4 cs.length

/-- Whether the offsets of the containers are written. -/
def hasOffsets (cs : List Container) : Bool :=
  !cs.any (·.asRuns) || offsetThreshold ≤ cs.length

/-- The bytes of the offsets. -/
def offsetBytes (cs : List Container) : Bytes :=
  if hasOffsets cs then
    (offsets ((introBytes cs).length + (cs.flatMap (·.header)).length + 4 * cs.length)
      (cs.map fun c => c.body.length)).flatMap (littleEndian 4)
  else []

theorem portable_eq (cs : List Container) :
    portable cs =
      introBytes cs ++ (cs.flatMap (·.header) ++ (offsetBytes cs ++ cs.flatMap (·.body))) := by
  unfold portable offsetBytes hasOffsets introBytes
  simp only [List.map_map, List.append_assoc, ← List.flatMap_def]
  rfl

theorem length_offsets (start : Nat) (sizes : List Nat) :
    (offsets start sizes).length = sizes.length := by
  induction sizes generalizing start with
  | nil => rfl
  | cons size sizes ih => rw [offsets, List.length_cons, ih, List.length_cons]

theorem length_offsetBytes (cs : List Container) :
    (offsetBytes cs).length = if hasOffsets cs then 4 * cs.length else 0 := by
  unfold offsetBytes
  split
  · have hfour : (fun n => (littleEndian 4 n).length) = fun _ => 4 := by
      funext n
      exact length_littleEndian 4 n
    rw [List.length_flatMap, hfour, List.map_const', length_offsets, List.length_map,
      List.sum_replicate_nat, Nat.mul_comm]
  · rfl

/-- The flags that are read for the containers, if any are written. They come in whole bytes. -/
def runFlags? (cs : List Container) : Option (List Bool) :=
  if cs.any (·.asRuns) then some (unpackFlags (packFlags (cs.map (·.asRuns)))) else none

/-- How many containers there are and which of them are runs is read back. -/
theorem readIntro?_introBytes {cs : List Container} (h : cs.length ≤ maxContainers) (rest : Bytes) :
    readIntro? (introBytes cs ++ rest) = some ((cs.length, runFlags? cs), rest) := by
  unfold readIntro? introBytes runFlags?
  have hle : cs.length ≤ 65536 := h
  split
  · rename_i hruns
    have hpos : 0 < cs.length := by
      rw [List.length_pos_iff]
      rintro rfl
      simp at hruns
    have hcount : (runCookie + (cs.length - 1) * 65536) / 65536 + 1 = cs.length := by
      unfold runCookie
      omega
    have hplain : runCookie + (cs.length - 1) * 65536 ≠ plainCookie := by
      unfold runCookie plainCookie
      omega
    have hcookie : (runCookie + (cs.length - 1) * 65536) % 65536 = runCookie := by
      unfold runCookie
      omega
    -- the number of containers shares a word with the cookie, less one so that 65536 fits
    rw [List.append_assoc, takeWord?_append (by unfold runCookie; omega)]
    dsimp only [Option.bind_eq_bind, Option.bind_some]
    rw [if_neg hplain, if_pos hcookie, hcount,
      takeBytes?_append (by rw [length_packFlags, List.length_map])]
    rfl
  · rw [List.append_assoc, takeWord?_append (by decide)]
    dsimp only [Option.bind_eq_bind, Option.bind_some]
    rw [if_pos rfl, takeWord?_append (by omega)]
    dsimp only [Option.bind_some]
    rw [if_pos h]

/-- Flags that are read give each container its own, whatever follows them. -/
theorem exists_flags (cs : List Container) :
    ∃ more, (runFlags? cs).getD [] ++ List.replicate cs.length false =
      cs.map (·.asRuns) ++ more := by
  unfold runFlags?
  split
  · obtain ⟨more, hmore⟩ := unpackFlags_packFlags (cs.map (·.asRuns))
    exact ⟨more ++ List.replicate cs.length false, by
      rw [Option.getD_some, hmore, List.append_assoc]⟩
  · rename_i hruns
    refine ⟨[], ?_⟩
    rw [Option.getD_none, List.nil_append, List.append_nil, eq_comm, List.map_eq_replicate_iff]
    simpa using hruns

theorem zip_map_append {α β γ : Type} (f : α → β) (g : α → γ) (as : List α) (more : List γ) :
    (as.map f).zip (as.map g ++ more) = as.map fun a => (f a, g a) := by
  induction as with
  | nil => simp
  | cons a as ih => simp [ih]

/-- **A bitmap through its bytes.** The containers are read back, and exactly their bytes are taken
off. -/
theorem readPortable?_portable {cs : List Container} (h : Bitmap cs) (rest : Bytes) :
    readPortable? (portable cs ++ rest) = some (cs, rest) := by
  have hheader : ∀ c ∈ cs, ∀ rest, readKeySize? (c.header ++ rest) =
      some ((c.key, c.values.length), rest) :=
    fun c hc => Container.readKeySize?_header (h.wellFormed c hc)
  have hbody : ∀ c ∈ cs, ∀ rest, Container.readBody? c.toHeader (c.body ++ rest) = some (c, rest) :=
    fun c hc => Container.readBody?_body (h.wellFormed c hc)
  have hoffsets : ((runFlags? cs).isNone || decide (offsetThreshold ≤ cs.length)) =
      hasOffsets cs := by
    unfold runFlags? hasOffsets
    cases cs.any (·.asRuns) <;> rfl
  obtain ⟨more, hflags⟩ := exists_flags cs
  unfold readPortable?
  -- the head
  rw [portable_eq, List.append_assoc, readIntro?_introBytes h.length_le]
  dsimp only [Option.bind_eq_bind, Option.bind_some]
  -- the headers
  rw [List.append_assoc, readMany_flatMap hheader]
  dsimp only [Option.bind_some]
  -- the offsets, which are skipped
  rw [hoffsets, List.append_assoc, takeBytes?_append (length_offsetBytes cs)]
  dsimp only [Option.bind_some]
  -- the bodies
  rw [hflags, zip_map_append, List.map_map]
  have hheads : (fun e : (Nat × Nat) × Bool => (⟨e.1.1, e.1.2, e.2⟩ : Container.Header)) ∘
      (fun c : Container => ((c.key, c.values.length), c.asRuns)) = Container.toHeader := rfl
  rw [hheads, readEach_flatMap hbody, Option.bind_some, List.map_map]
  exact if_pos (isAscending_iff.2 h.ascending)

end ShuffleService
