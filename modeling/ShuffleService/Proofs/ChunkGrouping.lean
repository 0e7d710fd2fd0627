import ShuffleService.Proofs.WordArithmetic

/-!
# Chunks are as long as they may be

Records are grouped in the order in which they come, and a record begins a new chunk only if it has
to: together with the chunk before it, it would take more room than the limit. A block that is too
large for any chunk is one on its own. `Grouped` says this of any list of chunks, and there is only
one such list for given records and a given limit (`Grouped.unique`).

The sizes of chunks have no bound in this model. In words of 64 bits the grouping is the same as
long as all blocks together do not take more room than a word can state.
-/

namespace ShuffleService

namespace IndexRecord

variable {limit size : Nat} {r : IndexRecord} {rs begun chunk rest : List IndexRecord}
  {chunks others : List (List IndexRecord)}

/-! ### The room of several blocks -/

/-- The room that blocks take together. -/
def roomOf (rs : List IndexRecord) : Nat := (rs.map room).sum

@[simp] theorem roomOf_cons (r : IndexRecord) (rs : List IndexRecord) :
    roomOf (r :: rs) = r.room + roomOf rs := List.sum_cons

@[simp] theorem roomOf_append (rs more : List IndexRecord) :
    roomOf (rs ++ more) = roomOf rs + roomOf more := by
  rw [roomOf, List.map_append, List.sum_append_nat]
  rfl

@[simp] theorem roomOf_reverse (rs : List IndexRecord) : roomOf rs.reverse = roomOf rs :=
  (rs.reverse_perm.map room).sum_nat

/-! ### Chunks in a row -/

/-- The first block of the chunk that comes next finds no room in a chunk. -/
def Overflows (limit : Nat) (chunk next : List IndexRecord) : Prop :=
  ∃ r, next.head? = some r ∧ limit < roomOf chunk + r.room

/-- Chunks within a limit, each as long as it may be. Only a block on its own may take more room. -/
structure Packed (limit : Nat) (chunks : List (List IndexRecord)) : Prop where
  single : ∀ chunk ∈ chunks, limit < roomOf chunk → chunk.length = 1
  full : ∀ i chunk next, chunks[i]? = some chunk → chunks[i + 1]? = some next →
    Overflows limit chunk next

theorem packed_nil : Packed limit [] := ⟨by simp, by simp⟩

theorem Packed.cons (h : Packed limit chunks) (hsingle : limit < roomOf chunk → chunk.length = 1)
    (hfull : ∀ next, chunks.head? = some next → Overflows limit chunk next) :
    Packed limit (chunk :: chunks) where
  single := List.forall_mem_cons.2 ⟨hsingle, h.single⟩
  full i c d hc hd := by
    cases i with
    | zero =>
      cases hc
      exact hfull d (by rw [List.head?_eq_getElem?]; exact hd)
    | succ i => exact h.full i c d hc hd

theorem Packed.tail (h : Packed limit (chunk :: chunks)) : Packed limit chunks where
  single c hc := h.single c (List.mem_cons_of_mem _ hc)
  full i c d hc hd := h.full (i + 1) c d hc hd

/-- The chunks of some records: none is lost, none is out of order, and no chunk is without one. -/
structure Grouped (limit : Nat) (rs : List IndexRecord) (chunks : List (List IndexRecord)) : Prop
    extends Packed limit chunks where
  flatten : chunks.flatten = rs
  ne_nil : ∀ chunk ∈ chunks, chunk ≠ []

/-- The first record is at the head of the first chunk. -/
theorem head?_of_flatten (hne : ∀ chunk ∈ chunks, chunk ≠ []) (hflat : chunks.flatten = r :: rs)
    (hchunk : chunks.head? = some chunk) : chunk.head? = some r := by
  cases chunks with
  | nil => cases hchunk
  | cons c chunks =>
    cases hchunk
    cases chunk with
    | nil => exact absurd rfl (hne [] (List.mem_cons_self ..))
    | cons r' rest =>
      cases hflat
      rfl

/-! ### The chunks of the model -/

/-- What has been begun can be a chunk, and its size is known. -/
structure Begun (limit : Nat) (begun : List IndexRecord) (size : Nat) : Prop where
  size_eq : size = roomOf begun
  single : limit < size → begun.length ≤ 1

theorem Begun.length_reverse (h : Begun limit begun size) (hne : begun ≠ [])
    (hlt : limit < roomOf begun.reverse) : begun.reverse.length = 1 := by
  have hone := h.single (by rwa [h.size_eq, ← roomOf_reverse])
  have hpos := List.length_pos_iff.2 hne
  rw [List.length_reverse]
  omega

/-- A chunk is done only when the next record finds no room in it. -/
theorem packed_groupOnto (h : Begun limit begun size) :
    Packed limit (groupOnto limit [] begun size rs) := by
  induction rs generalizing begun size with
  | nil =>
    unfold groupOnto
    cases begun with
    | nil => exact packed_nil
    | cons r begun =>
      refine packed_nil.cons (h.length_reverse (List.cons_ne_nil _ _)) fun next hnext => ?_
      cases hnext
  | cons r rs ih =>
    unfold groupOnto
    split
    case isTrue hfull =>
      rw [groupOnto_eq]
      have hbegun : Begun limit [r] r.room := ⟨by simp [roomOf], fun _ => Nat.le_refl 1⟩
      refine (ih hbegun).cons (h.length_reverse (by simpa using hfull.1)) fun next hnext => ?_
      -- the next chunk goes on from the record that found no room
      obtain ⟨hflat, hne⟩ := groupOnto_spec limit [r] r.room rs
      refine ⟨r, head?_of_flatten hne hflat hnext, ?_⟩
      rw [roomOf_reverse, ← h.size_eq]
      exact hfull.2
    case isFalse hroom =>
      refine ih ⟨by rw [roomOf_cons, h.size_eq, Nat.add_comm], fun hlt => ?_⟩
      -- only what has just been begun may be past the limit
      have hempty : begun = [] := by
        by_contra hne
        exact hroom ⟨by simpa using hne, hlt⟩
      rw [hempty]
      exact Nat.le_refl 1

theorem grouped_groupIntoChunks (limit : Nat) (rs : List IndexRecord) :
    Grouped limit rs (groupIntoChunks limit rs) where
  toPacked := packed_groupOnto ⟨rfl, fun _ => Nat.zero_le 1⟩
  flatten := flatten_groupIntoChunks limit rs
  ne_nil _ hchunk := ne_nil_of_mem_groupIntoChunks hchunk

/-! ### No other chunks -/

theorem Grouped.tail (h : Grouped limit rs (chunk :: chunks)) :
    Grouped limit chunks.flatten chunks where
  toPacked := h.toPacked.tail
  flatten := rfl
  ne_nil c hc := h.ne_nil c (List.mem_cons_of_mem _ hc)

/-- A chunk cannot be longer than one of the same records that is followed by another. -/
theorem Grouped.not_longer (h : Grouped limit rs (chunk :: chunks))
    (hnext : chunks.flatten = r :: rest) (more : List IndexRecord) :
    ¬ (limit < roomOf (chunk ++ r :: more) → (chunk ++ r :: more).length = 1) := by
  intro hsingle
  obtain ⟨next, hhead⟩ : ∃ next, chunks.head? = some next := by
    cases chunks with
    | nil => cases hnext
    | cons next chunks => exact ⟨next, rfl⟩
  have hfirst := head?_of_flatten h.tail.ne_nil hnext hhead
  rw [List.head?_eq_getElem?] at hhead
  obtain ⟨r', hr', hlt⟩ := h.full 0 chunk next rfl hhead
  rw [hfirst] at hr'
  cases hr'
  have hpos := List.length_pos_iff.2 (h.ne_nil chunk (List.mem_cons_self ..))
  rw [roomOf_append, roomOf_cons, List.length_append, List.length_cons] at hsingle
  omega

/-- There is only one way to group records. -/
theorem Grouped.unique (h : Grouped limit rs chunks) (h' : Grouped limit rs others) :
    others = chunks := by
  have hnone {css : List (List IndexRecord)} (h : Grouped limit [] css) : css = [] := by
    refine List.eq_nil_iff_forall_not_mem.2 fun c hc => h.ne_nil c hc ?_
    exact List.flatten_eq_nil_iff.1 h.flatten c hc
  induction chunks generalizing rs others with
  | nil =>
    obtain rfl : [] = rs := h.flatten
    exact hnone h'
  | cons c chunks ih =>
    cases others with
    | nil =>
      obtain rfl : [] = rs := h'.flatten
      exact absurd (hnone h) (List.cons_ne_nil _ _)
    | cons d others =>
      have hflat : c ++ chunks.flatten = d ++ others.flatten := by
        rw [← List.flatten_cons, h.flatten, ← h'.flatten, List.flatten_cons]
      have hsame : c = d := by
        rcases List.append_eq_append_iff.1 hflat with ⟨more, hd, hrest⟩ | ⟨more, hc, hrest⟩
        · cases more with
          | nil => rw [hd, List.append_nil]
          | cons r more =>
            refine absurd ?_ (h.not_longer hrest more)
            exact hd ▸ h'.single d (List.mem_cons_self ..)
        · cases more with
          | nil => rw [hc, List.append_nil]
          | cons r more =>
            refine absurd ?_ (h'.not_longer hrest more)
            exact hc ▸ h.single c (List.mem_cons_self ..)
      subst hsame
      have hrest : chunks.flatten = others.flatten := List.append_cancel_left hflat
      exact congrArg (c :: ·) (ih h.tail (hrest ▸ h'.tail))

/-- **Chunks.** Take any records, whose lengths may be zero or negative, and any limit. The chunks
hold these records, each once and in order. None of them is without a record; one that takes more
room than the limit is a single block; and wherever a chunk ends, the block that comes next would
have led it past the limit. No other chunks of these records are like this. In words of 64 bits the
same chunks come out, if the room of all blocks together fits a word. -/
theorem records_in_chunks (limit : Nat) (rs : List IndexRecord) :
    Grouped limit rs (groupIntoChunks limit rs) ∧
    (∀ chunks, Grouped limit rs chunks → chunks = groupIntoChunks limit rs) ∧
    (roomOf rs < 2 ^ 64 →
      Words.group? limit [] [] 0 rs = some (groupIntoChunks limit rs)) := by
  have hgrouped := grouped_groupIntoChunks limit rs
  refine ⟨hgrouped, fun chunks h => hgrouped.unique h, fun hroom => ?_⟩
  exact Words.group?_eq limit (by rwa [Nat.zero_add])

/-- Two blocks that fill a chunk, one that is too large for any, two that take no room but do not
fit beside it, one that fills the chunk they begin, and one that is left. -/
theorem records_in_chunks_of_all_sizes :
    let sized (n : Int) : IndexRecord := ⟨0, n, n, 0, 1, 1⟩
    let rs := [10, 10, 50, 0, -3, 20, 1].map sized
    let chunks := [[10, 10], [50], [0, -3, 20], [1]].map (·.map sized)
    roomOf rs < 2 ^ 64 ∧ Words.group? 20 [] [] 0 rs = some chunks ∧ Grouped 20 rs chunks ∧
      chunks = groupIntoChunks 20 rs := by
  intro sized rs chunks
  have hroom : roomOf rs < 2 ^ 64 := by decide
  have hchunks : groupIntoChunks 20 rs = chunks := by decide
  obtain ⟨hgrouped, hunique, hwords⟩ := records_in_chunks 20 rs
  rw [hchunks] at hgrouped hwords
  exact ⟨hroom, hwords hroom, hgrouped, hunique chunks hgrouped⟩

end IndexRecord

end ShuffleService
