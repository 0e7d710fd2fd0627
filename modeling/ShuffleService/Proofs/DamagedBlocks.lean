import ShuffleService.Proofs.ChecksumAlgebra
import ShuffleService.Proofs.CompletenessCheck

/-!
# Blocks that were damaged

A segment carries the checksum and the length of the block that was written. If the bytes in its
range are still those of the block, a call that delivers it returns the block; if they were changed
in a window of four bytes, the call fails and names both checksums. Either way the block counts as
seen, so that no later call returns it (`outcome_of_announces`).
-/

namespace ShuffleService

namespace StoredCopy

variable {c : StoredCopy} {payload : Bytes} {start : Nat}

/-- The bytes in the range of a copy. -/
def bytes (c : StoredCopy) : Bytes :=
  (c.data.drop c.segment.offset.toNat).take c.segment.length.toNat

/-- The segment of a copy was made for a payload, and its range lies inside the chunk. -/
structure Announces (c : StoredCopy) (payload : Bytes) : Prop where
  crc_eq : c.segment.crc = Crc32.checksum payload
  length_eq : c.segment.length = payload.length
  offset_nonneg : 0 ≤ c.segment.offset
  end_le : c.segment.offset + c.segment.length ≤ c.data.length

namespace Announces

theorem length_bytes (h : c.Announces payload) : c.bytes.length = payload.length := by
  obtain ⟨-, hlength, hoffset, hend⟩ := h
  rw [bytes, List.length_take, List.length_drop]
  omega

/-- With the range inside the chunk, only the checksum decides. -/
theorem block_eq (h : c.Announces payload) : c.block =
    if Crc32.checksum c.bytes = Crc32.checksum payload then .ok ⟨c.bytes, c.segment.rawLength⟩
    else .error (.checksumMismatch c.segment.blockId c.segment.crc (Crc32.checksum c.bytes)) := by
  obtain ⟨hcrc, hlength, hoffset, hend⟩ := h
  have hrange : 0 ≤ c.segment.offset ∧ 0 ≤ c.segment.length ∧
      c.segment.offset + c.segment.length ≤ c.data.length := ⟨hoffset, by omega, hend⟩
  simp only [block, if_pos hrange, hcrc, Int.natCast_inj]
  rfl

theorem block_of_intact (h : c.Announces payload) (hintact : c.bytes = payload) :
    c.block = .ok ⟨payload, c.segment.rawLength⟩ := by
  rw [h.block_eq, hintact, if_pos rfl]

theorem checksum_ne (h : c.Announces payload) (hsame : SameOutside start c.bytes payload)
    (hne : c.bytes ≠ payload) : Crc32.checksum c.bytes ≠ Crc32.checksum payload :=
  Crc32.checksum_ne h.length_bytes hsame hne

theorem block_of_damaged (h : c.Announces payload) (hsame : SameOutside start c.bytes payload)
    (hne : c.bytes ≠ payload) : c.block =
      .error (.checksumMismatch c.segment.blockId c.segment.crc (Crc32.checksum c.bytes)) := by
  rw [h.block_eq, if_neg (h.checksum_ne hsame hne)]

end Announces

end StoredCopy

namespace BlockReader

variable {σ : Type} {source : ChunkSource σ} {r r' : BlockReader} {s s' : σ} {c : Call}
  {d : StoredCopy} {x : Nat}

/-! ### What stays seen -/

theorem mem_processed_of_call (hcall : call source r s = (c, r', s')) (hx : x ∈ r.processed) :
    x ∈ r'.processed := by
  rw [(call_spec hcall).2.processed, mem_processed_lookAll]
  exact .inl hx

/-- A copy that is delivered is one that was looked at, of a block that was not seen before. -/
theorem mem_looked_of_delivered (hcall : call source r s = (c, r', s'))
    (hd : c.delivered = some d) : d ∈ c.looked ∧ d.key ∉ r.processed := by
  have hpick : d ∈ r.picks c.looked := by
    rw [(call_spec hcall).1, hd]
    exact List.mem_singleton_self d
  rw [picks_eq, List.mem_filter, Bool.and_eq_true, Bool.not_eq_true', Bool.eq_false_iff,
    Ne, IdSet.contains_iff] at hpick
  exact ⟨(firstPer_sublist _ _).subset hpick.1, hpick.2.1⟩

theorem mem_processed_of_delivered (hcall : call source r s = (c, r', s'))
    (hd : c.delivered = some d) : d.key ∈ r'.processed := by
  rw [(call_spec hcall).2.processed, mem_processed_lookAll]
  exact .inr ⟨d, (mem_looked_of_delivered hcall hd).1, rfl⟩

/-- A block that was seen is not returned. -/
theorem returns_of_mem_processed (hcall : call source r s = (c, r', s')) (hx : x ∈ r.processed) :
    c.returns x = false := by
  cases hd : c.delivered with
  | none => cases c.outcome <;> simp [Call.returns, hd]
  | some d =>
    have hnew := (mem_looked_of_delivered hcall hd).2
    have hne : d.key ≠ x := fun h => hnew (h ▸ hx)
    unfold Call.returns
    rw [hd]
    split
    · rename_i hsome
      cases hsome
      exact decide_eq_false hne
    · rfl

/-- A reader after further calls. Whatever happens to the source between two of them, such as that
it is closed, the next call may find it in any state. -/
inductive Later (source : ChunkSource σ) (r : BlockReader) : BlockReader → Prop
  | refl : Later source r r
  | call {r₁ r₂ s s' c} (h : Later source r r₁) (hcall : call source r₁ s = (c, r₂, s')) :
    Later source r r₂

theorem Later.mem_processed (h : Later source r r') (hx : x ∈ r.processed) : x ∈ r'.processed := by
  induction h with
  | refl => exact hx
  | call _ hcall ih => exact mem_processed_of_call hcall ih

/-! ### Damage -/

/-- **Damage is noticed.** Take any source, and a call that delivers a copy whose segment was made
for a payload and whose range lies inside the chunk.

* If the bytes in the range are the payload, the call returns it.
* If they differ from it, and do so only in a window of four bytes, the call fails: it names the
  block, the checksum of the segment and the one of the bytes, which are not the same.
* No later call returns a block with that id. -/
theorem outcome_of_announces {payload : Bytes} (hcall : call source r s = (c, r', s'))
    (hd : c.delivered = some d) (h : d.Announces payload) :
    (d.bytes = payload → c.outcome = .ok (some ⟨payload, d.segment.rawLength⟩)) ∧
    (∀ start, SameOutside start d.bytes payload → d.bytes ≠ payload →
      c.outcome = .error
        (.checksumMismatch d.segment.blockId d.segment.crc (Crc32.checksum d.bytes)) ∧
      d.segment.crc ≠ Crc32.checksum d.bytes) ∧
    ∀ r₁ s₁ c' r₂ s₂, Later source r' r₁ → call source r₁ s₁ = (c', r₂, s₂) →
      c'.returns d.key = false := by
  have houtcome := outcome_call hcall hd
  have hseen := mem_processed_of_delivered hcall hd
  refine ⟨fun hintact => ?_, fun start hsame hne => ⟨?_, ?_⟩, ?_⟩
  · rw [houtcome, h.block_of_intact hintact]
    rfl
  · rw [houtcome, h.block_of_damaged hsame hne]
    rfl
  · rw [h.crc_eq, Ne, Int.natCast_inj]
    exact (h.checksum_ne hsame hne).symm
  · intro r₁ s₁ c' r₂ s₂ hlater hcall'
    exact returns_of_mem_processed hcall' (hlater.mem_processed hseen)

/-- A block of two bytes whose second was changed. -/
theorem outcome_of_announces_changed_byte :
    let d : StoredCopy := ⟨[0, 97, 99], ⟨1, 1, 2, 5, 2659403885, 1⟩⟩
    let r : BlockReader := ⟨.ofIds [1], .ofIds [1], ∅, 1, #[0, 97, 99], [d.segment]⟩
    let source := ChunkSource.recorded []
    ∃ c r' log, call source r ⟨[], 0⟩ = (c, r', log) ∧ c.delivered = some d ∧
      d.bytes = [97, 98].set 1 99 ∧
      c.outcome = .error (.checksumMismatch 1 2659403885 3917773051) ∧
      ∀ r₁ s₁ c' r₂ s₂, Later source r' r₁ → call source r₁ s₁ = (c', r₂, s₂) →
        c'.returns 1 = false := by
  intro d r source
  have haccepts : r.accepts d.segment = true := by decide +kernel
  have hnext : r.nextAccepted r.queue = (some d.segment, { r.look d with queue := [] }) := by
    show (if r.accepts d.segment then _ else _) = _
    rw [haccepts]
    rfl
  have hseek : seek source r ⟨[], 0⟩ =
      ⟨[d], .ok (some d), { r.look d with queue := [] }, ⟨[], 0⟩⟩ := by
    rw [seek, hnext]
    rfl
  have hcall := call_eq (r := r) (by decide +kernel) source ⟨[], 0⟩
  rw [hseek] at hcall
  have hcrc (bs : Bytes) : Crc32.checksum bs =
      (bs.foldl Crc32.feedBits 0xFFFFFFFF ^^^ 0xFFFFFFFF).toNat := by
    rw [Crc32.checksum, Crc32.updateInSteps_eq, Crc32.update_eq]
  have hannounces : d.Announces [97, 98] :=
    ⟨by rw [hcrc]; decide +kernel, by decide, by decide, by decide⟩
  obtain ⟨-, hdamaged, hlater⟩ := outcome_of_announces hcall rfl hannounces
  have hactual : Crc32.checksum d.bytes = 3917773051 := by
    rw [hcrc]
    decide +kernel
  refine ⟨_, _, _, hcall, rfl, rfl, ?_, hlater⟩
  rw [(hdamaged 1 (sameOutside_set [97, 98] 1 99) (by decide)).1, hactual]
  rfl

end BlockReader

end ShuffleService
