import ShuffleService.Proofs.ReaderReference

/-!
# What the check at the end says

After a run without errors the check says whether every expected block was seen. A block counts as
seen with the first copy that is looked at, also if that copy is passed over, and no later copy of
it is delivered. So the check vouches for the delivery of those blocks only whose first copy
carries a task attempt that counts (`count_returns_of_check`); a copy that carries another attempt
than the one in its block id can hide the block from the reader and from the check
(`check_passes_over_foreign_copy`).
-/

namespace ShuffleService.BlockReader

variable {σ : Type} {source : ChunkSource σ} {r r' : BlockReader} {s s' : σ} {cs : List Call}

/-- Whether a call returns the block of an id. -/
def Call.returns (x : Nat) (c : Call) : Bool :=
  match c.outcome, c.delivered with
  | .ok (some _), some d => d.key = x
  | _, _ => false

/-- Every call of a run is a call of a reader. -/
theorem Reads.exists_call (h : Reads source r s cs r' s') {c : Call} (hc : c ∈ cs) :
    ∃ r₁ s₁ r₂ s₂, call source r₁ s₁ = (c, r₂, s₂) := by
  induction h with
  | last hcall =>
    rw [List.mem_singleton] at hc
    subst hc
    exact ⟨_, _, _, _, hcall⟩
  | more hcall _ _ ih =>
    rcases List.mem_cons.1 hc with rfl | hc
    · exact ⟨_, _, _, _, hcall⟩
    · exact ih hc

/-- In a run without errors an id is returned as often as copies of it are delivered. -/
theorem Reads.countP_returns (h : Reads source r s cs r' s')
    (hok : ∀ c ∈ cs, ∃ b, c.outcome = .ok b) (x : Nat) :
    cs.countP (·.returns x) = ((delivered cs).map (·.key)).count x := by
  -- which reader a call starts from does not matter here, so the induction is on the calls alone
  have hcalls := fun c (hc : c ∈ cs) => h.exists_call hc
  clear h
  induction cs with
  | nil => rfl
  | cons c cs ih =>
    have ih := ih (fun c hc => hok c (List.mem_cons_of_mem _ hc))
      (fun c hc => hcalls c (List.mem_cons_of_mem _ hc))
    obtain ⟨r₁, s₁, r₂, s₂, hcall⟩ := hcalls c (List.mem_cons_self ..)
    obtain ⟨b, hb⟩ := hok c (List.mem_cons_self ..)
    have hhead : (if c.returns x then 1 else 0) =
        ((c.delivered.toList).map (·.key)).count x := by
      cases hd : c.delivered with
      | none => simp [Call.returns, hd]
      | some d =>
        have houtcome := outcome_call hcall hd
        rw [hb] at houtcome
        obtain ⟨_, -, rfl⟩ : ∃ block, d.block = .ok block ∧ b = some block := by
          cases hblock : d.block <;> simp_all [Except.map]
        simp [Call.returns, hb, hd, List.count_singleton]
    rw [List.countP_cons, ih, hhead, delivered_cons, List.map_append, List.count_append,
      Nat.add_comm]

/-- A block is due as often as its first copy says. -/
theorem count_due {layout : BlockIdLayout} {ids tasks : IdSet} {x : Nat}
    (hx : x ∈ expectedOf layout ids tasks) {copies : List StoredCopy} {first : StoredCopy}
    (hfirst : copies.find? (·.key = x) = some first) :
    ((due layout ids tasks copies).map (·.key)).count x =
      if first.taskKey ∈ tasks then 1 else 0 := by
  have hkey : first.key = x := by simpa using List.find?_some hfirst
  subst hkey
  rw [(nodup_due layout ids tasks copies).count]
  congr 1
  simp only [List.mem_map, due, List.mem_filter, mem_firstPer, Bool.and_eq_true,
    IdSet.contains_iff, eq_iff_iff]
  constructor
  · rintro ⟨c, ⟨hc, -, htask⟩, hkey⟩
    rw [hkey, hfirst] at hc
    cases hc
    exact htask
  · exact fun htask => ⟨first, ⟨hfirst, hx, htask⟩, rfl⟩

/-- **What the check vouches for.** Take any source and a run of calls up to the end, none of which
fails. If the check succeeds, every expected block was looked at; it was returned exactly once if
the first copy of it carries a task attempt that counts, and otherwise never. -/
theorem count_returns_of_check {layout : BlockIdLayout} {ids : IdBitmap} {tasks : IdSet}
    (hstart : start? layout ids tasks = some r) (hreads : Reads source r s cs r' s')
    (hok : ∀ c ∈ cs, ∃ b, c.outcome = .ok b) (hcheck : r'.check = .ok ()) :
    ∀ x ∈ r.expected, ∃ first, (lookedAt cs).find? (·.key = x) = some first ∧
      cs.countP (·.returns x) = if first.taskKey ∈ tasks then 1 else 0 := by
  intro x hx
  have hseen : x ∈ r'.processed := by
    refine check_eq_ok_iff.1 hcheck x ?_
    rwa [hreads.spec.2.expected, expected_lookAll]
  rw [processed_of_reads hstart hreads, mem_blocksOf] at hseen
  obtain ⟨c, hc, hkey⟩ := hseen
  obtain ⟨first, hfirst⟩ : ∃ first, (lookedAt cs).find? (·.key = x) = some first := by
    rw [← Option.isSome_iff_exists, List.find?_isSome]
    exact ⟨c, hc, by simpa using hkey⟩
  refine ⟨first, hfirst, ?_⟩
  rw [hreads.countP_returns hok, hreads.spec.1, picks_start hstart]
  exact count_due (expected_start hstart ▸ hx) hfirst

/-- Of two expected blocks one is hidden by a copy of another attempt, and the other is returned. -/
theorem count_returns_of_check_two_blocks :
    let ids : IdBitmap := .ofSet (.ofIds [1, 2097153])
    let hidden : StoredCopy := ⟨[97], ⟨1, 0, 1, 1, 0, 2⟩⟩
    let good : StoredCopy := ⟨[97], ⟨2097153, 1, 0, 0, 0, 1⟩⟩
    let late : StoredCopy := ⟨[98], ⟨1, 0, 0, 0, 0, 1⟩⟩
    let answers : List (Option Chunk) :=
      [some ⟨[97], [hidden.segment, good.segment]⟩, some ⟨[98], [late.segment]⟩]
    ∃ r cs r' log', start? .standard ids (.ofIds [1]) = some r ∧
      Reads (.recorded (answers.map .ok)) r ⟨[], 0⟩ cs r' log' ∧
      (∀ c ∈ cs, ∃ b, c.outcome = .ok b) ∧ r'.check = .ok () ∧
      cs.countP (·.returns 1) = 0 ∧ cs.countP (·.returns 2097153) = 1 := by
  intro ids hidden good late answers
  have h1 : IdSet.key 1 = 1 := by decide
  have h2 : IdSet.key 2 = 2 := by decide
  have h3 : IdSet.key 2097153 = 2097153 := by decide
  have hexpected (x : Nat) : x ∈ expectedOf .standard ids.set (.ofIds [1]) ↔
      x = 1 ∨ x = 2097153 := by
    rw [mem_expectedOf]
    constructor
    · rintro ⟨h, -⟩
      simpa [ids, h1, h3, eq_comm] using h
    · rintro (rfl | rfl) <;> exact ⟨by simp [ids, h1, h3], by simp; decide⟩
  have hne := IdSet.ne_empty_of_mem ((hexpected 1).2 (.inl rfl))
  obtain ⟨r, hstart⟩ := exists_start .standard (show ids.hollow = [] from rfl) (.ofIds [1])
  have hstock : stock answers = [hidden, good, late] := by
    simp [stock, answers, Chunk.copies, hidden, good, late]
  have hdue : due .standard ids.set (.ofIds [1]) (stock answers) = [good] := by
    simp [hstock, due, firstPer, StoredCopy.key, StoredCopy.taskKey, hidden, good, late, h1, h2,
      h3, hexpected]
  obtain ⟨cs, r', log', hreads, hlooked, houtcomes, -, hkept, hprocessed⟩ :=
    reads_of_start (answers_recorded answers) (s := ⟨[], 0⟩) trivial hstart hne
  have hblock : good.block = .ok ⟨[], 0⟩ := by
    have hcrc : Crc32.checksum [] = 0 := by decide +kernel
    simp [StoredCopy.block, good, hcrc]
  have hok : ∀ c ∈ cs, ∃ b, c.outcome = .ok b := by
    intro c hc
    have hmem := List.mem_map_of_mem (f := (·.outcome)) hc
    simp only [houtcomes, hdue, List.map_cons, List.map_nil, hblock] at hmem
    rcases List.mem_cons.1 hmem with h | h
    · exact ⟨_, h⟩
    · exact ⟨_, List.mem_singleton.1 h⟩
  have hcheck : r'.check = .ok () := by
    rw [check_eq_ok_iff, hkept, hprocessed, hstock]
    intro x hx
    rcases (hexpected x).1 hx with rfl | rfl <;>
      simp [StoredCopy.key, hidden, good, late, h1, h3]
  have hcount := count_returns_of_check hstart hreads hok hcheck
  rw [hlooked, hstock, expected_start hstart] at hcount
  obtain ⟨first, hfirst, hreturns⟩ := hcount 1 ((hexpected 1).2 (.inl rfl))
  obtain ⟨first', hfirst', hreturns'⟩ := hcount 2097153 ((hexpected 2097153).2 (.inr rfl))
  obtain rfl : hidden = first := by simpa [StoredCopy.key, hidden, h1] using hfirst
  obtain rfl : good = first' := by simpa [StoredCopy.key, hidden, good, h1, h3] using hfirst'
  refine ⟨r, cs, r', log', hstart, hreads, hok, hcheck, ?_, ?_⟩
  · simpa [StoredCopy.taskKey, hidden, h1, h2] using hreturns
  · simpa [StoredCopy.taskKey, good, h1] using hreturns'

/-- The check does not vouch for every expected block: the one copy of an expected block carries
another attempt, so the block is never returned, and yet the check succeeds. -/
theorem check_passes_over_foreign_copy :
    ∃ r cs r' log', start? .standard (.ofSet (.ofIds [1])) (.ofIds [1]) = some r ∧
      Reads (.recorded [.ok (some ⟨[97], [⟨1, 0, 1, 1, 3904355907, 2⟩]⟩)]) r ⟨[], 0⟩ cs r' log' ∧
      (∀ c ∈ cs, ∃ b, c.outcome = .ok b) ∧ r'.check = .ok () ∧
      1 ∈ r.expected ∧ cs.countP (·.returns 1) = 0 := by
  have hkey : IdSet.key 1 = 1 := by decide
  have htask : IdSet.key (BlockIdLayout.standard.taskOf (IdSet.idOf 1)) = 1 := by decide
  have hforeign : IdSet.key 2 = 2 := by decide
  have hexpected (x : Nat) :
      x ∈ expectedOf .standard (IdBitmap.ofSet (.ofIds [1])).set (.ofIds [1]) ↔ x = 1 := by
    rw [mem_expectedOf]
    constructor
    · rintro ⟨h, -⟩
      simpa [hkey, eq_comm] using h
    · rintro rfl
      simp [hkey, htask]
  have hne := IdSet.ne_empty_of_mem ((hexpected 1).2 rfl)
  obtain ⟨r, hstart⟩ := exists_start .standard
    (show (IdBitmap.ofSet (.ofIds [1])).hollow = [] from rfl) (.ofIds [1])
  let answers : List (Option Chunk) := [some ⟨[97], [⟨1, 0, 1, 1, 3904355907, 2⟩]⟩]
  have hdue :
      due .standard (IdBitmap.ofSet (.ofIds [1])).set (.ofIds [1]) (stock answers) = [] := by
    simp [due, stock, answers, Chunk.copies, firstPer, StoredCopy.taskKey, hkey, hforeign]
  obtain ⟨cs, r', log', hreads, -, houtcomes, -, hkept, hprocessed⟩ :=
    reads_of_start (answers_recorded answers) (s := ⟨[], 0⟩) trivial hstart hne
  have hlast : ∀ c ∈ cs, c.outcome = .ok none := by
    intro c hc
    have hmem := List.mem_map_of_mem (f := (·.outcome)) hc
    rw [houtcomes, hdue] at hmem
    simpa using hmem
  refine ⟨r, cs, r', log', hstart, hreads, fun c hc => ⟨none, hlast c hc⟩, ?_, ?_, ?_⟩
  · rw [check_eq_ok_iff, hkept, hprocessed]
    intro x hx
    rw [(hexpected x).1 hx]
    simp [stock, answers, Chunk.copies, StoredCopy.key, hkey]
  · rw [expected_start hstart]
    exact (hexpected 1).2 rfl
  · rw [List.countP_eq_zero]
    intro c hc
    simp [Call.returns, hlast c hc]

end ShuffleService.BlockReader
