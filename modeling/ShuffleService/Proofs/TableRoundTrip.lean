import ShuffleService.Proofs.StoredTable

/-!
# Tables that are written, read and written again

The entries of a table stand under the high halves that it uses (`map_fst_entries`), and a container
that comes back from its bytes is kept as it was (`mem_runs_ofEntries`). So any table, however it
was built or read, comes back from its bytes with the same content, and if it is written again, the
same bytes come out (`load?_store_same`). The one limit is the number of its bitmaps, for which the
bytes have a word of 32 bits: it is too small only if all high halves are in use.
-/

namespace ShuffleService

namespace IdBitmap

variable {b : IdBitmap}

/-- The high halves in use, ascending: those of the members, and those of the empty bitmaps. -/
def highHalves (b : IdBitmap) : List Nat := sortDistinct (b.set.toList.map highOf ++ b.hollow)

theorem mem_highHalves {high : Nat} :
    high ∈ b.highHalves ↔ (∃ x ∈ b.set, highOf x = high) ∨ high ∈ b.hollow := by
  simp [highHalves]

/-- The members of an entry have its high half. -/
theorem highOf_of_mem_membersOf {e : Nat × List Container} (h : Entry e) {x : Nat}
    (hx : x ∈ membersOf e) : highOf x = e.1 := by
  obtain ⟨c, hc, hv⟩ := List.mem_flatMap.1 hx
  obtain ⟨v, hmem, rfl⟩ := List.mem_map.1 hv
  have hkey := (h.bitmap.wellFormed c hc).key_lt
  have hlt := (h.bitmap.wellFormed c hc).lt v hmem
  unfold highOf
  omega

/-- There is one entry for each high half in use. -/
theorem map_fst_entries (b : IdBitmap) : b.entries.map (·.1) = b.highHalves := by
  refine eq_of_ascending (pairwise_entries b) (pairwise_sortDistinct _) fun high => ?_
  rw [mem_highHalves, List.mem_map]
  constructor
  · rintro ⟨e, he, rfl⟩
    rcases mem_entries.1 he with hfull | ⟨high, hhigh, rfl⟩
    · exact .inl (exists_mem_of_mem_fullEntries hfull)
    · exact .inr hhigh
  · rintro (⟨x, hx, rfl⟩ | hhigh)
    · obtain ⟨e, he, hxe⟩ := List.mem_flatMap.1 (mem_flatMap_membersOf.2 hx)
      exact ⟨e, he, (highOf_of_mem_membersOf (entry_of_mem he) hxe).symm⟩
    · exact ⟨(high, []), mem_entries.2 (.inr ⟨high, hhigh, rfl⟩), rfl⟩

theorem length_entries (b : IdBitmap) : b.entries.length = b.highHalves.length := by
  rw [← map_fst_entries, List.length_map]

/-! ### How containers are kept -/

/-- The containers that are written as runs are those of the shares that are kept as runs. -/
theorem exists_run_iff {key : Nat} :
    (∃ e ∈ b.entries, ∃ c ∈ e.2, c.asRuns = true ∧ e.1 * 2 ^ 16 + c.key = key) ↔
      (∃ share ∈ b.shares, share.1 = key) ∧ key ∈ b.runs := by
  have hflag (share : Nat × List Nat) :
      (b.containerFor share).asRuns = true ↔ share.1 ∈ b.runs := by
    simp [containerFor]
  constructor
  · rintro ⟨e, he, c, hc, hruns, hkey⟩
    rcases mem_entries.1 he with hfull | ⟨high, -, rfl⟩
    · obtain ⟨⟨high, shares⟩, hshares, rfl⟩ := List.mem_map.1 hfull
      obtain ⟨share, hshare, rfl⟩ := List.mem_map.1 hc
      obtain ⟨hmem, hhigh⟩ := ((sharesByHigh_spec b).2.2 _ hshares).2.2 share hshare
      have hsame : share.1 = key := by
        simp only [containerFor] at hkey hhigh
        omega
      exact ⟨⟨share, hmem, hsame⟩, hsame ▸ (hflag share).1 hruns⟩
    · exact absurd hc List.not_mem_nil
  · rintro ⟨⟨share, hmem, rfl⟩, hruns⟩
    rw [← (sharesByHigh_spec b).2.1, List.mem_flatMap] at hmem
    obtain ⟨⟨high, shares⟩, hshares, hshare⟩ := hmem
    obtain ⟨-, hhigh⟩ := ((sharesByHigh_spec b).2.2 _ hshares).2.2 share hshare
    refine ⟨_, mem_entries.2 (.inl (List.mem_map_of_mem hshares)), _, List.mem_map_of_mem hshare,
      (hflag share).2 hruns, ?_⟩
    simp only [containerFor] at hhigh ⊢
    omega

/-- A container that comes back from the entries of a table is kept as runs if it was. -/
theorem mem_runs_ofEntries {share : Nat × List Nat} (h : share ∈ b.shares) :
    share.1 ∈ (ofEntries b.entries).runs ↔ share.1 ∈ b.runs := by
  have hnodup : (b.entries.map (·.1)).Nodup := (pairwise_entries b).imp fun h => Nat.ne_of_lt h
  have hmeets : b.set.meets (share.1 * 2 ^ 16) ((share.1 + 1) * 2 ^ 16) = true := by
    obtain ⟨hne, -, hx⟩ := (shares_spec b).2.2 share h
    obtain ⟨x, hmem⟩ := List.exists_mem_of_ne_nil _ hne
    have hshare := (hx x hmem).2
    refine IdSet.meets_iff.2 ⟨x, ?_, by omega, by omega⟩
    rw [← IdSet.mem_toList, ← (shares_spec b).2.1]
    exact List.mem_flatMap.2 ⟨share, h, hmem⟩
  have hruns : share.1 ∈ (ofEntries b.entries).runs ↔
      (∃ e ∈ b.entries, ∃ c ∈ e.2, c.asRuns = true ∧ e.1 * 2 ^ 16 + c.key = share.1) ∧
        (ofEntries b.entries).set.meets (share.1 * 2 ^ 16) ((share.1 + 1) * 2 ^ 16) = true := by
    unfold ofEntries assemble
    rw [lastOfEach_of_nodup hnodup]
    simp [List.mem_filter, and_assoc]
  rw [hruns, (same_ofEntries b).1, hmeets, exists_run_iff]
  exact ⟨fun hkept => hkept.1.2, fun hkept => ⟨⟨⟨share, h, rfl⟩, hkept⟩, rfl⟩⟩

/-- The table that comes back from the entries of a table has these entries. -/
theorem entries_ofEntries (b : IdBitmap) : (ofEntries b.entries).entries = b.entries := by
  obtain ⟨hset, hhollow⟩ := same_ofEntries b
  have hshares : (ofEntries b.entries).sharesByHigh = b.sharesByHigh := by
    unfold sharesByHigh shares
    rw [hset]
  have hfull : (ofEntries b.entries).fullEntries = b.fullEntries := by
    rw [fullEntries, fullEntries, hshares]
    refine List.map_congr_left fun e he => congrArg (e.1, ·) (List.map_congr_left fun f hf => ?_)
    have hmem := (((sharesByHigh_spec b).2.2 e he).2.2 f hf).1
    have hkept : (Std.HashSet.ofList (ofEntries b.entries).runs).contains f.1 =
        (Std.HashSet.ofList b.runs).contains f.1 := by
      rw [Bool.eq_iff_iff]
      simpa using mem_runs_ofEntries hmem
    rw [containerFor, hkept, containerFor]
  rw [entries_eq (ofEntries b.entries), hfull, hhollow, ← entries_eq]

/-- **Written, read and written again.** Take any table, however it was built or read, whose high
halves can be counted in 32 bits. Its bytes are read as a table with the same content, and that
table is written as the same bytes. -/
theorem load?_store_same (b : IdBitmap) (h : b.highHalves.length < 2 ^ 32) :
    ∃ b', load? b.store = some (.ok b') ∧ b'.same b = true ∧ b'.store = b.store := by
  rw [← length_entries] at h
  obtain ⟨hset, hhollow⟩ := same_ofEntries b
  refine ⟨ofEntries b.entries, ?_, ?_, ?_⟩
  · rw [load?, if_neg (by simp [store]), readTable_store h]
  · simp [same, hset, hhollow]
  · simp only [store, entries_ofEntries]

/-- A table that was read, with a container of runs and an empty bitmap, and then changed: one high
half is added, and another one comes and goes. -/
theorem load?_store_same_changed_table :
    let read := assemble (.ofList [2 ^ 32 + 5, 2 ^ 32 + 6, 2 ^ 32 + 7]) [9] [2 ^ 16]
    let b := ((read.union (ofSet (.ofList [1, 2 ^ 33]))).insertAll (.ofList [2 ^ 48 + 3])).erase
      (2 ^ 33)
    b.highHalves = [0, 1, 9, 65536] ∧
      ∃ b', load? b.store = some (.ok b') ∧ b'.same b = true ∧ b'.store = b.store := by
  intro read b
  have hset : b.set.toList = [1, 2 ^ 32 + 5, 2 ^ 32 + 6, 2 ^ 32 + 7, 2 ^ 48 + 3] := by
    decide +kernel
  have hhollow : b.hollow = [9] := by decide +kernel
  have hhigh : b.highHalves = [0, 1, 9, 65536] := by
    refine eq_of_ascending (pairwise_sortDistinct _) (by decide) fun high => ?_
    rw [mem_highHalves, hhollow]
    simp only [← IdSet.mem_toList, hset]
    simp [highOf, eq_comm]
    omega
  exact ⟨hhigh, load?_store_same b (by rw [hhigh]; decide)⟩

end IdBitmap

end ShuffleService
