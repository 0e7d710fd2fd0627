import ShuffleService.IdBitmap.Stored
import ShuffleService.Proofs.ContainerBytes

/-!
# A table of ids through its bytes

The members of a table are split up by their 48 high bits into containers, and these by their 32
high bits into bitmaps (`groupByKey_spec`). No member is lost (`mem_flatMap_membersOf`), and every
entry is a bitmap that can be read back, under a high half of its own (`Entry`,
`pairwise_entries`). So a table that is stored and loaded has the same members and the same empty
bitmaps (`load?_store`), as long as the number of its bitmaps fits the four bytes that it is
written with.
-/

namespace ShuffleService

/-! ### Splitting up -/

theorem groupByKey_cons {α : Type} (key : α → Nat) (x : α) (xs : List α) :
    groupByKey key (x :: xs) =
      match groupByKey key xs with
      | (k, group) :: rest =>
        if key x = k then (k, x :: group) :: rest else (key x, [x]) :: groupByKey key xs
      | [] => [(key x, [x])] := by
  conv => lhs; rw [groupByKey, List.foldr_cons]
  rfl

/-- Elements whose keys are in order are split up without loss, one group for each key. -/
theorem groupByKey_spec {α : Type} (key : α → Nat) {xs : List α}
    (h : xs.Pairwise fun x y => key x ≤ key y) :
    ((groupByKey key xs).map (·.1)).Pairwise (· < ·) ∧
      (groupByKey key xs).flatMap (·.2) = xs ∧
      ∀ g ∈ groupByKey key xs, g.2 ≠ [] ∧ ∀ x ∈ g.2, key x = g.1 := by
  induction xs with
  | nil => exact ⟨.nil, rfl, by simp [groupByKey]⟩
  | cons x xs ih =>
    rw [List.pairwise_cons] at h
    obtain ⟨hascending, hflat, hgroups⟩ := ih h.2
    rw [groupByKey_cons]
    split
    · rename_i k group rest hrest
      rw [hrest] at hascending hflat hgroups
      obtain ⟨hne, hkeys⟩ := hgroups (k, group) (List.mem_cons_self ..)
      have hle : key x ≤ k := by
        obtain ⟨y, hy⟩ := List.exists_mem_of_ne_nil group hne
        have hxs : y ∈ xs := by
          rw [← hflat]
          exact List.mem_flatMap.2 ⟨_, List.mem_cons_self .., hy⟩
        have hk : key y = k := hkeys y hy
        exact hk ▸ h.1 y hxs
      split
      · -- the element joins the first group
        rename_i hk
        refine ⟨hascending, by rw [← hflat]; rfl, fun g hg => ?_⟩
        rcases List.mem_cons.1 hg with rfl | hg
        · refine ⟨by simp, fun y hy => ?_⟩
          rcases List.mem_cons.1 hy with rfl | hy
          · exact hk
          · exact hkeys y hy
        · exact hgroups g (List.mem_cons_of_mem _ hg)
      · -- the element begins a group of its own
        rename_i hk
        rw [hrest]
        refine ⟨?_, by rw [← hflat]; rfl, fun g hg => ?_⟩
        · rw [List.map_cons, List.pairwise_cons]
          refine ⟨fun k' hk' => ?_, hascending⟩
          rw [List.map_cons, List.pairwise_cons] at hascending
          rcases List.mem_cons.1 hk' with rfl | hk'
          · dsimp only; omega
          · have := hascending.1 k' hk'
            dsimp only at this ⊢
            omega
        · rcases List.mem_cons.1 hg with rfl | hg
          · simp
          · exact hgroups g hg
    · rename_i hnil
      rw [hnil] at hflat
      subst hflat
      simp

namespace IdBitmap

variable {b : IdBitmap}

/-- The members of a table by their 48 high bits. -/
def shares (b : IdBitmap) : List (Nat × List Nat) := groupByKey containerOf b.set.toList

/-- The members of a table by their 32 high bits, and within these by their 48 high bits. -/
def sharesByHigh (b : IdBitmap) : List (Nat × List (Nat × List Nat)) :=
  groupByKey (fun e => e.1 / 2 ^ 16) b.shares

/-- A share of the members as a container. -/
def containerFor (b : IdBitmap) (share : Nat × List Nat) : Container :=
  ⟨share.1 % 2 ^ 16, share.2.map (· % 2 ^ 16), (Std.HashSet.ofList b.runs).contains share.1⟩

/-- The bitmaps that have members. -/
def fullEntries (b : IdBitmap) : List (Nat × List Container) :=
  b.sharesByHigh.map fun e => (e.1, e.2.map b.containerFor)

theorem entries_eq (b : IdBitmap) :
    b.entries = b.fullEntries.merge (b.hollow.map (·, [])) fun x y => x.1 ≤ y.1 := rfl

theorem shares_spec (b : IdBitmap) :
    b.shares.Pairwise (fun e f => e.1 < f.1) ∧ b.shares.flatMap (·.2) = b.set.toList ∧
      ∀ e ∈ b.shares, e.2 ≠ [] ∧ e.2.Pairwise (· < ·) ∧
        ∀ x ∈ e.2, x < 2 ^ 64 ∧ x / 2 ^ 16 = e.1 := by
  have hle : b.set.toList.Pairwise fun x y => containerOf x ≤ containerOf y :=
    b.set.pairwise_toList.imp fun h => Nat.div_le_div_right (Nat.le_of_lt h)
  obtain ⟨hascending, hflat, hgroups⟩ := groupByKey_spec containerOf hle
  refine ⟨List.pairwise_map.1 hascending, hflat, fun e he => ⟨(hgroups e he).1, ?_, fun x hx => ?_⟩⟩
  · have := b.set.pairwise_toList
    rw [← hflat, List.pairwise_flatMap] at this
    exact this.1 e he
  · have hmem : x ∈ b.set.toList := by
      rw [← hflat]
      exact List.mem_flatMap.2 ⟨e, he, hx⟩
    exact ⟨IdSet.lt_of_mem hmem, (hgroups e he).2 x hx⟩

theorem sharesByHigh_spec (b : IdBitmap) :
    b.sharesByHigh.Pairwise (fun e f => e.1 < f.1) ∧ b.sharesByHigh.flatMap (·.2) = b.shares ∧
      ∀ e ∈ b.sharesByHigh, e.2 ≠ [] ∧ e.2.Pairwise (fun f g => f.1 < g.1) ∧
        ∀ f ∈ e.2, f ∈ b.shares ∧ f.1 / 2 ^ 16 = e.1 := by
  have hshares := (shares_spec b).1
  have hle : b.shares.Pairwise fun e f => e.1 / 2 ^ 16 ≤ f.1 / 2 ^ 16 :=
    hshares.imp fun h => Nat.div_le_div_right (Nat.le_of_lt h)
  obtain ⟨hascending, hflat, hgroups⟩ :=
    groupByKey_spec (fun e : Nat × List Nat => e.1 / 2 ^ 16) hle
  refine ⟨List.pairwise_map.1 hascending, hflat, fun e he => ⟨(hgroups e he).1, ?_, fun f hf => ?_⟩⟩
  · rw [← hflat, List.pairwise_flatMap] at hshares
    exact hshares.1 e he
  · refine ⟨?_, (hgroups e he).2 f hf⟩
    rw [← hflat]
    exact List.mem_flatMap.2 ⟨e, he, hf⟩

/-! ### Entries -/

/-- An entry that a table can have. -/
structure Entry (e : Nat × List Container) : Prop where
  high_lt : e.1 < 2 ^ 32
  bitmap : Bitmap e.2

theorem wellFormed_containerFor {share : Nat × List Nat} (h : share ∈ b.shares) :
    (b.containerFor share).WellFormed := by
  obtain ⟨hne, hascending, hkeys⟩ := (shares_spec b).2.2 share h
  refine ⟨Nat.mod_lt _ (by decide), by simpa [containerFor] using hne, ?_, fun v hv => ?_⟩
  · rw [containerFor, List.pairwise_map]
    refine hascending.imp_of_mem fun hx hy hlt => ?_
    have hx := (hkeys _ hx).2
    have hy := (hkeys _ hy).2
    omega
  · obtain ⟨x, -, rfl⟩ := List.mem_map.1 hv
    exact Nat.mod_lt _ (by decide)

theorem entry_of_mem_fullEntries {e : Nat × List Container} (h : e ∈ b.fullEntries) : Entry e := by
  obtain ⟨⟨high, shares⟩, he, rfl⟩ := List.mem_map.1 h
  obtain ⟨hne, hascending, hshares⟩ := (sharesByHigh_spec b).2.2 _ he
  dsimp only at hne hascending hshares
  refine ⟨?_, fun c hc => ?_, ?_⟩
  · obtain ⟨f, hf⟩ := List.exists_mem_of_ne_nil _ hne
    obtain ⟨hmem, hhigh⟩ := hshares f hf
    obtain ⟨hne, -, hx⟩ := (shares_spec b).2.2 f hmem
    obtain ⟨x, hx'⟩ := List.exists_mem_of_ne_nil _ hne
    have := hx x hx'
    dsimp only
    omega
  · obtain ⟨share, hshare, rfl⟩ := List.mem_map.1 hc
    exact wellFormed_containerFor (hshares share hshare).1
  · rw [List.map_map, List.pairwise_map]
    refine hascending.imp_of_mem fun hf hg hlt => ?_
    have hf := (hshares _ hf).2
    have hg := (hshares _ hg).2
    simp only [Function.comp_apply, containerFor]
    omega

theorem mem_entries {e : Nat × List Container} :
    e ∈ b.entries ↔ e ∈ b.fullEntries ∨ ∃ high ∈ b.hollow, e = (high, []) := by
  rw [entries_eq, List.mem_merge, List.mem_map]
  simp only [eq_comm]

theorem entry_of_mem {e : Nat × List Container} (h : e ∈ b.entries) : Entry e := by
  rcases mem_entries.1 h with h | ⟨high, hhigh, rfl⟩
  · exact entry_of_mem_fullEntries h
  · exact ⟨b.hollow_bounded high hhigh, by simp, .nil⟩

/-- A member of a table has the high half of its entry. -/
theorem exists_mem_of_mem_fullEntries {e : Nat × List Container} (h : e ∈ b.fullEntries) :
    ∃ x ∈ b.set, highOf x = e.1 := by
  obtain ⟨⟨high, shares⟩, he, rfl⟩ := List.mem_map.1 h
  obtain ⟨hne, -, hshares⟩ := (sharesByHigh_spec b).2.2 _ he
  obtain ⟨f, hf⟩ := List.exists_mem_of_ne_nil _ hne
  obtain ⟨hmem, hhigh⟩ := hshares f hf
  obtain ⟨hne, -, hx⟩ := (shares_spec b).2.2 f hmem
  obtain ⟨x, hx'⟩ := List.exists_mem_of_ne_nil _ hne
  refine ⟨x, ?_, ?_⟩
  · rw [← IdSet.mem_toList, ← (shares_spec b).2.1]
    exact List.mem_flatMap.2 ⟨f, hmem, hx'⟩
  · have := (hx x hx').2
    unfold highOf
    dsimp only at hhigh ⊢
    omega

/-- No two entries have the same high half, and they are in ascending order. -/
theorem pairwise_entries (b : IdBitmap) : (b.entries.map (·.1)).Pairwise (· < ·) := by
  have hfull : (b.fullEntries.map (·.1)).Pairwise (· < ·) := by
    rw [fullEntries, List.map_map, List.pairwise_map]
    exact (sharesByHigh_spec b).1
  have hhollow : ((b.hollow.map fun h => (h, ([] : List Container))).map (·.1)) = b.hollow := by
    simp [Function.comp_def]
  have hhollow' : ((b.hollow.map fun h => (h, ([] : List Container))).map (·.1)).Pairwise
      (· < ·) := by
    rw [hhollow]
    exact b.hollow_ascending
  -- merging keeps the order
  have hle : (b.entries.map (·.1)).Pairwise (· ≤ ·) := by
    rw [List.pairwise_map, entries_eq]
    have := @List.pairwise_merge _ (fun x y : Nat × List Container => decide (x.1 ≤ y.1))
      (fun x y z hxy hyz => by simp only [decide_eq_true_eq] at *; omega)
      (fun x y => by simp only [Bool.or_eq_true, decide_eq_true_eq]; omega)
      b.fullEntries (b.hollow.map (·, []))
      ((List.pairwise_map.1 hfull).imp fun h => decide_eq_true (Nat.le_of_lt h))
      ((List.pairwise_map.1 hhollow').imp fun h => decide_eq_true (Nat.le_of_lt h))
    exact this.imp fun h => of_decide_eq_true h
  -- no empty bitmap is under the high half of a member
  have hnodup : (b.entries.map (·.1)).Nodup := by
    have hperm : b.entries.Perm (b.fullEntries ++ b.hollow.map (·, [])) :=
      List.merge_perm_append _
    rw [(hperm.map (·.1)).nodup_iff, List.map_append, hhollow, List.nodup_append]
    refine ⟨hfull.imp fun h => Nat.ne_of_lt h, b.hollow_ascending.imp fun h => Nat.ne_of_lt h, ?_⟩
    rintro high hhigh _ hmem rfl
    obtain ⟨e, he, rfl⟩ := List.mem_map.1 hhigh
    obtain ⟨x, hx, hxe⟩ := exists_mem_of_mem_fullEntries he
    exact b.hollow_unused x hx (hxe ▸ hmem)
  exact (hle.and hnodup).imp fun ⟨hle, hne⟩ => Nat.lt_of_le_of_ne hle hne

/-- The containers for a share hold its members. -/
theorem membersOf_fullEntry {high : Nat} {shares : List (Nat × List Nat)}
    (h : (high, shares) ∈ b.sharesByHigh) :
    membersOf (high, shares.map b.containerFor) = shares.flatMap (·.2) := by
  obtain ⟨-, -, hshares⟩ := (sharesByHigh_spec b).2.2 _ h
  dsimp only at hshares
  rw [membersOf, List.flatMap_map, List.flatMap_def, List.flatMap_def]
  refine congrArg List.flatten (List.map_congr_left fun f hf => ?_)
  obtain ⟨hmem, hhigh⟩ := hshares f hf
  obtain ⟨-, -, hx⟩ := (shares_spec b).2.2 f hmem
  rw [containerFor, List.map_map]
  refine (List.map_congr_left fun x hx' => ?_).trans (List.map_id _)
  have := (hx x hx').2
  simp only [Function.comp_apply, id_eq]
  omega

/-- The entries hold the members of the table. -/
theorem mem_flatMap_membersOf {x : Nat} : x ∈ b.entries.flatMap membersOf ↔ x ∈ b.set := by
  have hfull : b.fullEntries.flatMap membersOf = b.set.toList := by
    rw [fullEntries, List.flatMap_map, ← (shares_spec b).2.1, ← (sharesByHigh_spec b).2.1,
      List.flatMap_assoc, List.flatMap_def, List.flatMap_def]
    exact congrArg List.flatten (List.map_congr_left fun e he => membersOf_fullEntry he)
  rw [← IdSet.mem_toList, ← hfull, List.mem_flatMap, List.mem_flatMap]
  constructor
  · rintro ⟨e, he, hx⟩
    rcases mem_entries.1 he with he | ⟨high, -, rfl⟩
    · exact ⟨e, he, hx⟩
    · simp [membersOf] at hx
  · rintro ⟨e, he, hx⟩
    exact ⟨e, mem_entries.2 (.inl he), hx⟩

/-! ### Reading -/

theorem readEntry_append {e : Nat × List Container} (h : Entry e) (rest : Bytes) :
    readEntry (bigEndian 4 e.1 ++ portable e.2 ++ rest) = .ok (e, rest) := by
  have hhigh := h.high_lt
  unfold readEntry
  rw [List.append_assoc, takeBigWord?_append (by omega)]
  dsimp only
  rw [readPortable?_portable h.bitmap]
  dsimp only
  rw [takeBytes?_append rfl]

theorem readEntries_flatMap {es : List (Nat × List Container)} (h : ∀ e ∈ es, Entry e) :
    readEntries es.length (es.flatMap fun (high, cs) => bigEndian 4 high ++ portable cs) =
      .ok es := by
  induction es with
  | nil => rfl
  | cons e es ih =>
    rw [List.length_cons, List.flatMap_cons, readEntries]
    dsimp only
    rw [readEntry_append (h e (List.mem_cons_self ..))]
    dsimp only [bind, Except.bind]
    rw [ih fun f hf => h f (List.mem_cons_of_mem e hf)]
    rfl

/-- The entries of a table are read back. -/
theorem readTable_store (h : b.entries.length < 2 ^ 32) : readTable b.store = .ok b.entries := by
  have hhead : b.store = [0] ++ (bigEndian 4 b.entries.length ++
      b.entries.flatMap fun (high, cs) => bigEndian 4 high ++ portable cs) := rfl
  unfold readTable
  rw [hhead, takeBytes?_append (show ([0] : Bytes).length = 1 from rfl)]
  dsimp only
  rw [takeBigWord?_append (by omega)]
  exact readEntries_flatMap fun e he => entry_of_mem he

/-- Of entries under different high halves each is the last one for its own. -/
theorem lastOfEach_of_nodup {es : List (Nat × List Container)} (h : (es.map (·.1)).Nodup) :
    lastOfEach es = es := by
  induction es with
  | nil => rfl
  | cons e es ih =>
    rw [List.map_cons, List.nodup_cons] at h
    rw [lastOfEach_cons, ih h.2, if_neg]
    intro hany
    obtain ⟨f, hf, hfe⟩ := List.any_eq_true.1 hany
    exact h.1 (List.mem_map.2 ⟨f, hf, of_decide_eq_true hfe⟩)

/-- The entries of a table make up the table. -/
theorem same_ofEntries (b : IdBitmap) :
    (ofEntries b.entries).set = b.set ∧ (ofEntries b.entries).hollow = b.hollow := by
  have hnodup : (b.entries.map (·.1)).Nodup := (pairwise_entries b).imp fun h => Nat.ne_of_lt h
  have hset : (ofEntries b.entries).set = b.set := by
    rw [ofEntries, set_assemble, lastOfEach_of_nodup hnodup]
    refine IdSet.ext fun x => ?_
    rw [IdSet.mem_ofList]
    constructor
    · rintro ⟨y, hy, rfl⟩
      rw [mem_flatMap_membersOf] at hy
      rwa [Nat.mod_eq_of_lt (IdSet.lt_of_mem hy)]
    · intro hx
      exact ⟨x, mem_flatMap_membersOf.2 hx, Nat.mod_eq_of_lt (IdSet.lt_of_mem hx)⟩
  refine ⟨hset, eq_of_ascending (ofEntries b.entries).hollow_ascending b.hollow_ascending
    fun high => ?_⟩
  have hmem : high ∈ (ofEntries b.entries).hollow ↔
      (∃ e ∈ b.entries, e.1 % 2 ^ 32 = high) ∧
        b.set.meets (high * 2 ^ 32) ((high + 1) * 2 ^ 32) = false := by
    rw [← hset]
    unfold ofEntries assemble
    rw [lastOfEach_of_nodup hnodup]
    simp
  rw [hmem]
  constructor
  · rintro ⟨⟨e, he, rfl⟩, hmeets⟩
    rw [Nat.mod_eq_of_lt (entry_of_mem he).high_lt] at hmeets ⊢
    rcases mem_entries.1 he with hfull | ⟨high, hhigh, rfl⟩
    · obtain ⟨x, hx, hxe⟩ := exists_mem_of_mem_fullEntries hfull
      have : b.set.meets (e.1 * 2 ^ 32) ((e.1 + 1) * 2 ^ 32) = true :=
        IdSet.meets_iff.2 ⟨x, hx, by unfold highOf at hxe; omega, by unfold highOf at hxe; omega⟩
      rw [hmeets] at this
      exact absurd this (by decide)
    · exact hhigh
  · intro hhigh
    refine ⟨⟨(high, []), mem_entries.2 (.inr ⟨high, hhigh, rfl⟩),
      Nat.mod_eq_of_lt (b.hollow_bounded high hhigh)⟩, ?_⟩
    rw [Bool.eq_false_iff, Ne, IdSet.meets_iff]
    rintro ⟨x, hx, hlo, hhi⟩
    have hxe : highOf x = high := by unfold highOf; omega
    exact b.hollow_unused x hx (hxe ▸ hhigh)

/-- **A table through its bytes.** A table that is stored and loaded has the same members and the
same empty bitmaps, if the number of its bitmaps fits four bytes. -/
theorem load?_store (h : b.entries.length < 2 ^ 32) :
    ∃ b', load? b.store = some (.ok b') ∧ b'.set = b.set ∧ b'.hollow = b.hollow := by
  refine ⟨ofEntries b.entries, ?_, same_ofEntries b⟩
  rw [load?, if_neg (by simp [store]), readTable_store h]

/-- The number of bitmaps fits four bytes unless every high half is in use. -/
theorem length_entries_lt {high : Nat} (hlt : high < 2 ^ 32) (hset : ∀ x ∈ b.set, highOf x ≠ high)
    (hhollow : high ∉ b.hollow) : b.entries.length < 2 ^ 32 := by
  have hne : ∀ e ∈ b.entries, e.1 ≠ high := by
    intro e he
    rcases mem_entries.1 he with hfull | ⟨high', hhigh', rfl⟩
    · obtain ⟨x, hx, hxe⟩ := exists_mem_of_mem_fullEntries hfull
      exact hxe ▸ hset x hx
    · exact fun h => hhollow (h ▸ hhigh')
  rw [← List.length_map (f := (·.1))]
  refine length_lt_of_ascending (pairwise_entries b) (fun k hk => ?_) hlt (fun hmem => ?_)
  · obtain ⟨e, he, rfl⟩ := List.mem_map.1 hk
    exact (entry_of_mem he).high_lt
  · obtain ⟨e, he, hehigh⟩ := List.mem_map.1 hmem
    exact hne e he hehigh

end IdBitmap

end ShuffleService
