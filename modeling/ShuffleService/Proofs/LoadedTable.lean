import Mathlib.Data.List.Nodup
import ShuffleService.BlockReader
import ShuffleService.Proofs.ReadContainers
import ShuffleService.Proofs.TableRoundTrip

/-!
# What bytes from outside are read as

The bytes of a table come from a server, and need not be what `store` writes. Reading them ends in
one of four ways (`load?_outcomes`):

* they are refused as malformed;
* they have no answer at all, since an entry is looked for beyond their end. That takes a bitmap
  that announces runs and has none (`AnnouncesNoRuns`);
* they are read as a table that is of use to all who walk over it (`Usable`);
* they are read as a table with an empty bitmap, on which every walk gets stuck (`Stuck`). That
  takes a bitmap without containers that is the last one for its high half
  (`mem_hollow_ofEntries`).

The second and the fourth do occur (`damaged_bytes_are_not_refused`).
-/

namespace ShuffleService

namespace IdBitmap

variable {b : IdBitmap} {es : List (Nat × List Container)} {bs bitmap : Bytes} {count high : Nat}

/-! ### The bitmaps in the bytes -/

/-- The bytes from each place on at which a bitmap is read, for the given number of entries. -/
def bitmapsFrom : (count : Nat) → Bytes → List Bytes
  | 0, _ => []
  | n + 1, bs =>
    match takeBigWord? 4 bs with
    | none => []
    | some (_, bitmap) =>
      bitmap :: match readEntry bs with
        | .ok (_, rest) => bitmapsFrom n rest
        | .error _ => []

/-- The bytes from each place on at which a bitmap of a table is read. -/
def bitmapsIn (bs : Bytes) : List Bytes :=
  match takeBytes? 1 bs with
  | none => []
  | some (_, bs) =>
    match takeBigWord? 4 bs with
    | none => []
    | some (count, bs) => bitmapsFrom count bs

/-- The entries that are read from the bytes of a table, if it can be read. -/
def entriesIn (bs : Bytes) : List (Nat × List Container) := (readTable bs).toOption.getD []

theorem bitmapsFrom_succ (h : takeBigWord? 4 bs = some (high, bitmap)) :
    bitmapsFrom (count + 1) bs = bitmap :: match readEntry bs with
      | .ok (_, rest) => bitmapsFrom count rest
      | .error _ => [] := by
  rw [bitmapsFrom, h]

/-- What reading an entry comes to: it is an entry that a table can have, and the next one is looked
for in vain only if its bitmap announces runs that it has not. -/
theorem readEntry_cases (bs : Bytes) :
    readEntry bs = .error .malformed ∨
      ∃ high bitmap, takeBigWord? 4 bs = some (high, bitmap) ∧
        (readEntry bs = .error .overrun ∧ AnnouncesNoRuns bitmap ∨
          ∃ cs rest, readEntry bs = .ok ((high, cs), rest) ∧ Entry (high, cs) ∧
            (cs = [] → HoldsNothing bitmap)) := by
  cases hhigh : takeBigWord? 4 bs with
  | none => exact .inl (by rw [readEntry, hhigh])
  | some split =>
    obtain ⟨high, bitmap⟩ := split
    cases hread : readPortable? bitmap with
    | none => exact .inl (by rw [readEntry, hhigh]; simp only [hread])
    | some result =>
      obtain ⟨cs, rest⟩ := result
      obtain ⟨hbitmap, hempty, hlength⟩ := readPortable?_spec hread
      have hentry : Entry (high, cs) := ⟨(takeBigWord?_spec hhigh).1, hbitmap⟩
      refine .inr ⟨high, bitmap, rfl, ?_⟩
      cases hnext : takeBytes? (portable cs).length bitmap with
      | some next =>
        refine .inr ⟨cs, next.2, ?_, hentry, hempty⟩
        rw [readEntry, hhigh]
        simp only [hread, hnext]
      | none =>
        -- without as many bytes as the bitmap is written with, fewer have been read
        refine .inl ⟨by rw [readEntry, hhigh]; simp only [hread, hnext], ?_⟩
        by_contra hidle
        have hle : (portable cs).length ≤ bitmap.length := by
          rw [hlength hidle]
          exact Nat.le_add_right ..
        simp [takeBytes?, hle] at hnext

/-- All entries that are read are entries that a table can have, and one that holds nothing was read
from a bitmap that does not. -/
theorem readEntries_ok (h : readEntries count bs = .ok es) :
    ∀ e ∈ es, Entry e ∧ (e.2 = [] → ∃ bitmap ∈ bitmapsFrom count bs, HoldsNothing bitmap) := by
  induction count generalizing bs es with
  | zero =>
    cases h
    exact fun e he => absurd he List.not_mem_nil
  | succ n ih =>
    rw [readEntries] at h
    rcases readEntry_cases bs with hentry | ⟨high, bitmap, hhigh, ⟨hentry, -⟩ | ⟨cs, rest, hentry,
      hcan, hempty⟩⟩
    · rw [hentry] at h
      cases h
    · rw [hentry] at h
      cases h
    · rw [hentry] at h
      dsimp only [bind, Except.bind] at h
      rw [bitmapsFrom_succ hhigh, hentry]
      cases hrest : readEntries n rest with
      | error e =>
        rw [hrest] at h
        cases h
      | ok later =>
        rw [hrest] at h
        cases h
        refine List.forall_mem_cons.2 ⟨⟨hcan, fun hnil => ?_⟩, fun e he => ?_⟩
        · exact ⟨bitmap, List.mem_cons_self .., hempty hnil⟩
        · obtain ⟨hcan', hempty'⟩ := ih hrest e he
          refine ⟨hcan', fun hnil => ?_⟩
          obtain ⟨bitmap', hmem, hnothing⟩ := hempty' hnil
          exact ⟨bitmap', List.mem_cons_of_mem _ hmem, hnothing⟩

/-- An entry is looked for beyond the end only after a bitmap that announces runs and has none. -/
theorem readEntries_overrun (h : readEntries count bs = .error .overrun) :
    ∃ bitmap ∈ bitmapsFrom count bs, AnnouncesNoRuns bitmap := by
  induction count generalizing bs with
  | zero => cases h
  | succ n ih =>
    rw [readEntries] at h
    rcases readEntry_cases bs with hentry | ⟨high, bitmap, hhigh, ⟨-, hidle⟩ | ⟨cs, rest, hentry,
      -⟩⟩
    · rw [hentry] at h
      cases h
    · exact ⟨bitmap, by rw [bitmapsFrom_succ hhigh]; exact List.mem_cons_self .., hidle⟩
    · rw [hentry] at h
      dsimp only [bind, Except.bind] at h
      rw [bitmapsFrom_succ hhigh, hentry]
      cases hrest : readEntries n rest with
      | ok later =>
        rw [hrest] at h
        cases h
      | error fault =>
        rw [hrest] at h
        cases h
        obtain ⟨bitmap', hmem, hidle⟩ := ih hrest
        exact ⟨bitmap', List.mem_cons_of_mem _ hmem, hidle⟩

theorem readTable_cases (bs : Bytes) :
    readTable bs = .error .malformed ∨ ∃ count rest,
      readTable bs = readEntries count rest ∧ bitmapsIn bs = bitmapsFrom count rest := by
  unfold readTable bitmapsIn
  cases takeBytes? 1 bs with
  | none => exact .inl rfl
  | some split =>
    dsimp only
    cases takeBigWord? 4 split.2 with
    | none => exact .inl rfl
    | some split' => exact .inr ⟨split'.1, split'.2, rfl, rfl⟩

/-! ### The table of the entries -/

/-- The last entries for each high half are entries, each under a high half of its own. -/
theorem lastOfEach_spec (es : List (Nat × List Container)) :
    (∀ e ∈ lastOfEach es, e ∈ es) ∧ ((lastOfEach es).map (·.1)).Nodup := by
  induction es with
  | nil => simp
  | cons e es ih =>
    rw [lastOfEach_cons]
    split
    · exact ⟨fun f hf => List.mem_cons_of_mem e (ih.1 f hf), ih.2⟩
    · rename_i hnew
      refine ⟨fun f hf => ?_, ?_⟩
      · rcases List.mem_cons.1 hf with rfl | hf
        · exact List.mem_cons_self ..
        · exact List.mem_cons_of_mem e (ih.1 f hf)
      · rw [List.map_cons, List.nodup_cons]
        refine ⟨fun hmem => hnew ?_, ih.2⟩
        obtain ⟨f, hf, hfe⟩ := List.mem_map.1 hmem
        exact List.any_eq_true.2 ⟨f, hf, decide_eq_true hfe⟩

/-- The members of a table are those of the last entries for each high half. -/
theorem mem_set_ofEntries (h : ∀ e ∈ es, Entry e) {x : Nat} :
    x ∈ (ofEntries es).set ↔ ∃ e ∈ lastOfEach es, x ∈ membersOf e := by
  have hlt {e : Nat × List Container} (he : e ∈ lastOfEach es) {y : Nat} (hy : y ∈ membersOf e) :
      y < 2 ^ 64 := by
    have hentry := h e ((lastOfEach_spec es).1 e he)
    have hhigh := highOf_of_mem_membersOf hentry hy
    have := hentry.high_lt
    unfold highOf at hhigh
    omega
  rw [ofEntries, set_assemble, IdSet.mem_ofList]
  constructor
  · rintro ⟨y, hy, rfl⟩
    obtain ⟨e, he, hy⟩ := List.mem_flatMap.1 hy
    rw [Nat.mod_eq_of_lt (hlt he hy)]
    exact ⟨e, he, hy⟩
  · rintro ⟨e, he, hx⟩
    exact ⟨x, List.mem_flatMap.2 ⟨e, he, hx⟩, Nat.mod_eq_of_lt (hlt he hx)⟩

/-- A table has an empty bitmap under a high half if the last entry for it holds nothing. -/
theorem mem_hollow_ofEntries (h : ∀ e ∈ es, Entry e) :
    high ∈ (ofEntries es).hollow ↔ (high, []) ∈ lastOfEach es := by
  obtain ⟨hlast, hnodup⟩ := lastOfEach_spec es
  have hentry {e : Nat × List Container} (he : e ∈ lastOfEach es) : Entry e := h e (hlast e he)
  have hhollow : high ∈ (ofEntries es).hollow ↔
      (∃ e ∈ lastOfEach es, e.1 % 2 ^ 32 = high) ∧
        ¬ ∃ x ∈ (ofEntries es).set, high * 2 ^ 32 ≤ x ∧ x < (high + 1) * 2 ^ 32 := by
    rw [← IdSet.meets_iff, Bool.not_eq_true]
    unfold ofEntries assemble
    simp
  rw [hhollow]
  constructor
  · rintro ⟨⟨⟨key, cs⟩, he, rfl⟩, hnone⟩
    have hkey : key < 2 ^ 32 := (hentry he).high_lt
    rw [Nat.mod_eq_of_lt hkey] at hnone ⊢
    cases cs with
    | nil => exact he
    | cons c cs =>
      -- a container is not empty, and its first number is a member
      obtain ⟨v, hv⟩ := List.exists_mem_of_ne_nil _
        ((hentry he).bitmap.wellFormed c (List.mem_cons_self ..)).ne_nil
      have hx : (key * 2 ^ 16 + c.key) * 2 ^ 16 + v ∈ membersOf (key, c :: cs) :=
        List.mem_flatMap.2 ⟨c, List.mem_cons_self .., List.mem_map_of_mem hv⟩
      have hhigh := highOf_of_mem_membersOf (hentry he) hx
      unfold highOf at hhigh
      exact absurd ⟨_, (mem_set_ofEntries h).2 ⟨_, he, hx⟩, by omega, by omega⟩ hnone
  · intro he
    refine ⟨⟨_, he, Nat.mod_eq_of_lt (hentry he).high_lt⟩, ?_⟩
    rintro ⟨x, hx, hlo, hhi⟩
    obtain ⟨f, hf, hxf⟩ := (mem_set_ofEntries h).1 hx
    have hhigh := highOf_of_mem_membersOf (hentry hf) hxf
    unfold highOf at hhigh
    obtain rfl : f = (high, []) :=
      List.inj_on_of_nodup_map hnodup hf he (show f.1 = high by omega)
    simp [membersOf] at hxf

/-! ### Walks -/

/-- Whoever walks over the table gets to the end: the walk gives the members, keeping those that
pass a test keeps just these, there is a reader that expects them, and a table of the members is the
same table. -/
structure Usable (b : IdBitmap) : Prop where
  walk : b.walk? = some b.set
  retain : ∀ keep, ∃ kept, b.retain? keep = some kept ∧
    ∀ x, x ∈ kept.set ↔ x ∈ b.set ∧ keep x = true
  start : ∀ layout tasks, ∃ r, BlockReader.start? layout b tasks = some r
  same : b.same (ofSet (.ofList b.set.toList)) = true

/-- Nobody who walks over the table gets to the end. -/
structure Stuck (b : IdBitmap) : Prop where
  walk : b.walk? = none
  retain : ∀ keep, b.retain? keep = none
  start : ∀ layout tasks, BlockReader.start? layout b tasks = none

theorem usable_of_hollow (h : b.hollow = []) : Usable b := by
  have hwalk : b.walk? = some b.set := walk?_eq_some_iff.2 ⟨h, rfl⟩
  refine ⟨hwalk, fun keep => ?_, fun layout tasks => ?_, ?_⟩
  · refine ⟨_, by rw [retain?, hwalk, Option.map_some], fun x => ?_⟩
    rw [set_assemble, IdSet.mem_filter]
  · exact ⟨_, by rw [BlockReader.start?, BlockReader.startBy?, hwalk, Option.map_some]⟩
  · have hset : IdSet.ofList b.set.toList = b.set := by
      refine IdSet.ext fun x => IdSet.mem_ofList.trans ⟨?_, fun hx => ?_⟩
      · rintro ⟨y, hy, rfl⟩
        rwa [Nat.mod_eq_of_lt (IdSet.lt_of_mem hy)]
      · exact ⟨x, hx, Nat.mod_eq_of_lt (IdSet.lt_of_mem hx)⟩
    simp [same, hset, h, ofSet]

theorem stuck_of_hollow (h : b.hollow ≠ []) : Stuck b := by
  have hwalk : b.walk? = none := if_neg h
  refine ⟨hwalk, fun keep => ?_, fun layout tasks => ?_⟩
  · rw [retain?, hwalk, Option.map_none]
  · rw [BlockReader.start?, BlockReader.startBy?, hwalk, Option.map_none]

/-! ### Reading -/

/-- **What any bytes are read as.** They are refused; or they have no answer, and then a bitmap in
them announces runs and has none; or they are read as a table. The table is of use to all who walk
over it, unless the last bitmap for some high half holds nothing: then every walk gets stuck. -/
theorem load?_outcomes (bs : Bytes) :
    load? bs = some (.error .malformedBitmap) ∨
    (load? bs = none ∧ ∃ bitmap ∈ bitmapsIn bs, AnnouncesNoRuns bitmap) ∨
    ∃ b, load? bs = some (.ok b) ∧
      ((Usable b ∧ ∀ high, (high, []) ∉ lastOfEach (entriesIn bs)) ∨
        (Stuck b ∧ (∃ high, (high, []) ∈ lastOfEach (entriesIn bs)) ∧
          ∃ bitmap ∈ bitmapsIn bs, HoldsNothing bitmap)) := by
  by_cases hbs : bs = []
  · subst hbs
    exact .inr (.inr ⟨∅, rfl, .inl ⟨usable_of_hollow rfl, fun high => List.not_mem_nil⟩⟩)
  rw [load?, if_neg hbs, entriesIn]
  rcases readTable_cases bs with hread | ⟨count, rest, hread, hbitmaps⟩
  · rw [hread]
    exact .inl rfl
  rw [hread, hbitmaps]
  cases hentries : readEntries count rest with
  | error fault =>
    cases fault with
    | malformed => exact .inl rfl
    | overrun => exact .inr (.inl ⟨rfl, readEntries_overrun hentries⟩)
  | ok es =>
    have hspec := readEntries_ok hentries
    have hhollow (high : Nat) : high ∈ (ofEntries es).hollow ↔ (high, []) ∈ lastOfEach es :=
      mem_hollow_ofEntries fun e he => (hspec e he).1
    refine .inr (.inr ⟨ofEntries es, rfl, ?_⟩)
    by_cases hnil : (ofEntries es).hollow = []
    · refine .inl ⟨usable_of_hollow hnil, fun high hmem => ?_⟩
      have := (hhollow high).2 hmem
      rw [hnil] at this
      exact List.not_mem_nil this
    · obtain ⟨high, hmem⟩ := List.exists_mem_of_ne_nil _ hnil
      have hlast := (hhollow high).1 hmem
      exact .inr ⟨stuck_of_hollow hnil, ⟨high, hlast⟩,
        (hspec _ ((lastOfEach_spec es).1 _ hlast)).2 rfl⟩

/-- The bytes of a table with an empty bitmap are not refused, and every walk over it gets stuck;
the bytes of a bitmap that announces runs and has none are not refused, and have no answer. -/
theorem damaged_bytes_are_not_refused :
    (∃ b, load? [0, 0, 0, 0, 1, 0, 0, 0, 0, 58, 48, 0, 0, 0, 0, 0, 0] = some (.ok b) ∧ Stuck b) ∧
      load? [0, 0, 0, 0, 1, 0, 0, 0, 0, 59, 48, 0, 0, 0, 0, 0, 0, 0, 5, 0] = none := by
  constructor
  · have hread : readTable [0, 0, 0, 0, 1, 0, 0, 0, 0, 58, 48, 0, 0, 0, 0, 0, 0] =
        .ok [(0, [])] := by
      rfl
    refine ⟨ofEntries [(0, [])], by rw [load?, if_neg (by decide), hread], stuck_of_hollow ?_⟩
    refine List.ne_nil_of_mem (a := 0) ((mem_hollow_ofEntries ?_).2 ?_)
    · exact List.forall_mem_singleton.2 ⟨by decide, by simp, .nil⟩
    · simp [lastOfEach_cons]
  · have hread : readTable [0, 0, 0, 0, 1, 0, 0, 0, 0, 59, 48, 0, 0, 0, 0, 0, 0, 0, 5, 0] =
        .error .overrun := by
      rfl
    rw [load?, if_neg (by decide), hread]

end IdBitmap

end ShuffleService
