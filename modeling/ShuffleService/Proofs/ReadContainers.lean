import Mathlib.Data.List.Forall2
import ShuffleService.Proofs.ContainerBytes

/-!
# What reading a bitmap yields

Whatever the bytes are, the containers that are read from them make up a bitmap (`Bitmap`): reading
lets no container through that a table cannot have. And as many bytes are used up as writing the
bitmap would give (`readPortable?_spec`), with one exception: the cookie may announce containers of
runs where there are none (`AnnouncesNoRuns`), and such a bitmap is written with the other cookie,
which takes more room.
-/

namespace ShuffleService

/-! ### Words and parts -/

theorem takeBytes?_spec {width : Nat} {bs head rest : Bytes}
    (h : takeBytes? width bs = some (head, rest)) :
    head.length = width ∧ bs.length = width + rest.length := by
  unfold takeBytes? at h
  dsimp only at h
  split at h
  · rename_i hlength
    cases h
    rw [List.length_take] at hlength
    refine ⟨by rw [List.length_take]; exact hlength, ?_⟩
    rw [List.length_drop]
    omega
  · cases h

theorem takeWord?_spec {width n : Nat} {bs rest : Bytes} (h : takeWord? width bs = some (n, rest)) :
    n < 256 ^ width ∧ bs.length = width + rest.length := by
  obtain ⟨⟨head, tail⟩, htake, heq⟩ := Option.map_eq_some_iff.1 h
  obtain ⟨rfl, rfl⟩ := Prod.mk.inj heq
  obtain ⟨hhead, hlength⟩ := takeBytes?_spec htake
  exact ⟨hhead ▸ ofLittleEndian_lt head, hlength⟩

theorem takeBigWord?_spec {width n : Nat} {bs rest : Bytes}
    (h : takeBigWord? width bs = some (n, rest)) :
    n < 256 ^ width ∧ bs.length = width + rest.length := by
  obtain ⟨⟨head, tail⟩, htake, heq⟩ := Option.map_eq_some_iff.1 h
  obtain ⟨rfl, rfl⟩ := Prod.mk.inj heq
  obtain ⟨hhead, hlength⟩ := takeBytes?_spec htake
  refine ⟨?_, hlength⟩
  rw [ofBigEndian_eq, ← hhead, ← List.length_reverse]
  exact ofLittleEndian_lt _

/-- Parts that are read in a row: as many as asked for, each as reading one part gives it, and each
using up its own bytes. -/
theorem readMany_spec {α : Type} {read : Bytes → Option (α × Bytes)} {P : α → Prop} {width : Nat}
    {count : Nat} {bs rest : Bytes} {as : List α} (h : readMany read count bs = some (as, rest))
    (hread : ∀ {bs a rest}, read bs = some (a, rest) → P a ∧ bs.length = width + rest.length) :
    as.length = count ∧ (∀ a ∈ as, P a) ∧ bs.length = width * count + rest.length := by
  have hgo (n : Nat) : ∀ done bs, readMany.go read done n bs = some (as, rest) →
      ∃ new, as = done.reverse ++ new ∧ new.length = n ∧ (∀ a ∈ new, P a) ∧
        bs.length = width * n + rest.length := by
    induction n with
    | zero =>
      intro done bs h
      rw [readMany.go] at h
      cases h
      exact ⟨[], by simp, rfl, by simp, by simp⟩
    | succ n ih =>
      intro done bs h
      rw [readMany.go] at h
      split at h
      · rename_i a rest' hpart
        obtain ⟨hP, hlength⟩ := hread hpart
        obtain ⟨new, rfl, hcount, hnew, hlength'⟩ := ih _ _ h
        refine ⟨a :: new, by simp, by simp [hcount], List.forall_mem_cons.2 ⟨hP, hnew⟩, ?_⟩
        rw [Nat.mul_succ]
        omega
      · cases h
  obtain ⟨new, rfl, hspec⟩ := hgo count [] bs h
  exact hspec

/-- Parts that are read for the elements of a list, each for its own. -/
theorem readEach_spec {α β : Type} {read : α → Bytes → Option (β × Bytes)} {P : α → β → Prop}
    {width : β → Nat} {as : List α} {bs rest : Bytes} {out : List β}
    (h : readEach read as bs = some (out, rest))
    (hread : ∀ {a bs b rest}, read a bs = some (b, rest) →
      P a b ∧ bs.length = width b + rest.length) :
    List.Forall₂ P as out ∧ bs.length = (out.map width).sum + rest.length := by
  have hgo (as : List α) : ∀ done bs, readEach.go read done as bs = some (out, rest) →
      ∃ new, out = done.reverse ++ new ∧ List.Forall₂ P as new ∧
        bs.length = (new.map width).sum + rest.length := by
    induction as with
    | nil =>
      intro done bs h
      rw [readEach.go] at h
      cases h
      exact ⟨[], by simp, .nil, by simp⟩
    | cons a as ih =>
      intro done bs h
      rw [readEach.go] at h
      split at h
      · rename_i b rest' hpart
        obtain ⟨hP, hlength⟩ := hread hpart
        obtain ⟨new, rfl, hnew, hlength'⟩ := ih _ _ h
        refine ⟨b :: new, by simp, .cons hP hnew, ?_⟩
        rw [List.map_cons, List.sum_cons]
        omega
      · cases h
  obtain ⟨new, rfl, hspec⟩ := hgo as [] bs h
  exact hspec

/-! ### Runs -/

/-- Runs with gaps between them are the runs of their numbers. -/
theorem toRuns_ofRuns {runs : List (Nat × Nat)} (h : validRuns runs = true) :
    toRuns (ofRuns runs) = runs := by
  induction runs with
  | nil => rfl
  | cons run rest ih =>
    obtain ⟨first, more⟩ := run
    have hrest : toRuns (ofRuns rest) = rest := by
      cases rest with
      | nil => rfl
      | cons run rest => exact ih (validRuns_cons_cons.1 h).2
    induction more generalizing first with
    | zero =>
      -- the run is a single number, and the next run does not touch it
      have hone : ofRuns ((first, 0) :: rest) = first :: ofRuns rest := by
        rw [ofRuns_cons]
        simp
      rw [hone, toRuns_cons, hrest]
      cases rest with
      | nil => rfl
      | cons run rest =>
        have hgap := (validRuns_cons_cons.1 h).1
        dsimp only
        rw [if_neg (by omega)]
    | succ more ih' =>
      have hnext : validRuns ((first + 1, more) :: rest) = true := by
        cases rest with
        | nil =>
          simp only [validRuns, decide_eq_true_eq] at h ⊢
          omega
        | cons run rest =>
          rw [validRuns_cons_cons] at h ⊢
          exact ⟨by omega, h.2⟩
      rw [ofRuns_succ, toRuns_cons, ih' _ hnext]
      simp

/-- The numbers of runs within 16 bits are ascending words of 16 bits. -/
theorem ofRuns_spec {first more : Nat} {rest : List (Nat × Nat)}
    (h : validRuns ((first, more) :: rest) = true) :
    (ofRuns ((first, more) :: rest)).Pairwise (· < ·) ∧
      ∀ v ∈ ofRuns ((first, more) :: rest), first ≤ v ∧ v < 65536 := by
  induction rest generalizing first more with
  | nil =>
    simp only [validRuns, decide_eq_true_eq] at h
    rw [ofRuns_cons]
    simp only [ofRuns, List.flatMap_nil, List.append_nil, List.pairwise_map, List.mem_map,
      List.mem_range]
    refine ⟨List.pairwise_lt_range.imp fun hlt => by omega, ?_⟩
    rintro v ⟨i, hi, rfl⟩
    omega
  | cons run rest ih =>
    obtain ⟨next, more'⟩ := run
    rw [validRuns_cons_cons] at h
    obtain ⟨hascending, hbounds⟩ := ih h.2
    have hnext : next < 65536 := by
      have hmem : next ∈ ofRuns ((next, more') :: rest) := by
        rw [ofRuns_cons]
        simp
      exact (hbounds next hmem).2
    rw [ofRuns_cons, List.pairwise_append, List.pairwise_map]
    simp only [List.mem_append, List.mem_map, List.mem_range]
    refine ⟨⟨List.pairwise_lt_range.imp fun hlt => by omega, hascending, ?_⟩, ?_⟩
    · rintro _ ⟨i, hi, rfl⟩ v hv
      have := hbounds v hv
      omega
    · rintro v (⟨i, hi, rfl⟩ | hv)
      · omega
      · have := hbounds v hv
        omega

/-! ### One container -/

namespace Container

theorem length_body_of_asRuns {c : Container} (h : c.asRuns = true) :
    c.body.length = 2 + 4 * (toRuns c.values).length := by
  have hfour : (fun run : Nat × Nat =>
      (littleEndian 2 run.1 ++ littleEndian 2 run.2).length) = fun _ => 4 := by
    funext run
    simp
  rw [body, if_pos h, List.length_append, length_littleEndian, List.length_flatMap, hfour,
    List.map_const', List.sum_replicate_nat, Nat.mul_comm]

theorem length_body_of_le {c : Container} (h : c.asRuns = false)
    (hle : c.values.length ≤ Bucket.maxArray) : c.body.length = 2 * c.values.length := by
  have htwo : (fun v => (littleEndian 2 v).length) = fun _ => 2 := by
    funext v
    exact length_littleEndian 2 v
  rw [body, if_neg (by simp [h]), if_pos hle, List.length_flatMap, htwo, List.map_const',
    List.sum_replicate_nat, Nat.mul_comm]

theorem length_body_of_lt {c : Container} (h : c.asRuns = false)
    (hlt : Bucket.maxArray < c.values.length) : c.body.length = 8192 := by
  rw [body, if_neg (by simp [h]), if_neg (Nat.not_le.2 hlt), length_bitBytes]

theorem readRun?_spec {bs rest : Bytes} {run : Nat × Nat} (h : readRun? bs = some (run, rest)) :
    bs.length = 4 + rest.length := by
  obtain ⟨⟨first, bs₁⟩, hfirst, h⟩ := Option.bind_eq_some_iff.1 h
  obtain ⟨⟨more, bs₂⟩, hmore, h⟩ := Option.bind_eq_some_iff.1 h
  cases h
  have := (takeWord?_spec hfirst).2
  have := (takeWord?_spec hmore).2
  omega

/-- A container that a header may stand for: it has the key, it is kept as the header says, and it
is well-formed if the key fits its word and there is anything in it. -/
structure Fills (h : Header) (c : Container) : Prop where
  key : c.key = h.key
  asRuns : c.asRuns = h.asRuns
  wellFormed : h.key < 65536 → 0 < h.size → c.WellFormed

/-- What is read for a header fills it, and as many bytes are used up as it is written with. -/
theorem readBody?_spec {h : Header} {bs rest : Bytes} {c : Container}
    (hread : readBody? h bs = some (c, rest)) :
    Fills h c ∧ bs.length = c.body.length + rest.length := by
  obtain ⟨key, size, asRuns⟩ := h
  unfold readBody? at hread
  dsimp only at hread
  split at hread
  · -- as runs
    rename_i hruns
    obtain ⟨⟨count, bs₁⟩, hcount, hread⟩ := Option.bind_eq_some_iff.1 hread
    obtain ⟨⟨runs, bs₂⟩, hmany, hread⟩ := Option.bind_eq_some_iff.1 hread
    dsimp only at hread
    split at hread
    · rename_i hvalid
      cases hread
      obtain ⟨hlength, -, hbytes⟩ := readMany_spec (P := fun _ => True) hmany
        fun h => ⟨trivial, readRun?_spec h⟩
      have hword := (takeWord?_spec hcount).2
      refine ⟨⟨rfl, hruns.symm, fun hkey _ => ?_⟩, ?_⟩
      · cases runs with
        | nil => exact absurd rfl hvalid.1
        | cons run runs =>
          obtain ⟨hascending, hbounds⟩ := ofRuns_spec hvalid.2
          refine ⟨hkey, ?_, hascending, fun v hv => (hbounds v hv).2⟩
          show ofRuns ((run.1, run.2) :: runs) ≠ []
          rw [ofRuns_cons]
          simp
      · rw [length_body_of_asRuns rfl, toRuns_ofRuns hvalid.2, hlength]
        dsimp only at hbytes ⊢
        omega
    · cases hread
  · rename_i hruns
    rw [Bool.not_eq_true] at hruns
    subst hruns
    split at hread
    · -- as an array
      rename_i hle
      obtain ⟨⟨values, bs₁⟩, hmany, hread⟩ := Option.bind_eq_some_iff.1 hread
      dsimp only at hread
      split at hread
      · rename_i hascending
        cases hread
        obtain ⟨hlength, hwords, hbytes⟩ := readMany_spec (P := (· < 65536)) hmany takeWord?_spec
        refine ⟨⟨rfl, rfl, fun hkey hsize => ⟨hkey, ?_, isAscending_iff.1 hascending, hwords⟩⟩, ?_⟩
        · rw [← List.length_pos_iff, hlength]
          exact hsize
        · rw [length_body_of_le rfl (hlength ▸ hle), hlength]
          omega
      · cases hread
    · -- as bits
      rename_i hlt
      obtain ⟨⟨bits, bs₁⟩, htake, hread⟩ := Option.bind_eq_some_iff.1 hread
      dsimp only at hread
      split at hread
      · rename_i hlength
        cases hread
        obtain ⟨hbits, hbytes⟩ := takeBytes?_spec htake
        refine ⟨⟨rfl, rfl, fun hkey hsize => ⟨hkey, ?_, pairwise_setBits bits, fun v hv => ?_⟩⟩, ?_⟩
        · rw [← List.length_pos_iff, hlength]
          exact hsize
        · obtain ⟨b, hb, -⟩ := mem_setBits.1 hv
          have := (List.getElem?_eq_some_iff.1 hb).1
          omega
        · rw [length_body_of_lt rfl (by dsimp only; omega), hbytes]
      · cases hread

end Container

/-! ### A whole bitmap -/

/-- Bytes that begin with the cookie of a bitmap with runs and have no flag set: the bitmap
announces runs and has none. -/
def AnnouncesNoRuns (bs : Bytes) : Prop :=
  ∃ count flags rest, readIntro? bs = some ((count, some flags), rest) ∧
    ∀ flag ∈ flags.take count, flag = false

/-- Bytes that begin with the head of a bitmap without containers. -/
def HoldsNothing (bs : Bytes) : Prop := ∃ flags rest, readIntro? bs = some ((0, flags), rest)

@[simp] theorem length_unpackFlags (bs : Bytes) : (unpackFlags bs).length = 8 * bs.length := by
  simp only [unpackFlags, List.length_flatMap, List.length_map, List.length_range,
    List.map_const', List.sum_replicate_nat, Nat.mul_comm]

/-- What the head of a bitmap says, and how many bytes it takes. -/
theorem readIntro?_spec {bs rest : Bytes} {count : Nat} {flags : Option (List Bool)}
    (h : readIntro? bs = some ((count, flags), rest)) :
    (flags = none ∧ bs.length = 8 + rest.length) ∨
      ∃ bits, flags = some bits ∧ count ≤ bits.length ∧
        bs.length = 4 + (count + 7) / 8 + rest.length := by
  obtain ⟨⟨cookie, bs₁⟩, hcookie, h⟩ := Option.bind_eq_some_iff.1 h
  have hword := (takeWord?_spec hcookie).2
  dsimp only at h
  split at h
  · obtain ⟨⟨n, bs₂⟩, hn, h⟩ := Option.bind_eq_some_iff.1 h
    have hword' := (takeWord?_spec hn).2
    dsimp only at h
    split at h
    · cases h
      exact .inl ⟨rfl, by omega⟩
    · cases h
  · split at h
    · obtain ⟨⟨bits, bs₂⟩, hbits, h⟩ := Option.bind_eq_some_iff.1 h
      obtain ⟨hlength, hbytes⟩ := takeBytes?_spec hbits
      cases h
      dsimp only at hbytes hlength ⊢
      refine .inr ⟨_, rfl, ?_, by omega⟩
      rw [length_unpackFlags, hlength]
      omega
    · cases h

theorem readKeySize?_spec {bs rest : Bytes} {e : Nat × Nat} (h : readKeySize? bs = some (e, rest)) :
    (e.1 < 65536 ∧ 0 < e.2) ∧ bs.length = 4 + rest.length := by
  obtain ⟨⟨key, bs₁⟩, hkey, h⟩ := Option.bind_eq_some_iff.1 h
  obtain ⟨⟨size, bs₂⟩, hsize, h⟩ := Option.bind_eq_some_iff.1 h
  cases h
  obtain ⟨hlt, hbytes⟩ := takeWord?_spec hkey
  have := (takeWord?_spec hsize).2
  exact ⟨⟨hlt, Nat.succ_pos _⟩, by omega⟩

/-- The containers that fill headers have what the headers say. -/
theorem of_fills {hs : List Container.Header} {cs : List Container}
    (h : List.Forall₂ Container.Fills hs cs) :
    cs.map (·.key) = hs.map (·.key) ∧ cs.map (·.asRuns) = hs.map (·.asRuns) ∧
      ((∀ h ∈ hs, h.key < 65536 ∧ 0 < h.size) → ∀ c ∈ cs, c.WellFormed) := by
  induction h with
  | nil => simp
  | cons hfills _ ih =>
    obtain ⟨hkeys, hruns, hwellFormed⟩ := ih
    refine ⟨by simp [hfills.key, hkeys], by simp [hfills.asRuns, hruns], fun hheads => ?_⟩
    rw [List.forall_mem_cons] at hheads ⊢
    exact ⟨hfills.wellFormed hheads.1.1 hheads.1.2, hwellFormed hheads.2⟩

/-- The headers that keys and flags make up. -/
theorem heads_spec {keys : List (Nat × Nat)} {flags : List Bool} (h : keys.length ≤ flags.length) :
    let heads : List Container.Header :=
      (keys.zip flags).map fun ((key, size), asRuns) => ⟨key, size, asRuns⟩
    heads.map (·.key) = keys.map (·.1) ∧ heads.map (·.asRuns) = flags.take keys.length ∧
      ∀ head ∈ heads, (head.key, head.size) ∈ keys := by
  induction keys generalizing flags with
  | nil => simp
  | cons key keys ih =>
    cases flags with
    | nil => simp at h
    | cons flag flags =>
      obtain ⟨hkeys, hruns, hmem⟩ := ih (Nat.le_of_succ_le_succ h)
      refine ⟨congrArg (key.1 :: ·) hkeys, congrArg (flag :: ·) hruns, ?_⟩
      exact List.forall_mem_cons.2 ⟨List.mem_cons_self .., fun head hhead =>
        List.mem_cons_of_mem key (hmem head hhead)⟩

theorem length_introBytes (cs : List Container) : (introBytes cs).length =
    if cs.any (·.asRuns) then 4 + (cs.length + 7) / 8 else 8 := by
  unfold introBytes
  split <;> simp

theorem length_portable (cs : List Container) : (portable cs).length =
    (introBytes cs).length + 4 * cs.length + (if hasOffsets cs then 4 * cs.length else 0) +
      (cs.map (·.body.length)).sum := by
  have hfour : (fun c : Container => c.header.length) = fun _ => 4 := by
    funext c
    simp [Container.header]
  rw [portable_eq, List.length_append, List.length_append, List.length_append, length_offsetBytes,
    List.length_flatMap, List.length_flatMap, hfour, List.map_const', List.sum_replicate_nat]
  omega

/-- **What is read is a bitmap.** It holds nothing only if the head says so, and unless it announces
runs that it has not, as many bytes are used up as it is written with. -/
theorem readPortable?_spec {bs rest : Bytes} {cs : List Container}
    (h : readPortable? bs = some (cs, rest)) :
    Bitmap cs ∧ (cs = [] → HoldsNothing bs) ∧
      (¬ AnnouncesNoRuns bs → bs.length = (portable cs).length + rest.length) := by
  obtain ⟨⟨⟨count, flags⟩, bs₁⟩, hintro, h⟩ := Option.bind_eq_some_iff.1 h
  obtain ⟨⟨keys, bs₂⟩, hkeys, h⟩ := Option.bind_eq_some_iff.1 h
  obtain ⟨⟨table, bs₃⟩, htable, h⟩ := Option.bind_eq_some_iff.1 h
  obtain ⟨⟨bodies, bs₄⟩, hbodies, h⟩ := Option.bind_eq_some_iff.1 h
  dsimp only at hkeys htable hbodies h
  split at h
  case isFalse => cases h
  case isTrue hascending =>
    cases h
    obtain ⟨hcount, hheads, hbytes₁⟩ := readMany_spec hkeys readKeySize?_spec
    obtain ⟨-, hbytes₂⟩ := takeBytes?_spec htable
    obtain ⟨hfills, hbytes₃⟩ := readEach_spec hbodies Container.readBody?_spec
    obtain ⟨hkey, hruns, hwellFormed⟩ := of_fills hfills
    -- each key has its flag
    have hle : keys.length ≤ (flags.getD [] ++ List.replicate count false).length := by
      rw [List.length_append, List.length_replicate]
      omega
    obtain ⟨hheadKeys, hheadRuns, hheadMem⟩ := heads_spec hle
    rw [hheadKeys] at hkey
    rw [hheadRuns, hcount] at hruns
    have hlength : cs.length = count := by
      rw [← hcount, ← List.length_map (f := (·.key)), hkey, List.length_map]
    refine ⟨⟨hwellFormed fun head hhead => ?_, ?_⟩, ?_, fun hidle => ?_⟩
    · exact hheads _ (hheadMem head hhead)
    · rw [hkey]
      exact isAscending_iff.1 hascending
    · rintro rfl
      rw [List.length_nil] at hlength
      subst hlength
      exact ⟨_, _, hintro⟩
    · -- the flags decide which cookie and which offsets are written
      have hany : cs.any (·.asRuns) = (cs.map (·.asRuns)).any id := by
        rw [List.any_map]
        rfl
      rw [length_portable, length_introBytes, hasOffsets, hlength]
      rcases readIntro?_spec hintro with ⟨rfl, hbytes⟩ | ⟨bits, rfl, hbits, hbytes⟩
      · have hnone : cs.any (·.asRuns) = false := by
          rw [hany, hruns]
          simp
        simp only [hnone, Option.isNone_none, Bool.true_or, Bool.not_false, if_true, if_false,
          Bool.false_eq_true] at hbytes₂ ⊢
        omega
      · have hsome : cs.any (·.asRuns) = true := by
          rw [hany, hruns, Option.getD_some, List.take_append_of_le_length hbits,
            ← Bool.not_eq_false, List.any_eq_false]
          exact fun hall =>
            hidle ⟨_, _, _, hintro, fun flag hflag => by simpa using hall flag hflag⟩
        simp only [hsome, Option.isNone_some, Bool.false_or, Bool.not_true, if_true] at hbytes₂ ⊢
        omega

end ShuffleService
