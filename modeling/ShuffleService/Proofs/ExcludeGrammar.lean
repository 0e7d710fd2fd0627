import Mathlib.Data.Finset.Card
import Mathlib.Data.List.DropRight
import ShuffleService.ExcludeList

/-!
# How an exclude file may be written

An exclude file lists the ids of servers, one a line, and leaves much freedom for it: the ids come
in any order and any number of times, with blanks before and after them and among lines without an
id; a line ends with a line feed, before which there may be a carriage return, and the last one need
not end. `ExcludeList.Lists` is the grammar of such texts. It admits every text, and reads each in
one way only, the way in which the list of excluded servers is read (`lists_iff`).

So a file excludes the ids that it lists and no others, however it is written. No id keeps a blank
at one of its ends, and any finite set of ids without them can be excluded (`parse_eq_iff_lists`).
-/

namespace ShuffleService

variable {cs line before name after : List Char} {ids : List String}

/-! ### Lines -/

theorem splitLines_of_not_mem (h : '\n' ∉ line) : splitLines line = [line] := by
  induction line with
  | nil => rfl
  | cons c line ih =>
    rw [List.mem_cons, not_or] at h
    rw [splitLines, if_neg (Ne.symm h.1), ih h.2]

theorem splitLines_append (h : '\n' ∉ line) (rest : List Char) :
    splitLines (line ++ '\n' :: rest) = line :: splitLines rest := by
  induction line with
  | nil => rfl
  | cons c line ih =>
    rw [List.mem_cons, not_or] at h
    rw [List.cons_append, splitLines, if_neg (Ne.symm h.1), ih h.2]

/-! ### Blanks at the ends -/

/-- Something at each of the ends that is no blank. -/
structure Trimmed (cs : List Char) : Prop where
  ne_nil : cs ≠ []
  first : ∀ c ∈ cs.head?, isBlank c = false
  last : ∀ c ∈ cs.getLast?, isBlank c = false

/-- Dropping stops where something else begins. -/
theorem dropWhile_padded {p : Char → Bool} (hbefore : ∀ c ∈ before, p c = true) (hne : name ≠ [])
    (hfirst : ∀ c ∈ name.head?, p c = false) :
    (before ++ (name ++ after)).dropWhile p = name ++ after := by
  rw [List.dropWhile_append_of_pos hbefore]
  cases name with
  | nil => exact absurd rfl hne
  | cons c name =>
    rw [List.cons_append, List.dropWhile_cons_of_neg (by rw [hfirst c rfl]; decide)]

theorem Trimmed.trim_padded (h : Trimmed name) (hbefore : ∀ c ∈ before, isBlank c = true)
    (hafter : ∀ c ∈ after, isBlank c = true) : trim (before ++ name ++ after) = name := by
  have hfront : (before ++ name ++ after).dropWhile isBlank = name ++ after := by
    rw [List.append_assoc]
    exact dropWhile_padded hbefore h.ne_nil h.first
  have hback : (name ++ after).reverse.dropWhile isBlank = name.reverse := by
    rw [List.reverse_append, ← List.append_nil name.reverse]
    refine dropWhile_padded (fun c hc => hafter c (List.mem_reverse.1 hc)) ?_ ?_
    · exact mt List.reverse_eq_nil_iff.1 h.ne_nil
    · rw [List.head?_reverse]
      exact h.last
  rw [trim, hfront, hback, List.reverse_reverse]

/-- Only blanks are taken away at the ends. -/
theorem exists_trim (cs : List Char) : ∃ before after, cs = before ++ trim cs ++ after ∧
    (∀ c ∈ before, isBlank c = true) ∧ ∀ c ∈ after, isBlank c = true := by
  refine ⟨cs.takeWhile isBlank, (cs.dropWhile isBlank).rtakeWhile isBlank, ?_,
    fun c hc => List.mem_takeWhile_imp hc, fun c hc => List.mem_rtakeWhile_imp hc⟩
  show cs = _ ++ (cs.dropWhile isBlank).rdropWhile isBlank ++ _
  rw [List.append_assoc, List.rdropWhile_append_rtakeWhile, List.takeWhile_append_dropWhile]

theorem trim_eq_nil (h : ∀ c ∈ cs, isBlank c = true) : trim cs = [] := by
  rw [trim, List.dropWhile_eq_nil_iff.2 h]
  rfl

/-- All blanks are taken away at the ends. -/
theorem trimmed_trim (hne : trim cs ≠ []) : Trimmed (trim cs) where
  ne_nil := hne
  first c hc := by
    -- the blanks at the end go last, and leave what the text begins with by then
    obtain ⟨rest, hrest⟩ : trim cs <+: cs.dropWhile isBlank := List.rdropWhile_prefix ..
    have hhead : (cs.dropWhile isBlank).head? = some c := by
      rw [← hrest, List.head?_append_of_ne_nil _ hne]
      exact hc
    have hstop := List.head?_dropWhile_not isBlank cs
    rw [hhead] at hstop
    exact hstop
  last c hc := by
    have hstop := List.rdropWhile_last_not isBlank (cs.dropWhile isBlank) hne
    obtain ⟨-, rfl⟩ := List.mem_getLast?_eq_getLast hc
    exact Bool.eq_false_iff.2 hstop

/-! ### Sets of names -/

namespace NameSet

/-- The members of a set of names. -/
def members (s : NameSet) : Finset String := s.toList.toFinset

@[simp] theorem members_ofList (names : List String) : (ofList names).members = names.toFinset := by
  ext x
  rw [members, List.mem_toFinset, mem_toList, mem_ofList, List.mem_toFinset]

theorem nodup_eraseDups (names : List String) : names.eraseDups.Nodup := by
  induction h : names.length using Nat.strong_induction_on generalizing names with
  | _ n ih =>
    cases names with
    | nil => exact .nil
    | cons x names =>
      subst h
      rw [List.eraseDups_cons, List.nodup_cons]
      refine ⟨by simp, ih _ ?_ _ rfl⟩
      exact Nat.lt_succ_of_le (List.length_filter_le ..)

/-- No member is counted twice. -/
theorem card_members_ofList (names : List String) :
    (ofList names).members.card = (ofList names).size :=
  List.toFinset_card_of_nodup ((List.mergeSort_perm ..).nodup_iff.2 (nodup_eraseDups names))

end NameSet

namespace ExcludeList

/-! ### The grammar -/

/-- What may stand beside an id in its line. -/
def Padding (cs : List Char) : Prop := ∀ c ∈ cs, isBlank c = true ∧ c ≠ '\n'

/-- What can be listed: an id that has something in it, is in one line, and has no blank at its
ends. -/
def Listable (id : String) : Prop := Trimmed id.toList ∧ '\n' ∉ id.toList

/-- A line, without its end, and the id in it, if there is one. -/
inductive ListsLine : List Char → List String → Prop
  | blank {cs : List Char} (h : Padding cs) : ListsLine cs []
  | entry {before after : List Char} {id : String} (hbefore : Padding before) (hid : Listable id)
      (hafter : Padding after) : ListsLine (before ++ id.toList ++ after) [id]

/-- A text and the ids that it lists, in order. What comes after the end of the last line is a line
too, which may be empty. -/
inductive Lists : List Char → List String → Prop
  | last {line : List Char} {ids : List String} (h : ListsLine line ids) : Lists line ids
  | line {line ending rest : List Char} {ids more : List String} (h : ListsLine line ids)
      (hending : ending = ['\n'] ∨ ending = ['\r', '\n']) (hrest : Lists rest more) :
      Lists (line ++ ending ++ rest) (ids ++ more)

/-- A text lists a finite set of ids if these are the ones in its lines, in any order and any number
of times. -/
def ListsSet (text : String) (ids : Finset String) : Prop :=
  ∃ names, Lists text.toList names ∧ names.toFinset = ids

/-! ### Reading -/

theorem padding_nil : Padding [] := fun _ hc => absurd hc List.not_mem_nil

theorem Padding.append (hcs : Padding cs) (hafter : Padding after) : Padding (cs ++ after) :=
  fun c hc => (List.mem_append.1 hc).elim (hcs c) (hafter c)

/-- The id in a line, if it is not blank. -/
def idsIn (line : List Char) : List String :=
  if (trim line).isEmpty then [] else [String.ofList (trim line)]

theorem ListsLine.not_mem (h : ListsLine line ids) : '\n' ∉ line := by
  intro hmem
  cases h with
  | blank h => exact (h '\n' hmem).2 rfl
  | entry hbefore hid hafter =>
    rcases List.mem_append.1 hmem with hmem | hmem
    · rcases List.mem_append.1 hmem with hmem | hmem
      · exact (hbefore '\n' hmem).2 rfl
      · exact hid.2 hmem
    · exact (hafter '\n' hmem).2 rfl

theorem ListsLine.eq_idsIn (h : ListsLine line ids) : ids = idsIn line := by
  unfold idsIn
  cases h with
  | blank h =>
    rw [trim_eq_nil fun c hc => (h c hc).1]
    rfl
  | entry hbefore hid hafter =>
    rw [hid.1.trim_padded (fun c hc => (hbefore c hc).1) fun c hc => (hafter c hc).1,
      if_neg (by simpa using hid.1.ne_nil), String.ofList_toList]

/-- Every line can be read. -/
theorem listsLine_idsIn (hline : '\n' ∉ line) : ListsLine line (idsIn line) := by
  obtain ⟨before, after, hcs, hbefore, hafter⟩ := exists_trim line
  have hpadding {pad : List Char} (hblank : ∀ c ∈ pad, isBlank c = true) (hpad : pad ⊆ line) :
      Padding pad := fun c hc => ⟨hblank c hc, fun h => hline (h ▸ hpad hc)⟩
  unfold idsIn
  by_cases hempty : trim line = []
  · rw [hempty, List.append_nil] at hcs
    rw [hempty]
    refine .blank (hpadding (fun c hc => ?_) (List.Subset.refl line))
    rw [hcs] at hc
    exact (List.mem_append.1 hc).elim (hbefore c) (hafter c)
  · have hid : Listable (String.ofList (trim line)) := by
      rw [Listable, String.toList_ofList]
      refine ⟨trimmed_trim hempty, fun hmem => hline ?_⟩
      rw [hcs]
      exact List.mem_append_left _ (List.mem_append_right _ hmem)
    have hentry : ListsLine (before ++ (String.ofList (trim line)).toList ++ after) _ :=
      .entry (hpadding hbefore fun c hc => by rw [hcs]; simp [hc]) hid
        (hpadding hafter fun c hc => by rw [hcs]; simp [hc])
    rw [String.toList_ofList, ← hcs] at hentry
    rwa [if_neg (by simpa using hempty)]

/-- Blanks more at its end leave a line as it is. -/
theorem ListsLine.append (h : ListsLine line ids) (hafter : Padding after) :
    ListsLine (line ++ after) ids := by
  cases h with
  | blank h => exact .blank (h.append hafter)
  | entry hbefore hid hlast =>
    rw [List.append_assoc]
    exact .entry hbefore hid (hlast.append hafter)

/-- Every text can be read, and in one way. -/
theorem lists_iff : Lists cs ids ↔ ids = (splitLines cs).flatMap idsIn := by
  constructor
  · intro h
    induction h with
    | last h => rw [splitLines_of_not_mem h.not_mem, List.flatMap_singleton, ← h.eq_idsIn]
    | @line line ending rest ids more h hending hrest ih =>
      -- a carriage return before the line feed is one more blank at the end of the line
      obtain ⟨pad, hpad, rfl⟩ : ∃ pad, Padding pad ∧ ending = pad ++ ['\n'] := by
        rcases hending with rfl | rfl
        · exact ⟨[], padding_nil, rfl⟩
        · refine ⟨['\r'], fun c hc => ?_, rfl⟩
          rw [List.mem_singleton.1 hc]
          decide
      have hline := h.append hpad
      rw [ih, ← List.append_assoc, List.append_assoc _ _ rest, List.singleton_append,
        splitLines_append hline.not_mem, List.flatMap_cons, ← hline.eq_idsIn]
  · rintro rfl
    -- the line that has been read so far grows until it ends
    suffices hread : ∀ line, '\n' ∉ line →
        Lists (line ++ cs) ((splitLines (line ++ cs)).flatMap idsIn) from
      hread [] List.not_mem_nil
    induction cs with
    | nil =>
      intro line hline
      rw [List.append_nil, splitLines_of_not_mem hline, List.flatMap_singleton]
      exact .last (listsLine_idsIn hline)
    | cons c cs ih =>
      intro line hline
      by_cases hc : c = '\n'
      · subst hc
        have hlists := Lists.line (listsLine_idsIn hline) (.inl rfl) (ih [] List.not_mem_nil)
        rw [List.nil_append, List.append_assoc, List.singleton_append] at hlists
        rwa [splitLines_append hline, List.flatMap_cons]
      · have hlists := ih (line ++ [c]) (by simp [hline, Ne.symm hc])
        rwa [List.append_assoc, List.singleton_append] at hlists

theorem ListsLine.listable (h : ListsLine line ids) : ∀ id ∈ ids, Listable id := by
  cases h with
  | blank h => exact fun id hid => absurd hid List.not_mem_nil
  | entry hbefore hid hafter => exact fun x hx => List.mem_singleton.1 hx ▸ hid

theorem Lists.listable (h : Lists cs ids) : ∀ id ∈ ids, Listable id := by
  induction h with
  | last h => exact h.listable
  | line h hending hrest ih =>
    exact fun id hid => (List.mem_append.1 hid).elim (h.listable id) (ih id)

/-- Ids can be listed just as they are, each with a line feed after it. -/
theorem exists_lists (h : ∀ id ∈ ids, Listable id) : ∃ cs, Lists cs ids := by
  induction ids with
  | nil => exact ⟨[], .last (.blank padding_nil)⟩
  | cons id ids ih =>
    obtain ⟨hid, hids⟩ := List.forall_mem_cons.1 h
    obtain ⟨cs, hcs⟩ := ih hids
    exact ⟨_, .line (.entry padding_nil hid padding_nil) (.inl rfl) hcs⟩

theorem parse_eq (text : String) :
    parse text = .ofList ((splitLines text.toList).flatMap idsIn) := by
  rw [parse]
  congr 1
  induction splitLines text.toList with
  | nil => rfl
  | cons line rest ih =>
    rw [List.flatMap_cons, ← ih, idsIn, List.map_cons]
    cases h : (trim line).isEmpty <;> simp [h]

/-- **Exclude files.** Take any text and any finite set of ids. The text lists the ids of this set,
one a line, with blanks around them, blank lines and line ends as they may be, just if they are the
servers that it excludes. None of these is counted twice. Each has something in it, is in one line,
and has no blank at its ends; and any finite set of such ids is listed by some text. -/
theorem parse_eq_iff_lists (text : String) (ids : Finset String) :
    (ListsSet text ids ↔ (parse text).members = ids) ∧
    (parse text).members.card = (parse text).size ∧
    (∀ id ∈ parse text, Listable id) ∧
    ((∀ id ∈ ids, Listable id) → ∃ other, ListsSet other ids) := by
  have hlists : Lists text.toList ((splitLines text.toList).flatMap idsIn) := lists_iff.2 rfl
  rw [parse_eq]
  refine ⟨?_, NameSet.card_members_ofList _, fun id hid => ?_, fun hids => ?_⟩
  · rw [NameSet.members_ofList]
    constructor
    · rintro ⟨names, hnames, rfl⟩
      rw [lists_iff.1 hnames]
    · exact fun h => ⟨_, hlists, h⟩
  · exact hlists.listable id (NameSet.mem_ofList.1 hid)
  · obtain ⟨cs, hcs⟩ := exists_lists fun id hid => hids id (Finset.mem_toList.1 hid)
    exact ⟨String.ofList cs, ids.toList, by rwa [String.toList_ofList], ids.toList_toFinset⟩

/-- Two ids, one of them twice and one with a blank inside, with both line ends, an empty line, a
blank one, and a last one that does not end. -/
theorem parse_eq_iff_lists_mixed_text :
    let text := "\u3000a\r\n\r\n b c\u00A0\n\t\na"
    ListsSet text {"a", "b c"} ∧ (parse text).members = {"a", "b c"} ∧ (parse text).size = 2 ∧
      "b c" ∈ parse text ∧ Listable "b c" ∧
      (∀ id ∈ ({"a", "b c"} : Finset String), Listable id) ∧
      ∃ other, ListsSet other {"a", "b c"} := by
  intro text
  have hlists : ListsSet text {"a", "b c"} :=
    ⟨["a", "b c", "a"], lists_iff.2 (by decide), by decide⟩
  obtain ⟨hiff, hcard, hform, hexists⟩ := parse_eq_iff_lists text {"a", "b c"}
  have hmembers : (parse text).members = {"a", "b c"} := hiff.1 hlists
  have hmem {id : String} (hid : id ∈ ({"a", "b c"} : Finset String)) : id ∈ parse text := by
    rwa [← hmembers, NameSet.members, List.mem_toFinset] at hid
  have hall : ∀ id ∈ ({"a", "b c"} : Finset String), Listable id := fun id hid =>
    hform id (hmem hid)
  refine ⟨hlists, hmembers, ?_, hmem (by decide), hform "b c" (hmem (by decide)), hall,
    hexists hall⟩
  rw [← hcard, hmembers]
  decide

end ExcludeList

end ShuffleService
