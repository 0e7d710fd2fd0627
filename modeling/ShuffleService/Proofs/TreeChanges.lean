import Mathlib.Data.List.Infix
import ShuffleService.FileTree

/-!
# Where paths lead in a tree that changes

A path leads where it did as long as the nodes on its way stay (`FileTree.follow_mono`). That serves
both ways: a tree to which files and directories are added keeps all of its nodes
(`FileTree.Grows`), and what is found in a tree from which names are taken away was found in it
before.

A way without links only needs its directories (`FileTree.follow_zero_of_directories`), which are
never taken away.
-/

namespace ShuffleService

/-- The name of a file is no step to where one is, nor one up. -/
theorem FilePath.isStay_fileName? {path : FilePath} {name : String}
    (h : path.fileName? = some name) : isStay name = false ∧ name ≠ ".." := by
  obtain ⟨hlast, hup⟩ := Option.filter_eq_some_iff.1 h
  refine ⟨?_, by simpa using hup⟩
  unfold trimEnd at hlast
  rw [List.getLast?_reverse] at hlast
  have hdrop := List.head?_dropWhile_not isStay path.reverse
  rw [hlast] at hdrop
  simpa using hdrop

/-- The text of a path with a slash at its end is no longer than that with a name after it. -/
theorem FilePath.not_isTooLong_of_concat {path : FilePath} {name : String}
    (h : isTooLong (path ++ [name]) = false) : isTooLong (path ++ [""]) = false := by
  have hsize : (text (path ++ [""])).utf8ByteSize ≤ (text (path ++ [name])).utf8ByteSize := by
    unfold text
    by_cases hpath : path = []
    · simp [hpath]
    · rw [String.intercalate_append_of_ne_nil hpath (List.cons_ne_nil _ _),
        String.intercalate_append_of_ne_nil hpath (List.cons_ne_nil _ _)]
      simp only [String.intercalate_singleton, String.utf8ByteSize_append]
      exact Nat.add_le_add_left (Nat.zero_le _) _
  simp only [isTooLong, decide_eq_false_iff_not, Nat.not_lt] at h ⊢
  exact Nat.le_trans hsize h

namespace FileTree

variable {t t' u : FileTree} {path : FilePath} {start names place dir : List String} {n : Node}
  {last : Bool} {onLink onLink' : List String → FilePath → Except Obstacle (List String)}
  {links k id j : Nat} {bytes : Bytes} {name : String}

/-! ### Nodes that stay -/

/-- All nodes of a tree are there in another one. -/
def Grows (t t' : FileTree) : Prop := ∀ names n, t.node? names = some n → t'.node? names = some n

theorem Grows.refl (t : FileTree) : t.Grows t := fun _ _ h => h

theorem Grows.trans (h : t.Grows t') (h' : t'.Grows u) : t.Grows u :=
  fun names n hn => h' names n (h names n hn)

/-- Something is put where nothing was. -/
theorem grows_of_free (hfree : t.node? place = none)
    (h : ∀ names, names ≠ place → t'.node? names = t.node? names) : t.Grows t' := by
  intro names m hm
  have hne : names ≠ place := by
    rintro rfl
    cases hfree.symm.trans hm
  rw [h names hne, hm]

/-- Only the root has no names, and it is a directory. -/
theorem ne_nil_of_node? {m : Option Node} (h : t.node? place = m) (hdir : m ≠ some .directory) :
    place ≠ [] := by
  rintro rfl
  exact hdir h.symm

/-! ### Ways -/

/-- A part that is the name of something in a directory. -/
structure IsEntryName (part : String) : Prop where
  not_stay : FilePath.isStay part = false
  not_up : part ≠ ".."
  is_name : FilePath.isName part = true

/-- What becomes of a way with the next part of a path: it stays in the directory, goes up, goes over
a link, ends in one, or goes into what has the name. -/
inductive Step (t : FileTree) (last : Bool)
    (onLink : List String → FilePath → Except Obstacle (List String)) (start : List String)
    (part : String) (path : FilePath) (names : List String) : Prop
  | stay (hstay : FilePath.isStay part = true) (h : t.walk last onLink start path = .ok names)
  | up (hup : part = "..") (h : t.walk last onLink start.dropLast path = .ok names)
  | link (hname : IsEntryName part) {target : FilePath}
    (hlink : t.node? (start ++ [part]) = some (.link target)) (hon : (last || !path.isEmpty) = true)
    (h : onLink (if target.head? = some "" then [] else start) (target ++ path) = .ok names)
  | stop (hname : IsEntryName part) {target : FilePath}
    (hlink : t.node? (start ++ [part]) = some (.link target))
    (hoff : (last || !path.isEmpty) = false) (h : start ++ [part] = names)
  | into (hname : IsEntryName part)
    (hnot : ∀ target, t.node? (start ++ [part]) ≠ some (.link target))
    (h : t.walk last onLink (start ++ [part]) path = .ok names)

theorem walk_cons_eq_ok_iff {part : String} :
    t.walk last onLink start (part :: path) = .ok names ↔
      t.node? start = some .directory ∧ Step t last onLink start part path names := by
  constructor
  · intro h
    unfold walk at h
    split at h
    · cases h
    · refine ⟨‹_›, ?_⟩
      split at h
      · exact .stay ‹_› h
      split at h
      · exact .up ‹_› h
      split at h
      · have hname : IsEntryName part := ⟨by simpa using ‹¬ FilePath.isStay part = true›, ‹_›, ‹_›⟩
        split at h
        · split at h
          · exact .link hname ‹_› ‹_› h
          · exact .stop hname ‹_› (by simpa using ‹¬ (last || !path.isEmpty) = true›)
              (Except.ok.inj h)
        · exact .into hname (by simpa using ‹_›) h
      · cases h
    · cases h
  · rintro ⟨hstart, hstep⟩
    unfold walk
    rw [hstart]
    dsimp only
    cases hstep with
    | stay hstay h => rw [if_pos hstay, h]
    | up hup h =>
      subst hup
      rw [if_neg (by decide), if_pos rfl, h]
    | link hname hlink hon h =>
      rw [if_neg (by simp [hname.not_stay]), if_neg hname.not_up, if_pos hname.is_name, hlink]
      dsimp only
      rw [if_pos hon, h]
    | stop hname hlink hoff h =>
      rw [if_neg (by simp [hname.not_stay]), if_neg hname.not_up, if_pos hname.is_name, hlink]
      dsimp only
      rw [if_neg (by simp [hoff]), h]
    | into hname hnot h =>
      rw [if_neg (by simp [hname.not_stay]), if_neg hname.not_up, if_pos hname.is_name]
      split
      · exact absurd ‹_› (hnot _)
      · exact h

/-- No way goes on where nothing is. -/
theorem eq_of_walk_of_none (hnone : t.node? start = none)
    (h : t.walk last onLink start path = .ok names) : start = names := by
  cases path with
  | nil => exact Except.ok.inj h
  | cons part path => cases hnone.symm.trans (walk_cons_eq_ok_iff.1 h).1

/-- A path leads where it did as long as the nodes stay, unless a link has been put at its end. -/
theorem walk_mono (hgrows : t.Grows t')
    (hlink : ∀ start path, onLink start path = .ok names → onLink' start path = .ok names)
    (hend : ∀ target, t'.node? names = some (.link target) → t.node? names = some (.link target))
    (h : t.walk last onLink start path = .ok names) :
    t'.walk last onLink' start path = .ok names := by
  induction path generalizing start with
  | nil => exact h
  | cons part path ih =>
    obtain ⟨hstart, hstep⟩ := walk_cons_eq_ok_iff.1 h
    refine walk_cons_eq_ok_iff.2 ⟨hgrows _ _ hstart, ?_⟩
    cases hstep with
    | stay hstay h => exact .stay hstay (ih h)
    | up hup h => exact .up hup (ih h)
    | link hname hover hon h => exact .link hname (hgrows _ _ hover) hon (hlink _ _ h)
    | stop hname hover hoff h => exact .stop hname (hgrows _ _ hover) hoff h
    | into hname hnot h =>
      refine .into hname (fun target htarget => ?_) (ih h)
      cases hpart : t.node? (start ++ [part]) with
      | none =>
        -- the path ends here, with nothing before and a link afterwards
        cases eq_of_walk_of_none hpart h
        cases hpart.symm.trans (hend target htarget)
      | some m =>
        cases (hgrows _ _ hpart).symm.trans htarget
        exact hnot target hpart

theorem follow_mono (hgrows : t.Grows t')
    (hend : ∀ target, t'.node? names = some (.link target) → t.node? names = some (.link target))
    (h : t.follow last links start path = .ok names) :
    t'.follow last links start path = .ok names := by
  induction links generalizing start path with
  | zero => exact walk_mono hgrows (fun _ _ h => h) hend h
  | succ links ih => exact walk_mono hgrows (fun _ _ => ih) hend h

theorem locateOver_eq_ok_iff : t.locateOver last links path = .ok names ↔
    path.isTooLong = false ∧ t.follow last links [] path = .ok names := by
  unfold locateOver
  cases path.isTooLong <;> simp

theorem locateOver_mono (hgrows : t.Grows t')
    (hend : ∀ target, t'.node? names = some (.link target) → t.node? names = some (.link target))
    (h : t.locateOver last links path = .ok names) : t'.locateOver last links path = .ok names := by
  obtain ⟨hshort, h⟩ := locateOver_eq_ok_iff.1 h
  exact locateOver_eq_ok_iff.2 ⟨hshort, follow_mono hgrows hend h⟩

/-- A path that leads to a node leads to it as long as the nodes stay. -/
theorem locateOver_of_node? (hgrows : t.Grows t') (h : t.locateOver last links path = .ok names)
    (hn : t.node? names = some n) : t'.locateOver last links path = .ok names :=
  locateOver_mono hgrows (fun target htarget => by rw [hn, ← hgrows _ _ hn, htarget]) h

theorem nodeAt?_eq_some_iff :
    t.nodeAt? path = some n ↔ ∃ names, t.locate path = .ok names ∧ t.node? names = some n := by
  unfold nodeAt?
  cases t.locate path <;> simp [Except.toOption]

theorem Grows.nodeAt? (hgrows : t.Grows t') (h : t.nodeAt? path = some n) :
    t'.nodeAt? path = some n := by
  obtain ⟨names, hnames, hn⟩ := nodeAt?_eq_some_iff.1 h
  exact nodeAt?_eq_some_iff.2 ⟨names, locateOver_of_node? hgrows hnames hn, hgrows _ _ hn⟩

/-- A path shows a file if it leads to a node that does. -/
theorem entryAt_eq_file_iff :
    t.entryAt path = .file bytes ↔ ∃ n, t.nodeAt? path = some n ∧ t.view n = .file bytes := by
  unfold entryAt
  cases t.nodeAt? path <;> simp

/-! ### Ways without links -/

theorem follow_of_le (hle : links ≤ k) (h : t.follow last links start path = .ok names) :
    t.follow last k start path = .ok names := by
  induction links generalizing k start path with
  | zero =>
    cases k with
    | zero => exact h
    | succ k =>
      refine walk_mono (.refl t) ?_ (fun _ h => h) h
      exact fun _ _ h => nomatch h
  | succ links ih =>
    obtain ⟨k, rfl⟩ := Nat.exists_eq_succ_of_ne_zero (Nat.ne_zero_of_lt hle)
    exact walk_mono (.refl t) (fun _ _ => ih (Nat.le_of_succ_le_succ hle)) (fun _ h => h) h

/-- A way without links that ends in a name leads over the directory of the name. -/
theorem follow_zero_concat (hname : FilePath.isStay name = false ∧ name ≠ "..")
    (h : t.follow true 0 start (path ++ [name]) = .ok place) :
    ∃ dir, t.follow true 0 start (path ++ [""]) = .ok dir ∧ place = dir ++ [name] := by
  induction path generalizing start with
  | nil =>
    obtain ⟨hstart, hstep⟩ := walk_cons_eq_ok_iff.1 h
    cases hstep with
    | stay hstay => cases hname.1.symm.trans hstay
    | up hup => exact absurd hup hname.2
    | link _ _ _ h => cases h
    | stop _ _ hoff => cases hoff
    | into _ _ h =>
      exact ⟨start, walk_cons_eq_ok_iff.2 ⟨hstart, .stay rfl rfl⟩, (Except.ok.inj h).symm⟩
  | cons part path ih =>
    obtain ⟨hstart, hstep⟩ := walk_cons_eq_ok_iff.1 h
    cases hstep with
    | link _ _ _ h => cases h
    | stop _ _ hoff => cases hoff
    | stay hstay h =>
      obtain ⟨dir, hdir, hplace⟩ := ih h
      exact ⟨dir, walk_cons_eq_ok_iff.2 ⟨hstart, .stay hstay hdir⟩, hplace⟩
    | up hup h =>
      obtain ⟨dir, hdir, hplace⟩ := ih h
      exact ⟨dir, walk_cons_eq_ok_iff.2 ⟨hstart, .up hup hdir⟩, hplace⟩
    | into hpart hnot h =>
      obtain ⟨dir, hdir, hplace⟩ := ih h
      exact ⟨dir, walk_cons_eq_ok_iff.2 ⟨hstart, .into hpart hnot hdir⟩, hplace⟩

/-- A way without links only needs its directories and what stands at its end. -/
theorem follow_zero_of_directories
    (hdirs : ∀ names, t.node? names = some .directory → t'.node? names = some .directory)
    (hend : t'.node? names = t.node? names) (h : t.follow true 0 start path = .ok names) :
    t'.follow true 0 start path = .ok names := by
  induction path generalizing start with
  | nil => exact h
  | cons part path ih =>
    obtain ⟨hstart, hstep⟩ := walk_cons_eq_ok_iff.1 h
    refine walk_cons_eq_ok_iff.2 ⟨hdirs _ hstart, ?_⟩
    cases hstep with
    | stay hstay h => exact .stay hstay (ih h)
    | up hup h => exact .up hup (ih h)
    | link _ _ _ h => cases h
    | stop _ _ hoff => cases hoff
    | into hname hnot h =>
      refine .into hname (fun target htarget => ?_) (ih h)
      cases path with
      | nil =>
        cases h
        exact hnot target (hend ▸ htarget)
      | cons next path =>
        cases (hdirs _ (walk_cons_eq_ok_iff.1 h).1).symm.trans htarget

/-! ### Making directories -/

/-- Nothing is added to a tree but directories. -/
structure Extends (t t' : FileTree) : Prop where
  grows : t.Grows t'
  content : ∀ id, t'.content id = t.content id

theorem Extends.refl (t : FileTree) : t.Extends t := ⟨.refl t, fun _ => rfl⟩

theorem Extends.trans (h : t.Extends t') (h' : t'.Extends u) : t.Extends u :=
  ⟨h.grows.trans h'.grows, fun id => (h'.content id).trans (h.content id)⟩

theorem extends_makeDirectory (h : t.makeDirectory path = .ok t') : t.Extends t' := by
  unfold makeDirectory at h
  dsimp only at h
  split at h
  · cases h
  · rename_i last _
    cases hnames : t.directory ((path.reverse.dropWhile (· = "")).reverse).dropLast with
    | error e =>
      rw [hnames] at h
      cases h
    | ok names =>
      rw [hnames] at h
      simp only [bind, Except.bind] at h
      split at h
      · cases h
      · rename_i hfree
        cases h
        simp only [not_or, not_not] at hfree
        refine ⟨grows_of_free hfree.2.2.2.2 fun place hne => ?_, fun _ => rfl⟩
        rw [node?_setNode (by simp), if_neg hne]

theorem extends_makeDirectories (t : FileTree) (path : FilePath) :
    t.Extends (t.makeDirectories path).2 := by
  fun_induction makeDirectories t path with
  | case1 path t' hmade => exact extends_makeDirectory hmade
  | case2 path => exact .refl t
  | case3 path _ _ => exact .refl t
  | case4 path _ parent _ t' habove ih => rwa [habove] at ih
  | case5 path _ parent _ t' habove u hmade ih =>
    rw [habove] at ih
    exact ih.trans (extends_makeDirectory hmade)
  | case6 path _ parent _ t' habove _ _ ih => rwa [habove] at ih

/-! ### Writing -/

/-- One node has the given bytes, and all files besides it have what they had. -/
def Writes (t t' : FileTree) (n : Node) (bytes : Bytes) : Prop :=
  ∀ id, t'.content id = if n = .file id then bytes else t.content id

/-- What other nodes show does not change. -/
theorem Writes.view_ne {m : Node} (h : t.Writes t' n bytes) (hne : n ≠ m) : t'.view m = t.view m := by
  cases m with
  | file id => rw [view, view, h id, if_neg hne]
  | directory | link _ | device => rfl

theorem Writes.trans {more : Bytes} (h : t.Writes t' n bytes) (h' : t'.Writes u n more) :
    t.Writes u n more := by
  intro id
  rw [h' id, h id]
  split <;> rfl

theorem writes_write (h : t.node? place = some (.file id)) (bytes : Bytes) :
    t.Writes (t.write id bytes) (.file id) bytes := by
  intro j
  rw [content_write (below_of_node? h)]
  simp only [Node.file.injEq, eq_comm]

/-- What is opened is emptied, or made where nothing was, and the path leads to it then. -/
theorem openEmpty?_spec (h : t.openEmpty? path = some (n, t')) :
    t.Grows t' ∧ t'.nodeAt? path = some n ∧ t.Writes t' n [] := by
  unfold openEmpty? at h
  cases hplace : t.locate path with
  | error e =>
    rw [hplace] at h
    cases h
  | ok place =>
    rw [hplace] at h
    dsimp only at h
    cases hnode : t.node? place with
    | none =>
      rw [hnode] at h
      cases h
      have hne : place ≠ [] := ne_nil_of_node? hnode nofun
      have hself : (t.createFile place).node? place = some (.file t.contents.length) := by
        rw [node?_createFile hne, if_pos rfl]
      have hgrows : t.Grows (t.createFile place) :=
        grows_of_free hnode fun names hnames => by rw [node?_createFile hne, if_neg hnames]
      refine ⟨hgrows, nodeAt?_eq_some_iff.2 ⟨place, locateOver_mono hgrows ?_ hplace, hself⟩, ?_⟩
      · intro target htarget
        cases hself.symm.trans htarget
      · intro id
        rw [content_createFile]
        split
        · rename_i hid
          cases hid
          simp [content]
        · rfl
    | some m =>
      rw [hnode] at h
      cases m with
      | directory | link _ => cases h
      | device =>
        cases h
        exact ⟨.refl t, nodeAt?_eq_some_iff.2 ⟨place, hplace, hnode⟩, fun _ => rfl⟩
      | file id =>
        cases h
        have hgrows : t.Grows (t.write id []) := .refl t
        exact ⟨hgrows, hgrows.nodeAt? (nodeAt?_eq_some_iff.2 ⟨place, hplace, hnode⟩),
          writes_write hnode []⟩

/-- Only a file or a device can be opened. -/
theorem view_of_openEmpty? (h : t.openEmpty? path = some (n, t')) : t'.view n = .file [] := by
  obtain ⟨-, -, hwrites⟩ := openEmpty?_spec h
  cases n with
  | file id =>
    rw [view, hwrites id, if_pos rfl]
  | device => rfl
  | directory | link _ =>
    unfold openEmpty? at h
    split at h
    · cases h
    · split at h <;> cases h

theorem store_spec (hn : t.nodeAt? path = some n) (bytes : Bytes) :
    t.Grows (t.store n bytes) ∧ t.Writes (t.store n bytes) n bytes := by
  obtain ⟨place, -, hnode⟩ := nodeAt?_eq_some_iff.1 hn
  cases n with
  | file id => exact ⟨.refl t, writes_write hnode bytes⟩
  | directory | link _ | device => exact ⟨.refl t, fun _ => rfl⟩

/-! ### Removing names -/

theorem removeFile?_eq_some_iff : t.removeFile? path = some t' ↔
    ∃ names n, t.locateName path = .ok names ∧ t.node? names = some n ∧ n ≠ .directory ∧
      t' = t.erase names := by
  unfold removeFile?
  cases t.locateName path with
  | error e => simp
  | ok names =>
    cases hn : t.node? names with
    | none => simp [hn]
    | some n => cases n <;> simp [hn, eq_comm]

/-- Names are taken away, but no directories, and files keep what they hold. -/
structure Sheds (t t' : FileTree) : Prop where
  old : t'.Grows t
  directories : ∀ names, t.node? names = some .directory → t'.node? names = some .directory
  content : ∀ id, t'.content id = t.content id

theorem Sheds.refl (t : FileTree) : t.Sheds t := ⟨.refl t, fun _ h => h, fun _ => rfl⟩

theorem Sheds.trans (h : t.Sheds t') (h' : t'.Sheds u) : t.Sheds u where
  old := h'.old.trans h.old
  directories names hdir := h'.directories names (h.directories names hdir)
  content id := (h'.content id).trans (h.content id)

theorem view_congr (h : ∀ id, t'.content id = t.content id) (n : Node) : t'.view n = t.view n := by
  cases n with
  | file id => rw [view, view, h id]
  | directory | link _ | device => rfl

theorem sheds_removeFile? (h : t.removeFile? path = some t') : t.Sheds t' := by
  obtain ⟨names, n, -, hn, hdir, rfl⟩ := removeFile?_eq_some_iff.1 h
  have hne : names ≠ [] := ne_nil_of_node? hn (by simpa using hdir)
  refine ⟨fun place m hm => ?_, fun place hplace => ?_, fun _ => rfl⟩
  · rw [node?_erase hne] at hm
    split at hm
    · cases hm
    · exact hm
  · have hplace' : place ≠ names := fun heq => by
      rw [heq, hn, Option.some_inj] at hplace
      exact hdir hplace
    rw [node?_erase hne, if_neg hplace', hplace]

/-- What a path shows was there before. -/
theorem Sheds.entryAt (h : t.Sheds t') (hfile : t'.entryAt path = .file bytes) :
    t.entryAt path = .file bytes := by
  obtain ⟨n, hn, hview⟩ := entryAt_eq_file_iff.1 hfile
  exact entryAt_eq_file_iff.2 ⟨n, h.old.nodeAt? hn, (view_congr h.content n).symm.trans hview⟩

/-- A path does not end in a name in a directory, or below it. -/
def Outside (t : FileTree) (directory path : FilePath) : Prop :=
  ∀ dir names, t.directory directory = .ok dir → t.locateName path = .ok names → ¬ dir <+: names

instance (t : FileTree) (directory path : FilePath) : Decidable (t.Outside directory path) :=
  match hdir : t.directory directory, hnames : t.locateName path with
  | .ok dir, .ok names =>
    decidable_of_iff (¬ dir <+: names) (by simp [Outside, hdir, hnames])
  | .error _, _ => .isTrue (by simp [Outside, hdir])
  | _, .error _ => .isTrue (by simp [Outside, hnames])

/-- A path leads somewhere without going over a link. -/
def LeadsStraight (t : FileTree) (path : FilePath) : Prop :=
  ∃ names, t.locateOver true 0 path = .ok names

theorem locate_of_straight (h : t.locateOver true 0 path = .ok names) : t.locate path = .ok names := by
  obtain ⟨hshort, h⟩ := locateOver_eq_ok_iff.1 h
  exact locateOver_eq_ok_iff.2 ⟨hshort, follow_of_le (Nat.zero_le maxLinks) h⟩

/-- The place of a name to which a path leads straight is in the directory before it. -/
theorem directory_of_straight (hname : FilePath.isStay name = false ∧ name ≠ "..")
    (h : t.locateOver true 0 (path ++ [name]) = .ok place) :
    ∃ dir, t.directory path = .ok dir ∧ dir <+: place := by
  obtain ⟨hshort, h⟩ := locateOver_eq_ok_iff.1 h
  obtain ⟨dir, hdir, rfl⟩ := follow_zero_concat hname h
  have hslash := FilePath.not_isTooLong_of_concat hshort
  exact ⟨dir, locate_of_straight (locateOver_eq_ok_iff.2 ⟨hslash, hdir⟩), List.prefix_append ..⟩

theorem Sheds.straight (h : t.Sheds t') (hend : t'.node? names = t.node? names)
    (hstraight : t.locateOver true 0 path = .ok names) : t'.locateOver true 0 path = .ok names := by
  obtain ⟨hshort, hstraight⟩ := locateOver_eq_ok_iff.1 hstraight
  exact locateOver_eq_ok_iff.2 ⟨hshort, follow_zero_of_directories h.directories hend hstraight⟩

end FileTree

end ShuffleService
