import ShuffleService.Proofs.TreeChanges
import ShuffleService.Upload

/-!
# What is left of the files that an upload lets go

Files are copied under their bare names and are let go by the ids of their partitions, so it depends
on the whole list what becomes of one of them. `UploadSite.writes` are the copies that an upload has
begun, in order, each with the node that it has emptied and the bytes that it has left there. A node
has what the last of them has left (`UploadSite.Holds`), and deleting files changes nothing in it.

`removed_files_are_kept` says which of the files that are then deleted have been kept. A later copy may
have emptied the file to which an earlier one went: one of the same name from another directory, or
one whose name is a link to the same file, whether it is whole or breaks off. And a file that was not
copied itself may go with the other files of its partition (`removed_files_are_lost`).
-/

namespace ShuffleService

/-- The last of some copies that went to a node. -/
def lastWrite (n : Node) (ws : List CopyWrite) : Option CopyWrite := (ws.filter (·.node = n)).getLast?

theorem lastWrite_concat {n : Node} {w : CopyWrite} {ws : List CopyWrite} :
    lastWrite n (ws ++ [w]) = if w.node = n then some w else lastWrite n ws := by
  unfold lastWrite
  split <;> simp [*]

theorem exists_lastWrite {w : CopyWrite} {ws : List CopyWrite} (hmem : w ∈ ws) :
    ∃ last, lastWrite w.node ws = some last := by
  have hfilter : w ∈ ws.filter (·.node = w.node) := List.mem_filter.2 ⟨hmem, by simp⟩
  exact ⟨_, List.getLast?_eq_some_getLast (List.ne_nil_of_mem hfilter)⟩

/-- A copy is the last one that went to its node if none of those after it did. -/
theorem lastWrite_of_after {w : CopyWrite} {before after : List CopyWrite}
    (h : ∀ v ∈ after, v.node ≠ w.node) : lastWrite w.node (before ++ w :: after) = some w := by
  have hnone : after.filter (·.node = w.node) = [] :=
    List.filter_eq_nil_iff.2 fun v hv => by simpa using h v hv
  simp [lastWrite, hnone]

namespace UploadSite

variable {s s' : UploadSite} {target path : FilePath} {ws : List CopyWrite}
  {f : PartitionFiles} {files : List PartitionFiles} {fate : CopyFate}

/-! ### What an upload copies -/

/-- The copies of the files of a partition that are begun. -/
def writesOf (s : UploadSite) (f : PartitionFiles) : List CopyWrite :=
  let (data, s) := s.copy f.data
  data.toList ++ if (data.bind (·.size?)).isSome then (s.copy f.index).1.toList else []

/-- The copies that an upload begins, in order. -/
def writes (s : UploadSite) : List PartitionFiles → List CopyWrite
  | [] => []
  | f :: fs => s.writesOf f ++ (s.copyBoth f).2.writes fs

/-- The entries of the list of which an upload copies both files. -/
def uploaded (s : UploadSite) : List PartitionFiles → List PartitionFiles
  | [] => []
  | f :: fs =>
    let rest := (s.copyBoth f).2.uploaded fs
    if (s.copyBoth f).1.isSome then f :: rest else rest

/-- A file is copied as a whole. -/
def CopiesWhole (ws : List CopyWrite) (path : FilePath) : Prop :=
  ∃ w ∈ ws, w.source = path ∧ w.size?.isSome

/-! ### One copy -/

/-- What a copy does to a tree. -/
structure Copied (t t' : FileTree) (path target : FilePath) (w : CopyWrite) : Prop where
  source_eq : w.source = path
  grows : t.Grows t'
  leads : t'.nodeAt? target = some w.node
  writes : t.Writes t' w.node w.left
  shows : t'.view w.node = .file w.left
  /-- If the copy is whole, the bytes that are left are those of the file that was copied. -/
  reads : w.size?.isSome → w.node ≠ .device →
    ∃ n, t'.nodeAt? path = some n ∧ t'.view n = .file w.left

theorem copied_of_copyTo? {t t' : FileTree} {w : CopyWrite}
    (h : t.copyTo? fate path target = some (w, t')) : Copied t t' path target w := by
  unfold FileTree.copyTo? at h
  split at h
  case h_2 => cases h
  case h_1 _ _ source node t₁ hsource hopen =>
    cases h
    obtain ⟨hgrows, hleads, hempty⟩ := FileTree.openEmpty?_spec hopen
    have hshown := FileTree.view_of_openEmpty? hopen
    generalize hbytes : fate.written (t₁.content source) = bytes
    obtain ⟨hgrows', hwrites⟩ := FileTree.store_spec hleads bytes
    have hall := hgrows.trans hgrows'
    cases node with
    | directory | link _ => cases hshown
    | device =>
      exact ⟨rfl, hall, hgrows'.nodeAt? hleads, hempty.trans hwrites, rfl,
        fun _ hne => absurd rfl hne⟩
    | file id =>
      rw [if_neg nofun]
      have hid (j : Nat) : (t₁.store (.file id) bytes).view (.file j) =
          .file (if (.file id : Node) = .file j then bytes else t₁.content j) := by
        rw [FileTree.view, hwrites j]
      refine ⟨rfl, hall, hgrows'.nodeAt? hleads, ?_, ?_, fun hwhole _ => ⟨.file source, ?_, ?_⟩⟩
      · intro j
        rw [hwrites j, hempty j]
        split <;> rfl
      · rw [hid, if_pos rfl]
      · exact hall.nodeAt? hsource
      · -- a whole copy has written what the file had, also if the file is the one written to
        have hfate : fate = .whole := by
          by_contra hne
          simp [hne] at hwhole
        have hsame : bytes = t₁.content source := by
          rw [← hbytes, hfate]
          rfl
        rw [hid, hsame, ite_self]

/-- What a copy under a file's own name comes to: it adds directories at most, or it goes to the
place of that name in the target directory. -/
inductive Outcome (s : UploadSite) (path : FilePath) : Option CopyWrite → UploadSite → Prop
  | nothing {s' : UploadSite} (htarget : s'.target = s.target) (h : s.tree.Extends s'.tree) :
    Outcome s path none s'
  | wrote {s' : UploadSite} {w : CopyWrite} {name : String} (htarget : s'.target = s.target)
    (hname : path.fileName? = some name)
    (h : ∃ t, s.tree.Extends t ∧ Copied t s'.tree path (s.target ++ [name]) w) :
    Outcome s path (some w) s'

theorem extends_makeTarget (s : UploadSite) (fate : CopyFate) :
    s.tree.Extends (s.makeTarget fate).2 := by
  cases fate <;> exact s.tree.extends_makeDirectories _

theorem outcome_copy (s : UploadSite) (path : FilePath) :
    Outcome s path (s.copy path).1 (s.copy path).2 := by
  unfold copy
  dsimp only
  cases hname : path.fileName? with
  | none => exact .nothing rfl (.refl _)
  | some name =>
    have hmade := s.extends_makeTarget (s.fates.headD .whole)
    cases hmake : s.makeTarget (s.fates.headD .whole) with
    | mk goesOn tree =>
    rw [hmake] at hmade
    cases goesOn with
    | false => exact .nothing rfl hmade
    | true =>
      dsimp only
      rw [if_pos rfl]
      cases hcopy : tree.copyTo? (s.fates.headD .whole) path (s.target ++ [name]) with
      | none => exact .nothing rfl hmade
      | some result =>
        obtain ⟨w, tree'⟩ := result
        exact .wrote rfl hname ⟨tree, hmade, copied_of_copyTo? hcopy⟩

/-! ### All copies -/

/-- The target directory has a file of the same name and with the same bytes. -/
def Keeps (s : UploadSite) (t : FileTree) (path : FilePath) (content : Bytes) : Prop :=
  ∃ name, path.fileName? = some name ∧ t.entryAt (s.target ++ [name]) = .file content

/-- After some copies, the name of each leads to the node that it went to, and a node has what the
last copy that went to it has left. A file that was copied as a whole has the bytes that were copied,
unless a later copy went to it. -/
structure Holds (target : FilePath) (ws : List CopyWrite) (s : UploadSite) : Prop where
  target_eq : s.target = target
  leads : ∀ w ∈ ws, ∃ name, w.source.fileName? = some name ∧
    s.tree.nodeAt? (target ++ [name]) = some w.node
  shows : ∀ n last, lastWrite n ws = some last → s.tree.view n = .file last.left
  reads : ∀ before w after, ws = before ++ w :: after → w.size?.isSome → w.node ≠ .device →
    ∃ n, s.tree.nodeAt? w.source = some n ∧
      ((∀ v ∈ after, v.node ≠ n) → s.tree.view n = .file w.left)

theorem holds_nil (s : UploadSite) : Holds s.target [] s :=
  ⟨rfl, nofun, nofun, fun before w after h => by simp at h⟩

/-- What a whole copy has left is what its file shows, unless a later copy went to this file. -/
theorem Holds.entryAt_source {w : CopyWrite} {before after : List CopyWrite}
    (h : Holds target (before ++ w :: after) s) (hwhole : w.size?.isSome) (hnode : w.node ≠ .device)
    (hlater : ∀ v ∈ after, s.tree.nodeAt? w.source ≠ some v.node) :
    s.tree.entryAt w.source = .file w.left := by
  obtain ⟨n, hn, hshown⟩ := h.reads before w after rfl hwhole hnode
  refine FileTree.entryAt_eq_file_iff.2 ⟨n, hn, hshown fun v hv heq => hlater v hv ?_⟩
  rw [hn, heq]

theorem Holds.nothing (h : Holds target ws s) (htarget : s'.target = s.target)
    (hextends : s.tree.Extends s'.tree) : Holds target ws s' := by
  obtain ⟨rfl, hleads, hshows, hreads⟩ := h
  have hview := FileTree.view_congr hextends.content
  refine ⟨htarget, fun w hw => ?_, fun n last hlast => ?_, fun before w after hws hwhole hnode => ?_⟩
  · obtain ⟨name, hname, hn⟩ := hleads w hw
    exact ⟨name, hname, hextends.grows.nodeAt? hn⟩
  · rw [hview, hshows n last hlast]
  · obtain ⟨n, hn, hlater⟩ := hreads before w after hws hwhole hnode
    exact ⟨n, hextends.grows.nodeAt? hn, fun hafter => by rw [hview, hlater hafter]⟩

theorem Holds.wrote {w : CopyWrite} {name : String} (h : Holds target ws s)
    (htarget : s'.target = s.target) (hname : path.fileName? = some name)
    (hcopied : Copied s.tree s'.tree path (s.target ++ [name]) w) :
    Holds target (ws ++ [w]) s' := by
  obtain ⟨rfl, hleads, hshows, hreads⟩ := h
  have hview {n : Node} (hne : w.node ≠ n) : s'.tree.view n = s.tree.view n :=
    hcopied.writes.view_ne hne
  constructor
  case target_eq => exact htarget
  case leads =>
    intro v hv
    rcases List.mem_append.1 hv with hv | hv
    · obtain ⟨name', hname', hn⟩ := hleads v hv
      exact ⟨name', hname', hcopied.grows.nodeAt? hn⟩
    · cases List.mem_singleton.1 hv
      exact ⟨name, hcopied.source_eq ▸ hname, hcopied.leads⟩
  case shows =>
    intro n last hlast
    rw [lastWrite_concat] at hlast
    split at hlast
    · rename_i hn
      cases hlast
      rw [← hn, hcopied.shows]
    · rw [hview ‹_›, hshows n last hlast]
  case reads =>
    intro before v after hws hwhole hnode
    rcases List.eq_nil_or_concat after with rfl | ⟨after, u, rfl⟩
    · -- the copy that has just been made
      obtain ⟨-, hv⟩ := List.append_inj' hws rfl
      cases hv
      obtain ⟨n, hn, hshown⟩ := hcopied.reads hwhole hnode
      exact ⟨n, hcopied.source_eq ▸ hn, fun _ => hshown⟩
    · rw [List.concat_eq_append] at hws ⊢
      rw [← List.cons_append, ← List.append_assoc] at hws
      obtain ⟨hfront, hu⟩ := List.append_inj' hws rfl
      cases hu
      obtain ⟨n, hn, hlater⟩ := hreads before v after hfront hwhole hnode
      refine ⟨n, hcopied.grows.nodeAt? hn, fun hafter => ?_⟩
      rw [hview (hafter w (by simp)), hlater fun v hv => hafter v (by simp [hv])]

theorem Holds.copy (h : Holds target ws s) (path : FilePath) :
    Holds target (ws ++ (s.copy path).1.toList) (s.copy path).2 := by
  have houtcome := outcome_copy s path
  generalize (s.copy path).1 = write at houtcome ⊢
  generalize (s.copy path).2 = s' at houtcome ⊢
  cases houtcome with
  | nothing htarget hextends =>
    rw [Option.toList_none, List.append_nil]
    exact h.nothing htarget hextends
  | wrote htarget hname hcopied =>
    obtain ⟨t, hextends, hcopied⟩ := hcopied
    -- first the directories, then the file
    have hmade : Holds target ws { s with tree := t } := h.nothing rfl hextends
    exact hmade.wrote htarget hname hcopied

/-- The index file is copied only if the data file was copied as a whole. -/
theorem copyBoth_cases (s : UploadSite) (f : PartitionFiles) :
    let data := s.copy f.data
    let index := data.2.copy f.index
    (data.1.bind (·.size?) = none ∧ s.copyBoth f = (none, data.2) ∧
        s.writesOf f = data.1.toList) ∨
      ∃ size, data.1.bind (·.size?) = some size ∧
        s.copyBoth f = ((index.1.bind (·.size?)).map (size + ·), index.2) ∧
        s.writesOf f = data.1.toList ++ index.1.toList := by
  intro data index
  have hwrites : s.writesOf f =
      data.1.toList ++ if (data.1.bind (·.size?)).isSome then index.1.toList else [] := rfl
  rw [hwrites]
  unfold UploadSite.copyBoth
  cases hsize : data.1.bind (·.size?) with
  | none =>
    have hdata : s.copySize f.data = (none, data.2) := Prod.ext hsize rfl
    rw [hdata]
    exact .inl ⟨rfl, rfl, List.append_nil _⟩
  | some size =>
    have hdata : s.copySize f.data = (some size, data.2) := Prod.ext hsize rfl
    have hindex : data.2.copySize f.index = (index.1.bind (·.size?), index.2) := rfl
    rw [hdata]
    dsimp only
    rw [hindex]
    refine .inr ⟨size, rfl, ?_, rfl⟩
    cases index.1.bind (·.size?) <;> rfl

theorem Holds.copyBoth (h : Holds target ws s) (f : PartitionFiles) :
    Holds target (ws ++ s.writesOf f) (s.copyBoth f).2 := by
  have hdata := h.copy f.data
  rcases copyBoth_cases s f with ⟨-, hboth, hwrites⟩ | ⟨size, -, hboth, hwrites⟩
  · rw [hboth, hwrites]
    exact hdata
  · rw [hboth, hwrites, ← List.append_assoc]
    exact hdata.copy f.index

theorem Holds.uploadAfter (h : Holds target ws s) (r : UploadResult) (files : List PartitionFiles) :
    Holds target (ws ++ s.writes files) (s.uploadAfter r files).2 := by
  induction files generalizing s ws r with
  | nil => simpa [UploadSite.writes, UploadSite.uploadAfter] using h
  | cons f files ih =>
    have hboth := h.copyBoth f
    unfold UploadSite.writes UploadSite.uploadAfter
    rw [← List.append_assoc]
    cases hcopy : s.copyBoth f with
    | mk size s' =>
      rw [hcopy] at hboth
      cases size <;> exact ih hboth _

/-! ### What an upload reports -/

theorem copiesWhole_of_isSome {write : Option CopyWrite}
    (h : ∀ w ∈ write, w.source = path) (hsize : (write.bind (·.size?)).isSome) :
    CopiesWhole write.toList path := by
  cases write with
  | none => cases hsize
  | some w => exact ⟨w, List.mem_singleton.2 rfl, h w rfl, hsize⟩

theorem CopiesWhole.mono {more : List CopyWrite} (h : CopiesWhole ws path) (hsub : ws ⊆ more) :
    CopiesWhole more path := by
  obtain ⟨w, hw, hsource, hsize⟩ := h
  exact ⟨w, hsub hw, hsource, hsize⟩

theorem source_of_mem_copy (s : UploadSite) (path : FilePath) :
    ∀ w ∈ (s.copy path).1, w.source = path := by
  have houtcome := outcome_copy s path
  intro w hw
  generalize (s.copy path).1 = write at houtcome hw
  generalize (s.copy path).2 = s' at houtcome
  cases houtcome with
  | nothing => cases hw
  | wrote _ _ h =>
    cases hw
    obtain ⟨_, -, hcopied⟩ := h
    exact hcopied.source_eq

theorem copiesWhole_writesOf (h : (s.copyBoth f).1.isSome) :
    CopiesWhole (s.writesOf f) f.data ∧ CopiesWhole (s.writesOf f) f.index := by
  rcases copyBoth_cases s f with ⟨-, hboth, -⟩ | ⟨size, hsize, hboth, hwrites⟩
  · rw [hboth] at h
    cases h
  · rw [hboth, Option.isSome_map] at h
    have hdata := copiesWhole_of_isSome (source_of_mem_copy s f.data) (by rw [hsize]; rfl)
    have hindex := copiesWhole_of_isSome (source_of_mem_copy _ f.index) h
    rw [hwrites]
    exact ⟨hdata.mono (List.subset_append_left ..), hindex.mono (List.subset_append_right ..)⟩

/-- Both files of each uploaded entry are copied as a whole. -/
theorem copiesWhole_of_uploaded (h : f ∈ s.uploaded files) :
    CopiesWhole (s.writes files) f.data ∧ CopiesWhole (s.writes files) f.index := by
  induction files generalizing s with
  | nil => cases h
  | cons g files ih =>
    unfold uploaded at h
    unfold UploadSite.writes
    have hrest (h : f ∈ (s.copyBoth g).2.uploaded files) :
        CopiesWhole (s.writesOf g ++ (s.copyBoth g).2.writes files) f.data ∧
          CopiesWhole (s.writesOf g ++ (s.copyBoth g).2.writes files) f.index :=
      (ih h).imp (·.mono (List.subset_append_right ..)) (·.mono (List.subset_append_right ..))
    dsimp only at h
    split at h
    · rcases List.mem_cons.1 h with rfl | h
      · exact (copiesWhole_writesOf ‹_›).imp (·.mono (List.subset_append_left ..))
          (·.mono (List.subset_append_left ..))
      · exact hrest h
    · exact hrest h

/-- The partitions that are reported are those of the uploaded entries. -/
theorem partitions_uploadAfter (r : UploadResult) : (s.uploadAfter r files).1.partitions =
    r.partitions ++ (s.uploaded files).map (·.partition) := by
  induction files generalizing s r with
  | nil => simp [uploadAfter, uploaded]
  | cons f files ih =>
    unfold uploadAfter uploaded
    cases hboth : s.copyBoth f with
    | mk size s' => cases size <;> simp [ih, UploadResult.add]

theorem partitions_upload (s : UploadSite) (files : List PartitionFiles) :
    (s.upload files).1.partitions = (s.uploaded files).map (·.partition) :=
  (partitions_uploadAfter {}).trans (List.nil_append _)

/-! ### What deleting leaves -/

theorem sheds_deleteAll (t : FileTree) (denied : List Bool) (paths : List FilePath) :
    t.Sheds (t.deleteAll denied paths).2 := by
  induction paths generalizing t denied with
  | nil => exact .refl t
  | cons path paths ih =>
    unfold FileTree.deleteAll
    split
    · rename_i t' hremove
      split at hremove
      · cases hremove
      · exact (FileTree.sheds_removeFile? hremove).trans (ih _ _)
    · exact ih _ _

/-- A place at which no path ends stays as it is. -/
theorem node?_removeFile? {t t' u : FileTree} {place : List String} (hold : t.Grows u)
    (hout : ∀ names, u.locateName path = .ok names → names ≠ place)
    (h : t.removeFile? path = some t') : t'.node? place = t.node? place := by
  obtain ⟨names, n, hnames, hn, hdir, rfl⟩ := FileTree.removeFile?_eq_some_iff.1 h
  have hne : names ≠ [] := FileTree.ne_nil_of_node? hn (by simpa using hdir)
  have hplace := hout names (FileTree.locateOver_of_node? hold hnames hn)
  rw [FileTree.node?_erase hne, if_neg hplace.symm]

theorem node?_deleteAll {t u : FileTree} {place : List String} (hold : t.Grows u)
    (denied : List Bool) {paths : List FilePath}
    (hout : ∀ path ∈ paths, ∀ names, u.locateName path = .ok names → names ≠ place) :
    (t.deleteAll denied paths).2.node? place = t.node? place := by
  induction paths generalizing t denied with
  | nil => rfl
  | cons path paths ih =>
    obtain ⟨hpath, hpaths⟩ := List.forall_mem_cons.1 hout
    unfold FileTree.deleteAll
    split
    · rename_i t' hremove
      split at hremove
      · cases hremove
      · have hrest := ih ((FileTree.sheds_removeFile? hremove).old.trans hold) denied.tail hpaths
        exact hrest.trans (node?_removeFile? hold hpath hremove)
    · exact ih hold _ hpaths

/-- Deleting files takes the last of them out of what deleting the others has left. -/
theorem deleteAll_append (t : FileTree) (denied : List Bool) (paths paths' : List FilePath) :
    t.deleteAll denied (paths ++ paths') =
      let (n, t) := t.deleteAll denied paths
      let (n', t) := t.deleteAll (denied.drop paths.length) paths'
      (n + n', t) := by
  induction paths generalizing t denied with
  | nil => simp [FileTree.deleteAll]
  | cons path paths ih =>
    rw [List.cons_append, FileTree.deleteAll, FileTree.deleteAll]
    cases (if denied.headD false then none else t.removeFile? path) with
    | none => simp [ih]
    | some t' => simp [ih, Nat.add_right_comm]

/-- When the files that an upload lets go are deleted one after the other, the turn comes to a file
with the given bytes, and its removal leads to the given tree. -/
def Removes (s : UploadSite) (files : List PartitionFiles) (path : FilePath) (content : Bytes)
    (t : FileTree) : Prop :=
  ∃ earlier later, (s.upload files).1.deletable files = earlier ++ path :: later ∧
    let denied := (s.upload files).2.denied
    let before := ((s.upload files).2.tree.deleteAll denied earlier).2
    before.entryAt path = .file content ∧
      before.deleteAll (denied.drop earlier.length) [path] = (1, t)

/-- Each file that is deleted after an upload is in the target directory at that moment. -/
def LosesNothing (s : UploadSite) (files : List PartitionFiles) : Prop :=
  ∀ path content t, s.Removes files path content t → s.Keeps t path content

section

variable {content : Bytes} {t : FileTree}

theorem Removes.mem_deletable (h : s.Removes files path content t) :
    path ∈ (s.upload files).1.deletable files := by
  obtain ⟨earlier, later, hsplit, -, -⟩ := h
  simp [hsplit]

/-- What a removal leads to is what is left when the files up to that one are deleted. -/
theorem Removes.exists_deleteAll (h : s.Removes files path content t) :
    ∃ paths ⊆ (s.upload files).1.deletable files,
      t = ((s.upload files).2.tree.deleteAll (s.upload files).2.denied paths).2 := by
  obtain ⟨earlier, later, hsplit, -, hremove⟩ := h
  refine ⟨earlier ++ [path], fun p hp => ?_, ?_⟩
  · rw [hsplit]
    rcases List.mem_append.1 hp with hp | hp
    · exact List.mem_append_left _ hp
    · rw [List.mem_singleton.1 hp]
      exact List.mem_append_right _ (List.mem_cons_self ..)
  · rw [deleteAll_append]
    exact (congrArg Prod.snd hremove).symm

/-- The files that come after a removed one are deleted out of what its removal has led to. -/
theorem Removes.deleteUploaded (h : s.Removes files path content t) :
    ∃ denied later, ((s.upload files).2.deleteUploaded (s.upload files).1 files).2.tree =
      (t.deleteAll denied later).2 := by
  obtain ⟨earlier, later, hsplit, -, hremove⟩ := h
  refine ⟨((s.upload files).2.denied.drop earlier.length).drop 1, later, ?_⟩
  unfold UploadSite.deleteUploaded
  dsimp only
  rw [hsplit, ← List.singleton_append, deleteAll_append]
  dsimp only
  rw [deleteAll_append, hremove]
  rfl

theorem Removes.sheds (h : s.Removes files path content t) : (s.upload files).2.tree.Sheds t := by
  obtain ⟨paths, -, rfl⟩ := h.exists_deleteAll
  exact sheds_deleteAll ..

theorem Removes.entryAt (h : s.Removes files path content t) :
    (s.upload files).2.tree.entryAt path = .file content := by
  obtain ⟨earlier, later, -, hfile, -⟩ := h
  exact (sheds_deleteAll ..).entryAt hfile

/-- A name in the target directory that is reached without a link leads where it did, if no file of
the list is in that directory. -/
theorem Removes.nodeAt?_target {name : String} (h : s.Removes files path content t)
    (houtside : ∀ f ∈ files, (s.upload files).2.tree.Outside s.target f.data ∧
      (s.upload files).2.tree.Outside s.target f.index)
    (hname : FilePath.isStay name = false ∧ name ≠ "..")
    (hstraight : (s.upload files).2.tree.LeadsStraight (s.target ++ [name])) :
    t.nodeAt? (s.target ++ [name]) = (s.upload files).2.tree.nodeAt? (s.target ++ [name]) := by
  obtain ⟨place, hplace⟩ := hstraight
  obtain ⟨dir, hdir, hprefix⟩ := FileTree.directory_of_straight hname hplace
  have hdeletable : ∀ p ∈ (s.upload files).1.deletable files,
      (s.upload files).2.tree.Outside s.target p := by
    intro p hp
    obtain ⟨f, hf, -, rfl | rfl⟩ := UploadResult.mem_deletable_iff.1 hp
    · exact (houtside f hf).1
    · exact (houtside f hf).2
  have hnode : t.node? place = (s.upload files).2.tree.node? place := by
    obtain ⟨paths, hpaths, rfl⟩ := h.exists_deleteAll
    refine node?_deleteAll (.refl _) _ fun p hp names hnames heq => ?_
    exact hdeletable p (hpaths hp) dir names hdir hnames (heq ▸ hprefix)
  have hplace' := h.sheds.straight hnode hplace
  unfold FileTree.nodeAt?
  rw [FileTree.locate_of_straight hplace, FileTree.locate_of_straight hplace']
  exact hnode

end

/-- **Files that are deleted after an upload.** Take any tree and any list of files, let some of the
copies fail, before or after their targets were emptied, and some of the files not be deletable; and
take a file that is deleted. It still has the bytes that it had after the upload.

* For any copy of it that the upload had begun, the target directory has at that moment a file of the
  same name and with the same bytes, just if the name there still leads to the node that the copy
  went to, and the last copy that went to this node has left these bytes.
* That copy has left these bytes if it copied the file as a whole and no later one went to the same
  node, or to the file itself.
* The name still leads there if it was reached without a link, and none of the files to be deleted was
  in the target directory.
* If no copy of it was whole, it is from an entry that was not uploaded, and another entry with the
  same partition id was. -/
theorem removed_files_are_kept {s : UploadSite} {files : List PartitionFiles} {path : FilePath}
    {content : Bytes} {t : FileTree} (h : s.Removes files path content t) :
    let uploaded := (s.upload files).2.tree
    uploaded.entryAt path = .file content ∧
    (∀ before w after, s.writes files = before ++ w :: after → w.source = path →
      ∃ name last, path.fileName? = some name ∧ lastWrite w.node (s.writes files) = some last ∧
        (s.Keeps t path content ↔
          t.nodeAt? (s.target ++ [name]) = some w.node ∧ last.left = content) ∧
        (w.size?.isSome → w.node ≠ .device →
          (∀ v ∈ after, v.node ≠ w.node ∧ uploaded.nodeAt? path ≠ some v.node) →
          last.left = content) ∧
        ((∀ f ∈ files, uploaded.Outside s.target f.data ∧ uploaded.Outside s.target f.index) →
          uploaded.LeadsStraight (s.target ++ [name]) →
          t.nodeAt? (s.target ++ [name]) = some w.node)) ∧
    (¬ CopiesWhole (s.writes files) path → ∃ f ∈ files, ∃ g ∈ s.uploaded files,
      f ∉ s.uploaded files ∧ f.partition = g.partition ∧ (path = f.data ∨ path = f.index)) := by
  intro uploaded
  have hsheds : uploaded.Sheds t := h.sheds
  have hfile : uploaded.entryAt path = .file content := h.entryAt
  have hholds : Holds s.target (s.writes files) (s.upload files).2 :=
    (holds_nil s).uploadAfter {} files
  refine ⟨hfile, ?_, ?_⟩
  · rintro before w after hws rfl
    have hmem : w ∈ s.writes files := by simp [hws]
    obtain ⟨name, hname, hleads⟩ := hholds.leads w hmem
    obtain ⟨last, hlast⟩ := exists_lastWrite hmem
    have hshown : t.view w.node = .file last.left :=
      (FileTree.view_congr hsheds.content _).trans (hholds.shows _ _ hlast)
    refine ⟨name, last, hname, hlast, ?_, ?_, ?_⟩
    · constructor
      · rintro ⟨name', hname', hkept⟩
        cases hname.symm.trans hname'
        obtain ⟨n, hn, hview⟩ := FileTree.entryAt_eq_file_iff.1 hkept
        -- the name led to the same node before, which is the one that the copy went to
        cases (hsheds.old.nodeAt? hn).symm.trans hleads
        exact ⟨hn, FileEntry.file.inj (hshown.symm.trans hview)⟩
      · rintro ⟨hn, rfl⟩
        exact ⟨name, hname, FileTree.entryAt_eq_file_iff.2 ⟨w.node, hn, hshown⟩⟩
    · intro hwhole hnode hlater
      rw [hws, lastWrite_of_after fun v hv => (hlater v hv).1] at hlast
      cases hlast
      have hsame := (hws ▸ hholds).entryAt_source hwhole hnode fun v hv => (hlater v hv).2
      exact FileEntry.file.inj (hsame.symm.trans hfile)
    · intro houtside hstraight
      rw [h.nodeAt?_target houtside (FilePath.isStay_fileName? hname) hstraight, hleads]
  · intro hnot
    obtain ⟨f, hf, hpartition, hof⟩ := UploadResult.mem_deletable_iff.1 h.mem_deletable
    rw [partitions_upload] at hpartition
    obtain ⟨g, hg, heq⟩ := List.mem_map.1 hpartition
    refine ⟨f, hf, g, hg, fun huploaded => hnot ?_, heq.symm, hof⟩
    rcases hof with rfl | rfl
    · exact (copiesWhole_of_uploaded huploaded).1
    · exact (copiesWhole_of_uploaded huploaded).2

theorem removes_of_one {content : Bytes} (earlier later : List FilePath)
    (hsplit : (s.upload files).1.deletable files = earlier ++ path :: later)
    (hfile : ((s.upload files).2.tree.deleteAll (s.upload files).2.denied earlier).2.entryAt path =
      .file content)
    (hone : (((s.upload files).2.tree.deleteAll (s.upload files).2.denied earlier).2.deleteAll
      ((s.upload files).2.denied.drop earlier.length) [path]).1 = 1) :
    s.Removes files path content
      (((s.upload files).2.tree.deleteAll (s.upload files).2.denied earlier).2.deleteAll
        ((s.upload files).2.denied.drop earlier.length) [path]).2 :=
  ⟨earlier, later, hsplit, hfile, Prod.ext hone rfl⟩

/-- A partition is in the list twice, and the data file of its second entry is missing. -/
theorem removed_files_are_kept_repeated_partition :
    let s : UploadSite :=
      { tree := { nodes := ⟨[(["local"], .directory), (["local", "a.data"], .file 0),
          (["local", "a.index"], .file 1), (["local", "b.index"], .file 2)], by decide⟩
                  contents := [[1], [2, 2], [3, 3, 3]] }
        target := ["remote"] }
    let files : List PartitionFiles := [⟨1, ["local", "a.data"], ["local", "a.index"]⟩,
      ⟨1, ["local", "b.data"], ["local", "b.index"]⟩]
    (∃ t, s.Removes files ["local", "a.index"] [2, 2] t ∧
        s.Keeps t ["local", "a.index"] [2, 2]) ∧
      ∃ t, s.Removes files ["local", "b.index"] [3, 3, 3] t ∧
        ∃ f ∈ files, ∃ g ∈ s.uploaded files, f ∉ s.uploaded files ∧ f.partition = g.partition := by
  intro s files
  have houtside : ∀ f ∈ files, (s.upload files).2.tree.Outside s.target f.data ∧
      (s.upload files).2.tree.Outside s.target f.index := by decide +kernel
  have hwrites : s.writes files =
      [⟨["local", "a.data"], .file 3, [1], some 1⟩,
        ⟨["local", "a.index"], .file 4, [2, 2], some 2⟩] := by decide +kernel
  constructor
  · have hremoves : s.Removes files ["local", "a.index"] [2, 2] _ :=
      removes_of_one [["local", "a.data"]] [["local", "b.data"], ["local", "b.index"]]
        (by decide +kernel) (by decide +kernel) (by decide +kernel)
    obtain ⟨-, hcopies, -⟩ := removed_files_are_kept hremoves
    obtain ⟨name, last, hname, -, hkeeps, hleft, hstays⟩ :=
      hcopies [⟨["local", "a.data"], .file 3, [1], some 1⟩] _ [] hwrites rfl
    have hindex : FilePath.fileName? ["local", "a.index"] = some "a.index" := by decide +kernel
    cases hindex.symm.trans hname
    have hstraight : (s.upload files).2.tree.LeadsStraight (s.target ++ ["a.index"]) :=
      ⟨["remote", "a.index"], by decide +kernel⟩
    exact ⟨_, hremoves, hkeeps.2 ⟨hstays houtside hstraight, hleft rfl nofun nofun⟩⟩
  · have hremoves : s.Removes files ["local", "b.index"] [3, 3, 3] _ :=
      removes_of_one [["local", "a.data"], ["local", "a.index"], ["local", "b.data"]] []
        (by decide +kernel) (by decide +kernel) (by decide +kernel)
    obtain ⟨-, -, hnot⟩ := removed_files_are_kept hremoves
    have hnone : ¬ CopiesWhole (s.writes files) ["local", "b.index"] := by
      rw [hwrites]
      rintro ⟨w, hw, hsource, -⟩
      simp only [List.mem_cons, List.not_mem_nil, or_false] at hw
      rcases hw with rfl | rfl <;> simp at hsource
    obtain ⟨f, hf, g, hg, hout, hsame, -⟩ := hnot hnone
    exact ⟨_, hremoves, f, hf, g, hg, hout, hsame⟩

theorem not_losesNothing {content : Bytes} {t : FileTree} {name : String}
    (h : s.Removes files path content t) (hname : path.fileName? = some name)
    (hlost : t.entryAt (s.target ++ [name]) ≠ .file content) : ¬ s.LosesNothing files := by
  intro hall
  obtain ⟨name', hname', hkept⟩ := hall path content t h
  cases hname.symm.trans hname'
  exact hlost hkept

/-- Four ways to lose a file that is outside the target directory. The index file of an entry whose
data file is missing is not copied, and goes with another entry of the same partition. Of the data
files of two partitions that have the same name in different directories both go, after the second
has replaced the copy of the first. If the second copy breaks off, the first is lost as well, even
though the two files have the same bytes. And where a name in the target directory is a link to
another one, the copies under both names go to one file. -/
theorem removed_files_are_lost :
    (let s : UploadSite :=
      { tree := { nodes := ⟨[(["local"], .directory), (["local", "a.data"], .file 0),
          (["local", "a.index"], .file 1), (["local", "b.index"], .file 2)], by decide⟩
                  contents := [[1], [2, 2], [3, 3, 3]] }
        target := ["remote"] }
      let files : List PartitionFiles := [⟨1, ["local", "a.data"], ["local", "a.index"]⟩,
        ⟨1, ["local", "b.data"], ["local", "b.index"]⟩]
      (∀ f ∈ files, (s.upload files).2.tree.Outside s.target f.data ∧
        (s.upload files).2.tree.Outside s.target f.index) ∧ ¬ s.LosesNothing files) ∧
    (let nodes : Table (List String) Node := ⟨[(["local"], .directory), (["local", "a"], .directory),
        (["local", "a", "x.data"], .file 0), (["local", "a", "x.index"], .file 1),
        (["local", "b"], .directory), (["local", "b", "x.data"], .file 2),
        (["local", "b", "x.index"], .file 3)], by decide⟩
      let files : List PartitionFiles := [⟨1, ["local", "a", "x.data"], ["local", "a", "x.index"]⟩,
        ⟨2, ["local", "b", "x.data"], ["local", "b", "x.index"]⟩]
      let s : UploadSite :=
        { tree := { nodes := nodes, contents := [[1], [2], [3, 3], [4, 4]] }, target := ["remote"] }
      let full : UploadSite :=
        { tree := { nodes := nodes, contents := [[1, 1], [2], [1, 1], [4, 4]] }
          target := ["remote"]
          fates := [.whole, .whole, .cut 1] }
      (∀ f ∈ files, (s.upload files).2.tree.Outside s.target f.data ∧
        (s.upload files).2.tree.Outside s.target f.index) ∧ ¬ s.LosesNothing files ∧
      (∀ f ∈ files, (full.upload files).2.tree.Outside full.target f.data ∧
        (full.upload files).2.tree.Outside full.target f.index) ∧ ¬ full.LosesNothing files) ∧
    (let s : UploadSite :=
      { tree := { nodes := ⟨[(["local"], .directory), (["local", "a.data"], .file 0),
          (["local", "a.index"], .file 1), (["local", "b.data"], .file 2),
          (["local", "b.index"], .file 3), (["remote"], .directory),
          (["remote", "b.data"], .link ["a.data"])], by decide⟩
                  contents := [[1], [2], [3], [4]] }
        target := ["remote"] }
      let files : List PartitionFiles := [⟨1, ["local", "a.data"], ["local", "a.index"]⟩,
        ⟨2, ["local", "b.data"], ["local", "b.index"]⟩]
      (∀ f ∈ files, (s.upload files).2.tree.Outside s.target f.data ∧
        (s.upload files).2.tree.Outside s.target f.index) ∧ ¬ s.LosesNothing files) := by
  refine ⟨?_, ?_, ?_⟩
  · intro s files
    have hremoves : s.Removes files ["local", "b.index"] [3, 3, 3] _ :=
      removes_of_one [["local", "a.data"], ["local", "a.index"], ["local", "b.data"]] []
        (by decide +kernel) (by decide +kernel) (by decide +kernel)
    have hname : FilePath.fileName? ["local", "b.index"] = some "b.index" := by decide +kernel
    exact ⟨by decide +kernel, not_losesNothing hremoves hname (by decide +kernel)⟩
  · intro nodes files s full
    have hname : FilePath.fileName? ["local", "a", "x.data"] = some "x.data" := by decide +kernel
    have hremoves : s.Removes files ["local", "a", "x.data"] [1] _ :=
      removes_of_one [] [["local", "a", "x.index"], ["local", "b", "x.data"],
        ["local", "b", "x.index"]] (by decide +kernel) (by decide +kernel) (by decide +kernel)
    have hremoves' : full.Removes files ["local", "a", "x.data"] [1, 1] _ :=
      removes_of_one [] [["local", "a", "x.index"]]
        (by decide +kernel) (by decide +kernel) (by decide +kernel)
    exact ⟨by decide +kernel, not_losesNothing hremoves hname (by decide +kernel),
      by decide +kernel, not_losesNothing hremoves' hname (by decide +kernel)⟩
  · intro s files
    have hremoves : s.Removes files ["local", "a.data"] [1] _ :=
      removes_of_one [] [["local", "a.index"], ["local", "b.data"], ["local", "b.index"]]
        (by decide +kernel) (by decide +kernel) (by decide +kernel)
    have hname : FilePath.fileName? ["local", "a.data"] = some "a.data" := by decide +kernel
    exact ⟨by decide +kernel, not_losesNothing hremoves hname (by decide +kernel)⟩

end UploadSite

end ShuffleService
