import ShuffleService.FileTree

/-!
# Uploads of partition files

The files of partitions are copied into one target directory, each under its own name, and may then
be deleted. Copying does its best: a partition counts as uploaded when both of its files have been
copied, and what fails is left out. Deleting takes the files of those partitions that an upload
reports, and passes over what it cannot delete.

A copy opens its target before it reads, and so empties it; if it fails after that, the target keeps
what was written so far. Whether a disk is full or a file may not be touched, a tree does not say.
So a site lists what becomes of the copies (`CopyFate`), and which files may not be deleted.

* `UploadSite`: the files on both sides, and the target directory;
* `UploadSite.upload`: copy files, with the result (`UploadResult`);
* `UploadResult.deletable`, `FileTree.deleteAll`: what may be deleted, and deleting it.
-/

namespace ShuffleService

/-- The local files of a partition. -/
structure PartitionFiles where
  partition : Int
  data : FilePath
  index : FilePath
  deriving DecidableEq, Repr

/-- The files of partitions from three lists side by side, as far as the shortest goes. -/
def PartitionFiles.zip : List FilePath → List FilePath → List Int → List PartitionFiles
  | data :: ds, index :: is, partition :: ps => ⟨partition, data, index⟩ :: zip ds is ps
  | _, _, _ => []

/-- What an upload reports. -/
structure UploadResult where
  /-- The bytes of the uploaded files. -/
  size : Nat := 0
  /-- The uploaded partitions, in order. -/
  partitions : List Int := []
  deriving DecidableEq, Repr

namespace UploadResult

/-- The number of uploaded files: each partition has a data file and an index file. -/
def fileCount (r : UploadResult) : Nat := 2 * r.partitions.length

/-- Whether nothing was uploaded. -/
def isEmpty (r : UploadResult) : Bool := r.partitions.isEmpty

/-- Put one more partition after the others. -/
def add (r : UploadResult) (partition : Int) (size : Nat) : UploadResult :=
  ⟨r.size + size, r.partitions ++ [partition]⟩

/-- The files of uploaded partitions among the given ones, in order. -/
def deletable (r : UploadResult) (files : List PartitionFiles) : List FilePath :=
  (files.filter (r.partitions.contains ·.partition)).flatMap fun f => [f.data, f.index]

theorem mem_deletable_iff {r : UploadResult} {files : List PartitionFiles} {path : FilePath} :
    path ∈ r.deletable files ↔
      ∃ f ∈ files, f.partition ∈ r.partitions ∧ (path = f.data ∨ path = f.index) := by
  simp [deletable, and_assoc]

end UploadResult

/-- What becomes of a copy, as far as a tree does not decide it. -/
inductive CopyFate
  | whole
  /-- The target directory cannot be made, only the given one on the way there. -/
  | noDirectory (above : FilePath)
  /-- One of the two files may not be opened. -/
  | refused
  /-- After some bytes, the rest cannot be read or written. -/
  | cut (written : Nat)
  deriving DecidableEq

/-- The bytes that are written of those that were to be. -/
def CopyFate.written : CopyFate → Bytes → Bytes
  | .cut n, content => content.take n
  | _, content => content

/-- A copy that has been begun. -/
structure CopyWrite where
  /-- The path of the file that was copied. -/
  source : FilePath
  /-- The node that was emptied and written to. -/
  node : Node
  /-- The bytes that it had then. -/
  left : Bytes
  /-- The number of bytes that were copied, unless the copy broke off. -/
  size? : Option Nat
  deriving DecidableEq

/-- Copy a file to where a path leads. What is read is what the file has after the target was
emptied, so a file that is copied onto itself is lost. Nothing is written where one of the two cannot
be opened. -/
def FileTree.copyTo? (t : FileTree) (fate : CopyFate) (path target : FilePath) :
    Option (CopyWrite × FileTree) :=
  match t.nodeAt? path, t.openEmpty? target with
  | some (.file source), some (node, t) =>
    let content := t.content source
    let bytes := fate.written content
    let write : CopyWrite :=
      { source := path
        node := node
        left := if node = .device then [] else bytes
        size? := if fate = .whole then some content.length else none }
    some (write, t.store node bytes)
  | _, _ => none

/-- The files on both sides, and the path of the directory that local files are copied to. -/
structure UploadSite where
  tree : FileTree
  target : FilePath
  /-- What becomes of the next copies. All after them are whole. -/
  fates : List CopyFate := []
  /-- Which of the next files may not be deleted. All after them may. -/
  denied : List Bool := []

namespace UploadSite

/-- Make the target directory. Returns whether the copy goes on. -/
def makeTarget (s : UploadSite) : CopyFate → Bool × FileTree
  | .noDirectory above => (false, (s.tree.makeDirectories above).2)
  | .refused => (false, (s.tree.makeDirectories s.target).2)
  | .whole | .cut _ => s.tree.makeDirectories s.target

/-- Copy a file under its own name. There is no result if nothing was written. A path without a file
name fails at once; otherwise the target directory is made before the file is opened, so it is there
also if opening fails. -/
def copy (s : UploadSite) (path : FilePath) : Option CopyWrite × UploadSite :=
  let fate := s.fates.headD .whole
  let fates := s.fates.tail
  match path.fileName? with
  | none => (none, { s with fates := fates })
  | some name =>
    let (goesOn, tree) := s.makeTarget fate
    match if goesOn then tree.copyTo? fate path (s.target ++ [name]) else none with
    | none => (none, { s with tree := tree, fates := fates })
    | some (write, tree) => (some write, { s with tree := tree, fates := fates })

/-- Copy a file. Returns the number of bytes, if it was copied as a whole. -/
def copySize (s : UploadSite) (path : FilePath) : Option Nat × UploadSite :=
  let (write, s) := s.copy path
  (write.bind (·.size?), s)

/-- Copy the data file of a partition and then its index file, up to the first that fails. Returns
the number of bytes of both. -/
def copyBoth (s : UploadSite) (f : PartitionFiles) : Option Nat × UploadSite :=
  match s.copySize f.data with
  | (none, s) => (none, s)
  | (some dataSize, s) =>
    match s.copySize f.index with
    | (none, s) => (none, s)
    | (some indexSize, s) => (some (dataSize + indexSize), s)

/-- Upload the files of partitions after those that a result has. -/
def uploadAfter (r : UploadResult) (s : UploadSite) : List PartitionFiles → UploadResult × UploadSite
  | [] => (r, s)
  | f :: fs =>
    match s.copyBoth f with
    | (none, s) => uploadAfter r s fs
    | (some size, s) => uploadAfter (r.add f.partition size) s fs

/-- Upload the files of partitions. -/
def upload (s : UploadSite) (files : List PartitionFiles) : UploadResult × UploadSite :=
  s.uploadAfter {} files

end UploadSite

/-- Delete files one after the other, some of which may not be deleted. Returns how many could be. -/
def FileTree.deleteAll : FileTree → (denied : List Bool) → List FilePath → Nat × FileTree
  | t, _, [] => (0, t)
  | t, denied, path :: paths =>
    match if denied.headD false then none else t.removeFile? path with
    | some t =>
      let (n, t) := deleteAll t denied.tail paths
      (n + 1, t)
    | none => deleteAll t denied.tail paths

/-- Delete the files of the partitions that a result reports. Returns how many could be deleted and
how many could not. -/
def UploadSite.deleteUploaded (s : UploadSite) (r : UploadResult) (files : List PartitionFiles) :
    (Nat × Nat) × UploadSite :=
  let paths := r.deletable files
  let (deleted, rest) := s.tree.deleteAll s.denied paths
  ((deleted, paths.length - deleted),
    { s with tree := rest, denied := s.denied.drop paths.length })

end ShuffleService
