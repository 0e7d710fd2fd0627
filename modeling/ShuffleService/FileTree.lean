import ShuffleService.FileEntry
import ShuffleService.Table

/-!
# Directories below a root

A tree is a table from names to nodes: files, directories and symbolic links. Several names may stand
for the same file, so a node has the number of a file, and what the file holds is kept apart. A path
as it is written (`FilePath`) may step through `.`, `..` and empty names, and over links;
`FileTree.locate` follows it and gives the names that it leads to, and `FileTree.entryAt` says what
stands there.

* `FileTree.node?` and `FileTree.content` are the view of a tree, and the lemmas beside the ways to
  change a tree say what each does to it;
* `FileTree.makeDirectories`: make a directory together with those above it;
* `FileTree.openEmpty?`: open a file for writing, which empties it or makes a new one;
* `FileTree.removeFile?`: take a name away.
-/

namespace ShuffleService

/-- A path as it is written: its parts between slashes, seen from the root of a tree. -/
abbrev FilePath := List String

namespace FilePath

/-- The parts of a text between slashes. -/
def ofText (text : String) : FilePath := text.splitOn "/"

/-- The text with the given parts. -/
def text (path : FilePath) : String := String.intercalate "/" path

/-- Whether a part stands for the directory it is in. -/
def isStay (part : String) : Bool := part = "" || part = "."

/-- Whether a part can be the name of a file. -/
def isName (part : String) : Bool := part.utf8ByteSize ≤ 255 && !part.toList.contains '\x00'

/-- Whether the text of a path is longer than any path may be. -/
def isTooLong (path : FilePath) : Bool := 4095 < path.text.utf8ByteSize

/-- A path without the parts at its end that do not leave the directory they are in. -/
def trimEnd (path : FilePath) : FilePath := (path.reverse.dropWhile isStay).reverse

/-- The name of the file that a path ends in. A path that ends by going up has none, nor has the
root. -/
def fileName? (path : FilePath) : Option String := path.trimEnd.getLast?.filter (· ≠ "..")

/-- The path to the directory that a path ends in. -/
def parent? (path : FilePath) : Option FilePath :=
  let ends := path.trimEnd
  if ends.isEmpty then none else some (trimEnd ends.dropLast)

/-- The path as it is seen from a directory in the root, if it begins there. -/
def below (directory : String) : FilePath → FilePath
  | [] => []
  | part :: path =>
    if part = directory then trimEnd (path.dropWhile isStay) else part :: path

theorem length_trimEnd_le (path : FilePath) : path.trimEnd.length ≤ path.length := by
  have := (List.dropWhile_sublist (l := path.reverse) isStay).length_le
  simpa [trimEnd] using this

theorem length_lt_of_parent? {path parent : FilePath} (h : path.parent? = some parent) :
    parent.length < path.length := by
  simp only [parent?] at h
  have h1 := length_trimEnd_le path
  have h2 := length_trimEnd_le (trimEnd path).dropLast
  split at h
  · simp at h
  · rename_i hne
    rw [Option.some.injEq] at h
    rw [← h]
    have : path.trimEnd.length ≠ 0 := by
      intro h0
      simp [List.length_eq_zero_iff.1 h0] at hne
    rw [List.length_dropLast] at h2
    omega

end FilePath

/-- Why a path leads nowhere. -/
inductive Obstacle
  /-- A directory on the way is missing. -/
  | missing
  /-- Something else is in the way. -/
  | blocked
  deriving DecidableEq, Repr

/-- What a name stands for. -/
inductive Node
  /-- A file, by its number. -/
  | file (id : Nat)
  | directory
  /-- A symbolic link to a path. -/
  | link (target : FilePath)
  /-- A device that takes any bytes and keeps none. -/
  | device
  deriving DecidableEq

/-- A file has one of so many numbers. -/
def Node.Below (count : Nat) : Node → Prop
  | .file id => id < count
  | _ => True

instance (count : Nat) : DecidablePred (Node.Below count)
  | .file id => inferInstanceAs (Decidable (id < count))
  | .directory | .link _ | .device => .isTrue trivial

theorem Node.below_directory (count : Nat) : Node.directory.Below count := trivial

theorem Node.Below.mono {count count' : Nat} {n : Node} (h : n.Below count) (hle : count ≤ count') :
    n.Below count' := by
  cases n with
  | file id => exact Nat.lt_of_lt_of_le h hle
  | directory | link | device => trivial

/-- Nodes below a root by the names that lead to them, and what the files hold by their numbers. -/
structure FileTree where
  nodes : Table (List String) Node := ∅
  contents : List Bytes := []
  held : ∀ e ∈ nodes.entries, e.2.Below contents.length := by decide

namespace FileTree

/-- What names stand for, if anything. The root is a directory. -/
def node? (t : FileTree) (names : List String) : Option Node :=
  if names.isEmpty then some .directory else t.nodes.find? names

/-- What a file holds. -/
def content (t : FileTree) (id : Nat) : Bytes := t.contents.getD id []

/-- What a node has to show. -/
def view (t : FileTree) : Node → FileEntry
  | .file id => .file (t.content id)
  | .directory => .directory
  | .link _ => .missing
  | .device => .file []

/-- The names in a directory, each with what it has to show. -/
def children (t : FileTree) (names : List String) : List (String × FileEntry) :=
  t.nodes.entries.filterMap fun (place, n) =>
    if place.dropLast = names then place.getLast?.map (·, t.view n) else none

theorem below_of_node? {t : FileTree} {names : List String} {n : Node}
    (h : t.node? names = some n) : n.Below t.contents.length := by
  unfold node? at h
  split at h
  · cases h
    trivial
  · exact Table.forall_mem_entries.1 t.held names n h

/-! ### Ways to change a tree -/

/-- Put a node where names lead. -/
def setNode (t : FileTree) (place : List String) (n : Node) (h : n.Below t.contents.length) :
    FileTree where
  nodes := t.nodes.insert place n
  contents := t.contents
  held := by
    refine Table.forall_mem_entries.2 fun names m hm => ?_
    rw [Table.find?_insert] at hm
    split at hm
    · cases hm
      exact h
    · exact Table.forall_mem_entries.1 t.held names m hm

/-- Put a new file where names lead. It is empty. -/
def createFile (t : FileTree) (place : List String) : FileTree :=
  setNode { t with
      contents := t.contents ++ [[]]
      held := fun e he => (t.held e he).mono (by simp) }
    place (.file t.contents.length) (by simp [Node.Below])

/-- Write a file from its beginning. -/
def write (t : FileTree) (id : Nat) (bytes : Bytes) : FileTree where
  nodes := t.nodes
  contents := t.contents.set id bytes
  held e he := by
    rw [List.length_set]
    exact t.held e he

/-- Take away what names lead to. -/
def erase (t : FileTree) (names : List String) : FileTree where
  nodes := t.nodes.erase names
  contents := t.contents
  held := by
    refine Table.forall_mem_entries.2 fun place m hm => ?_
    rw [Table.find?_erase] at hm
    split at hm
    · cases hm
    · exact Table.forall_mem_entries.1 t.held place m hm

section

variable {t : FileTree} {place names : List String} {n : Node} {id j : Nat} {bytes : Bytes}

theorem node?_setNode {h : n.Below t.contents.length} (hplace : place ≠ []) :
    (t.setNode place n h).node? names = if names = place then some n else t.node? names := by
  unfold node? setNode
  by_cases hn : names = place
  · subst hn
    simp [hplace]
  · simp [hn]

theorem node?_createFile (hplace : place ≠ []) : (t.createFile place).node? names =
    if names = place then some (.file t.contents.length) else t.node? names :=
  node?_setNode hplace

theorem node?_erase (hplace : place ≠ []) :
    (t.erase place).node? names = if names = place then none else t.node? names := by
  unfold node? erase
  by_cases hn : names = place
  · subst hn
    simp [hplace]
  · simp [hn]

@[simp] theorem content_createFile : (t.createFile place).content id = t.content id := by
  show (t.contents ++ [[]]).getD id [] = t.contents.getD id []
  rw [List.getD_eq_getElem?_getD, List.getD_eq_getElem?_getD]
  rcases Nat.lt_trichotomy id t.contents.length with hlt | rfl | hgt
  · rw [List.getElem?_append_left hlt]
  · simp
  · rw [List.getElem?_eq_none (by simp; omega), List.getElem?_eq_none (by omega)]

theorem content_write (h : id < t.contents.length) :
    (t.write id bytes).content j = if j = id then bytes else t.content j := by
  show (t.contents.set id bytes).getD j [] = if j = id then bytes else t.contents.getD j []
  rw [List.getD_eq_getElem?_getD, List.getElem?_set, List.getD_eq_getElem?_getD]
  by_cases hj : j = id
  · subst hj
    simp [h]
  · simp [hj, Ne.symm hj]

end

/-! ### Paths -/

/-- The most links that are followed on the way of a path. -/
def maxLinks : Nat := 40

/-- Follow the parts of a path from a directory on, up to a link, whose target goes on in the given
way. Each part but the last has to be a directory. Going up from the root leads to the root. A link
at the end may be left alone. -/
def walk (t : FileTree) (last : Bool)
    (onLink : List String → FilePath → Except Obstacle (List String)) :
    (start : List String) → FilePath → Except Obstacle (List String)
  | start, [] => .ok start
  | start, part :: path =>
    match t.node? start with
    | none => .error .missing
    | some .directory =>
      if FilePath.isStay part then walk t last onLink start path
      else if part = ".." then walk t last onLink start.dropLast path
      else if FilePath.isName part then
        match t.node? (start ++ [part]) with
        | some (.link target) =>
          if last || !path.isEmpty then
            onLink (if target.head? = some "" then [] else start) (target ++ path)
          else .ok (start ++ [part])
        | _ => walk t last onLink (start ++ [part]) path
      else .error .blocked
    | some _ => .error .blocked

/-- Follow a path over no more than the given number of links. -/
def follow (t : FileTree) (last : Bool) :
    (links : Nat) → (start : List String) → FilePath → Except Obstacle (List String)
  | 0 => t.walk last fun _ _ => .error .blocked
  | links + 1 => t.walk last (follow t last links)

/-- The names that a path leads to over no more than the given number of links. -/
def locateOver (t : FileTree) (last : Bool) (links : Nat) (path : FilePath) :
    Except Obstacle (List String) :=
  if path.isTooLong then .error .blocked else t.follow last links [] path

/-- The names that a path leads to. -/
def locate (t : FileTree) (path : FilePath) : Except Obstacle (List String) :=
  t.locateOver true maxLinks path

/-- The names that a path ends in. A link there is not followed. -/
def locateName (t : FileTree) (path : FilePath) : Except Obstacle (List String) :=
  t.locateOver false maxLinks path

/-- The names of the directory that a path leads to. -/
def directory (t : FileTree) (path : FilePath) : Except Obstacle (List String) :=
  t.locate (path ++ [""])

/-- Whether a path leads to a directory. -/
def isDirectory (t : FileTree) (path : FilePath) : Bool := (t.directory path).toBool

/-- The node that a path leads to. -/
def nodeAt? (t : FileTree) (path : FilePath) : Option Node :=
  (t.locate path).toOption.bind t.node?

/-- What a path has to show. -/
def entryAt (t : FileTree) (path : FilePath) : FileEntry := (t.nodeAt? path).elim .missing t.view

/-- What is in the directory that a path leads to, if it leads to one. -/
def listing? (t : FileTree) (path : FilePath) : Option (List (String × FileEntry)) :=
  (t.directory path).toOption.map t.children

/-! ### Changes by path -/

/-- Make the directory that a path ends in. The one above it has to be there, and nothing may have
its name. Slashes at the end of the path do not count. -/
def makeDirectory (t : FileTree) (path : FilePath) : Except Obstacle FileTree :=
  let parts := (path.reverse.dropWhile (· = "")).reverse
  match parts.getLast? with
  | none => .error .blocked
  | some last => do
    let names ← t.directory parts.dropLast
    let place := names ++ [last]
    if last = "." ∨ last = ".." ∨ ¬ FilePath.isName last ∨ path.isTooLong ∨
        t.node? place ≠ none then
      .error .blocked
    else .ok (t.setNode place .directory (Node.below_directory _))

/-- Make the directory that a path ends in, and before it those above it that are missing. Returns
whether the directory is there in the end. -/
def makeDirectories (t : FileTree) (path : FilePath) : Bool × FileTree :=
  match t.makeDirectory path with
  | .ok t => (true, t)
  | .error .blocked => (t.isDirectory path, t)
  | .error .missing =>
    match _h : path.parent? with
    | none => (false, t)
    | some parent =>
      match makeDirectories t parent with
      | (false, t) => (false, t)
      | (true, t) =>
        match t.makeDirectory path with
        | .ok t => (true, t)
        | .error _ => (t.isDirectory path, t)
termination_by path.length
decreasing_by exact FilePath.length_lt_of_parent? _h

/-- Open what a path leads to for writing. A file is emptied, and where nothing is there is a new one
then. Returns the node that is written to. -/
def openEmpty? (t : FileTree) (path : FilePath) : Option (Node × FileTree) :=
  match t.locate path with
  | .error _ => none
  | .ok place =>
    match t.node? place with
    | none => some (.file t.contents.length, t.createFile place)
    | some (.file id) => some (.file id, t.write id [])
    | some .device => some (.device, t)
    | some .directory | some (.link _) => none

/-- Write to a node that is open. -/
def store (t : FileTree) (n : Node) (bytes : Bytes) : FileTree :=
  match n with
  | .file id => t.write id bytes
  | _ => t

/-- Write the file that a path leads to, if it can be opened. -/
def writeFile (t : FileTree) (path : FilePath) (bytes : Bytes) : FileTree :=
  match t.openEmpty? path with
  | none => t
  | some (n, t) => t.store n bytes

/-- Take away the name that a path ends in, unless it is that of a directory. -/
def removeFile? (t : FileTree) (path : FilePath) : Option FileTree :=
  match t.locateName path with
  | .error _ => none
  | .ok names =>
    match t.node? names with
    | none | some .directory => none
    | some _ => some (t.erase names)

end FileTree

end ShuffleService
