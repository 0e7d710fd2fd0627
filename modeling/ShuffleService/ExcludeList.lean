import ShuffleService.FileEntry
import ShuffleService.NameSet
import ShuffleService.Text.Blank
import ShuffleService.Text.Utf8

/-!
# The list of excluded servers

An operator can exclude servers by a file with one server id a line. The file is looked at again and
again; the set of ids is replaced only when there is something new: a content other than the one
loaded last, or a file that can no longer be read after one that could.
-/

namespace ShuffleService

/-- The excluded servers as of the latest look at the file. -/
structure ExcludeList where
  names : NameSet := ∅
  /-- The content that was loaded last, unless the file could not be read since. -/
  content : Option Bytes := none
  /-- How often the set has been replaced. -/
  generation : Nat := 0

namespace ExcludeList

/-- The ids in the text of an exclude file: each line without the blanks around it, blank lines
left out. -/
def parse (text : String) : NameSet :=
  .ofList (((splitLines text.toList).map trim).filter (!·.isEmpty) |>.map String.ofList)

/-- Put a new set in place of the old one. -/
def replace (l : ExcludeList) (names : NameSet) (content : Option Bytes) : ExcludeList where
  names := names
  content := content
  generation := l.generation + 1

/-- Look at the file: its content, or `none` if it cannot be read. -/
def refresh (l : ExcludeList) : Option Bytes → ExcludeList
  | some content =>
    if l.content = some content then l
    else l.replace (parse (Utf8.decodeLossy content)) (some content)
  | none =>
    if l.content.isSome ∨ l.names.isEmpty = false then l.replace ∅ none
    else { l with content := none }

end ExcludeList

end ShuffleService
