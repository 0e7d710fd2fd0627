import ShuffleService.Word

/-!
# What a file name stands for
-/

namespace ShuffleService

/-- What a name in a directory stands for. -/
inductive FileEntry
  | missing
  | file (content : Bytes)
  | directory
  deriving DecidableEq

/-- The bytes that reading an entry yields, if it can be read. -/
def FileEntry.content? : FileEntry → Option Bytes
  | .file content => some content
  | _ => none

end ShuffleService
