import ShuffleService.StatusCode

/-!
# Errors of the shuffle service

The causes for which a request or a read fails, each with the data it names, and the one text that
reports it.
-/

namespace ShuffleService

/-- Why a request or a read failed. -/
inductive ShuffleError
  /-- An argument is outside of what the operation takes. -/
  | invalidArgument (detail : String)
  /-- A configured value is outside of what its option takes. -/
  | invalidConfig (detail : String)
  /-- Bytes that are no stored form of an id set. -/
  | malformedBitmap
  /-- The app was never seen, or has been purged. -/
  | appNotFound (app : String)
  /-- The app is known and the shuffle is not. -/
  | shuffleNotFound (app : String) (shuffle : Int)
  /-- The bytes of a block differ from those that were written. -/
  | checksumMismatch (blockId expected actual : Int)
  /-- A record locates bytes that cannot be there. -/
  | dataCorrupted (detail : String)
  /-- The storage ended before every expected block was seen. -/
  | blocksInconsistent (expected actual : Nat)
  /-- A placement that names no server for any partition. -/
  | emptyAssignment
  /-- A remote call that failed, or answered with a failure. -/
  | rpcFailed (status : StatusCode) (detail : String)
  /-- The storage below failed. -/
  | storage (detail : String)
  /-- Any other failure. -/
  | other (detail : String)
  deriving DecidableEq, Repr

namespace ShuffleError

/-- The text that reports an error. -/
def message : ShuffleError → String
  | .invalidArgument detail => "Invalid argument: " ++ detail
  | .invalidConfig detail => "Invalid config: " ++ detail
  | .malformedBitmap => "Bitmap bytes can't be deserialized"
  | .appNotFound app => s!"Can't find shuffle data, app: {app} is not found"
  | .shuffleNotFound app shuffle =>
    s!"Can't find shuffle data, shuffle: {shuffle} of app: {app} is not registered"
  | .checksumMismatch blockId expected actual =>
    s!"Unexpected crc value for blockId[{blockId}], expected:{expected}, actual:{actual}"
  | .dataCorrupted detail => "Shuffle data is corrupted: " ++ detail
  | .blocksInconsistent expected actual =>
    s!"Blocks read inconsistent: expected {expected} blocks, actual {actual} blocks"
  | .emptyAssignment => "Empty assignment to shuffle servers, please check the coordinator"
  | .rpcFailed status detail => s!"Rpc failed with status: {status.name}, message: {detail}"
  | .storage detail => detail
  | .other detail => detail

/-- Integrity errors end a read; asking the same storage again cannot mend them. -/
def isIntegrity : ShuffleError → Bool
  | .checksumMismatch .. | .dataCorrupted _ | .blocksInconsistent .. => true
  | _ => false

end ShuffleError

end ShuffleService
