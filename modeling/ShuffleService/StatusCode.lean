/-!
# Status codes

Every answer of a service carries one of three status codes. On the wire a code is a number;
a number outside the closed set is read as an internal error, never as success.
-/

namespace ShuffleService

/-- The outcome that a service reports with its answer. -/
inductive StatusCode
  | success
  | internalError
  | timeout
  deriving DecidableEq, Repr

namespace StatusCode

/-- The name a code is written with. -/
def name : StatusCode → String
  | .success => "SUCCESS"
  | .internalError => "INTERNAL_ERROR"
  | .timeout => "TIMEOUT"

/-- The number a code is sent as. -/
def number : StatusCode → Int
  | .success => 0
  | .internalError => 6
  | .timeout => 7

/-- Read a number as a code. Unknown numbers are internal errors. -/
def ofNumber (n : Int) : StatusCode :=
  if n = 0 then .success else if n = 7 then .timeout else .internalError

/-- The code with a given name. -/
def ofName? (s : String) : Option StatusCode :=
  [success, internalError, timeout].find? (·.name = s)

/-- Whether a code reports success. -/
def isSuccess (c : StatusCode) : Bool := c = .success

@[simp] theorem ofNumber_number (c : StatusCode) : ofNumber c.number = c := by
  cases c <;> rfl

@[simp] theorem ofName?_name (c : StatusCode) : ofName? c.name = some c := by
  cases c <;> rfl

/-- Success is reported by the number zero alone. -/
theorem isSuccess_ofNumber (n : Int) : (ofNumber n).isSuccess = true ↔ n = 0 := by
  unfold ofNumber isSuccess
  split
  · simp_all
  · split <;> simp_all

end StatusCode

end ShuffleService
